import BuildPipeline.Proofs.Calendar
import BuildPipeline.Time.Iso
import Mathlib.Algebra.Group.Nat.Defs

/-! Moments in writing: a moment is read back from its ISO text, but for an offset of less than a
second. -/

namespace BuildPipeline.Time

open BuildPipeline.Text

/-- The octets of a number with a fixed number of digits. -/
def digitOctets (width n : Nat) : List Nat := (decimal width n).map octet

theorem octet_glyph : ∀ d < 10, octet (lowerDigits[d]?.getD '0') = 48 + d := by decide

theorem isOctetDigit_iff {b : Nat} : isOctetDigit b = true ↔ 48 ≤ b ∧ b ≤ 57 := by
  simp [isOctetDigit, show octet '0' = 48 from rfl, show octet '9' = 57 from rfl]

theorem digitOctets_succ (width n : Nat) :
    digitOctets (width + 1) n = digitOctets width (n / 10) ++ [48 + n % 10] := by
  simp [digitOctets, decimal, digits, octet_glyph _ (Nat.mod_lt n (by decide : 10 > 0))]

theorem digitOctets_zero (n : Nat) : digitOctets 0 n = [] := rfl

theorem isOctetDigit_of_mem {width n b : Nat} (h : b ∈ digitOctets width n) :
    isOctetDigit b = true := by
  induction width generalizing n with
  | zero => simp [digitOctets_zero] at h
  | succ width ih =>
    rw [digitOctets_succ] at h
    rcases List.mem_append.1 h with h | h
    · exact ih h
    · have := Nat.mod_lt n (by decide : 10 > 0)
      rw [List.mem_singleton.1 h]
      exact isOctetDigit_iff.2 (by omega)

theorem takeDigits_append (j k n : Nat) (bs : List Nat) :
    takeDigits (j + k) n bs = (takeDigits j n bs).bind fun p => takeDigits k p.1 p.2 := by
  induction j generalizing n bs with
  | zero => simp [takeDigits]
  | succ j ih =>
    rw [Nat.succ_add]
    cases bs with
    | nil => rfl
    | cons b bs =>
      by_cases hb : isOctetDigit b
      · simp [takeDigits, hb, ih]
      · simp [takeDigits, hb]

theorem takeDigits_digitOctets (width n m : Nat) (rest : List Nat) :
    takeDigits width m (digitOctets width n ++ rest)
      = some (m * 10 ^ width + n % 10 ^ width, rest) := by
  induction width generalizing n rest with
  | zero => simp [takeDigits, digitOctets_zero, Nat.mod_one]
  | succ width ih =>
    have hlast : isOctetDigit (48 + n % 10) = true :=
      isOctetDigit_of_mem
        (show 48 + n % 10 ∈ digitOctets 1 n by simp [digitOctets_succ, digitOctets_zero])
    have hvalue : 10 * (m * 10 ^ width + n / 10 % 10 ^ width) + n % 10
        = m * 10 ^ (width + 1) + n % 10 ^ (width + 1) := by
      rw [Nat.pow_succ', Nat.mod_mul, Nat.mul_add, Nat.mul_left_comm m]
      omega
    rw [digitOctets_succ, takeDigits_append, List.append_assoc, ih]
    simp [takeDigits, hlast, hvalue]

/-- A number that fits its digits. -/
theorem takeDigits_of_lt {width n : Nat} (h : n < 10 ^ width) (rest : List Nat) :
    takeDigits width 0 (digitOctets width n ++ rest) = some (n, rest) := by
  rw [takeDigits_digitOctets, Nat.mod_eq_of_lt h, Nat.zero_mul, Nat.zero_add]

theorem front_digitOctets (width n : Nat) (rest : List Nat) :
    isOctetDigit (front (digitOctets (width + 1) n ++ rest)) = true := by
  obtain ⟨b, bs, h⟩ : ∃ b bs, digitOctets (width + 1) n = b :: bs :=
    List.exists_cons_of_ne_nil (by simp [digitOctets_succ])
  have hb : b ∈ digitOctets (width + 1) n := by simp [h]
  simpa [h, front] using isOctetDigit_of_mem hb

@[simp] theorem length_digitOctets (width n : Nat) : (digitOctets width n).length = width := by
  induction width generalizing n with
  | zero => rfl
  | succ width ih => simp [digitOctets_succ, ih]

/-- The octets of a day. -/
def dateOctets (d : Date) : List Nat :=
  digitOctets 4 d.year ++ octet '-' :: digitOctets 2 d.month ++ octet '-' :: digitOctets 2 d.day

theorem readDate_dateOctets {d : Date} (h : d.Valid) (rest : List Nat) :
    readDate 10 (dateOctets d ++ rest) = some (.ok d) := by
  have hmonth := front_digitOctets 1 d.month (octet '-' :: (digitOctets 2 d.day ++ rest))
  have hweek : front (digitOctets 2 d.month ++ octet '-' :: (digitOctets 2 d.day ++ rest))
      ≠ octet 'W' := by
    intro hw
    rw [hw] at hmonth
    exact absurd hmonth (by decide)
  have hday := daysInMonth_le d.year d.month
  simp only [readDate, dateOctets, List.append_assoc, List.cons_append]
  rw [takeDigits_of_lt (by have := h.year; omega)]
  simp only [Option.bind_eq_bind, Option.bind_some, front, List.headD_cons, beq_self_eq_true,
    if_true, List.drop_succ_cons, List.drop_zero]
  rw [front] at hweek
  rw [if_neg hweek, takeDigits_of_lt (by have := h.month; omega)]
  simp only [Option.bind_some, List.headD_cons, ne_eq, not_true_eq_false, and_false, if_false]
  rw [List.drop_succ_cons, List.drop_zero, takeDigits_of_lt (by have := h.day; omega)]
  simp [Date.make_of_valid h]

/-- The octets of a time of day; microseconds are left out when they are zero. -/
def clockOctets (h m s us : Nat) : List Nat := (Moment.clockText h m s us).map octet

theorem clockOctets_eq (h m s us : Nat) : clockOctets h m s us
    = digitOctets 2 h ++ octet ':' :: (digitOctets 2 m ++ octet ':' :: (digitOctets 2 s
      ++ if us = 0 then [] else octet '.' :: digitOctets 6 us)) := by
  by_cases hus : us = 0
  · simp [clockOctets, Moment.clockText, digitOctets, hus]
  · simp [clockOctets, Moment.clockText, digitOctets, hus]

theorem isZoneMark_of_mem_clockOctets {h m s us b : Nat} (hb : b ∈ clockOctets h m s us) :
    isZoneMark b = false := by
  have hdigit (width n : Nat) (hb : b ∈ digitOctets width n) : isZoneMark b = false := by
    obtain ⟨hl, hu⟩ := isOctetDigit_iff.1 (isOctetDigit_of_mem hb)
    simp only [isZoneMark, show octet '+' = 43 from rfl, show octet '-' = 45 from rfl,
      show octet 'Z' = 90 from rfl, Bool.or_eq_false_iff, beq_eq_false_iff_ne]
    omega
  rw [clockOctets_eq] at hb
  by_cases hus : us = 0
  · simp only [hus, if_true, List.mem_append, List.mem_cons, List.not_mem_nil, or_false] at hb
    rcases hb with hb | rfl | hb | rfl | hb
    · exact hdigit _ _ hb
    · rfl
    · exact hdigit _ _ hb
    · rfl
    · exact hdigit _ _ hb
  · simp only [hus, if_false, List.mem_append, List.mem_cons] at hb
    rcases hb with hb | rfl | hb | rfl | hb | rfl | hb
    · exact hdigit _ _ hb
    · rfl
    · exact hdigit _ _ hb
    · rfl
    · exact hdigit _ _ hb
    · rfl
    · exact hdigit _ _ hb

theorem readPairs_colon {k n : Nat} (hn : n < 100) {parts : List Nat} {colons : Bool} {room : Nat}
    (hroom : 3 < room) (hcolons : parts = [] ∨ colons = true) (rest : List Nat) :
    readPairs (k + 1) colons parts room (digitOctets 2 n ++ octet ':' :: rest)
      = readPairs k true (parts ++ [n]) (room - 3) rest := by
  have hkept : (if (parts ++ [n]).length = 1 then front (octet ':' :: rest) == octet ':'
      else colons) = true := by
    rcases hcolons with rfl | rfl
    · rfl
    · split <;> rfl
  rw [readPairs, takeDigits_of_lt (by omega)]
  simp only [Option.bind_eq_bind, Option.bind_some]
  rw [hkept, if_neg (by omega)]
  simp [front]

theorem dropWhile_digits {rest : List Nat} (h : isOctetDigit (front rest) = false) :
    rest.dropWhile isOctetDigit = rest := by
  cases rest with
  | nil => rfl
  | cons b rest => exact List.dropWhile_cons_of_neg (by simpa [front] using h)

theorem readClock_clockOctets {h m s us : Nat} (hh : h < 100) (hm : m < 100) (hs : s < 100)
    (hus : us < 1000000) (rest : List Nat) (hrest : isOctetDigit (front rest) = false) :
    readClock (clockOctets h m s us).length (clockOctets h m s us ++ rest)
      = some ⟨h, m, s, us, front rest == 0⟩ := by
  rw [readClock, clockOctets_eq, List.append_assoc, List.cons_append, List.append_assoc,
    List.cons_append, List.append_assoc]
  by_cases h0 : us = 0
  · subst h0
    rw [readPairs_colon hh (by simp) (.inl rfl), readPairs_colon hm (by simp) (.inr rfl), readPairs,
      if_pos rfl, takeDigits_of_lt (by omega)]
    simp
  · have hfraction : readFraction 6 [h, m, s] (digitOctets 6 us ++ rest)
        = some ⟨h, m, s, us, front rest == 0⟩ := by
      rw [readFraction, Nat.min_self, takeDigits_of_lt (by omega)]
      simp [dropWhile_digits hrest]
    rw [if_neg h0, readPairs_colon hh (by simp) (.inl rfl), readPairs_colon hm (by simp) (.inr rfl),
      readPairs, takeDigits_of_lt (by omega)]
    simpa [front, show octet '.' ≠ octet ':' by decide] using hfraction

/-- Hours and minutes that nothing follows. -/
theorem readClock_minutes {h m : Nat} (hh : h < 100) (hm : m < 100) :
    readClock 5 (digitOctets 2 h ++ octet ':' :: digitOctets 2 m) = some ⟨h, m, 0, 0, true⟩ := by
  have hminutes : digitOctets 2 m = digitOctets 2 m ++ [] := (List.append_nil _).symm
  rw [readClock, readPairs_colon hh (by decide) (.inl rfl), hminutes, readPairs,
    takeDigits_of_lt (by omega)]
  rfl

/-- The octets of an offset behind its sign. -/
def zoneOctets (n : Nat) : List Nat :=
  let m := n % hour / (60 * second)
  let s := n % (60 * second) / second
  if s = 0 ∧ n % second = 0 then digitOctets 2 (n / hour) ++ octet ':' :: digitOctets 2 m
  else clockOctets (n / hour) m s (n % second)

theorem offsetText_octets (micros : Int) : (Moment.offsetText micros).map octet
    = octet (if micros < 0 then '-' else '+') :: zoneOctets micros.natAbs := by
  rw [Moment.offsetText, zoneOctets, List.map_cons]
  congr 1
  split
  · simp [digitOctets]
  · rfl

theorem readClock_zoneOctets {n : Nat} (hn : n < day) :
    readClock (zoneOctets n).length (zoneOctets n)
      = some ⟨n / hour, n % hour / (60 * second), n % (60 * second) / second, n % second,
        true⟩ := by
  simp only [day, hour, second] at hn
  have hhours : n / hour < 100 := by
    simp only [hour, second]
    omega
  have hminutes : n % hour / (60 * second) < 100 := by
    simp only [hour, second]
    omega
  have hseconds : n % (60 * second) / second < 100 := by
    simp only [second]
    omega
  have hmicros : n % second < 1000000 := Nat.mod_lt n (by decide)
  rw [zoneOctets]
  split
  case isTrue h =>
    have hlength : (digitOctets 2 (n / hour)
        ++ octet ':' :: digitOctets 2 (n % hour / (60 * second))).length = 5 := by simp
    rw [hlength, readClock_minutes hhours hminutes, h.1, h.2]
  case isFalse =>
    have hread := readClock_clockOctets hhours hminutes hseconds hmicros [] rfl
    rwa [List.append_nil] at hread

/-- An offset as it is read: one of less than a second counts as none. -/
def readOffset (micros : Int) : Int := if micros.natAbs < second then 0 else micros

theorem offset_seconds (n : Nat) :
    n / hour * 3600 + n % hour / (60 * second) * 60 + n % (60 * second) / second = n / second := by
  rw [show hour = 3600000000 from rfl, show second = 1000000 from rfl]
  omega

/-- The microseconds that the parts of an offset are read as. -/
theorem offset_micros (n : Nat) : (if n / second = 0 then 0 else n / second * second + n % second)
    = if n < second then 0 else n := by
  rw [show second = 1000000 from rfl]
  split <;> split <;> omega

theorem takeWhile_clockOctets (h m s us : Nat) (rest : List Nat)
    (hrest : rest.takeWhile (!isZoneMark ·) = []) :
    (clockOctets h m s us ++ rest).takeWhile (!isZoneMark ·) = clockOctets h m s us := by
  rw [List.takeWhile_append_of_pos fun b hb => by simp [isZoneMark_of_mem_clockOctets hb], hrest,
    List.append_nil]

theorem readTime_naive {h m s us : Nat} (hh : h < 100) (hm : m < 100) (hs : s < 100)
    (hus : us < 1000000) :
    readTime (clockOctets h m s us) = some (⟨h, m, s, us, true⟩, none) := by
  have hread := readClock_clockOctets hh hm hs hus [] rfl
  have htake := takeWhile_clockOctets h m s us [] rfl
  rw [List.append_nil] at hread htake
  simp only [readTime, htake, hread, List.drop_length]
  rfl

theorem readTime_zone {h m s us : Nat} (hh : h < 100) (hm : m < 100) (hs : s < 100)
    (hus : us < 1000000) {micros : Int} (hmicros : micros.natAbs < day) :
    readTime (clockOctets h m s us ++ (Moment.offsetText micros).map octet)
      = some (⟨h, m, s, us, false⟩, some (readOffset micros)) := by
  have hzone := readClock_zoneOctets hmicros
  rw [offsetText_octets, readOffset]
  generalize zoneOctets micros.natAbs = zone at hzone
  by_cases hsign : micros < 0
  · have hread := readClock_clockOctets hh hm hs hus (octet '-' :: zone) rfl
    have htake := takeWhile_clockOctets h m s us (octet '-' :: zone) rfl
    have hvalue : -Int.ofNat (if micros.natAbs < second then 0 else micros.natAbs)
        = if micros.natAbs < second then 0 else micros := by
      rw [Int.ofNat_eq_natCast]
      split <;> omega
    simp only [if_pos hsign, readTime, htake, hread, List.drop_left, hzone, Option.bind_eq_bind,
      Option.bind_some, offset_seconds, offset_micros, if_true, hvalue,
      if_neg (show octet '-' ≠ octet 'Z' by decide)]
    rfl
  · have hread := readClock_clockOctets hh hm hs hus (octet '+' :: zone) rfl
    have htake := takeWhile_clockOctets h m s us (octet '+' :: zone) rfl
    have hvalue : Int.ofNat (if micros.natAbs < second then 0 else micros.natAbs)
        = if micros.natAbs < second then 0 else micros := by
      rw [Int.ofNat_eq_natCast]
      split <;> omega
    simp only [if_neg hsign, readTime, htake, hread, List.drop_left, hzone, Option.bind_eq_bind,
      Option.bind_some, offset_seconds, offset_micros, if_true, hvalue,
      if_neg (show octet '+' ≠ octet 'Z' by decide),
      if_neg (show octet '+' ≠ octet '-' by decide)]
    rfl

namespace Moment

theorem encodeUtf8_append (cs ds : List Char) :
    encodeUtf8 (cs ++ ds) = encodeUtf8 cs ++ encodeUtf8 ds := List.flatMap_append

theorem encodeUtf8_cons {c : Char} (h : c.toNat < 0x80) (cs : List Char) :
    encodeUtf8 (c :: cs) = octet c :: encodeUtf8 cs := by
  rw [encodeUtf8, List.flatMap_cons, encodeChar, if_pos h]
  rfl

theorem encodeUtf8_ascii {cs : List Char} (h : ∀ c ∈ cs, c.toNat < 0x80) :
    encodeUtf8 cs = cs.map octet := by
  induction cs with
  | nil => rfl
  | cons c cs ih =>
    rw [encodeUtf8_cons (h c List.mem_cons_self), List.map_cons,
      ih fun c hc => h c (List.mem_cons_of_mem _ hc)]

theorem encodeUtf8_decimal (width n : Nat) :
    encodeUtf8 (decimal width n) = digitOctets width n := by
  refine encodeUtf8_ascii fun c hc => ?_
  have := isOctetDigit_iff.1 (isOctetDigit_of_mem (List.mem_map_of_mem hc : octet c ∈ _))
  rw [octet] at this
  omega

theorem encodeUtf8_clockText (h m s us : Nat) :
    encodeUtf8 (clockText h m s us) = clockOctets h m s us := by
  have hcolon (cs : List Char) : encodeUtf8 (':' :: cs) = octet ':' :: encodeUtf8 cs :=
    encodeUtf8_cons (by decide) cs
  have hpoint (cs : List Char) : encodeUtf8 ('.' :: cs) = octet '.' :: encodeUtf8 cs :=
    encodeUtf8_cons (by decide) cs
  rw [clockOctets_eq]
  by_cases h0 : us = 0
  · simp [clockText, encodeUtf8_append, hcolon, encodeUtf8_decimal, h0]
  · simp [clockText, encodeUtf8_append, hcolon, hpoint, encodeUtf8_decimal, h0]

theorem encodeUtf8_offsetText (micros : Int) :
    encodeUtf8 (offsetText micros) = (offsetText micros).map octet := by
  have hcolon (cs : List Char) : encodeUtf8 (':' :: cs) = octet ':' :: encodeUtf8 cs :=
    encodeUtf8_cons (by decide) cs
  have hsign : (if micros < 0 then '-' else '+').toNat < 0x80 := by split <;> decide
  rw [offsetText, encodeUtf8_cons hsign, List.map_cons]
  congr 1
  split
  · simp [encodeUtf8_append, hcolon, encodeUtf8_decimal, digitOctets]
  · exact encodeUtf8_clockText _ _ _ _

theorem octets_iso (t : Moment) :
    encodeUtf8 t.iso.toList = dateOctets t.date ++ octet 'T'
      :: (clockOctets t.hours t.minutes t.seconds t.fraction
        ++ ((t.offset.map offsetText).getD []).map octet) := by
  have hzone : encodeUtf8 ((t.offset.map offsetText).getD [])
      = ((t.offset.map offsetText).getD []).map octet := by
    cases t.offset with
    | none => rfl
    | some micros => exact encodeUtf8_offsetText micros
  have hhyphen (cs : List Char) : encodeUtf8 ('-' :: cs) = octet '-' :: encodeUtf8 cs :=
    encodeUtf8_cons (by decide) cs
  have ht (cs : List Char) : encodeUtf8 ('T' :: cs) = octet 'T' :: encodeUtf8 cs :=
    encodeUtf8_cons (by decide) cs
  simp [iso, text, Date.iso, dateOctets, encodeUtf8_append, hhyphen, ht, encodeUtf8_decimal,
    encodeUtf8_clockText, hzone]

theorem separatorAt_dateOctets (d : Date) (bs : List Nat) :
    separatorAt (dateOctets d ++ bs) = 10 := by
  obtain ⟨y₁, y₂, y₃, y₄, hy⟩ : ∃ a b c e, digitOctets 4 d.year = [a, b, c, e] := by
    simp [digitOctets_succ, digitOctets_zero]
  obtain ⟨m₁, m₂, hm⟩ : ∃ a b, digitOctets 2 d.month = [a, b] := by
    simp [digitOctets_succ, digitOctets_zero]
  have hweek : m₁ ≠ octet 'W' := by
    rintro rfl
    exact absurd (isOctetDigit_of_mem (show octet 'W' ∈ digitOctets 2 d.month by simp [hm]))
      (by decide)
  simp [separatorAt, dateOctets, hy, hm, hweek]

theorem hours_le (t : Moment) : t.hours ≤ 23 := by
  simp only [hours, day, hour, second]
  omega

theorem minutes_le (t : Moment) : t.minutes ≤ 59 := by
  simp only [minutes, hour, second]
  omega

theorem seconds_le (t : Moment) : t.seconds ≤ 59 := by
  simp only [seconds, second]
  omega

theorem fraction_le (t : Moment) : t.fraction ≤ 999999 := by
  simp only [fraction, second]
  omega

/-- Midnight of a day and a time of day make up a moment. -/
theorem make_parts {t : Moment} (ht : t.micros < horizon) :
    make t.date t.hours t.minutes t.seconds t.fraction t.offset = .ok t := by
  have hordinal := (date_spec ht).2
  have hmicros : (t.date.ordinal - 1) * day + t.hours * hour + t.minutes * (60 * second)
      + t.seconds * second + t.fraction = t.micros := by
    simp only [hordinal, hours, minutes, seconds, fraction, day, hour, second]
    omega
  rw [make, if_neg (Nat.not_lt.2 t.hours_le), if_neg (Nat.not_lt.2 t.minutes_le),
    if_neg (Nat.not_lt.2 t.seconds_le), if_neg (Nat.not_lt.2 t.fraction_le), hmicros]

/-- A moment that the calendar and the clocks have. -/
structure Valid (t : Moment) : Prop where
  micros : t.micros < horizon
  offset : ∀ o ∈ t.offset, o.natAbs < day

instance (t : Moment) : Decidable t.Valid :=
  decidable_of_iff (t.micros < horizon ∧ ∀ o ∈ t.offset, o.natAbs < day)
    ⟨fun h => ⟨h.1, h.2⟩, fun h => ⟨h.micros, h.offset⟩⟩

/-- A moment as it is read back. -/
def reread (t : Moment) : Moment := { t with offset := t.offset.map readOffset }

theorem readTime_octets {t : Moment} (ht : t.Valid) : ∃ complete,
    readTime (clockOctets t.hours t.minutes t.seconds t.fraction
        ++ ((t.offset.map offsetText).getD []).map octet)
      = some (⟨t.hours, t.minutes, t.seconds, t.fraction, complete⟩, t.reread.offset) := by
  have hhours := Nat.lt_of_le_of_lt t.hours_le (by decide : 23 < 100)
  have hminutes := Nat.lt_of_le_of_lt t.minutes_le (by decide : 59 < 100)
  have hseconds := Nat.lt_of_le_of_lt t.seconds_le (by decide : 59 < 100)
  have hfraction := Nat.lt_succ_of_le t.fraction_le
  rw [reread]
  cases ho : t.offset with
  | none =>
    refine ⟨true, ?_⟩
    rw [Option.map_none, Option.getD_none, List.map_nil, List.append_nil]
    exact readTime_naive hhours hminutes hseconds hfraction
  | some micros =>
    exact ⟨false, readTime_zone hhours hminutes hseconds hfraction (ht.offset micros ho)⟩

theorem checkOffset_reread {t : Moment} (ht : t.Valid) :
    t.reread.offset.mapM checkOffset = .ok t.reread.offset := by
  rw [reread]
  cases ho : t.offset with
  | none => rfl
  | some micros =>
    have hlt : (readOffset micros).natAbs < day := by
      rw [readOffset]
      split
      · decide
      · exact ht.offset micros ho
    have hcheck : checkOffset (readOffset micros) = .ok (readOffset micros) := if_pos hlt
    change (some <$> checkOffset (readOffset micros) : Except TimeError (Option Int)) = _
    rw [hcheck]
    rfl

theorem read_iso_reread {t : Moment} (ht : t.Valid) : read t.iso = .ok t.reread := by
  obtain ⟨complete, htime⟩ := readTime_octets ht
  have hparts : readParts (encodeUtf8 t.iso.toList)
      = some (.ok t.date, ⟨t.hours, t.minutes, t.seconds, t.fraction, complete⟩,
        t.reread.offset) := by
    have hlength : (dateOctets t.date).length = 10 := by simp [dateOctets]
    have hwidth : widthOf (octet 'T') = 1 := rfl
    rw [octets_iso t, readParts, separatorAt_dateOctets, if_neg (by simp [hlength]; omega)]
    dsimp only
    rw [readDate_dateOctets (date_spec ht.micros).1, List.drop_left' hlength]
    simp [hlength, front, hwidth, htime]
  have hmake : make t.date t.hours t.minutes t.seconds t.fraction t.reread.offset = .ok t.reread :=
    make_parts (t := t.reread) ht.micros
  rw [read, hparts]
  dsimp only
  rw [checkOffset_reread ht]
  change (make t.date t.hours t.minutes t.seconds t.fraction t.reread.offset).mapError _ = _
  rw [hmake]
  rfl

theorem read_iso {t : Moment} (h : t.offset = some 0) (ht : t.micros < horizon) :
    read t.iso = .ok t := by
  have hvalid : t.Valid := ⟨ht, by simp [h, day, hour, second]⟩
  have hreread : t.reread = t := by
    rw [reread, h, Option.map_some, show readOffset 0 = 0 from rfl, ← h]
  rw [read_iso_reread hvalid, hreread]

end Moment

end BuildPipeline.Time

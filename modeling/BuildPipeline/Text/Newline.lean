/-!
Ends of lines. Reading a text file turns each end of line into a line feed.
-/
namespace BuildPipeline.Text

def lineFeeds : List Char → List Char
  | [] => []
  | '\r' :: '\n' :: cs => '\n' :: lineFeeds cs
  | '\r' :: cs => '\n' :: lineFeeds cs
  | c :: cs => c :: lineFeeds cs

end BuildPipeline.Text

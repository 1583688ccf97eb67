import TypedLoader.Text.Blank
import TypedLoader.Text.Search

namespace TypedLoader.SourceMapLink

def isLink (line : List Char) : Bool :=
  let line := Text.trimStart line
  "//# sourceMappingURL=".toList.isPrefixOf line || "//@ sourceMappingURL=".toList.isPrefixOf line

def isLineEnd (c : Char) : Bool := c == '\n' || c == '\r'

/-- Removes the last line of a text, and the line ends behind it, if it is such
a comment. -/
def strip (text : String) : String :=
  let back := text.toList.reverse.dropWhile isLineEnd
  let last := (back.takeWhile (· != '\n')).reverse
  if isLink last then String.ofList (back.dropWhile (· != '\n')).reverse else text

end TypedLoader.SourceMapLink

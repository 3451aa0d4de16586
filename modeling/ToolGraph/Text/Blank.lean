import ToolGraph.Text.CharRange

/-! White space: what separates words, what is trimmed from a field, and where a line ends. -/
namespace ToolGraph.Text

def blankRanges : List (Nat × Nat) :=
  [(9, 13), (28, 32), (133, 133), (160, 160), (5760, 5760), (8192, 8202), (8232, 8233),
    (8239, 8239), (8287, 8287), (12288, 12288)]

/-- A separator of any script, one of the control characters that move the position, or one of
the four information separators. -/
def isBlank (c : Char) : Bool := inRanges blankRanges c

/-- Drops the longest run of `p` from the end. -/
def dropEndWhile (p : Char → Bool) (text : List Char) : List Char :=
  (text.reverse.dropWhile p).reverse

/-- Drops the longest runs of `p` from both ends. -/
def trimWhile (p : Char → Bool) (text : List Char) : List Char :=
  dropEndWhile p (text.dropWhile p)

def trim (text : List Char) : List Char := trimWhile isBlank text

/-- The characters that end a line; a carriage return takes a following line feed with it. -/
def isLineEnd (c : Char) : Bool :=
  inRanges [(10, 13), (28, 30), (133, 133), (8232, 8233)] c

/-- The lines of `rest`, the current one continuing `line`, which is reversed. -/
def linesFrom (line : List Char) : (rest : List Char) → List (List Char)
  | [] => if line.isEmpty then [] else [line.reverse]
  | '\r' :: '\n' :: rest => line.reverse :: linesFrom [] rest
  | c :: rest =>
    if isLineEnd c then line.reverse :: linesFrom [] rest else linesFrom (c :: line) rest

/-- The lines of a text without their ends. Text that ends with a line end has no further line. -/
def lines (text : List Char) : List (List Char) := linesFrom [] text

/-- A text without the white space at its ends. -/
def trimmed (text : String) : String := String.ofList (trim text.toList)

end ToolGraph.Text

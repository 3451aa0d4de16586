/-! Cutting a text at a character or a word, and putting the pieces together. -/
namespace ToolGraph.Text

/-- The text before the first `mark` and the text after it; none where there is no `mark`. -/
def cutAt? (mark : Char) : List Char → Option (List Char × List Char)
  | [] => none
  | c :: rest =>
    if c = mark then some ([], rest)
    else (cutAt? mark rest).map (fun cut => (c :: cut.1, cut.2))

/-- As `cutAt?`, with nothing after the text where there is no `mark`. -/
def cutAt (mark : Char) (text : List Char) : List Char × List Char :=
  (cutAt? mark text).getD (text, [])

/-- The text before the last `mark` and the text after it. -/
def cutAtLast? (mark : Char) (text : List Char) : Option (List Char × List Char) :=
  (cutAt? mark text.reverse).map (fun cut => (cut.2.reverse, cut.1.reverse))

def splitAt (mark : Char) : List Char → List (List Char)
  | [] => [[]]
  | c :: rest =>
    if c = mark then [] :: splitAt mark rest
    else
      match splitAt mark rest with
      | [] => [[c]]
      | piece :: pieces => (c :: piece) :: pieces

/-- The pieces with `between` set between any two neighbours. -/
def joinWith (between : List Char) : List (List Char) → List Char
  | [] => []
  | [piece] => piece
  | piece :: pieces => piece ++ between ++ joinWith between pieces

/-- `part` occurs somewhere in the text. -/
def contains (part : List Char) : List Char → Bool
  | [] => part.isEmpty
  | c :: rest => part.isPrefixOf (c :: rest) || contains part rest

def startsWith (start : String) (text : List Char) : Bool :=
  start.toList.isPrefixOf text

/-- The first word of the text, taken between blanks or ends, that is `word`: the text before it
and the text after it. `fresh` says that a word may start at once. -/
def cutAtWord? (blank : Char → Bool) (word : List Char) (fresh : Bool) :
    List Char → Option (List Char × List Char)
  | [] => none
  | c :: rest =>
    let after := (c :: rest).drop word.length
    if fresh && word.isPrefixOf (c :: rest) && after.head?.all blank then some ([], after)
    else (cutAtWord? blank word (blank c) rest).map (fun cut => (c :: cut.1, cut.2))

end ToolGraph.Text

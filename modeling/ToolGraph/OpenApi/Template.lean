/-! Texts with placeholders, names between braces. -/
namespace ToolGraph.OpenApi

/-- A piece of a template: one character of its text, or the name of a placeholder. -/
inductive Piece where
  | char (c : Char)
  | hole (name : List Char)
  deriving DecidableEq, Repr

namespace Piece

/-- The pieces of a text. A placeholder reaches from an opening brace to the next closing one and
has a name that is not empty. `name` is what has been read since a brace that is still open. -/
def readFrom (name : Option (List Char)) : (rest : List Char) → List Piece
  | [] =>
    match name with
    | none => []
    | some name => char '\x7b' :: name.map char
  | c :: rest =>
    match name with
    | none => if c = '\x7b' then readFrom (some []) rest else char c :: readFrom none rest
    | some name =>
      if c ≠ '\x7d' then readFrom (some (name ++ [c])) rest
      else if name = [] then char '\x7b' :: char c :: readFrom none rest
      else hole name :: readFrom none rest

def read (text : List Char) : List Piece := readFrom none text

def source : Piece → List Char
  | char c => [c]
  | hole name => '\x7b' :: name ++ ['\x7d']

/-- The piece for a runner, which marks placeholders with a dollar sign. -/
def marked : Piece → List Char
  | char c => [c]
  | hole name => '$' :: '\x7b' :: name ++ ['\x7d']

end Piece
end ToolGraph.OpenApi

import ToolGraph.Yaml.Node
import ToolGraph.Yaml.Plain

/-!
The data of a YAML document. Where several nodes have no value, the error is that of the outermost
one, and of two on one level that of the first.
-/
namespace ToolGraph.Yaml

/-- A value, or an error and how many levels below it was met. -/
abbrev Built (α : Type) := Except (Nat × Error) α

namespace Built

def fail {α : Type} (error : Error) : Built α := .error (0, error)

def ofScalar {α : Type} (value : Except Error α) : Built α := value.mapError ((0, ·))

/-- Moves an error one level down. -/
def below {α : Type} (built : Built α) : Built α :=
  built.mapError (fun error => (error.1 + 1, error.2))

/-- Both values; of two errors the one on the outer level, else the first. -/
def both {α β : Type} (left : Built α) (right : Built β) : Built (α × β) :=
  match left, right with
  | .ok l, .ok r => .ok (l, r)
  | .error l, .ok _ => .error l
  | .ok _, .error r => .error r
  | .error l, .error r => .error (if r.1 < l.1 then r else l)

end Built

namespace Node

def tag : Node → Tag
  | .scalar tag _ | .sequence tag _ | .mapping tag _ => tag

def isScalar : Node → Bool
  | .scalar _ _ => true
  | .sequence _ _ | .mapping _ _ => false

/-- The type of a node; none where its tag is unknown. -/
def kind? : Node → Option Kind
  | .scalar (.unwritten plain) text => some (if plain then Kind.ofPlain text else .text)
  | .sequence (.unwritten _) _ => some .sequence
  | .mapping (.unwritten _) _ => some .mapping
  | .scalar (.written tag) _ | .sequence (.written tag) _ | .mapping (.written tag) _ =>
    Kind.ofTag? tag

def isMerge (node : Node) : Bool := node.kind? == some .merge

mutual

/-- The text of a scalar. A mapping has the text of its default key. -/
def text? : Node → Option String
  | .scalar _ text => some text
  | .sequence _ _ => none
  | .mapping _ entries => defaultText? entries

def defaultText? : List (Node × Node) → Option String
  | [] => none
  | (key, value) :: entries =>
    if key.kind? = some .default then value.text? else defaultText? entries

end

/-- The value of a node whose type is one of scalars. A timestamp is looked for in no mapping. -/
def scalarValue (kind : Kind) (scalar : Bool) (text : Option String) : Built Value :=
  match text with
  | none => .fail .malformed
  | some text =>
    .ofScalar <|
      match kind with
      | .null => .ok .null
      | .bool => (boolValue text).map .bool
      | .int => (intValue text.toList).map .int
      | .float => (floatValue text.toList).map .float
      | .timestamp => if scalar then timestampValue text.toList else .error .noTimestamp
      | .binary => binaryValue text.toList
      | .text => .ok (.text text)
      | _ => .error .malformed

def tableOf (entries : List (Value × Value)) : List (Value × Value) :=
  entries.foldl (fun table entry => Value.putEntry table entry.1 entry.2) []

def keyOf (node : Node) (built : Built Value) : Built Value :=
  match node.kind?, node with
  | some .default, .scalar _ text => .ok (.text text)
  | some .sequence, _ | some .mapping, _ | some .set, _ | some .ordered, _ => .fail .malformed
  | _, _ => built

mutual

def canMerge : List (Node × Node) → Bool
  | [] => true
  | (key, value) :: entries => (!key.isMerge || canBeMerged value) && canMerge entries

/-- A mapping or a sequence of mappings, and the same of what these bring in. -/
def canBeMerged : Node → Bool
  | .mapping _ entries => canMerge entries
  | .sequence _ items => canAllBeMerged items
  | .scalar _ _ => false

def canAllBeMerged : List Node → Bool
  | [] => true
  | .mapping _ entries :: items => canMerge entries && canAllBeMerged items
  | _ :: _ => false

end

/-- The table of a mapping from its entries and the parts that they are built to. Merge keys are
looked at before the others. -/
def tableFrom (entries : List (Node × Node))
    (parts : Built (List (Value × Value) × List (Value × Value))) :
    Built (List (Value × Value)) :=
  if canMerge entries then parts.map (fun parts => tableOf (parts.1 ++ parts.2))
  else .fail .malformed

mutual

/-- The data of a node. The parts of a collection lie one level below it. -/
def build : Node → Built Value
  | .scalar tag text =>
    match kind? (.scalar tag text) with
    | none => .fail .malformed
    | some .sequence | some .mapping | some .set | some .ordered => .below (.fail .malformed)
    | some kind => scalarValue kind true (some text)
  | .sequence tag items =>
    match kind? (.sequence tag items) with
    | some .sequence => .below ((buildItems items).map .list)
    | some .ordered => .below ((buildPairs items).map .list)
    | some .mapping | some .set => .below (.fail .malformed)
    | _ => .fail .malformed
  | .mapping tag entries =>
    match kind? (.mapping tag entries) with
    | some .mapping => .below ((tableFrom entries (buildEntries entries)).map .map)
    | some .set =>
      .below ((tableFrom entries (buildEntries entries)).map (fun table => .set (table.map (·.1))))
    | some .sequence | some .ordered => .below (.fail .malformed)
    | some kind => scalarValue kind false (defaultText? entries)
    | none => .fail .malformed

def buildItems : List Node → Built (List Value)
  | [] => .ok []
  | item :: items => (Built.both (build item) (buildItems items)).map (fun both => both.1 :: both.2)

/-- Pairs are written as mappings of one entry. -/
def buildPairs : List Node → Built (List Value)
  | [] => .ok []
  | item :: items => (Built.both (buildPair item) (buildPairs items)).map (fun both => both.1 :: both.2)

def buildPair : Node → Built Value
  | .mapping _ [(key, value)] =>
    (Built.both (build key) (build value)).map (fun both => .pair both.1 both.2)
  | _ => .fail .malformed

/-- The entries of a mapping, those that are merged into it apart. The key `=` is a text. -/
def buildEntries : List (Node × Node) → Built (List (Value × Value) × List (Value × Value))
  | [] => .ok ([], [])
  | (key, value) :: entries =>
    if key.isMerge then
      (Built.both (buildMerged value) (buildEntries entries)).map
        (fun both => (both.1 ++ both.2.1, both.2.2))
    else
      (Built.both (Built.both (keyOf key (build key)) (build value)) (buildEntries entries)).map
        (fun both => (both.2.1, both.1 :: both.2.2))

/-- The entries that a merge key brings in: of a mapping, or of several, where the first wins. -/
def buildMerged : Node → Built (List (Value × Value))
  | .mapping _ entries => (buildEntries entries).map (fun parts => parts.1 ++ parts.2)
  | .sequence _ items => buildMergedItems items
  | .scalar _ _ => .fail .malformed

def buildMergedItems : List Node → Built (List (Value × Value))
  | [] => .ok []
  | .mapping _ entries :: items =>
    (Built.both ((buildEntries entries).map (fun parts => parts.1 ++ parts.2))
      (buildMergedItems items)).map (fun both => both.2 ++ both.1)
  | _ :: _ => .fail .malformed

end

end Node

/-- The data of a text; null where it holds no document. -/
def parse (text : String) : Except Error Value := do
  match ← Node.ofText text.toList with
  | none => return .null
  | some root => root.build.mapError (·.2)

end ToolGraph.Yaml

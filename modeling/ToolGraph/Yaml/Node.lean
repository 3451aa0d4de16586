import ToolGraph.Entries
import ToolGraph.Yaml.Token

/-!
The tree of a YAML document. Tags are complete and an alias is replaced by the node that it names;
a plain scalar keeps its text, whose type is found later. A node that is a part of itself has no tree and
is refused.
-/
namespace ToolGraph.Yaml

/-- What is known about the type of a node. -/
inductive Tag where
  | unwritten (plain : Bool)
  | written (tag : String)
  deriving DecidableEq, Repr

inductive Node where
  | scalar (tag : Tag) (text : String)
  | sequence (tag : Tag) (items : List Node)
  | mapping (tag : Tag) (entries : List (Node × Node))

namespace Node

/-- The tokens ahead and what they may refer to. An anchor whose node is still being read has no
node yet. -/
structure Reading where
  tokens : List Token
  anchors : Entries String (Option Node)
  handles : Entries String String

abbrev Reader := StateT Reading (Except Error)

def malformed {α : Type} : Reader α := fun _ => .error .malformed

def peek : Reader Token := fun reading => .ok (reading.tokens.headD .streamEnd, reading)

def drop : Reader Unit := fun reading =>
  .ok ((), { reading with tokens := reading.tokens.tail })

/-- Takes the token if it comes next. -/
def accept (token : Token) : Reader Bool := fun reading =>
  if reading.tokens.head? = some token then
    .ok (true, { reading with tokens := reading.tokens.tail })
  else .ok (false, reading)

def setAnchor (name : Option String) (node : Option Node) : Reader Unit := fun reading =>
  match name with
  | none => .ok ((), reading)
  | some name => .ok ((), { reading with anchors := reading.anchors.put name node })

/-- The node of an anchor. Inside its own node an alias has none. -/
def aliased (name : String) : Reader Node := fun reading =>
  match reading.anchors.get? name with
  | some (some node) => .ok (node, reading)
  | _ => .error .malformed

def emptyScalar : Node := .scalar (.unwritten true) ""

def resolveTag (tag : WrittenTag) : Reader String := fun reading =>
  match tag.handle with
  | none => .ok (tag.suffix, reading)
  | some handle =>
    match reading.handles.get? handle with
    | some start => .ok (start ++ tag.suffix, reading)
    | none => .error .malformed

def properties : Reader (Option String × Option String) := do
  match ← peek with
  | .anchor name =>
    drop
    match ← peek with
    | .tag tag => drop; return (some name, some (← resolveTag tag))
    | _ => return (some name, none)
  | .tag tag =>
    drop
    match ← peek with
    | .anchor name => drop; return (some name, some (← resolveTag tag))
    | _ => return (none, some (← resolveTag tag))
  | _ => return (none, none)

/-- The tag of a collection. The tag `!` says nothing. -/
def collectionTag (tag : Option String) : Tag :=
  match tag with
  | none | some "!" => .unwritten true
  | some tag => .written tag

/-- The tag of a scalar. Without a tag it matters whether the scalar is plain; with the tag `!` it
counts as plain. -/
def scalarTag (tag : Option String) (plain : Bool) : Tag :=
  match tag with
  | none => .unwritten plain
  | some "!" => .unwritten true
  | some tag => .written tag

/-- What an indentation allows to start a node. -/
structure Context where
  block : Bool
  indentless : Bool

def anchored (name : Option String) (node : Node) : Reader Node := do
  setAnchor name (some node)
  return node

mutual

def read (steps : Nat) (context : Context) : Reader Node :=
  match steps with
  | 0 => malformed
  | steps + 1 => do
    match ← peek with
    | .alias name => drop; aliased name
    | _ =>
      let (anchor, tag) ← properties
      match anchor with
      | some name => if (← get).anchors.has name then malformed
      | none => pure ()
      match ← peek with
      | .scalar text plain =>
        drop
        anchored anchor (.scalar (scalarTag tag plain) text)
      | .flowSequenceStart =>
        drop; setAnchor anchor none
        anchored anchor (.sequence (collectionTag tag) (← readFlowItems steps true))
      | .flowMappingStart =>
        drop; setAnchor anchor none
        anchored anchor (.mapping (collectionTag tag) (← readFlowEntries steps true))
      | .blockSequenceStart =>
        if context.block then
          drop; setAnchor anchor none
          anchored anchor (.sequence (collectionTag tag) (← readBlockItems steps))
        else readEmpty anchor tag
      | .blockMappingStart =>
        if context.block then
          drop; setAnchor anchor none
          anchored anchor (.mapping (collectionTag tag) (← readBlockEntries steps))
        else readEmpty anchor tag
      | .blockEntry =>
        if context.indentless then
          setAnchor anchor none
          anchored anchor (.sequence (collectionTag tag) (← readIndentlessItems steps))
        else readEmpty anchor tag
      | _ => readEmpty anchor tag

def readEmpty (anchor tag : Option String) : Reader Node :=
  if anchor.isSome || tag.isSome then
    anchored anchor (.scalar (scalarTag tag true) "")
  else malformed

def readBlockItems (steps : Nat) : Reader (List Node) :=
  match steps with
  | 0 => malformed
  | steps + 1 => do
    match ← peek with
    | .blockEntry =>
      drop
      let item ← match ← peek with
        | .blockEntry | .blockEnd => pure emptyScalar
        | _ => read steps ⟨true, false⟩
      return item :: (← readBlockItems steps)
    | .blockEnd => drop; return []
    | _ => malformed

def readIndentlessItems (steps : Nat) : Reader (List Node) :=
  match steps with
  | 0 => malformed
  | steps + 1 => do
    match ← peek with
    | .blockEntry =>
      drop
      let item ← match ← peek with
        | .blockEntry | .key | .value | .blockEnd => pure emptyScalar
        | _ => read steps ⟨true, false⟩
      return item :: (← readIndentlessItems steps)
    | _ => return []

/-- The entries of a block mapping, with its end. A key may stand without a value. -/
def readBlockEntries (steps : Nat) : Reader (List (Node × Node)) :=
  match steps with
  | 0 => malformed
  | steps + 1 => do
    match ← peek with
    | .key =>
      drop
      let key ← readBlockPart steps
      let value ← if ← accept .value then readBlockPart steps else pure emptyScalar
      return (key, value) :: (← readBlockEntries steps)
    | .blockEnd => drop; return []
    | _ => malformed

def readBlockPart (steps : Nat) : Reader Node :=
  match steps with
  | 0 => malformed
  | steps + 1 => do
    match ← peek with
    | .key | .value | .blockEnd => return emptyScalar
    | _ => read steps ⟨true, true⟩

/-- The items of a flow sequence, with its end. A key makes a mapping of one entry. -/
def readFlowItems (steps : Nat) (first : Bool) : Reader (List Node) :=
  match steps with
  | 0 => malformed
  | steps + 1 => do
    if ← accept .flowSequenceEnd then return []
    if !first then
      if !(← accept .flowEntry) then malformed
    if ← accept .key then
      let key ← match ← peek with
        | .value | .flowEntry | .flowSequenceEnd => pure emptyScalar
        | _ => read steps ⟨false, false⟩
      let value ←
        if ← accept .value then
          match ← peek with
          | .flowEntry | .flowSequenceEnd => pure emptyScalar
          | _ => read steps ⟨false, false⟩
        else pure emptyScalar
      return .mapping (.unwritten true) [(key, value)] :: (← readFlowItems steps false)
    else if ← accept .flowSequenceEnd then return []
    else
      let item ← read steps ⟨false, false⟩
      return item :: (← readFlowItems steps false)

/-- The entries of a flow mapping, with its end. An item without a key token is a key without a
value. -/
def readFlowEntries (steps : Nat) (first : Bool) : Reader (List (Node × Node)) :=
  match steps with
  | 0 => malformed
  | steps + 1 => do
    if ← accept .flowMappingEnd then return []
    if !first then
      if !(← accept .flowEntry) then malformed
    if ← accept .key then
      let key ← match ← peek with
        | .value | .flowEntry | .flowMappingEnd => pure emptyScalar
        | _ => read steps ⟨false, false⟩
      let value ←
        if ← accept .value then
          match ← peek with
          | .flowEntry | .flowMappingEnd => pure emptyScalar
          | _ => read steps ⟨false, false⟩
        else pure emptyScalar
      return (key, value) :: (← readFlowEntries steps false)
    else if ← accept .flowMappingEnd then return []
    else
      let key ← read steps ⟨false, false⟩
      return (key, emptyScalar) :: (← readFlowEntries steps false)

end

def defaultHandles : Entries String String := [("!", "!"), ("!!", "tag:yaml.org,2002:")]

/-- The directives before a document: at most one version, which is 1, and handles that differ. -/
def readDirectives (steps : Nat) (version : Bool) (handles : Entries String String) :
    Reader (Entries String String) :=
  match steps with
  | 0 => malformed
  | steps + 1 => do
    match ← peek with
    | .directive directive =>
      drop
      match directive with
      | .version major =>
        if version || major != 1 then malformed else readDirectives steps true handles
      | .handle name meaning =>
        if handles.has name then malformed
        else readDirectives steps version (handles.put name meaning)
      | .other => readDirectives steps version handles
    | _ => return defaultHandles.foldl (fun handles entry => handles.putNew entry.1 entry.2) handles

def dropDocumentEnds (steps : Nat) : Reader Unit :=
  match steps with
  | 0 => malformed
  | steps + 1 => do
    if ← accept .documentEnd then dropDocumentEnds steps

/-- The root of the only document; none where the text holds no document. -/
def readDocument (steps : Nat) : Reader (Option Node) := do
  match ← peek with
  | .streamEnd => return none
  | .directive _ | .documentStart =>
    let handles ← readDirectives steps false []
    modify (fun reading => { reading with handles })
    if !(← accept .documentStart) then malformed
    match ← peek with
    | .directive _ | .documentStart | .documentEnd | .streamEnd => return some emptyScalar
    | _ => return some (← read steps ⟨true, false⟩)
  | _ => return some (← read steps ⟨true, false⟩)

def ofText (text : List Char) : Except Error (Option Node) := do
  let tokens ← Tokens.ofText text
  let steps := 4 * tokens.length + 4
  let whole : Reader (Option Node) := do
    let root ← readDocument steps
    dropDocumentEnds steps
    if (← peek) = .streamEnd then return root else malformed
  let (root, _) ← whole { tokens, anchors := [], handles := defaultHandles }
  return root

end Node
end ToolGraph.Yaml

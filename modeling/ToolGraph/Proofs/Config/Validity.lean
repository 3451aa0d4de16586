import ToolGraph.Proofs.AtomicWrite
import ToolGraph.Proofs.Config.Precedence

/-!
Which settings are refused, and how. The settings resolve exactly if nothing is wrong with any layer,
apart from two kinds of flaws in the file of the project that are overlooked; and what is refused is
refused as a configuration, apart from faults that get through.
-/
namespace ToolGraph
open Schema

/-! ### Checked settings -/

namespace Schema

end Schema

namespace Setting

def groups : List String := ["loader", "cache"]

end Setting

namespace Config
variable {host : Host} {overrides : Overrides} {tree : FileTree}

/-! ### Files -/

def content? (host : Host) (tree : FileTree) (layer : Layer) : Option Bytes :=
  tree.files.get? (host.resolve (layer.path host))

def ReadsAs (host : Host) (content : Bytes) (outcome : Except JsonError Json) : Prop :=
  ∃ text, Text.decode? content = some text ∧ host.exhausts (String.ofList text) = false ∧
    Json.parse (String.ofList text) = outcome

def Holds (host : Host) (content : Bytes) (members : List (String × Json)) : Prop :=
  ReadsAs host content (.ok (.object members))

/-- What reading content comes upon apart from its being no JSON object: bytes that are no text, an
integer of too many digits, and a text that is too deep for the stack. -/
inductive Foreign (host : Host) (content : Bytes) : Fault → Prop where
  | encoding (unreadable : Text.decode? content = none) :
      Foreign host content (.encoding (.ofBytes content))
  | number (huge : ReadsAs host content (.error .hugeInteger)) :
      Foreign host content (.json .hugeInteger)
  | depth {text : List Char} (read : Text.decode? content = some text)
      (deep : host.exhausts (String.ofList text) = true) : Foreign host content .exhausted

theorem ReadsAs.unique {content : Bytes} {one two : Except JsonError Json}
    (first : ReadsAs host content one) (second : ReadsAs host content two) : one = two := by
  obtain ⟨text, read, -, rfl⟩ := first
  obtain ⟨text', read', -, rfl⟩ := second
  cases read.symm.trans read'
  rfl

theorem Foreign.eq_of_reads {content : Bytes} {fault : Fault} {outcome : Except JsonError Json}
    (foreign : Foreign host content fault) (reads : ReadsAs host content outcome) :
    outcome = .error .hugeInteger := by
  cases foreign with
  | encoding unreadable =>
    obtain ⟨text, read, -⟩ := reads
    cases unreadable.symm.trans read
  | number huge => exact reads.unique huge
  | depth read deep =>
    obtain ⟨text, read', shallow, -⟩ := reads
    cases read.symm.trans read'
    cases deep.symm.trans shallow

inductive Reading (host : Host) (tree : FileTree) (layer : Layer) :
    Except Error (Option (List (String × Json))) → Prop where
  | missing (absent : content? host tree layer = none) : Reading host tree layer (.ok none)
  | object {content : Bytes} {members : List (String × Json)}
      (present : content? host tree layer = some content) (holds : Holds host content members) :
      Reading host tree layer (.ok (some members))
  | foreign {content : Bytes} {fault : Fault}
      (present : content? host tree layer = some content) (foreign : Foreign host content fault) :
      Reading host tree layer (.error (.bare fault))
  | refused {content : Bytes} {fault : ConfigFault}
      (present : content? host tree layer = some content)
      (native : ∀ fault, ¬ Foreign host content fault)
      (noObject : ∀ members, ¬ Holds host content members) :
      Reading host tree layer (.error (.config fault))

theorem reading (host : Host) (tree : FileTree) (layer : Layer) :
    Reading host tree layer (readLayer host layer tree) := by
  unfold readLayer
  dsimp only
  cases present : content? host tree layer with
  | none =>
    have absent : tree.isFile (host.resolve (layer.path host)) = false :=
      Entries.has_eq_false_iff.mpr (Entries.get?_eq_none_iff.mp present)
    rw [if_neg (by simp [absent])]
    exact .missing present
  | some content =>
    have known : tree.isFile (host.resolve (layer.path host)) = true :=
      Entries.has_iff.mpr (Entries.mem_keys_of_get? present)
    have read : tree.read (host.resolve (layer.path host)) = .ok content := by
      unfold FileTree.read
      rw [show tree.files.get? _ = some content from present]
    rw [if_pos known, read]
    unfold readObject
    dsimp only
    cases decoded : Text.decode? content with
    | none => exact .foreign present (.encoding decoded)
    | some text =>
      dsimp only
      cases deep : host.exhausts (String.ofList text) with
      | true => exact .foreign present (.depth decoded deep)
      | false =>
        have reads : ReadsAs host content (Json.parse (String.ofList text)) :=
          ⟨text, decoded, deep, rfl⟩
        rw [if_neg Bool.false_ne_true]
        -- Whatever the text is read as, it is read as nothing else.
        cases parsed : Json.parse (String.ofList text) with
        | ok json =>
          rw [parsed] at reads
          have native : ∀ fault, ¬ Foreign host content fault := fun fault foreign => by
            cases foreign.eq_of_reads reads
          cases json with
          | object members => exact .object present reads
          | _ => exact .refused present native fun members holds => nomatch reads.unique holds
        | error error =>
          rw [parsed] at reads
          cases error with
          | hugeInteger => exact .foreign present (.number reads)
          | malformed =>
            refine .refused present (fun fault foreign => ?_) fun members holds => ?_
            · cases foreign.eq_of_reads reads
            · cases reads.unique holds

def Passes (key : Setting) (data : Value) : Prop := ∃ value, key.check data = .valid value

namespace Flaw

end Flaw

/-! ### Refusals -/

def ofFile (host : Host) : Option (List (String × Json)) → Except Error Settings
  | none => .ok .initial
  | some members =>
    match Settings.check (.ofJson (.object members)) with
    | .valid settings => .ok settings
    | .invalid issues => .error (.config (.invalidFile (String.ofList host.userFile) issues))

def merge (host : Host) (overrides : Overrides) (user : Settings)
    (project : Option (List (String × Json))) (seconds : Option Value) : Sections :=
  ((((((Sections.ofSettings user).withProject (.ofJson (.object (project.getD [])))).withLoader
    "default_model" (environmentModel host)).withLoader "timeout" seconds).withLoader
      "default_model" overrides.model).withLoader "timeout" overrides.timeout)

def conclude (sections : Sections) : Except Error Settings :=
  match Settings.check sections.toValue with
  | .valid settings => .ok settings
  | .invalid issues => .error (.config (.invalid issues))

theorem conclude_eq_ok {sections : Sections} {settings : Settings} :
    conclude sections = .ok settings ↔ Settings.check sections.toValue = .valid settings := by
  unfold conclude
  cases Settings.check sections.toValue <;> simp

theorem Holds.unique {content : Bytes} {one two : List (String × Json)}
    (first : Holds host content one) (second : Holds host content two) : one = two := by
  cases ReadsAs.unique first second
  rfl

section read
variable {layer : Layer} {members : Option (List (String × Json))}
  (read : readLayer host layer tree = .ok members)
include read

end read

section inUserDirectory
variable {α : Type} {read : FileTree → Except Error α}
  (files : ∀ {made : FileTree}, made.files = tree.files → read made = read tree)
include files

end inUserDirectory

set_option maxRecDepth 10000 in
/-- What the project sets its timeout to is not looked at while the environment sets one. -/
example :
    let project : FileTree := ⟨[("/work/toolscribe.json".toList, Text.encode
      "\x7b\"loader\": \x7b\"timeout\": \"abc\"\x7d\x7d".toList)], []⟩
    let hurried : Host := { desk with environment := [("TOOLSCRIBE_TIMEOUT", "5")] }
    (resolve desk {} project).toBool = false ∧ (resolve hurried {} project).toBool = true := by
  decide +kernel

end Config
end ToolGraph

import ToolGraph.Proofs.Load.Closure

/-!
Tools that are named by a whole reference. The name of a tool of the same source comes before any
other reading of a reference, whatever its words are; but a reference that leaves nothing for a
source is refused before anyone looks for its name.
-/
namespace ToolGraph
open Text

namespace Block
open Entries

/-- All tools of a source find each other by their names, and none of their references is mapped. -/
theorem siblings_of_parse {content location workingDir model : String} {firstLine : Int}
    {tools : List Tool} (parsed : parse content location workingDir model firstLine = .ok tools)
    {user named : Tool} (uses : user ∈ tools) (names : named ∈ tools) (given : named.name ≠ "") :
    user.localTools.get? (lower named.name) = some named.id ∧ user.unresolved = user.tools := by
  obtain ⟨first, blocks, localTools, -, -, listed, -, rfl⟩ := parse_eq_ok parsed
  obtain ⟨using_, -, rfl⟩ := List.mem_map.mp uses
  obtain ⟨block, member, rfl⟩ := List.mem_map.mp names
  refine ⟨listed block member given, ?_⟩
  exact List.filter_eq_self.mpr (fun _ _ => rfl)

end Block

namespace Destination

theorem find_of_sourceless {outlook : Outlook} {tool : Tool} {written : String}
    (sourceless : (Reference.read written).source = "") :
    find outlook tool written = .error (.emptyReference tool.id written) := by
  unfold find
  exact if_pos (isEmpty_eq_true.mpr sourceless)

end Destination

namespace Load

/-- A tool of a source that is no artifact, with a reference that is not mapped there: the load has
the references of that source to resolve. -/
theorem refers_of_comesFrom {load : Load} {user : Tool} {reference : String}
    (comes : load.ComesFrom false user) (stored : load.tools.get? user.id = some user)
    (written : reference ∈ user.unresolved) :
    ∃ location source, load.source? location = some source ∧
      (user, reference) ∈ load.references source := by
  obtain ⟨location, source, found, live, own⟩ := comes
  refine ⟨location, source, found, mem_references_iff.mpr ⟨live, ?_, ?_, written⟩⟩
  · exact ⟨user, own, List.ne_nil_of_mem written⟩
  · exact ⟨user, own, stored⟩

/-- A reference that is the name of a tool of its source leads to that tool, before other readings
of its words and without a fetch; unless the words leave nothing for a source, which is refused. -/
theorem reference_of_name {content location workingDir model : String} {firstLine : Int}
    {tools : List Tool}
    (parsed : Block.parse content location workingDir model firstLine = .ok tools)
    {user named : Tool} (uses : user ∈ tools) (names : named ∈ tools) (given : named.name ≠ "")
    {reference : String} (written : reference ∈ user.tools)
    (whole : lower reference = lower named.name) :
    (∀ context origin load, follow context origin user reference load =
      if (Reference.read reference).source = "" then
        (load, some (.emptyReference user.id reference))
      else (load.link user.id reference named.id, none)) ∧
    ∀ {request : LoadRequest} {place : Canonical.Place} {answers : Answers} {load : Load}
      {entry : String}, Completes request place answers load entry →
      load.ComesFrom false user → load.tools.get? user.id = some user →
        (Reference.read reference).source ≠ "" ∧
          (load.finished user).toolMapping.get? reference = some named.id := by
  obtain ⟨listed, all⟩ := Block.siblings_of_parse parsed uses names given
  rw [← whole] at listed
  have leads : ∀ outlook, (Reference.read reference).source ≠ "" →
      Destination.find outlook user reference = .ok (.sibling named.id) :=
    fun _ sourced => find_eq_ok_iff.mpr (.whole sourced listed)
  constructor
  · intro context origin load
    split
    next sourceless => simp only [follow, Destination.find_of_sourceless sourceless]
    next sourced => simp only [follow, leads context.outlook sourced]
  · intro request place answers load entry done comes stored
    obtain ⟨root, first, -, -, complete⟩ := done.whole
    obtain ⟨_, source, found, refers⟩ :=
      refers_of_comesFrom comes stored (all.symm ▸ written : reference ∈ user.unresolved)
    obtain ⟨target, mapped, resolves⟩ := complete.resolves found refers
    have sourced : (Reference.read reference).source ≠ "" := by
      intro sourceless
      have nowhere : Destination.find (request.contextAt place).outlook user reference =
          .error (.emptyReference user.id reference) := Destination.find_of_sourceless sourceless
      obtain ⟨destination, known⟩ := resolves.leads
      simp [nowhere] at known
    have same := resolves.unique (.sibling (leads _ sourced))
    refine ⟨sourced, ?_⟩
    rw [get?_toolMapping_finished, if_pos written, mapped, same, Option.some_or]

/-- A step that is named in the words of the grammar. -/
def recipe : String := "tools: Bread from rye\n\nBake.\n---\nname: bread FROM rye\n\nKnead."

def kitchen : LoadRequest := ⟨.text recipe "/work/a.gpt", "", "", LoaderSettings.initial⟩

/-- The ids, names and references of tools. -/
def outline (tools : List Tool) : List (String × String × List String) :=
  tools.map (fun tool => (tool.id, tool.name, tool.tools))

theorem kitchen_read :
    Source.read "/work".toList defaultModel ⟨"/work/a.gpt".toList, Text.encode recipe.toList⟩ =
      Block.parse (String.ofList recipe.toList) (String.ofList "/work/a.gpt".toList)
        (String.ofList "/work".toList) defaultModel 1 >>=
        Source.ofTools "/work/a.gpt".toList false :=
  have native : Source.IsNative (Text.encode recipe.toList) recipe.toList :=
    ⟨by decide +kernel, by decide +kernel, by decide +kernel⟩
  Source.read_of_isNative native rfl

set_option maxRecDepth 10000 in
set_option synthInstance.maxSize 500 in
theorem kitchen_reference_of_name : ∃ tools user named load entry,
    Block.parse recipe "/work/a.gpt" "/work" defaultModel 1 = .ok tools ∧ user ∈ tools ∧
      named ∈ tools ∧ (named.name, named.id) = ("bread FROM rye", "/work/a.gpt:5") ∧
      (∀ context origin load, follow context origin user "Bread from rye" load =
        (load.link user.id "Bread from rye" named.id, none)) ∧
      (complete kitchen (.ofFiles "/work" [])).1 = .ok (load, entry) ∧
      load.tools.get? user.id = some user ∧
      (load.finished user).toolMapping.get? "Bread from rye" = some named.id := by
  have shape : (complete kitchen (.ofFiles "/work" [])).1.toOption.map (fun done =>
      (done.1.idsBySource, (done.1.source? "/work/a.gpt".toList).map (outline ·.tools))) =
      some ([("/work/a.gpt".toList, false, ["/work/a.gpt:1", "/work/a.gpt:5"])],
        some [("/work/a.gpt:1", "", ["Bread from rye"]),
          ("/work/a.gpt:5", "bread FROM rye", [])]) := by
    decide +kernel
  cases completed : (complete kitchen (.ofFiles "/work" [])).1 with
  | error error => simp [completed, Except.toOption] at shape
  | ok done =>
    obtain ⟨load, entry⟩ := done
    simp only [completed, Except.toOption, Option.map_some, Option.some.injEq, Prod.mk.injEq]
      at shape
    obtain ⟨ids, outlined⟩ := shape
    have done := completes_of_complete completed
    obtain ⟨root, first, ⟨fetched, ⟨located, answer⟩, read⟩, -, whole⟩ := done.whole
    obtain rfl : "/work/a.gpt".toList = root := Except.ok.inj located
    obtain rfl : fetched = ⟨"/work/a.gpt".toList, Text.encode recipe.toList⟩ := Except.ok.inj answer
    obtain ⟨tools, parsed, made⟩ := bind_eq_ok.mp (kitchen_read.symm.trans read)
    simp only [String.ofList_toList] at parsed
    obtain ⟨rfl, -, live⟩ := Source.ofTools_eq_ok made
    rw [whole.sound.rooted, Option.map_some, Option.some.injEq] at outlined
    obtain ⟨user, uses, tables⟩ : ∃ user ∈ first.tools, (user.id, user.name, user.tools) =
        ("/work/a.gpt:1", "", ["Bread from rye"]) :=
      List.mem_map.mp (show _ ∈ outline first.tools from outlined ▸ List.mem_cons_self)
    obtain ⟨named, names, same⟩ : ∃ named ∈ first.tools, (named.id, named.name, named.tools) =
        ("/work/a.gpt:5", "bread FROM rye", []) :=
      List.mem_map.mp (show _ ∈ outline first.tools from outlined ▸ by decide)
    simp only [Prod.mk.injEq] at tables same
    have given : named.name ≠ "" := by rw [same.2.1]; decide
    have written : "Bread from rye" ∈ user.tools := by rw [tables.2.2]; exact List.mem_cons_self
    have named_ : Text.lower "Bread from rye" = Text.lower named.name := by
      rw [same.2.1]
      decide +kernel
    obtain ⟨goes, mapped⟩ := reference_of_name parsed uses names given written named_
    have agree : Sources.Agree load.source? := agree_of_nodup (by rw [ids]; decide)
    have alone : ∀ {location source}, load.source? location = some source →
        source.linked = false := by
      intro location source found
      have member := mem_idsBySource found
      rw [ids] at member
      exact (Prod.mk.inj (Prod.mk.inj (List.mem_singleton.mp member)).2).1
    have stored := whole.get?_of_defines agree (whole.agreeWithBuiltins alone)
      ⟨_, first, whole.sound.rooted, uses⟩
    have sourced : (Reference.read "Bread from rye").source ≠ "" := by decide +kernel
    obtain ⟨-, targeted⟩ := mapped done ⟨_, first, whole.sound.rooted, live, uses⟩ stored
    refine ⟨first.tools, user, named, load, entry, parsed, uses, names, ?_, ?_, rfl, stored,
      targeted⟩
    · rw [same.1, same.2.1]
    · intro context origin load
      rw [goes, if_neg sourced]

/-- A tool with a name that begins with a word of the grammar: the reference to it has no source. -/
def leftover : World :=
  .ofFiles "/work" [("/work/a.gpt", "tools: with x\n\nGo on.\n---\nname: with x\n\nStop.")]

set_option maxRecDepth 10000 in
example : (match (run (.of "a.gpt") leftover).result with
    | .error error => error == .emptyReference "/work/a.gpt:1" "with x"
    | .ok _ => false) = true := by
  decide +kernel

end Load
end ToolGraph

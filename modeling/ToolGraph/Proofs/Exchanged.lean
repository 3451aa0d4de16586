import ToolGraph.Proofs.Artifact.Tools
import ToolGraph.Proofs.JsonData

/-!
Programs after an exchange. They have the same texts as before, and are equal to what they were if and
only if all arguments are JSON data and no temperature is not a number.
-/
namespace ToolGraph

theorem Tool.same_exchanged_iff {tool : Tool} {arguments : List (String × Json)}
    (distinct : tool.Distinct) (known : tool.argumentsMember? = some arguments) :
    tool.exchanged.same tool = true ↔ tool.HasJsonArguments ∧ tool.temperature ≠ some .nan := by
  constructor
  · intro equal
    rw [Tool.exchanged_of_isWritable (Tool.isWritable_iff_argumentsMember?.mpr ⟨_, known⟩)] at equal
    simp only [Tool.same, Bool.and_eq_true] at equal
    obtain ⟨⟨⟨⟨⟨⟨⟨⟨⟨⟨-, temperature⟩, -⟩, same⟩, -⟩, -⟩, -⟩, -⟩, -⟩, -⟩, -⟩ := equal
    refine ⟨fun table present => ?_, fun nan => by simp [nan, Binary64.same] at temperature⟩
    obtain ⟨absent, -⟩ | ⟨own, json, given, form, -⟩ := Tool.argumentsMember?_eq known
    · simp [absent] at present
    · obtain rfl : own = table := Option.some.inj (given.symm.trans present)
      obtain ⟨members, rfl, -, values⟩ := Value.toJson?_ofTable (distinct.arguments own given) form
      rw [given] at same
      refine (Value.equals_exchanged_iff form).mp ?_
      rw [Value.ofJson_object, values]
      exact same
  · rintro ⟨plain, number⟩
    rw [Tool.exchanged_of_json plain]
    exact Tool.same_self distinct plain number

namespace Program
variable {program : Program}

structure Distinct (program : Program) : Prop where
  ids : program.tools.keys.Nodup
  tables : ∀ {id tool}, (id, tool) ∈ program.tools → tool.Distinct

def exchangedTools (program : Program) (ids : List String) : Entries String Tool :=
  ids.filterMap fun id => ((program.tool? id).map Tool.exchanged).map (Prod.mk id)

def exchanged (program : Program) : Program :=
  { program with tools := program.exchangedTools (Artifact.order program) }

/-! ### The order of the tools -/

theorem mem_order_iff {id : String} :
    id ∈ Artifact.order program ↔ id = program.entry ∨ id ∈ program.tools.keys := by
  simp only [Artifact.order, List.mem_cons, mem_sortIds, List.mem_filter, bne_iff_ne]
  by_cases same : id = program.entry <;> simp [same]

theorem mem_order_of_entry (known : program.entry ∈ program.tools.keys) {id : String} :
    id ∈ Artifact.order program ↔ id ∈ program.tools.keys := by
  rw [mem_order_iff]
  exact or_iff_right_of_imp fun same => same ▸ known

theorem mem_order (closed : program.Closed) {id : String} :
    id ∈ Artifact.order program ↔ id ∈ program.tools.keys := mem_order_of_entry closed.entry

theorem nodup_order (distinct : program.Distinct) : (Artifact.order program).Nodup := by
  rw [Artifact.order, List.nodup_cons]
  refine ⟨?_, nodup_sortIds (distinct.ids.filter _)⟩
  simp [mem_sortIds]

theorem order_perm (closed : program.Closed) (distinct : program.Distinct) :
    (Artifact.order program).Perm program.tools.keys :=
  (List.perm_ext_iff_of_nodup (nodup_order distinct) distinct.ids).mpr fun _ => mem_order closed

theorem tool?_of_mem_order (closed : program.Closed) {id : String}
    (member : id ∈ Artifact.order program) : ∃ tool, program.tool? id = some tool :=
  Entries.mem_keys_iff.mp ((mem_order closed).mp member)

theorem keys_exchangedTools {ids : List String}
    (known : ∀ id ∈ ids, ∃ tool, program.tool? id = some tool) :
    (program.exchangedTools ids).keys = ids := by
  induction ids with
  | nil => rfl
  | cons id ids ih =>
    obtain ⟨tool, found⟩ := known id List.mem_cons_self
    have rest := ih fun other member => known other (List.mem_cons_of_mem _ member)
    rw [exchangedTools, List.filterMap_cons, found]
    exact congrArg (id :: ·) rest

theorem get?_exchangedTools (program : Program) (ids : List String) (id : String) :
    (program.exchangedTools ids).get? id =
      if id ∈ ids then (program.tool? id).map Tool.exchanged else none := by
  induction ids with
  | nil => rfl
  | cons other ids ih =>
    rw [exchangedTools] at ih ⊢
    rw [List.filterMap_cons]
    by_cases same : other = id
    · subst same
      cases found : program.tool? other with
      | none => simpa [found] using ih
      | some tool => simp [Entries.get?_cons]
    · have apart : id ∈ other :: ids ↔ id ∈ ids := by simp [Ne.symm same]
      cases program.tool? other with
      | none => simpa [apart] using ih
      | some tool => simpa [Entries.get?_cons, same, apart] using ih

theorem tool?_exchangedTools {ids : List String} (listed : ∀ id, id ∈ ids ↔ id ∈ program.tools.keys)
    (id : String) :
    (program.exchangedTools ids).get? id = (program.tool? id).map Tool.exchanged := by
  rw [get?_exchangedTools]
  split
  next => rfl
  next absent =>
    have none : program.tool? id = none :=
      Entries.get?_eq_none_iff.mpr fun member => absent ((listed id).mpr member)
    rw [none, Option.map_none]

theorem keys_exchanged (closed : program.Closed) :
    program.exchanged.tools.keys = Artifact.order program :=
  keys_exchangedTools fun _ member => tool?_of_mem_order closed member

theorem tool?_exchanged (closed : program.Closed) (id : String) :
    program.exchanged.tool? id = (program.tool? id).map Tool.exchanged :=
  tool?_exchangedTools (fun _ => mem_order closed) id

/-! ### Programs after an exchange -/

structure AfterExchange (program result : Program) : Prop where
  name : result.name = program.name
  entry : result.entry = program.entry
  keys : result.tools.keys.Perm program.tools.keys
  tool : ∀ id, result.tool? id = (program.tool? id).map Tool.exchanged

theorem afterExchange_exchanged (closed : program.Closed) (distinct : program.Distinct) :
    program.AfterExchange program.exchanged where
  name := rfl
  entry := rfl
  keys := keys_exchanged closed ▸ order_perm closed distinct
  tool := tool?_exchanged closed

namespace AfterExchange
variable {result : Program} (after : program.AfterExchange result)
include after

theorem toJson? : result.toJson? = program.toJson? := by
  have ids : result.ids = program.ids := sortIds_eq_of_perm after.keys
  have tools : ∀ id, (result.tool? id).bind
      (fun tool => tool.toJson?.map (fun json => (id, json))) =
        (program.tool? id).bind (fun tool => tool.toJson?.map (fun json => (id, json))) := by
    intro id
    rw [after.tool]
    cases program.tool? id with
    | none => rfl
    | some tool =>
      simp only [Option.map_some, Option.bind_some, Tool.toJson?, Tool.members?_exchanged]
  simp only [Program.toJson?, ids, tools, after.name, after.entry]

theorem fault? : result.fault? = program.fault? := by
  have ids : result.ids = program.ids := sortIds_eq_of_perm after.keys
  rw [Program.fault?, Program.fault?, ids]
  refine congrArg (List.findSome? · program.ids) (funext fun id => ?_)
  rw [after.tool]
  cases program.tool? id with
  | none => rfl
  | some tool => exact Tool.fault?_exchanged tool

theorem text (layout : Json.Layout) : result.text layout = program.text layout := by
  rw [Program.text, Program.text, after.toJson?, after.fault?]

theorem assemble : Artifact.assemble result = Artifact.assemble program := by
  have order : Artifact.order result = Artifact.order program := by
    rw [Artifact.order, after.entry, sortIds_eq_of_perm (after.keys.filter _)]
    rfl
  have tools : Artifact.toolJson result = Artifact.toolJson program := by
    funext ids id
    rw [Artifact.toolJson, Artifact.toolJson, after.tool]
    cases program.tool? id with
    | none => rfl
    | some tool =>
      simp only [Option.map_some, Tool.members?_exchanged, Tool.fault?_exchanged]
      rfl
  simp only [Artifact.assemble, Artifact.toJson, order, tools, after.name]

theorem same_iff (distinct : program.Distinct) :
    result.same program = true ↔ ∀ entry ∈ program.tools, entry.2.exchanged.same entry.2 = true := by
  have lengths : result.tools.length = program.tools.length := by
    simpa [Entries.keys] using after.keys.length_eq
  simp only [Program.same, after.name, after.entry, lengths, beq_self_eq_true, Bool.true_and,
    List.all_eq_true]
  constructor
  · intro equal entry member
    have found : program.tool? entry.1 = some entry.2 := Entries.get?_of_mem distinct.ids member
    have back := after.tool entry.1
    rw [found] at back
    simpa [found] using equal (entry.1, entry.2.exchanged) (Entries.mem_of_get? back)
  · intro equal entry member
    have apart : result.tools.keys.Nodup := after.keys.nodup_iff.mpr distinct.ids
    have back : result.tool? entry.1 = some entry.2 := Entries.get?_of_mem apart member
    rw [after.tool] at back
    obtain ⟨tool, found, same⟩ := Option.map_eq_some_iff.mp back
    rw [found, ← same]
    exact equal (entry.1, tool) (Entries.mem_of_get? found)

theorem alike (distinct : program.Distinct)
    (plain : ∀ entry ∈ program.tools, entry.2.HasJsonArguments) : Alike result program where
  name := after.name
  entry := after.entry
  tool id := by
    rw [after.tool]
    cases found : program.tool? id with
    | none => rfl
    | some tool =>
      have own := plain (id, tool) (Entries.mem_of_get? found)
      exact congrArg some (Tool.exchanged_of_json own)
  distinct := after.keys.nodup_iff.mpr distinct.ids
  distinct' := distinct.ids

end AfterExchange

/-! ### Equality -/

theorem Alike.same {left right : Program} (alike : Alike left right)
    (reflexive : ∀ entry ∈ left.tools, entry.2.same entry.2 = true) : left.same right = true := by
  have lengths : left.tools.length = right.tools.length := by
    simpa [Entries.keys] using alike.keys_perm.length_eq
  simp only [Program.same, alike.name, alike.entry, lengths, beq_self_eq_true, Bool.true_and,
    List.all_eq_true]
  intro entry member
  have found : left.tool? entry.1 = some entry.2 := Entries.get?_of_mem alike.distinct member
  rw [← alike.tool, found]
  exact reflexive entry member

theorem Alike.symm {left right : Program} (alike : Alike left right) : Alike right left where
  name := alike.name.symm
  entry := alike.entry.symm
  tool id := (alike.tool id).symm
  distinct := alike.distinct'
  distinct' := alike.distinct

end Program
end ToolGraph

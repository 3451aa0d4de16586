import ToolGraph.Proofs.Entries
import ToolGraph.Proofs.Load.Schedule

/-!
What a load holds: tools, sources and the targets of references. A load only ever grows: what it
holds is never replaced, so that what is once true of it stays true.
-/
namespace ToolGraph.Load
open Entries

def source? (load : Load) (location : List Char) : Option Source :=
  (load.sources.get? location).join

def target? (load : Load) (tool reference : String) : Option String :=
  (load.mappings.get? tool).bind (·.get? reference)

theorem source?_eq_some_iff {load : Load} {location : List Char} {source : Source} :
    load.source? location = some source ↔ load.sources.get? location = some (some source) := by
  simp [source?, Option.join_eq_some_iff]

theorem mem_keys_of_source? {load : Load} {location : List Char} {source : Source}
    (found : load.source? location = some source) : location ∈ load.sources.keys :=
  mem_keys_of_get? (source?_eq_some_iff.mp found)

structure Grows (earlier later : Load) : Prop where
  tools : ∀ {id tool}, earlier.tools.get? id = some tool → later.tools.get? id = some tool
  sources : ∀ {location source},
    earlier.source? location = some source → later.source? location = some source
  locations : ∀ {location}, location ∈ earlier.sources.keys → location ∈ later.sources.keys
  targets : ∀ {tool reference},
    (earlier.target? tool reference).isSome → (later.target? tool reference).isSome

namespace Grows
variable {first second third : Load}

theorem refl (load : Load) : Grows load load := ⟨id, id, id, id⟩

theorem trans (one : Grows first second) (two : Grows second third) : Grows first third :=
  ⟨two.tools ∘ one.tools, two.sources ∘ one.sources, two.locations ∘ one.locations,
    two.targets ∘ one.targets⟩

theorem tool_keys (grows : Grows first second) {id : String} (known : id ∈ first.tools.keys) :
    id ∈ second.tools.keys := by
  obtain ⟨tool, found⟩ := mem_keys_iff.mp known
  exact mem_keys_of_get? (grows.tools found)

end Grows

/-! ### References -/

theorem mem_references_iff {load : Load} {source : Source} {tool : Tool} {reference : String} :
    (tool, reference) ∈ load.references source ↔
      source.linked = false ∧ (∃ own ∈ source.tools, own.unresolved ≠ []) ∧
        (∃ own ∈ source.tools, load.tools.get? own.id = some tool) ∧ reference ∈ tool.unresolved := by
  unfold references
  split
  next none =>
    simp only [Bool.or_eq_true, List.all_eq_true, List.isEmpty_iff] at none
    simp only [List.not_mem_nil, false_iff]
    rintro ⟨live, ⟨own, member, some⟩, -⟩
    rcases none with linked | resolved
    · simp [live] at linked
    · exact some (resolved own member)
  next some =>
    simp only [Bool.or_eq_true, not_or, Bool.not_eq_true, List.all_eq_false, List.isEmpty_iff] at some
    simp only [List.mem_flatMap, List.mem_filterMap, List.mem_map, Prod.mk.injEq]
    constructor
    · rintro ⟨known, ⟨own, member, found⟩, written, present, rfl, rfl⟩
      exact ⟨some.1, by simpa using some.2, ⟨own, member, found⟩, present⟩
    · rintro ⟨-, -, found, present⟩
      exact ⟨tool, found, reference, present, rfl, rfl⟩

def Stored (load : Load) (source : Source) : Prop :=
  ∀ tool ∈ source.tools, tool.id ∈ load.tools.keys

theorem Stored.grow {earlier later : Load} {source : Source} (stored : Stored earlier source)
    (grows : Grows earlier later) : Stored later source :=
  fun tool member => grows.tool_keys (stored tool member)

theorem references_grow {earlier later : Load} (grows : Grows earlier later) {source : Source}
    (stored : Stored earlier source) : later.references source = earlier.references source := by
  have same : source.tools.filterMap (fun tool => later.tools.get? tool.id) =
      source.tools.filterMap (fun tool => earlier.tools.get? tool.id) := by
    apply List.filterMap_congr
    intro tool member
    obtain ⟨known, found⟩ := mem_keys_iff.mp (stored tool member)
    rw [found, grows.tools found]
  simp only [references, same]

/-- The tool at `origin` has a reference that is to be resolved. -/
def Refers (load : Load) (origin : List Char) (tool : Tool) (reference : String) : Prop :=
  ∃ location source, load.source? location = some source ∧ source.location = origin ∧
    (tool, reference) ∈ load.references source

def AllStored (load : Load) : Prop :=
  ∀ {location source}, load.source? location = some source → Stored load source

theorem Refers.grow {earlier later : Load} {origin : List Char} {tool : Tool} {reference : String}
    (refers : Refers earlier origin tool reference) (stored : AllStored earlier)
    (grows : Grows earlier later) : Refers later origin tool reference := by
  obtain ⟨location, source, found, same, member⟩ := refers
  exact ⟨location, source, grows.sources found, same, by rwa [references_grow grows (stored found)]⟩

theorem Refers.tool {load : Load} {origin : List Char} {tool : Tool} {reference : String}
    (refers : Refers load origin tool reference) :
    (∃ id, load.tools.get? id = some tool) ∧ reference ∈ tool.unresolved := by
  obtain ⟨location, source, -, -, member⟩ := refers
  obtain ⟨-, -, ⟨own, -, found⟩, present⟩ := mem_references_iff.mp member
  exact ⟨⟨own.id, found⟩, present⟩

/-! ### Where references lead -/

inductive Reached (context : LoadContext) (load : Load) (root : List Char) : List Char → Prop where
  | root : Reached context load root root
  | next {location next : List Char} {source : Source} {tool : Tool} {reference subTool : String}
      (reached : Reached context load root location)
      (found : load.source? location = some source)
      (refers : (tool, reference) ∈ load.references source)
      (leads : Destination.find context.outlook tool reference = .ok (.source next subTool)) :
      Reached context load root next

theorem Reached.grow {context : LoadContext} {earlier later : Load} {root location : List Char}
    (reached : Reached context earlier root location) (stored : AllStored earlier)
    (grows : Grows earlier later) : Reached context later root location := by
  induction reached with
  | root => exact .root
  | next _ found refers leads ih =>
    exact .next ih (grows.sources found) (by rwa [references_grow grows (stored found)]) leads

inductive Resolves (context : LoadContext) (load : Load) (tool : Tool) (reference : String) :
    String → Prop where
  | sibling {id : String}
      (leads : Destination.find context.outlook tool reference = .ok (.sibling id)) :
      Resolves context load tool reference id
  | builtin {target : Tool}
      (leads : Destination.find context.outlook tool reference = .ok (.builtin target))
      (known : load.tools.has target.id) : Resolves context load tool reference target.id
  | source {location : List Char} {subTool id : String} {source : Source}
      (leads : Destination.find context.outlook tool reference = .ok (.source location subTool))
      (found : load.source? location = some source) (selected : source.select subTool = .ok id) :
      Resolves context load tool reference id

theorem Resolves.grow {context : LoadContext} {earlier later : Load} {tool : Tool}
    {reference id : String} (resolves : Resolves context earlier tool reference id)
    (grows : Grows earlier later) : Resolves context later tool reference id := by
  cases resolves with
  | sibling leads => exact .sibling leads
  | builtin leads known => exact .builtin leads (has_iff.mpr (grows.tool_keys (has_iff.mp known)))
  | source leads found selected => exact .source leads (grows.sources found) selected

section resolves
variable {context : LoadContext} {load : Load} {tool : Tool} {reference id : String}

/-! What an id is, by where its reference leads. -/

theorem Resolves.leads (resolves : Resolves context load tool reference id) :
    ∃ destination, Destination.find context.outlook tool reference = .ok destination := by
  cases resolves with
  | sibling leads | builtin leads | source leads => exact ⟨_, leads⟩

theorem Resolves.of_sibling {own : String} (resolves : Resolves context load tool reference id)
    (leads : Destination.find context.outlook tool reference = .ok (.sibling own)) : id = own := by
  cases resolves with
  | sibling other => exact Destination.sibling.inj (Except.ok.inj (other.symm.trans leads))
  | builtin other | source other => simp [leads] at other

theorem Resolves.of_builtin {target : Tool} (resolves : Resolves context load tool reference id)
    (leads : Destination.find context.outlook tool reference = .ok (.builtin target)) :
    id = target.id ∧ load.tools.has target.id := by
  cases resolves with
  | builtin other known =>
    obtain rfl := Destination.builtin.inj (Except.ok.inj (other.symm.trans leads))
    exact ⟨rfl, known⟩
  | sibling other | source other => simp [leads] at other

theorem Resolves.of_source {location : List Char} {subTool : String}
    (resolves : Resolves context load tool reference id)
    (leads : Destination.find context.outlook tool reference = .ok (.source location subTool)) :
    ∃ source, load.source? location = some source ∧ source.select subTool = .ok id := by
  cases resolves with
  | source other found selected =>
    obtain ⟨rfl, rfl⟩ := Destination.source.inj (Except.ok.inj (other.symm.trans leads))
    exact ⟨_, found, selected⟩
  | sibling other | builtin other => simp [leads] at other

theorem Resolves.unique {one two : String} (first : Resolves context load tool reference one)
    (second : Resolves context load tool reference two) : one = two := by
  cases first with
  | sibling leads => exact (second.of_sibling leads).symm
  | builtin leads => exact (second.of_builtin leads).1.symm
  | source leads found selected =>
    obtain ⟨other, foundOther, selectedOther⟩ := second.of_source leads
    obtain rfl := Option.some.inj (found.symm.trans foundOther)
    exact Except.ok.inj (selected.symm.trans selectedOther)

end resolves

/-! ### What the steps of a load add -/

theorem get?_addTools (tools : Entries String Tool) (added : List Tool) (id : String) :
    (added.foldl (fun tools tool => tools.putNew tool.id tool) tools).get? id =
      (tools.get? id).or (added.find? (·.id == id)) := by
  induction added generalizing tools with
  | nil => simp
  | cons tool rest ih =>
    rw [List.foldl_cons, ih, get?_putNew, Option.or_assoc, List.find?_cons]
    by_cases same : tool.id = id
    · simp [same]
    · simp [same, beq_false_of_ne same]

theorem nodup_addTools {tools : Entries String Tool} (distinct : tools.keys.Nodup)
    (added : List Tool) :
    (added.foldl (fun tools tool => tools.putNew tool.id tool) tools).keys.Nodup := by
  induction added generalizing tools with
  | nil => exact distinct
  | cons tool rest ih => exact ih (nodup_putNew distinct tool.id tool)

def deliverSource (load : Load) (location : List Char) (source : Source) : Load :=
  { load.addTools source with sources := load.sources.put location (some source) }

def introduce (load : Load) (tool : Tool) : Load :=
  { load with tools := load.tools.putNew tool.id tool }

def refer (load : Load) (location : List Char) (tool : Tool) (reference : String) : Load :=
  { load with referrers := load.referrers.putNew location (tool.id, reference) }

def await (load : Load) (waiter : Waiter) : Load :=
  { load with
    sources := load.sources.putNew waiter.location none
    waiters := load.waiters ++ [waiter] }

theorem tools_deliverSource (load : Load) (location : List Char) (source : Source) (id : String) :
    (load.deliverSource location source).tools.get? id =
      (load.tools.get? id).or (source.tools.find? (·.id == id)) :=
  get?_addTools load.tools source.tools id

theorem find?_tool {tools : List Tool} (distinct : (tools.map Tool.id).Nodup) {tool : Tool}
    (member : tool ∈ tools) : tools.find? (·.id == tool.id) = some tool := by
  have some : (tools.find? (·.id == tool.id)).isSome :=
    List.find?_isSome.mpr ⟨tool, member, beq_self_eq_true tool.id⟩
  obtain ⟨own, found⟩ := Option.isSome_iff_exists.mp some
  have same : own.id = tool.id := by simpa using List.find?_some found
  rw [found, List.inj_on_of_nodup_map distinct (List.mem_of_find?_eq_some found) member same]

theorem get?_deliverSource (load : Load) (location : List Char) {source : Source}
    (distinct : (source.tools.map Tool.id).Nodup) {tool : Tool} (member : tool ∈ source.tools) :
    (load.deliverSource location source).tools.get? tool.id =
      some ((load.tools.get? tool.id).getD tool) := by
  rw [tools_deliverSource, find?_tool distinct member]
  cases load.tools.get? tool.id <;> rfl

theorem source?_deliverSource (load : Load) (location other : List Char) (source : Source) :
    (load.deliverSource location source).source? other =
      if location = other then some source else load.source? other := by
  simp only [source?, deliverSource, get?_put]
  split <;> rfl

theorem source?_await (load : Load) (waiter : Waiter) (other : List Char) :
    (load.await waiter).source? other = load.source? other := by
  simp only [source?, await, get?_putNew]
  cases load.sources.get? other with
  | none => by_cases same : waiter.location = other <;> simp [same]
  | some value => rfl

theorem target?_link (load : Load) (tool reference target other written : String) :
    (load.link tool reference target).target? other written =
      if tool = other ∧ reference = written then some target else load.target? other written := by
  simp only [target?, link, get?_put]
  by_cases same : tool = other
  · subst same
    simp only [true_and, if_true, Option.bind_some, get?_put]
    cases load.mappings.get? tool <;> simp
  · simp [same]

theorem grows_deliverSource {load : Load} {location : List Char} (source : Source)
    (awaited : load.source? location = none) : Grows load (load.deliverSource location source) where
  tools := fun found => by rw [tools_deliverSource, found, Option.some_or]
  sources := by
    intro other known found
    rw [source?_deliverSource]
    split
    next same => simp [← same, awaited] at found
    next => exact found
  locations := fun known => mem_keys_put.mpr (.inr known)
  targets := id

theorem grows_introduce (load : Load) (tool : Tool) : Grows load (load.introduce tool) where
  tools := fun found => by simp [introduce, found]
  sources := id
  locations := id
  targets := id

theorem grows_refer (load : Load) (location : List Char) (tool : Tool) (reference : String) :
    Grows load (load.refer location tool reference) := ⟨id, id, id, id⟩

theorem grows_await (load : Load) (waiter : Waiter) : Grows load (load.await waiter) where
  tools := id
  sources := fun found => by rw [source?_await]; exact found
  locations := fun known => mem_keys_putNew.mpr (.inr known)
  targets := id

theorem grows_link (load : Load) (tool reference target : String) :
    Grows load (load.link tool reference target) where
  tools := id
  sources := id
  locations := id
  targets := fun known => by
    rw [target?_link]
    split
    next => rfl
    next => exact known

theorem grows_waiters (load : Load) (waiters : List Waiter) :
    Grows load { load with waiters } := ⟨id, id, id, id⟩

theorem stored_deliverSource (load : Load) (location : List Char) (source : Source) :
    Stored (load.deliverSource location source) source := by
  intro tool member
  rw [mem_keys_iff, tools_deliverSource]
  cases load.tools.get? tool.id with
  | some known => exact ⟨known, rfl⟩
  | none =>
    have some : (source.tools.find? (·.id == tool.id)).isSome :=
      List.find?_isSome.mpr ⟨tool, member, beq_self_eq_true tool.id⟩
    obtain ⟨own, found⟩ := Option.isSome_iff_exists.mp some
    exact ⟨own, by simpa using found⟩

theorem follow_cases (context : LoadContext) (origin : List Char) (tool : Tool) (reference : String)
    (load : Load) :
    (∃ error, Destination.find context.outlook tool reference = .error error ∧
      follow context origin tool reference load = (load, some error)) ∨
    (∃ id, Destination.find context.outlook tool reference = .ok (.sibling id) ∧
      follow context origin tool reference load = (load.link tool.id reference id, none)) ∨
    (∃ target, Destination.find context.outlook tool reference = .ok (.builtin target) ∧
      follow context origin tool reference load =
        ((load.introduce target).link tool.id reference target.id, none)) ∨
    (∃ location subTool source id,
      Destination.find context.outlook tool reference = .ok (.source location subTool) ∧
      load.source? location = some source ∧ source.select subTool = .ok id ∧
      follow context origin tool reference load =
        ((load.refer location tool reference).link tool.id reference id, none)) ∨
    (∃ location subTool source error,
      Destination.find context.outlook tool reference = .ok (.source location subTool) ∧
      load.source? location = some source ∧ source.select subTool = .error error ∧
      follow context origin tool reference load =
        (load.refer location tool reference, some (error.onReference tool.id reference))) ∨
    (∃ location subTool,
      Destination.find context.outlook tool reference = .ok (.source location subTool) ∧
      load.source? location = none ∧
      follow context origin tool reference load =
        ((load.refer location tool reference).await ⟨location, subTool, origin, tool.id, reference⟩,
          none)) := by
  cases leads : Destination.find context.outlook tool reference with
  | error error => exact .inl ⟨error, rfl, by simp only [follow, leads]⟩
  | ok destination =>
    cases destination with
    | sibling id => exact .inr (.inl ⟨id, rfl, by simp only [follow, leads]⟩)
    | builtin target =>
      exact .inr (.inr (.inl ⟨target, rfl, by simp only [follow, leads, introduce]⟩))
    | source location subTool =>
      refine .inr (.inr (.inr ?_))
      cases found : load.source? location with
      | none =>
        refine .inr (.inr ⟨location, subTool, rfl, found, ?_⟩)
        cases known : load.sources.get? location with
        | none => simp only [follow, leads, known]; rfl
        | some value =>
          cases value with
          | none => simp only [follow, leads, known]; rfl
          | some source => simp [source?, known] at found
      | some source =>
        have known := source?_eq_some_iff.mp found
        cases selected : source.select subTool with
        | ok id =>
          refine .inl ⟨location, subTool, source, id, rfl, found, selected, ?_⟩
          simp only [follow, leads, known, linkSelected, selected]
          rfl
        | error error =>
          refine .inr (.inl ⟨location, subTool, source, error, rfl, found, selected, ?_⟩)
          simp only [follow, leads, known, linkSelected, selected]
          rfl

theorem grows_follow (context : LoadContext) (origin : List Char) (tool : Tool) (reference : String)
    (load : Load) : Grows load (follow context origin tool reference load).1 := by
  rcases follow_cases context origin tool reference load with
    ⟨error, -, moved⟩ | ⟨id, -, moved⟩ | ⟨target, -, moved⟩ |
    ⟨location, subTool, source, id, -, -, -, moved⟩ |
    ⟨location, subTool, source, error, -, -, -, moved⟩ | ⟨location, subTool, -, -, moved⟩
  all_goals rw [moved]
  case inl => exact .refl load
  case inr.inl => exact grows_link _ _ _ _
  case inr.inr.inl => exact (grows_introduce _ _).trans (grows_link _ _ _ _)
  case inr.inr.inr.inl => exact (grows_refer _ _ _ _).trans (grows_link _ _ _ _)
  case inr.inr.inr.inr.inl => exact grows_refer _ _ _ _
  case inr.inr.inr.inr.inr => exact (grows_refer _ _ _ _).trans (grows_await _ _)

theorem load_perform (context : LoadContext) (state : Progress) (job : Job) :
    (state.perform context job).load =
      (follow context job.origin job.tool job.reference state.load).1 := by
  unfold Progress.perform
  split
  next moved => rw [moved]
  next moved => rw [moved]; rfl

theorem grows_answer (state : Progress) (source : Source) (waiter : Waiter) :
    Grows state.load (state.answer source waiter).load := by
  unfold Progress.answer linkSelected
  cases source.select waiter.subTool with
  | ok target => exact grows_link _ _ _ _
  | error error => exact .refl _

theorem Step.grows {context : LoadContext} {answers : Answers} {state later : Progress}
    (step : Step context answers state later) : Grows state.load later.load := by
  cases step with
  | arrive awaited => exact grows_deliverSource _ (by simp [source?, awaited])
  | lose | openSource | cancelJob => exact .refl _
  | perform =>
    rw [load_perform]
    exact grows_follow _ _ _ _ _
  | @resume waiter source before after =>
    exact (grows_waiters state.load (before ++ after)).trans
      (grows_answer (state.setWaiters (before ++ after)) source waiter)
  | giveUp | cancelWaiter => exact grows_waiters _ _

theorem Steps.grows {context : LoadContext} {answers : Answers} {state later : Progress}
    (steps : Steps context answers state later) : Grows state.load later.load := by
  induction steps with
  | refl => exact .refl _
  | tail _ step ih => exact ih.trans step.grows

end ToolGraph.Load

import ToolGraph.Proofs.Load.Growth

/-!
What a load holds at every step: each tool comes from a source at hand or is a built-in tool that some
reference names, each source is reached from the root, and each target is where its reference leads.
-/
namespace ToolGraph.Load
open Entries

def Known (context : LoadContext) (load : Load) (tool : Tool) : Prop :=
  (∃ location source, load.source? location = some source ∧ tool ∈ source.tools) ∨
    ∃ origin user reference, Refers load origin user reference ∧
      Destination.find context.outlook user reference = .ok (.builtin tool)

def Mapped (context : LoadContext) (load : Load) (id reference target : String) : Prop :=
  ∃ origin tool, tool.id = id ∧ Refers load origin tool reference ∧
    Resolves context load tool reference target

theorem Known.grow {context : LoadContext} {earlier later : Load} {tool : Tool}
    (known : Known context earlier tool) (stored : AllStored earlier) (grows : Grows earlier later) :
    Known context later tool := by
  rcases known with ⟨location, source, found, member⟩ | ⟨origin, user, reference, refers, leads⟩
  · exact .inl ⟨location, source, grows.sources found, member⟩
  · exact .inr ⟨origin, user, reference, refers.grow stored grows, leads⟩

theorem Mapped.grow {context : LoadContext} {earlier later : Load} {id reference target : String}
    (mapped : Mapped context earlier id reference target) (stored : AllStored earlier)
    (grows : Grows earlier later) : Mapped context later id reference target := by
  obtain ⟨origin, tool, same, refers, resolves⟩ := mapped
  exact ⟨origin, tool, same, refers.grow stored grows, resolves.grow grows⟩

/-- The invariant of a load whose root is `first`. -/
structure Sound (context : LoadContext) (answers : Answers) (root : List Char) (first : Source)
    (load : Load) : Prop where
  grown : Grows (Progress.rooted root first).load load
  tool_id : ∀ {id tool}, load.tools.get? id = some tool → tool.id = id
  distinct : load.tools.keys.Nodup
  apart : load.sources.keys.Nodup
  stored : AllStored load
  known : ∀ {id tool}, load.tools.get? id = some tool → Known context load tool
  read : ∀ {location source}, load.source? location = some source → location ≠ root →
    ∃ fetched, answers location (.ok fetched) ∧
      Source.read context.base context.model fetched = .ok source
  reached : ∀ {location}, location ∈ load.sources.keys → Reached context load root location
  mapped : ∀ {id reference target}, load.target? id reference = some target →
    Mapped context load id reference target

namespace Sound
variable {context : LoadContext} {answers : Answers} {root : List Char} {first : Source}
  {load later : Load}

theorem extend (sound : Sound context answers root first load) (grows : Grows load later)
    (distinct : later.tools.keys.Nodup) (apart : later.sources.keys.Nodup)
    (tools : ∀ {id tool}, later.tools.get? id = some tool →
      load.tools.get? id = some tool ∨ tool.id = id ∧ Known context later tool)
    (sources : ∀ {location source}, later.source? location = some source →
      load.source? location = some source ∨ Stored later source ∧ ∃ fetched,
        answers location (.ok fetched) ∧
          Source.read context.base context.model fetched = .ok source)
    (locations : ∀ {location}, location ∈ later.sources.keys →
      location ∈ load.sources.keys ∨ Reached context later root location)
    (targets : ∀ {id reference target}, later.target? id reference = some target →
      load.target? id reference = some target ∨ Mapped context later id reference target) :
    Sound context answers root first later where
  grown := sound.grown.trans grows
  tool_id := fun found => (tools found).elim sound.tool_id And.left
  distinct := distinct
  apart := apart
  stored := fun found => (sources found).elim (fun old => (sound.stored old).grow grows) And.left
  known := fun found =>
    (tools found).elim (fun old => (sound.known old).grow sound.stored grows) And.right
  read := fun found other =>
    (sources found).elim (fun old => sound.read old other) And.right
  reached := fun known =>
    (locations known).elim (fun old => (sound.reached old).grow sound.stored grows) id
  mapped := fun found =>
    (targets found).elim (fun old => (sound.mapped old).grow sound.stored grows) id

theorem rooted (sound : Sound context answers root first load) : load.source? root = some first :=
  sound.grown.sources (by
    change (start.deliverSource root first).source? root = some first
    rw [source?_deliverSource, if_pos rfl])

theorem ne_root (sound : Sound context answers root first load) {location : List Char}
    (awaited : load.sources.get? location = some none) : location ≠ root := by
  rintro rfl
  have rooted := source?_eq_some_iff.mp sound.rooted
  simp [awaited] at rooted

theorem waiters (sound : Sound context answers root first load) (waiters : List Waiter) :
    Sound context answers root first { load with waiters } :=
  sound.extend (grows_waiters load waiters) sound.distinct sound.apart .inl .inl .inl .inl

theorem deliverSource (sound : Sound context answers root first load) {location : List Char}
    {fetched : Fetched} {source : Source} (awaited : load.sources.get? location = some none)
    (answer : answers location (.ok fetched))
    (read : Source.read context.base context.model fetched = .ok source) :
    Sound context answers root first (load.deliverSource location source) := by
  have missing : load.source? location = none := by simp [source?, awaited]
  have stored := stored_deliverSource load location source
  refine sound.extend (grows_deliverSource source missing) (nodup_addTools sound.distinct _)
    (nodup_put sound.apart _ _) ?tools ?sources ?locations .inl
  case tools =>
    intro id tool found
    rw [tools_deliverSource, Option.or_eq_some_iff] at found
    rcases found with old | ⟨-, new⟩
    · exact .inl old
    · refine .inr ⟨by simpa using List.find?_some new, .inl ⟨location, source, ?_, ?_⟩⟩
      · rw [source?_deliverSource, if_pos rfl]
      · exact List.mem_of_find?_eq_some new
  case sources =>
    intro other known found
    rw [source?_deliverSource] at found
    split at found
    next same =>
      obtain rfl := Option.some.inj found
      exact .inr ⟨stored, fetched, same ▸ answer, read⟩
    next => exact .inl found
  case locations =>
    intro other known
    rcases mem_keys_put.mp known with rfl | old
    · exact .inl (mem_keys_of_get? awaited)
    · exact .inl old

theorem introduce (sound : Sound context answers root first load) {origin : List Char}
    {user target : Tool} {reference : String} (refers : Refers load origin user reference)
    (leads : Destination.find context.outlook user reference = .ok (.builtin target)) :
    Sound context answers root first (load.introduce target) := by
  have grows := grows_introduce load target
  refine sound.extend grows (nodup_putNew sound.distinct _ _) sound.apart ?_ .inl .inl .inl
  intro id tool found
  simp only [Load.introduce, get?_putNew, Option.or_eq_some_iff] at found
  rcases found with old | ⟨-, new⟩
  · exact .inl old
  · split at new
    next same =>
      obtain rfl := Option.some.inj new
      exact .inr ⟨same, .inr ⟨origin, user, reference, refers.grow sound.stored grows, leads⟩⟩
    next => simp at new

theorem refer (sound : Sound context answers root first load) (location : List Char) (tool : Tool)
    (reference : String) : Sound context answers root first (load.refer location tool reference) :=
  sound.extend (grows_refer load location tool reference) sound.distinct sound.apart .inl .inl .inl
    .inl

theorem await (sound : Sound context answers root first load) {waiter : Waiter} {tool : Tool}
    (refers : Refers load waiter.origin tool waiter.reference)
    (leads : Destination.find context.outlook tool waiter.reference =
      .ok (.source waiter.location waiter.subTool)) :
    Sound context answers root first (load.await waiter) := by
  have grows := grows_await load waiter
  refine sound.extend grows sound.distinct (nodup_putNew sound.apart _ _) .inl ?sources ?locations
    .inl
  case sources =>
    intro location source found
    rw [source?_await] at found
    exact .inl found
  case locations =>
    intro location known
    rcases mem_keys_putNew.mp known with rfl | old
    · obtain ⟨place, source, found, -, member⟩ := refers
      have reached := sound.reached (mem_keys_of_source? found)
      refine .inr ((reached.grow sound.stored grows).next (grows.sources found) ?_ leads)
      rwa [references_grow grows (sound.stored found)]
    · exact .inl old

theorem link (sound : Sound context answers root first load) {origin : List Char} {tool : Tool}
    {reference target : String} (refers : Refers load origin tool reference)
    (resolves : Resolves context load tool reference target) :
    Sound context answers root first (load.link tool.id reference target) := by
  have grows := grows_link load tool.id reference target
  refine sound.extend grows sound.distinct sound.apart .inl .inl .inl ?_
  intro id written known found
  rw [target?_link] at found
  split at found
  next same =>
    obtain ⟨rfl, rfl⟩ := same
    obtain rfl := Option.some.inj found
    exact .inr ⟨origin, tool, rfl, refers.grow sound.stored grows, resolves.grow grows⟩
  next => exact .inl found

end Sound

theorem sound_rooted (context : LoadContext) (answers : Answers) (root : List Char)
    (first : Source) : Sound context answers root first (Progress.rooted root first).load := by
  change Sound context answers root first (start.deliverSource root first)
  have only : ∀ {location source}, (start.deliverSource root first).source? location = some source →
      root = location ∧ first = source := by
    intro location source found
    rw [source?_deliverSource] at found
    split at found
    next same => exact ⟨same, Option.some.inj found⟩
    next => simp [source?, start] at found
  have stored := stored_deliverSource start root first
  have tools : ∀ {id tool}, (start.deliverSource root first).tools.get? id = some tool →
      first.tools.find? (·.id == id) = some tool := by
    intro id tool found
    rw [tools_deliverSource] at found
    simpa [start] using found
  have distinct : (start.deliverSource root first).tools.keys.Nodup :=
    @nodup_addTools [] List.nodup_nil first.tools
  have apart : (start.deliverSource root first).sources.keys.Nodup :=
    nodup_put (show (keys ([] : Entries (List Char) (Option Source))).Nodup from List.nodup_nil) root
      (some first)
  refine ⟨Grows.refl _, ?_, distinct, apart, ?_, ?_, ?_, ?_, ?_⟩
  · intro id tool found
    simpa using List.find?_some (tools found)
  · intro location source found
    obtain ⟨rfl, rfl⟩ := only found
    exact stored
  · intro id tool found
    refine .inl ⟨root, first, ?_, List.mem_of_find?_eq_some (tools found)⟩
    rw [source?_deliverSource, if_pos rfl]
  · intro location source found other
    exact absurd (only found).1.symm other
  · intro location known
    rcases mem_keys_put.mp known with rfl | old
    · exact .root
    · simp [start, keys] at old
  · intro id reference target found
    simp [target?, Load.deliverSource, addTools, start] at found

end ToolGraph.Load

import ToolGraph.Proofs.Load.Linked

/-!
The order of the tasks does not matter. Where every location always answers the same, and no source is
an artifact, a load that comes to its end has all that any other load of the same root ever meets, and
nothing that could fail. So all orders end in the same program, or all of them fail.
-/
namespace ToolGraph.Load
open Entries

/-- Each location has one answer, and so has each place where content lies. -/
structure Answers.Fixed (answers : Answers) : Prop where
  once : ∀ {location one two}, answers location one → answers location two → one = two
  apart : ∀ {location other fetched refetched}, answers location (.ok fetched) →
    answers other (.ok refetched) → fetched.location = refetched.location → fetched = refetched

def Live (load : Load) : Prop :=
  ∀ location source, load.source? location = some source → source.linked = false

section confluence
variable {context : LoadContext} {answers : Answers} {root : List Char} {first : Source}
  {left right : Load}

/-! ### What two loads have in common -/

theorem Sound.source_unique (fixed : answers.Fixed)
    (one : left.Sound context answers root first) (two : right.Sound context answers root first)
    {location : List Char} {source other : Source} (found : left.source? location = some source)
    (found' : right.source? location = some other) : source = other := by
  by_cases here : location = root
  · subst here
    exact (Option.some.inj (one.rooted.symm.trans found)).symm.trans
      (Option.some.inj (two.rooted.symm.trans found'))
  · obtain ⟨fetched, answer, read⟩ := one.read found here
    obtain ⟨refetched, answer', read'⟩ := two.read found' here
    obtain rfl := Except.ok.inj (fixed.once answer answer')
    exact Except.ok.inj (read.symm.trans read')

theorem Sound.lies (sound : left.Sound context answers root first) (live : left.Live) {id : String}
    {tool : Tool} (found : left.tools.get? id = some tool) (other : id ∉ first.tools.map Tool.id) :
    IsBuiltin tool ∨ ∃ location fetched source line, answers location (.ok fetched) ∧
      Source.read context.base context.model fetched = .ok source ∧ source.WellFormed ∧
      tool ∈ source.tools ∧ id = Block.idAt (String.ofList fetched.location) line := by
  have same := sound.tool_id found
  rcases sound.known found with ⟨location, source, at_, member⟩ | ⟨_, _, _, -, leads⟩
  · by_cases here : location = root
    · subst here
      obtain rfl := Option.some.inj (sound.rooted.symm.trans at_)
      exact absurd (same ▸ List.mem_map_of_mem member) other
    · obtain ⟨fetched, answer, read⟩ := sound.read at_ here
      obtain ⟨place, wellFormed⟩ := Source.wellFormed_of_read read
      obtain ⟨line, named⟩ := (wellFormed.lined (live _ _ at_)).ids tool member
      exact .inr ⟨location, fetched, source, line, answer, read, wellFormed, member,
        by rw [← same, named, place]⟩
  · exact .inl (builtin_of_find leads)

theorem Sound.tool_unique (fixed : answers.Fixed)
    (one : left.Sound context answers root first) (two : right.Sound context answers root first)
    (live : left.Live) (live' : right.Live) {id : String} {tool other : Tool}
    (found : left.tools.get? id = some tool) (found' : right.tools.get? id = some other) :
    tool = other := by
  have same : tool.id = other.id := (one.tool_id found).trans (two.tool_id found').symm
  by_cases rooted : id ∈ first.tools.map Tool.id
  · obtain ⟨own, member, rfl⟩ := List.mem_map.mp rooted
    obtain ⟨stored, known⟩ :=
      mem_keys_iff.mp (stored_deliverSource start root first own member)
    have known : (Progress.rooted root first).load.tools.get? own.id = some stored := known
    rw [one.grown.tools known] at found
    rw [two.grown.tools known] at found'
    exact (Option.some.inj found).symm.trans (Option.some.inj found')
  · rcases one.lies live found rooted with
      builtin | ⟨location, fetched, source, line, answer, read, wellFormed, member, named⟩
    all_goals rcases two.lies live' found' rooted with
      builtin' | ⟨location', fetched', source', line', answer', read', -, member', named'⟩
    · obtain ⟨name, known⟩ := builtin
      obtain ⟨name', known'⟩ := builtin'
      exact builtin_unique known known' same
    · have plain := colon_not_mem_id builtin
      rw [one.tool_id found, named'] at plain
      exact absurd (Block.colon_mem_idAt _ _) plain
    · have plain := colon_not_mem_id builtin'
      rw [two.tool_id found', named] at plain
      exact absurd (Block.colon_mem_idAt _ _) plain
    · have places := (Block.idAt_inj (named.symm.trans named')).1
      obtain rfl := fixed.apart answer answer' (String.ofList_injective places)
      obtain rfl := Except.ok.inj (read.symm.trans read')
      exact List.inj_on_of_nodup_map wellFormed.distinct member member' same

theorem Sound.references_unique (fixed : answers.Fixed)
    (one : left.Sound context answers root first) (two : right.Sound context answers root first)
    (live : left.Live) (live' : right.Live) {location : List Char} {source : Source}
    (found : left.source? location = some source) {tool : Tool} {reference : String}
    (refers : (tool, reference) ∈ right.references source) :
    (tool, reference) ∈ left.references source := by
  obtain ⟨unlinked, open_, ⟨own, member, known⟩, present⟩ := mem_references_iff.mp refers
  obtain ⟨stored, known'⟩ := mem_keys_iff.mp (one.stored found own member)
  obtain rfl := one.tool_unique fixed two live live' known' known
  exact mem_references_iff.mpr ⟨unlinked, open_, ⟨own, member, known'⟩, present⟩

/-! ### A load that is done has all that another one meets -/

theorem Whole.source?_of_reached (fixed : answers.Fixed)
    (whole : left.Whole context answers root first) (sound : right.Sound context answers root first)
    (live : left.Live) (live' : right.Live) {location : List Char}
    (reached : Reached context right root location) :
    ∃ source, left.source? location = some source := by
  induction reached with
  | root => exact ⟨first, whole.sound.rooted⟩
  | next _ found refers leads ih =>
    obtain ⟨source, own⟩ := ih
    obtain rfl := whole.sound.source_unique fixed sound own found
    have refers := whole.sound.references_unique fixed sound live live' own refers
    obtain ⟨target, -, resolves⟩ := whole.resolves own refers
    obtain ⟨source, known, -⟩ := resolves.of_source leads
    exact ⟨source, known⟩

theorem Whole.source?_of_source? (fixed : answers.Fixed)
    (whole : left.Whole context answers root first) (sound : right.Sound context answers root first)
    (live : left.Live) (live' : right.Live) {location : List Char} {source : Source}
    (found : right.source? location = some source) : left.source? location = some source := by
  have reached := sound.reached (mem_keys_of_source? found)
  obtain ⟨own, known⟩ := whole.source?_of_reached fixed sound live live' reached
  rw [known, whole.sound.source_unique fixed sound known found]

theorem Whole.refers (fixed : answers.Fixed)
    (whole : left.Whole context answers root first) (sound : right.Sound context answers root first)
    (live : left.Live) (live' : right.Live) {origin : List Char} {tool : Tool} {reference : String}
    (refers : Refers right origin tool reference) :
    ∃ target, left.target? tool.id reference = some target ∧
      Resolves context left tool reference target := by
  obtain ⟨location, source, found, -, member⟩ := refers
  have own := whole.source?_of_source? fixed sound live live' found
  exact whole.resolves own (whole.sound.references_unique fixed sound live live' own member)

theorem Whole.not_fails (fixed : answers.Fixed)
    (whole : left.Whole context answers root first) (sound : right.Sound context answers root first)
    (live : left.Live) (live' : right.Live) {origin : List Char} {tool : Tool} {reference : String}
    {error : Error} (refers : Refers right origin tool reference) :
    ¬ Fails context answers root right tool reference error := by
  intro fails
  obtain ⟨target, -, resolves⟩ := whole.refers fixed sound live live' refers
  cases fails with
  | nowhere leads =>
    obtain ⟨destination, known⟩ := resolves.leads
    simp [leads] at known
  | unnamed leads found refused =>
    obtain ⟨source, own, selected⟩ := resolves.of_source leads
    obtain rfl := whole.sound.source_unique fixed sound own found
    simp [selected] at refused
  | lost leads away answer refused =>
    obtain ⟨source, own, -⟩ := resolves.of_source leads
    obtain ⟨fetched, content, read⟩ := whole.sound.read own away
    obtain rfl := fixed.once content answer
    simp [Except.bind, read] at refused

/-! ### Two loads that are done are alike -/

theorem Whole.get?_of_get? (fixed : answers.Fixed)
    (whole : left.Whole context answers root first) (sound : right.Sound context answers root first)
    (live : left.Live) (live' : right.Live) {id : String} {tool : Tool}
    (found : right.tools.get? id = some tool) : left.tools.get? id = some tool := by
  have stored : id ∈ left.tools.keys := by
    rw [← sound.tool_id found]
    rcases sound.known found with ⟨location, source, at_, member⟩ | ⟨_, _, _, refers, leads⟩
    · exact whole.sound.stored (whole.source?_of_source? fixed sound live live' at_) tool member
    · obtain ⟨target, -, resolves⟩ := whole.refers fixed sound live live' refers
      exact has_iff.mp (resolves.of_builtin leads).2
  obtain ⟨own, known⟩ := mem_keys_iff.mp stored
  rw [known, whole.sound.tool_unique fixed sound live live' known found]

theorem Whole.target?_of_target? (fixed : answers.Fixed)
    (whole : left.Whole context answers root first) (sound : right.Sound context answers root first)
    (live : left.Live) (live' : right.Live) {id reference target : String}
    (found : right.target? id reference = some target) :
    left.target? id reference = some target := by
  obtain ⟨origin, tool, rfl, refers, resolves⟩ := sound.mapped found
  obtain ⟨own, mapped, resolves'⟩ := whole.refers fixed sound live live' refers
  rw [mapped]
  cases resolves with
  | sibling leads => rw [resolves'.of_sibling leads]
  | builtin leads known => rw [(resolves'.of_builtin leads).1]
  | source leads at_ selected =>
    obtain ⟨source, at_', selected'⟩ := resolves'.of_source leads
    obtain rfl := whole.sound.source_unique fixed sound at_' at_
    exact congrArg some (Except.ok.inj (selected'.symm.trans selected))

theorem Whole.alike (fixed : answers.Fixed) (whole : left.Whole context answers root first)
    (whole' : right.Whole context answers root first) (live : left.Live) (live' : right.Live)
    (name entry : String) : (left.program name entry).Alike (right.program name entry) := by
  have tools : ∀ id, left.tools.get? id = right.tools.get? id := fun id =>
    Option.ext fun _ => ⟨whole'.get?_of_get? fixed whole.sound live' live,
      whole.get?_of_get? fixed whole'.sound live live'⟩
  have targets : left.target? = right.target? := funext fun id => funext fun reference =>
    Option.ext fun _ => ⟨whole'.target?_of_target? fixed whole.sound live' live,
      whole.target?_of_target? fixed whole'.sound live live'⟩
  have finished : left.finished = right.finished := by
    funext tool
    rw [finished_eq left, finished_eq right, toolMapping_finished, toolMapping_finished, links, links,
      targets]
  refine ⟨rfl, rfl, ?_, ?_, ?_⟩
  · intro id
    simp only [Program.tool?, program, get?_mapValues, tools id, finished]
  · simpa only [program, keys_mapValues] using whole.sound.distinct
  · simpa only [program, keys_mapValues] using whole'.sound.distinct

end confluence

/-! ### Outcomes in any two orders -/

inductive SameResult : Except Error Program → Except Error Program → Prop where
  | programs {left right : Program} (text : ∀ layout, left.text layout = right.text layout)
      (artifact : Artifact.assemble left = Artifact.assemble right) :
      SameResult (.ok left) (.ok right)
  | failures (one two : Error) : SameResult (.error one) (.error two)

theorem SameResult.symm {one two : Except Error Program} (same : SameResult one two) :
    SameResult two one := by
  cases same with
  | programs text artifact => exact .programs (fun layout => (text layout).symm) artifact.symm
  | failures => exact .failures _ _

section outcomes
variable {request : LoadRequest} {place : Canonical.Place} {answers : Answers}

theorem RootFound.unique (fixed : answers.Fixed) {location other : List Char}
    {one two : Except Error Fetched} (found : RootFound request place answers location one)
    (found' : RootFound request place answers other two) : location = other ∧ one = two := by
  obtain ⟨located, answer⟩ := found
  obtain ⟨located', answer'⟩ := found'
  obtain rfl := Except.ok.inj (located.symm.trans located')
  refine ⟨rfl, ?_⟩
  unfold RootAnswers at answer answer'
  cases root : request.root with
  | text content label =>
    simp only [root] at answer answer'
    exact answer.trans answer'.symm
  | reference text =>
    simp only [root] at answer answer'
    exact fixed.once answer answer'

theorem RootRead.unique (fixed : answers.Fixed) {location other : List Char} {one two : Source}
    (read : RootRead request place answers location one)
    (read' : RootRead request place answers other two) : location = other ∧ one = two := by
  obtain ⟨fetched, found, read⟩ := read
  obtain ⟨fetched', found', read'⟩ := read'
  obtain ⟨same, content⟩ := found.unique fixed found'
  obtain rfl := Except.ok.inj content
  exact ⟨same, Except.ok.inj (read.symm.trans read')⟩

theorem Completes.reaches {load : Load} {entry : String}
    (done : Completes request place answers load entry) :
    ∃ state, Reaches request place answers state ∧ state.load = load := by
  obtain ⟨-, root, first, state, read, selected, steps, -, same⟩ := done
  exact ⟨state, ⟨root, first, read, ⟨entry, selected⟩, steps⟩, same⟩

theorem Completes.same (fixed : answers.Fixed) (timeless : request.settings.timeout = none)
    (live : ∀ {state}, Reaches request place answers state → state.load.Live) {load : Load}
    {entry : String} (done : Completes request place answers load entry)
    {result : Except Error Program} (outcome : Outcome request place answers result) :
    SameResult (.ok (load.program request.name entry)) result := by
  obtain ⟨root, first, read, selected, whole⟩ := done.whole
  obtain ⟨last, reached, rfl⟩ := done.reaches
  have liveHere := live reached
  cases outcome with
  | late timed => simp [timeless] at timed
  | noLocation refused =>
    obtain ⟨_, ⟨located, -⟩, -⟩ := read
    simp [refused] at located
  | noRoot found refused =>
    obtain ⟨fetched, found', read⟩ := read
    obtain ⟨-, rfl⟩ := found.unique fixed found'
    simp [Except.bind, read] at refused
  | noEntry read' refused =>
    obtain ⟨-, rfl⟩ := read.unique fixed read'
    simp [selected] at refused
  | failed reached raised =>
    obtain ⟨origin, cause, failure⟩ := raised.exists_failure
    have live' := live reached
    obtain ⟨root', first', read', -, steps⟩ := reached
    obtain ⟨rfl, rfl⟩ := read.unique fixed read'
    have sound := (Progress.sound_rooted _ _ root first).steps steps
    obtain ⟨tool, reference, refers, fails⟩ := sound.failures failure
    exact absurd fails (whole.not_fails fixed sound.load liveHere live' refers)
  | completed done' =>
    obtain ⟨root', first', read', selected', whole'⟩ := done'.whole
    obtain ⟨last', reached', rfl⟩ := done'.reaches
    obtain ⟨rfl, rfl⟩ := read.unique fixed read'
    obtain rfl := Except.ok.inj (selected.symm.trans selected')
    have alike := whole.alike fixed whole' liveHere (live reached') request.name entry
    exact .programs alike.text alike.assemble

theorem Outcome.same (fixed : answers.Fixed) (timeless : request.settings.timeout = none)
    (live : ∀ {state}, Reaches request place answers state → state.load.Live)
    {one two : Except Error Program} (first : Outcome request place answers one)
    (second : Outcome request place answers two) : SameResult one two := by
  cases one with
  | ok program =>
    cases first with
    | completed done => exact done.same fixed timeless live second
  | error error =>
    cases two with
    | ok program =>
      cases second with
      | completed done => exact (done.same fixed timeless live first).symm
    | error cause => exact .failures error cause

theorem Reaches.live {state : Progress} (reached : Reaches request place answers state)
    (texts : ∀ {location fetched}, answers location (.ok fetched) ∨
      RootFound request place answers location (.ok fetched) →
      Document.isArtifact fetched.content = .ok false) : state.load.Live := by
  obtain ⟨root, first, ⟨fetched, found, read⟩, -, steps⟩ := reached
  have sound := (Progress.sound_rooted _ _ root first).steps steps
  intro location source known
  by_cases here : location = root
  · subst here
    obtain rfl := Option.some.inj (sound.load.rooted.symm.trans known)
    exact Source.linked_of_read (texts (.inr found)) read
  · obtain ⟨fetched, answer, read⟩ := sound.load.read known here
    exact Source.linked_of_read (texts (.inl answer)) read

end outcomes

theorem fixed_of_steady {request : LoadRequest} {world : World}
    (steady : world.Steady request.patience) : (world.answers request).Fixed := by
  have now : ∀ {location result}, world.answers request location result →
      (Fetch.location request.patience location world).1 = result := by
    rintro location result ⟨later, past, rfl⟩
    exact (steady past location).symm
  refine ⟨fun answer answer' => (now answer).symm.trans (now answer'), ?_⟩
  intro location other fetched refetched answer answer' same
  have found := Fetch.canonical_of_location (now answer)
  have found' := Fetch.canonical_of_location (now answer')
  have alike := Fetch.location_eq_of_canonical request.patience
    (found.trans (same ▸ found'.symm)) ⟨_, found⟩
  exact Except.ok.inj ((now answer).symm.trans (alike ▸ now answer'))

/-- Where each file and URL always gives the same answer, no source is an artifact and no time is set,
all orders of the tasks end in programs with the same texts, or all of them fail. -/
theorem schedule_independent {request : LoadRequest} {world : World}
    (steady : world.Steady request.patience) (timeless : request.settings.timeout = none)
    (live : ∀ {state}, Reaches request world.place (world.answers request) state → state.load.Live)
    {one two : Except Error Program}
    (first : Outcome request world.place (world.answers request) one)
    (second : Outcome request world.place (world.answers request) two) : SameResult one two :=
  first.same (fixed_of_steady steady) timeless live second

set_option maxRecDepth 10000 in
theorem chain_schedule_independent :
    ∃ program, (run (.of "a.gpt") chain).result = .ok program ∧
      ∀ {result}, Outcome (.of "a.gpt") chain.place (chain.answers (.of "a.gpt")) result →
        SameResult (.ok program) result := by
  have plain : chain.Plain := ⟨rfl, fun found => by simp [chain, World.ofFiles] at found⟩
  have texts : ∀ file ∈ chain.files.files, Document.isArtifact file.2 = .ok false := by
    decide +kernel
  have loaded : (run (.of "a.gpt") chain).result.toOption.isSome := by decide +kernel
  cases ran : (run (.of "a.gpt") chain).result with
  | error error => simp [ran, Except.toOption] at loaded
  | ok program =>
    obtain ⟨load, entry, completed, rfl⟩ := run_eq_ok.mp ran
    refine ⟨_, rfl, fun outcome => schedule_independent (plain.steady _) rfl ?_
      (.completed (completes_of_complete completed)) outcome⟩
    intro state reached
    refine reached.live (fun {location fetched} answer => ?_)
    have answer : chain.answers (.of "a.gpt") location (.ok fetched) := answer.elim id And.right
    obtain ⟨later, past, answer⟩ := answer
    rw [plain.steady _ past] at answer
    obtain ⟨file, member, same⟩ := Fetch.file_of_location rfl rfl answer
    exact same ▸ texts file member

end ToolGraph.Load

import ToolGraph.Fetch
import ToolGraph.Proofs.Entries

/-!
Worlds that answer the same to every fetch, whatever was fetched before. Those in which a URL has no
more than one reply are of that kind: a fetch leaves nothing behind but its trace in the logs.
-/
namespace ToolGraph

namespace World

/-- The worlds that fetches leave behind. -/
inductive Later (patience : Fetch.Patience) (world : World) : World → Prop where
  | now : Later patience world world
  | fetch {later : World} (location : List Char) (before : Later patience world later) :
      Later patience world (Fetch.location patience location later).2

def Steady (patience : Fetch.Patience) (world : World) : Prop :=
  ∀ {later}, Later patience world later → ∀ location,
    (Fetch.location patience location later).1 = (Fetch.location patience location world).1

/-- No URL has more than one reply, and no content is kept. -/
structure Plain (world : World) : Prop where
  cache : world.cache = none
  replies : ∀ {url replies}, world.web.get? url = some replies → replies.length ≤ 1

def Like (one two : World) : Prop := one.clearLogs = two.clearLogs

namespace Like
variable {one two three : World}

theorem trans (first : Like one two) (second : Like two three) : Like one three :=
  Eq.trans first second

theorem symm (like : Like one two) : Like two one := Eq.symm like

theorem web (like : Like one two) : one.web = two.web :=
  show one.clearLogs.web = two.clearLogs.web from congrArg World.web like

theorem cache (like : Like one two) : one.cache = two.cache :=
  show one.clearLogs.cache = two.clearLogs.cache from congrArg World.cache like

theorem files (like : Like one two) : one.files = two.files :=
  show one.clearLogs.files = two.clearLogs.files from congrArg World.files like

theorem place (like : Like one two) : one.place = two.place :=
  show one.clearLogs.place = two.clearLogs.place from congrArg World.place like

theorem plain (like : Like one two) (plain : one.Plain) : two.Plain :=
  ⟨like.cache ▸ plain.cache, like.web ▸ plain.replies⟩

end Like

def reply (world : World) (url : List Char) : Reply :=
  ((world.web.get? url).bind List.head?).getD missing

theorem Plain.take {world : World} (plain : world.Plain) (url : List Char) :
    world.take url = (world.reply url, world) := by
  unfold World.take reply
  cases found : world.web.get? url with
  | none => rfl
  | some replies =>
    match replies, plain.replies found with
    | [], _ => rfl
    | [_], _ => rfl
    | _ :: _ :: _, short => simp at short

end World

inductive Reply.Same : Reply → Reply → Prop where
  | refl (reply : Reply) : Same reply reply
  | found (content : Bytes) (one two : Option (List Char)) :
      Same (.answer 200 content one) (.answer 200 content two)

/-- Worlds that are related have the same replies, and stay related. -/
structure World.Responding (related : World → World → Prop) : Prop where
  send : ∀ {one two}, related one two → ∀ url,
    (one.send url).1.Same (two.send url).1 ∧ related (one.send url).2 (two.send url).2
  wait : ∀ {one two}, related one two → ∀ seconds, related (one.wait seconds) (two.wait seconds)

structure World.Parallel (related : World → World → Prop) : Prop extends
    World.Responding related where
  place : ∀ {one two}, related one two → one.place = two.place
  read : ∀ {one two}, related one two → ∀ path,
    (one.read path).1 = (two.read path).1 ∧ related (one.read path).2 (two.read path).2

/-- Worlds without caches that are related answer whatever is asked of them in the same way. -/
structure World.Alike (related : World → World → Prop) : Prop extends World.Parallel related where
  uncached : ∀ {one two}, related one two → one.cache = none ∧ two.cache = none

namespace Fetch
open World

theorem follow_of_found {left : Nat} {url : List Char} {world later : World} {content : Bytes}
    {target : Option (List Char)} (sent : world.send url = (.answer 200 content target, later)) :
    follow left url world = (.answered 200 content, later) := by
  have stays : isRedirect 200 = false := by decide
  unfold follow
  simp only [sent]
  cases target with
  | none => rfl
  | some target => simp only [stays, Bool.false_eq_true, if_false]

section responding
variable {related : World → World → Prop} (responding : Responding related)
include responding

theorem respond_follow (left : Nat) (url : List Char) {one two : World} (like : related one two) :
    (follow left url one).1 = (follow left url two).1 ∧
      related (follow left url one).2 (follow left url two).2 := by
  induction left using Nat.strongRecOn generalizing url one two with
  | ind left ih =>
    obtain ⟨same, kept⟩ := responding.send like url
    cases first : one.send url with
    | mk reply one' =>
      cases second : two.send url with
      | mk reply' two' =>
        rw [first, second] at same kept
        cases same with
        | found content target target' =>
          rw [follow_of_found first, follow_of_found second]
          exact ⟨rfl, kept⟩
        | refl =>
          unfold follow
          simp only [first, second]
          cases reply with
          | failed | tooManyRedirects | undecodable => exact ⟨rfl, kept⟩
          | answer status content target =>
            cases target with
            | none => exact ⟨rfl, kept⟩
            | some target =>
              simp only
              split
              next =>
                cases redirect url target with
                | error => exact ⟨rfl, kept⟩
                | ok next =>
                  cases left with
                  | zero => exact ⟨rfl, kept⟩
                  | succ left => exact ih left left.lt_succ_self next kept
              next => exact ⟨rfl, kept⟩

theorem respond_request (url : List Char) {one two : World} (like : related one two) :
    (request url one).1 = (request url two).1 ∧ related (request url one).2 (request url two).2 := by
  unfold request
  split
  next => exact ⟨rfl, like⟩
  next => exact respond_follow responding _ _ like

theorem respond_attempt (patience : Patience) (url : List Char) (left number : Nat)
    {one two : World} (like : related one two) :
    (attempt patience url left number one).1 = (attempt patience url left number two).1 ∧
      related (attempt patience url left number one).2 (attempt patience url left number two).2 := by
  induction left generalizing number one two with
  | zero =>
    obtain ⟨same, kept⟩ := respond_request responding url like
    simp only [attempt, same]
    exact ⟨trivial, kept⟩
  | succ left ih =>
    obtain ⟨same, kept⟩ := respond_request responding url like
    simp only [attempt, same]
    split
    next =>
      split
      next => exact ih (number + 1) (responding.wait kept _)
      next => exact ⟨rfl, kept⟩
    next => exact ⟨rfl, kept⟩

end responding

section parallel
variable {related : World → World → Prop} (parallel : Parallel related)
include parallel

theorem parallel_file (path : List Char) {one two : World} (like : related one two) :
    (file path one).1 = (file path two).1 ∧ related (file path one).2 (file path two).2 := by
  obtain ⟨same, kept⟩ := parallel.read like path
  unfold file
  split
  next => exact ⟨rfl, like⟩
  next =>
    simp only [same]
    exact ⟨trivial, kept⟩

theorem parallel_location (patience : Patience) (location : List Char) {one two : World}
    (like : related one two)
    (found : ∀ url, (web patience url one).1 = (web patience url two).1 ∧
      related (web patience url one).2 (web patience url two).2) :
    (Fetch.location patience location one).1 = (Fetch.location patience location two).1 ∧
      related (Fetch.location patience location one).2 (Fetch.location patience location two).2 := by
  simp only [Fetch.location, canonical, parallel.place like]
  split
  next => exact ⟨rfl, like⟩
  next place _ =>
    split
    next =>
      obtain ⟨same, kept⟩ := found place
      simp only [same]
      exact ⟨trivial, kept⟩
    next =>
      obtain ⟨same, kept⟩ := parallel_file parallel place like
      simp only [same]
      exact ⟨trivial, kept⟩

end parallel

theorem web_uncached (patience : Patience) (url : List Char) {world : World}
    (before : world.cache = none)
    (after : (attempt patience url patience.retries 0 world).2.cache = none) :
    web patience url world = attempt patience url patience.retries 0 world := by
  unfold web
  simp only [before, Option.bind_none]
  generalize attempt patience url patience.retries 0 world = tried at after
  obtain ⟨result, later⟩ := tried
  cases result with
  | error error => rfl
  | ok content =>
    have after : later.cache = none := after
    have same : { later with cache := none } = later := by rw [← after]
    simp only [after, Option.map_none, same]

section alike
variable {related : World → World → Prop} (alike : Alike related)
include alike

theorem alike_web (patience : Patience) (url : List Char) {one two : World}
    (like : related one two) :
    (web patience url one).1 = (web patience url two).1 ∧
      related (web patience url one).2 (web patience url two).2 := by
  obtain ⟨same, kept⟩ := respond_attempt alike.toResponding patience url patience.retries 0 like
  obtain ⟨empty, empty'⟩ := alike.uncached like
  obtain ⟨still, still'⟩ := alike.uncached kept
  rw [web_uncached patience url empty still, web_uncached patience url empty' still']
  exact ⟨same, kept⟩

theorem alike_location (patience : Patience) (location : List Char) {one two : World}
    (like : related one two) :
    (Fetch.location patience location one).1 = (Fetch.location patience location two).1 ∧
      related (Fetch.location patience location one).2 (Fetch.location patience location two).2 :=
  parallel_location alike.toParallel patience location like fun url => alike_web alike patience url like

end alike
end Fetch

/-- Related worlds have the same at some locations, and stay related. -/
structure World.Follows (patience : Fetch.Patience) (allowed : List Char → Prop)
    (related : World → World → Prop) : Prop where
  fetch : ∀ {one two}, related one two → ∀ {location}, allowed location →
    (Fetch.location patience location one).1 = (Fetch.location patience location two).1 ∧
      related (Fetch.location patience location one).2 (Fetch.location patience location two).2

theorem World.Alike.follows {related : World → World → Prop} (alike : Alike related)
    (patience : Fetch.Patience) : Follows patience (fun _ => True) related :=
  ⟨fun like _ _ => Fetch.alike_location alike patience _ like⟩

theorem World.Follows.symm {patience : Fetch.Patience} {allowed : List Char → Prop}
    {related : World → World → Prop} (follows : Follows patience allowed related) :
    Follows patience allowed fun one two => related two one :=
  ⟨fun like _ within => ⟨(follows.fetch like within).1.symm, (follows.fetch like within).2⟩⟩

theorem World.Plain.alike {base : World} (plain : base.Plain) :
    Alike (fun one two => Like one base ∧ Like two base) := by
  have sent : ∀ {world : World}, Like world base → ∀ url,
      world.send url = (base.reply url, { world with requests := world.requests ++ [url] }) := by
    intro world like url
    have own := like.symm.plain plain
    have logged : World.Plain { world with requests := world.requests ++ [url] } :=
      ⟨own.cache, own.replies⟩
    refine (logged.take url).trans ?_
    simp only [reply, like.web]
  refine ⟨⟨⟨?_, ?_⟩, ?_, ?_⟩, ?_⟩
  · intro one two like url
    rw [sent like.1, sent like.2]
    exact ⟨.refl _, like⟩
  · exact fun like seconds => like
  · exact fun like => (like.1.trans like.2.symm).place
  · intro one two like path
    exact ⟨by rw [World.read, World.read, (like.1.trans like.2.symm).files], like⟩
  · exact fun like => ⟨like.1.cache.trans plain.cache, like.2.cache.trans plain.cache⟩

theorem World.Later.like {patience : Fetch.Patience} {world later : World} (plain : world.Plain)
    (past : Later patience world later) : Like later world := by
  induction past with
  | now => rfl
  | fetch location before ih => exact (Fetch.alike_location plain.alike patience location ⟨ih, ih⟩).2.1

theorem World.Plain.steady {world : World} (plain : world.Plain) (patience : Fetch.Patience) :
    world.Steady patience := by
  intro later past location
  exact (Fetch.alike_location plain.alike patience location ⟨past.like plain, rfl⟩).1

namespace Fetch
open World

theorem canonical_of_location {patience : Patience} {location : List Char} {world : World}
    {fetched : Fetched} (answer : (Fetch.location patience location world).1 = .ok fetched) :
    world.canonical location = .ok fetched.location := by
  unfold Fetch.location at answer
  split at answer
  next => simp at answer
  next place found =>
    rw [found]
    generalize (if Location.isUrl place then web patience place world else file place world) =
      result at answer
    obtain ⟨content, later⟩ := result
    cases content with
    | error error => simp [Except.map] at answer
    | ok content =>
      simp only [Except.map, Except.ok.injEq] at answer
      rw [← answer]

theorem location_eq_of_canonical (patience : Patience) {one two : List Char} {world : World}
    (same : world.canonical one = world.canonical two)
    (found : ∃ place, world.canonical one = .ok place) :
    Fetch.location patience one world = Fetch.location patience two world := by
  obtain ⟨place, found⟩ := found
  simp only [Fetch.location, found, same.symm.trans found]

theorem web_offline {patience : Patience} {url : List Char} {world : World} {content : Bytes}
    (offline : world.web = []) (uncached : world.cache = none) :
    (web patience url world).1 ≠ .ok content := by
  have missed : ∀ url, (follow maxRedirects url world).1 = .answered 404 [] := by
    intro url
    unfold follow
    simp [send, take, offline, missing]
  have passing : (request url world).1.isPassing = false := by
    unfold request
    split
    next => rfl
    next => rw [missed]; rfl
  have refused : ∀ content, (request url world).1.conclude url ≠ .ok content := by
    intro content
    unfold request
    split
    next => simp [Outcome.conclude]
    next => rw [missed]; simp [Outcome.conclude]
  have tried : attempt patience url patience.retries 0 world =
      ((request url world).1.conclude url, (request url world).2) := by
    cases patience.retries with
    | zero => rfl
    | succ left => simp only [attempt, passing, Bool.false_eq_true, if_false]
  simp only [web, uncached, Option.bind_none, tried]
  cases outcome : (request url world).1.conclude url with
  | error error => simp
  | ok own => exact absurd outcome (refused own)

theorem file_eq_ok {path : List Char} {world : World} {content : Bytes} :
    (file path world).1 = .ok content ↔
      '\x00' ∉ path ∧ world.files.readAt path = .ok content := by
  by_cases null : '\x00' ∈ path
  · simp [file, null]
  · cases read : world.files.readAt path <;> simp [file, null, World.read, read, Except.mapError]

theorem file_of_location {patience : Patience} {location : List Char} {world : World}
    {fetched : Fetched} (offline : world.web = []) (uncached : world.cache = none)
    (answer : (Fetch.location patience location world).1 = .ok fetched) :
    ∃ file ∈ world.files.files, file.2 = fetched.content := by
  have found := canonical_of_location answer
  simp only [Fetch.location, found] at answer
  by_cases url : Location.isUrl fetched.location
  · simp only [url, if_true] at answer
    cases content : (web patience fetched.location world).1 with
    | error error => simp [content, Except.map] at answer
    | ok content' => exact absurd content (web_offline offline uncached)
  · simp only [url, Bool.false_eq_true, if_false] at answer
    cases content : (file fetched.location world).1 with
    | error error => simp [content, Except.map] at answer
    | ok content' =>
      simp only [content, Except.map, Except.ok.injEq] at answer
      have content := (file_eq_ok.mp content).2
      unfold FileTree.readAt FileTree.read at content
      split at content
      next own known =>
        obtain ⟨file, member, same⟩ := List.mem_map.mp (Entries.mem_of_get? known)
        exact ⟨file, member, by rw [← answer, ← Except.ok.inj content, ← (Prod.mk.inj same).2]⟩
      next => split at content <;> (try split at content) <;> simp at content

end Fetch
end ToolGraph

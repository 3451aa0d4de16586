import ToolGraph.Proofs.Fetch

/-!
Worlds of which one has fetched a content once more than the other. They answer the same from then on,
if the content does not run out: that of a file, or of a URL that always brings it.
-/
namespace ToolGraph
open Entries

namespace World

def Serves (content : Bytes) (replies : Option (List Reply)) : Prop :=
  ∃ first rest, replies = some (first :: rest) ∧
    ∀ reply ∈ first :: rest, ∃ target, reply = .answer 200 content target

inductive Holds (world : World) (location : List Char) (content : Bytes) : Prop where
  | file (path : Location.isUrl location = false) (sound : '\x00' ∉ location)
      (read : world.files.readAt location = .ok content)
  | url {sent : List Char} (web : Location.isUrl location = true)
      (written : Url.sent location = .ok sent) (serves : Serves content (world.web.get? sent))

structure Adds (earlier later : World) (requests reads : List (List Char)) (waits : List Binary64) :
    Prop where
  requests : later.requests = earlier.requests ++ requests
  reads : later.reads = earlier.reads ++ reads
  waits : later.waits = earlier.waits ++ waits

def SameSince (origin origin' one two : World) : Prop :=
  ∃ requests reads waits, origin.Adds one requests reads waits ∧ origin'.Adds two requests reads waits

/-- Two worlds that differ in what was logged before, and in how often the replies of a URL that always
brings the same content were taken. -/
structure Twins (content : Bytes) (origin origin' one two : World) : Prop where
  place : one.cwd = two.cwd ∧ one.home = two.home ∧ one.files = two.files
  cache : one.cache = none ∧ two.cache = none
  web : ∀ url, one.web.get? url = two.web.get? url ∨
    Serves content (one.web.get? url) ∧ Serves content (two.web.get? url)
  logs : SameSince origin origin' one two

/-- The reply to a request, and the replies that are left. -/
def takeFrom : Option (List Reply) → Reply × Option (List Reply)
  | none => (missing, none)
  | some [] => (missing, some [])
  | some [reply] => (reply, some [reply])
  | some (reply :: replies) => (reply, some replies)

theorem send_eq (world : World) (url : List Char) :
    ∃ web, world.send url = ((takeFrom (world.web.get? url)).1,
        { world with web, requests := world.requests ++ [url] }) ∧
      ∀ other, web.get? other =
        if url = other then (takeFrom (world.web.get? url)).2 else world.web.get? other := by
  have same : ∀ left, world.web.get? url = left →
      ∀ other, world.web.get? other = if url = other then left else world.web.get? other := by
    rintro left rfl other
    split
    next same => rw [same]
    next => rfl
  unfold send take
  generalize found : world.web.get? url = script
  match script with
  | none | some [] | some [_] => exact ⟨world.web, rfl, same _ found⟩
  | some (reply :: second :: rest) => exact ⟨_, rfl, get?_put _ _ _⟩

theorem Serves.takeFrom {content : Bytes} {replies : Option (List Reply)}
    (serves : Serves content replies) :
    (∃ target, (World.takeFrom replies).1 = .answer 200 content target) ∧
      Serves content (World.takeFrom replies).2 := by
  obtain ⟨first, rest, rfl, each⟩ := serves
  obtain ⟨own, others⟩ := List.forall_mem_cons.mp each
  cases rest with
  | nil => exact ⟨own, first, [], rfl, each⟩
  | cons second rest => exact ⟨own, second, rest, rfl, others⟩

theorem alike_twins (content : Bytes) (origin origin' : World) :
    Alike (Twins content origin origin') where
  place := by
    intro one two twins
    obtain ⟨cwd, home, files⟩ := twins.place
    simp only [World.place, cwd, home, files]
  uncached := fun twins => twins.cache
  send := by
    intro one two twins url
    obtain ⟨web, first, left⟩ := send_eq one url
    obtain ⟨web', second, left'⟩ := send_eq two url
    rw [first, second]
    refine ⟨?_, twins.place, twins.cache, fun other => ?_, ?_⟩
    · rcases twins.web url with same | ⟨serves, serves'⟩
      · exact same ▸ .refl _
      · obtain ⟨target, reply⟩ := serves.takeFrom.1
        obtain ⟨target', reply'⟩ := serves'.takeFrom.1
        simp only [reply, reply']
        exact .found content target target'
    · simp only [left, left']
      split
      next =>
        rcases twins.web url with same | ⟨serves, serves'⟩
        · exact .inl (congrArg (fun script => (takeFrom script).2) same)
        · exact .inr ⟨serves.takeFrom.2, serves'.takeFrom.2⟩
      next => exact twins.web other
    · obtain ⟨requests, reads, waits, log, log'⟩ := twins.logs
      refine ⟨requests ++ [url], reads, waits, ⟨?_, log.reads, log.waits⟩, ?_, log'.reads, log'.waits⟩
      · simp only [log.requests, List.append_assoc]
      · simp only [log'.requests, List.append_assoc]
  read := by
    intro one two twins path
    refine ⟨congrArg (·.readAt path) twins.place.2.2, twins.place, twins.cache, twins.web, ?_⟩
    obtain ⟨requests, reads, waits, log, log'⟩ := twins.logs
    refine ⟨requests, reads ++ [path], waits, ⟨log.requests, ?_, log.waits⟩, log'.requests, ?_,
      log'.waits⟩
    · simp only [World.read, log.reads, List.append_assoc]
    · simp only [World.read, log'.reads, List.append_assoc]
  wait := by
    intro one two twins seconds
    refine ⟨twins.place, twins.cache, twins.web, ?_⟩
    obtain ⟨requests, reads, waits, log, log'⟩ := twins.logs
    refine ⟨requests, reads, waits ++ [seconds], ⟨log.requests, log.reads, ?_⟩, log'.requests,
      log'.reads, ?_⟩
    · simp only [World.wait, log.waits, List.append_assoc]
    · simp only [World.wait, log'.waits, List.append_assoc]

theorem Twins.start {content : Bytes} {one two : World}
    (place : one.cwd = two.cwd ∧ one.home = two.home ∧ one.files = two.files)
    (cache : one.cache = none ∧ two.cache = none)
    (web : ∀ url, one.web.get? url = two.web.get? url ∨
      Serves content (one.web.get? url) ∧ Serves content (two.web.get? url)) :
    Twins content one two one two where
  place
  cache
  web
  logs := ⟨[], [], [], ⟨by simp, by simp, by simp⟩, by simp, by simp, by simp⟩

theorem Twins.symm {content : Bytes} {origin origin' one two : World}
    (twins : Twins content origin origin' one two) : Twins content origin' origin two one where
  place := ⟨twins.place.1.symm, twins.place.2.1.symm, twins.place.2.2.symm⟩
  cache := twins.cache.symm
  web := fun url => (twins.web url).imp Eq.symm And.symm
  logs := by
    obtain ⟨requests, reads, waits, log, log'⟩ := twins.logs
    exact ⟨requests, reads, waits, log', log⟩

end World

namespace Fetch
open World

theorem attempt_of_found (patience : Patience) {url : List Char} (left number : Nat)
    {world later : World} {content : Bytes}
    (requested : request url world = (.answered 200 content, later)) :
    attempt patience url left number world = (.ok content, later) := by
  have settled : (Outcome.answered 200 content).isPassing = false := by simp [Outcome.isPassing]
  have found : (Outcome.answered 200 content).conclude url = .ok content := by
    simp [Outcome.conclude]
  cases left with
  | zero => simp only [attempt, requested, found]
  | succ left => simp only [attempt, requested, settled, found, Bool.false_eq_true, if_false]

theorem location_of_holds (patience : Patience) {world : World} {location : List Char}
    {content : Bytes} (own : world.canonical location = .ok location)
    (holds : world.Holds location content) (uncached : world.cache = none) :
    (Fetch.location patience location world).1 = .ok ⟨location, content⟩ ∧
      let later := (Fetch.location patience location world).2
      Twins content world later world later := by
  simp only [Fetch.location, own]
  cases holds with
  | file path sound read =>
    have sound : location.contains '\x00' = false := by simpa using sound
    simp only [path, sound, Bool.false_eq_true, if_false, file, World.read, read]
    exact ⟨rfl, .start ⟨rfl, rfl, rfl⟩ ⟨uncached, uncached⟩ fun _ => .inl rfl⟩
  | @url sent web written serves =>
    obtain ⟨scripts, replied, left⟩ := send_eq world sent
    obtain ⟨⟨target, reply⟩, serves'⟩ := serves.takeFrom
    rw [reply] at replied
    have requested : request location world = (.answered 200 content,
        { world with web := scripts, requests := world.requests ++ [sent] }) := by
      simp only [request, written]
      exact follow_of_found replied
    have tried := attempt_of_found patience patience.retries 0 requested
    have cached := web_uncached patience location uncached (by rw [tried]; exact uncached)
    simp only [web, if_true, cached, tried]
    refine ⟨rfl, .start ⟨rfl, rfl, rfl⟩ ⟨uncached, uncached⟩ fun other => ?_⟩
    simp only [left]
    split
    next same => exact .inr ⟨same ▸ serves, serves'⟩
    next => exact .inl rfl

end Fetch

end ToolGraph

import ToolGraph.Proofs.Failure
import ToolGraph.Proofs.Retry

/-!
Why a location is not fetched. A source that is missing says so: no repository is named, a file cannot
be read, or a URL is refused, or fails on the way as often as it is tried. What the client, the reader
of addresses or the file system finds wrong with a location by itself is raised as it is.
-/
namespace ToolGraph

namespace Error

def IsMissing (error : Error) : Prop := ∃ place fault, error = .source place fault

/-- Failures to fetch that do not say that a source was not found. -/
inductive Escapes : Error → Prop where
  | address (error : UrlError) : Escapes (.bare (.url error))
  | unsendable (error : SendError) : Escapes (.bare (.unsendable error))
  | nullInPath : Escapes (.bare .nullInPath)
  | redirects : Escapes (.bare .tooManyRedirects)
  | undecodable : Escapes (.bare .undecodable)
  | endless : Escapes (.bare Fetch.endlessWait)

end Error

namespace Fetch
open World Error

variable {patience : Patience} {location url : List Char} {world : World}

inductive Unfetched (patience : Patience) (location : List Char) (world : World) : Error → Prop where
  /-- The location starts like that of a repository, but names none. -/
  | repository (named : Location.isRepository location = true)
      (short : Canonical.ofRepository? location = none) :
      Unfetched patience location world (.source (String.ofList location) .notRepository)
  /-- It starts like a URL, but cannot be read as one. -/
  | address {refusal : UrlError} (other : Location.isRepository location = false)
      (web : Location.isUrl location = true) (refused : Canonical.ofUrl location = .error refusal) :
      Unfetched patience location world (.bare (.url refusal))
  /-- There is no file, or it is a directory or below a file. -/
  | file {path : List Char} {fault : FileFault} (found : world.canonical location = .ok path)
      (file : Location.isUrl path = false) (sound : '\x00' ∉ path)
      (unread : world.files.readAt path = .error fault) :
      Unfetched patience location world (.source (String.ofList path) (.file fault))
  /-- No file can have the path. -/
  | null {path : List Char} (found : world.canonical location = .ok path)
      (file : Location.isUrl path = false) (null : '\x00' ∈ path) :
      Unfetched patience location world (.bare .nullInPath)
  /-- The last attempt to fetch a URL that is not in the cache fails. -/
  | last {url : List Char} {last : Nat} {error : Error} (found : world.canonical location = .ok url)
      (web : Location.isUrl url = true)
      (absent : world.cache.bind (·.get? (String.ofList url)) = none)
      (final : Final patience url world last)
      (fails : (outcomeAt url world last).conclude url = .error error) :
      Unfetched patience location world error
  /-- There is no time for another attempt. -/
  | endless {url : List Char} (found : world.canonical location = .ok url)
      (web : Location.isUrl url = true)
      (absent : world.cache.bind (·.get? (String.ofList url)) = none)
      (endless : Endless patience url world) :
      Unfetched patience location world (.bare endlessWait)

theorem unfetched_of_refused {error : Error} (refused : world.canonical location = .error error) :
    Unfetched patience location world error := by
  unfold World.canonical Canonical.location at refused
  split at refused
  next named =>
    split at refused
    next => cases refused
    next short => exact Except.error.inj refused ▸ .repository named short
  next other =>
    split at refused
    next web =>
      split at refused
      next => cases refused
      next refusal known =>
        exact Except.error.inj refused ▸ .address (Bool.not_eq_true _ ▸ other) web known
    next => cases refused

theorem location_of_absent {error : Error} (found : world.canonical location = .ok url)
    (web : Location.isUrl url = true)
    (absent : world.cache.bind (·.get? (String.ofList url)) = none) :
    (Fetch.location patience location world).1 = .error error ↔
      (attempt patience url patience.retries 0 world).1 = .error error := by
  rw [location_of_canonical patience found]
  simp only [web, if_true, map_eq_error]
  rw [web_of_absent patience absent]

theorem file_eq_error {path : List Char} {error : Error} :
    (file path world).1 = .error error ↔ '\x00' ∈ path ∧ error = .bare .nullInPath ∨
      '\x00' ∉ path ∧ ∃ fault, world.files.readAt path = .error fault ∧
        error = .source (String.ofList path) (.file fault) := by
  by_cases null : '\x00' ∈ path
  · simp [file, null, eq_comm]
  · cases read : world.files.readAt path <;>
      simp [file, null, World.read, read, Except.mapError, eq_comm]

theorem Unfetched.error {error : Error} (unfetched : Unfetched patience location world error) :
    (Fetch.location patience location world).1 = .error error := by
  cases unfetched with
  | repository named short =>
    simp only [Fetch.location, World.canonical, Canonical.location, named, if_true, short]
  | address other web refused =>
    simp only [Fetch.location, World.canonical, Canonical.location, other, Bool.false_eq_true,
      if_false, web, if_true, refused]
  | file found path sound unread =>
    rw [location_of_canonical patience found]
    simp only [path, Bool.false_eq_true, if_false, map_eq_error, file_eq_error]
    exact .inr ⟨sound, _, unread, rfl⟩
  | null found path null =>
    rw [location_of_canonical patience found]
    simp only [path, Bool.false_eq_true, if_false, map_eq_error, file_eq_error]
    exact .inl ⟨null, trivial⟩
  | last found web absent final fails =>
    rw [location_of_absent found web absent, final.attempt_eq]
    exact fails
  | endless found web absent endless =>
    rw [location_of_absent found web absent, endless.attempt_eq]

theorem follow_broken {left : Nat} {fault : Fault}
    (broken : (follow left url world).1 = .broken fault) : Escapes (.bare fault) := by
  induction left using Nat.strongRecOn generalizing url world with
  | ind left ih =>
    unfold follow at broken
    generalize world.send url = answer at broken
    obtain ⟨reply, later⟩ := answer
    cases reply with
    | failed => cases broken
    | tooManyRedirects =>
      cases broken
      exact .redirects
    | undecodable =>
      cases broken
      exact .undecodable
    | answer status content target =>
      cases target with
      | none => cases broken
      | some target =>
        simp only at broken
        split at broken
        next =>
          cases redirected : redirect url target with
          | error => simp [redirected] at broken
          | ok next =>
            cases left with
            | zero =>
              simp only [redirected, Outcome.broken.injEq] at broken
              exact broken ▸ .redirects
            | succ left =>
              simp only [redirected] at broken
              exact ih left left.lt_succ_self broken
        next => cases broken

theorem request_broken {fault : Fault} (broken : (request url world).1 = .broken fault) :
    Escapes (.bare fault) := by
  unfold request at broken
  split at broken
  next error _ =>
    cases broken
    exact .unsendable error
  next => exact follow_broken broken

theorem Unfetched.missing_or_escapes {error : Error}
    (unfetched : Unfetched patience location world error) : error.IsMissing ∨ error.Escapes := by
  cases unfetched with
  | repository | file => exact .inl ⟨_, _, rfl⟩
  | null => exact .inr .nullInPath
  | address => exact .inr (.address _)
  | endless => exact .inr .endless
  | @last url last _ _ _ _ _ fails =>
    cases outcome : outcomeAt url world last with
    | answered status content =>
      rw [outcome, Outcome.conclude] at fails
      split at fails
      next => exact .inl ⟨_, _, (Except.error.inj fails).symm⟩
      next => cases fails
    | lost kind text =>
      rw [outcome] at fails
      exact .inl ⟨_, _, (Except.error.inj fails).symm⟩
    | broken fault =>
      rw [outcome] at fails
      exact .inr (Except.error.inj fails ▸ request_broken outcome)

end Fetch
end ToolGraph

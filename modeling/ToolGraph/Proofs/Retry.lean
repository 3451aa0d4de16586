import ToolGraph.Proofs.Cache
import ToolGraph.Proofs.Number.Powers
import ToolGraph.Proofs.Twins

/-!
Trying a URL again. How it ends hangs on what comes of requests for it in a row: the first outcome that
no other attempt may change counts, else the last one there are retries for. Each attempt but the last
is followed by a wait, and each wait is the double of the one before. Only where so many attempts pass
that the factor of a wait is beyond all numbers, the loop breaks off.
-/
namespace ToolGraph

def World.withWaits (world : World) (waits : List Binary64) : World := { world with waits }

namespace Fetch
open World

variable {patience : Patience} {url : List Char} {world : World}

/-! ### Requests in a row -/

def tried (url : List Char) (world : World) : Nat → World
  | 0 => world
  | number + 1 => (request url (tried url world number)).2

def outcomeAt (url : List Char) (world : World) (number : Nat) : Outcome :=
  (request url (tried url world number)).1

theorem send_withWaits (world : World) (waits : List Binary64) (url : List Char) :
    (world.withWaits waits).send url = ((world.send url).1, (world.send url).2.withWaits waits) := by
  simp only [World.send, World.take, withWaits]
  split <;> rfl

theorem follow_withWaits (left : Nat) (url : List Char) (world : World) (waits : List Binary64) :
    follow left url (world.withWaits waits) =
      ((follow left url world).1, (follow left url world).2.withWaits waits) := by
  induction left using Nat.strongRecOn generalizing url world with
  | ind left ih =>
    unfold follow
    rw [send_withWaits]
    generalize world.send url = answer
    obtain ⟨reply, later⟩ := answer
    cases reply with
    | failed | tooManyRedirects | undecodable => rfl
    | answer status content target =>
      cases target with
      | none => rfl
      | some target =>
        simp only
        split
        next =>
          cases redirect url target with
          | error => rfl
          | ok next =>
            cases left with
            | zero => rfl
            | succ left => exact ih left left.lt_succ_self next later
        next => rfl

theorem request_withWaits (url : List Char) (world : World) (waits : List Binary64) :
    request url (world.withWaits waits) =
      ((request url world).1, (request url world).2.withWaits waits) := by
  unfold request
  split
  next => rfl
  next => exact follow_withWaits _ _ _ _

/-! ### The loop -/

def Patience.wait (patience : Patience) (number : Nat) : Binary64 :=
  patience.backoff.mul (.ofInt (Int.ofNat (1 <<< number)))

theorem delay?_eq_some {number : Nat} (small : number < exponentLimit) :
    patience.delay? number = some (patience.wait number) := if_pos small

theorem delay?_eq_none {number : Nat} (large : exponentLimit ≤ number) :
    patience.delay? number = none := if_neg (Nat.not_lt.mpr large)

theorem delay?_eq_none_iff (patience : Patience) (number : Nat) :
    patience.delay? number = none ↔
      Binary64.ofInt (Int.ofNat (1 <<< number)) = .infinite false := by
  by_cases small : number < exponentLimit
  · rw [delay?_eq_some small, Binary64.ofInt_power small]
    exact iff_of_false (by simp) (by simp)
  · have large : exponentLimit ≤ number := Nat.le_of_not_lt small
    exact iff_of_true (delay?_eq_none large) (Binary64.ofInt_infinite large)

section loop
variable {left number : Nat} {waits : List Binary64}

theorem attempt_again (passing : (request url world).1.isPassing = true)
    (small : number < exponentLimit) :
    attempt patience url (left + 1) number (world.withWaits waits) =
      attempt patience url left (number + 1)
        ((request url world).2.withWaits (waits ++ [patience.wait number])) := by
  simp only [attempt, request_withWaits, passing, if_true, delay?_eq_some small]
  rfl

theorem attempt_last (last : left = 0 ∨ (request url world).1.isPassing = false) :
    attempt patience url left number (world.withWaits waits) =
      ((request url world).1.conclude url, (request url world).2.withWaits waits) := by
  cases left with
  | zero => simp only [attempt, request_withWaits]
  | succ left =>
    have settled := last.resolve_left (Nat.succ_ne_zero left)
    simp only [attempt, request_withWaits, settled, Bool.false_eq_true, if_false]

theorem attempt_endless (passing : (request url world).1.isPassing = true)
    (large : exponentLimit ≤ number) :
    attempt patience url (left + 1) number (world.withWaits waits) =
      (.error (.bare endlessWait), (request url world).2.withWaits waits) := by
  simp only [attempt, request_withWaits, passing, if_true, delay?_eq_none large]

end loop

def Patience.waited (patience : Patience) (url : List Char) (world : World) (count : Nat) : World :=
  (tried url world count).withWaits (world.waits ++ (List.range count).map patience.wait)

theorem attempt_passing {retries count : Nat} (few : count ≤ retries) (small : count ≤ exponentLimit)
    (passing : ∀ number < count, (outcomeAt url world number).isPassing = true) :
    attempt patience url retries 0 world =
      attempt patience url (retries - count) count (patience.waited url world count) := by
  induction count with
  | zero =>
    have same : patience.waited url world 0 = world := by
      simp [Patience.waited, tried, withWaits]
    rw [same, Nat.sub_zero]
  | succ count ih =>
    have left : retries - count = retries - (count + 1) + 1 := by omega
    rw [ih (by omega) (by omega) (fun number below => passing number (by omega)), left,
      Patience.waited, attempt_again (passing count (by omega)) (by omega), List.append_assoc,
      ← List.map_singleton, ← List.map_append, ← List.range_succ]
    rfl

/-- The attempts end with this one: it is the last there is a retry for, or its outcome counts. -/
structure Final (patience : Patience) (url : List Char) (world : World) (last : Nat) : Prop where
  few : last ≤ patience.retries
  small : last ≤ exponentLimit
  passing : ∀ number < last, (outcomeAt url world number).isPassing = true
  final : last = patience.retries ∨ (outcomeAt url world last).isPassing = false

/-- So many attempts pass that there is no wait after the last of them. -/
structure Endless (patience : Patience) (url : List Char) (world : World) : Prop where
  many : exponentLimit < patience.retries
  passing : ∀ number ≤ exponentLimit, (outcomeAt url world number).isPassing = true

theorem Final.attempt_eq {last : Nat} (final : Final patience url world last) :
    attempt patience url patience.retries 0 world =
      ((outcomeAt url world last).conclude url, (tried url world (last + 1)).withWaits
        (world.waits ++ (List.range last).map patience.wait)) := by
  have last : patience.retries - last = 0 ∨ (outcomeAt url world last).isPassing = false :=
    final.final.imp (fun same => by omega) id
  rw [attempt_passing final.few final.small final.passing, Patience.waited, attempt_last last]
  rfl

theorem Endless.attempt_eq (endless : Endless patience url world) :
    attempt patience url patience.retries 0 world =
      (.error (.bare endlessWait), (tried url world (exponentLimit + 1)).withWaits
        (world.waits ++ (List.range exponentLimit).map patience.wait)) := by
  have many := endless.many
  have passing : ∀ number < exponentLimit, (outcomeAt url world number).isPassing = true :=
    fun number below => endless.passing number below.le
  obtain ⟨left, same⟩ : ∃ left, patience.retries - exponentLimit = left + 1 :=
    ⟨patience.retries - exponentLimit - 1, by omega⟩
  rw [attempt_passing many.le (Nat.le_refl _) passing, same, Patience.waited,
    attempt_endless (endless.passing exponentLimit (Nat.le_refl _)) (Nat.le_refl _)]
  rfl

def turn (patience : Patience) (url : List Char) (number : Nat) (world : World) :
    Option (Except Error Bytes) × World :=
  let (outcome, world) := request url world
  if outcome.isPassing ∧ number < patience.retries then
    match patience.delay? number with
    | some seconds => (none, world.wait seconds)
    | none => (some (.error (.bare endlessWait)), world)
  else (some (outcome.conclude url), world)

/-- The turns of the loop up to the first result. There is none if the loop falls through. -/
def turns (patience : Patience) (url : List Char) :
    List Nat → World → Option (Except Error Bytes) × World
  | [], world => (none, world)
  | number :: numbers, world =>
    match turn patience url number world with
    | (some result, world) => (some result, world)
    | (none, world) => turns patience url numbers world

theorem turns_range' {left number : Nat} (total : number + left = patience.retries) (world : World) :
    turns patience url (List.range' number (left + 1)) world =
      (some (attempt patience url left number world).1,
        (attempt patience url left number world).2) := by
  induction left generalizing number world with
  | zero =>
    have last : ¬ number < patience.retries := by omega
    rw [Nat.zero_add, List.range'_one]
    simp only [turns, turn, last, and_false, if_false, attempt]
  | succ left ih =>
    have more : number < patience.retries := by omega
    rw [List.range'_succ]
    simp only [turns, turn, attempt, more, and_true]
    cases passing : (request url world).1.isPassing with
    | false => simp only [Bool.false_eq_true, if_false]
    | true =>
      simp only [if_true]
      cases patience.delay? number with
      | none => rfl
      | some seconds => exact ih (by omega) _

/-- The loop never falls through. -/
theorem turns_range (patience : Patience) (url : List Char) (world : World) :
    turns patience url (List.range (patience.retries + 1)) world =
      (some (attempt patience url patience.retries 0 world).1,
        (attempt patience url patience.retries 0 world).2) := by
  rw [List.range_eq_range']
  exact turns_range' (Nat.zero_add _) world

/-! ### Replies -/

/-- What comes of a request that is answered by a reply, unless it leads on to another one. -/
def outcomeOf? : Reply → Option Outcome
  | .failed kind text => some (.lost kind text)
  | .tooManyRedirects => some (.broken .tooManyRedirects)
  | .undecodable => some (.broken .undecodable)
  | .answer status content none => some (.answered status content)
  | .answer status content (some _) =>
    if isRedirect status then none else some (.answered status content)

theorem follow_of_outcomeOf? {left : Nat} {later : World} {reply : Reply} {outcome : Outcome}
    (sent : world.send url = (reply, later)) (direct : outcomeOf? reply = some outcome) :
    follow left url world = (outcome, later) := by
  unfold follow
  rw [sent]
  cases reply with
  | failed | tooManyRedirects | undecodable =>
    obtain rfl := Option.some.inj direct
    rfl
  | answer status content target =>
    cases target with
    | none =>
      obtain rfl := Option.some.inj direct
      rfl
    | some target =>
      simp only [outcomeOf?] at direct ⊢
      split at direct
      next => cases direct
      next stays =>
        obtain rfl := Option.some.inj direct
        rw [if_neg stays]

/-- A URL gives its replies one after the other, and goes on with the last one. -/
theorem takeFrom_drop (front : List Reply) (last : Reply) (number : Nat) :
    takeFrom (some (front.drop number ++ [last])) =
      ((front[number]?).getD last, some (front.drop (number + 1) ++ [last])) := by
  by_cases below : number < front.length
  · rw [List.drop_eq_getElem_cons below, List.getElem?_eq_getElem below]
    cases rest : front.drop (number + 1) with
    | nil => rfl
    | cons => rfl
  · have beyond : front.length ≤ number := Nat.le_of_not_lt below
    rw [List.drop_eq_nil_of_le beyond, List.drop_eq_nil_of_le (Nat.le_succ_of_le beyond),
      List.getElem?_eq_none beyond]
    rfl

/-- A URL that is answered without redirects, by replies that are known. -/
structure Answered (url sent : List Char) (front : List Reply) (last : Reply) (world : World) :
    Prop where
  sends : Url.sent url = .ok sent
  script : world.web.get? sent = some (front ++ [last])
  direct : ∀ reply ∈ front ++ [last], (outcomeOf? reply).isSome

theorem Answered.request {sent : List Char} {front : List Reply} {last : Reply} {number : Nat}
    (answered : Answered url sent front last world)
    (script : (tried url world number).web.get? sent = some (front.drop number ++ [last])) :
    outcomeOf? ((front[number]?).getD last) = some (outcomeAt url world number) ∧
      (tried url world (number + 1)).requests = (tried url world number).requests ++ [sent] ∧
      (tried url world (number + 1)).web.get? sent = some (front.drop (number + 1) ++ [last]) := by
  obtain ⟨web, sends, left⟩ := send_eq (tried url world number) sent
  rw [script, takeFrom_drop] at sends left
  have member : (front[number]?).getD last ∈ front ++ [last] := by
    cases found : front[number]? with
    | none => simp
    | some reply => exact List.mem_append_left _ (List.mem_of_getElem? found)
  obtain ⟨outcome, direct⟩ := Option.isSome_iff_exists.mp (answered.direct _ member)
  have whole : Fetch.request url (tried url world number) =
      (outcome, { tried url world number with
        web, requests := (tried url world number).requests ++ [sent] }) := by
    simp only [Fetch.request, answered.sends]
    exact follow_of_outcomeOf? sends direct
  rw [outcomeAt, tried, whole]
  exact ⟨direct, rfl, by simp [left]⟩

theorem Answered.attempts {sent : List Char} {front : List Reply} {last : Reply}
    (answered : Answered url sent front last world) (number : Nat) :
    outcomeOf? ((front[number]?).getD last) = some (outcomeAt url world number) ∧
      (tried url world number).requests = world.requests ++ List.replicate number sent := by
  have script : (tried url world number).web.get? sent = some (front.drop number ++ [last]) ∧
      (tried url world number).requests = world.requests ++ List.replicate number sent := by
    induction number with
    | zero => exact ⟨answered.script, by simp [tried]⟩
    | succ number ih =>
      obtain ⟨-, requests, script⟩ := answered.request ih.1
      refine ⟨script, ?_⟩
      rw [requests, ih.2, List.append_assoc, List.replicate_succ']
  exact ⟨(answered.request script.1).1, script.2⟩

/-! ### How it ends -/

def Outcome.fault? : Outcome → Option SourceFault
  | .answered status _ => some (.status status)
  | .lost kind text => some (.transport kind text)
  | .broken _ => none

def Ends (patience : Patience) (location url : List Char) (world : World) (attempts : Nat)
    (result : Except Error Bytes) : Prop :=
  Fetch.location patience location world =
    (result.map (fun content => ⟨url, content⟩), (tried url world attempts).withWaits
      (world.waits ++ (List.range (attempts - 1)).map patience.wait))

/-- How a URL is fetched that is not in a cache. -/
structure Retried (patience : Patience) (location url : List Char) (world : World) : Prop where
  /-- The first answer that is no failure of the server counts. -/
  answered : ∀ {last status content}, last ≤ patience.retries → last ≤ exponentLimit →
    (∀ number < last, (outcomeAt url world number).isPassing = true) →
    outcomeAt url world last = .answered status content → status < 500 →
    Ends patience location url world (last + 1)
      (if status < 400 then .ok content
        else .error (.source (String.ofList url) (.status status)))
  /-- So does the first failure that is none of the way or the server. -/
  broken : ∀ {last fault}, last ≤ patience.retries → last ≤ exponentLimit →
    (∀ number < last, (outcomeAt url world number).isPassing = true) →
    outcomeAt url world last = .broken fault →
    Ends patience location url world (last + 1) (.error (.bare fault))
  /-- Where all attempts fail on the way or on the server, the last failure is told. -/
  exhausted : patience.retries ≤ exponentLimit →
    (∀ number ≤ patience.retries, (outcomeAt url world number).isPassing = true) →
    ∃ fault, (outcomeAt url world patience.retries).fault? = some fault ∧
      Ends patience location url world (patience.retries + 1)
        (.error (.source (String.ofList url) fault))
  /-- After too many of them, there is no wait any more. -/
  endless : exponentLimit < patience.retries →
    (∀ number ≤ exponentLimit, (outcomeAt url world number).isPassing = true) →
    Ends patience location url world (exponentLimit + 1) (.error (.bare endlessWait))
  /-- That is, the factor is beyond all numbers. -/
  limit : ∀ number, patience.delay? number = none ↔
    Binary64.ofInt (Int.ofNat (1 <<< number)) = .infinite false
  /-- The loop ends with one of its turns. -/
  loop : turns patience url (List.range (patience.retries + 1)) world =
    (some (attempt patience url patience.retries 0 world).1,
      (attempt patience url patience.retries 0 world).2)
  /-- Each wait is the base times a power of two, as long as there is a number for it. -/
  doubling : ∀ {number negative base product}, number < exponentLimit →
    patience.backoff = .finite negative base → product.units = base.units * 2 ^ number →
    patience.wait number = .finite negative product
  /-- Without redirects, each attempt makes one request and takes one reply. -/
  replies : ∀ {sent front last}, Answered url sent front last world → ∀ number,
    outcomeOf? ((front[number]?).getD last) = some (outcomeAt url world number) ∧
      (tried url world number).requests = world.requests ++ List.replicate number sent

theorem location_retried {location : List Char} (uncached : world.cache = none)
    (found : world.canonical location = .ok url) (web : Location.isUrl url = true) :
    Retried patience location url world := by
  have whole : Fetch.location patience location world =
      ((attempt patience url patience.retries 0 world).1.map (fun content => ⟨url, content⟩),
        (attempt patience url patience.retries 0 world).2) := by
    have kept := (attempt_keeps patience url patience.retries 0 world).2.2
    rw [location_of_canonical patience found, if_pos web,
      web_uncached patience url uncached (kept.trans uncached)]
  have ends : ∀ {last}, Final patience url world last →
      Ends patience location url world (last + 1) ((outcomeAt url world last).conclude url) := by
    intro last final
    rw [Ends, whole, final.attempt_eq]
    rfl
  refine ⟨?_, ?_, ?_, ?_, delay?_eq_none_iff patience, turns_range patience url world, ?_,
    fun answered => answered.attempts⟩
  · intro last status content few small passing outcome below
    have settled : (outcomeAt url world last).isPassing = false := by
      simpa [outcome, Outcome.isPassing] using below
    have ended := ends ⟨few, small, passing, .inr settled⟩
    rw [outcome, Outcome.conclude] at ended
    split at ended
    next high => rwa [if_neg (Int.not_lt.mpr high)]
    next low => rwa [if_pos (Int.not_le.mp low)]
  · intro last fault few small passing outcome
    have ended := ends ⟨few, small, passing, .inr (by rw [outcome]; rfl)⟩
    rwa [outcome] at ended
  · intro small passing
    have final := passing patience.retries (Nat.le_refl _)
    have ended := ends ⟨Nat.le_refl _, small, fun number below => passing number below.le, .inl rfl⟩
    cases outcome : outcomeAt url world patience.retries with
    | answered status content =>
      simp only [outcome, Outcome.isPassing, decide_eq_true_eq] at final
      have high : 400 ≤ status := by omega
      rw [outcome, Outcome.conclude, if_pos high] at ended
      exact ⟨_, rfl, ended⟩
    | lost kind text =>
      rw [outcome] at ended
      exact ⟨_, rfl, ended⟩
    | broken fault => simp [outcome, Outcome.isPassing] at final
  · intro many passing
    rw [Ends, whole, Endless.attempt_eq ⟨many, passing⟩]
    rfl
  · intro number negative base product small known exact
    rw [Patience.wait, known]
    exact Binary64.mul_power small exact

/-- A web with one recipe, which comes at the third attempt. -/
def bakery : World where
  cwd := ['/']
  home := ['/']
  files := .empty
  web := [("http://h/a.gpt".toList, [.failed "ConnectError" "", .answer 503 [] none,
    .answer 200 [103, 111] none])]
  cache := none
  requests := []
  reads := []
  waits := []

theorem bakery_retried :
    let url := "http://h/a.gpt".toList
    let patience : Patience := ⟨2, .ofInt 1⟩
    Ends patience url url bakery 3 (.ok [103, 111]) ∧
      (tried url bakery 3).requests = List.replicate 3 url := by
  intro url patience
  have retried : Retried patience url url bakery :=
    location_retried rfl (by decide +kernel) (by decide +kernel)
  have answered : Answered url url [.failed "ConnectError" "", .answer 503 [] none]
      (.answer 200 [103, 111] none) bakery := ⟨by decide +kernel, rfl, by decide⟩
  have outcome : outcomeAt url bakery 2 = .answered 200 [103, 111] := by
    simpa [outcomeOf?] using (retried.replies answered 2).1.symm
  exact ⟨retried.answered (Nat.le_refl 2) (by decide) (by decide +kernel) outcome (by decide),
    (retried.replies answered 3).2⟩

end Fetch
end ToolGraph

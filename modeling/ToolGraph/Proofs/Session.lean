import ToolGraph.Proofs.Found
import ToolGraph.Proofs.Twins

/-!
Sessions in which each URL always gives the same reply. A cache that starts empty holds nothing then but
what a request would bring again, so that a fetch finds the same with the cache as without.
-/
namespace ToolGraph

/-! ### URLs that always give the same reply -/

namespace World

def Always (reply : Reply) : Option (List Reply) → Prop
  | none | some [] => reply = missing
  | some replies => ∀ other ∈ replies, other = reply

def Fixed (replies : List Char → Reply) (world : World) : Prop :=
  ∀ url, Always (replies url) (world.web.get? url)

variable {replies : List Char → Reply} {world one two : World}

theorem Always.takeFrom {reply : Reply} {script : Option (List Reply)} (always : Always reply script) :
    (World.takeFrom script).1 = reply ∧ Always reply (World.takeFrom script).2 := by
  match script, always with
  | none, same | some [], same => exact ⟨same.symm, same⟩
  | some [first], each => exact ⟨each first List.mem_cons_self, each⟩
  | some (first :: second :: rest), each =>
    exact ⟨each first List.mem_cons_self, fun other member => each other (.tail first member)⟩

theorem Fixed.send (fixed : world.Fixed replies) (url : List Char) :
    (world.send url).1 = replies url ∧ (world.send url).2.Fixed replies := by
  obtain ⟨web, sent, left⟩ := send_eq world url
  obtain ⟨reply, rest⟩ := (fixed url).takeFrom
  rw [sent]
  refine ⟨reply, fun other => ?_⟩
  simp only [left]
  split
  next same => exact same ▸ rest
  next => exact fixed other

theorem fixed_reply (single : ∀ entry ∈ world.web, entry.2.length ≤ 1) :
    world.Fixed world.reply := by
  intro url
  unfold World.reply
  cases found : world.web.get? url with
  | none => rfl
  | some script =>
    match script, single _ (Entries.mem_of_get? found) with
    | [], _ => rfl
    | [_], _ => exact fun other member => List.mem_singleton.mp member
    | _ :: _ :: _, short => simp at short

theorem responding_fixed (replies : List Char → Reply) :
    Responding fun one two => one.Fixed replies ∧ two.Fixed replies where
  send := by
    rintro one two ⟨fixed, fixed'⟩ url
    obtain ⟨reply, kept⟩ := fixed.send url
    obtain ⟨reply', kept'⟩ := fixed'.send url
    exact ⟨reply.trans reply'.symm ▸ .refl _, kept, kept'⟩
  wait := fun fixed seconds => fixed

def Brings (world : World) (url : List Char) (content : Bytes) : Prop :=
  ∃ status, status < 400 ∧ (Fetch.request url world).1 = .answered status content

end World

namespace Fetch
open World
variable {replies : List Char → Reply} {world one two : World}

theorem request_fixed (fixed : one.Fixed replies) (fixed' : two.Fixed replies) (url : List Char) :
    (request url one).1 = (request url two).1 :=
  (respond_request (responding_fixed replies) url ⟨fixed, fixed'⟩).1

/-- Trying again does not change what comes of a URL, but there may be no time for it. -/
theorem attempt_fixed (fixed : world.Fixed replies) (patience : Patience) (url : List Char)
    (left number : Nat) :
    (attempt patience url left number world).1 = (request url world).1.conclude url ∨
      (request url world).1.isPassing = true ∧
        (attempt patience url left number world).1 = .error (.bare endlessWait) := by
  induction left generalizing number world with
  | zero => exact .inl (by simp only [attempt])
  | succ left ih =>
    have kept : (request url world).2.Fixed replies :=
      (respond_request (responding_fixed replies) url ⟨fixed, fixed⟩).2.1
    simp only [attempt]
    split
    next passing =>
      split
      next seconds _ =>
        have waited : ((request url world).2.wait seconds).Fixed replies := kept
        rw [request_fixed fixed waited]
        exact ih waited (number + 1)
      next => exact .inr ⟨passing, rfl⟩
    next => exact .inl rfl

theorem fixed_attempt (fixed : world.Fixed replies) (patience : Patience) (url : List Char)
    (left number : Nat) : (attempt patience url left number world).2.Fixed replies :=
  (respond_attempt (responding_fixed replies) patience url left number ⟨fixed, fixed⟩).2.1

theorem fixed_location (fixed : world.Fixed replies) (patience : Patience) (location : List Char) :
    (Fetch.location patience location world).2.Fixed replies := by
  rcases location_world patience location world with same | ⟨path, same⟩ | ⟨url, cache, same⟩
  · rw [same]
    exact fixed
  · rw [same]
    exact fixed
  · rw [same]
    exact fixed_attempt fixed patience url patience.retries 0

theorem conclude_eq_ok {url : List Char} {outcome : Outcome} {content : Bytes} :
    outcome.conclude url = .ok content ↔
      ∃ status, status < 400 ∧ outcome = .answered status content := by
  cases outcome with
  | answered status own =>
    simp only [Outcome.conclude]
    split
    next high => simp; omega
    next low => simp; omega
  | lost => simp [Outcome.conclude]
  | broken => simp [Outcome.conclude]

theorem attempt_eq_ok (fixed : world.Fixed replies) {patience : Patience} {url : List Char}
    {left number : Nat} {content : Bytes} :
    (attempt patience url left number world).1 = .ok content ↔ world.Brings url content := by
  rcases attempt_fixed fixed patience url left number with same | ⟨passing, endless⟩
  · rw [same, conclude_eq_ok]
    rfl
  · rw [endless]
    refine ⟨fun found => (by cases found), ?_⟩
    rintro ⟨status, low, answered⟩
    simp only [answered, Outcome.isPassing, decide_eq_true_eq] at passing
    omega

end Fetch

theorem World.Brings.fixed {replies : List Char → Reply} {one two : World} {url : List Char}
    {content : Bytes} (brings : one.Brings url content) (fixed : one.Fixed replies)
    (fixed' : two.Fixed replies) : two.Brings url content := by
  obtain ⟨status, success, answer⟩ := brings
  exact ⟨status, success, (Fetch.request_fixed fixed' fixed url).trans answer⟩

/-! ### Canonical URLs -/

namespace Canonical

theorem location_of_isUrl {location : List Char} (web : Location.isUrl location = true)
    (one two : Place) : Canonical.location one location = Canonical.location two location := by
  simp only [Canonical.location, web, if_true]

theorem own_of_isUrl {place : Place} {location url : List Char}
    (rooted : Path.isAbsolute place.cwd = true) (found : Canonical.location place location = .ok url)
    (web : Location.isUrl url = true) : Canonical.location place url = .ok url := by
  rcases location_cases rooted found with ⟨-, own⟩ | normal
  · exact own
  · simp [(not_web_of_isAbsolute normal.isAbsolute).1] at web

def Within (used : List Char → Prop) (place : Place) (location : List Char) : Prop :=
  ∀ url, Canonical.location place location = .ok url → Location.isUrl url = true → used url

end Canonical

/-! ### Sessions -/

/-- Time goes by, or room is made: what is stored lapses or goes. -/
def Shelf.Fades (earlier later : Shelf) : Prop :=
  ∀ entry ∈ later, ∃ old ∈ earlier, old.1 = entry.1 ∧ old.2.content = entry.2.content ∧
    (entry.2.live = true → old.2.live = true)

/-- Digests tell URLs apart. -/
def Digest.Separates (used : List Char → Prop) : Prop :=
  ∀ {one two}, used one → used two →
    Digest.ofText (String.ofList one) = Digest.ofText (String.ofList two) → one = two

namespace World

/-- The worlds of a session. Locations are fetched by loads that succeed, fail or are given up, in any
order of their tasks; in between, files change, content lapses and the cache is changed by hand. A cache
may be opened anew with other settings. -/
inductive Session (used : List Char → Prop) (start : World) : World → Prop
  | start : Session used start start
  | fetch {world : World} {patience : Fetch.Patience} {location : List Char}
      (session : Session used start world) (within : Canonical.Within used world.place location) :
      Session used start (Fetch.location patience location world).2
  | edit {world : World} (session : Session used start world) (files : FileTree) :
      Session used start { world with files }
  | fade {world : World} {cache later : Cache} (session : Session used start world)
      (cached : world.cache = some cache) (fades : cache.shelf.Fades later.shelf) :
      Session used start { world with cache := some later }
  | erase {world : World} (session : Session used start world) (url : String) :
      Session used start { world with cache := world.cache.map (·.erase url) }
  | clear {world : World} (session : Session used start world) :
      Session used start { world with cache := world.cache.map Cache.clear }

def Keeps (used : List Char → Prop) (world : World) (key : String) (content : Bytes) : Prop :=
  ∃ url, used url ∧ Location.isUrl url = true ∧ world.canonical url = .ok url ∧
    Digest.ofText (String.ofList url) = key ∧ world.Brings url content

variable {used : List Char → Prop} {replies : List Char → Reply} {start world other : World}

theorem Keeps.fixed {key : String} {content : Bytes} (keeps : Keeps used world key content)
    (fixed : world.Fixed replies) (fixed' : other.Fixed replies) : Keeps used other key content := by
  obtain ⟨url, known, web, own, same, brings⟩ := keeps
  exact ⟨url, known, web, (Canonical.location_of_isUrl web _ _).trans own, same,
    brings.fixed fixed fixed'⟩

structure Steadfast (replies : List Char → Reply) (used : List Char → Prop) (world : World) :
    Prop where
  fixed : world.Fixed replies
  rooted : Path.isAbsolute world.cwd = true
  keeps : world.Stores (Keeps used world)

/-- What is in the cache may go or lapse, and files may change. -/
theorem Steadfast.fade (steadfast : world.Steadfast replies used) (cwd : other.cwd = world.cwd)
    (web : other.web = world.web)
    (kept : ∀ {cache}, other.cache = some cache → ∀ entry ∈ cache.shelf,
      ∃ before, world.cache = some before ∧
        ∃ old ∈ before.shelf, old.1 = entry.1 ∧ old.2.content = entry.2.content) :
    other.Steadfast replies used := by
  have fixed : other.Fixed replies := by
    unfold Fixed
    rw [web]
    exact steadfast.fixed
  refine ⟨fixed, cwd ▸ steadfast.rooted, fun cache known entry member => ?_⟩
  obtain ⟨before, old, stored, found, key, content⟩ := kept known entry member
  rw [← key, ← content]
  exact (steadfast.keeps before old stored found).fixed steadfast.fixed fixed

theorem Steadfast.fetch (steadfast : world.Steadfast replies used) {patience : Fetch.Patience}
    {location : List Char} (within : Canonical.Within used world.place location) :
    (Fetch.location patience location world).2.Steadfast replies used := by
  have fixed := Fetch.fixed_location steadfast.fixed patience location
  have cwd : (Fetch.location patience location world).2.cwd = world.cwd :=
    congrArg Canonical.Place.cwd (Fetch.location_keeps patience location world).1
  refine ⟨fixed, cwd ▸ steadfast.rooted, ?_⟩
  have stored : ∀ {url content}, world.canonical location = .ok url → Location.isUrl url = true →
      (Fetch.attempt patience url patience.retries 0 world).1 = .ok content →
      Keeps used world (Digest.ofText (String.ofList url)) content := by
    intro url content found web answer
    have own : world.canonical url = .ok url := Canonical.own_of_isUrl steadfast.rooted found web
    exact ⟨url, within url found web, web, own, rfl, (Fetch.attempt_eq_ok steadfast.fixed).mp answer⟩
  have stores := steadfast.keeps.fetch location stored
  exact fun cache known entry member => (stores cache known entry member).fixed steadfast.fixed fixed

theorem steadfast_of_empty (fixed : start.Fixed replies) (rooted : Path.isAbsolute start.cwd = true)
    (empty : ∀ cache, start.cache = some cache → cache.shelf = Shelf.empty) :
    start.Steadfast replies used := by
  refine ⟨fixed, rooted, fun cache known entry member => ?_⟩
  simp [empty cache known, Shelf.empty] at member

theorem Session.steadfast (session : Session used start world)
    (steadfast : start.Steadfast replies used) : world.Steadfast replies used := by
  induction session with
  | start => exact steadfast
  | fetch _ within ih => exact ih.fetch within
  | edit _ files ih => exact ih.fade rfl rfl fun known entry member => ⟨_, known, entry, member, rfl, rfl⟩
  | fade _ cached fades ih =>
    refine ih.fade rfl rfl fun known entry member => ?_
    obtain rfl := Option.some.inj known
    obtain ⟨old, found, key, content, -⟩ := fades entry member
    exact ⟨_, cached, old, found, key, content⟩
  | erase _ url ih =>
    refine ih.fade rfl rfl fun known entry member => ?_
    obtain ⟨before, stored, rfl⟩ := Option.map_eq_some_iff.mp known
    refine ⟨before, stored, entry, ?_, rfl, rfl⟩
    unfold Cache.erase Cache.change at member
    split at member
    next => exact List.mem_of_mem_filter member
    next => exact member
  | clear _ ih =>
    refine ih.fade rfl rfl fun known entry member => ?_
    obtain ⟨before, stored, rfl⟩ := Option.map_eq_some_iff.mp known
    refine ⟨before, stored, entry, ?_, rfl, rfl⟩
    unfold Cache.clear Cache.change at member
    split at member
    next => simp [Shelf.empty] at member
    next => exact member

theorem Session.directories (session : Session used start world) :
    world.cwd = start.cwd ∧ world.home = start.home := by
  induction session with
  | start => exact ⟨rfl, rfl⟩
  | @fetch world patience location _ _ ih =>
    obtain ⟨place, -⟩ := Fetch.location_keeps patience location world
    exact ⟨(congrArg Canonical.Place.cwd place).trans ih.1,
      (congrArg Canonical.Place.home place).trans ih.2⟩
  | edit _ _ ih | fade _ _ _ ih | erase _ _ ih | clear _ ih => exact ih

end World
end ToolGraph

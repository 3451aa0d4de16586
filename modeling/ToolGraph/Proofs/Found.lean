import Mathlib.Data.Nat.Digits.Defs
import Mathlib.Data.List.Nodup
import Mathlib.Data.Fintype.Card
import ToolGraph.Load.Run
import ToolGraph.Proofs.Cache
import ToolGraph.Proofs.Path
import ToolGraph.Proofs.Text.Utf8

/-!
Where content can be found. A canonical location is a URL that stays as it is or a normal path. A URL
that is too long is never sent, and a path that no file has is not found, so that the locations with
content are no longer than the longest of these.
-/
namespace ToolGraph

namespace Canonical
open Text

variable {place : Place} {location canonical : List Char}

theorem isName_toolFile : Path.IsName toolFile :=
  ⟨by decide, by decide, by decide, by decide⟩

theorem isNormal_ofPath (rooted : Path.isAbsolute place.cwd = true) (location : List Char) :
    Path.IsNormal (ofPath place location) := by
  have normal := Path.isNormal_absolute rooted (Path.expandHome place.home location)
  simp only [ofPath]
  split
  · exact (Path.isNormal_join normal isName_toolFile).1
  · exact normal

theorem ofPath_of_isAbsolute (absolute : Path.isAbsolute location = true) :
    let path := Path.normalise location
    ofPath place location = if place.isDirectory path then Path.join path toolFile else path := by
  have own : Path.expandHome place.home location = location := by
    cases location with
    | nil => rfl
    | cons c rest =>
      obtain rfl : '/' = c := by simpa [Path.isAbsolute] using absolute
      rfl
  simp only [ofPath, own, Path.absolute, if_pos absolute]

theorem ofPath_of_isNormal (normal : Path.IsNormal location) :
    ofPath place location =
      if place.isDirectory location then Path.join location toolFile else location := by
  have same := @ofPath_of_isAbsolute place location normal.isAbsolute
  rwa [Path.normalise_of_isNormal normal] at same

theorem length_le_ofPath (normal : Path.IsNormal location) :
    location.length ≤ (ofPath place location).length := by
  rw [ofPath_of_isNormal normal]
  split
  · exact (Path.isNormal_join normal isName_toolFile).2
  · exact Nat.le_refl _

theorem not_web_of_isAbsolute (absolute : Path.isAbsolute location = true) :
    Location.isUrl location = false ∧ Location.isRepository location = false := by
  cases location with
  | nil => simp [Path.isAbsolute] at absolute
  | cons c rest =>
    obtain rfl : '/' = c := by simpa [Path.isAbsolute] using absolute
    simp [Location.isUrl, Location.isRepository, startsWith, List.isPrefixOf]

theorem location_of_isAbsolute (absolute : Path.isAbsolute location = true) :
    Canonical.location place location = .ok (ofPath place location) := by
  obtain ⟨noUrl, noRepository⟩ := not_web_of_isAbsolute absolute
  simp only [Canonical.location, noUrl, noRepository, Bool.false_eq_true, if_false]

theorem rawUrl_eq (owner repository version path : List Char) :
    ∃ rest, rawUrl owner repository version path = rawHost ++ '/' :: rest := by
  refine ⟨joinWith ['/'] [owner, repository, version, path], ?_⟩
  simp [rawUrl, joinWith]

/-- No page stands for another file. -/
theorem ofUrl_rawHost (rest : List Char) :
    ofUrl (rawHost ++ '/' :: rest) = .ok (rawHost ++ '/' :: rest) := by
  let host := "raw.githubusercontent.com".toList
  have clean : ∃ left, Url.clean (rawHost ++ '/' :: rest) = rawHost ++ '/' :: left := by
    refine ⟨rest.filter (fun c => c != '\t' && c != '\r' && c != '\n'), ?_⟩
    have first : (rawHost ++ '/' :: rest).dropWhile (fun c => decide (c.toNat ≤ 32)) =
        rawHost ++ '/' :: rest := List.dropWhile_cons_of_neg (by decide)
    have kept : rawHost.filter (fun c => c != '\t' && c != '\r' && c != '\n') = rawHost := by decide
    rw [Url.clean, first, List.filter_append, kept]
    rfl
  obtain ⟨left, clean⟩ := clean
  have parts : rawHost ++ '/' :: left = "https".toList ++ ':' :: '/' :: '/' :: (host ++ '/' :: left) := rfl
  have scheme : Url.cutScheme? (rawHost ++ '/' :: left) =
      some ("https".toList, '/' :: '/' :: (host ++ '/' :: left)) := by
    rw [parts, Url.cutScheme?, cutAt?_append (by decide)]
    rfl
  have all : (host.all fun c => !Url.endsAuthority c) = true := by decide
  have inside : ∀ c ∈ host, (!Url.endsAuthority c) = true := List.all_eq_true.mp all
  have authority : Url.cutAuthority ('/' :: '/' :: (host ++ '/' :: left)) = (host, '/' :: left) := by
    rw [Url.cutAuthority, List.takeWhile_append_of_pos inside, List.dropWhile_append_of_pos inside]
    simp [Url.endsAuthority]
  have checked : Url.checkAuthority host = .ok () := by decide
  have other : pageHosts.contains host = false := by decide
  simp only [ofUrl, Url.split, clean, scheme, authority, checked, Option.getD_some, bind, Except.bind,
    pure, Except.pure, other, Bool.false_eq_true, false_and, if_false]
  split <;> rfl

theorem ofUrl_cases (read : ofUrl location = .ok canonical) :
    canonical = location ∨ ∃ rest, canonical = rawHost ++ '/' :: rest := by
  unfold ofUrl at read
  cases split : Url.split location [] with
  | error error => simp [split, bind, Except.bind] at read
  | ok url =>
    simp only [split, bind, Except.bind] at read
    split at read
    · split at read
      · exact .inr (Except.ok.inj read ▸ rawUrl_eq _ _ _ _)
      · exact .inl (Except.ok.inj read).symm
    · exact .inl (Except.ok.inj read).symm

theorem location_rawHost (rest : List Char) :
    Location.isUrl (rawHost ++ '/' :: rest) = true ∧
      Canonical.location place (rawHost ++ '/' :: rest) = .ok (rawHost ++ '/' :: rest) := by
  have web : Location.isUrl (rawHost ++ '/' :: rest) = true := rfl
  have other : Location.isRepository (rawHost ++ '/' :: rest) = false := rfl
  refine ⟨web, ?_⟩
  simp only [Canonical.location, web, other, Bool.false_eq_true, if_false, if_true, ofUrl_rawHost]

theorem location_cases (rooted : Path.isAbsolute place.cwd = true)
    (found : Canonical.location place location = .ok canonical) :
    (Location.isUrl canonical = true ∧ Canonical.location place canonical = .ok canonical) ∨
      Path.IsNormal canonical := by
  have raw : (∃ rest, canonical = rawHost ++ '/' :: rest) → Location.isUrl canonical = true ∧
      Canonical.location place canonical = .ok canonical := by
    rintro ⟨rest, rfl⟩
    exact location_rawHost rest
  have same := found
  unfold Canonical.location at found
  split at found
  next =>
    split at found
    next url known =>
      obtain rfl := Except.ok.inj found
      unfold ofRepository? at known
      simp only at known
      split at known
      next => exact .inl (raw (Option.some.inj known ▸ rawUrl_eq _ _ _ _))
      next => simp at known
    next => simp at found
  next =>
    split at found
    next web =>
      split at found
      next url known =>
        obtain rfl := Except.ok.inj found
        rcases ofUrl_cases known with rfl | other
        · exact .inl ⟨web, same⟩
        · exact .inl (raw other)
      next => simp at found
    next => exact .inr (Except.ok.inj found ▸ isNormal_ofPath rooted location)

end Canonical

/-! ### What has content -/

namespace Fetch

theorem sent_of_attempt {patience : Patience} {url : List Char} {left number : Nat} {world : World}
    {content : Bytes} (found : (attempt patience url left number world).1 = .ok content) :
    ∃ sent, Url.sent url = .ok sent := by
  cases written : Url.sent url with
  | ok sent => exact ⟨sent, rfl⟩
  | error error =>
    have requested : request url world = (.broken (.unsendable error), world) := by
      simp only [request, written]
    cases left with
    | zero => simp [attempt, requested, Outcome.conclude] at found
    | succ left => simp [attempt, requested, Outcome.isPassing, Outcome.conclude] at found

theorem length_of_sent {url sent : List Char} (written : Url.sent url = .ok sent) :
    url.length ≤ Url.maxSentLength := by
  by_contra long
  have refused : Url.checkCharacters url = .error .tooLong := if_pos (by omega)
  simp [Url.sent, refused, bind, Except.bind] at written

end Fetch

def World.Honest (world : World) (location : List Char) : Prop :=
  ∀ {content}, world.cache.bind (·.get? (String.ofList location)) = some content →
    ∃ sent, Url.sent location = .ok sent

def IsSentKey (key : String) : Prop :=
  ∃ url sent, Url.sent url = .ok sent ∧ Digest.ofText (String.ofList url) = key

theorem World.Later.stores {patience : Fetch.Patience} {world later : World}
    (past : Later patience world later) (stores : world.Stores fun key _ => IsSentKey key) :
    later.Stores fun key _ => IsSentKey key := by
  induction past with
  | now => exact stores
  | fetch location before ih =>
    refine ih.fetch location fun _ _ answer => ?_
    obtain ⟨sent, written⟩ := Fetch.sent_of_attempt answer
    exact ⟨_, sent, written, rfl⟩

open Load

theorem length_le_longestLocation {world : World} {path : List Char}
    (member : path ∈ world.files.real.files.keys) : path.length + 1 ≤ longestLocation world := by
  unfold longestLocation
  generalize world.files.real.files.keys = paths at member
  induction paths with
  | nil => simp at member
  | cons first rest ih =>
    rcases List.mem_cons.mp member with rfl | later
    · exact Nat.le_max_left _ _
    · exact Nat.le_trans (ih later) (Nat.le_max_right _ _)

theorem maxSentLength_le_longestLocation (world : World) :
    Url.maxSentLength ≤ longestLocation world := by
  unfold longestLocation
  induction world.files.real.files.keys with
  | nil => exact Nat.le_refl _
  | cons first rest ih => exact Nat.le_trans ih (Nat.le_max_right _ _)

theorem length_of_location {patience : Fetch.Patience} {world later : World}
    {location written : List Char} {fetched : Fetched} (rooted : Path.isAbsolute world.cwd = true)
    (canonical : world.canonical written = .ok location)
    (past : World.Later patience world later) (honest : later.Honest location)
    (answer : (Fetch.location patience location later).1 = .ok fetched) :
    location.length ≤ longestLocation world := by
  obtain ⟨place, files⟩ := past.keeps
  rcases Canonical.location_cases rooted canonical with ⟨web, same⟩ | normal
  · have own : later.canonical location = .ok location := by
      rw [World.canonical, place]
      exact same
    have sent : ∃ sent, Url.sent location = .ok sent := by
      simp only [Fetch.location, own, web, if_true] at answer
      cases cached : later.cache.bind (·.get? (String.ofList location)) with
      | some content => exact honest cached
      | none =>
        have tried := Fetch.web_of_absent patience cached
        cases known : Fetch.attempt patience location patience.retries 0 later with
        | mk result after =>
          cases result with
          | error error => simp [tried, known, Except.map] at answer
          | ok content => exact Fetch.sent_of_attempt (congrArg Prod.fst known)
    obtain ⟨sent, written⟩ := sent
    exact Nat.le_trans (Fetch.length_of_sent written) (maxSentLength_le_longestLocation world)
  · have own : later.canonical location = .ok (Canonical.ofPath world.place location) := by
      rw [World.canonical, place]
      exact Canonical.location_of_isAbsolute normal.isAbsolute
    have file : Location.isUrl (Canonical.ofPath world.place location) = false :=
      (Canonical.not_web_of_isAbsolute (Canonical.isNormal_ofPath rooted location).isAbsolute).1
    have member : Path.real (Canonical.ofPath world.place location) ∈
        world.files.real.files.keys := by
      simp only [Fetch.location, own, file, Bool.false_eq_true, if_false] at answer
      cases content : (Fetch.file (Canonical.ofPath world.place location) later).1 with
      | error error => simp [content, Except.map] at answer
      | ok content =>
        have read := (Fetch.file_eq_ok.mp content).2
        rw [files] at read
        unfold FileTree.readAt FileTree.read at read
        split at read
        next known => exact Entries.mem_keys_of_get? known
        next => split at read <;> (try split at read) <;> simp at read
    calc
      location.length ≤ (Canonical.ofPath world.place location).length :=
        Canonical.length_le_ofPath normal
      _ ≤ (Path.real (Canonical.ofPath world.place location)).length + 1 :=
        Path.length_le_real (Canonical.isNormal_ofPath rooted location)
      _ ≤ longestLocation world := length_le_longestLocation member

/-! ### How many there are -/

def textNumber (text : List Char) : Nat := Nat.ofDigits (2 ^ 21) (text.map (fun c => c.toNat + 1))

theorem digit_of_mem {text : List Char} {digit : Nat}
    (member : digit ∈ text.map (fun c => c.toNat + 1)) : 0 < digit ∧ digit < 2 ^ 21 := by
  obtain ⟨c, -, rfl⟩ := List.mem_map.mp member
  have bound := Text.toNat_lt c
  omega

theorem textNumber_lt (text : List Char) : textNumber text < 2 ^ (21 * text.length) := by
  have digits : ∀ digit ∈ text.map (fun c => c.toNat + 1), digit < 2 ^ 21 :=
    fun digit member => (digit_of_mem member).2
  have below := Nat.ofDigits_lt_base_pow_length (show 1 < 2 ^ 21 by decide) digits
  rwa [List.length_map, ← pow_mul] at below

theorem textNumber_injective : Function.Injective textNumber := by
  have digits : ∀ text : List Char,
      Nat.digits (2 ^ 21) (textNumber text) = text.map (fun c => c.toNat + 1) := by
    intro text
    apply Nat.digits_ofDigits _ (by decide)
    · exact fun digit member => (digit_of_mem member).2
    · exact fun some => (digit_of_mem (List.getLast_mem some)).1.ne'
  intro one two same
  have same := (digits one).symm.trans ((congrArg _ same).trans (digits two))
  refine List.map_injective_iff.mpr ?_ same
  intro c d equal
  exact Char.ext (UInt32.toNat_inj.mp (Nat.succ.inj equal))

theorem length_le_of_nodup {texts : List (List Char)} {longest : Nat} (apart : texts.Nodup)
    (each : ∀ text ∈ texts, text.length ≤ longest) : texts.length ≤ 2 ^ (21 * longest) := by
  have below : (texts.map textNumber).toFinset ⊆ Finset.range (2 ^ (21 * longest)) := by
    intro number member
    obtain ⟨text, known, rfl⟩ := List.mem_map.mp (List.mem_toFinset.mp member)
    have short : 21 * text.length ≤ 21 * longest := Nat.mul_le_mul_left 21 (each text known)
    exact Finset.mem_range.mpr
      ((textNumber_lt text).trans_le (Nat.pow_le_pow_right (by decide) short))
  calc
    texts.length = (texts.map textNumber).length := (List.length_map _).symm
    _ = (texts.map textNumber).toFinset.card :=
      (List.toFinset_card_of_nodup (apart.map textNumber_injective)).symm
    _ ≤ (Finset.range (2 ^ (21 * longest))).card := Finset.card_le_card below
    _ = 2 ^ (21 * longest) := Finset.card_range _

theorem length_lt_sourceBound {world : World} {locations : List (List Char)}
    (apart : locations.Nodup)
    (each : ∀ location ∈ locations, location.length ≤ longestLocation world) :
    locations.length < sourceBound world := by
  have few := length_le_of_nodup apart each
  have less : 2 ^ (21 * longestLocation world) < 2 ^ (21 * (longestLocation world + 1)) :=
    Nat.pow_lt_pow_right (by decide) (by omega)
  rw [sourceBound, Nat.one_shiftLeft]
  exact few.trans_lt less

end ToolGraph

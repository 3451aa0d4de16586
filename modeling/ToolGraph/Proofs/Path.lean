import ToolGraph.Path

/-!
Normal paths: from the root through names, with nothing to resolve. Every path from the root has a
normal form, and one that is normal stays as it is.
-/
namespace ToolGraph

namespace Text
variable {mark : Char}

theorem splitAt_ne_nil (mark : Char) (text : List Char) : splitAt mark text ≠ [] := by
  induction text with
  | nil => simp [splitAt]
  | cons c rest ih =>
    unfold splitAt
    split
    · simp
    · split <;> simp

theorem not_mem_of_mem_splitAt {text piece : List Char} (member : piece ∈ splitAt mark text) :
    mark ∉ piece := by
  induction text generalizing piece with
  | nil =>
    obtain rfl := List.mem_singleton.mp member
    exact List.not_mem_nil
  | cons c rest ih =>
    unfold splitAt at member
    split at member
    · rcases List.mem_cons.mp member with rfl | later
      · exact List.not_mem_nil
      · exact ih later
    next other =>
      split at member
      next none => exact absurd none (splitAt_ne_nil mark rest)
      next first pieces found =>
        rcases List.mem_cons.mp member with rfl | later
        · simp only [List.mem_cons, not_or]
          exact ⟨Ne.symm other, ih (found ▸ List.mem_cons_self)⟩
        · exact ih (found ▸ List.mem_cons_of_mem first later)

theorem splitAt_cons (mark : Char) (rest : List Char) :
    splitAt mark (mark :: rest) = [] :: splitAt mark rest := by
  rw [splitAt, if_pos rfl]

theorem splitAt_append {piece : List Char} (free : mark ∉ piece) (rest : List Char) :
    splitAt mark (piece ++ mark :: rest) = piece :: splitAt mark rest := by
  induction piece with
  | nil => exact splitAt_cons mark rest
  | cons c piece ih =>
    rw [List.mem_cons, not_or] at free
    rw [List.cons_append, splitAt, if_neg (Ne.symm free.1), ih free.2]

theorem splitAt_free {piece : List Char} (free : mark ∉ piece) : splitAt mark piece = [piece] := by
  induction piece with
  | nil => rfl
  | cons c piece ih =>
    rw [List.mem_cons, not_or] at free
    rw [splitAt, if_neg (Ne.symm free.1), ih free.2]

theorem splitAt_append_mark (first rest : List Char) :
    splitAt mark (first ++ mark :: rest) = splitAt mark first ++ splitAt mark rest := by
  induction first with
  | nil => rw [List.nil_append, splitAt_cons]; rfl
  | cons c first ih =>
    rw [List.cons_append]
    by_cases same : c = mark
    · rw [same, splitAt_cons, splitAt_cons, ih, List.cons_append]
    · rw [splitAt, splitAt, if_neg same, if_neg same, ih]
      cases found : splitAt mark first with
      | nil => exact absurd found (splitAt_ne_nil mark first)
      | cons piece pieces => rfl

theorem splitAt_joinWith {pieces : List (List Char)} (some : pieces ≠ [])
    (free : ∀ piece ∈ pieces, mark ∉ piece) : splitAt mark (joinWith [mark] pieces) = pieces := by
  induction pieces with
  | nil => exact absurd rfl some
  | cons piece rest ih =>
    obtain ⟨first, others⟩ := List.forall_mem_cons.mp free
    cases rest with
    | nil => exact splitAt_free first
    | cons next rest =>
      rw [joinWith, List.append_assoc, List.singleton_append, splitAt_append first,
        ih (by simp) others]
      simp

theorem joinWith_splitAt (mark : Char) (text : List Char) : joinWith [mark] (splitAt mark text) = text := by
  induction text with
  | nil => rfl
  | cons c rest ih =>
    obtain ⟨first, pieces, split⟩ := List.exists_cons_of_ne_nil (splitAt_ne_nil mark rest)
    rw [split] at ih
    by_cases same : c = mark
    · rw [same, splitAt_cons, split, joinWith, ih]
      · rfl
      · simp
    · rw [Text.splitAt, if_neg same, split, ← ih]
      cases pieces <;> rfl

theorem mem_joinWith {c : Char} {parts : List (List Char)} (member : c ∈ joinWith [mark] parts) :
    c = mark ∨ ∃ part ∈ parts, c ∈ part := by
  induction parts with
  | nil => cases member
  | cons part rest ih =>
    cases rest with
    | nil => exact .inr ⟨part, List.mem_singleton_self part, member⟩
    | cons next rest =>
      rw [joinWith, List.mem_append, List.mem_append, List.mem_singleton] at member
      · rcases member with (own | between) | later
        · exact .inr ⟨part, List.mem_cons_self, own⟩
        · exact .inl between
        · rcases ih later with between | ⟨piece, known, inside⟩
          · exact .inl between
          · exact .inr ⟨piece, List.mem_cons_of_mem _ known, inside⟩
      · simp

theorem splitAt_map {f : Char → Char} (keeps : ∀ c, f c = mark ↔ c = mark) (text : List Char) :
    splitAt mark (text.map f) = (splitAt mark text).map (List.map f) := by
  induction text with
  | nil => rfl
  | cons c rest ih =>
    by_cases same : c = mark
    · rw [List.map_cons, (keeps c).mpr same, same, splitAt_cons, splitAt_cons, ih]
      rfl
    · obtain ⟨first, pieces, split⟩ := List.exists_cons_of_ne_nil (splitAt_ne_nil mark rest)
      rw [List.map_cons, splitAt, if_neg fun mapped => same ((keeps c).mp mapped), splitAt, if_neg same,
        ih, split]
      rfl

theorem cutAt?_append {piece : List Char} (free : mark ∉ piece) (rest : List Char) :
    cutAt? mark (piece ++ mark :: rest) = some (piece, rest) := by
  induction piece with
  | nil => exact if_pos rfl
  | cons c piece ih =>
    rw [List.mem_cons, not_or] at free
    rw [List.cons_append, cutAt?, if_neg (Ne.symm free.1), ih free.2]
    rfl

theorem cutAtLast?_append {piece : List Char} (free : mark ∉ piece) (front : List Char) :
    cutAtLast? mark (front ++ mark :: piece) = some (front, piece) := by
  have flipped : (front ++ mark :: piece).reverse = piece.reverse ++ mark :: front.reverse := by
    simp
  rw [cutAtLast?, flipped, cutAt?_append (by simpa using free)]
  simp

theorem dropEndWhile_append {p : Char → Bool} {piece : List Char} (drops : ∀ c ∈ piece, p c)
    (stays : p mark = false) (front : List Char) :
    dropEndWhile p (front ++ mark :: piece) = front ++ [mark] := by
  have flipped : (front ++ mark :: piece).reverse = piece.reverse ++ mark :: front.reverse := by
    simp
  have rest : (mark :: front.reverse).dropWhile p = mark :: front.reverse :=
    List.dropWhile_cons_of_neg (by simp [stays])
  rw [dropEndWhile, flipped,
    List.dropWhile_append_of_pos (fun c member => drops c (List.mem_reverse.mp member)), rest]
  simp

end Text

namespace Path
open Text

/-- A name that a path keeps. -/
structure IsName (segment : List Char) : Prop where
  some : segment ≠ []
  other : segment ≠ ['.']
  down : segment ≠ ['.', '.']
  whole : '/' ∉ segment

instance (segment : List Char) : Decidable (IsName segment) :=
  decidable_of_iff (segment ≠ [] ∧ segment ≠ ['.'] ∧ segment ≠ ['.', '.'] ∧ '/' ∉ segment)
    ⟨fun ⟨full, other, down, whole⟩ => ⟨full, other, down, whole⟩,
      fun name => ⟨name.some, name.other, name.down, name.whole⟩⟩

def fromRoot (slashes : Nat) (names : List (List Char)) : List Char :=
  List.replicate slashes '/' ++ joinWith ['/'] names

def IsNormal (path : List Char) : Prop :=
  ∃ slashes names, (slashes = 1 ∨ slashes = 2) ∧ (∀ name ∈ names, IsName name) ∧
    path = fromRoot slashes names

theorem IsNormal.isAbsolute {path : List Char} (normal : IsNormal path) :
    isAbsolute path = true := by
  obtain ⟨slashes, names, few, -, rfl⟩ := normal
  rcases few with rfl | rfl <;> rfl

theorem rootSlashes_of_isAbsolute {path : List Char} (absolute : isAbsolute path = true) :
    rootSlashes path = 1 ∨ rootSlashes path = 2 := by
  cases path with
  | nil => simp [isAbsolute] at absolute
  | cons c rest =>
    obtain rfl : '/' = c := by simpa [isAbsolute] using absolute
    unfold rootSlashes
    split
    next none => simp at none
    next => exact .inr rfl
    next => exact .inl rfl

theorem isName_pushSegment {done : List (List Char)} {segment : List Char}
    (names : ∀ name ∈ done, IsName name) (whole : '/' ∉ segment) :
    ∀ name ∈ pushSegment true done segment, IsName name := by
  unfold pushSegment
  split
  next => exact names
  next kept =>
    rw [not_or] at kept
    split
    next other => exact List.forall_mem_cons.mpr ⟨⟨kept.1, kept.2, other, whole⟩, names⟩
    next =>
      split
      next => simp
      next last before =>
        obtain ⟨first, others⟩ := List.forall_mem_cons.mp names
        rwa [if_neg first.down]

theorem isName_foldl {segments done : List (List Char)} (names : ∀ name ∈ done, IsName name)
    (whole : ∀ segment ∈ segments, '/' ∉ segment) :
    ∀ name ∈ segments.foldl (pushSegment true) done, IsName name := by
  induction segments generalizing done with
  | nil => exact names
  | cons segment segments ih =>
    obtain ⟨first, others⟩ := List.forall_mem_cons.mp whole
    exact ih (isName_pushSegment names first) others

theorem isNormal_normalise {path : List Char} (absolute : isAbsolute path = true) :
    IsNormal (normalise path) := by
  have few := rootSlashes_of_isAbsolute absolute
  have rooted : (rootSlashes path != 0) = true := by
    rcases few with one | two
    · rw [one]; rfl
    · rw [two]; rfl
  refine ⟨rootSlashes path, ((splitAt '/' path).foldl (pushSegment true) []).reverse, few, ?_, ?_⟩
  · intro name member
    exact isName_foldl (by simp) (fun _ => not_mem_of_mem_splitAt) name (List.mem_reverse.mp member)
  · simp only [normalise, rooted, fromRoot]
    split
    next none => rcases few with few | few <;> simp [few] at none
    next found => exact found.symm

theorem foldl_names {names done : List (List Char)} (each : ∀ name ∈ names, IsName name) :
    names.foldl (pushSegment true) done = names.reverse ++ done := by
  induction names generalizing done with
  | nil => rfl
  | cons name names ih =>
    obtain ⟨first, others⟩ := List.forall_mem_cons.mp each
    have pushed : pushSegment true done name = name :: done := by
      unfold pushSegment
      rw [if_neg (by simp [first.some, first.other]), if_pos first.down]
    rw [List.foldl_cons, pushed, ih others]
    simp

theorem head?_joinWith {names : List (List Char)} {rest : List Char}
    (each : ∀ name ∈ names, IsName name) (relative : names = [] → isAbsolute rest = false) :
    (joinWith ['/'] names ++ rest).head? ≠ some '/' := by
  cases names with
  | nil =>
    have relative := relative rfl
    cases rest with
    | nil => simp [joinWith]
    | cons c rest =>
      have other : c ≠ '/' := by
        rintro rfl
        simp [isAbsolute] at relative
      simp [joinWith, other]
  | cons name others =>
    have first := each name List.mem_cons_self
    cases name with
    | nil => exact absurd rfl first.some
    | cons c name =>
      have other : c ≠ '/' := fun same => first.whole (same ▸ List.mem_cons_self)
      cases others with
      | nil => simp [joinWith, other]
      | cons next others => simp [joinWith, other]

theorem rootSlashes_append {slashes : Nat} {names : List (List Char)} {rest : List Char}
    (few : slashes = 1 ∨ slashes = 2) (each : ∀ name ∈ names, IsName name)
    (relative : names = [] → isAbsolute rest = false) :
    rootSlashes (fromRoot slashes names ++ rest) = slashes := by
  have stop : (joinWith ['/'] names ++ rest).takeWhile (· == '/') = [] := by
    have other := head?_joinWith each relative
    cases known : joinWith ['/'] names ++ rest with
    | nil => rfl
    | cons c rest =>
      have apart : (c == '/') = false := by simpa [known] using other
      rw [List.takeWhile_cons, apart, if_neg Bool.false_ne_true]
  unfold rootSlashes fromRoot
  rcases few with rfl | rfl
  · simp [List.replicate, stop]
  · simp [List.replicate, stop]

theorem rootSlashes_fromRoot {slashes : Nat} {names : List (List Char)}
    (few : slashes = 1 ∨ slashes = 2) (each : ∀ name ∈ names, IsName name) :
    rootSlashes (fromRoot slashes names) = slashes := by
  simpa using @rootSlashes_append slashes names [] few each (fun _ => rfl)

theorem foldl_fromRoot {slashes : Nat} {names : List (List Char)}
    (few : slashes = 1 ∨ slashes = 2) (each : ∀ name ∈ names, IsName name) :
    (splitAt '/' (fromRoot slashes names)).foldl (pushSegment true) [] = names.reverse := by
  have pushed : (splitAt '/' (joinWith ['/'] names)).foldl (pushSegment true) [] = names.reverse := by
    cases names with
    | nil => simp [joinWith, splitAt, pushSegment]
    | cons name rest =>
      rw [splitAt_joinWith (by simp) fun piece member => (each piece member).whole, foldl_names each,
        List.append_nil]
  have skip : pushSegment true [] [] = [] := if_pos (.inl rfl)
  rcases few with rfl | rfl
  · simp [fromRoot, List.replicate, splitAt_cons, skip, pushed]
  · simp [fromRoot, List.replicate, splitAt_cons, skip, pushed]

theorem fromRoot_injective {slashes : Nat} {names more : List (List Char)}
    (few : slashes = 1 ∨ slashes = 2) (each : ∀ name ∈ names, IsName name)
    (each' : ∀ name ∈ more, IsName name) (same : fromRoot slashes names = fromRoot slashes more) :
    names = more := by
  have segments := foldl_fromRoot few each
  rw [same, foldl_fromRoot few each'] at segments
  exact List.reverse_inj.mp segments.symm

theorem normalise_of_isNormal {path : List Char} (normal : IsNormal path) :
    normalise path = path := by
  obtain ⟨slashes, names, few, each, rfl⟩ := normal
  have rooted : (slashes != 0) = true := by rcases few with rfl | rfl <;> rfl
  unfold normalise
  simp only [rootSlashes_fromRoot few each, rooted, foldl_fromRoot few each, List.reverse_reverse]
  split
  next none => rcases few with rfl | rfl <;> simp at none
  next found => rw [fromRoot, found]

theorem real_fromRoot {slashes : Nat} {names : List (List Char)}
    (few : slashes = 1 ∨ slashes = 2) (each : ∀ name ∈ names, IsName name) :
    real (fromRoot slashes names) = fromRoot 1 names := by
  have stop : (joinWith ['/'] names).dropWhile (· == '/') = joinWith ['/'] names := by
    have other := @head?_joinWith names [] each fun _ => rfl
    rw [List.append_nil] at other
    cases known : joinWith ['/'] names with
    | nil => rfl
    | cons c rest =>
      have apart : (c == '/') = false := by simpa [known] using other
      rw [List.dropWhile_cons, apart, if_neg Bool.false_ne_true]
  have absolute : isAbsolute (fromRoot slashes names) = true :=
    IsNormal.isAbsolute ⟨slashes, names, few, each, rfl⟩
  rw [real, if_pos absolute]
  rcases few with rfl | rfl <;> simp [fromRoot, List.replicate, stop]

theorem isNormal_real {path : List Char} (normal : IsNormal path) : IsNormal (real path) := by
  obtain ⟨slashes, names, few, each, rfl⟩ := normal
  exact ⟨1, names, .inl rfl, each, real_fromRoot few each⟩

theorem length_le_real {path : List Char} (normal : IsNormal path) :
    path.length ≤ (real path).length + 1 := by
  obtain ⟨slashes, names, few, each, rfl⟩ := normal
  rw [real_fromRoot few each]
  simp only [fromRoot, List.length_append, List.length_replicate]
  omega

theorem isNormal_absolute {cwd : List Char} (rooted : isAbsolute cwd = true) (path : List Char) :
    IsNormal (absolute cwd path) := by
  apply isNormal_normalise
  split
  next absolute => exact absolute
  next relative =>
    unfold join
    rw [if_neg relative]
    cases cwd with
    | nil => simp [isAbsolute] at rooted
    | cons c rest => split <;> exact rooted

theorem joinWith_append {names more : List (List Char)} (some : names ≠ []) (some' : more ≠ []) :
    joinWith ['/'] (names ++ more) = joinWith ['/'] names ++ '/' :: joinWith ['/'] more := by
  induction names with
  | nil => exact absurd rfl some
  | cons first rest ih =>
    cases rest with
    | nil =>
      cases more with
      | nil => exact absurd rfl some'
      | cons next more => simp [joinWith]
    | cons next rest =>
      have later := ih (by simp)
      simp only [List.cons_append] at later
      simp only [List.cons_append, joinWith, later, List.append_assoc]

theorem joinWith_concat {names : List (List Char)} (some : names ≠ []) (name : List Char) :
    joinWith ['/'] (names ++ [name]) = joinWith ['/'] names ++ '/' :: name :=
  joinWith_append some (by simp)

theorem nil_of_getLast?_fromRoot {slashes : Nat} {names : List (List Char)}
    (each : ∀ name ∈ names, IsName name)
    (last : (fromRoot slashes names).getLast? = some '/') : names = [] := by
  rcases List.eq_nil_or_concat names with none | ⟨before, name, rfl⟩
  · exact none
  · have own := each name (by simp)
    have ends : ∃ start, fromRoot slashes (before ++ [name]) = start ++ name := by
      by_cases first : before = []
      · exact ⟨List.replicate slashes '/', by simp [fromRoot, first, joinWith]⟩
      · exact ⟨List.replicate slashes '/' ++ joinWith ['/'] before ++ ['/'],
          by simp [fromRoot, joinWith_concat first]⟩
    obtain ⟨start, ends⟩ := ends
    rw [List.concat_eq_append, ends, List.getLast?_append, List.getLast?_eq_some_getLast own.some,
      Option.some_or, ← List.getLast?_eq_some_getLast own.some] at last
    exact absurd (List.mem_of_getLast? last) own.whole

theorem isAbsolute_of_isName {name : List Char} (named : IsName name) :
    isAbsolute name = false := by
  cases name with
  | nil => exact absurd rfl named.some
  | cons c rest =>
    have other : '/' ≠ c := fun same => named.whole (same ▸ List.mem_cons_self)
    simp [isAbsolute, List.isPrefixOf, other]

section fromRoot
variable {slashes : Nat} {names : List (List Char)} {name : List Char}

theorem join_relative (few : slashes = 1 ∨ slashes = 2) (each : ∀ name ∈ names, IsName name)
    {path : List Char} (relative : isAbsolute path = false) :
    join (fromRoot slashes names) path =
      fromRoot slashes names ++ if names = [] then path else '/' :: path := by
  have some : (fromRoot slashes names).isEmpty = false := by
    rcases few with rfl | rfl <;> rfl
  unfold join
  rw [relative, some]
  simp only [Bool.false_eq_true, if_false, Bool.false_or, beq_iff_eq]
  split
  next last => rw [if_pos (nil_of_getLast?_fromRoot each last)]
  next last =>
    have others : names ≠ [] := by
      rintro rfl
      rcases few with rfl | rfl <;> simp [fromRoot, joinWith, List.replicate] at last
    rw [if_neg others]

theorem join_fromRoot (few : slashes = 1 ∨ slashes = 2) (each : ∀ name ∈ names, IsName name)
    (named : IsName name) :
    join (fromRoot slashes names) name = fromRoot slashes (names ++ [name]) := by
  rw [join_relative few each (isAbsolute_of_isName named)]
  split
  next none => simp [none, fromRoot, joinWith]
  next others => simp [fromRoot, joinWith_concat others]

theorem fromRoot_concat (few : slashes = 1 ∨ slashes = 2) (names : List (List Char))
    (name : List Char) :
    ∃ front, fromRoot slashes (names ++ [name]) = front ++ '/' :: name ∧
      (names ≠ [] → front = fromRoot slashes names) ∧
      (names = [] → front ++ ['/'] = fromRoot slashes names) := by
  by_cases others : names = []
  · subst others
    rcases few with rfl | rfl
    · exact ⟨[], rfl, fun other => absurd rfl other, fun _ => rfl⟩
    · exact ⟨['/'], rfl, fun other => absurd rfl other, fun _ => rfl⟩
  · exact ⟨fromRoot slashes names, by simp [fromRoot, joinWith_concat others], fun _ => rfl,
      fun none => absurd none others⟩

theorem tidy_of_isNormal {path : List Char} (normal : IsNormal path) : tidy path = path := by
  obtain ⟨slashes, names, few, each, rfl⟩ := normal
  let keep (segment : List Char) : Bool := !segment.isEmpty && segment != ['.']
  have kept : (splitAt '/' (joinWith ['/'] names)).filter keep = names := by
    cases names with
    | nil => rfl
    | cons name rest =>
      rw [splitAt_joinWith (by simp) fun piece member => (each piece member).whole]
      refine List.filter_eq_self.mpr fun piece member => ?_
      simp [keep, (each piece member).some, (each piece member).other]
  have segments : (splitAt '/' (fromRoot slashes names)).filter keep = names := by
    rcases few with rfl | rfl
    · simpa [fromRoot, List.replicate, splitAt_cons, keep] using kept
    · simpa [fromRoot, List.replicate, splitAt_cons, keep] using kept
  unfold tidy
  simp only [rootSlashes_fromRoot few each]
  rw [show (splitAt '/' (fromRoot slashes names)).filter
    (fun segment => !segment.isEmpty && segment != ['.']) = names from segments]
  split
  next none => rcases few with rfl | rfl <;> simp at none
  next found => rw [fromRoot, found]

theorem name_fromRoot (few : slashes = 1 ∨ slashes = 2) (each : ∀ name ∈ names, IsName name)
    (named : IsName name) : Path.name (fromRoot slashes (names ++ [name])) = name := by
  have normal : IsNormal (fromRoot slashes (names ++ [name])) :=
    ⟨slashes, names ++ [name], few, List.forall_mem_append.mpr ⟨each, by simpa using named⟩, rfl⟩
  obtain ⟨front, same, -, -⟩ := fromRoot_concat few names name
  have tidied : tidy (front ++ '/' :: name) = front ++ '/' :: name := by
    rw [← same]
    exact tidy_of_isNormal normal
  unfold Path.name
  simp only [same, tidied, cutAtLast?_append named.whole front]

theorem parent_fromRoot (few : slashes = 1 ∨ slashes = 2) (each : ∀ name ∈ names, IsName name)
    (named : IsName name) :
    parent (fromRoot slashes (names ++ [name])) = fromRoot slashes names := by
  obtain ⟨front, same, other, none⟩ := fromRoot_concat few names name
  have head : dropEndWhile (· != '/') (front ++ '/' :: name) = front ++ ['/'] := by
    refine dropEndWhile_append (fun c member => ?_) rfl front
    exact bne_iff_ne.mpr fun slash => named.whole (slash ▸ member)
  unfold parent
  simp only [same, head]
  by_cases empty : names = []
  · rw [none empty, empty, if_pos (by rcases few with rfl | rfl <;> rfl)]
  · obtain ⟨start, c, ends⟩ : ∃ start c, fromRoot slashes names = start ++ [c] := by
      rcases List.eq_nil_or_concat (fromRoot slashes names) with none | ⟨start, c, ends⟩
      · rcases few with rfl | rfl <;> simp [fromRoot, List.replicate] at none
      · exact ⟨start, c, by rw [ends, List.concat_eq_append]⟩
    have stays : c ≠ '/' := by
      rintro rfl
      have last : (fromRoot slashes names).getLast? = some '/' := by simp [ends]
      exact empty (nil_of_getLast?_fromRoot each last)
    have some : ¬ (start ++ c :: ['/']).all (· == '/') := by
      intro slashes
      exact stays (beq_iff_eq.mp (List.all_eq_true.mp slashes c (by simp)))
    have drop : dropEndWhile (· == '/') (start ++ c :: ['/']) = start ++ [c] :=
      dropEndWhile_append (by simp) (by simpa using stays) start
    rw [other empty, ends, List.append_assoc, List.singleton_append, if_neg some, drop]

end fromRoot

theorem isNormal_join {path name : List Char} (normal : IsNormal path) (named : IsName name) :
    IsNormal (join path name) ∧ path.length ≤ (join path name).length := by
  obtain ⟨slashes, names, few, each, rfl⟩ := normal
  rw [join_fromRoot few each named]
  refine ⟨⟨slashes, names ++ [name], few, ?_, rfl⟩, ?_⟩
  · exact List.forall_mem_append.mpr ⟨each, by simpa using named⟩
  · by_cases none : names = []
    · simp [none, fromRoot, joinWith]
    · simp [fromRoot, joinWith_concat none]

end Path
end ToolGraph

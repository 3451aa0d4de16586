import ToolGraph.Proofs.Found

/-!
Paths below a directory. A relative path that never leads above the names that it starts from means
the same names below every directory, and the same files where two directories hold the same.
-/
namespace ToolGraph

namespace Path
open Text
variable {slashes : Nat} {base names more : List (List Char)} {dir path : List Char}

/-- Names that a path keeps. -/
abbrev AreNames (names : List (List Char)) : Prop := ∀ name ∈ names, IsName name

/-- The path of names below a directory. -/
def under (dir : List Char) (names : List (List Char)) : List Char := names.foldl join dir

theorem under_append (dir : List Char) (names more : List (List Char)) :
    under dir (names ++ more) = under (under dir names) more :=
  List.foldl_append

theorem under_concat (dir : List Char) (names : List (List Char)) (name : List Char) :
    under dir (names ++ [name]) = join (under dir names) name :=
  under_append dir names [name]

theorem under_fromRoot (few : slashes = 1 ∨ slashes = 2) (own : AreNames base)
    (each : AreNames names) :
    under (fromRoot slashes base) names = fromRoot slashes (base ++ names) := by
  induction names generalizing base with
  | nil => rw [List.append_nil]; rfl
  | cons name names ih =>
    obtain ⟨first, others⟩ := List.forall_mem_cons.mp each
    have longer : AreNames (base ++ [name]) := List.forall_mem_append.mpr ⟨own, by simpa using first⟩
    rw [under, List.foldl_cons, join_fromRoot few own first]
    exact (ih longer others).trans (by rw [List.append_assoc, List.singleton_append])

theorem isNormal_under (normal : IsNormal dir) (each : AreNames names) : IsNormal (under dir names) := by
  obtain ⟨slashes, base, few, own, rfl⟩ := normal
  rw [under_fromRoot few own each]
  exact ⟨slashes, base ++ names, few, List.forall_mem_append.mpr ⟨own, each⟩, rfl⟩

theorem real_under (normal : IsNormal dir) (each : AreNames names) :
    real (under dir names) = under (real dir) names := by
  obtain ⟨slashes, base, few, own, rfl⟩ := normal
  rw [under_fromRoot few own each, real_fromRoot few (List.forall_mem_append.mpr ⟨own, each⟩),
    real_fromRoot few own, under_fromRoot (.inl rfl) own each]

theorem under_injective (normal : IsNormal dir) (each : AreNames names) (each' : AreNames more)
    (same : under dir names = under dir more) : names = more := by
  obtain ⟨slashes, base, few, own, rfl⟩ := normal
  rw [under_fromRoot few own each, under_fromRoot few own each'] at same
  have all : AreNames (base ++ names) := List.forall_mem_append.mpr ⟨own, each⟩
  have all' : AreNames (base ++ more) := List.forall_mem_append.mpr ⟨own, each'⟩
  exact List.append_cancel_left (fromRoot_injective few all all' same)

theorem parent_under (normal : IsNormal dir) (each : AreNames names) {name : List Char}
    (named : IsName name) : parent (under dir (names ++ [name])) = under dir names := by
  obtain ⟨slashes, base, few, own, rfl⟩ := normal
  have longer : AreNames (names ++ [name]) := List.forall_mem_append.mpr ⟨each, by simpa using named⟩
  rw [under_fromRoot few own longer, under_fromRoot few own each, ← List.append_assoc]
  exact parent_fromRoot few (List.forall_mem_append.mpr ⟨own, each⟩) named

theorem isAbsolute_join (rooted : isAbsolute dir = true) (path : List Char) :
    isAbsolute (join dir path) = true := by
  cases dir with
  | nil => cases rooted
  | cons c rest =>
    unfold join
    split
    next absolute => exact absolute
    next => split <;> exact rooted

theorem mem_join {c : Char} (member : c ∈ join dir path) : c ∈ dir ∨ c = '/' ∨ c ∈ path := by
  unfold join at member
  split at member
  next => exact .inr (.inr member)
  next =>
    split at member
    next => exact (List.mem_append.mp member).imp_right .inr
    next => exact (List.mem_append.mp member).imp_right List.mem_cons.mp

/-- What is seen from a directory has the directory, with a slash at its end, in front. -/
theorem join_eq_append (normal : IsNormal dir) (relative : isAbsolute path = false) :
    join dir path = join dir [] ++ path := by
  obtain ⟨slashes, base, few, own, rfl⟩ := normal
  rw [join_relative few own relative, join_relative few own rfl]
  split <;> simp

theorem under_eq_append (normal : IsNormal dir) (each : AreNames names) (some : names ≠ []) :
    under dir names = join dir [] ++ joinWith ['/'] names := by
  obtain ⟨slashes, base, few, own, rfl⟩ := normal
  rw [under_fromRoot few own each, join_relative few own rfl]
  split
  next none => simp [none, fromRoot, joinWith]
  next others => simp [fromRoot, joinWith_append others some]

/-! ### Relative paths -/

theorem foldl_join (few : slashes = 1 ∨ slashes = 2) (each : AreNames names)
    (relative : isAbsolute path = false) :
    (splitAt '/' (join (fromRoot slashes names) path)).foldl (pushSegment true) [] =
      (splitAt '/' path).foldl (pushSegment true) names.reverse := by
  rw [join_relative few each relative]
  split
  next none =>
    have skip : pushSegment true [] [] = [] := if_pos (.inl rfl)
    rcases few with rfl | rfl
    · simp [none, fromRoot, joinWith, List.replicate, splitAt_cons, skip]
    · simp [none, fromRoot, joinWith, List.replicate, splitAt_cons, skip]
  next => rw [splitAt_append_mark, List.foldl_append, foldl_fromRoot few each]

/-- The names that segments lead to from others, which are reversed; none where they lead above all
names on the way. -/
def within? (done : List (List Char)) : List (List Char) → Option (List (List Char))
  | [] => some done.reverse
  | segment :: segments =>
    if segment = [] ∨ segment = ['.'] then within? done segments
    else if segment ≠ ['.', '.'] then within? (segment :: done) segments
    else
      match done with
      | [] => none
      | _ :: before => within? before segments

def descend? (names : List (List Char)) (path : List Char) : Option (List (List Char)) :=
  within? names.reverse (splitAt '/' path)

theorem foldl_of_within {segments done : List (List Char)} {target : List (List Char)}
    (each : AreNames done) (whole : ∀ segment ∈ segments, '/' ∉ segment)
    (inside : within? done segments = some target) (above : List (List Char)) :
    AreNames target ∧
      segments.foldl (pushSegment true) (done ++ above) = target.reverse ++ above := by
  induction segments generalizing done with
  | nil =>
    obtain rfl := Option.some.inj inside
    refine ⟨fun name member => each name (List.mem_reverse.mp member), ?_⟩
    rw [List.foldl_nil, List.reverse_reverse]
  | cons segment segments ih =>
    obtain ⟨first, others⟩ := List.forall_mem_cons.mp whole
    rw [List.foldl_cons]
    unfold within? at inside
    unfold pushSegment
    split at inside
    next skipped =>
      rw [if_pos skipped]
      exact ih each others inside
    next kept =>
      rw [if_neg kept]
      split at inside
      next other =>
        rw [if_pos other]
        rw [not_or] at kept
        exact ih (List.forall_mem_cons.mpr ⟨⟨kept.1, kept.2, other, first⟩, each⟩) others inside
      next up =>
        rw [if_neg up]
        cases done with
        | nil => simp at inside
        | cons last before =>
          obtain ⟨named, each⟩ := List.forall_mem_cons.mp each
          simp only [List.cons_append, if_neg named.down]
          exact ih each others inside

theorem areNames_of_descend {target : List (List Char)} (each : AreNames names)
    (inside : descend? names path = some target) : AreNames target :=
  (foldl_of_within (fun name member => each name (List.mem_reverse.mp member))
    (fun _ => not_mem_of_mem_splitAt) inside []).1

theorem normalise_under (normal : IsNormal dir) (each : AreNames names)
    (relative : isAbsolute path = false) {target : List (List Char)}
    (inside : descend? names path = some target) :
    normalise (join (under dir names) path) = under dir target := by
  obtain ⟨slashes, base, few, own, rfl⟩ := normal
  obtain ⟨named, folded⟩ := foldl_of_within
    (fun name member => each name (List.mem_reverse.mp member)) (fun _ => not_mem_of_mem_splitAt)
    inside base.reverse
  have all : AreNames (base ++ names) := List.forall_mem_append.mpr ⟨own, each⟩
  rw [under_fromRoot few own each, under_fromRoot few own named]
  have rooted : (slashes != 0) = true := by rcases few with rfl | rfl <;> rfl
  have start : rootSlashes (join (fromRoot slashes (base ++ names)) path) = slashes := by
    rw [join_relative few all relative]
    refine rootSlashes_append few all fun none => ?_
    rwa [if_pos none]
  have segments : (splitAt '/' (join (fromRoot slashes (base ++ names)) path)).foldl
      (pushSegment true) [] = (base ++ target).reverse := by
    rw [foldl_join few all relative, List.reverse_append, folded, List.reverse_append]
  unfold normalise
  simp only [start, rooted, segments, List.reverse_reverse]
  split
  next none => rcases few with rfl | rfl <;> simp at none
  next found => rw [fromRoot, found]

/-! ### Another directory in the place of one -/

/-- A text that starts with a directory and a slash, with another directory in its place. -/
def rebase (dir dir' : List Char) (text : String) : String :=
  if (join dir []).isPrefixOf text.toList then
    String.ofList (join dir' [] ++ text.toList.drop (join dir []).length)
  else text

/-- As `rebase`, where the text may be the directory itself. -/
def rebaseDirectory (dir dir' : List Char) (text : String) : String :=
  if text = String.ofList dir then String.ofList dir' else rebase dir dir' text

theorem rebase_append (dir dir' rest : List Char) :
    rebase dir dir' (String.ofList (join dir [] ++ rest)) = String.ofList (join dir' [] ++ rest) := by
  rw [rebase, String.toList_ofList, if_pos (List.isPrefixOf_iff_prefix.mpr (List.prefix_append _ _)),
    List.drop_left]

theorem rebase_join {dir' : List Char} (normal : IsNormal dir) (normal' : IsNormal dir')
    (relative : isAbsolute path = false) :
    rebase dir dir' (String.ofList (join dir path)) = String.ofList (join dir' path) := by
  rw [join_eq_append normal relative, join_eq_append normal' relative, rebase_append]

theorem rebase_under {dir' : List Char} (normal : IsNormal dir) (normal' : IsNormal dir')
    (each : AreNames names) (some : names ≠ []) (rest : String) :
    rebase dir dir' (String.ofList (under dir names) ++ rest) =
      String.ofList (under dir' names) ++ rest := by
  have split : ∀ path, String.ofList (join path [] ++ joinWith ['/'] names) ++ rest =
      String.ofList (join path [] ++ (joinWith ['/'] names ++ rest.toList)) := by
    intro path
    simp [String.ofList_append, String.append_assoc]
  rw [under_eq_append normal each some, under_eq_append normal' each some, split, split,
    rebase_append]

theorem rebase_of_relative (normal : IsNormal dir) (dir' : List Char) {text : String}
    (relative : isAbsolute text.toList = false) : rebase dir dir' text = text := by
  refine if_neg fun starts => ?_
  obtain ⟨rest, same⟩ := List.isPrefixOf_iff_prefix.mp starts
  obtain ⟨slashes, base, few, own, rfl⟩ := normal
  rw [← same, join_relative few own rfl] at relative
  rcases few with rfl | rfl <;> cases relative

theorem rebaseDirectory_under {dir' : List Char} (normal : IsNormal dir) (normal' : IsNormal dir')
    (each : AreNames names) :
    rebaseDirectory dir dir' (String.ofList (under dir names)) = String.ofList (under dir' names) := by
  by_cases none : names = []
  · rw [none]
    exact if_pos rfl
  · have apart : String.ofList (under dir names) ≠ String.ofList dir := by
      intro same
      exact none (under_injective normal each (List.forall_mem_nil _) (String.ofList_injective same))
    have moved := rebase_under normal normal' each none ""
    rw [String.append_empty, String.append_empty] at moved
    rw [rebaseDirectory, if_neg apart, moved]

theorem rebaseDirectory_empty (normal : IsNormal dir) (dir' : List Char) :
    rebaseDirectory dir dir' "" = "" := by
  have apart : "" ≠ String.ofList dir := by
    intro same
    have empty : [] = dir := String.ofList_injective same
    have absolute := normal.isAbsolute
    rw [← empty] at absolute
    cases absolute
  rw [rebaseDirectory, if_neg apart, rebase_of_relative normal dir' rfl]

end Path

namespace FileTree
open ToolGraph.Path
variable {tree tree' : FileTree} {slashes : Nat} {dir dir' : List Char}
  {base names more : List (List Char)} {files : List (List Char) → Option Bytes}

theorem length_le_joinWith (each : AreNames names) :
    names.length ≤ (Text.joinWith ['/'] names).length := by
  induction names with
  | nil => exact Nat.le_refl 0
  | cons name names ih =>
    obtain ⟨first, others⟩ := List.forall_mem_cons.mp each
    have some : 0 < name.length := List.length_pos_of_ne_nil first.some
    cases names with
    | nil => simpa [Text.joinWith] using Nat.succ_le_of_lt some
    | cons next names =>
      have rest := ih others
      simp only [Text.joinWith, List.length_append, List.length_cons, List.length_nil] at rest ⊢
      omega

theorem fromRoot_mem_above (few : slashes = 1 ∨ slashes = 2) (own : AreNames base)
    (each : AreNames more) (some : more ≠ []) {bound : Nat} (enough : more.length ≤ bound) :
    fromRoot slashes base ∈ above bound (fromRoot slashes (base ++ more)) := by
  induction bound generalizing more with
  | zero => exact absurd (List.length_eq_zero_iff.mp (Nat.le_zero.mp enough)) some
  | succ bound ih =>
    rcases List.eq_nil_or_concat more with none | ⟨before, name, rfl⟩
    · exact absurd none some
    · rw [List.concat_eq_append] at each enough ⊢
      obtain ⟨others, last⟩ := List.forall_mem_append.mp each
      have named : IsName name := last name (List.mem_singleton_self name)
      have inner : AreNames (base ++ before) := List.forall_mem_append.mpr ⟨own, others⟩
      have up : parent (fromRoot slashes (base ++ (before ++ [name]))) =
          fromRoot slashes (base ++ before) := by
        rw [← List.append_assoc]
        exact parent_fromRoot few inner named
      have apart : fromRoot slashes (base ++ before) ≠
          fromRoot slashes (base ++ (before ++ [name])) := by
        intro same
        have whole : AreNames (base ++ (before ++ [name])) := List.forall_mem_append.mpr ⟨own, each⟩
        have lengths := congrArg List.length (fromRoot_injective few inner whole same)
        simp at lengths
      rw [above, up, if_neg apart]
      cases before with
      | nil => rw [List.append_nil]; exact List.mem_cons_self
      | cons next before =>
        refine List.mem_cons_of_mem _ (ih others (List.cons_ne_nil _ _) ?_)
        simpa using enough

theorem isDirectory_of_file (normal : IsNormal dir) (each : AreNames names) (each' : AreNames more)
    (some : more ≠ []) (found : (tree.files.get? (under dir (names ++ more))).isSome) :
    tree.isDirectory (under dir names) = true := by
  obtain ⟨content, found⟩ := Option.isSome_iff_exists.mp found
  have member : under dir (names ++ more) ∈ tree.directories ++ tree.files.keys :=
    List.mem_append_right _ (Entries.mem_keys_of_get? found)
  have above : under dir names ∈ ancestors (under dir (names ++ more)) := by
    obtain ⟨slashes, base, few, own, rfl⟩ := normal
    have whole : AreNames (names ++ more) := List.forall_mem_append.mpr ⟨each, each'⟩
    have inner : AreNames (base ++ names) := List.forall_mem_append.mpr ⟨own, each⟩
    rw [under_fromRoot few own whole, under_fromRoot few own each, ← List.append_assoc]
    refine fromRoot_mem_above few inner each' some ?_
    have deep := length_le_joinWith (List.forall_mem_append.mpr ⟨inner, each'⟩)
    simp only [fromRoot, List.length_append] at deep ⊢
    omega
  have listed : (tree.directories ++ tree.files.keys).any
      (fun other => (ancestors other).contains (under dir names)) = true :=
    List.any_eq_true.mpr ⟨_, member, by simpa using above⟩
  rw [isDirectory, listed, Bool.or_true]

/-- The files below a directory by their names. None of them is a directory, nor is the directory
a file, and no path of theirs holds a null character. -/
structure HoldsBelow (tree : FileTree) (dir : List Char)
    (files : List (List Char) → Option Bytes) : Prop where
  normal : IsNormal dir
  content : ∀ {names}, AreNames names → tree.real.files.get? (Path.real (under dir names)) = files names
  apart : ∀ {names}, AreNames names → (files names).isSome →
    tree.isDirectoryAt (under dir names) = false
  sound : ∀ {names}, AreNames names → (files names).isSome → '\x00' ∉ under dir names
  directory : files [] = none

theorem HoldsBelow.ne_nil (holds : tree.HoldsBelow dir files) {content : Bytes}
    (held : files names = some content) : names ≠ [] := by
  rintro rfl
  exact absurd (held.symm.trans holds.directory) (by simp)

theorem HoldsBelow.isDirectoryAt (holds : tree.HoldsBelow dir files) (each : AreNames names)
    (each' : AreNames more) (some : more ≠ []) (found : (files (names ++ more)).isSome) :
    tree.isDirectoryAt (under dir names) = true := by
  have whole : AreNames (names ++ more) := List.forall_mem_append.mpr ⟨each, each'⟩
  rw [← holds.content whole, real_under holds.normal whole] at found
  rw [FileTree.isDirectoryAt, real_under holds.normal each]
  exact isDirectory_of_file (isNormal_real holds.normal) each each' some found

/-- A table of files, below a directory. -/
def planted (dir : List Char) (table : Entries (List (List Char)) Bytes) : FileTree :=
  ⟨table.map (fun file => (under dir file.1, file.2)), []⟩

theorem holdsBelow_planted {table : Entries (List (List Char)) Bytes} (normal : IsNormal dir)
    (each : ∀ names ∈ table.keys, AreNames names)
    (apart : ∀ names ∈ table.keys, (planted dir table).isDirectoryAt (under dir names) = false)
    (sound : ∀ names ∈ table.keys, '\x00' ∉ under dir names)
    (directory : [] ∉ table.keys) : (planted dir table).HoldsBelow dir table.get? where
  normal := normal
  content := by
    intro names named
    have known : (planted dir table).real.files =
        table.map (fun file => (Path.real (under dir file.1), file.2)) :=
      List.map_map
    rw [known]
    refine Entries.get?_map_keys (fun names => Path.real (under dir names)) table ?_
    intro other member same
    rw [real_under normal (each other member), real_under normal named] at same
    exact under_injective (isNormal_real normal) (each other member) named same
  apart := by
    intro names named held
    obtain ⟨content, held⟩ := Option.isSome_iff_exists.mp held
    exact apart names (Entries.mem_keys_of_get? held)
  sound := by
    intro names named held
    obtain ⟨content, held⟩ := Option.isSome_iff_exists.mp held
    exact sound names (Entries.mem_keys_of_get? held)
  directory := Entries.get?_eq_none_iff.mpr directory

/-- The names below a directory that stand for others: those of the tool file where they are a
directory. -/
def enter (tree : FileTree) (dir : List Char) (names : List (List Char)) : List (List Char) :=
  if tree.isDirectoryAt (under dir names) then names ++ [Canonical.toolFile] else names

/-- The names of the file that is read for names: a location is made canonical once more when it is
fetched. -/
def settle (tree : FileTree) (dir : List Char) (names : List (List Char)) : List (List Char) :=
  tree.enter dir (tree.enter dir names)

theorem areNames_toolFile : AreNames [Canonical.toolFile] :=
  List.forall_mem_singleton.mpr Canonical.isName_toolFile

theorem exists_enter (tree : FileTree) (dir : List Char) (names : List (List Char)) :
    ∃ more, AreNames more ∧ tree.enter dir names = names ++ more := by
  unfold enter
  split
  · exact ⟨[Canonical.toolFile], areNames_toolFile, rfl⟩
  · exact ⟨[], List.forall_mem_nil _, (List.append_nil names).symm⟩

theorem areNames_enter (each : AreNames names) : AreNames (tree.enter dir names) := by
  obtain ⟨more, added, same⟩ := exists_enter tree dir names
  exact same ▸ List.forall_mem_append.mpr ⟨each, added⟩

theorem areNames_settle (each : AreNames names) : AreNames (tree.settle dir names) :=
  areNames_enter (areNames_enter each)

theorem HoldsBelow.enter_eq (holds : tree'.HoldsBelow dir' files) (each : AreNames names)
    (found : (files (tree.enter dir names)).isSome) :
    tree'.enter dir' names = tree.enter dir names := by
  unfold enter at found ⊢
  split at found
  next inner =>
    have inner' := holds.isDirectoryAt each areNames_toolFile (by simp) found
    rw [if_pos inner', if_pos inner]
  next outer =>
    rw [if_neg (Bool.not_eq_true _ ▸ holds.apart each found), if_neg outer]

theorem HoldsBelow.settle_eq (holds : tree'.HoldsBelow dir' files) (each : AreNames names)
    (found : (files (tree.settle dir names)).isSome) :
    tree'.enter dir' names = tree.enter dir names ∧
      tree'.settle dir' names = tree.settle dir names := by
  suffices first : tree'.enter dir' names = tree.enter dir names by
    refine ⟨first, ?_⟩
    rw [settle, first]
    exact holds.enter_eq (areNames_enter each) found
  unfold settle at found
  by_cases inner : tree.isDirectoryAt (under dir names) = true
  · have first : tree.enter dir names = names ++ [Canonical.toolFile] := if_pos inner
    obtain ⟨more, added, second⟩ := exists_enter tree dir (tree.enter dir names)
    rw [second, first, List.append_assoc] at found
    have deeper : AreNames ([Canonical.toolFile] ++ more) :=
      List.forall_mem_append.mpr ⟨areNames_toolFile, added⟩
    have inner' := holds.isDirectoryAt each deeper (by simp) found
    rw [first, enter, if_pos inner']
  · have first : tree.enter dir names = names := if_neg inner
    rw [first] at found
    exact holds.enter_eq each found

end FileTree
end ToolGraph

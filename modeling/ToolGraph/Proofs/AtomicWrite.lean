import ToolGraph.AtomicWrite
import ToolGraph.Proofs.Entries
import ToolGraph.Proofs.Path

/-!
An atomic write either gives the file its content or leaves it alone. On the way only the temporary
file changes, which is never the file itself. It is gone at the end, unless it cannot be removed, or
cannot be closed behind a failure.
-/
namespace ToolGraph

namespace FileTree

theorem files_makeDirectories {tree made : FileTree} {path : List Char}
    (result : tree.makeDirectories path = .ok made) : made.files = tree.files := by
  unfold makeDirectories at result
  split at result
  · cases result
  · split at result
    · cases result
    · split at result <;> (cases result; rfl)

@[simp] theorem get?_write (tree : FileTree) (path other : List Char) (content : Bytes) :
    (tree.write path content).files.get? other =
      if other = path then some content else tree.files.get? other := by
  rw [write, Entries.get?_put]
  simp only [eq_comm]

theorem get?_remove {tree : FileTree} {path other : List Char} (apart : other ≠ path) :
    (tree.remove path).files.get? other = tree.files.get? other :=
  Entries.get?_erase apart

def AgreesBut (path : List Char) (before after : FileTree) : Prop :=
  ∀ other, other ≠ path → after.files.get? other = before.files.get? other

end FileTree

namespace AtomicWrite
open FileTree
variable {hazard : Hazard} {temporary path word : List Char} {content : Bytes}
  {before tree : FileTree}

/-- What a write comes to, the temporary file apart: the files with the new one, or as before. -/
def Settled (temporary path : List Char) (content : Bytes) (before : FileTree) :
    Except WriteFault Unit × FileTree → Prop
  | (.ok (), after) => AgreesBut temporary (before.write path content) after
  | (.error _, after) => AgreesBut temporary before after

theorem Settled.of_ok {ending : Except WriteFault Unit × FileTree}
    (settled : Settled temporary path content before ending) (done : ending.1 = .ok ()) :
    AgreesBut temporary (before.write path content) ending.2 := by
  obtain ⟨outcome, after⟩ := ending
  subst done
  exact settled

theorem Settled.of_not_ok {ending : Except WriteFault Unit × FileTree}
    (settled : Settled temporary path content before ending) (fails : ending.1 ≠ .ok ()) :
    AgreesBut temporary before ending.2 := by
  match ending with
  | (.ok (), _) => exact absurd rfl fails
  | (.error _, _) => exact settled

theorem settled_cleanUp (same : AgreesBut temporary before tree) (handle : Handle)
    (fault : WriteFault) :
    Settled temporary path content before (cleanUp hazard temporary handle fault tree) := by
  unfold cleanUp
  split
  · exact same
  · intro other apart
    split
    · exact same other apart
    · rw [get?_remove apart, same other apart]

theorem settled_replace (same : AgreesBut temporary before tree) :
    Settled temporary path content before (replace hazard temporary path content tree) := by
  unfold replace
  split
  · exact settled_cleanUp same ..
  · split
    · exact settled_cleanUp same ..
    · intro other apart
      rw [get?_write, get?_write, get?_remove apart, same other apart]

theorem agreesBut_write (same : AgreesBut temporary before tree) (filling : Bytes) :
    AgreesBut temporary before (tree.write temporary filling) := by
  intro other apart
  rw [get?_write, if_neg apart, same other apart]

theorem settled_fill (same : AgreesBut temporary before tree) :
    Settled temporary path content before (fill hazard temporary path content tree) := by
  have filled := agreesBut_write same content
  unfold fill
  split
  · exact settled_cleanUp same ..
  · split
    · exact settled_cleanUp same ..
    · dsimp only
      split
      · exact settled_cleanUp filled ..
      · split
        · exact settled_cleanUp filled ..
        · exact settled_replace filled

theorem settled_run (hazard : Hazard) (temporary path : List Char) (content : Bytes)
    (tree : FileTree) :
    Settled temporary path content tree (run hazard temporary path content tree) := by
  unfold run
  split
  · exact fun _ _ => rfl
  · split
    · exact fun _ _ => rfl
    next made result =>
      have same : AgreesBut temporary tree made := by
        intro other _
        rw [files_makeDirectories result]
      split
      · exact same
      · exact settled_fill (agreesBut_write same [])

theorem isName_temporary {name : List Char} (plain : '/' ∉ name) (whole : '/' ∉ word) :
    Path.IsName ('.' :: name ++ '.' :: word ++ ".tmp".toList) where
  some := by simp
  other same := by simpa using congrArg List.length same
  down same := by
    have long := congrArg List.length same
    simp at long
    omega
  whole := by simp [plain, whole]

theorem temporaryFile_ne (normal : Path.IsNormal path) (whole : '/' ∉ word) :
    temporaryFile path word ≠ path := by
  obtain ⟨slashes, names, few, each, rfl⟩ := normal
  intro same
  rcases List.eq_nil_or_concat names with rfl | ⟨above, name, rfl⟩
  · have parent : Path.parent (Path.fromRoot slashes []) = Path.fromRoot slashes [] := by
      rcases few with rfl | rfl <;> rfl
    have none : Path.name (Path.fromRoot slashes []) = [] := by
      rcases few with rfl | rfl <;> rfl
    rw [temporaryFile, parent, none,
      Path.join_fromRoot few (by simp) (isName_temporary (by simp) whole)] at same
    simp [Path.fromRoot, Text.joinWith] at same
  · rw [List.concat_eq_append] at each same
    obtain ⟨others, named⟩ := List.forall_mem_append.mp each
    have named := named name (by simp)
    have longer := isName_temporary named.whole whole
    rw [temporaryFile, Path.parent_fromRoot few others named, Path.name_fromRoot few others named,
      Path.join_fromRoot few others longer] at same
    have names := congrArg Path.name same
    rw [Path.name_fromRoot few others named, Path.name_fromRoot few others longer] at names
    have long := congrArg List.length names
    simp at long
    omega

/-! ### What becomes of the temporary file -/

theorem isFile_of_write (tree : FileTree) (path : List Char) (content : Bytes) :
    (tree.write path content).isFile path = true := by
  refine Entries.has_iff.mpr (Entries.mem_keys_iff.mpr ⟨content, ?_⟩)
  rw [get?_write, if_pos rfl]

theorem isFile_of_remove (tree : FileTree) (path : List Char) :
    (tree.remove path).isFile path = false := by
  simp [isFile, remove, Entries.has, Entries.erase]

theorem cleanUp_fails (handle : Handle) (fault : WriteFault) :
    (cleanUp hazard temporary handle fault tree).1 ≠ .ok () := by
  unfold cleanUp
  split <;> simp

theorem isFile_cleanUp (present : tree.isFile temporary = true) (handle : Handle)
    (fault : WriteFault) :
    (cleanUp hazard temporary handle fault tree).2.isFile temporary = true ↔
      (closeLate hazard handle).isSome = true ∨ hazard .remove = true := by
  unfold cleanUp
  cases closeLate hazard handle with
  | some step => simp [present]
  | none =>
    by_cases stuck : hazard .remove = true
    · simp [stuck, present]
    · simp [stuck, isFile_of_remove]

theorem replace_ok_iff : (replace hazard temporary path content tree).1 = .ok () ↔
    hazard .replace = false ∧ tree.isDirectory path = false := by
  unfold replace
  split
  next broken => simp [broken, cleanUp_fails]
  next whole =>
    split
    next directory => simp [directory, cleanUp_fails]
    next free => simp [whole, free]

theorem isFile_replace (present : tree.isFile temporary = true)
    (fails : (replace hazard temporary path content tree).1 ≠ .ok ()) :
    (replace hazard temporary path content tree).2.isFile temporary = true ↔
      hazard .remove = true := by
  have closed : ∀ fault, (cleanUp hazard temporary .closed fault tree).2.isFile temporary = true ↔
      hazard .remove = true := by
    intro fault
    simpa [closeLate] using isFile_cleanUp present .closed fault
  unfold replace at fails ⊢
  split
  next => exact closed _
  next whole =>
    split
    next => exact closed _
    next free => exact absurd (by rw [if_neg whole, if_neg free]) fails

/-- The operations that fill a temporary file and put it in the place of a file. -/
def filling : List WriteStep := [.write, .flush, .sync, .close, .replace]

theorem fill_ok_iff : (fill hazard temporary path content tree).1 = .ok () ↔
    (∀ step ∈ filling, hazard step = false) ∧
      (tree.write temporary content).isDirectory path = false := by
  simp only [filling, List.forall_mem_cons, List.not_mem_nil, false_imp_iff, implies_true, and_true,
    fill]
  split
  next broken => simp [broken, cleanUp_fails]
  next written =>
    split
    next broken => simp [broken, cleanUp_fails]
    next flushed =>
      split
      next broken => simp [broken, cleanUp_fails]
      next synced =>
        split
        next broken => simp [broken, cleanUp_fails]
        next closed => simp [replace_ok_iff, written, flushed, synced, closed]

theorem get?_temporary_of_fill_ok (apart : temporary ≠ path)
    (done : (fill hazard temporary path content tree).1 = .ok ()) :
    (fill hazard temporary path content tree).2.files.get? temporary = none := by
  obtain ⟨calm, free⟩ := fill_ok_iff.mp done
  simp only [filling, List.forall_mem_cons] at calm
  obtain ⟨write, flush, sync, close, last, -⟩ := calm
  have moved : (fill hazard temporary path content tree).2 =
      ((tree.write temporary content).remove temporary).write path content := by
    simp [fill, replace, write, flush, sync, close, last, free]
  rw [moved, get?_write, if_neg apart]
  exact Entries.get?_eq_none_iff.mpr (Entries.has_eq_false_iff.mp (isFile_of_remove ..))

/-- The temporary file of a write that fails stays behind: it cannot be removed, or the failure left it
open and it cannot be closed, for which what is not written yet has to be written. -/
def Strands (hazard : Hazard) : Prop :=
  hazard .remove = true ∨
    (hazard .write = true ∨ hazard .flush = true) ∧ hazard .lateFlush = true ∨
    (hazard .write = true ∨ hazard .flush = true ∨ hazard .sync = true) ∧ hazard .lateClose = true

theorem isFile_fill (present : tree.isFile temporary = true)
    (fails : (fill hazard temporary path content tree).1 ≠ .ok ()) :
    (fill hazard temporary path content tree).2.isFile temporary = true ↔ Strands hazard := by
  have filled := isFile_of_write tree temporary content
  unfold fill at fails ⊢
  unfold Strands
  split
  next broken =>
    rw [isFile_cleanUp present]
    simp only [closeLate, broken]
    cases hazard .lateFlush <;> cases hazard .lateClose <;> simp
  next written =>
    rw [if_neg written] at fails
    split
    next broken =>
      rw [isFile_cleanUp present]
      simp only [closeLate, written, broken]
      cases hazard .lateFlush <;> cases hazard .lateClose <;> simp
    next flushed =>
      rw [if_neg flushed] at fails
      dsimp only at fails ⊢
      split
      next broken =>
        rw [isFile_cleanUp filled]
        simp only [closeLate, written, flushed, broken]
        cases hazard .lateClose <;> simp
      next synced =>
        rw [if_neg synced] at fails
        simp only [written, flushed, synced, Bool.false_eq_true, or_self, false_and, or_false]
        split
        next =>
          rw [isFile_cleanUp filled]
          simp [closeLate]
        next closed =>
          rw [if_neg closed] at fails
          exact isFile_replace filled fails

def Begins (hazard : Hazard) (path : List Char) (tree made : FileTree) : Prop :=
  hazard .makeDirectory = false ∧ tree.makeDirectories (Path.parent path) = .ok made ∧
    hazard .create = false

theorem run_of_begins {made : FileTree} (begins : Begins hazard path tree made) :
    run hazard temporary path content tree =
      fill hazard temporary path content (made.write temporary []) := by
  obtain ⟨directory, result, create⟩ := begins
  simp [run, directory, result, create]

/-- A write that makes no temporary file fails, and no file changes. -/
theorem run_of_not_begins (begins : ∀ made, ¬ Begins hazard path tree made) :
    (run hazard temporary path content tree).1 ≠ .ok () ∧
      (run hazard temporary path content tree).2.files = tree.files := by
  unfold run
  split
  next => exact ⟨by simp, rfl⟩
  next directory =>
    split
    next => exact ⟨by simp, rfl⟩
    next made result =>
      have create : hazard .create = true :=
        of_not_not fun create => begins made ⟨by simpa using directory, result, by simpa using create⟩
      rw [if_pos create]
      exact ⟨by simp, files_makeDirectories result⟩

theorem run_ok_iff : (run hazard temporary path content tree).1 = .ok () ↔
    ∃ made, Begins hazard path tree made ∧ (∀ step ∈ filling, hazard step = false) ∧
      ((made.write temporary []).write temporary content).isDirectory path = false := by
  constructor
  · intro done
    by_cases starts : ∃ made, Begins hazard path tree made
    · obtain ⟨made, begins⟩ := starts
      rw [run_of_begins begins, fill_ok_iff] at done
      exact ⟨made, begins, done⟩
    · exact absurd done (run_of_not_begins (not_exists.mp starts)).1
  · rintro ⟨made, begins, sound⟩
    rw [run_of_begins begins, fill_ok_iff]
    exact sound

theorem get?_temporary_of_run_ok (apart : temporary ≠ path)
    (done : (run hazard temporary path content tree).1 = .ok ()) :
    (run hazard temporary path content tree).2.files.get? temporary = none := by
  obtain ⟨made, begins, -⟩ := run_ok_iff.mp done
  rw [run_of_begins begins] at done ⊢
  exact get?_temporary_of_fill_ok apart done

theorem isFile_run (fresh : tree.isFile temporary = false)
    (fails : (run hazard temporary path content tree).1 ≠ .ok ()) :
    (run hazard temporary path content tree).2.isFile temporary = true ↔
      (∃ made, Begins hazard path tree made) ∧ Strands hazard := by
  by_cases starts : ∃ made, Begins hazard path tree made
  · rw [and_iff_right starts]
    obtain ⟨made, begins⟩ := starts
    rw [run_of_begins begins] at fails ⊢
    exact isFile_fill (isFile_of_write ..) fails
  · have gone : (run hazard temporary path content tree).2.isFile temporary = false := by
      rw [FileTree.isFile, (run_of_not_begins (not_exists.mp starts)).2]
      exact fresh
    simp [gone, starts]

/-- A write succeeds exactly if its temporary file is made, no operation on that breaks down and there
is no directory in the place of the file. Then the file has the text, and the others are as before. If
it fails, all files are as before; there is one more, the temporary file, exactly if that was made and
is stranded. -/
theorem all_or_nothing (normal : Path.IsNormal path) (whole : '/' ∉ word)
    (fresh : tree.isFile (temporaryFile path word) = false) (hazard : Hazard) (text : String) :
    let content := Text.encode text.toList
    let temporary := temporaryFile path word
    let ending := run hazard temporary path content tree
    (ending.1 = .ok () ↔ ∃ made, Begins hazard path tree made ∧
      (∀ step ∈ filling, hazard step = false) ∧
        ((made.write temporary []).write temporary content).isDirectory path = false) ∧
    (ending.1 = .ok () → ending.2.files.get? path = some content ∧
      ∀ other, other ≠ path → ending.2.files.get? other = tree.files.get? other) ∧
    (ending.1 ≠ .ok () →
      (∀ other, other ≠ temporary → ending.2.files.get? other = tree.files.get? other) ∧
      (ending.2.isFile temporary = true ↔
        (∃ made, Begins hazard path tree made) ∧ Strands hazard)) := by
  intro content temporary ending
  have settled : Settled temporary path content tree ending :=
    settled_run hazard temporary path content tree
  have apart : temporary ≠ path := temporaryFile_ne normal whole
  refine ⟨run_ok_iff, fun done => ?_, fun fails => ⟨settled.of_not_ok fails, isFile_run fresh fails⟩⟩
  have kept := settled.of_ok done
  have absent : tree.files.get? temporary = none :=
    Entries.get?_eq_none_iff.mpr (Entries.has_eq_false_iff.mp fresh)
  constructor
  · rw [kept path apart.symm, get?_write, if_pos rfl]
  · intro other elsewhere
    by_cases same : other = temporary
    · rw [same, absent]
      exact get?_temporary_of_run_ok apart done
    · rw [kept other same, get?_write, if_neg elsewhere]

def fullDisk : Hazard := fun step => step == .flush || step == .lateFlush

def savedPath : List Char := "/work/out.json".toList

def saved : FileTree := ⟨[(savedPath, Text.encode "old".toList)], []⟩

/-- Nothing is lost, and the temporary file stays although it could be removed. -/
theorem stranded_on_full_disk :
    let temporary := temporaryFile savedPath ['0']
    let ending := run fullDisk temporary savedPath (Text.encode "new".toList) saved
    fullDisk .remove = false ∧ ending.1 ≠ .ok () ∧
      ending.2.files.get? savedPath = some (Text.encode "old".toList) ∧
      ending.2.isFile temporary = true := by
  have normal : Path.IsNormal savedPath :=
    ⟨1, ["work".toList, "out.json".toList], .inl rfl, by decide, rfl⟩
  have begins : Begins fullDisk savedPath saved saved := ⟨rfl, rfl, rfl⟩
  have stranded : Strands fullDisk := .inr (.inl ⟨.inr rfl, rfl⟩)
  have fresh : saved.isFile (temporaryFile savedPath ['0']) = false := by decide +kernel
  have old : saved.files.get? savedPath = some (Text.encode "old".toList) := by decide +kernel
  have fails : (run fullDisk (temporaryFile savedPath ['0']) savedPath (Text.encode "new".toList)
      saved).1 ≠ .ok () := by
    decide +kernel
  obtain ⟨-, -, failed⟩ := all_or_nothing normal (by decide) fresh fullDisk "new"
  obtain ⟨kept, stays⟩ := failed fails
  have apart : savedPath ≠ temporaryFile savedPath ['0'] := (temporaryFile_ne normal (by decide)).symm
  exact ⟨rfl, fails, (kept savedPath apart).trans old, stays.mpr ⟨⟨saved, begins⟩, stranded⟩⟩

end AtomicWrite
end ToolGraph

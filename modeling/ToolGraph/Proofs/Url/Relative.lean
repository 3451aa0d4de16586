import Mathlib.Data.Bool.AllAny
import ToolGraph.Proofs.Url.Web

/-!
Relative references of a source on the web. Its working directory keeps only the folder of its URL, but a
reference that names anything leads from there to where it leads from the URL itself: of the path of its
base, joining uses the names of the folders alone.
-/
namespace ToolGraph
open Text

namespace Url
variable {path base reference : List Char}

/-! ### Folders -/

def folder (path : List Char) : List Char := dropEndWhile (· == '/') (Path.parent path) ++ ['/']

def IsRooted (path : List Char) : Prop := ∀ c ∈ path.head?, c = '/'

theorem IsRooted.start {more : List Char} (rooted : IsRooted (path ++ more)) : IsRooted path := by
  intro c first
  apply rooted c
  rw [Option.mem_def, List.head?_append, Option.mem_def.mp first, Option.some_or]

theorem IsRooted.cases (rooted : IsRooted path) :
    path = [] ∨ ∃ before last, path = before ++ '/' :: last ∧ '/' ∉ last := by
  cases path with
  | nil => exact .inl rfl
  | cons c rest =>
    obtain rfl := rooted c rfl
    have member : '/' ∈ ('/' :: rest).reverse := by simp
    obtain ⟨last, before, same, free⟩ := List.eq_append_cons_of_mem member
    refine .inr ⟨before.reverse, last.reverse, ?_, by simpa using free⟩
    rw [← List.reverse_reverse ('/' :: rest), same]
    simp

theorem splitAt_rooted (rooted : IsRooted path) : ∃ rest, splitAt '/' path = [] :: rest := by
  cases path with
  | nil => exact ⟨[], rfl⟩
  | cons c rest =>
    obtain rfl := rooted c rfl
    exact ⟨_, splitAt_cons '/' rest⟩

theorem upTo_slash {before last : List Char} (free : '/' ∉ last) :
    dropEndWhile (· != '/') (before ++ '/' :: last) = before ++ ['/'] := by
  refine dropEndWhile_append ?_ (by simp) before
  intro c member
  simpa using ne_of_mem_of_not_mem member free

theorem names_folder (path : List Char) :
    names (folder path) = names (dropEndWhile (· != '/') path) := by
  rw [folder, names_append_slash, names_nil, List.append_nil, names_dropEndWhile, Path.parent]
  split
  · rfl
  · exact names_dropEndWhile _

theorem baseSegments_of_rooted (rooted : IsRooted path) : ∃ segments,
    baseSegments (cutParameters path).1 = [] :: segments ∧
      segments.filter (!·.isEmpty) = names (dropEndWhile (· != '/') path) := by
  rcases rooted.cases with rfl | ⟨before, last, rfl, free⟩
  · exact ⟨[], rfl, rfl⟩
  · obtain ⟨rest, split⟩ := splitAt_rooted rooted.start
    have name := cutAt_first ';' last
    have cut : (cutParameters (before ++ '/' :: last)).1 = before ++ '/' :: (cutAt ';' last).1 := by
      rw [cutParameters, cutAtLast?_append free]
    have named : splitAt '/' (before ++ '/' :: (cutAt ';' last).1) =
        [] :: rest ++ [(cutAt ';' last).1] := by
      rw [splitAt_append_mark, split, splitAt_free (fun member => free (name.2.subset member))]
    have above : names (before ++ ['/']) = rest.filter (!·.isEmpty) := by
      rw [names_append_slash, names_nil, List.append_nil, names, split]
      rfl
    rw [cut, upTo_slash free, above, baseSegments, named, List.getLast?_concat, List.dropLast_concat]
    by_cases empty : (cutAt ';' last).1 = []
    · exact ⟨rest ++ [[]], by simp [empty], by simp⟩
    · exact ⟨rest, by simp [empty], rfl⟩

theorem dropInnerEmpty_concat (first last : List Char) (segments : List (List Char)) :
    dropInnerEmpty (first :: (segments ++ [last])) =
      first :: segments.filter (!·.isEmpty) ++ [last] := by
  rw [dropInnerEmpty, List.getLast?_concat, List.dropLast_concat]

theorem joinPath_congr {base' : List Char} {segments segments' : List (List Char)}
    (own : baseSegments base = [] :: segments) (own' : baseSegments base' = [] :: segments')
    (same : segments.filter (!·.isEmpty) = segments'.filter (!·.isEmpty)) (reference : List Char) :
    joinPath base reference = joinPath base' reference := by
  obtain none | ⟨more, last, split⟩ := List.eq_nil_or_concat (splitAt '/' reference)
  · exact absurd none (splitAt_ne_nil '/' reference)
  · rw [joinPath, joinPath, own, own', split, List.concat_eq_append, List.cons_append, List.cons_append,
      ← List.append_assoc, ← List.append_assoc, dropInnerEmpty_concat, dropInnerEmpty_concat,
      List.filter_append, List.filter_append, same]

/-! ### Joining with a web URL -/

/-- The reference names nothing: it has no path, parameters or host, and no other scheme. Seen from a URL
with the scheme, it means that very document. -/
def IsSelf (scheme reference : List Char) : Prop :=
  reference = [] ∨ ∃ target, split reference scheme = .ok target ∧ target.scheme = scheme ∧
    target.authority = [] ∧ cutParameters target.path = ([], [])

theorem prefix_folder (path : List Char) : dropEndWhile (· == '/') (Path.parent path) <+: path := by
  have above := prefix_dropEndWhile (· != '/') path
  refine (prefix_dropEndWhile _ _).trans ?_
  simp only [Path.parent]
  split
  · exact above
  · exact (prefix_dropEndWhile _ _).trans above

section join
variable {scheme authority location : List Char}

theorem isRooted_folder (rooted : IsRooted path) : IsRooted (folder path) := by
  obtain ⟨rest, same⟩ := prefix_folder path
  unfold folder
  cases start : dropEndWhile (· == '/') (Path.parent path) with
  | nil => simp [IsRooted]
  | cons c tail =>
    rw [start] at same
    simpa [IsRooted, ← same] using rooted

theorem IsWeb.folder (web : IsWeb scheme authority path) : IsWeb scheme authority (folder path) := by
  have start := (prefix_folder path).subset
  refine ⟨web.scheme, web.checked, web.inside, ?_, ⟨?_, ?_⟩, isRooted_folder web.rooted⟩
  · intro c member
    simp only [Url.folder, List.mem_append, List.mem_singleton] at member
    rcases member with host | inside | rfl
    · exact web.kept c (List.mem_append_left _ host)
    · exact web.kept c (List.mem_append_right _ (start inside))
    · decide
  · simpa [Url.folder] using fun member => web.plain.1 (start member)
  · simpa [Url.folder] using fun member => web.plain.2 (start member)

theorem joinPath_folder (rooted : IsRooted path) (reference : List Char) :
    joinPath (cutParameters (Url.folder path)).1 reference =
      joinPath (cutParameters path).1 reference := by
  obtain ⟨segments, base, kept⟩ := baseSegments_of_rooted rooted
  obtain ⟨segments', base', kept'⟩ := baseSegments_of_rooted (isRooted_folder rooted)
  have ends : dropEndWhile (· != '/') (Url.folder path) = Url.folder path :=
    upTo_slash List.not_mem_nil
  refine joinPath_congr base' base ?_ reference
  rw [kept, kept', ends, names_folder]

theorem join_folder {url : Url} (web : IsWeb url.scheme url.authority url.path)
    (start : Url.split location [] = .ok url) (other : ¬ IsSelf url.scheme reference) :
    Url.join (webText url.scheme url.authority (Url.folder url.path)) reference =
      Url.join location reference := by
  simp only [IsSelf, not_or, not_exists, not_and] at other
  obtain ⟨some, named⟩ := other
  have some : reference.isEmpty = false := by simpa using some
  simp only [Url.join, some, Bool.false_eq_true, if_false, web.folder.split, start, bind, Except.bind,
    pure, Except.pure]
  cases found : Url.split reference url.scheme with
  | error error => rfl
  | ok target =>
    by_cases same : target.scheme = url.scheme
    · by_cases host : target.authority = []
      · have own : ((cutParameters target.path).1.isEmpty && (cutParameters target.path).2.isEmpty) =
            false := by
          rw [← Bool.not_eq_true, Bool.and_eq_true, List.isEmpty_iff, List.isEmpty_iff]
          exact fun empty => named target found same host (Prod.ext empty.1 empty.2)
        simp only [same, host, own, ne_eq, not_true_eq_false, if_false, List.isEmpty_nil,
          Bool.not_true, Bool.false_eq_true, joinPath_folder web.rooted]
      · simp [same, host]
    · simp only [same, ne_eq, not_false_eq_true, if_true]

end join

end Url

namespace Location
open Url
variable {url : Url} {location reference : List Char}

theorem join_workingDir_folder (web : isUrl location = true)
    (start : Url.split location [] = .ok url) (host : url.authority ≠ [])
    (relative : isAbsolute reference = false) (home base : List Char) :
    (workingDir location base >>= join home reference) =
      Url.join (webText url.scheme url.authority (folder url.path)) reference := by
  have parts := isWeb_of_split web start
  let front := url.scheme ++ "://".toList ++ url.authority
  let rest := if (Path.parent url.path).isEmpty then ['/'] else Path.parent url.path
  have stays : ∀ c ∈ front.getLast?, (c == '/') = false := by
    intro c last
    rw [List.getLast?_append_of_ne_nil _ host] at last
    have inside := parts.inside c (List.mem_of_getLast? last)
    simp only [endsAuthority, Bool.or_eq_false_iff] at inside
    exact inside.1.1
  have dropped : dropEndWhile (· == '/') rest = dropEndWhile (· == '/') (Path.parent url.path) := by
    simp only [rest]
    split
    next empty => rw [List.isEmpty_iff.mp empty]; rfl
    next => rfl
  have placed : workingDir location base = .ok (webText url.scheme url.authority rest) := by
    rw [workingDir, if_pos web, start]
    rfl
  have whole : dropEndWhile (· == '/') (webText url.scheme url.authority rest) ++ ['/'] =
      webText url.scheme url.authority (folder url.path) := by
    have text : webText url.scheme url.authority rest = front ++ rest := rfl
    rw [text, dropEndWhile_append_kept stays, dropped, List.append_assoc]
    rfl
  rw [placed]
  change join home reference (webText url.scheme url.authority rest) = _
  rw [join, if_neg (by simp [relative]), if_pos (isUrl_webText parts.scheme _ _).1, whole]

/-- A reference from a web URL leads where it leads from the working directory of the source, unless it
means that very document; even then where the URL is the one of its folder. -/
theorem join_workingDir (web : isUrl location = true) (start : Url.split location [] = .ok url)
    (host : url.authority ≠ []) (relative : isAbsolute reference = false)
    (other : IsSelf url.scheme reference →
      location = webText url.scheme url.authority (folder url.path)) (home base : List Char) :
    (workingDir location base >>= join home reference) = Url.join location reference := by
  rw [join_workingDir_folder web start host relative]
  by_cases self : IsSelf url.scheme reference
  · rw [← other self]
  · exact join_folder (isWeb_of_split web start) start self

theorem join_workingDir_up :
    (workingDir "https://h/a/b/tool.gpt;v=1?q#f".toList [] >>= join [] "../c//d.gpt?r".toList) =
        Url.join "https://h/a/b/tool.gpt;v=1?q#f".toList "../c//d.gpt?r".toList ∧
      Url.join "https://h/a/b/tool.gpt;v=1?q#f".toList "../c//d.gpt?r".toList =
        .ok "https://h/a/c/d.gpt?r".toList := by
  refine ⟨join_workingDir (by decide) rfl (by decide) (by decide) ?_ [] [], by decide⟩
  rintro (empty | ⟨target, split, -, -, nothing⟩)
  · cases empty
  · cases split
    cases nothing

/-- Parameters of the document itself are a reference for which the folder does not stand in. -/
theorem not_join_workingDir_parameters :
    ¬ ∀ (location reference home base : List Char) (url : Url), isUrl location = true →
      Url.split location [] = .ok url → url.authority ≠ [] → (∀ c ∈ location, ¬ isBlank c) →
      (∀ c ∈ reference, ¬ isBlank c) → isAbsolute reference = false →
      (∀ c ∈ reference.head?, c ≠ '?' ∧ c ≠ '#') →
      (workingDir location base >>= join home reference) = Url.join location reference := by
  intro all
  have same := all "http://h/a/b.gpt".toList [';'] [] [] _ (by decide) rfl (by decide)
    (List.all_iff_forall_prop.mp (by decide)) (List.all_iff_forall_prop.mp (by decide)) (by decide) (by simp)
  have folder : (workingDir "http://h/a/b.gpt".toList [] >>= join [] [';']) =
      .ok "http://h/a/".toList := by decide
  have document : Url.join "http://h/a/b.gpt".toList [';'] = .ok "http://h/a/b.gpt".toList := by decide
  rw [folder, document] at same
  cases same

end Location
end ToolGraph

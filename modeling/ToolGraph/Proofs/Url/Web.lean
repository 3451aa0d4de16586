import ToolGraph.Location
import ToolGraph.Proofs.Lists
import ToolGraph.Proofs.Path

/-!
Web URLs and their components. A scheme, an authority and a path that can stand in a URL make a text that
is split into just these, and so do the components of every web URL.
-/
namespace ToolGraph

namespace Text
variable {mark : Char} {text : List Char}

theorem cutAt_append {piece : List Char} (free : mark ∉ piece) (rest : List Char) :
    cutAt mark (piece ++ mark :: rest) = (piece, rest) := by
  rw [cutAt, cutAt?_append free]
  rfl

theorem cutAt?_free (free : mark ∉ text) : cutAt? mark text = none := by
  induction text with
  | nil => rfl
  | cons c rest ih =>
    rw [List.mem_cons, not_or] at free
    rw [cutAt?, if_neg (Ne.symm free.1), ih free.2]
    rfl

theorem cutAt_free (free : mark ∉ text) : cutAt mark text = (text, []) := by
  rw [cutAt, cutAt?_free free]
  rfl

theorem cutAt_first (mark : Char) (text : List Char) :
    mark ∉ (cutAt mark text).1 ∧ (cutAt mark text).1 <+: text := by
  by_cases member : mark ∈ text
  · obtain ⟨first, rest, rfl, free⟩ := List.eq_append_cons_of_mem member
    rw [cutAt_append free]
    exact ⟨free, List.prefix_append first _⟩
  · rw [cutAt_free member]
    exact ⟨member, List.prefix_rfl⟩

/-! ### Names on a path -/

def names (path : List Char) : List (List Char) := (splitAt '/' path).filter (!·.isEmpty)

theorem names_nil : names [] = [] := rfl

theorem names_append_slash (first rest : List Char) :
    names (first ++ '/' :: rest) = names first ++ names rest := by
  rw [names, splitAt_append_mark, List.filter_append]
  rfl

theorem names_append_slashes (path : List Char) (count : Nat) :
    names (path ++ List.replicate count '/') = names path := by
  induction count generalizing path with
  | zero => rw [List.replicate_zero, List.append_nil]
  | succ count ih =>
    rw [List.replicate_succ, names_append_slash, ← List.nil_append (List.replicate count '/'), ih,
      names_nil, List.append_nil]

theorem dropEndWhile_append_takeWhile (p : Char → Bool) (text : List Char) :
    dropEndWhile p text ++ (text.reverse.takeWhile p).reverse = text := by
  rw [dropEndWhile, ← List.reverse_append, List.takeWhile_append_dropWhile, List.reverse_reverse]

theorem prefix_dropEndWhile (p : Char → Bool) (text : List Char) : dropEndWhile p text <+: text :=
  ⟨_, dropEndWhile_append_takeWhile p text⟩

theorem names_dropEndWhile (path : List Char) :
    names (dropEndWhile (· == '/') path) = names path := by
  have slashes : (path.reverse.takeWhile (· == '/')).reverse =
      List.replicate (path.reverse.takeWhile (· == '/')).reverse.length '/' := by
    refine List.eq_replicate_of_mem fun c member => ?_
    simpa using List.all_eq_true.mp List.all_takeWhile c (List.mem_reverse.mp member)
  have whole := dropEndWhile_append_takeWhile (· == '/') path
  rw [slashes] at whole
  conv_rhs => rw [← whole]
  exact (names_append_slashes _ _).symm

theorem dropEndWhile_append_kept {p : Char → Bool} {front : List Char}
    (stays : ∀ c ∈ front.getLast?, p c = false) (text : List Char) :
    dropEndWhile p (front ++ text) = front ++ dropEndWhile p text := by
  have whole : front.reverse.dropWhile p = front.reverse := by
    cases reversed : front.reverse with
    | nil => rfl
    | cons c rest =>
      have last : front.getLast? = some c := by rw [← List.head?_reverse, reversed, List.head?_cons]
      exact List.dropWhile_cons_of_neg (by simp [stays c last])
  rw [dropEndWhile, dropEndWhile, List.reverse_append, List.dropWhile_append, whole]
  split
  next none => simp [List.isEmpty_iff.mp none]
  next => simp

end Text

namespace Url
open Text

/-- Characters that vanish from a URL. -/
def isErased (c : Char) : Bool := c == '\t' || c == '\r' || c == '\n'

def IsWebScheme (scheme : List Char) : Prop := scheme = "http".toList ∨ scheme = "https".toList

structure IsWeb (scheme authority path : List Char) : Prop where
  scheme : IsWebScheme scheme
  checked : checkAuthority authority = .ok ()
  inside : ∀ c ∈ authority, endsAuthority c = false
  kept : ∀ c ∈ authority ++ path, isErased c = false
  plain : '?' ∉ path ∧ '#' ∉ path
  rooted : ∀ c ∈ path.head?, c = '/'

def webText (scheme authority path : List Char) : List Char :=
  scheme ++ "://".toList ++ authority ++ path

section web
variable {scheme authority path location : List Char}

theorem clean_web (web : IsWebScheme scheme) (rest : List Char) :
    clean (scheme ++ "://".toList ++ rest) = scheme ++ "://".toList ++ rest.filter (!isErased ·) := by
  have erases : (fun c : Char => c != '\t' && c != '\r' && c != '\n') = (!isErased ·) := by
    funext c
    simp [isErased, bne, Bool.not_or]
  rw [clean, erases]
  rcases web with rfl | rfl <;> rfl

theorem cutScheme?_web (web : IsWebScheme scheme) (rest : List Char) :
    cutScheme? (scheme ++ "://".toList ++ rest) = some (scheme, '/' :: '/' :: rest) := by
  have parts : scheme ++ "://".toList ++ rest = scheme ++ ':' :: '/' :: '/' :: rest := by simp
  rw [parts, cutScheme?]
  rcases web with rfl | rfl
  · rw [cutAt?_append (by decide)]
    rfl
  · rw [cutAt?_append (by decide)]
    rfl

theorem IsWeb.split (web : IsWeb scheme authority path) :
    Url.split (webText scheme authority path) [] = .ok ⟨scheme, authority, path, [], []⟩ := by
  have cleaned : clean (webText scheme authority path) = webText scheme authority path := by
    rw [webText, List.append_assoc, clean_web web.scheme,
      List.filter_eq_self.mpr (fun c member => by simp [web.kept c member])]
  have inside : ∀ c ∈ authority, (!endsAuthority c) = true :=
    fun c member => by simp [web.inside c member]
  have stops : path.takeWhile (!endsAuthority ·) = [] ∧
      path.dropWhile (!endsAuthority ·) = path := by
    cases path with
    | nil => exact ⟨rfl, rfl⟩
    | cons c rest =>
      obtain rfl := web.rooted c rfl
      exact ⟨rfl, rfl⟩
  have cut : cutAuthority ('/' :: '/' :: (authority ++ path)) = (authority, path) := by
    rw [cutAuthority, List.takeWhile_append_of_pos inside, List.dropWhile_append_of_pos inside,
      stops.1, stops.2, List.append_nil]
  have scheme : cutScheme? (webText scheme authority path) =
      some (scheme, '/' :: '/' :: (authority ++ path)) := by
    rw [webText, List.append_assoc, cutScheme?_web web.scheme]
  simp only [Url.split, cleaned, scheme, Option.getD_some, cut, web.checked, bind, Except.bind, pure,
    Except.pure, cutAt_free web.plain.2, cutAt_free web.plain.1]

theorem exists_scheme (web : Location.isUrl location = true) :
    ∃ scheme rest, IsWebScheme scheme ∧ location = scheme ++ "://".toList ++ rest := by
  simp only [Location.isUrl, Bool.or_eq_true, startsWith, List.isPrefixOf_iff_prefix] at web
  rcases web with ⟨rest, same⟩ | ⟨rest, same⟩
  · exact ⟨_, rest, .inl rfl, same.symm⟩
  · exact ⟨_, rest, .inr rfl, same.symm⟩

theorem ends_of_dropWhile {c : Char} {rest more : List Char}
    (found : rest.dropWhile (!endsAuthority ·) = c :: more) : c = '/' ∨ c = '?' ∨ c = '#' := by
  have ends := List.head?_dropWhile_not (!endsAuthority ·) rest
  rw [found] at ends
  simpa only [List.head?_cons, endsAuthority, Bool.not_eq_false', Bool.or_eq_true, beq_iff_eq,
    or_assoc] using ends

theorem isWeb_of_split {url : Url} (web : Location.isUrl location = true)
    (split : Url.split location [] = .ok url) : IsWeb url.scheme url.authority url.path := by
  obtain ⟨scheme, rest, known, rfl⟩ := exists_scheme web
  simp only [Url.split, clean_web known, cutScheme?_web known, Option.getD_some] at split
  obtain ⟨⟨⟩, checked, split⟩ := bind_eq_ok.mp split
  obtain rfl := pure_eq_ok.mp split
  simp only [cutAuthority] at checked ⊢
  let left := rest.filter (!isErased ·)
  let after := left.dropWhile (!endsAuthority ·)
  have kept : ∀ c ∈ left, isErased c = false :=
    fun c member => by simpa using (List.mem_filter.mp member).2
  have noFragment := cutAt_first '#' after
  have noQuery := cutAt_first '?' (cutAt '#' after).1
  have starts := noQuery.2.trans noFragment.2
  refine ⟨known, checked, ?_, ?_, ⟨noQuery.1, fun member => noFragment.1 (noQuery.2.subset member)⟩, ?_⟩
  · intro c member
    simpa using List.all_eq_true.mp List.all_takeWhile c member
  · intro c member
    rcases List.mem_append.mp member with first | later
    · exact kept c ((List.takeWhile_prefix _).subset first)
    · exact kept c ((List.dropWhile_suffix _).subset (starts.subset later))
  · intro c first
    obtain ⟨tail, own⟩ := List.head?_eq_some_iff.mp first
    have member : c ∈ (cutAt '?' (cutAt '#' after).1).1 := own ▸ List.mem_cons_self
    obtain ⟨more, same⟩ := own ▸ starts
    rcases ends_of_dropWhile same.symm with slash | rfl | rfl
    · exact slash
    · exact absurd member noQuery.1
    · exact absurd (noQuery.2.subset member) noFragment.1

end web
end Url

namespace Location
open Url

theorem isUrl_webText {scheme : List Char} (web : IsWebScheme scheme) (authority path : List Char) :
    isUrl (webText scheme authority path) = true ∧
      isRepository (webText scheme authority path) = false := by
  rcases web with rfl | rfl <;> exact ⟨rfl, rfl⟩

end Location
end ToolGraph

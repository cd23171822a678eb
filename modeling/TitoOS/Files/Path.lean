import Mathlib.Data.List.Basic

/-!
# Paths

`PurePath`, which is `PurePosixPath` on the platforms the driver supports. It
has no drive there. `IsComponent` is what an entry of a directory may be called.
-/

namespace TitoOS

/-- A string that names an entry of a directory: a single component other than
`"."` and `".."`. -/
def IsComponent (s : String) : Prop := s ≠ "" ∧ s ≠ "." ∧ s ≠ ".." ∧ '/' ∉ s.toList

instance (s : String) : Decidable (IsComponent s) := inferInstanceAs (Decidable (_ ∧ _))

/-- The `/`-separated pieces of a string. -/
def pieces (s : List Char) : List String := (s.splitOn '/').map String.ofList

theorem not_mem_of_mem_splitOn {α : Type} [BEq α] [LawfulBEq α] {a : α} {xs piece : List α}
    (h : piece ∈ xs.splitOn a) : a ∉ piece := by
  induction xs generalizing piece with
  | nil =>
    rw [List.splitOn_nil, List.mem_singleton] at h
    simp [h]
  | cons x xs ih =>
    rw [List.splitOn_cons_eq_if_modifyHead] at h
    split at h
    · rcases List.mem_cons.mp h with rfl | h
      · simp
      · exact ih h
    · rename_i hx
      obtain ⟨first, rest, hsplit⟩ := List.exists_cons_of_ne_nil (List.splitOn_ne_nil a xs)
      rw [hsplit, List.modifyHead_cons] at h
      rw [hsplit] at ih
      rcases List.mem_cons.mp h with rfl | h
      · have hfirst := ih (List.mem_cons_self)
        have hne : a ≠ x := by rintro rfl; simp at hx
        simp [hne, hfirst]
      · exact ih (List.mem_cons_of_mem _ h)

theorem slash_not_mem_pieces {s : List Char} {piece : String} (h : piece ∈ pieces s) :
    '/' ∉ piece.toList := by
  obtain ⟨chars, hmem, rfl⟩ := List.mem_map.mp h
  rw [String.toList_ofList]
  exact not_mem_of_mem_splitOn hmem

/-- `PurePosixPath`: its root (`""`, `"/"` or `"//"`) and the pieces after it. -/
structure PurePath where
  root : String
  tail : List String
  deriving DecidableEq

namespace PurePath

/-- `posixpath.splitroot`: two leading slashes are a root of their own, three
are one. -/
def splitroot : List Char → String × List Char
  | '/' :: '/' :: '/' :: rest => ("/", '/' :: '/' :: rest)
  | '/' :: '/' :: rest => ("//", rest)
  | '/' :: rest => ("/", rest)
  | rest => ("", rest)

/-- `PurePath(p)`: empty pieces and `"."` are dropped. -/
def parse (p : String) : PurePath where
  root := (splitroot p.toList).1
  tail := (pieces (splitroot p.toList).2).filter fun x => x ≠ "" ∧ x ≠ "."

/-- `parts`. -/
def parts (p : PurePath) : List String := if p.root = "" then p.tail else p.root :: p.tail

/-- `name`: the last piece, or nothing. -/
def name (p : PurePath) : String := p.tail.getLast?.getD ""

/-- `is_absolute()`. -/
def isAbsolute (p : PurePath) : Bool := p.root ≠ ""

/-- `str(p)`. -/
def str (p : PurePath) : String :=
  if p.root = "" ∧ p.tail = [] then "." else p.root ++ "/".intercalate p.tail

/-- `posixpath.join`. -/
def joinPath (a b : String) : String :=
  if b.toList.head? = some '/' ∨ a = "" then b
  else if a.toList.getLast? = some '/' then a ++ b
  else a ++ "/" ++ b

/-- `PurePath(*segments)`. -/
def ofSegments : List String → PurePath
  | [] => parse ""
  | first :: rest => parse (rest.foldl joinPath first)

/-- `p / key`. -/
def div (p : PurePath) (key : String) : PurePath := ofSegments [p.str, key]

theorem slash_not_mem_tail {p : String} {piece : String} (h : piece ∈ (parse p).tail) :
    '/' ∉ piece.toList :=
  slash_not_mem_pieces (List.mem_of_mem_filter h)

/-! ### Relative paths -/

theorem splitroot_of_relative {s : List Char} (h : s.head? ≠ some '/') : splitroot s = ("", s) := by
  cases s with
  | nil => rfl
  | cons c rest =>
    have hc : c ≠ '/' := by simpa using h
    unfold splitroot
    split
    · simp_all
    · simp_all
    · simp_all
    · rfl

theorem root_eq_empty_iff {p : String} : (parse p).root = "" ↔ p.toList.head? ≠ some '/' := by
  constructor
  · intro hroot hslash
    obtain ⟨rest, hrest⟩ := List.head?_eq_some_iff.mp hslash
    simp only [parse, hrest, splitroot] at hroot
    split at hroot <;> simp_all
  · intro h
    rw [parse, splitroot_of_relative h]

/-- A relative path is its pieces, but for the empty ones and `"."`. -/
theorem tail_of_relative {p : String} (h : p.toList.head? ≠ some '/') :
    (parse p).tail = (pieces p.toList).filter fun x => x ≠ "" ∧ x ≠ "." := by
  rw [parse, splitroot_of_relative h]

/-- Joined pieces come apart again. -/
theorem pieces_intercalate {parts : List String} (h : ∀ part ∈ parts, '/' ∉ part.toList)
    (hne : parts ≠ []) : pieces ("/".intercalate parts).toList = parts := by
  have hslash : ∀ chars ∈ parts.map String.toList, '/' ∉ chars := by
    simpa using h
  rw [pieces, String.toList_intercalate, show "/".toList = ['/'] from rfl,
    List.splitOn_intercalate '/' hslash (by simpa using hne), List.map_map]
  simp

theorem head_of_isComponent {part : String} (h : IsComponent part) :
    part.toList.head? ≠ some '/' := by
  intro hhead
  obtain ⟨-, -, -, hslash⟩ := h
  exact hslash (List.mem_of_head? hhead)

/-- Joined components do not begin with a slash. -/
theorem head_intercalate {parts : List String} (h : ∀ part ∈ parts, IsComponent part) :
    ("/".intercalate parts).toList.head? ≠ some '/' := by
  cases parts with
  | nil => simp
  | cons first rest =>
    have hfirst := h first (by simp)
    have hhead := head_of_isComponent hfirst
    cases rest with
    | nil => simpa using hhead
    | cons second rest =>
      have hne : first.toList ≠ [] := fun he => hfirst.1 (String.toList_eq_nil_iff.mp he)
      rw [String.intercalate_cons_cons, String.append_assoc, String.toList_append,
        List.head?_append_of_ne_nil _ hne]
      exact hhead

/-- **Joined components are parsed into the same components.** -/
theorem parse_intercalate {parts : List String} (h : ∀ part ∈ parts, IsComponent part) :
    parse ("/".intercalate parts) = ⟨"", parts⟩ := by
  have hhead := head_intercalate h
  have hroot : (parse ("/".intercalate parts)).root = "" := root_eq_empty_iff.mpr hhead
  have htail : (parse ("/".intercalate parts)).tail = parts := by
    rw [tail_of_relative hhead]
    by_cases hne : parts = []
    · subst hne
      decide
    · rw [pieces_intercalate (fun part hpart => (h part hpart).2.2.2) hne, List.filter_eq_self]
      intro part hpart
      obtain ⟨hempty, hdot, -, -⟩ := h part hpart
      simp [hempty, hdot]
  rw [← hroot]
  exact congrArg (PurePath.mk _) htail

theorem toList_ne_nil_of_isComponent {part : String} (h : IsComponent part) : part.toList ≠ [] :=
  fun he => h.1 (String.toList_eq_nil_iff.mp he)

/-- Joined components do not end with a slash. -/
theorem last_intercalate {parts : List String} (h : ∀ part ∈ parts, IsComponent part)
    (hne : parts ≠ []) : ∃ c, ("/".intercalate parts).toList.getLast? = some c ∧ c ≠ '/' := by
  have hlast := h _ (List.getLast_mem hne)
  have hcomponent := toList_ne_nil_of_isComponent hlast
  refine ⟨(parts.getLast hne).toList.getLast hcomponent, ?_, ?_⟩
  · conv_lhs => rw [← List.dropLast_append_getLast hne]
    by_cases hinit : parts.dropLast = []
    · rw [hinit, List.nil_append, String.intercalate_singleton, List.getLast?_eq_getLast_of_ne_nil]
    · rw [String.intercalate_append_of_ne_nil hinit (by simp), String.intercalate_singleton,
        String.toList_append, List.getLast?_append_of_ne_nil _ hcomponent,
        List.getLast?_eq_getLast_of_ne_nil]
  · intro hslash
    exact hlast.2.2.2 (hslash ▸ List.getLast_mem hcomponent)

/-- A component goes behind a slash. -/
theorem joinPath_of_component {a b : String} {c : Char} (ha : a.toList.getLast? = some c)
    (hc : c ≠ '/') (hb : IsComponent b) : joinPath a b = a ++ "/" ++ b := by
  have hne : a ≠ "" := by
    rintro rfl
    cases ha
  rw [joinPath, if_neg (by simp [head_of_isComponent hb, hne]), if_neg (by simp [ha, hc])]

theorem foldl_joinPath {first : List String} (hne : first ≠ []) {rest : List String}
    (h : ∀ part ∈ first ++ rest, IsComponent part) :
    rest.foldl joinPath ("/".intercalate first) = "/".intercalate (first ++ rest) := by
  induction rest generalizing first with
  | nil => simp
  | cons b rest ih =>
    have hfirst : ∀ part ∈ first, IsComponent part := fun part hpart => h part (by simp [hpart])
    obtain ⟨c, hlast, hc⟩ := last_intercalate hfirst hne
    have hjoin : joinPath ("/".intercalate first) b = "/".intercalate (first ++ [b]) := by
      rw [joinPath_of_component hlast hc (h b (by simp)),
        String.intercalate_append_of_ne_nil hne (by simp), String.intercalate_singleton]
    rw [List.foldl_cons, hjoin, ih (by simp) (by simpa using h), List.append_assoc]
    rfl

/-- `PurePath(*parts)` of components. -/
theorem ofSegments_components {parts : List String} (h : ∀ part ∈ parts, IsComponent part) :
    ofSegments parts = ⟨"", parts⟩ := by
  cases parts with
  | nil => decide
  | cons first rest =>
    have hjoin := foldl_joinPath (List.cons_ne_nil first []) h
    rw [String.intercalate_singleton] at hjoin
    rw [ofSegments, hjoin]
    exact parse_intercalate h

/-- **An entry of a directory** is the joined components with one more. -/
theorem str_div {parts : List String} (hne : parts ≠ []) {entry : String}
    (h : ∀ part ∈ parts ++ [entry], IsComponent part) :
    ((ofSegments parts).div entry).str = "/".intercalate (parts ++ [entry]) := by
  have hparts : ∀ part ∈ parts, IsComponent part := fun part hpart => h part (by simp [hpart])
  have hstr : (ofSegments parts).str = "/".intercalate parts := by
    rw [ofSegments_components hparts, str, if_neg (by simp [hne]), String.empty_append]
  have hdiv : (ofSegments parts).div entry = ⟨"", parts ++ [entry]⟩ := by
    rw [div, hstr, ofSegments, foldl_joinPath hne h, parse_intercalate h]
  rw [hdiv, str, if_neg (by simp), String.empty_append]

example : parse "a//b/./c" = ⟨"", ["a", "b", "c"]⟩ := by decide
example : (div (parse "a/b") "c").str = "a/b/c" := by decide

end PurePath

end TitoOS

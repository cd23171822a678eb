import Mathlib.Data.List.Basic
import Mathlib.Data.List.DropRight

/-!
# Text

The methods of Python strings that protocol code takes headers apart with:
`strip`, `partition`, `split` at a character, and `int` of a text. Of the
decimal digits only the ASCII ones are known to `int?`; a text in Latin-1 has no
others.
-/

namespace Text

/-! ## Taking text apart -/

/-- `str.isspace` of a character. -/
def isSpace (c : Char) : Bool :=
  [9, 10, 11, 12, 13, 28, 29, 30, 31, 32, 133, 160, 5760, 8192, 8193, 8194, 8195, 8196, 8197,
    8198, 8199, 8200, 8201, 8202, 8232, 8233, 8239, 8287, 12288].contains c.toNat

/-- Drop the characters that satisfy `p` at both ends. -/
def trim (p : Char → Bool) (cs : List Char) : List Char :=
  ((cs.dropWhile p).reverse.dropWhile p).reverse

/-- `s.strip()`. -/
def strip (s : String) : String := String.ofList (trim isSpace s.toList)

/-- What is left after dropping at both ends has nothing to drop at its start. -/
theorem trim_trim (p : Char → Bool) (cs : List Char) : trim p (trim p cs) = trim p cs := by
  have hstart : (trim p cs).dropWhile p = trim p cs := by
    rw [List.dropWhile_eq_self_iff]
    intro hpos
    -- what was dropped at the end was not at the start
    have hinitial : trim p cs <+: cs.dropWhile p := List.rdropWhile_prefix p (cs.dropWhile p)
    have hne : cs.dropWhile p ≠ [] := by
      intro hnil
      rw [hnil, List.prefix_nil] at hinitial
      simp [hinitial] at hpos
    have hhead := List.head_dropWhile_not p hne
    rw [List.head_eq_getElem] at hhead
    rw [hinitial.getElem hpos]
    simpa using hhead
  show ((trim p cs).dropWhile p).rdropWhile p = trim p cs
  rw [hstart]
  exact List.rdropWhile_idempotent p (cs.dropWhile p)

theorem strip_strip (s : String) : strip (strip s) = strip s := by
  simp only [strip, String.toList_ofList, trim_trim]

/-- `s.split(c)[0]`. -/
def upTo (c : Char) (s : String) : String := String.ofList (s.toList.takeWhile (· ≠ c))

/-- `s.partition(sep)`, for a separator that is not empty. -/
def partition (sep : List Char) : List Char → List Char × List Char × List Char
  | [] => ([], [], [])
  | c :: cs =>
    if sep.isPrefixOf (c :: cs) then ([], sep, (c :: cs).drop sep.length)
    else
      let (before, found, rest) := partition sep cs
      (c :: before, found, rest)

/-- The three parts make up the text again. -/
theorem partition_append (sep s : List Char) :
    (partition sep s).1 ++ ((partition sep s).2.1 ++ (partition sep s).2.2) = s := by
  induction s with
  | nil => rfl
  | cons c cs ih =>
    unfold partition
    split
    · rename_i hinitial
      obtain ⟨rest, hrest⟩ := List.isPrefixOf_iff_prefix.mp hinitial
      show [] ++ (sep ++ (c :: cs).drop sep.length) = c :: cs
      rw [← hrest, List.drop_left, List.nil_append]
    · exact congrArg (c :: ·) ih

/-- The text is parted at the first occurrence of the separator. -/
theorem partition_of_not_mem {c : Char} {sep before : List Char} (h : c ∉ before)
    (rest : List Char) :
    partition (c :: sep) (before ++ (c :: sep ++ rest)) = (before, c :: sep, rest) := by
  induction before with
  | nil =>
    have hinitial : (c :: sep).isPrefixOf (c :: sep ++ rest) = true :=
      List.isPrefixOf_iff_prefix.mpr (List.prefix_append ..)
    rw [List.nil_append, List.cons_append, partition, ← List.cons_append, if_pos hinitial,
      List.drop_left]
  | cons b before ih =>
    obtain ⟨hne, hbefore⟩ := not_or.mp (fun hmem => h (List.mem_cons.mpr hmem))
    have hinitial : ¬ (c :: sep).isPrefixOf (b :: (before ++ (c :: sep ++ rest))) = true := by
      simp [hne]
    rw [List.cons_append, partition, if_neg hinitial, ih hbefore]

/-- Without the separator, nothing comes after it. -/
theorem partition_found (sep s : List Char) :
    (partition sep s).2.1 = sep ∨ (partition sep s).2.2 = [] := by
  induction s with
  | nil => exact .inr rfl
  | cons c cs ih =>
    unfold partition
    split
    · exact .inl rfl
    · exact ih

/-! ## Reading numbers -/

/-- What `int` skips at both ends: of the ASCII characters, only those that are
spaces in C. -/
def isIntSpace (c : Char) : Bool := isSpace c && !(28 ≤ c.toNat && c.toNat ≤ 31)

/-- A decimal digit. -/
def isDigit (c : Char) : Bool := 48 ≤ c.toNat && c.toNat ≤ 57

/-- A sequence of digits, with single underscores between them. -/
def digits : List Char → Option (List Char)
  | [] => none
  | [c] => if isDigit c then some [c] else none
  | c :: d :: rest =>
    if !isDigit c then none
    else if d = '_' then (digits rest).map (c :: ·)
    else (digits (d :: rest)).map (c :: ·)

/-- `sys.get_int_max_str_digits()`. -/
def MAX_STR_DIGITS : Nat := 4300

/-- A natural number in decimals. -/
def natural (cs : List Char) : Option Nat :=
  match digits cs with
  | some ds =>
    if ds.length ≤ MAX_STR_DIGITS then some (ds.foldl (fun n c => 10 * n + (c.toNat - 48)) 0)
    else none
  | none => none

/-- `int(s)`, or that it raises a `ValueError`. -/
def int? (s : String) : Option Int :=
  match trim isIntSpace s.toList with
  | '+' :: cs => (natural cs).map fun n => (n : Int)
  | '-' :: cs => (natural cs).map fun n => -(n : Int)
  | cs => (natural cs).map fun n => (n : Int)

end Text

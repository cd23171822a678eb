import Mathlib.Data.List.Infix

/-!
# Suffix patterns

A list of patterns over words, with a letter `dot`: a word matches a pattern
that it is, and the pattern `dot :: d`, if `d` is not empty and does not begin
with `dot`, also matches `d` and every word that ends with the pattern
(`Wildcard.Matches`).

`Wildcard.Admits` is a test that takes shortcuts: it tries the suffix for every
pattern that begins with `dot`, and strips all the dots at once. It admits
nothing else than what matches if every pattern that begins with `dot` ends with
one of the proper form (`Matches.of_admits`), and only then, as words long
enough show (`covered_of_matches`).
-/

namespace Wildcard

variable {α : Type} {dot : α} {patterns : List (List α)} {e h d : List α}

/-- A pattern that also stands for what ends with it: a dot and a word that is
not empty and does not begin with one. -/
def IsSuffixPattern (dot : α) (e : List α) : Prop :=
  ∃ d, e = dot :: d ∧ d ≠ [] ∧ d.head? ≠ some dot

/-- The word is one of the patterns, or ends in one with or without its dot. -/
def Matches (dot : α) (patterns : List (List α)) (h : List α) : Prop :=
  ∃ e ∈ patterns, h = e ∨ IsSuffixPattern dot e ∧ (h = e.tail ∨ e <:+ h)

/-- Some pattern of the proper form is a suffix of `e`. -/
def Covered (dot : α) (patterns : List (List α)) (e : List α) : Prop :=
  ∃ e' ∈ patterns, IsSuffixPattern dot e' ∧ e' <:+ e

theorem Matches.of_covered (hcovered : Covered dot patterns e) (hsuffix : e <:+ h) :
    Matches dot patterns h := by
  obtain ⟨e', hmem, hproper, hsuffix'⟩ := hcovered
  exact ⟨e', hmem, .inr ⟨hproper, .inr (hsuffix'.trans hsuffix)⟩⟩

/-- Every pattern list has a length that no pattern reaches. -/
theorem exists_length_lt (patterns : List (List α)) : ∃ n, ∀ e ∈ patterns, e.length < n := by
  induction patterns with
  | nil => exact ⟨0, nofun⟩
  | cons e rest ih =>
    obtain ⟨n, hn⟩ := ih
    refine ⟨n + e.length + 1, fun e' he' => ?_⟩
    rcases List.mem_cons.mp he' with rfl | he'
    · omega
    · have hlt := hn e' he'
      omega

/-- **A long word in front of a pattern tells**: if it matches, a pattern of the
proper form is at the end of that pattern. -/
theorem covered_of_matches {a : α} (ha : a ≠ dot) {n : Nat} (hn : ∀ e ∈ patterns, e.length < n)
    (hmatches : Matches dot patterns (List.replicate n a ++ e)) : Covered dot patterns e := by
  obtain ⟨e', hmem, hend⟩ := hmatches
  have hlt := hn e' hmem
  rcases hend with heq | ⟨hproper, heq | hsuffix⟩
  · have hlength := congrArg List.length heq
    simp only [List.length_append, List.length_replicate] at hlength
    omega
  · have hlength := congrArg List.length heq
    simp only [List.length_append, List.length_replicate, List.length_tail] at hlength
    omega
  · refine ⟨e', hmem, hproper, ?_⟩
    rcases List.suffix_or_suffix_of_suffix hsuffix (List.suffix_append (List.replicate n a) e) with
      hinside | hover
    · exact hinside
    · -- then the pattern begins among the new letters, which are no dots
      obtain ⟨d, rfl, -⟩ := hproper
      obtain ⟨front, hfront⟩ := hover
      cases front with
      | nil => exact ⟨[], hfront.symm⟩
      | cons b front =>
        obtain ⟨rfl, -⟩ := List.cons.inj hfront
        obtain ⟨w, hw⟩ := hsuffix
        rw [← hfront, ← List.append_assoc] at hw
        have hletters := List.append_cancel_right hw
        have hmember : b ∈ List.replicate n a := by
          rw [← hletters]
          simp
        exact absurd (List.eq_of_mem_replicate hmember).symm ha

variable [DecidableEq α]

/-- The test with its shortcuts. -/
def Admits (dot : α) (e h : List α) : Prop :=
  h = e ∨ e.head? = some dot ∧ e <:+ h ∨ h = e.dropWhile (· = dot)

/-- Without a leading dot there is nothing to strip. -/
theorem dropWhile_of_head? (he : e.head? ≠ some dot) : e.dropWhile (· = dot) = e := by
  cases e with
  | nil => rfl
  | cons a rest =>
    have hne : ¬ a = dot := fun heq => he (by rw [heq, List.head?_cons])
    rw [List.dropWhile_cons, if_neg (by simpa using hne)]

/-- A pattern of the proper form at the end of `e` has, without its dot, all of
`e` but its leading dots, or is at the end of that. -/
theorem IsSuffixPattern.stripped {e' : List α} (h' : IsSuffixPattern dot e') (hsuffix : e' <:+ e) :
    e.dropWhile (· = dot) = e'.tail ∨ e' <:+ e.dropWhile (· = dot) := by
  obtain ⟨d, rfl, hd, hhead⟩ := h'
  induction e with
  | nil => simp at hsuffix
  | cons a rest ih =>
    rw [List.dropWhile_cons]
    split
    · rcases List.suffix_cons_iff.mp hsuffix with heq | hrest
      · obtain ⟨-, rfl⟩ := List.cons.inj heq
        exact .inl (dropWhile_of_head? hhead)
      · exact ih hrest
    · exact .inr hsuffix

/-- **The test admits nothing else**, if every pattern that begins with a dot
ends with one of the proper form. -/
theorem Matches.of_admits (hmem : e ∈ patterns)
    (hcovered : e.head? = some dot → Covered dot patterns e) (hadmits : Admits dot e h) :
    Matches dot patterns h := by
  rcases hadmits with rfl | ⟨hdot, hsuffix⟩ | rfl
  · exact ⟨h, hmem, .inl rfl⟩
  · exact .of_covered (hcovered hdot) hsuffix
  · by_cases hdot : e.head? = some dot
    · obtain ⟨e', hmem', hproper, hsuffix⟩ := hcovered hdot
      rcases hproper.stripped hsuffix with htail | hend
      · exact ⟨e', hmem', .inr ⟨hproper, .inl htail⟩⟩
      · exact ⟨e', hmem', .inr ⟨hproper, .inr hend⟩⟩
    · exact ⟨e, hmem, .inl (dropWhile_of_head? hdot)⟩

/-- **It admits everything that matches.** -/
theorem Matches.admits (hmatches : Matches dot patterns h) : ∃ e ∈ patterns, Admits dot e h := by
  obtain ⟨e, hmem, rfl | ⟨⟨d, rfl, -, hhead⟩, rfl | hsuffix⟩⟩ := hmatches
  · exact ⟨h, hmem, .inl rfl⟩
  · refine ⟨_, hmem, .inr (.inr ?_)⟩
    rw [List.dropWhile_cons, if_pos (by simp), dropWhile_of_head? hhead]
  · exact ⟨_, hmem, .inr (.inl ⟨rfl, hsuffix⟩)⟩

end Wildcard

import Mathlib.Data.List.Basic

/-!
# Runs of a labelled transition system

`Runs next s es t`: from state `s` the events `es`, in this order, lead to `t`.
A run grows at its end, so an invariant that mentions the whole history is
proved by one step lemma (`Runs.invariant_history`), and a fact about one event
of a run is a fact about the state the run had reached by then (`Runs.event`).
-/

variable {S E : Type}

/-- The runs of the system whose steps are `next`. -/
inductive Runs (next : S → E → S → Prop) (s : S) : List E → S → Prop
  | nil : Runs next s [] s
  | snoc {es : List E} {e : E} {t u : S} :
      Runs next s es t → next t e u → Runs next s (es ++ [e]) u

namespace Runs

variable {next : S → E → S → Prop} {s t u : S} {es fs : List E} {e : E}

theorem append (h : Runs next s es t) (h' : Runs next t fs u) : Runs next s (es ++ fs) u := by
  induction h' with
  | nil => simpa using h
  | snoc _ hnext ih => rw [← List.append_assoc]; exact .snoc ih hnext

theorem cons (h : next s e t) (h' : Runs next t es u) : Runs next s (e :: es) u := by
  simpa using append (Runs.nil.snoc h) h'

theorem mono {next' : S → E → S → Prop} (hsub : ∀ s e t, next s e t → next' s e t)
    (h : Runs next s es t) : Runs next' s es t := by
  induction h with
  | nil => exact .nil
  | snoc _ hnext ih => exact .snoc ih (hsub _ _ _ hnext)

/-- A run of `es ++ fs` is a run of `es` followed by one of `fs`. -/
theorem split (h : Runs next s (es ++ fs) u) : ∃ t, Runs next s es t ∧ Runs next t fs u := by
  generalize hl : es ++ fs = l at h
  induction h generalizing fs with
  | nil =>
    obtain ⟨rfl, rfl⟩ := List.append_eq_nil_iff.mp hl
    exact ⟨s, .nil, .nil⟩
  | @snoc es' e t u hrun hnext ih =>
    rcases List.eq_nil_or_concat fs with rfl | ⟨gs, g, rfl⟩
    · rw [List.append_nil] at hl
      exact ⟨u, hl ▸ .snoc hrun hnext, .nil⟩
    · rw [List.concat_eq_append, ← List.append_assoc] at hl
      obtain ⟨hl', hg⟩ := List.append_inj' hl rfl
      cases hg
      obtain ⟨v, hv, hv'⟩ := ih hl'
      exact ⟨v, hv, by rw [List.concat_eq_append]; exact .snoc hv' hnext⟩

/-- The last step of a run. -/
theorem last (h : Runs next s (es ++ [e]) u) : ∃ t, Runs next s es t ∧ next t e u := by
  generalize hl : es ++ [e] = l at h
  cases h with
  | nil => simp at hl
  | snoc hrun hnext =>
    obtain ⟨rfl, he⟩ := List.append_inj' hl rfl
    cases he
    exact ⟨_, hrun, hnext⟩

/-- The step a run makes at one of its events. -/
theorem event (h : Runs next s (es ++ e :: fs) u) :
    ∃ t t', Runs next s es t ∧ next t e t' ∧ Runs next t' fs u := by
  rw [← List.singleton_append, ← List.append_assoc] at h
  obtain ⟨t', hpre, hpost⟩ := split h
  obtain ⟨t, hpre, hstep⟩ := last hpre
  exact ⟨t, t', hpre, hstep, hpost⟩

/-- **Invariant induction.** -/
theorem invariant {I : S → Prop} (hstep : ∀ s e t, I s → next s e t → I t)
    (h : Runs next s es t) (hs : I s) : I t := by
  induction h with
  | nil => exact hs
  | snoc _ hnext ih => exact hstep _ _ _ ih hnext

/-- **Invariant induction with history.** -/
theorem invariant_history {I : List E → S → Prop}
    (hstep : ∀ es s e t, I es s → next s e t → I (es ++ [e]) t)
    (h : Runs next s es t) (hs : I [] s) : I es t := by
  induction h with
  | nil => exact hs
  | snoc _ hnext ih => exact hstep _ _ _ _ ih hnext

/-! ### What a state can lead to -/

/-- Events that meet `P` can lead from `s` to a state that meets `Q`. -/
def Leads (next : S → E → S → Prop) (P : E → Prop) (Q : S → Prop) (s : S) : Prop :=
  ∃ es t, Runs next s es t ∧ (∀ e ∈ es, P e) ∧ Q t

namespace Leads

variable {P : E → Prop} {Q R : S → Prop}

theorem here (h : Q s) : Leads next P Q s := ⟨[], s, .nil, by simp, h⟩

theorem step (hnext : next s e t) (he : P e) (h : Leads next P Q t) : Leads next P Q s := by
  obtain ⟨es, u, hrun, hes, hu⟩ := h
  exact ⟨e :: es, u, hrun.cons hnext, by simpa using ⟨he, hes⟩, hu⟩

theorem trans (h : Leads next P Q s) (h' : ∀ t, Q t → Leads next P R t) : Leads next P R s := by
  obtain ⟨es, t, hrun, hes, ht⟩ := h
  obtain ⟨fs, u, hrun', hfs, hu⟩ := h' t ht
  exact ⟨es ++ fs, u, hrun.append hrun', fun e he =>
    (List.mem_append.mp he).elim (hes e) (hfs e), hu⟩

theorem mono (h : Leads next P Q s) (h' : ∀ t, Q t → R t) : Leads next P R s :=
  h.trans fun t ht => here (h' t ht)

/-- What a measure leads down to: each state with `I` that does not meet `Q` has a
step to a smaller one. -/
theorem of_measure {I : S → Prop} (measure : S → Nat)
    (hstep : ∀ s, I s → ¬Q s → ∃ e t, P e ∧ next s e t ∧ I t ∧ measure t < measure s)
    (hs : I s) : Leads next P Q s := by
  induction hn : measure s using Nat.strongRecOn generalizing s with
  | ind n ih =>
    by_cases hQ : Q s
    · exact here hQ
    · obtain ⟨e, t, he, hnext, ht, hlt⟩ := hstep s hs hQ
      exact step hnext he (ih (measure t) (hn ▸ hlt) ht rfl)

end Leads

/-! ### Steps that meet a condition -/

/-- The steps whose state and event meet `P`. -/
def Restricted (next : S → E → S → Prop) (P : S → E → Prop) (s : S) (e : E) (t : S) : Prop :=
  next s e t ∧ P s e

theorem of_restricted {P : S → E → Prop} (h : Runs (Restricted next P) s es t) :
    Runs next s es t :=
  h.mono fun _ _ _ hnext => hnext.1

/-- **Conditional safety**: where an invariant is kept by the steps that meet
`P`, and gives `Q` of each of them, a run of such steps meets `Q` throughout. -/
theorem restricted {P Q : S → E → Prop} {I : S → Prop}
    (hstep : ∀ s e t, I s → next s e t → P s e → Q s e ∧ I t)
    (h : Runs (Restricted next P) s es t) (hs : I s) : Runs (Restricted next Q) s es t ∧ I t := by
  induction h with
  | nil => exact ⟨.nil, hs⟩
  | snoc _ hnext ih =>
    obtain ⟨hrun, hI⟩ := ih
    obtain ⟨hQ, hI'⟩ := hstep _ _ _ hI hnext.1 hnext.2
    exact ⟨.snoc hrun ⟨hnext.1, hQ⟩, hI'⟩

/-- The runs of a step function are computed by it. -/
theorem iff_foldlM {f : S → E → Option S} :
    Runs (fun s e t => f s e = some t) s es t ↔ es.foldlM f s = some t := by
  constructor
  · intro h
    induction h with
    | nil => rfl
    | snoc _ hnext ih => simp [List.foldlM_append, ih, hnext]
  · intro h
    induction es generalizing s with
    | nil =>
      obtain rfl : s = t := by simpa using h
      exact .nil
    | cons e es ih =>
      rw [List.foldlM_cons] at h
      cases hnext : f s e with
      | none => rw [hnext] at h; cases h
      | some u =>
        rw [hnext] at h
        exact .cons hnext (ih h)

theorem restricted_of_foldlM {f : S → E → Option S} {P : S → E → Prop}
    [∀ s e, Decidable (P s e)]
    (h : es.foldlM (fun s e => if P s e then f s e else none) s = some t) :
    Runs (Restricted (fun s e t => f s e = some t) P) s es t := by
  refine (iff_foldlM.mpr h).mono fun s e t hnext => ?_
  by_cases hP : P s e
  · exact ⟨by rwa [if_pos hP] at hnext, hP⟩
  · rw [if_neg hP] at hnext
    cases hnext

end Runs

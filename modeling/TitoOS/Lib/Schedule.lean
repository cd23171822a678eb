import Mathlib.Data.List.Basic

/-!
# Schedules

A system of threads moves by `step i s`: thread `i` makes its next atomic
action in state `s`. A schedule is the list of threads in the order in which
they move, and `exec` runs it. Nothing says which schedules can happen: what is
proved here holds of every one.

`trace` records what the moves of a schedule emit. `Faithful` says that each
thread has a fixed list of items left to emit, which its own moves shorten and
the moves of the others leave alone; then every complete schedule, whatever its
order, emits exactly each thread's own list (`Faithful.trace_project`), and of a
class of items that a single thread emits exactly what that thread had left
(`Faithful.emitted_filter`).
-/

namespace Schedule

variable {ι S α : Type}

/-- Run a schedule. -/
def exec (step : ι → S → S) : List ι → S → S
  | [], s => s
  | i :: rest, s => exec step rest (step i s)

@[simp] theorem exec_nil (step : ι → S → S) (s : S) : exec step [] s = s := rfl

theorem exec_append (step : ι → S → S) (l m : List ι) (s : S) :
    exec step (l ++ m) s = exec step m (exec step l s) := by
  induction l generalizing s with
  | nil => rfl
  | cons i rest ih => exact ih (step i s)

/-- The items emitted along a schedule, each with the thread that emitted it. -/
def trace (step : ι → S → S) (emit : ι → S → List α) : List ι → S → List (ι × α)
  | [], _ => []
  | i :: rest, s => (emit i s).map (i, ·) ++ trace step emit rest (step i s)

theorem trace_append (step : ι → S → S) (emit : ι → S → List α) (l m : List ι) (s : S) :
    trace step emit (l ++ m) s = trace step emit l s ++ trace step emit m (exec step l s) := by
  induction l generalizing s with
  | nil => rfl
  | cons i rest ih =>
    show _ ++ trace step emit (rest ++ m) (step i s) = (_ ++ _) ++ _
    rw [ih, List.append_assoc]
    rfl

/-- The items emitted along a schedule. -/
def emitted (step : ι → S → S) (emit : ι → S → List α) (sched : List ι) (s : S) : List α :=
  (trace step emit sched s).map Prod.snd

@[simp] theorem emitted_nil (step : ι → S → S) (emit : ι → S → List α) (s : S) :
    emitted step emit [] s = [] := rfl

theorem emitted_cons (step : ι → S → S) (emit : ι → S → List α) (i : ι) (rest : List ι) (s : S) :
    emitted step emit (i :: rest) s = emit i s ++ emitted step emit rest (step i s) := by
  simp [emitted, trace, Function.comp_def]

/-- **Invariant induction.** What every move preserves holds after every
schedule. -/
theorem exec_induction {step : ι → S → S} {I : S → Prop} (hstep : ∀ i s, I s → I (step i s))
    (sched : List ι) {s : S} (h : I s) : I (exec step sched s) := by
  induction sched generalizing s with
  | nil => exact h
  | cons i rest ih => exact ih (hstep i s h)

/-- **Invariant induction with history**: an invariant over the state and what
has been emitted so far. -/
theorem exec_emitted_induction {step : ι → S → S} {emit : ι → S → List α}
    {I : S → List α → Prop} (hstep : ∀ i s log, I s log → I (step i s) (log ++ emit i s))
    (sched : List ι) {s : S} {log : List α} (h : I s log) :
    I (exec step sched s) (log ++ emitted step emit sched s) := by
  induction sched generalizing s log with
  | nil => simpa using h
  | cons i rest ih =>
    rw [emitted_cons, ← List.append_assoc]
    exact ih (hstep i s log h)

/-- **Invariant induction with the trace**: as `exec_emitted_induction`, with
the thread of each item. -/
theorem exec_trace_induction {step : ι → S → S} {emit : ι → S → List α}
    {I : S → List (ι × α) → Prop}
    (hstep : ∀ i s log, I s log → I (step i s) (log ++ (emit i s).map (i, ·)))
    (sched : List ι) {s : S} {log : List (ι × α)} (h : I s log) :
    I (exec step sched s) (log ++ trace step emit sched s) := by
  induction sched generalizing s log with
  | nil => simpa [trace] using h
  | cons i rest ih =>
    rw [trace, ← List.append_assoc]
    exact ih (hstep i s log h)

/-! ## Order-independent emissions -/

section Faithful

variable [DecidableEq ι]

/-- Under the invariant `I`, thread `i` is going to emit exactly `due i`. -/
structure Faithful (step : ι → S → S) (emit : ι → S → List α) (I : S → Prop)
    (due : ι → S → List α) : Prop where
  keeps : ∀ i s, I s → I (step i s)
  own : ∀ i s, I s → due i s = emit i s ++ due i (step i s)
  other : ∀ i j s, I s → j ≠ i → due j (step i s) = due j s

variable {step : ι → S → S} {emit : ι → S → List α} {I : S → Prop} {due : ι → S → List α}

/-- Projected to one thread, a schedule emits what that thread had due, up to
what it still has due at the end. -/
theorem Faithful.trace_project (h : Faithful step emit I due) (sched : List ι) {s : S}
    (hs : I s) (i : ι) :
    due i s = ((trace step emit sched s).filter (·.1 = i)).map Prod.snd
      ++ due i (exec step sched s) := by
  induction sched generalizing s with
  | nil => simp [trace]
  | cons j rest ih =>
    have hrest := ih (h.keeps j s hs)
    by_cases hij : j = i
    · subst hij
      have hall : ((emit j s).map (j, ·)).filter (fun p => p.1 = j) = (emit j s).map (j, ·) := by
        rw [List.filter_eq_self]
        simp
      rw [h.own j s hs, hrest]
      simp [trace, exec, List.filter_append, hall, Function.comp_def]
    · have hnone : ((emit j s).map (j, ·)).filter (fun p => p.1 = i) = [] := by
        rw [List.filter_eq_nil_iff]
        simp [hij]
      rw [← h.other j i s hs (Ne.symm hij), hrest]
      simp [trace, exec, List.filter_append, hnone]

/-- **Order independence**: if only thread `i` has items of class `p` due, every
complete schedule emits exactly those of that class, in that order. -/
theorem Faithful.emitted_filter (h : Faithful step emit I due) (sched : List ι) {s : S}
    (hs : I s) (hdone : ∀ j, due j (exec step sched s) = []) {p : α → Bool} {i : ι}
    (hi : ∀ j, j ≠ i → (due j s).filter p = []) :
    (emitted step emit sched s).filter p = (due i s).filter p := by
  have hown : ∀ e ∈ trace step emit sched s, p e.2 = true → e.1 = i := by
    intro e he hp
    by_contra hne
    have hdue := h.trace_project sched hs e.1
    rw [hdone, List.append_nil] at hdue
    have hmem : e.2 ∈ (due e.1 s).filter p := by
      rw [hdue, List.mem_filter]
      exact ⟨List.mem_map.mpr ⟨e, by simp [he], rfl⟩, hp⟩
    rw [hi e.1 hne] at hmem
    cases hmem
  have hdue := h.trace_project sched hs i
  rw [hdone, List.append_nil] at hdue
  rw [hdue, emitted, List.filter_map, List.filter_map, List.filter_filter]
  congr 1
  refine List.filter_congr (fun e he => ?_)
  by_cases hp : p e.2 = true
  · simp [hp, hown e he hp]
  · simp [hp]

end Faithful

end Schedule

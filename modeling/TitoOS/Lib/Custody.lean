import Mathlib.Data.List.Basic

/-!
# Resources in custody

Resources that are acquired and have to be released, once each. An event of a
history does something to at most one of them (`turn?`); `standing` follows a
resource through its turns, and `Holds S` says that exactly the resources `S`
are held and nothing has gone wrong.
-/

/-- What happens to a resource. -/
inductive Turn where
  | acquired
  | released
  deriving DecidableEq

namespace Turn

/-- Whether the resource is held after one more turn: none, once it has been
acquired while it was held or released while it was not. -/
def step : Option Bool → Turn → Option Bool
  | some false, acquired => some true
  | some true, released => some false
  | _, _ => none

/-- Whether the resource is held after all its turns. -/
def standing (ts : List Turn) : Option Bool := ts.foldl step (some false)

theorem standing_concat (ts : List Turn) (t : Turn) :
    standing (ts ++ [t]) = step (standing ts) t := by
  simp [standing]

/-- A round: acquired, and released. -/
def rounds (n : Nat) : List Turn := (List.replicate n [acquired, released]).flatten

private theorem foldl_step_none (ts : List Turn) : ts.foldl step none = none := by
  induction ts with
  | nil => rfl
  | cons t ts ih => cases t <;> exact ih

theorem standing_rounds (n : Nat) : standing (rounds n) = some false := by
  induction n with
  | zero => rfl
  | succ n ih => exact ih

/-- A resource that is not held in the end has been released once for each time
it was acquired, right after. -/
theorem exists_rounds : ∀ {ts : List Turn}, standing ts = some false → ∃ n, ts = rounds n
  | [], _ => ⟨0, rfl⟩
  | [acquired], h => nomatch h
  | released :: ts, h => by
    rw [standing, List.foldl_cons, show step (some false) released = none from rfl,
      foldl_step_none] at h
    cases h
  | acquired :: acquired :: ts, h => by
    rw [standing, List.foldl_cons, List.foldl_cons,
      show step (step (some false) acquired) acquired = none from rfl, foldl_step_none] at h
    cases h
  | acquired :: released :: ts, h => by
    have hrest : standing ts = some false := h
    obtain ⟨n, rfl⟩ := exists_rounds hrest
    exact ⟨n + 1, rfl⟩

end Turn

namespace Custody

variable {E R : Type} [DecidableEq R] (turn? : E → Option (R × Turn))

/-- The turns of the resource `r`. -/
def turns (r : R) (es : List E) : List Turn :=
  es.filterMap fun e => (turn? e).bind fun turn => if turn.1 = r then some turn.2 else none

/-- Whether `r` is held: none, once something has gone wrong with it. -/
def standing (r : R) (es : List E) : Option Bool := Turn.standing (turns turn? r es)

/-- Nothing was acquired while it was held, or released while it was not. -/
def Orderly (es : List E) : Prop := ∀ r, standing turn? r es ≠ none

/-- **Exactly once**: every resource has been released once for each time it was
acquired, before anything else happened to it. -/
def ReleasedOnce (es : List E) : Prop := ∀ r, ∃ n, turns turn? r es = Turn.rounds n

/-- Exactly the resources `S` are held, and all has been in order. -/
def Holds (S : List R) (es : List E) : Prop := ∀ r, standing turn? r es = some (decide (r ∈ S))

/-- Something has gone wrong. -/
def Spoilt (es : List E) : Prop := ∃ r, standing turn? r es = none

variable {turn?} {S : List R} {es : List E} {e : E} {r : R}

theorem standing_concat_none (h : turn? e = none) (r : R) :
    standing turn? r (es ++ [e]) = standing turn? r es := by
  simp [standing, turns, h]

theorem standing_concat_self {t : Turn} (h : turn? e = some (r, t)) :
    standing turn? r (es ++ [e]) = Turn.step (standing turn? r es) t := by
  rw [standing, turns, List.filterMap_append, List.filterMap_cons, h]
  simpa [standing, turns] using Turn.standing_concat _ t

theorem standing_concat_ne {t : Turn} {x : R} (h : turn? e = some (r, t)) (hx : r ≠ x) :
    standing turn? x (es ++ [e]) = standing turn? x es := by
  simp [standing, turns, h, hx]

theorem releasedOnce_iff : ReleasedOnce turn? es ↔ Holds turn? [] es := by
  constructor
  · intro h r
    obtain ⟨n, hn⟩ := h r
    rw [standing, hn, Turn.standing_rounds]
    rfl
  · exact fun h r => Turn.exists_rounds (h r)

theorem Holds.orderly (h : Holds turn? S es) : Orderly turn? es := fun r hnone => by
  rw [h r] at hnone
  cases hnone

theorem Holds.not_spoilt (h : Holds turn? S es) : ¬Spoilt turn? es := fun ⟨r, hnone⟩ =>
  h.orderly r hnone

theorem holds_nil : Holds turn? [] ([] : List E) := fun _ => rfl

/-- The resources may be named in any order. -/
theorem Holds.congr {S' : List R} (h : Holds turn? S es) (hS : ∀ r, r ∈ S ↔ r ∈ S') :
    Holds turn? S' es := fun r => by
  rw [h r, decide_eq_decide.mpr (hS r)]

theorem Holds.other (h : Holds turn? S es) (he : turn? e = none) : Holds turn? S (es ++ [e]) :=
  fun r => (standing_concat_none he r).trans (h r)

/-- A turn that is in order changes who holds its resource, and no other. -/
theorem Holds.turned {S' : List R} {t : Turn} (h : Holds turn? S es) (he : turn? e = some (r, t))
    (hr : Turn.step (some (decide (r ∈ S))) t = some (decide (r ∈ S')))
    (hrest : ∀ x, r ≠ x → (x ∈ S ↔ x ∈ S')) : Holds turn? S' (es ++ [e]) := fun x => by
  by_cases hx : r = x
  · subst hx
    rw [standing_concat_self he, h r, hr]
  · rw [standing_concat_ne he hx, h x, decide_eq_decide.mpr (hrest x hx)]

theorem Holds.acquire (h : Holds turn? S es) (he : turn? e = some (r, .acquired)) (hr : r ∉ S) :
    Holds turn? (r :: S) (es ++ [e]) :=
  h.turned he (by simp [hr, Turn.step]) fun x hx => by simp [Ne.symm hx]

theorem Holds.release (h : Holds turn? (r :: S) es) (he : turn? e = some (r, .released))
    (hr : r ∉ S) : Holds turn? S (es ++ [e]) :=
  h.turned he (by simp [hr, Turn.step]) fun x hx => by simp [Ne.symm hx]

/-- To release what is not held spoils it. -/
theorem Holds.spoilt (h : Holds turn? S es) (he : turn? e = some (r, .released)) (hr : r ∉ S) :
    Spoilt turn? (es ++ [e]) := by
  refine ⟨r, ?_⟩
  rw [standing_concat_self he, h r]
  simp [hr, Turn.step]

/-- It stays spoilt. -/
theorem Spoilt.later (h : Spoilt turn? es) (e : E) : Spoilt turn? (es ++ [e]) := by
  obtain ⟨r, hr⟩ := h
  refine ⟨r, ?_⟩
  rcases hturn : turn? e with - | ⟨x, t⟩
  · rw [standing_concat_none hturn, hr]
  · by_cases hx : x = r
    · subst hx
      rw [standing_concat_self hturn, hr]
      cases t <;> rfl
    · rw [standing_concat_ne hturn hx, hr]

end Custody

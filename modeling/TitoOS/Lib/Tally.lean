import Mathlib.Algebra.BigOperators.Group.Finset.Piecewise
import Mathlib.Algebra.Order.Monoid.Defs
import Mathlib.Data.List.Induction
import Mathlib.Data.List.Nodup
import Mathlib.Tactic.Abel

/-!
# Tallies

What lists of items weigh, when an item's weight is a value of a commutative
monoid and may depend on the address it is at. A log of addressed items weighs
what the addresses have received (`Tally.log_eq_sum`), and a sum over positions
changes at one position at a time (`Tally.sum_update`).

A `Balance` says when the two sides of an account agree: exactly, or with less
on the one side than on the other.
-/

/-- When what is left is within what there was. -/
structure Balance (M : Type) [AddCommMonoid M] where
  within : M → M → Prop
  refl : ∀ a, within a a
  add : ∀ {a b c d}, within a b → within c d → within (a + c) (b + d)
  cancel : ∀ {a b c}, within (a + c) (b + c) → within a b

namespace Balance

variable {ι M : Type}

/-- Both sides are equal. -/
def exact (M : Type) [AddCancelCommMonoid M] : Balance M where
  within a b := a = b
  refl _ := rfl
  add h h' := by rw [h, h']
  cancel h := add_right_cancel h

/-- Some of what there was may be gone. -/
def atMost (M : Type) [AddCommMonoid M] [PartialOrder M] [IsOrderedCancelAddMonoid M] :
    Balance M where
  within a b := a ≤ b
  refl _ := le_rfl
  add := add_le_add
  cancel := le_of_add_le_add_right

variable [AddCommMonoid M] (r : Balance M)

theorem add_right {a b : M} (h : r.within a b) (c : M) : r.within (a + c) (b + c) :=
  r.add h (r.refl c)

/-- Two accounts in a row: what the first leaves is what the second starts from. -/
theorem trans {a b c l l' e e' : M} (h : r.within (b + l) (a + e))
    (h' : r.within (c + l') (b + e')) : r.within (c + (l + l')) (a + (e + e')) := by
  refine r.cancel (c := b) ?_
  have hboth := r.add h h'
  rwa [show b + l + (c + l') = c + (l + l') + b by abel,
    show a + e + (b + e') = a + (e + e') + b by abel] at hboth

theorem sum {s : Finset ι} {f g : ι → M} (h : ∀ i ∈ s, r.within (f i) (g i)) :
    r.within (∑ i ∈ s, f i) (∑ i ∈ s, g i) := by
  induction s using Finset.cons_induction with
  | empty => exact r.refl 0
  | cons i s hi ih =>
    rw [Finset.sum_cons, Finset.sum_cons]
    exact r.add (h i (by simp)) (ih fun j hj => h j (by simp [hj]))

end Balance

namespace Tally

variable {κ α M : Type} [AddCommMonoid M]

/-- What the items at the address `x` weigh. -/
def box (w : κ → α → M) (x : κ) (items : List α) : M := (items.map (w x)).sum

/-- What the items of a log weigh, each at its address. -/
def log (w : κ → α → M) (entries : List (κ × α)) : M := (entries.map fun e => w e.1 e.2).sum

section

variable (w : κ → α → M) (x : κ)

@[simp] theorem box_nil : box w x [] = 0 := rfl

@[simp] theorem box_cons (a : α) (items : List α) :
    box w x (a :: items) = w x a + box w x items := by
  simp [box]

@[simp] theorem box_append (l m : List α) : box w x (l ++ m) = box w x l + box w x m := by
  simp [box]

@[simp] theorem log_nil : log w ([] : List (κ × α)) = 0 := rfl

@[simp] theorem log_cons (e : κ × α) (entries : List (κ × α)) :
    log w (e :: entries) = w e.1 e.2 + log w entries := by
  simp [log]

@[simp] theorem log_append (l m : List (κ × α)) : log w (l ++ m) = log w l + log w m := by
  simp [log]

end

theorem sum_filter (p : α → Bool) (f : α → M) (l : List α) :
    ((l.filter p).map f).sum = (l.map fun a => if p a then f a else 0).sum := by
  induction l with
  | nil => rfl
  | cons a rest ih => cases hp : p a <;> simp [hp, ih]

/-- **A log weighs what its addresses have received.** -/
theorem log_eq_sum [DecidableEq κ] (w : κ → α → M) (names : Finset κ) {entries : List (κ × α)}
    (h : ∀ e ∈ entries, e.1 ∈ names) :
    log w entries
      = ∑ x ∈ names, box w x ((entries.filter fun e => e.1 = x).map Prod.snd) := by
  induction entries with
  | nil => simp
  | cons e rest ih =>
    have hrest := ih fun e' he' => h e' (by simp [he'])
    have hsplit : ∀ x, box w x (((e :: rest).filter fun e => e.1 = x).map Prod.snd)
        = (if e.1 = x then w e.1 e.2 else 0)
          + box w x ((rest.filter fun e => e.1 = x).map Prod.snd) := by
      intro x
      by_cases hx : e.1 = x
      · simp [hx]
      · simp [hx]
    have hone : ∑ x ∈ names, (if e.1 = x then w e.1 e.2 else 0) = w e.1 e.2 := by
      rw [Finset.sum_ite_eq, if_pos (h e (by simp))]
    simp only [hsplit, Finset.sum_add_distrib, log_cons, hrest, hone]

/-- **A sum over names is one over their bearers**, when the others count for
nothing. -/
theorem sum_names [DecidableEq κ] {name : α → κ} {bearers : List α} (h : (bearers.map name).Nodup)
    (names : Finset κ) (f : κ → M)
    (hothers : ∀ x ∈ names, (∀ a ∈ bearers, name a ≠ x) → f x = 0) :
    ∑ x ∈ names, f x = (bearers.map fun a => if name a ∈ names then f (name a) else 0).sum := by
  have hbearers : ∑ x ∈ names, f x = ∑ x ∈ (bearers.map name).toFinset,
      (if x ∈ names then f x else 0) := by
    rw [← Finset.sum_filter]
    symm
    refine Finset.sum_subset (fun x hx => (Finset.mem_filter.mp hx).2) fun x hx hno => ?_
    refine hothers x hx fun a ha hname => hno ?_
    rw [Finset.mem_filter, List.mem_toFinset]
    exact ⟨hname ▸ List.mem_map_of_mem ha, hx⟩
  rw [hbearers, List.sum_toFinset _ h, List.map_map]
  rfl

/-! ## Sums over positions -/

/-- The sum over a list, by positions. -/
theorem sum_getElem? (f : α → M) (l : List α) :
    ∑ i ∈ Finset.range l.length, (l[i]?).elim 0 f = (l.map f).sum := by
  induction l using List.reverseRecOn with
  | nil => rfl
  | append_singleton l a ih =>
    rw [List.length_append, List.length_singleton, Finset.sum_range_succ, List.map_append,
      List.sum_append]
    congr 1
    · rw [← ih]
      refine Finset.sum_congr rfl fun i hi => ?_
      rw [List.getElem?_append_left (Finset.mem_range.mp hi)]
    · simp

/-- A sum over the first positions is extended by what a list has further on. -/
theorem sum_extend (f : α → M) (g : ℕ → M) {l : List α} {n : ℕ} (h : n ≤ l.length) :
    ∑ i ∈ Finset.range l.length, (if i < n then g i else (l[i]?).elim 0 f)
      = ∑ i ∈ Finset.range n, g i + ((l.drop n).map f).sum := by
  have hlength : l.length = n + (l.drop n).length := by
    rw [List.length_drop]
    omega
  rw [hlength, Finset.sum_range_add, ← sum_getElem? f (l.drop n)]
  congr 1
  · refine Finset.sum_congr rfl fun i hi => ?_
    rw [if_pos (Finset.mem_range.mp hi)]
  · refine Finset.sum_congr rfl fun i _ => ?_
    rw [if_neg (by omega), List.getElem?_drop]

/-- One position hands out `out` and keeps the rest. -/
theorem sum_update {n i : Nat} (hi : i < n) {f : Nat → M} {out rest : M} (h : f i = out + rest) :
    ∑ j ∈ Finset.range n, f j = out + ∑ j ∈ Finset.range n, Function.update f i rest j := by
  have hmem : i ∈ Finset.range n := Finset.mem_range.mpr hi
  rw [Finset.sum_update_of_mem hmem, ← Finset.add_sum_erase _ f hmem, h, add_assoc,
    Finset.sdiff_singleton_eq_erase]

end Tally

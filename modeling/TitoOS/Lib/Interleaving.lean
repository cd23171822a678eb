import Mathlib.Data.List.Basic

/-!
# Merges of two lists

`Interleaving xs ys zs` says that `zs` is put together from `xs` and `ys`, each
in its own order. A list is such a merge of the elements that pass a test and
those that do not (`Interleaving.filter`), and the two parts of a list without
duplicates have nothing in common (`Interleaving.disjoint`).
-/

variable {α β : Type}

/-- `zs` is an order-preserving merge of `xs` and `ys`. -/
inductive Interleaving : List α → List α → List α → Prop
  | nil : Interleaving [] [] []
  | left {x : α} {xs ys zs : List α} : Interleaving xs ys zs → Interleaving (x :: xs) ys (x :: zs)
  | right {y : α} {xs ys zs : List α} : Interleaving xs ys zs → Interleaving xs (y :: ys) (y :: zs)

namespace Interleaving

variable {xs ys zs : List α}

theorem filter (p : α → Bool) (l : List α) :
    Interleaving (l.filter p) (l.filter fun a => !p a) l := by
  induction l with
  | nil => exact .nil
  | cons a rest ih =>
    cases h : p a with
    | true => simpa [h] using ih.left
    | false => simpa [h] using ih.right

theorem map (f : α → β) (h : Interleaving xs ys zs) :
    Interleaving (xs.map f) (ys.map f) (zs.map f) := by
  induction h with
  | nil => exact .nil
  | left _ ih => exact .left ih
  | right _ ih => exact .right ih

theorem mem_iff (h : Interleaving xs ys zs) {a : α} : a ∈ zs ↔ a ∈ xs ∨ a ∈ ys := by
  induction h with
  | nil => simp
  | left _ ih => simp only [List.mem_cons, ih, or_assoc]
  | right _ ih => simp only [List.mem_cons, ih, or_left_comm]

/-- The parts of a list without duplicates are disjoint. -/
theorem disjoint (h : Interleaving xs ys zs) (hzs : zs.Nodup) : xs.Disjoint ys := by
  induction h with
  | nil => exact List.disjoint_nil_left _
  | left hrest ih =>
    rw [List.nodup_cons] at hzs
    rw [List.disjoint_cons_left]
    exact ⟨fun hy => hzs.1 (hrest.mem_iff.mpr (.inr hy)), ih hzs.2⟩
  | right hrest ih =>
    rw [List.nodup_cons] at hzs
    rw [List.disjoint_cons_right]
    exact ⟨fun hx => hzs.1 (hrest.mem_iff.mpr (.inl hx)), ih hzs.2⟩

end Interleaving

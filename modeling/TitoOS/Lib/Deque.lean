import Mathlib.Data.List.DropRight

/-!
# Bounded queues

`collections.deque(maxlen=n)`: what is appended to a full queue pushes its
oldest item out. What it holds is the end of what it held with what was appended
(`items_append`, `items_extend`), and so of all that was ever appended to it
(`rtake_rtake_append`).
-/

/-- A queue of at most `maxlen` items, the oldest first. -/
structure Deque (α : Type) (maxlen : Nat) where
  items : List α
  length_le : items.length ≤ maxlen

namespace Deque

variable {α : Type} {maxlen : Nat}

instance : EmptyCollection (Deque α maxlen) := ⟨⟨[], Nat.zero_le _⟩⟩

/-- `append`. -/
def append (d : Deque α maxlen) (x : α) : Deque α maxlen where
  items := (d.items ++ [x]).drop (d.items.length + 1 - maxlen)
  length_le := by
    simp only [List.length_drop, List.length_append, List.length_singleton]
    omega

/-- `extend`. -/
def extend (d : Deque α maxlen) (xs : List α) : Deque α maxlen := xs.foldl append d

@[simp] theorem items_empty : (∅ : Deque α maxlen).items = [] := rfl

theorem items_append (d : Deque α maxlen) (x : α) :
    (d.append x).items = (d.items ++ [x]).rtake maxlen := by
  simp [append, List.rtake]

/-- The end of a log is all it takes to know the end of a longer one. -/
theorem rtake_rtake_append (n : Nat) (log more : List α) :
    (log.rtake n ++ more).rtake n = (log ++ more).rtake n := by
  have hdrop : log.rtake n ++ more = (log ++ more).drop (log.length - n) := by
    rw [List.drop_append_of_le_length (Nat.sub_le _ _), List.rtake]
  rw [hdrop, List.rtake, List.rtake, List.drop_drop, List.length_drop, List.length_append]
  congr 1
  omega

theorem rtake_items (d : Deque α maxlen) : d.items.rtake maxlen = d.items := by
  have := d.length_le
  rw [List.rtake, Nat.sub_eq_zero_of_le this, List.drop_zero]

theorem items_extend (d : Deque α maxlen) (xs : List α) :
    (d.extend xs).items = (d.items ++ xs).rtake maxlen := by
  induction xs generalizing d with
  | nil => rw [List.append_nil, rtake_items]; rfl
  | cons x rest ih =>
    have hrest := ih (d.append x)
    rw [items_append, rtake_rtake_append, List.append_assoc] at hrest
    exact hrest

/-- The last item of a log is at the end of it. -/
theorem mem_rtake_concat {n : Nat} (hn : 1 ≤ n) (log : List α) (x : α) :
    x ∈ (log ++ [x]).rtake n := by
  obtain ⟨m, rfl⟩ := Nat.exists_eq_add_of_le' hn
  rw [List.rtake_concat_succ]
  simp

end Deque

import TitoOS.Files.Writing
import Mathlib.Data.List.Induction
import Mathlib.Data.List.Infix

/-!
# Calls that overtake an append

What a schedule says of the order of the steps of the calls: which steps a call has
made (`Made`), and which step comes before which (`Before`). An append is overtaken
when another call flushes into its file after the append measured it and before it
flushes itself, or after the append made the file and before it measures it
(`Overtaken`). This is said of the schedule and the paths alone, whatever the files
hold and the calls write.
-/

namespace TitoOS

variable {sched pre : List WriteMove} {m : WriteMove} {k j n n' : Nat}

/-- How the steps of a call went. -/
def stepsOf (sched : List WriteMove) (k : Nat) : List (Option CallFault) :=
  (sched.filter (·.call = k)).map (·.fault)

/-- The call has made its first `n` steps, and none of them failed. -/
def Made (sched : List WriteMove) (k n : Nat) : Prop :=
  List.replicate n none <+: stepsOf sched k

/-- There is a moment at which call `k` has made its step `n` and call `j` has not
made its step `n'`. -/
def Before (sched : List WriteMove) (k n j n' : Nat) : Prop :=
  ∃ pre, pre <+: sched ∧ Made pre k n ∧ ¬ Made pre j n'

/-! ## The order of steps -/

theorem stepsOf_mono (h : pre <+: sched) (k : Nat) : stepsOf pre k <+: stepsOf sched k :=
  (h.filter _).map _

theorem stepsOf_concat_self (h : m.call = k) :
    stepsOf (pre ++ [m]) k = stepsOf pre k ++ [m.fault] := by
  simp [stepsOf, h]

theorem stepsOf_concat_ne (h : m.call ≠ k) : stepsOf (pre ++ [m]) k = stepsOf pre k := by
  simp [stepsOf, h]

namespace Made

theorem mono (h : Made pre k n) (hpre : pre <+: sched) : Made sched k n :=
  h.trans (stepsOf_mono hpre k)

theorem le (h : Made sched k n) (hle : n' ≤ n) : Made sched k n' := by
  have hsplit : List.replicate n (none : Option CallFault)
      = List.replicate n' none ++ List.replicate (n - n') none := by
    rw [List.replicate_append_replicate, Nat.add_sub_cancel' hle]
  exact (hsplit ▸ List.prefix_append _ _).trans h

theorem of_steps (h : stepsOf pre k = List.replicate n none) : Made pre k n := by
  rw [Made, h]

/-- Which steps a call has made that has made `n` and no more. -/
theorem iff_of_steps (h : stepsOf pre k = List.replicate n none) : Made pre k n' ↔ n' ≤ n := by
  constructor
  · intro hmade
    have hlength := hmade.length_le
    rwa [h, List.length_replicate, List.length_replicate] at hlength
  · exact (of_steps h).le

/-- Before its step `n`, a call that makes it has made some of its steps, and they
did not fail. -/
theorem steps_before (h : Made sched k n) (hpre : pre <+: sched) (hnot : ¬ Made pre k n) :
    ∃ c, c < n ∧ stepsOf pre k = List.replicate c none := by
  have hprefix : stepsOf pre k <+: List.replicate n none :=
    (List.prefix_or_prefix_of_prefix h (stepsOf_mono hpre k)).resolve_left hnot
  obtain ⟨hle, hsteps⟩ := List.prefix_replicate_iff.mp hprefix
  refine ⟨_, lt_of_le_of_ne hle fun heq => hnot ?_, hsteps⟩
  exact of_steps (heq ▸ hsteps)

/-- A call that makes its step `n` does not fail before. -/
theorem fault_eq_none (h : Made sched k n) (hpre : pre ++ [m] <+: sched) (hk : m.call = k)
    (hnot : ¬ Made pre k n) : m.fault = none := by
  obtain ⟨c, hc, hsteps⟩ := h.steps_before ((List.prefix_append pre [m]).trans hpre) hnot
  obtain ⟨rest, hrest⟩ := h
  obtain ⟨rest', hrest'⟩ := stepsOf_mono hpre k
  have hat := congrArg (·[c]?) (hrest.trans hrest'.symm)
  rw [stepsOf_concat_self hk, hsteps] at hat
  simpa [List.getElem?_append_left, hc, eq_comm] using hat

/-- The move that makes step `n`. -/
theorem exists_move (h : Made sched k n) (hn : 0 < n) :
    ∃ pre m, pre ++ [m] <+: sched ∧ m.call = k ∧ ¬ Made pre k n ∧ Made (pre ++ [m]) k n := by
  induction sched using List.reverseRecOn with
  | nil =>
    have hlength := h.length_le
    simp only [stepsOf, List.filter_nil, List.map_nil, List.length_replicate, List.length_nil]
      at hlength
    omega
  | append_singleton pre m ih =>
    by_cases hbefore : Made pre k n
    · obtain ⟨pre', m', hpre, rest⟩ := ih hbefore
      exact ⟨pre', m', hpre.trans (List.prefix_append pre [m]), rest⟩
    · refine ⟨pre, m, List.prefix_rfl, ?_, hbefore, h⟩
      by_contra hk
      exact hbefore (by rwa [Made, stepsOf_concat_ne hk] at h)

end Made

theorem steps_concat (h : stepsOf pre k = List.replicate n none) (hk : m.call = k)
    (hfault : m.fault = none) : stepsOf (pre ++ [m]) k = List.replicate (n + 1) none := by
  rw [stepsOf_concat_self hk, h, hfault, List.replicate_succ']

theorem made_concat_of_ne (hk : m.call ≠ k) : Made (pre ++ [m]) k n ↔ Made pre k n := by
  rw [Made, Made, stepsOf_concat_ne hk]

/-- One more step that does not fail. -/
theorem Made.concat (h : Made sched k (n + 1)) (hpre : pre ++ [m] <+: sched)
    (hbefore : Made pre k n) (hk : m.call = k) : Made (pre ++ [m]) k (n + 1) := by
  by_cases hmade : Made pre k (n + 1)
  · exact hmade.mono (List.prefix_append pre [m])
  · obtain ⟨c, hc, hsteps⟩ := h.steps_before ((List.prefix_append pre [m]).trans hpre) hmade
    have hle : n ≤ c := (iff_of_steps hsteps).mp hbefore
    obtain rfl : c = n := by omega
    exact of_steps (steps_concat hsteps hk (h.fault_eq_none hpre hk hmade))

namespace Before

theorem mono (h : Before pre k n j n') (hpre : pre <+: sched) : Before sched k n j n' := by
  obtain ⟨earlier, hearlier, hmade, hnot⟩ := h
  exact ⟨earlier, hearlier.trans hpre, hmade, hnot⟩

/-- Who has made the later step, after him the earlier one has been made. -/
theorem made (h : Before sched k n j n') (hpre : pre <+: sched) (hmade : Made pre j n') :
    Made pre k n := by
  obtain ⟨earlier, hearlier, hbefore, hnot⟩ := h
  rcases List.prefix_or_prefix_of_prefix hearlier hpre with hle | hle
  · exact hbefore.mono hle
  · exact absurd (hmade.mono hle) hnot

end Before

/-! ## Overtaking -/

/-- Call `k`, an append, is overtaken by call `j`, whose bytes reach the file at its
step `flush`: between the measuring and the flush of `k`; or, where `k` may make the
file, after it did so and before it measures it. -/
def Overtaken (sched : List WriteMove) (makes : Bool) (k j flush : Nat) : Prop :=
  (Before sched k 2 j flush ∧ Before sched j flush k 3 ∧ Made sched k 3)
    ∨ makes = true ∧ Before sched k 1 j 1 ∧ Before sched j flush k 2 ∧ Made sched k 2

instance : Decidable (Made sched k n) := inferInstanceAs (Decidable (_ <+: _))

instance : Decidable (Before sched k n j n') :=
  decidable_of_iff (∃ pre ∈ sched.inits, Made pre k n ∧ ¬ Made pre j n')
    (by simp [Before, List.mem_inits])

instance {makes : Bool} {flush : Nat} : Decidable (Overtaken sched makes k j flush) :=
  inferInstanceAs (Decidable (_ ∨ _))

end TitoOS

import TitoOS.Script

/-!
# Addressed mail

The bus tells a broadcast from a message to one agent by its recipient alone,
and `"*"` is a name like any other to `Agent.__init__` and `Kernel.register`.
So mail to an agent of that name goes to everybody else instead. To any other
agent with a mailbox it goes as addressed, from a step as from the barrier.

That a live agent has a mailbox is another matter (`Kernel.Addressable`,
`Mailed`).
-/

namespace TitoOS

variable {σ : Type}

namespace Kernel

/-- `ctx.send(n, payload)` in the step of the agent `name` puts the message into
the mailbox of `n` and nothing into any other. -/
def SendsPrivately (k : Kernel σ) (name n : String) (payload : Value) : Prop :=
  ∃ k', k.ctxSend name n payload ∅ = (k', .ok ())
    ∧ k.bus.Delivered k'.bus n { sender := name, recipient := n, payload }

/-- The escalation about the agent object at `ref`, which is `a`, puts the
CHILD_FAILED message into the mailbox of the parent `n` and nothing into any
other. -/
def EscalatesPrivately (k : Kernel σ) (ref : Nat) (a : Agent σ) (n : String) : Prop :=
  ∃ k', k.escalate ref = .ok k' ∧ k.bus.Delivered k'.bus n (childFailed n a)

theorem sendsPrivately_iff {k : Kernel σ} {name n : String} {payload : Value} :
    k.SendsPrivately name n payload
      ↔ n ∈ k.bus.mailboxes.keys ∧ k.bus.IsPrivate name n := by
  rw [← MessageBus.send_delivered_iff (m := { sender := name, recipient := n, payload }),
    SendsPrivately, ctxSend, MessageBus.post]
  constructor
  · rintro ⟨k', hsend, hdelivered⟩
    split at hsend
    · cases hsend
      exact ⟨_, ‹_›, hdelivered⟩
    · cases hsend
  · rintro ⟨bus, hsend, hdelivered⟩
    rw [hsend]
    exact ⟨_, rfl, hdelivered⟩

theorem escalatesPrivately_iff {k : Kernel σ} {ref : Nat} {a : Agent σ} {n : String}
    (hlive : k.isLive n = true) (ha : k.objects[ref]? = some a) (hparent : a.parent = some n) :
    k.EscalatesPrivately ref a n
      ↔ n ∈ k.bus.mailboxes.keys ∧ k.bus.IsPrivate a.name n := by
  obtain ⟨p, hp, halive⟩ := isLive_iff.mp hlive
  have hnotice : k.notice ref = some (childFailed n a) :=
    notice_eq_some_iff.mpr ⟨a, n, p, ha, hparent, hp, halive, rfl⟩
  rw [EscalatesPrivately, escalate, hnotice]
  refine Iff.trans ?_ (MessageBus.send_delivered_iff (m := childFailed n a))
  constructor
  · rintro ⟨k', hsend, hdelivered⟩
    cases hbus : k.bus.send (childFailed n a) with
    | error e => simp [hbus, Except.map] at hsend
    | ok bus =>
      simp only [hbus, Except.map, Except.ok.injEq] at hsend
      subst hsend
      exact ⟨bus, rfl, hdelivered⟩
  · rintro ⟨bus, hsend, hdelivered⟩
    refine ⟨{ k with bus }, ?_, hdelivered⟩
    simp only [hsend]
    rfl

end Kernel

/-- **When addressed mail reaches only its addressee**, in whatever state the
kernel is: for a live agent `n`, a send of any other agent and an escalation to
it put exactly their message into its mailbox and leave every other mailbox
alone just when `n` has a mailbox and is not taken for a broadcast. -/
theorem addressed_mail_iff {k : Kernel σ} {n : String} (hlive : k.isLive n = true) :
    (∀ name payload, name ≠ n → (k.SendsPrivately name n payload
      ↔ n ∈ k.bus.mailboxes.keys
        ∧ (n = BROADCAST → ∀ x ∈ k.bus.mailboxes.keys, x = BROADCAST ∨ x = name)))
    ∧ ∀ ref a, k.objects[ref]? = some a → a.parent = some n → (k.EscalatesPrivately ref a n
      ↔ n ∈ k.bus.mailboxes.keys ∧ (n = BROADCAST → a.name ≠ BROADCAST
        ∧ ∀ x ∈ k.bus.mailboxes.keys, x = BROADCAST ∨ x = a.name)) := by
  refine ⟨fun name payload hother => ?_, fun ref a ha hparent =>
    Kernel.escalatesPrivately_iff hlive ha hparent⟩
  rw [Kernel.sendsPrivately_iff, MessageBus.IsPrivate]
  refine and_congr_right fun _ => forall_congr' fun hstar => ?_
  exact and_iff_right (hstar ▸ hother)

/-! ## An agent named like a broadcast -/

/-- An agent that writes to `"*"` and fails. -/
def informer : FreshAgent Script :=
  Script.agent "alice" (by decide) [.send "*" "secret", .fail "gone"]

def starOps : List (Op Script) :=
  [.register (Script.agent "*" (by decide) [.wait]) none,
   .register (Script.agent "bob" (by decide) [.wait]) none,
   .register informer (some "*")]

theorem starOps_accepted : (Kernel.replay scripted starOps {}).isSome = true := by decide

/-- The kernel in which `"alice"` is about to write to her parent `"*"`. -/
def starred : Kernel Script := ((Kernel.replay scripted starOps {}).get starOps_accepted).2

theorem addressed_mail_iff_starred :
    (starred.SendsPrivately "alice" "bob" (.str "hello")
      ↔ "bob" ∈ starred.bus.mailboxes.keys
        ∧ ("bob" = BROADCAST → ∀ x ∈ starred.bus.mailboxes.keys, x = BROADCAST ∨ x = "alice"))
    ∧ (starred.EscalatesPrivately 2 (informer.linked (some "*")) "*"
      ↔ "*" ∈ starred.bus.mailboxes.keys ∧ ("*" = BROADCAST → "alice" ≠ BROADCAST
        ∧ ∀ x ∈ starred.bus.mailboxes.keys, x = BROADCAST ∨ x = "alice")) :=
  ⟨(addressed_mail_iff (by decide)).1 "alice" (.str "hello") (by decide),
    (addressed_mail_iff (by decide)).2 2 (informer.linked (some "*")) rfl rfl⟩

/-- **Mail to `"*"` is overheard**: what `"alice"` sends to the live agent of
that name, and the notice of her failure, are in the mailbox of `"bob"` too. -/
theorem star_overheard :
    starred.isLive "*" = true
      ∧ ¬ starred.SendsPrivately "alice" "*" (.str "secret")
      ∧ ((starred.stepWith scripted .serial false [0, 0, 0, 1, 1, 1, 2, 2, 2]).1.inboxOf "bob").map
          Message.payload = [.str "secret", CHILD_FAILED] := by
  refine ⟨by decide, ?_, by decide⟩
  rw [Kernel.sendsPrivately_iff]
  rintro ⟨-, hprivate⟩
  exact absurd ((hprivate rfl).2 "bob" (by decide)) (by decide)

end TitoOS

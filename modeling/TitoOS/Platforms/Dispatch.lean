import TitoOS.Platforms.Retry

/-!
# Dispatching a reply

`_dispatch` hands the metadata of a reply over as keyword arguments, to
`Context.send` or `Context.broadcast` and on to `MessageBus.post`. The parameters
of these have names of their own, and Python refuses a keyword argument that is
one of them: a reply with such a key in its metadata is not delivered but raises.
The calls with free keyword arguments that were written with this in mind
(`Context.call`) take their own parameters by position only.

An addressed reply also goes astray when its destination is spelled like the
recipient of a broadcast.
-/

namespace TitoOS

variable {τ ρ θ κ σ : Type}

namespace PlatformAgent

/-! ## Keyword arguments -/

/-- The names of the parameters that a reply's metadata meets on its way to the
bus. -/
def reserved : List String := ["self", "sender", "to", "payload"]

theorem bindKeywords_of_free {params : List String} {metadata : Metadata}
    (h : ∀ key ∈ metadata.keys, key ∉ params) (function : String) :
    bindKeywords function params metadata = .ok () := by
  have hnone : metadata.keys.find? params.contains = none := by
    rw [List.find?_eq_none]
    intro key hkey
    simpa using h key hkey
  rw [bindKeywords, hnone]

/-- A key that is the name of a parameter is refused with a `TypeError`. -/
theorem bindKeywords_of_taken {params : List String} {metadata : Metadata} {key : String}
    (hkey : key ∈ metadata.keys) (htaken : key ∈ params) (function : String) :
    ∃ e, bindKeywords function params metadata = .error e ∧ e.isException = true := by
  unfold bindKeywords
  cases hfind : metadata.keys.find? params.contains with
  | some => exact ⟨_, rfl, rfl⟩
  | none => exact absurd (List.find?_eq_none.mp hfind key hkey) (by simpa using htaken)

theorem bindKeywords_isException {function : String} {params : List String} {metadata : Metadata}
    {e : Exc} (h : bindKeywords function params metadata = .error e) : e.isException = true := by
  unfold bindKeywords at h
  split at h
  · cases h
    rfl
  · cases h

section

variable {metadata : Metadata}

theorem contextSend_of_free (h : ∀ key ∈ metadata.keys, key ∉ reserved) (recipient : String)
    (payload : Value) (rest : Except Exc Unit → StepProg σ) :
    contextSend recipient payload metadata rest = .send recipient payload metadata rest := by
  have hsend : ∀ key ∈ metadata.keys, key ∉ ["self", "to", "payload"] := by
    intro key hkey hmem
    refine h key hkey ?_
    simp only [reserved, List.mem_cons] at hmem ⊢
    tauto
  rw [contextSend, bindKeywords_of_free hsend]
  simp only [bindKeywords_of_free (show ∀ key ∈ metadata.keys,
    key ∉ ["self", "sender", "to", "payload"] from h)]

theorem contextSend_of_reserved {key : String} (hkey : key ∈ metadata.keys) (h : key ∈ reserved)
    (recipient : String) (payload : Value) (rest : Except Exc Unit → StepProg σ) :
    ∃ e, contextSend recipient payload metadata rest = rest (.error e) ∧ e.isException = true := by
  obtain ⟨e, he, hexc⟩ := bindKeywords_of_taken hkey
    (show key ∈ ["self", "sender", "to", "payload"] from h) "MessageBus.post"
  rw [contextSend, he]
  split
  · exact ⟨_, rfl, bindKeywords_isException ‹_›⟩
  · exact ⟨_, rfl, hexc⟩

theorem contextBroadcast_of_free (h : ∀ key ∈ metadata.keys, key ∉ reserved) (payload : Value)
    (rest : Except Exc Unit → StepProg σ) :
    contextBroadcast payload metadata rest = .broadcast payload metadata (rest (.ok ())) := by
  have hfree : ∀ params ⊆ reserved, ∀ key ∈ metadata.keys, key ∉ params :=
    fun params hsub key hkey hmem => h key hkey (hsub hmem)
  rw [contextBroadcast, bindKeywords_of_free (hfree _ (by decide))]
  simp only [bindKeywords_of_free (hfree ["self", "sender", "payload"] (by decide)),
    bindKeywords_of_free (hfree ["self", "sender", "to", "payload"] (by decide))]

theorem contextBroadcast_of_reserved {key : String} (hkey : key ∈ metadata.keys)
    (h : key ∈ reserved) (payload : Value) (rest : Except Exc Unit → StepProg σ) :
    ∃ e, contextBroadcast payload metadata rest = rest (.error e) ∧ e.isException = true := by
  obtain ⟨e, he, hexc⟩ := bindKeywords_of_taken hkey
    (show key ∈ ["self", "sender", "to", "payload"] from h) "MessageBus.post"
  rw [contextBroadcast, he]
  split
  · exact ⟨_, rfl, bindKeywords_isException ‹_›⟩
  · split
    · exact ⟨_, rfl, bindKeywords_isException ‹_›⟩
    · exact ⟨_, rfl, hexc⟩

end

/-! ## What a reply is due -/

/-- A destination with a mailbox is determined for the reply. -/
def Routable (s : PlatformAgent τ) (turn : PlatformTurn) (reply : Outbound) (bus : MessageBus) :
    Prop :=
  s.broadcasts reply = true
    ∨ ∃ recipient ∈ bus.mailboxes.keys, s.destination reply turn = some recipient

/-- The mailbox of `x` is a recipient of the reply: every one but the agent's for
a broadcast, that of the destination otherwise. -/
def IsRecipient (s : PlatformAgent τ) (name : String) (turn : PlatformTurn) (reply : Outbound)
    (x : String) : Prop :=
  if s.broadcasts reply then x ≠ name else s.destination reply turn = some x

instance (s : PlatformAgent τ) (name : String) (turn : PlatformTurn) (reply : Outbound)
    (x : String) : Decidable (s.IsRecipient name turn reply x) :=
  inferInstanceAs (Decidable (if s.broadcasts reply then x ≠ name
    else s.destination reply turn = some x))

/-- `m` carries the reply of the agent `name`. -/
structure Carries (name : String) (reply : Outbound) (m : Message) : Prop where
  sender : m.sender = name
  payload : m.payload = reply.payload
  metadata : m.metadata = reply.metadata

/-- `_dispatch`, called in the kernel `k` by the agent object at `ref`: the kernel
when it returns or raises, and the phase its step is in then. -/
def dispatchIn (adapters : PlatformAdapter τ ρ θ) (s : PlatformAgent τ) (k : Kernel σ) (ref : Nat)
    (name : String) (turn : PlatformTurn) (reply : Outbound) : Kernel σ × Phase σ :=
  k.runStep ref name (s.dispatch adapters name turn reply .ret) [] turn.messages

/-- `_dispatch` does not raise, and puts one message that carries the reply into
the mailbox of each recipient. -/
def DispatchesFaithfully (adapters : PlatformAdapter τ ρ θ) (s : PlatformAgent τ) (k : Kernel σ)
    (ref : Nat) (name : String) (turn : PlatformTurn) (reply : Outbound) : Prop :=
  (s.dispatchIn adapters k ref name turn reply).2.isReturned = true
    ∧ ∃ m, Carries name reply m ∧ ∀ x,
      (s.dispatchIn adapters k ref name turn reply).1.bus.mailboxes.get? x
        = (k.bus.mailboxes.get? x).map
          (· ++ if s.IsRecipient name turn reply x then [m] else [])

/-- No key of the reply's metadata is the name of a parameter on its way, and the
bus takes the destination of an addressed reply for no broadcast. -/
structure DispatchesPlainly (s : PlatformAgent τ) (name : String) (turn : PlatformTurn)
    (reply : Outbound) (bus : MessageBus) : Prop where
  keys : ∀ key ∈ reply.metadata.keys, key ∉ reserved
  isPrivate : s.broadcasts reply = false → ∀ recipient,
    s.destination reply turn = some recipient → bus.IsPrivate name recipient

/-! ## What `_dispatch` does -/

variable {adapters : PlatformAdapter τ ρ θ} {s : PlatformAgent τ} {k : Kernel σ} {ref : Nat}
  {name : String} {turn : PlatformTurn} {reply : Outbound}

/-- With a reserved key in the metadata, the step fails. -/
theorem dispatchIn_of_reserved {key : String} (hkey : key ∈ reply.metadata.keys)
    (h : key ∈ reserved) :
    (s.dispatchIn adapters k ref name turn reply).2.isReturned = false := by
  have hraises : ∃ e, s.dispatch adapters name turn reply (.ret : StepProg σ) = .raise e := by
    unfold dispatch
    split
    · obtain ⟨e, he, -⟩ := contextBroadcast_of_reserved hkey h reply.payload
        (orRaise (.ret : StepProg σ))
      exact ⟨e, he⟩
    · split
      · exact ⟨_, rfl⟩
      · obtain ⟨e, he, -⟩ := contextSend_of_reserved hkey h _ reply.payload
          (orRaise (.ret : StepProg σ))
        exact ⟨e, he⟩
  obtain ⟨e, he⟩ := hraises
  rw [dispatchIn, he, Kernel.runStep]
  split <;> rfl

/-- The bus accepts the message of a routable reply. -/
theorem Routable.accepts (h : s.Routable turn reply k.bus) (name : String) :
    k.bus.Accepts (s.message name turn reply) := by
  unfold message MessageBus.Accepts
  cases hb : s.broadcasts reply with
  | true => exact .inl rfl
  | false =>
    obtain hb' | ⟨recipient, hmem, hdest⟩ := h
    · rw [hb] at hb'
      cases hb'
    · right
      simpa [hdest] using hmem

/-- Without one, the step returns and the message of the reply is sent. -/
theorem dispatchIn_of_free (adapters : PlatformAdapter τ ρ θ) (ref : Nat) (name : String)
    (hroutable : s.Routable turn reply k.bus)
    (h : ∀ key ∈ reply.metadata.keys, key ∉ reserved) :
    (s.dispatchIn adapters k ref name turn reply).2.isReturned = true
      ∧ k.bus.send (s.message name turn reply)
        = .ok (s.dispatchIn adapters k ref name turn reply).1.bus := by
  obtain ⟨bus, hbus⟩ := MessageBus.send_ok_iff.mpr (hroutable.accepts name)
  rw [hbus]
  unfold dispatchIn dispatch
  cases hb : s.broadcasts reply with
  | true =>
    simp only [message, hb, if_true] at hbus
    rw [if_pos rfl, contextBroadcast_of_free h]
    simp [Kernel.runStep, orRaise, Kernel.ctxBroadcast, Kernel.ctxSend, MessageBus.post, hbus,
      Kernel.settle, Phase.isReturned]
  | false =>
    obtain hb' | ⟨recipient, -, hdest⟩ := hroutable
    · rw [hb] at hb'
      cases hb'
    · simp only [message, hb, hdest, Option.getD_some, Bool.false_eq_true, if_false] at hbus
      rw [if_neg Bool.false_ne_true, hdest]
      simp only [contextSend_of_free h]
      simp [Kernel.runStep, orRaise, Kernel.ctxSend, MessageBus.post, hbus, Kernel.settle,
        Phase.isReturned]

/-- The message of a reply addresses its recipients just where the bus takes its
destination for no broadcast. -/
theorem addresses_message_iff (hroutable : s.Routable turn reply k.bus) :
    (∀ x ∈ k.bus.mailboxes.keys,
        (s.message name turn reply).addresses x ↔ s.IsRecipient name turn reply x)
      ↔ (s.broadcasts reply = false → ∀ recipient,
        s.destination reply turn = some recipient → k.bus.IsPrivate name recipient) := by
  unfold IsRecipient
  cases hb : s.broadcasts reply with
  | true => simp [message, hb, Message.addresses, Message.isBroadcast]
  | false =>
    obtain hb' | ⟨recipient, hmem, hdest⟩ := hroutable
    · rw [hb] at hb'
      cases hb'
    · have hmessage : (s.message name turn reply).recipient = recipient := by
        simp [message, hb, hdest]
      have hbox : (s.message name turn reply).recipient ∈ k.bus.mailboxes.keys := hmessage ▸ hmem
      have hiff := MessageBus.addresses_recipient_iff hbox
      rw [hmessage] at hiff
      have hsome : ∀ x, s.destination reply turn = some x ↔ x = recipient := by
        intro x
        rw [hdest, Option.some.injEq, eq_comm]
      simp only [Bool.false_eq_true, if_false, hsome, forall_const, forall_eq]
      exact hiff

end PlatformAgent

section

open PlatformAgent

/-- **When `_dispatch` delivers a reply faithfully**: just when its metadata
avoids the names of the parameters it passes, and its destination is not taken
for a broadcast. -/
theorem dispatch_faithful_iff {adapters : PlatformAdapter τ ρ θ} {s : PlatformAgent τ}
    {k : Kernel σ} {ref : Nat} {name : String} {turn : PlatformTurn} {reply : Outbound}
    (hroutable : s.Routable turn reply k.bus) :
    s.DispatchesFaithfully adapters k ref name turn reply
      ↔ s.DispatchesPlainly name turn reply k.bus := by
  by_cases hfree : ∀ key ∈ reply.metadata.keys, key ∉ reserved
  · obtain ⟨hreturned, hsend⟩ :=
      dispatchIn_of_free adapters ref name hroutable hfree
    constructor
    · rintro ⟨-, m, -, hgrown⟩
      exact ⟨hfree,
        (addresses_message_iff hroutable).mp (MessageBus.addresses_of_grown hsend hgrown)⟩
    · intro h
      exact ⟨hreturned, s.message name turn reply, ⟨rfl, rfl, rfl⟩,
        MessageBus.grown_of_addresses hsend ((addresses_message_iff hroutable).mpr h.isPrivate)⟩
  · push Not at hfree
    obtain ⟨key, hkey, htaken⟩ := hfree
    constructor
    · rintro ⟨hreturned, -⟩
      rw [dispatchIn_of_reserved hkey htaken] at hreturned
      cases hreturned
    · intro h
      exact absurd htaken (h.keys key hkey)

end

/-! ## A reply that is not delivered -/

/-- The turn of an agent that starts the conversation. -/
def openingTurn : PlatformTurn where
  agent := "assistant"
  tick := 1
  seed := .str "go"

theorem to_sink : false = true → some "sink" = none := by decide

/-- A reply with a key of its own in its metadata. -/
def tagged (key : String) : Outbound where
  payload := .str "one"
  recipient := some "sink"
  exclusive := to_sink
  metadata := Dict.ofList [(key, .str "alice")]

theorem dispatch_faithful_iff_tagged :
    seeded.DispatchesFaithfully relay office 1 "assistant" openingTurn (tagged "topic")
      ↔ seeded.DispatchesPlainly "assistant" openingTurn (tagged "topic") office.bus :=
  dispatch_faithful_iff (.inr ⟨"sink", by decide, by decide⟩)

/-- **A reply whose metadata names its `sender` is refused**: its destination has
a mailbox, but nothing is delivered and the step fails. -/
theorem tagged_sender_refused :
    seeded.Routable openingTurn (tagged "sender") office.bus
      ∧ (seeded.dispatchIn relay office 1 "assistant" openingTurn (tagged "sender")).1.errors
        = [("assistant", .raised "TypeError"
          "MessageBus.post() got multiple values for argument 'sender'")]
      ∧ (seeded.dispatchIn relay office 1 "assistant" openingTurn (tagged "sender")).1.bus
        = office.bus
      ∧ ¬ seeded.DispatchesFaithfully relay office 1 "assistant" openingTurn (tagged "sender") := by
  refine ⟨.inr ⟨"sink", by decide, by decide⟩, by decide, by decide, ?_⟩
  rintro ⟨hreturned, -⟩
  have hkey : "sender" ∈ (tagged "sender").metadata.keys := by decide
  rw [PlatformAgent.dispatchIn_of_reserved hkey (by decide)] at hreturned
  cases hreturned

end TitoOS

import Mathlib.Data.List.Sort
import Mathlib.Data.String.Basic
import TitoOS.Message

/-!
# The message bus

`MessageBus` (`bus.py`): one mailbox per name, appended to by `send` and
drained in one pass at the tick boundary. Every operation holds the bus lock
for its whole body, so each is one atomic step of the model.

`deliveries` is not part of the source: it names the (mailbox, message) pairs a
`send` appends, so that histories of accepted messages can be written down.
`get?_send` is the law that ties the two together, and no later proof unfolds
`send`.
-/

namespace TitoOS

/-- `sorted(names)`. -/
def sorted (names : List String) : List String := names.insertionSort (· ≤ ·)

theorem sorted_eq_of_perm {l m : List String} (h : l.Perm m) : sorted l = sorted m := by
  have hperm : (sorted l).Perm (sorted m) :=
    (List.perm_insertionSort _ l).trans (h.trans (List.perm_insertionSort _ m).symm)
  exact hperm.eq_of_pairwise' (List.pairwise_insertionSort _ l) (List.pairwise_insertionSort _ m)

/-- Two duplicate-free lists with the same members sort alike. -/
theorem sorted_congr {l m : List String} (hl : l.Nodup) (hm : m.Nodup)
    (h : ∀ x, x ∈ l ↔ x ∈ m) : sorted l = sorted m :=
  sorted_eq_of_perm ((List.perm_ext_iff_of_nodup hl hm).mpr h)

/-- The mailboxes, in creation order. -/
structure MessageBus where
  mailboxes : Dict String (List Message) := ∅
  deriving DecidableEq

/-- A message appended to the mailbox of a name. -/
abbrev Delivery := String × Message

/-- The messages a history of deliveries appended to the mailbox of `name`. -/
def deliveredTo (name : String) (log : List Delivery) : List Message :=
  (log.filter fun d => d.1 = name).map Prod.snd

@[simp] theorem deliveredTo_nil (name : String) : deliveredTo name [] = [] := rfl

@[simp] theorem deliveredTo_append (name : String) (l m : List Delivery) :
    deliveredTo name (l ++ m) = deliveredTo name l ++ deliveredTo name m := by
  simp [deliveredTo]

namespace MessageBus

/-- `register`: an empty mailbox for `name` unless it has one. -/
def register (bus : MessageBus) (name : String) : MessageBus :=
  { bus with mailboxes := bus.mailboxes.setDefault name [] }

/-- `unregister`. -/
def unregister (bus : MessageBus) (name : String) : MessageBus :=
  { bus with mailboxes := bus.mailboxes.erase name }

/-- `send`: append to the recipient's mailbox, or to every mailbox but the
sender's for a broadcast. -/
def send (bus : MessageBus) (m : Message) : Except Exc MessageBus :=
  if m.isBroadcast then
    .ok { bus with mailboxes := bus.mailboxes.mapVals fun name mailbox =>
      if name ≠ m.sender then mailbox ++ [m] else mailbox }
  else if bus.mailboxes.contains m.recipient then
    .ok { bus with mailboxes := bus.mailboxes.modify m.recipient (· ++ [m]) }
  else .error (.unknownRecipient m.recipient (sorted bus.mailboxes.keys))

/-- What `send` appends, and where. -/
def deliveries (bus : MessageBus) (m : Message) : List Delivery :=
  if m.isBroadcast then (bus.mailboxes.keys.filter (· ≠ m.sender)).map (·, m)
  else if bus.mailboxes.contains m.recipient then [(m.recipient, m)]
  else []

/-- `post`: build and send a message in one call. -/
def post (bus : MessageBus) (sender recipient : String) (payload : Value)
    (metadata : Metadata) : Except Exc MessageBus :=
  bus.send { sender, recipient, payload, metadata }

/-- `pending`. -/
def pending (bus : MessageBus) (name : String) : Nat :=
  ((bus.mailboxes.get? name).getD []).length

/-- `receive_many`: drain the mailboxes of `names` in one pass. -/
def receiveMany (bus : MessageBus) : List String → List (List Message) × MessageBus
  | [] => ([], bus)
  | name :: rest =>
    match bus.mailboxes.get? name with
    | none | some [] =>
      let (drained, bus') := bus.receiveMany rest
      ([] :: drained, bus')
    | some mailbox =>
      let cleared : MessageBus :=
        { bus with mailboxes := bus.mailboxes.modify name fun _ => [] }
      let (drained, bus') := cleared.receiveMany rest
      (mailbox :: drained, bus')

/-- `any_pending`. -/
def anyPending (bus : MessageBus) (names : List String) : Bool :=
  names.any fun name => !((bus.mailboxes.get? name).getD []).isEmpty

/-- `requeue`: put `messages` back at the front of `name`'s mailbox, in order. -/
def requeue (bus : MessageBus) (name : String) (messages : List Message) : MessageBus :=
  if messages.isEmpty then bus
  else { bus with mailboxes := bus.mailboxes.modify name (messages ++ ·) }

/-- `dump`. -/
def dump (bus : MessageBus) : Dict String (List Message) := bus.mailboxes

/-- `load`: replace all mailboxes. -/
def load (_bus : MessageBus) (mailboxes : Dict String (List Message)) : MessageBus :=
  { mailboxes }

/-! ## What each operation does to a mailbox -/

@[simp] theorem get?_register (bus : MessageBus) (name x : String) :
    (bus.register name).mailboxes.get? x
      = if x = name then some ((bus.mailboxes.get? name).getD []) else bus.mailboxes.get? x :=
  Dict.get?_setDefault ..

@[simp] theorem get?_unregister (bus : MessageBus) (name x : String) :
    (bus.unregister name).mailboxes.get? x
      = if x = name then none else bus.mailboxes.get? x :=
  Dict.get?_erase ..

theorem mem_keys_register (bus : MessageBus) (name x : String) :
    x ∈ (bus.register name).mailboxes.keys ↔ x = name ∨ x ∈ bus.mailboxes.keys :=
  Dict.mem_keys_setDefault ..

theorem mem_keys_unregister (bus : MessageBus) (name x : String) :
    x ∈ (bus.unregister name).mailboxes.keys ↔ x ≠ name ∧ x ∈ bus.mailboxes.keys :=
  Dict.mem_keys_erase ..

theorem keys_send {bus bus' : MessageBus} {m : Message} (h : bus.send m = .ok bus') :
    bus'.mailboxes.keys = bus.mailboxes.keys := by
  unfold send at h
  split at h
  · cases h; simp
  · split at h
    · cases h; simp
    · cases h

private theorem deliveredTo_map {names : List String} (hn : names.Nodup) (x : String)
    (m : Message) :
    deliveredTo x (names.map fun name => (name, m)) = if x ∈ names then [m] else [] := by
  induction names with
  | nil => simp [deliveredTo]
  | cons name rest ih =>
    obtain ⟨hnot, hrest⟩ := List.nodup_cons.mp hn
    have hcons : deliveredTo x ((name :: rest).map fun n => (n, m))
        = (if name = x then [m] else []) ++ deliveredTo x (rest.map fun n => (n, m)) := by
      by_cases h : name = x <;> simp [deliveredTo, h]
    rw [hcons, ih hrest]
    by_cases h : name = x
    · subst h; simp [hnot]
    · simp [h, Ne.symm h]

/-- A mailbox receives a message at most once, and exactly when it exists and
the message is meant for it. -/
theorem deliveredTo_deliveries (bus : MessageBus) (m : Message) (x : String) :
    deliveredTo x (bus.deliveries m)
      = if x ∈ bus.mailboxes.keys ∧ m.addresses x then [m] else [] := by
  unfold deliveries Message.addresses
  split
  · rw [deliveredTo_map (bus.mailboxes.keys_nodup.filter _)]
    simp
  · split <;> rename_i hc <;> rw [Dict.contains_iff] at hc
    · by_cases hx : x = m.recipient
      · simp [deliveredTo, hx, hc]
      · simp [deliveredTo, hx, Ne.symm hx]
    · have : ¬ (x ∈ bus.mailboxes.keys ∧ x = m.recipient) := by
        rintro ⟨hx, rfl⟩
        exact hc hx
      simp [this]

/-- **The law of `send`**: every mailbox grows by its deliveries, at the end. -/
theorem get?_send {bus bus' : MessageBus} {m : Message} (h : bus.send m = .ok bus')
    (x : String) :
    bus'.mailboxes.get? x
      = (bus.mailboxes.get? x).map (· ++ deliveredTo x (bus.deliveries m)) := by
  rw [deliveredTo_deliveries]
  cases hx : bus.mailboxes.get? x with
  | none =>
    rw [Dict.get?_eq_none_iff, ← keys_send h, ← Dict.get?_eq_none_iff] at hx
    simp [hx]
  | some mailbox =>
    have hmem : x ∈ bus.mailboxes.keys := Dict.mem_keys_of_get? hx
    unfold send at h
    unfold Message.addresses
    split at h
    · rename_i hb
      cases h
      by_cases hs : x = m.sender
      · simp [← hs, hx, hb]
      · simp [hx, hb, hs, hmem]
    · split at h
      · rename_i hb _
        cases h
        by_cases hr : x = m.recipient
        · simp [← hr, hb, hx, hmem]
        · simp [Dict.get?_modify_ne, hb, hr, hx]
      · cases h

theorem deliveries_of_error {bus : MessageBus} {m : Message} {e : Exc}
    (h : bus.send m = .error e) : bus.deliveries m = [] := by
  unfold send at h
  unfold deliveries
  split at h
  · cases h
  · split at h
    · cases h
    · rename_i hb hc
      rw [if_neg hb, if_neg hc]

/-- The bus has a mailbox for the recipient, or needs none. -/
def Accepts (bus : MessageBus) (m : Message) : Prop :=
  m.recipient = BROADCAST ∨ m.recipient ∈ bus.mailboxes.keys

theorem Accepts.of_keys {bus bus' : MessageBus} (h : bus'.mailboxes.keys = bus.mailboxes.keys)
    {m : Message} (hm : bus.Accepts m) : bus'.Accepts m :=
  hm.imp_right fun hin => h ▸ hin

/-- When a send does not raise. -/
theorem send_ok_iff {bus : MessageBus} {m : Message} :
    (∃ bus', bus.send m = .ok bus') ↔ bus.Accepts m := by
  unfold send Accepts Message.isBroadcast
  by_cases hb : m.recipient = BROADCAST
  · simp [hb]
  · by_cases hc : m.recipient ∈ bus.mailboxes.keys <;> simp [hb, hc]

/-- Whether a send is accepted, and the error if not, depends on the names of
the mailboxes only. -/
theorem send_error_congr {bus bus' : MessageBus}
    (h : ∀ x, x ∈ bus.mailboxes.keys ↔ x ∈ bus'.mailboxes.keys) {m : Message} {e : Exc}
    (he : bus.send m = .error e) : bus'.send m = .error e := by
  unfold send at he ⊢
  split at he
  · cases he
  · rename_i hb
    split at he
    · cases he
    · rename_i hc
      have hc' : ¬ bus'.mailboxes.contains m.recipient = true := by
        rw [Dict.contains_iff] at hc ⊢
        rwa [← h]
      rw [if_neg hb, if_neg hc', ← he,
        sorted_congr bus.mailboxes.keys_nodup bus'.mailboxes.keys_nodup h]

/-! ### Which mailboxes grow -/

private theorem appended_iff {p q : Prop} [Decidable p] [Decidable q] {m m' : Message}
    (h : (if p then [m] else []) = if q then [m'] else []) : p ↔ q := by
  by_cases hp : p <;> by_cases hq : q <;> simp_all

section

variable {bus bus' : MessageBus} {m : Message} {P : String → Prop} [DecidablePred P]

/-- The mailboxes that a send lets grow are those the message addresses. -/
theorem addresses_of_grown (h : bus.send m = .ok bus') {m' : Message}
    (hgrown : ∀ x, bus'.mailboxes.get? x
      = (bus.mailboxes.get? x).map (· ++ if P x then [m'] else [])) :
    ∀ x ∈ bus.mailboxes.keys, m.addresses x ↔ P x := by
  intro x hx
  obtain ⟨mailbox, hmailbox⟩ := Dict.mem_keys_iff.mp hx
  have hbox := hgrown x
  rw [get?_send h, deliveredTo_deliveries, hmailbox] at hbox
  simp only [hx, true_and, Option.map_some, Option.some.injEq, List.append_cancel_left_eq] at hbox
  exact appended_iff hbox

theorem grown_of_addresses (h : bus.send m = .ok bus')
    (haddressed : ∀ x ∈ bus.mailboxes.keys, m.addresses x ↔ P x) (x : String) :
    bus'.mailboxes.get? x = (bus.mailboxes.get? x).map (· ++ if P x then [m] else []) := by
  rw [get?_send h, deliveredTo_deliveries]
  cases hbox : bus.mailboxes.get? x with
  | none => rfl
  | some mailbox =>
    have hx := Dict.mem_keys_of_get? hbox
    simp only [hx, true_and, Option.map_some, haddressed x hx]

end

/-- A message from `sender` to `recipient` is for the mailbox of that name only:
the name is not spelled like a broadcast, or nobody else is there to hear it. -/
def IsPrivate (bus : MessageBus) (sender recipient : String) : Prop :=
  recipient = BROADCAST →
    sender ≠ BROADCAST ∧ ∀ x ∈ bus.mailboxes.keys, x = BROADCAST ∨ x = sender

theorem addresses_recipient_iff {bus : MessageBus} {m : Message}
    (hbox : m.recipient ∈ bus.mailboxes.keys) :
    (∀ x ∈ bus.mailboxes.keys, m.addresses x ↔ x = m.recipient)
      ↔ bus.IsPrivate m.sender m.recipient := by
  unfold Message.addresses Message.isBroadcast IsPrivate
  by_cases hstar : m.recipient = BROADCAST
  · rw [hstar] at hbox
    simp only [hstar, beq_self_eq_true, if_true, forall_const]
    constructor
    · intro h
      refine ⟨Ne.symm ((h _ hbox).mpr rfl), fun x hx => ?_⟩
      by_cases hname : x = m.sender
      · exact .inr hname
      · exact .inl ((h x hx).mp hname)
    · rintro ⟨hname, hall⟩ x hx
      constructor
      · intro hne
        exact (hall x hx).resolve_right hne
      · rintro rfl
        exact Ne.symm hname
  · have hnot : (m.recipient == BROADCAST) = false := by simpa using hstar
    simp [hstar, hnot]

/-- `m` has been put into the mailbox of `name`, and every other mailbox is as it
was. -/
structure Delivered (bus bus' : MessageBus) (name : String) (m : Message) : Prop where
  grown : ∃ mailbox, bus.mailboxes.get? name = some mailbox
    ∧ bus'.mailboxes.get? name = some (mailbox ++ [m])
  others : ∀ x, x ≠ name → bus'.mailboxes.get? x = bus.mailboxes.get? x

/-- **When a send reaches its recipient only.** -/
theorem send_delivered_iff {bus : MessageBus} {m : Message} :
    (∃ bus', bus.send m = .ok bus' ∧ bus.Delivered bus' m.recipient m)
      ↔ m.recipient ∈ bus.mailboxes.keys ∧ bus.IsPrivate m.sender m.recipient := by
  constructor
  · rintro ⟨bus', hsend, ⟨mailbox, hmailbox, hgrown⟩, hothers⟩
    have hmem := Dict.mem_keys_of_get? hmailbox
    have hboxes : ∀ x, bus'.mailboxes.get? x = (bus.mailboxes.get? x).map
        (· ++ if x = m.recipient then [m] else []) := by
      intro x
      by_cases hx : x = m.recipient
      · rw [hx, hmailbox, hgrown]
        simp
      · rw [hothers x hx, if_neg hx]
        simp
    exact ⟨hmem, (addresses_recipient_iff hmem).mp (addresses_of_grown hsend hboxes)⟩
  · rintro ⟨hmem, hprivate⟩
    obtain ⟨bus', hsend⟩ := send_ok_iff.mpr (.inr hmem)
    have hgrown := grown_of_addresses hsend ((addresses_recipient_iff hmem).mpr hprivate)
    obtain ⟨mailbox, hmailbox⟩ := Dict.mem_keys_iff.mp hmem
    refine ⟨bus', hsend, ⟨mailbox, hmailbox, ?_⟩, fun x hx => ?_⟩
    · rw [hgrown, hmailbox]
      simp
    · rw [hgrown, if_neg hx]
      simp

@[simp] theorem get?_requeue (bus : MessageBus) (name : String) (messages : List Message)
    (x : String) :
    (bus.requeue name messages).mailboxes.get? x
      = if x = name then (bus.mailboxes.get? x).map (messages ++ ·)
        else bus.mailboxes.get? x := by
  unfold requeue
  cases messages with
  | nil => by_cases hx : x = name <;> simp [hx]
  | cons m rest => simp [Dict.get?_modify]

@[simp] theorem keys_requeue (bus : MessageBus) (name : String) (messages : List Message) :
    (bus.requeue name messages).mailboxes.keys = bus.mailboxes.keys := by
  unfold requeue
  split <;> simp

/-! ## Draining -/

@[simp] theorem keys_receiveMany (bus : MessageBus) (names : List String) :
    (bus.receiveMany names).2.mailboxes.keys = bus.mailboxes.keys := by
  induction names generalizing bus with
  | nil => rfl
  | cons name rest ih =>
    unfold receiveMany
    split <;> simp [ih]

theorem get?_receiveMany (bus : MessageBus) (names : List String) (x : String) :
    (bus.receiveMany names).2.mailboxes.get? x
      = if x ∈ names then (bus.mailboxes.get? x).map fun _ => []
        else bus.mailboxes.get? x := by
  induction names generalizing bus with
  | nil => simp [receiveMany]
  | cons name rest ih =>
    unfold receiveMany
    by_cases hx : x = name
    · subst hx
      split <;> rename_i h <;> simp only [ih] <;> simp [h]
    · split <;> simp only [ih] <;> simp [hx, Dict.get?_modify_ne]

/-- What `receive_many` hands out, when the names are distinct. -/
theorem receiveMany_fst (bus : MessageBus) {names : List String} (hn : names.Nodup) :
    (bus.receiveMany names).1 = names.map fun x => (bus.mailboxes.get? x).getD [] := by
  induction names generalizing bus with
  | nil => rfl
  | cons name rest ih =>
    obtain ⟨hnot, hrest⟩ := List.nodup_cons.mp hn
    have hkeep : ∀ f : List Message → List Message,
        (rest.map fun x => ((bus.mailboxes.modify name f).get? x).getD [])
          = rest.map fun x => (bus.mailboxes.get? x).getD [] := by
      intro f
      refine List.map_congr_left (fun x hx => ?_)
      have hne : x ≠ name := fun h => hnot (h ▸ hx)
      rw [Dict.get?_modify_ne _ _ hne]
    unfold receiveMany
    split <;> rename_i h
    · simp [ih bus hrest, h]
    · simp [ih bus hrest, h]
    · simp [ih _ hrest, h, hkeep]

@[simp] theorem length_receiveMany (bus : MessageBus) (names : List String) :
    (bus.receiveMany names).1.length = names.length := by
  induction names generalizing bus with
  | nil => rfl
  | cons name rest ih =>
    unfold receiveMany
    split <;> simp [ih]

/-- Nothing is pending exactly when draining hands out nothing. -/
theorem anyPending_eq_false_iff (bus : MessageBus) (names : List String) :
    bus.anyPending names = false ↔ ∀ inbox ∈ (bus.receiveMany names).1, inbox = [] := by
  induction names with
  | nil => simp [anyPending, receiveMany]
  | cons name rest ih =>
    rw [anyPending, List.any_cons, Bool.or_eq_false_iff, ← anyPending, ih, receiveMany]
    cases bus.mailboxes.get? name with
    | none => simp
    | some mailbox => cases mailbox <;> simp

/-- Draining changes nothing where nothing is pending. -/
theorem receiveMany_of_not_anyPending {bus : MessageBus} {names : List String}
    (h : bus.anyPending names = false) : (bus.receiveMany names).2 = bus := by
  induction names with
  | nil => rfl
  | cons name rest ih =>
    rw [anyPending, List.any_cons, Bool.or_eq_false_iff, ← anyPending] at h
    rw [receiveMany]
    cases hbox : bus.mailboxes.get? name with
    | none => exact ih h.2
    | some mailbox =>
      cases mailbox with
      | nil => exact ih h.2
      | cons m rest => simp [hbox] at h

/-! ## Buses with the same mail -/

/-- The buses have mailboxes under the same names, and the same mail in those
that are not `hidden`. They may have been created in another order. -/
structure Same (hidden : String → Prop) (bus bus' : MessageBus) : Prop where
  mem_keys : ∀ x, x ∈ bus'.mailboxes.keys ↔ x ∈ bus.mailboxes.keys
  box : ∀ x, ¬ hidden x → bus'.mailboxes.get? x = bus.mailboxes.get? x

namespace Same

variable {hidden : String → Prop} {bus bus' : MessageBus}

theorem of_box (h : ∀ x, bus'.mailboxes.get? x = bus.mailboxes.get? x) : bus.Same hidden bus' where
  mem_keys := fun x => by rw [Dict.mem_keys_iff, Dict.mem_keys_iff, h x]
  box := fun x _ => h x

theorem register (h : bus.Same hidden bus') (name : String) :
    (bus.register name).Same hidden (bus'.register name) where
  mem_keys := by
    intro x
    rw [mem_keys_register, mem_keys_register, h.mem_keys]
  box := by
    intro x hx
    rw [get?_register, get?_register, h.box x hx]
    split
    · rename_i hname
      rw [← hname, h.box x hx]
    · rfl

theorem unregister (h : bus.Same hidden bus') (name : String) :
    (bus.unregister name).Same hidden (bus'.unregister name) where
  mem_keys := by
    intro x
    rw [mem_keys_unregister, mem_keys_unregister, h.mem_keys]
  box := by
    intro x hx
    rw [get?_unregister, get?_unregister, h.box x hx]

theorem requeue (h : bus.Same hidden bus') (name : String) (messages : List Message) :
    (bus.requeue name messages).Same hidden (bus'.requeue name messages) where
  mem_keys := by
    intro x
    rw [keys_requeue, keys_requeue, h.mem_keys]
  box := by
    intro x hx
    rw [get?_requeue, get?_requeue, h.box x hx]

/-- The same send is refused on both buses, with the same error, or accepted on
both. -/
theorem send (h : bus.Same hidden bus') (m : Message) :
    (∃ e, bus.send m = .error e ∧ bus'.send m = .error e)
      ∨ ∃ b b', bus.send m = .ok b ∧ bus'.send m = .ok b' ∧ b.Same hidden b' := by
  cases hsend : bus.send m with
  | error e => exact .inl ⟨e, rfl, send_error_congr (fun x => (h.mem_keys x).symm) hsend⟩
  | ok b =>
    obtain ⟨b', hsend'⟩ :=
      send_ok_iff.mpr ((send_ok_iff.mp ⟨b, hsend⟩).imp_right (h.mem_keys _).mpr)
    refine .inr ⟨b, b', rfl, hsend', ?_, fun x hx => ?_⟩
    · intro x
      rw [keys_send hsend, keys_send hsend', h.mem_keys]
    · rw [get?_send hsend, get?_send hsend', deliveredTo_deliveries, deliveredTo_deliveries,
        h.box x hx]
      simp only [h.mem_keys]

theorem receiveMany (h : bus.Same hidden bus') {names : List String}
    (hnames : ∀ x ∈ names, ¬ hidden x) :
    (bus'.receiveMany names).1 = (bus.receiveMany names).1
      ∧ (bus.receiveMany names).2.Same hidden (bus'.receiveMany names).2 := by
  induction names generalizing bus bus' with
  | nil => exact ⟨rfl, h⟩
  | cons name rest ih =>
    have hrest : ∀ x ∈ rest, ¬ hidden x := fun x hx => hnames x (by simp [hx])
    unfold MessageBus.receiveMany
    rw [h.box name (hnames name (by simp))]
    have hcleared : MessageBus.Same hidden ⟨bus.mailboxes.modify name fun _ => []⟩
        ⟨bus'.mailboxes.modify name fun _ => []⟩ := by
      refine ⟨fun x => by simp [h.mem_keys], fun x hx => ?_⟩
      rw [Dict.get?_modify, Dict.get?_modify, h.box x hx]
    cases bus.mailboxes.get? name with
    | none =>
      obtain ⟨hdrained, hsame⟩ := ih h hrest
      exact ⟨by simp [hdrained], hsame⟩
    | some mailbox =>
      cases mailbox with
      | nil =>
        obtain ⟨hdrained, hsame⟩ := ih h hrest
        exact ⟨by simp [hdrained], hsame⟩
      | cons m ms =>
        obtain ⟨hdrained, hsame⟩ := ih hcleared hrest
        exact ⟨by simp [hdrained], hsame⟩

theorem anyPending (h : bus.Same hidden bus') {names : List String}
    (hnames : ∀ x ∈ names, ¬ hidden x) : bus'.anyPending names = bus.anyPending names := by
  induction names with
  | nil => rfl
  | cons name rest ih =>
    have hrest := ih fun x hx => hnames x (by simp [hx])
    unfold MessageBus.anyPending at hrest ⊢
    rw [List.any_cons, List.any_cons, h.box name (hnames name (by simp)), hrest]

end Same

end MessageBus

end TitoOS

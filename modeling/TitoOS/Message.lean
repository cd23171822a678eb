import TitoOS.Lib.Dict

/-!
# Messages

The values agents exchange, the exceptions the kernel raises or records, and
`Message` (`message.py`). Payloads are arbitrary Python objects; the ones that
are plain data are spelled out and every other one is an opaque `object`.
-/

namespace TitoOS

/-- A Python value, as far as the kernel's data goes. `object i` stands for any
other object, told apart only by its identity. -/
inductive Value where
  | none
  | bool (b : Bool)
  | int (n : Int)
  | str (s : String)
  | list (items : List Value)
  | dict (items : List (String × Value))
  | object (id : Nat)
  deriving Inhabited

namespace Value

mutual

private def decEq : (a b : Value) → Decidable (a = b)
  | .none, b => match b with
    | .none => isTrue rfl
    | .bool _ | .int _ | .str _ | .list _ | .dict _ | .object _ => isFalse nofun
  | .bool x, b => match b with
    | .bool y => decidable_of_iff (x = y) (by simp)
    | .none | .int _ | .str _ | .list _ | .dict _ | .object _ => isFalse nofun
  | .int x, b => match b with
    | .int y => decidable_of_iff (x = y) (by simp)
    | .none | .bool _ | .str _ | .list _ | .dict _ | .object _ => isFalse nofun
  | .str x, b => match b with
    | .str y => decidable_of_iff (x = y) (by simp)
    | .none | .bool _ | .int _ | .list _ | .dict _ | .object _ => isFalse nofun
  | .list x, b => match b with
    | .list y => @decidable_of_iff _ (x = y) (by simp) (decEqList x y)
    | .none | .bool _ | .int _ | .str _ | .dict _ | .object _ => isFalse nofun
  | .dict x, b => match b with
    | .dict y => @decidable_of_iff _ (x = y) (by simp) (decEqItems x y)
    | .none | .bool _ | .int _ | .str _ | .list _ | .object _ => isFalse nofun
  | .object x, b => match b with
    | .object y => decidable_of_iff (x = y) (by simp)
    | .none | .bool _ | .int _ | .str _ | .list _ | .dict _ => isFalse nofun

private def decEqList : (a b : List Value) → Decidable (a = b)
  | [], [] => isTrue rfl
  | [], _ :: _ | _ :: _, [] => isFalse nofun
  | x :: xs, y :: ys =>
    @decidable_of_iff _ (x = y ∧ xs = ys) (by simp)
      (@instDecidableAnd _ _ (decEq x y) (decEqList xs ys))

private def decEqItems : (a b : List (String × Value)) → Decidable (a = b)
  | [], [] => isTrue rfl
  | [], _ :: _ | _ :: _, [] => isFalse nofun
  | (k, x) :: xs, (l, y) :: ys =>
    @decidable_of_iff _ ((k = l ∧ x = y) ∧ xs = ys) (by simp)
      (@instDecidableAnd _ _ (@instDecidableAnd _ _ _ (decEq x y)) (decEqItems xs ys))

end

instance : DecidableEq Value := decEq

end Value

/-- `Mapping[str, Any]`: message metadata and saved agent data. -/
abbrev Metadata := Dict String Value

/-! ## Exceptions -/

/-- An exception, with the data its message is built from. `raised` is any
`Exception` subclass an agent's own code raises; `base` is a `BaseException`
that is not an `Exception` (`KeyboardInterrupt`, `SystemExit`, …), which the
kernel's `except Exception` clauses let through. -/
inductive Exc where
  | unknownRecipient (recipient : String) (mailboxes : List String)
  | alreadyRegistered (name : String)
  | emptyName
  | asyncAgent (name backend : String)
  | runningLoop
  | finishedAgent (name : String)
  | snapshotWhileRunning (names : List String)
  | noFactory (kinds : List String)
  | renamedAgent (kind built expected : String)
  | invalidState (value : String)
  | negativeMaxTicks
  | raised (cls text : String)
  | base (cls text : String)
  deriving DecidableEq, Inhabited

namespace Exc

/-- The class `except` clauses see. -/
def cls : Exc → String
  | unknownRecipient .. | noFactory .. => "KeyError"
  | alreadyRegistered .. | emptyName | renamedAgent .. | invalidState .. | negativeMaxTicks =>
      "ValueError"
  | asyncAgent .. => "TypeError"
  | runningLoop | finishedAgent .. | snapshotWhileRunning .. => "RuntimeError"
  | raised cls _ | base cls _ => cls

/-- `isinstance(exc, Exception)`. -/
def isException : Exc → Bool
  | base .. => false
  | _ => true

/-- `", ".join(names)`, or `"none"` when there are none. -/
private def joined (names : List String) : String :=
  if names.isEmpty then "none" else ", ".intercalate names

/-- `{name!r}` for a name without quotes or escapes. -/
private def quoted (name : String) : String := "'" ++ name ++ "'"

/-- The text of the exception. -/
def text : Exc → String
  | unknownRecipient recipient known =>
      "unknown recipient: " ++ quoted recipient ++ "; mailboxes: " ++ joined known
  | alreadyRegistered name => "agent already registered: " ++ quoted name
  | emptyName => "agent name must be a non-empty string"
  | asyncAgent name backend =>
      "agent " ++ quoted name ++ " defines an async step() but " ++ backend
        ++ " cannot await it; use AsyncBackend"
  | runningLoop =>
      "AsyncBackend.run_tick() cannot be called from a running event loop; "
        ++ "await Kernel.run_async() instead"
  | finishedAgent name => "finished agent " ++ quoted name ++ " cannot run again"
  | snapshotWhileRunning names =>
      "cannot snapshot while agents are running: " ++ ", ".intercalate names
  | noFactory kinds => "no factory for agent kind(s): " ++ ", ".intercalate kinds
  | renamedAgent kind built expected =>
      "factory for " ++ quoted kind ++ " built agent named " ++ quoted built
        ++ ", expected " ++ quoted expected
  | invalidState value => quoted value ++ " is not a valid AgentState"
  | negativeMaxTicks => "max_ticks must not be negative"
  | raised _ text | base _ text => text

end Exc

/-! ## Messages -/

/-- `BROADCAST`. -/
def BROADCAST : String := "*"

/-- A single message routed by the bus. `recipient` is the source's `to`, which
is a keyword here. -/
structure Message where
  sender : String
  recipient : String
  payload : Value := .none
  metadata : Metadata := ∅
  deriving DecidableEq, Inhabited

/-- `Message.is_broadcast`. -/
def Message.isBroadcast (m : Message) : Bool := m.recipient == BROADCAST

/-- `m` is meant for the mailbox of `x`: every name but the sender's for a
broadcast, the recipient otherwise. -/
def Message.addresses (m : Message) (x : String) : Prop :=
  if m.isBroadcast then x ≠ m.sender else x = m.recipient

instance (m : Message) (x : String) : Decidable (m.addresses x) :=
  inferInstanceAs (Decidable (if m.isBroadcast then x ≠ m.sender else x = m.recipient))

end TitoOS

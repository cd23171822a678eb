import TitoOS.Lib.Json
import TitoOS.Persistence

/-!
# The encoding of snapshots

`to_dict`, `from_dict`, `to_json` and `from_json` of `Message` (`message.py`),
`AgentRecord` and `Snapshot` (`persistence.py`). Each encoder is undone by its
decoder (`Snapshot.fromDict_toDict`), whatever the payloads are; with a `json`
module that gives JSON values back, so is the whole way through the text
(`snapshot_round_trip`).

The decoders read dictionaries as Python does. What they make of a value that is
not plain data, or of a field that is not of its annotated type, is not
modelled: the source checks no types, and goes on with an object that no
`Snapshot` here stands for.
-/

namespace TitoOS

/-! ## Reading plain data -/

/-- Why there is no object: an exception, or something beyond the model. -/
inductive Fault where
  | raises (e : Exc)
  | beyond
  deriving DecidableEq

/-- What a decoder returns. -/
abbrev Decoded (α : Type) := Except Fault α

namespace Value

/-- `type(v).__name__`, of plain data. -/
def typeName : Value → String
  | none => "NoneType"
  | bool _ => "bool"
  | int _ => "int"
  | str _ => "str"
  | list _ => "list"
  | dict _ => "dict"
  | object _ => "object"

/-- `data[key]`. -/
def item (data : Value) (key : String) : Decoded Value :=
  match data with
  | dict items =>
    match Dict.find? items key with
    | some v => .ok v
    | Option.none => .error (.raises (.raised "KeyError" ("'" ++ key ++ "'")))
  | str _ =>
    .error (.raises (.raised "TypeError" "string indices must be integers, not 'str'"))
  | list _ =>
    .error (.raises (.raised "TypeError" "list indices must be integers or slices, not str"))
  | object _ => .error .beyond
  | v =>
    .error (.raises (.raised "TypeError" ("'" ++ v.typeName ++ "' object is not subscriptable")))

/-- `AttributeError` for a missing method. -/
def noAttribute (v : Value) (name : String) : Exc :=
  .raised "AttributeError" ("'" ++ v.typeName ++ "' object has no attribute '" ++ name ++ "'")

/-- `data.get(key)`, with nothing for a missing key. -/
def get (data : Value) (key : String) : Decoded (Option Value) :=
  match data with
  | dict items => .ok (Dict.find? items key)
  | object _ => .error .beyond
  | v => .error (.raises (v.noAttribute "get"))

/-- What a `for` over the value goes through. -/
def iter : Value → Decoded (List Value)
  | list items => .ok items
  | dict items => .ok (items.map fun e => .str e.1)
  | str s => .ok (s.toList.map fun c => .str (String.singleton c))
  | object _ => .error .beyond
  | v => .error (.raises (.raised "TypeError" ("'" ++ v.typeName ++ "' object is not iterable")))

/-- `bool(v)`. -/
def truthy : Value → Bool
  | none => false
  | bool b => b
  | int n => n ≠ 0
  | str s => s ≠ ""
  | list items => !items.isEmpty
  | dict items => !items.isEmpty
  | object _ => true

/-- The mapping in `v or {}`, where it is one. -/
def orEmpty : Option Value → Decoded Metadata
  | Option.none => .ok ∅
  | some v =>
    if v.truthy then
      match v with
      | dict items => .ok (Dict.ofList items)
      | _ => .error .beyond
    else .ok ∅

/-- `(v or {}).items()`. -/
def itemsOrEmpty : Option Value → Decoded (List (String × Value))
  | Option.none => .ok []
  | some v =>
    if v.truthy then
      match v with
      | dict items => .ok items
      | object _ => .error .beyond
      | v => .error (.raises (v.noAttribute "items"))
    else .ok []

/-- A field annotated as `str`. -/
def asStr : Value → Decoded String
  | str s => .ok s
  | _ => .error .beyond

/-- A field annotated as `int`. -/
def asInt : Value → Decoded Int
  | int n => .ok n
  | _ => .error .beyond

/-- A field annotated as `str | None`. -/
def asOptStr : Value → Decoded (Option String)
  | none => .ok Option.none
  | str s => .ok (some s)
  | _ => .error .beyond

end Value

/-! ## Messages and records -/

/-- `Message.to_dict`. -/
def Message.toDict (m : Message) : Value :=
  .dict [("sender", .str m.sender), ("to", .str m.recipient), ("payload", m.payload),
    ("metadata", .dict m.metadata.entries)]

/-- `Message.from_dict`. -/
def Message.fromDict (data : Value) : Decoded Message := do
  let sender ← data.item "sender"
  let recipient ← data.item "to"
  let payload ← data.get "payload"
  let metadata ← data.get "metadata"
  return {
    sender := ← sender.asStr
    recipient := ← recipient.asStr
    payload := payload.getD .none
    metadata := ← Value.orEmpty metadata }

namespace AgentRecord

/-- `AgentRecord.to_dict`. -/
def toDict (r : AgentRecord) : Value :=
  .dict [("name", .str r.name), ("kind", .str r.kind), ("state", .str r.state),
    ("parent", match r.parent with | some p => .str p | none => .none),
    ("restarts", .int r.restarts), ("data", .dict r.data.entries)]

/-- `AgentRecord.from_dict`. -/
def fromDict (data : Value) : Decoded AgentRecord := do
  let name ← data.item "name"
  let kind ← data.item "kind"
  let state ← data.item "state"
  let parent ← data.get "parent"
  let restarts ← data.get "restarts"
  let saved ← data.get "data"
  return {
    name := ← name.asStr
    kind := ← kind.asStr
    state := ← state.asStr
    parent := ← (parent.getD .none).asOptStr
    restarts := ← (restarts.getD (.int 0)).asInt
    data := ← Value.orEmpty saved }

end AgentRecord

/-! ## Snapshots -/

namespace Snapshot

/-- `Snapshot.to_dict`. -/
def toDict (s : Snapshot) : Value :=
  .dict [("version", .int s.version), ("tick", .int s.tick),
    ("agents", .list (s.agents.map AgentRecord.toDict)),
    ("mailboxes", .dict (s.mailboxes.entries.map fun e => (e.1, .list (e.2.map Message.toDict))))]

/-- The text of the `ValueError` for another version. -/
def unsupportedVersion (version : String) : Exc :=
  .raised "ValueError" ("unsupported snapshot version " ++ version ++ "; this build reads version "
    ++ toString SNAPSHOT_VERSION)

/-- The version check. `True` equals the version too, but is no integer here, and
the text of a value that is neither is left out. -/
def checkVersion : Value → Decoded Int
  | .int n =>
    if n = SNAPSHOT_VERSION then .ok n else .error (.raises (unsupportedVersion (toString n)))
  | .none => .error (.raises (unsupportedVersion "None"))
  | .bool false => .error (.raises (unsupportedVersion "False"))
  | _ => .error .beyond

/-- One mailbox. -/
def mailboxFromDict (e : String × Value) : Decoded (String × List Message) := do
  return (e.1, ← (← e.2.iter).mapM Message.fromDict)

/-- `Snapshot.from_dict`. -/
def fromDict (data : Value) : Decoded Snapshot := do
  let version ← data.get "version"
  let version ← checkVersion (version.getD (.int SNAPSHOT_VERSION))
  let tick ← data.item "tick"
  let agents ← (← (← data.item "agents").iter).mapM AgentRecord.fromDict
  let mailboxes ← (← Value.itemsOrEmpty (← data.get "mailboxes")).mapM mailboxFromDict
  return { tick := ← tick.asInt, agents, mailboxes := Dict.ofList mailboxes, version }

end Snapshot

/-! ## Texts -/

namespace Value

mutual

/-- A JSON value: plain data, in whose dictionaries no key occurs twice. -/
def isJson : Value → Bool
  | none | bool _ | int _ | str _ => true
  | list items => isJsonList items
  | dict items => decide (items.map Prod.fst).Nodup && isJsonItems items
  | object _ => false

def isJsonList : List Value → Bool
  | [] => true
  | v :: rest => v.isJson && isJsonList rest

def isJsonItems : List (String × Value) → Bool
  | [] => true
  | (_, v) :: rest => v.isJson && isJsonItems rest

end

end Value

/-- The `json` module, as far as snapshots use it. -/
structure JsonModule where
  /-- `json.dumps`. -/
  dumps : Value → Except Exc String
  /-- `json.loads`. -/
  loads : String → Decoded Value

/-- JSON values come back: `json.loads(json.dumps(v)) = v`. -/
def JsonModule.RoundTrips (json : JsonModule) : Prop :=
  ∀ v, v.isJson = true → ∃ text, json.dumps v = .ok text ∧ json.loads text = .ok v

namespace Snapshot

/-- `Snapshot.to_json`. -/
def toJson (json : JsonModule) (s : Snapshot) : Except Exc String := json.dumps s.toDict

/-- `Snapshot.from_json`. -/
def fromJson (json : JsonModule) (text : String) : Decoded Snapshot := do
  fromDict (← json.loads text)

/-- The payloads, the metadata and the saved data are JSON values. -/
structure IsJson (s : Snapshot) : Prop where
  data : ∀ r ∈ s.agents, ∀ v ∈ r.data.values, v.isJson = true
  payload : ∀ messages ∈ s.mailboxes.values, ∀ m ∈ messages, m.payload.isJson = true
  metadata : ∀ messages ∈ s.mailboxes.values, ∀ m ∈ messages, ∀ v ∈ m.metadata.values,
    v.isJson = true

end Snapshot

/-! ## Decoding what has been encoded -/

/-- What an encoder writes into a list can be read back, item by item. -/
private theorem mapM_map {α β : Type} {encode : α → β} {d : β → Decoded α} (l : List α)
    (h : ∀ a ∈ l, d (encode a) = .ok a) : (l.map encode).mapM d = .ok l := by
  induction l with
  | nil => rfl
  | cons a rest ih =>
    rw [List.map_cons, List.mapM_cons, h a (by simp), ih fun b hb => h b (by simp [hb])]
    rfl

theorem Value.orEmpty_entries (d : Metadata) :
    Value.orEmpty (some (.dict d.entries)) = .ok d := by
  have hlist := Dict.ofList_entries d
  cases hempty : d.entries.isEmpty with
  | true =>
    have hd : d = ∅ := Dict.ext (List.isEmpty_iff.mp hempty)
    simp [orEmpty, truthy, hd]
  | false => simp [orEmpty, truthy, hempty, hlist]

theorem Message.fromDict_toDict (m : Message) : Message.fromDict m.toDict = .ok m := by
  have hmetadata := Value.orEmpty_entries m.metadata
  simp [fromDict, toDict, Value.item, Value.get, Dict.find?, Value.asStr, hmetadata, bind,
    Except.bind, pure, Except.pure]

theorem AgentRecord.fromDict_toDict (r : AgentRecord) : fromDict r.toDict = .ok r := by
  have hdata := Value.orEmpty_entries r.data
  have hparent : (match r.parent with | some p => Value.str p | none => .none).asOptStr
      = .ok r.parent := by
    cases r.parent <;> rfl
  simp [fromDict, toDict, Value.item, Value.get, Dict.find?, Value.asStr, Value.asInt, hdata,
    hparent, bind, Except.bind, pure, Except.pure]

namespace Snapshot

theorem mailboxFromDict_toDict (e : String × List Message) :
    mailboxFromDict (e.1, .list (e.2.map Message.toDict)) = .ok e := by
  have hmessages : (e.2.map Message.toDict).mapM Message.fromDict = .ok e.2 :=
    mapM_map e.2 fun m _ => m.fromDict_toDict
  simp [mailboxFromDict, Value.iter, hmessages, bind, Except.bind, pure, Except.pure]

theorem itemsOrEmpty_dict (items : List (String × Value)) :
    Value.itemsOrEmpty (some (.dict items)) = .ok items := by
  cases items <;> rfl

/-- **`from_dict` undoes `to_dict`**, on snapshots of the version this build
reads. -/
theorem fromDict_toDict {s : Snapshot} (hversion : s.version = SNAPSHOT_VERSION) :
    fromDict s.toDict = .ok s := by
  obtain ⟨tick, agents, mailboxes, version⟩ := s
  obtain rfl : version = SNAPSHOT_VERSION := hversion
  have hagents : (agents.map AgentRecord.toDict).mapM AgentRecord.fromDict = .ok agents :=
    mapM_map agents fun r _ => r.fromDict_toDict
  have hmailboxes := mapM_map (d := mailboxFromDict) mailboxes.entries
    fun e _ => mailboxFromDict_toDict e
  have hlist := Dict.ofList_entries mailboxes
  simp [fromDict, toDict, Value.item, Value.get, Dict.find?, checkVersion, Value.iter, hagents,
    itemsOrEmpty_dict, hmailboxes, Value.asInt, hlist, bind, Except.bind, pure, Except.pure]

end Snapshot

/-! ## Encoded snapshots are JSON values -/

namespace Value

theorem isJsonList_iff (items : List Value) :
    isJsonList items = true ↔ ∀ v ∈ items, v.isJson = true := by
  induction items with
  | nil => simp [isJsonList]
  | cons v rest ih => simp [isJsonList, ih]

theorem isJsonItems_iff (items : List (String × Value)) :
    isJsonItems items = true ↔ ∀ v ∈ items.map Prod.snd, v.isJson = true := by
  induction items with
  | nil => simp [isJsonItems]
  | cons e rest ih => simp [isJsonItems, ih]

theorem isJson_list {items : List Value} (h : ∀ v ∈ items, v.isJson = true) :
    (list items).isJson = true := by
  rw [isJson, isJsonList_iff]
  exact h

theorem isJson_dict {items : List (String × Value)} (hkeys : (items.map Prod.fst).Nodup)
    (h : ∀ v ∈ items.map Prod.snd, v.isJson = true) : (dict items).isJson = true := by
  rw [isJson, Bool.and_eq_true, decide_eq_true_eq, isJsonItems_iff]
  exact ⟨hkeys, h⟩

theorem isJson_metadata {d : Metadata} (h : ∀ v ∈ d.values, v.isJson = true) :
    (dict d.entries).isJson = true :=
  isJson_dict d.nodup_keys h

end Value

theorem Message.isJson_toDict {m : Message} (hpayload : m.payload.isJson = true)
    (hmetadata : ∀ v ∈ m.metadata.values, v.isJson = true) : m.toDict.isJson = true := by
  have hdict := Value.isJson_metadata hmetadata
  refine Value.isJson_dict (by simp) fun v hv => ?_
  simp only [List.map_cons, List.map_nil, List.mem_cons, List.not_mem_nil, or_false] at hv
  rcases hv with rfl | rfl | rfl | rfl
  · rfl
  · rfl
  · exact hpayload
  · exact hdict

theorem AgentRecord.isJson_toDict {r : AgentRecord}
    (hdata : ∀ v ∈ r.data.values, v.isJson = true) : r.toDict.isJson = true := by
  have hdict := Value.isJson_metadata hdata
  refine Value.isJson_dict (by simp) fun v hv => ?_
  simp only [List.map_cons, List.map_nil, List.mem_cons, List.not_mem_nil, or_false] at hv
  rcases hv with rfl | rfl | rfl | rfl | rfl | rfl
  · rfl
  · rfl
  · rfl
  · cases r.parent <;> rfl
  · rfl
  · exact hdict

theorem Snapshot.isJson_toDict {s : Snapshot} (h : s.IsJson) : s.toDict.isJson = true := by
  have hagents : (Value.list (s.agents.map AgentRecord.toDict)).isJson = true := by
    refine Value.isJson_list fun v hv => ?_
    obtain ⟨r, hr, rfl⟩ := List.mem_map.mp hv
    exact AgentRecord.isJson_toDict (h.data r hr)
  have hmailboxes : (Value.dict (s.mailboxes.entries.map fun e =>
      (e.1, .list (e.2.map Message.toDict)))).isJson = true := by
    refine Value.isJson_dict ?_ fun v hv => ?_
    · rw [List.map_map]
      exact s.mailboxes.nodup_keys
    · rw [List.map_map] at hv
      obtain ⟨e, he, rfl⟩ := List.mem_map.mp hv
      have hmem : e.2 ∈ s.mailboxes.values := List.mem_map_of_mem he
      refine Value.isJson_list fun v hv => ?_
      obtain ⟨m, hm, rfl⟩ := List.mem_map.mp hv
      exact Message.isJson_toDict (h.payload _ hmem m hm) (h.metadata _ hmem m hm)
  refine Value.isJson_dict (by simp) fun v hv => ?_
  simp only [List.map_cons, List.map_nil, List.mem_cons, List.not_mem_nil, or_false] at hv
  rcases hv with rfl | rfl | rfl | rfl
  · rfl
  · rfl
  · exact hagents
  · exact hmailboxes

/-- **The encoding of snapshots loses nothing**: through a `json` module that gives
JSON values back, a snapshot of this version comes back from its text; it comes
back from its dictionary; and `to_dict` gives back every dictionary it can
produce, from what `from_dict` makes of it. -/
theorem snapshot_round_trip {json : JsonModule} (hjson : json.RoundTrips) {s : Snapshot}
    (hversion : s.version = SNAPSHOT_VERSION) (hplain : s.IsJson) :
    (∃ text, s.toJson json = .ok text ∧ Snapshot.fromJson json text = .ok s)
    ∧ Snapshot.fromDict s.toDict = .ok s
    ∧ (Snapshot.fromDict s.toDict).map Snapshot.toDict = .ok s.toDict := by
  have hdict := Snapshot.fromDict_toDict hversion
  obtain ⟨text, hdumps, hloads⟩ := hjson s.toDict (Snapshot.isJson_toDict hplain)
  refine ⟨⟨text, hdumps, ?_⟩, hdict, ?_⟩
  · rw [Snapshot.fromJson, hloads]
    exact hdict
  · rw [hdict]
    rfl

/-! ## A `json` module that gives JSON values back -/

namespace Value

mutual

/-- Plain data as JSON. -/
def toJson? : Value → Option Json
  | none => some .null
  | bool b => some (.bool b)
  | int n => some (.int n)
  | str s => some (.str s)
  | list items => (toJsonItems? items).map .arr
  | dict items => (toJsonMembers? items).map .obj
  | object _ => Option.none

def toJsonItems? : List Value → Option (List Json)
  | [] => some []
  | v :: rest => do
    let j ← v.toJson?
    let js ← toJsonItems? rest
    return j :: js

def toJsonMembers? : List (String × Value) → Option (List (String × Json))
  | [] => some []
  | (key, v) :: rest => do
    let j ← v.toJson?
    let js ← toJsonMembers? rest
    return (key, j) :: js

end

mutual

/-- JSON as plain data. Of two members with one key the last one counts. -/
def ofJson : Json → Value
  | .null => none
  | .bool b => bool b
  | .int n => int n
  | .str s => str s
  | .arr items => list (ofJsonItems items)
  | .obj members => dict (Dict.ofList (ofJsonMembers members)).entries

def ofJsonItems : List Json → List Value
  | [] => []
  | j :: rest => ofJson j :: ofJsonItems rest

def ofJsonMembers : List (String × Json) → List (String × Value)
  | [] => []
  | (key, j) :: rest => (key, ofJson j) :: ofJsonMembers rest

end

mutual

theorem exists_toJson? : (v : Value) → v.isJson = true →
    ∃ j, v.toJson? = some j ∧ ofJson j = v
  | none, _ => ⟨.null, rfl, rfl⟩
  | bool b, _ => ⟨.bool b, rfl, rfl⟩
  | int n, _ => ⟨.int n, rfl, rfl⟩
  | str s, _ => ⟨.str s, rfl, rfl⟩
  | list items, h => by
    obtain ⟨js, hjs, hback⟩ := exists_toJsonItems? items (by simpa [isJson] using h)
    exact ⟨.arr js, by simp [toJson?, hjs], by simp [ofJson, hback]⟩
  | dict items, h => by
    simp only [isJson, Bool.and_eq_true, decide_eq_true_eq] at h
    obtain ⟨js, hjs, hback⟩ := exists_toJsonMembers? items h.2
    refine ⟨.obj js, by simp [toJson?, hjs], ?_⟩
    have hentries := Dict.ofList_entries (⟨items, h.1⟩ : Dict String Value)
    rw [ofJson, hback, hentries]
  | object _, h => by simp [isJson] at h

theorem exists_toJsonItems? : (items : List Value) → isJsonList items = true →
    ∃ js, toJsonItems? items = some js ∧ ofJsonItems js = items
  | [], _ => ⟨[], rfl, rfl⟩
  | v :: rest, h => by
    simp only [isJsonList, Bool.and_eq_true] at h
    obtain ⟨j, hj, hv⟩ := exists_toJson? v h.1
    obtain ⟨js, hjs, hrest⟩ := exists_toJsonItems? rest h.2
    exact ⟨j :: js, by simp [toJsonItems?, hj, hjs], by simp [ofJsonItems, hv, hrest]⟩

theorem exists_toJsonMembers? : (items : List (String × Value)) → isJsonItems items = true →
    ∃ js, toJsonMembers? items = some js ∧ ofJsonMembers js = items
  | [], _ => ⟨[], rfl, rfl⟩
  | (key, v) :: rest, h => by
    simp only [isJsonItems, Bool.and_eq_true] at h
    obtain ⟨j, hj, hv⟩ := exists_toJson? v h.1
    obtain ⟨js, hjs, hrest⟩ := exists_toJsonMembers? rest h.2
    exact ⟨(key, j) :: js, by simp [toJsonMembers?, hj, hjs], by simp [ofJsonMembers, hv, hrest]⟩

end

end Value

/-- A `json` module for texts whose numbers are integers. -/
def integerJson : JsonModule where
  dumps v := match v.toJson? with
    | some j => .ok (String.ofList j.encode)
    | none => .error (.raised "TypeError" "Object of type object is not JSON serializable")
  loads text := match Json.decode text.toList with
    | some j => .ok (Value.ofJson j)
    | none => .error .beyond

theorem integerJson_roundTrips : integerJson.RoundTrips := by
  intro v hv
  obtain ⟨j, hj, hback⟩ := v.exists_toJson? hv
  refine ⟨String.ofList j.encode, by simp [integerJson, hj], ?_⟩
  simp [integerJson, Json.decode_encode, hback]

/-- A snapshot full of falsy values. -/
def sparse : Snapshot where
  tick := 0
  agents := [{ name := "", kind := "Idle", state := "waiting" },
    { name := "b", kind := "Ünïcode", state := "done", parent := some "", restarts := 2,
      data := Dict.ofList [("n", .int (-30)), ("seen", .list [.bool false, .none, .dict []])] }]
  mailboxes := Dict.ofList [("b", []),
    ("", [{ sender := "b", recipient := "*", payload := .int 0 },
      { sender := "b", recipient := "", payload := .str "\"\n",
        metadata := Dict.ofList [("k", .str "")] }])]

theorem snapshot_round_trip_sparse :
    (∃ text, sparse.toJson integerJson = .ok text ∧ Snapshot.fromJson integerJson text = .ok sparse)
    ∧ Snapshot.fromDict sparse.toDict = .ok sparse
    ∧ (Snapshot.fromDict sparse.toDict).map Snapshot.toDict = .ok sparse.toDict :=
  snapshot_round_trip integerJson_roundTrips rfl ⟨by decide, by decide, by decide⟩

end TitoOS

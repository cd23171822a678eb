import TitoOS.Gui.Handler
import TitoOS.Kernel.Faults
import TitoOS.Script

/-!
# The gate of the dashboard

Which requests reach an operation (`KernelGUI.handle_called_iff`), and that a
request that is refused leaves the kernel and the history as they were, whether
a guard refuses it or the operation itself (`KernelGUI.handle_refused`).

The operations refuse by a `GUIError`. The argument is that whatever else may go
wrong in them is not one: neither the faults of a step, nor what the standard
library raises on the data of a request.
-/

namespace TitoOS

variable {σ : Type} {d : Deployment σ} {lib : PythonLib} {gui gui' : KernelGUI σ} {r : GuiRequest}
  {scheds : Nat → List Nat} {e : Exc}

/-! ## What is no `GUIError` -/

/-- No fault of a step is a `GUIError`, if no hook raises one. -/
theorem StepFault.keepsGUIError {code : AgentCode σ} (hcode : code.KeepsGUIError)
    (h : StepFault code e) : e.isOneOf GUI_ERRORS = false := by
  cases h with
  | asyncAgent | runningLoop | unknownRecipient => rfl
  | escaped hbase => simp [Exc.isOneOf, hbase]
  | hook hraise => exact hcode _ _ _ hraise

/-- The value comes from `json.loads`, as a whole or as a part. -/
def PythonLib.Loaded (lib : PythonLib) (v : Value) : Prop :=
  ∃ raw top, lib.loads raw = .ok top ∧ top.Contains v

theorem isOneOf_valueErrors_of_guiErrors (h : e.isOneOf GUI_ERRORS = true) :
    e.isOneOf (TYPE_ERRORS ++ VALUE_ERRORS) = true := by
  obtain ⟨hexception, hcls⟩ := Bool.and_eq_true_iff.mp h
  have hcls : e.cls = "GUIError" := by simpa [GUI_ERRORS] using hcls
  simp [Exc.isOneOf, hexception, hcls, VALUE_ERRORS, GUI_ERRORS]

/-! Where the error of a composed computation comes from. -/

private theorem error_of_map {α β : Type} {x : Except Exc α} {f : α → β}
    (h : x.map f = .error e) : x = .error e := by
  cases x with
  | error raised => cases h; rfl
  | ok a => cases h

private theorem error_of_bind {α β : Type} {x : Except Exc α} {f : α → Except Exc β}
    (h : x >>= f = .error e) : x = .error e ∨ ∃ a, x = .ok a ∧ f a = .error e := by
  cases x with
  | error raised => cases h; exact .inl rfl
  | ok a => exact .inr ⟨a, rfl, h⟩

private theorem error_of_mapM {α β : Type} {f : α → Except Exc β} {l : List α}
    (h : l.mapM f = .error e) : ∃ a ∈ l, f a = .error e := by
  induction l with
  | nil => cases h
  | cons a rest ih =>
    rw [List.mapM_cons] at h
    rcases error_of_bind h with ha | ⟨b, -, hrest⟩
    · exact ⟨a, List.mem_cons_self, ha⟩
    · rcases error_of_bind hrest with hrest | ⟨bs, -, hpure⟩
      · obtain ⟨a', hmem, ha'⟩ := ih hrest
        exact ⟨a', List.mem_cons_of_mem a hmem, ha'⟩
      · cases hpure

namespace PythonLib

theorem jsonable_raises {v : Value} (hv : lib.Loaded v) (h : lib.jsonable v = .error e) :
    e.isOneOf GUI_ERRORS = false := by
  unfold jsonable at h
  split at h
  · exact lib.loadsText_raises h
  · split at h
    · obtain ⟨raw, top, hloads, hcontains⟩ := hv
      exact lib.repr_raises hloads hcontains (error_of_map h)
    · -- a `GUIError` of `dumps` would be a `ValueError`, and `repr` tried instead
      rename_i hother
      cases h
      cases hgui : e.isOneOf GUI_ERRORS with
      | false => rfl
      | true => exact absurd (isOneOf_valueErrors_of_guiErrors hgui) hother

theorem message_raises {m : Message} (hpayload : lib.Loaded m.payload)
    (hmetadata : ∀ entry ∈ m.metadata.entries, lib.Loaded entry.2)
    (h : lib.message m = .error e) : e.isOneOf GUI_ERRORS = false := by
  unfold message at h
  rcases error_of_bind h with h | ⟨payload, -, h⟩
  · exact jsonable_raises hpayload h
  · rcases error_of_bind h with h | ⟨metadata, -, h⟩
    · obtain ⟨entry, hmem, hentry⟩ := error_of_mapM h
      exact jsonable_raises (hmetadata entry hmem) (error_of_map hentry)
    · cases h

theorem loaded_none : lib.Loaded .none := ⟨_, _, lib.loads_null, .refl _⟩

theorem Loaded.entry {items : List (String × Value)} {entry : String × Value}
    (h : lib.Loaded (.dict items)) (hentry : entry ∈ items) : lib.Loaded entry.2 := by
  obtain ⟨raw, top, hloads, hcontains⟩ := h
  exact ⟨raw, top, hloads, hcontains.trans (.value hentry (.refl _))⟩

theorem Loaded.getOr {items : List (String × Value)} (h : lib.Loaded (.dict items))
    (key : String) {default : Value} (hdefault : lib.Loaded default) :
    lib.Loaded (getOr items key default) := by
  unfold TitoOS.getOr
  cases hfind : Dict.find? items key with
  | none => exact hdefault
  | some v => exact h.entry (Dict.find?_mem hfind)

end PythonLib

/-! ## Operations that refuse -/

namespace KernelGUI

theorem step_raises {sched : List Nat} (hcode : d.code.KeepsGUIError)
    (h : gui.step d sched = (gui', .error e)) : e.isOneOf GUI_ERRORS = false := by
  unfold step at h
  split at h
  · rename_i kernel raised hstep
    cases h
    exact (Kernel.stepWith_fault hstep).keepsGUIError hcode
  · cases h

/-- A run that is refused has not begun. -/
theorem run_refused {maxTicks : Value} (hcode : d.code.KeepsGUIError)
    (h : gui.run d scheds maxTicks = (gui', .error e)) (he : e.isOneOf GUI_ERRORS = true) :
    gui' = gui := by
  unfold run at h
  split at h
  · split at h
    · rename_i hbudget
      split at h
      · rename_i kernel raised hrun
        cases h
        have hkeeps := (Kernel.runBy_fault hbudget.1 hrun).keepsGUIError hcode
        exact absurd he (by simp [hkeeps])
      · cases h
    · cases h
      rfl
  · cases h
    rfl

/-- A message that is refused has not been posted. -/
theorem post_refused {m : Message} (hpayload : lib.Loaded m.payload)
    (hmetadata : ∀ entry ∈ m.metadata.entries, lib.Loaded entry.2)
    (h : gui.post lib m = (gui', .error e)) (he : e.isOneOf GUI_ERRORS = true) : gui' = gui := by
  unfold post at h
  split at h
  · cases h
    rfl
  · obtain ⟨-, hmessage⟩ := Prod.mk.inj h
    have hkeeps := PythonLib.message_raises hpayload hmetadata hmessage
    exact absurd he (by simp [hkeeps])

theorem send_refused {recipient payload metadata : Value} (hpayload : lib.Loaded payload)
    (hmetadata : lib.Loaded metadata)
    (h : gui.send lib recipient payload metadata = (gui', .error e))
    (he : e.isOneOf GUI_ERRORS = true) : gui' = gui := by
  unfold send at h
  split at h
  · split at h
    · cases h
      rfl
    · split at h
      · exact post_refused hpayload (fun _ hentry => absurd hentry List.not_mem_nil) h he
      · exact post_refused hpayload
          (fun entry hentry => hmetadata.entry (Dict.mem_of_mem_ofList hentry)) h he
      · cases h
        rfl
  · cases h
    rfl

/-- **An operation that refuses changes nothing.** -/
theorem perform_refused {route : String} {data : List (String × Value)}
    (hcode : d.code.KeepsGUIError) (hdata : d.lib.Loaded (.dict data))
    (h : gui.perform d scheds (.ofRoute route data) = (gui', .error e))
    (he : e.isOneOf GUI_ERRORS = true) : gui' = gui := by
  unfold GuiCall.ofRoute at h
  split at h
  · exact absurd he (by simp [step_raises hcode h])
  · split at h
    · exact run_refused hcode h he
    · exact send_refused (hdata.getOr "payload" PythonLib.loaded_none)
        (hdata.getOr "metadata" PythonLib.loaded_none) h he

end KernelGUI

/-! ## The guards -/

/-- The body is the JSON object `data`, of a length between 0 and `MAX_BODY`. An
absent or empty body counts as `{}`. -/
inductive GuiRequest.HasObject (lib : PythonLib) (r : GuiRequest) : List (String × Value) → Prop
  | empty (h : r.length? = some 0) : HasObject lib r []
  | object {length : Int} {data : List (String × Value)} (h : r.length? = some length)
      (hpos : 0 < length) (hmax : length ≤ MAX_BODY)
      (hloads : lib.loads (r.read length) = .ok (.dict data)) : HasObject lib r data

/-- A request that may reach an operation, with the object it brings along. -/
structure KernelGUI.Admits (lib : PythonLib) (gui : KernelGUI σ) (r : GuiRequest)
    (data : List (String × Value)) : Prop where
  method : r.method = .POST
  route : r.route = "/api/step" ∨ r.route = "/api/run" ∨ r.route = "/api/send"
  host : ∃ host, r.host = some host ∧ lib.lower host ∈ gui.allowedHosts lib
  mediaType : r.mediaType lib = "application/json"
  origin : ∀ origin, r.origin = some origin →
    ∃ host, origin = "http://" ++ host ∧ lib.lower host ∈ gui.allowedHosts lib
  body : r.HasObject lib data

theorem GuiRequest.HasObject.loaded {data : List (String × Value)} (h : r.HasObject lib data) :
    lib.Loaded (.dict data) := by
  cases h with
  | empty => exact ⟨_, _, lib.loads_braces, .refl _⟩
  | object _ _ _ hloads => exact ⟨_, _, hloads, .refl _⟩

namespace KernelGUI

theorem hostAllowed_some {host : String} (h : gui.hostAllowed lib (some host) = true) :
    lib.lower host ∈ gui.allowedHosts lib := by
  simpa [hostAllowed] using h

/-- There is a colon in every allowed host. -/
theorem empty_not_mem_allowedHosts (lib : PythonLib) (gui : KernelGUI σ) :
    "" ∉ gui.allowedHosts lib := by
  intro h
  obtain ⟨name, -, hname⟩ := List.mem_map.mp h
  have hempty := congrArg String.toList ((lib.lower_empty_iff _).mp hname)
  simp at hempty

theorem not_crossOrigin {host : String} (h : lib.lower host ∈ gui.allowedHosts lib) :
    gui.crossOrigin lib (some ("http://" ++ host)) = false := by
  have hparts : Text.partition [':', '/', '/'] ("http://" ++ host).toList
      = ("http".toList, [':', '/', '/'], host.toList) := by
    have hcolon : ':' ∉ "http".toList := by decide
    rw [String.toList_append]
    exact Text.partition_of_not_mem hcolon host.toList
  simp only [crossOrigin, hparts, String.ofList_toList, hostAllowed, bne_self_eq_false,
    Bool.false_or, Bool.not_eq_false', List.contains_iff_mem]
  exact h

/-- An `Origin` that passes names the scheme and an allowed host. -/
theorem origin_of_not_crossOrigin {origin : String}
    (h : gui.crossOrigin lib (some origin) = false) :
    ∃ host, origin = "http://" ++ host ∧ lib.lower host ∈ gui.allowedHosts lib := by
  have happend := Text.partition_append [':', '/', '/'] origin.toList
  have hfound := Text.partition_found [':', '/', '/'] origin.toList
  unfold crossOrigin at h
  rcases hparts : Text.partition [':', '/', '/'] origin.toList with ⟨scheme, found, rest⟩
  rw [hparts] at happend hfound
  simp only [hparts, Bool.or_eq_false_iff, bne_eq_false_iff_eq, Bool.not_eq_false'] at h
  obtain ⟨hscheme, hrest⟩ := h
  have hallowed := hostAllowed_some hrest
  rcases hfound with rfl | rfl
  · refine ⟨String.ofList rest, ?_, hallowed⟩
    have horigin : origin = String.ofList (scheme ++ ([':', '/', '/'] ++ rest)) := by
      rw [show scheme ++ _ = origin.toList from happend, String.ofList_toList]
    rw [horigin, String.ofList_append, String.ofList_append, hscheme, ← String.append_assoc]
    rfl
  · -- nothing after the separator would be the empty host
    rw [show String.ofList [] = "" from rfl, (lib.lower_empty_iff "").mpr rfl] at hallowed
    exact absurd hallowed (gui.empty_not_mem_allowedHosts lib)

/-- What passes `_body`. -/
theorem body_ok {data : List (String × Value)} (h : gui.body lib r = .ok data) :
    r.mediaType lib = "application/json" ∧ gui.crossOrigin lib r.origin = false
      ∧ r.HasObject lib data := by
  unfold body at h
  split at h
  · cases h
  · rename_i hmedia
    split at h
    · cases h
    · rename_i horigin
      refine ⟨by simpa using hmedia, by simpa using horigin, ?_⟩
      dsimp only at h
      split at h
      · cases h
      · rename_i hbounds
        cases hlength : r.length? with
        | none =>
          -- a length that cannot be read counts as -1
          rw [hlength] at hbounds
          exact absurd (show ¬(0 ≤ (-1 : Int) ∧ (-1 : Int) ≤ MAX_BODY) by decide) hbounds
        | some length =>
          rw [hlength, Option.getD_some] at hbounds h
          obtain ⟨hnonneg, hmax⟩ := not_not.mp hbounds
          by_cases hzero : length = 0
          · -- nothing is read, and `{}` is parsed instead
            rw [if_neg (not_not.mpr hzero), lib.loads_braces] at h
            cases h
            exact .empty (hzero ▸ hlength)
          · rw [if_pos hzero] at h
            split at h
            · split at h
              · cases h
              · cases h
            · rename_i hloads
              cases h
              exact .object hlength (by omega) hmax hloads
            · cases h

theorem body_of_hasObject {data : List (String × Value)}
    (hmedia : r.mediaType lib = "application/json")
    (horigin : gui.crossOrigin lib r.origin = false) (h : r.HasObject lib data) :
    gui.body lib r = .ok data := by
  unfold body
  cases h with
  | empty hlength => simp [hmedia, horigin, hlength, lib.loads_braces, MAX_BODY]
  | @object length _ hlength hpos hmax hloads =>
    have hzero : length ≠ 0 := by omega
    have hnonneg : 0 ≤ length := by omega
    simp [hmedia, horigin, hlength, hzero, hmax, hnonneg, hloads]

theorem host_of_guard (h : gui.guard lib r = .ok ()) :
    ∃ host, r.host = some host ∧ lib.lower host ∈ gui.allowedHosts lib := by
  unfold guard at h
  split at h
  · rename_i hallowed
    cases hhost : r.host with
    | none => rw [hhost] at hallowed; cases hallowed
    | some host => exact ⟨host, rfl, hostAllowed_some (hhost ▸ hallowed)⟩
  · cases h

/-! ## Requests -/

/-- A `GET` calls no operation, and hands the GUI on as it is. -/
theorem doGET_called (d : Deployment σ) (gui : KernelGUI σ) (r : GuiRequest) :
    (gui.doGET d r).called = none ∧ (gui.doGET d r).gui = gui := by
  unfold doGET
  split
  · exact ⟨rfl, rfl⟩
  · split
    · exact ⟨rfl, rfl⟩
    · split
      · exact ⟨rfl, rfl⟩
      · split
        · split
          · exact ⟨rfl, rfl⟩
          · split <;> exact ⟨rfl, rfl⟩
        · exact ⟨rfl, rfl⟩

/-- A `POST` calls no operation and changes nothing, or it has passed the gate
and is answered by what the operation it calls returns or raises. -/
theorem doPOST_cases (d : Deployment σ) (scheds : Nat → List Nat) (gui : KernelGUI σ)
    (hmethod : r.method = .POST) :
    ((gui.doPOST d scheds r).called = none ∧ (gui.doPOST d scheds r).gui = gui)
    ∨ ∃ data, gui.Admits d.lib r data ∧ ∃ gui' result,
        gui.perform d scheds (.ofRoute r.route data) = (gui', result)
        ∧ gui.doPOST d scheds r = {
            gui := gui'
            called := some (.ofRoute r.route data)
            answer := answerTo d.lib result } := by
  unfold doPOST
  -- every refusal before the call leaves the GUI as it is
  split
  · exact .inl ⟨rfl, rfl⟩
  · rename_i hguard
    split
    · exact .inl ⟨rfl, rfl⟩
    · rename_i hroute
      split
      · exact .inl ⟨rfl, rfl⟩
      · rename_i data hbody
        obtain ⟨hmedia, horigin, hobject⟩ := body_ok hbody
        refine .inr ⟨data, ?_, _, _, rfl, rfl⟩
        exact
          { method := hmethod
            route := by simpa [API_PATHS] using not_not.mp hroute
            host := host_of_guard hguard
            mediaType := hmedia
            origin := fun origin h => origin_of_not_crossOrigin (h ▸ horigin)
            body := hobject }

/-- A 4xx in answer to an operation is its `GUIError`. -/
theorem guiError_of_answerTo {result : Except Exc Value} {response : GuiResponse}
    (h : answerTo lib result = .ok response) (hstatus : response.status.IsClientError) :
    ∃ e, result = .error e ∧ e.isOneOf GUI_ERRORS = true := by
  cases result with
  | ok v =>
    -- 200
    rw [PythonLib.status_of_jsonAnswer h] at hstatus
    exact absurd hstatus (by decide)
  | error e =>
    cases he : e.isOneOf GUI_ERRORS with
    | true => exact ⟨e, rfl, he⟩
    | false =>
      simp only [answerTo, he, Bool.false_eq_true, if_false] at h
      split at h
      · -- 500
        rw [PythonLib.status_of_jsonAnswer h] at hstatus
        exact absurd hstatus (by decide)
      · cases h

theorem doPOST_of_admits {data : List (String × Value)} (h : gui.Admits d.lib r data) :
    (gui.doPOST d scheds r).called = some (.ofRoute r.route data) := by
  obtain ⟨host, hhost, hallowed⟩ := h.host
  have hguard : gui.guard d.lib r = .ok () := by simp [guard, hhost, hostAllowed, hallowed]
  have horigin : gui.crossOrigin d.lib r.origin = false := by
    cases hheader : r.origin with
    | none => rfl
    | some origin =>
      obtain ⟨host', rfl, hallowed'⟩ := h.origin origin hheader
      exact not_crossOrigin hallowed'
  have hbody := body_of_hasObject h.mediaType horigin h.body
  have hroute : r.route ∈ API_PATHS := by simpa [API_PATHS] using h.route
  simp [doPOST, hguard, hroute, hbody]

/-- **What the gate admits is called**, and nothing else is. -/
theorem handle_called_iff {call : GuiCall} : (gui.handle d scheds r).called = some call
    ↔ ∃ data, gui.Admits d.lib r data ∧ call = .ofRoute r.route data := by
  constructor
  · intro h
    unfold handle at h
    cases hmethod : r.method with
    | GET => simp [hmethod, gui.doGET_called d r] at h
    | POST =>
      rw [hmethod] at h
      rcases gui.doPOST_cases d scheds hmethod with ⟨hcalled, -⟩ | hadmitted
      · rw [hcalled] at h
        cases h
      · obtain ⟨data, hadmits, gui', result, -, hpost⟩ := hadmitted
        rw [hpost] at h
        exact ⟨data, hadmits, (Option.some.inj h).symm⟩
  · rintro ⟨data, hadmits, rfl⟩
    rw [handle, hadmits.method]
    exact doPOST_of_admits hadmits

/-- A request that is refused, before the call or by the operation, changes
nothing. -/
theorem handle_refused (hcode : d.code.KeepsGUIError) {response : GuiResponse}
    (h : (gui.handle d scheds r).answer = .ok response) (hstatus : response.status.IsClientError) :
    (gui.handle d scheds r).gui = gui := by
  unfold handle at h ⊢
  cases hmethod : r.method with
  | GET => exact (gui.doGET_called d r).2
  | POST =>
    rw [hmethod] at h
    rcases gui.doPOST_cases d scheds hmethod with ⟨-, hgui⟩ | hadmitted
    · exact hgui
    · obtain ⟨data, hadmits, gui', result, hperform, hpost⟩ := hadmitted
      rw [hpost] at h
      obtain ⟨e, rfl, he⟩ := guiError_of_answerTo h hstatus
      show (gui.doPOST d scheds r).gui = gui
      rw [hpost]
      exact perform_refused hcode hadmits.body.loaded hperform he

end KernelGUI

/-- **The GUI's gate.** A request calls an operation only if the gate admits it;
and when it is answered with a 4xx, the kernel and the history are as before. -/
theorem gui_gate (d : Deployment σ) (hcode : d.code.KeepsGUIError) (scheds : Nat → List Nat)
    (gui : KernelGUI σ) (r : GuiRequest) :
    (∀ call, (gui.handle d scheds r).called = some call →
      ∃ data, gui.Admits d.lib r data ∧ call = .ofRoute r.route data)
    ∧ ∀ response, (gui.handle d scheds r).answer = .ok response →
        response.status.IsClientError → (gui.handle d scheds r).gui = gui := by
  constructor
  · exact fun call h => KernelGUI.handle_called_iff.mp h
  · exact fun response hanswer hstatus => KernelGUI.handle_refused hcode hanswer hstatus

/-! ## Two requests -/

/-- `json.loads` of an ASCII text whose numbers are integers. -/
def loadsAscii (text : List Char) : Except Exc Value :=
  match Json.decode text with
  | some j => .ok (Value.ofJson j)
  | none => .error (.raised "JSONDecodeError" "Expecting value")

/-- A library for ASCII texts whose numbers are integers. -/
def asciiLib : PythonLib where
  lower s := String.ofList (s.toList.map Char.toLower)
  str := Exc.text
  repr v := .ok (String.ofList (v.toJson?.getD .null).encode)
  dumpsFinite := integerJson.dumps
  dumpsAny := integerJson.dumps
  loadsText text := loadsAscii text.toList
  loads raw := loadsAscii (raw.map fun b => Char.ofNat b.toNat)
  json := integerJson
  lower_empty_iff s := by
    rw [← String.toList_inj, ← String.toList_inj]
    simp
  loads_braces := rfl
  loads_null := rfl
  loadsText_raises h := by
    unfold loadsAscii at h
    split at h
    · cases h
    · cases h
      rfl
  repr_raises _ _ h := nomatch h

/-- A kernel with one agent, served on its own machine. -/
def dashboard : KernelGUI Script where
  kernel := { objects := [(Script.agent "a" (by decide) [.wait]).toAgent]
              agents := Dict.ofList [("a", 0)]
              bus := { mailboxes := Dict.ofList [("a", [])] } }
  port := 8000

/-- It runs on `SerialBackend`. -/
def serialDashboard : Deployment Script where
  code := scripted
  backend := .serial
  lib := asciiLib

/-- A step, from the page itself. -/
def stepRequest : GuiRequest where
  method := .POST
  path := "/api/step?now"
  host := some "LOCALHOST:8000"
  origin := some "http://localhost:8000"
  contentType := some "Application/JSON; charset=utf-8"

/-- `{"to":"b"}`. -/
def strayRequest : GuiRequest where
  method := .POST
  path := "/api/send"
  host := some "127.0.0.1:8000"
  contentType := some "application/json"
  contentLength := some "10"
  body := [123, 34, 116, 111, 34, 58, 34, 98, 34, 125]

/-- The step is admitted, and a message to nobody changes nothing. -/
theorem gui_gate_requests :
    (∃ data, dashboard.Admits asciiLib stepRequest data
      ∧ GuiCall.step = .ofRoute stepRequest.route data)
    ∧ (dashboard.handle serialDashboard (fun _ => [0, 0]) strayRequest).gui = dashboard := by
  have hcode : serialDashboard.code.KeepsGUIError := fun _ _ _ h => nomatch h
  obtain ⟨response, hanswer, hstatus⟩ :
      ∃ response, (dashboard.handle serialDashboard (fun _ => [0, 0]) strayRequest).answer
        = .ok response ∧ response.status.IsClientError := ⟨_, rfl, by decide⟩
  exact ⟨(gui_gate serialDashboard hcode (fun _ => [0, 0]) dashboard stepRequest).1 .step
      (by decide),
    (gui_gate serialDashboard hcode _ dashboard strayRequest).2 response hanswer hstatus⟩

end TitoOS

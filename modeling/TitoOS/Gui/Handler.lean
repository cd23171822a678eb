import TitoOS.Gui.Server
import TitoOS.Lib.Text

/-!
# The request handler

`Handler` (`gui/server.py`): what a `GET` or `POST` request does to the GUI, and
what it is answered. A step of the handler that has already answered hands the
answer on in the error of an `Except`.
-/

namespace TitoOS

variable {σ : Type}

/-- `MAX_BODY`. -/
def MAX_BODY : Int := 64 * 1024

/-- The POST routes. -/
def API_PATHS : List String := ["/api/step", "/api/run", "/api/send"]

/-! ## Requests and responses -/

/-- The methods the handler serves. -/
inductive HttpMethod where
  | GET
  | POST
  deriving DecidableEq

/-- A request, with the headers that the handler reads. `body` is what the
client sends before it closes the connection. -/
structure GuiRequest where
  method : HttpMethod
  path : String
  host : Option String := none
  origin : Option String := none
  contentType : Option String := none
  contentLength : Option String := none
  body : List UInt8 := []
  deriving DecidableEq

/-- `HTTPStatus`, the members that are used. -/
inductive HTTPStatus where
  | OK
  | BAD_REQUEST
  | FORBIDDEN
  | NOT_FOUND
  | CONFLICT
  | REQUEST_ENTITY_TOO_LARGE
  | UNSUPPORTED_MEDIA_TYPE
  | INTERNAL_SERVER_ERROR
  deriving DecidableEq

namespace HTTPStatus

/-- The status code. -/
def code : HTTPStatus → Nat
  | OK => 200
  | BAD_REQUEST => 400
  | FORBIDDEN => 403
  | NOT_FOUND => 404
  | CONFLICT => 409
  | REQUEST_ENTITY_TOO_LARGE => 413
  | UNSUPPORTED_MEDIA_TYPE => 415
  | INTERNAL_SERVER_ERROR => 500

/-- 4xx. -/
def IsClientError (s : HTTPStatus) : Prop := 400 ≤ s.code ∧ s.code < 500

instance (s : HTTPStatus) : Decidable s.IsClientError := inferInstanceAs (Decidable (_ ∧ _))

end HTTPStatus

/-- A response. -/
structure GuiResponse where
  status : HTTPStatus
  headers : List (String × String)
  body : List UInt8
  deriving DecidableEq

/-- How a request ends: with a response, or with an exception that leaves the
handler. -/
abbrev Answer := Except Exc GuiResponse

/-- `text.encode("utf-8")`. -/
def utf8 (text : String) : List UInt8 := text.toUTF8.data.toList

/-- `_send`. -/
def GuiResponse.make (status : HTTPStatus) (body : List UInt8) (contentType : String) :
    GuiResponse where
  status := status
  headers := [("Content-Type", contentType), ("Content-Length", toString body.length),
    ("Cache-Control", "no-store"), ("X-Content-Type-Options", "nosniff"),
    ("X-Frame-Options", "DENY"),
    ("Content-Security-Policy", "default-src 'none'; script-src 'unsafe-inline'; "
      ++ "style-src 'unsafe-inline'; connect-src 'self'; "
      ++ "base-uri 'none'; form-action 'none'; frame-ancestors 'none'")]
  body := body

namespace PythonLib

variable (lib : PythonLib)

/-- `_json`. -/
def jsonAnswer (status : HTTPStatus) (data : Value) : Answer := do
  return .make status (utf8 (← lib.dumpsAny data)) "application/json; charset=utf-8"

theorem status_of_jsonAnswer {lib : PythonLib} {status : HTTPStatus} {data : Value}
    {response : GuiResponse} (h : lib.jsonAnswer status data = .ok response) :
    response.status = status := by
  unfold jsonAnswer at h
  cases hdumps : lib.dumpsAny data with
  | error e => rw [hdumps] at h; cases h
  | ok text => rw [hdumps] at h; cases h; rfl

/-- `_error`. -/
def errorAnswer (status : HTTPStatus) (message : String) : Answer :=
  lib.jsonAnswer status (.dict [("error", .str message)])

end PythonLib

/-! ## The guards -/

namespace GuiRequest

/-- The path without its query. -/
def route (r : GuiRequest) : String := Text.upTo '?' r.path

/-- The media type, in lower case. -/
def mediaType (lib : PythonLib) (r : GuiRequest) : String :=
  lib.lower (Text.strip (Text.upTo ';' (r.contentType.getD "")))

/-- The length of the body, by its header. -/
def length? (r : GuiRequest) : Option Int := Text.int? (r.contentLength.getD "0")

/-- `self.rfile.read(length)`. -/
def read (r : GuiRequest) (length : Int) : List UInt8 := r.body.take length.toNat

end GuiRequest

namespace KernelGUI

/-- `_guard`: the answer to a request that does not pass. -/
def guard (lib : PythonLib) (gui : KernelGUI σ) (r : GuiRequest) : Except Answer Unit :=
  if gui.hostAllowed lib r.host then .ok ()
  else .error (lib.errorAnswer .FORBIDDEN "host not allowed")

/-- The `Origin` header is there and of another site. -/
def crossOrigin (lib : PythonLib) (gui : KernelGUI σ) : Option String → Bool
  | none => false
  | some origin =>
    let (scheme, _, rest) := Text.partition [':', '/', '/'] origin.toList
    String.ofList scheme != "http" || !gui.hostAllowed lib (some (String.ofList rest))

/-- `_body`: the object that the body holds, or the answer to a request whose
body is refused. -/
def body (lib : PythonLib) (gui : KernelGUI σ) (r : GuiRequest) :
    Except Answer (List (String × Value)) :=
  if r.mediaType lib ≠ "application/json" then
    .error (lib.errorAnswer .UNSUPPORTED_MEDIA_TYPE "expected application/json")
  else if gui.crossOrigin lib r.origin then
    .error (lib.errorAnswer .FORBIDDEN "cross-origin request refused")
  else
    let length := r.length?.getD (-1)
    if ¬(0 ≤ length ∧ length ≤ MAX_BODY) then
      .error (lib.errorAnswer .REQUEST_ENTITY_TOO_LARGE "invalid body length")
    else
      let raw := if length ≠ 0 then r.read length else [123, 125]
      match lib.loads raw with
      | .error e =>
        if e.isOneOf VALUE_ERRORS then
          .error (lib.errorAnswer .BAD_REQUEST "body is not valid JSON")
        else .error (.error e)
      | .ok (.dict items) => .ok items
      | .ok _ => .error (lib.errorAnswer .BAD_REQUEST "body must be a JSON object")

end KernelGUI

/-! ## Routes -/

/-- A call of one of the three operations. -/
inductive GuiCall where
  | step
  | run (maxTicks : Value)
  | send (recipient payload metadata : Value)
  deriving DecidableEq

/-- `data.get(key, default)`. -/
def getOr (items : List (String × Value)) (key : String) (default : Value) : Value :=
  (Dict.find? items key).getD default

/-- The call that a POST to `route` with the body `data` makes. -/
def GuiCall.ofRoute (route : String) (data : List (String × Value)) : GuiCall :=
  if route = "/api/step" then .step
  else if route = "/api/run" then .run (getOr data "max_ticks" (.int 100))
  else .send (getOr data "to" (.str "")) (getOr data "payload" .none) (getOr data "metadata" .none)

/-- What comes of a request: the GUI afterwards, the operation that has been
called, if any, and how the request ends. -/
structure Handled (σ : Type) where
  gui : KernelGUI σ
  called : Option GuiCall := none
  answer : Answer

namespace KernelGUI

/-- The call of an operation. -/
def perform (d : Deployment σ) (scheds : Nat → List Nat) (gui : KernelGUI σ) :
    GuiCall → KernelGUI σ × Except Exc Value
  | .step => gui.step d (scheds 0)
  | .run maxTicks => gui.run d scheds maxTicks
  | .send recipient payload metadata => gui.send d.lib recipient payload metadata

/-- The end of `do_POST`: the answer to what the operation returns or raises. -/
def answerTo (lib : PythonLib) : Except Exc Value → Answer
  | .ok result => lib.jsonAnswer .OK result
  | .error e =>
    if e.isOneOf GUI_ERRORS then lib.errorAnswer .BAD_REQUEST (lib.str e)
    else if e.isException then
      lib.errorAnswer .INTERNAL_SERVER_ERROR (e.cls ++ ": " ++ lib.str e)
    else .error e

/-- `do_GET`. -/
def doGET (d : Deployment σ) (gui : KernelGUI σ) (r : GuiRequest) : Handled σ :=
  match gui.guard d.lib r with
  | .error answer => { gui, answer }
  | .ok () =>
    if r.route ∈ ["/", "/index.html"] then
      { gui, answer := .ok (.make .OK d.page "text/html; charset=utf-8") }
    else if r.route = "/api/state" then
      { gui, answer := (gui.state d).bind (d.lib.jsonAnswer .OK) }
    else if r.route = "/api/snapshot" then
      match gui.snapshot d with
      | .ok text => { gui, answer := .ok (.make .OK (utf8 text) "application/json; charset=utf-8") }
      | .error e =>
        if e.isOneOf (RUNTIME_ERRORS ++ TYPE_ERRORS ++ VALUE_ERRORS) then
          { gui, answer := d.lib.errorAnswer .CONFLICT ("cannot snapshot: " ++ d.lib.str e) }
        else { gui, answer := .error e }
    else { gui, answer := d.lib.errorAnswer .NOT_FOUND "not found" }

/-- `do_POST`, when the atomic actions of the `i`-th tick happen in the order
`scheds i`. -/
def doPOST (d : Deployment σ) (scheds : Nat → List Nat) (gui : KernelGUI σ) (r : GuiRequest) :
    Handled σ :=
  match gui.guard d.lib r with
  | .error answer => { gui, answer }
  | .ok () =>
    if r.route ∉ API_PATHS then { gui, answer := d.lib.errorAnswer .NOT_FOUND "not found" }
    else
      match gui.body d.lib r with
      | .error answer => { gui, answer }
      | .ok data =>
        let call := GuiCall.ofRoute r.route data
        let (gui', result) := gui.perform d scheds call
        { gui := gui', called := some call, answer := answerTo d.lib result }

/-- The handler. -/
def handle (d : Deployment σ) (scheds : Nat → List Nat) (gui : KernelGUI σ) (r : GuiRequest) :
    Handled σ :=
  match r.method with
  | .GET => gui.doGET d r
  | .POST => gui.doPOST d scheds r

end KernelGUI

end TitoOS

import TitoOS.Lib.Dict
import TitoOS.Lib.Program

/-!
# The HTTP driver

`HttpIntegration` (`http.py`), as programs that call on the opener, on the
response it returns and on the body of an `HTTPError`. What the driver takes
from the standard library to pull text apart and put it together is a parameter
(`Urllib`).
-/

namespace TitoOS

/-- What is wrong, in an `IntegrationError` of the driver. -/
inductive HttpFailure where
  /-- `unsupported HTTP method: {method!r}` -/
  | unsupportedMethod (method : String)
  /-- `malformed URL {url!r}: {exc}` -/
  | malformedUrl (url exc : String)
  /-- `unsupported URL scheme {scheme!r}; only http and https are allowed` -/
  | unsupportedScheme (scheme : String)
  /-- `URL has no host: {url!r}` -/
  | noHost (url : String)
  /-- `host {host!r} is not in the allowlist ({', '.join(allowed)})` -/
  | notAllowed (host : String) (allowed : List String)
  /-- `{method} {url} failed: {exc}` -/
  | failed (method url exc : String)
  /-- `{method} {url} returned more than max_bytes ({maxBytes} bytes)` -/
  | tooLarge (method url : String) (maxBytes : Int)
  deriving DecidableEq

/-- `IntegrationError`. -/
structure HttpIntegrationError where
  message : HttpFailure
  integration : String
  operation : String
  deriving DecidableEq

/-- `urllib.error.HTTPError`: an answer with an error status. -/
structure HTTPError where
  code : Int
  url : Option String
  headers : Option (List (String × String))
  deriving DecidableEq

/-- What the standard library or the driver raises, with the text of the
exception. `URLError` is an `OSError`, `HTTPError` a `URLError`, `UnicodeError` a
`ValueError`; `http.client.HTTPException` is none of these. -/
inductive HttpRaised where
  | httpError (exc : HTTPError)
  | urlError (text : String)
  | osError (text : String)
  | valueError (text : String)
  | unicodeError (text : String)
  | httpException (text : String)
  | integration (e : HttpIntegrationError)
  deriving DecidableEq

/-- `urllib.request.Request`. -/
structure HttpRequest where
  url : String
  data : Option (List UInt8)
  method : String
  headers : Dict String String
  deriving DecidableEq

/-- What the driver reads off a response. -/
structure HttpHead where
  status : Int
  /-- `geturl()` -/
  url : String
  headers : List (String × String)
  deriving DecidableEq

/-- `HttpResponse`. -/
structure HttpResponse where
  status : Int
  url : String
  body : String
  headers : Dict String String
  deriving DecidableEq

/-- The calls of `request`. -/
inductive HttpCall where
  /-- `opener.open(request, timeout=...)`, redirects included -/
  | openUrl (request : HttpRequest) (timeout : Rat)
  /-- `response.read(size)` -/
  | read (size : Int)
  /-- `response.close()`, at the end of `with` -/
  | close
  /-- `exc.read(size)`, of an `HTTPError` -/
  | readError (size : Int)
  deriving DecidableEq

/-- What a call returns. -/
@[reducible] def HttpCall.Result : HttpCall → Type
  | openUrl .. => HttpHead
  | read _ | readError _ => List UInt8
  | close => Unit

/-- A program that makes these calls. -/
abbrev HttpProg := Program HttpCall HttpCall.Result HttpRaised

/-- One call. -/
abbrev http (op : HttpCall) : HttpProg op.Result := Program.perform op

/-- `urllib.parse.SplitResult`. -/
structure SplitResult where
  scheme : String
  netloc : String
  path : String
  query : String
  fragment : String
  hostname : Option String
  deriving DecidableEq

/-- What the driver uses of the standard library. -/
structure Urllib where
  /-- raises a `ValueError` with the given text -/
  urlsplit : String → Except String SplitResult
  urlunsplit : (scheme netloc path query fragment : String) → String
  /-- raises a `UnicodeError` with the given text -/
  urlencode : Dict String String → Except String String
  /-- `payload.decode("utf-8", errors="replace")` -/
  decode : List UInt8 → String
  upper : String → String
  lower : String → String

/-- `_ALLOWED_SCHEMES`. -/
def ALLOWED_SCHEMES : List String := ["http", "https"]

/-- `_ALLOWED_METHODS`. -/
def ALLOWED_METHODS : List String := ["GET", "POST", "PUT", "PATCH", "DELETE", "HEAD"]

/-- `HttpIntegration`. The constructor refuses an empty name, an empty allowlist,
and a timeout or size limit that is not positive. -/
structure HttpIntegration where
  name : String := "http"
  name_ne : name ≠ "" := by decide
  /-- without repetitions, in lower case -/
  allowedHosts : List String
  allowedHosts_ne : allowedHosts ≠ [] := by decide
  timeout : Rat := 10
  timeout_pos : 0 < timeout := by decide
  maxBytes : Int := 1 <<< 20
  maxBytes_pos : 0 < maxBytes := by decide
  headers : Dict String String := ∅

namespace HttpIntegration

/-! The defaults pass the checks of the constructor. -/

theorem default_name_ne : "http" ≠ "" := by decide

theorem default_timeout_pos : (0 : Rat) < 10 := by decide

theorem default_maxBytes_pos : (0 : Int) < 1 <<< 20 := by decide

variable (self : HttpIntegration) (lib : Urllib)

/-- `_fail`. -/
def fail (message : HttpFailure) (operation : String) : HttpRaised :=
  .integration { message, integration := self.name, operation }

/-- `_host_allowed`. -/
def hostAllowed (host : String) : Bool :=
  self.allowedHosts.any fun pattern =>
    host == pattern
      || (['.'].isPrefixOf pattern.toList && pattern.toList.isSuffixOf host.toList)
      || host.toList == pattern.toList.dropWhile (· = '.')

/-- `_check`: the URL to open. -/
def check (url method operation : String) : Except HttpRaised String :=
  if method ∉ ALLOWED_METHODS then .error (self.fail (.unsupportedMethod method) operation)
  else
    match lib.urlsplit url with
    | .error exc => .error (self.fail (.malformedUrl url exc) operation)
    | .ok parsed =>
      let scheme := lib.lower parsed.scheme
      if scheme ∉ ALLOWED_SCHEMES then
        .error (self.fail (.unsupportedScheme parsed.scheme) operation)
      else
        let host := lib.lower (parsed.hostname.getD "")
        if host = "" then .error (self.fail (.noHost url) operation)
        else if !self.hostAllowed host then
          .error (self.fail
            (.notAllowed host (self.allowedHosts.mergeSort fun a b => decide (a ≤ b))) operation)
        else .ok (lib.urlunsplit scheme parsed.netloc parsed.path parsed.query "")

/-- `request`. -/
def request (method url : String) (body : Option (List UInt8) := none)
    (headers : Dict String String := ∅) : HttpProg HttpResponse := do
  let method := lib.upper method
  let safeUrl ← Program.done (self.check lib url method "request")
  let request : HttpRequest :=
    { url := safeUrl, data := body, method
      headers := headers.entries.foldl (fun d e => d.set e.1 e.2) self.headers }
  let answer : List UInt8 × HttpHead ← Program.catching
    (do
      let response ← http (.openUrl request self.timeout)
      let payload ← (http (.read (self.maxBytes + 1))).finallyDo (http .close)
      pure (payload, response))
    fun
    | .httpError exc => do
      -- an answer, not a failure
      let payload ← http (.readError (self.maxBytes + 1))
      let finalUrl := exc.url.getD ""
      pure (payload,
        { status := exc.code
          url := if finalUrl = "" then safeUrl else finalUrl
          headers := exc.headers.getD [] })
    | .urlError text | .osError text | .valueError text | .unicodeError text =>
      Program.throw (self.fail (.failed method safeUrl text) "request")
    | x => Program.throw x
  if answer.1.length > self.maxBytes then
    Program.throw (self.fail (.tooLarge method safeUrl self.maxBytes) "request")
  else
    pure { status := answer.2.status, url := answer.2.url, body := lib.decode answer.1
           headers := Dict.ofList answer.2.headers }

/-- The URL of `get`, with the parameters in its query. -/
def withParams (url : String) (params : Dict String String) : Except HttpRaised String :=
  if params.entries.isEmpty then .ok url
  else
    match lib.urlsplit url with
    | .error exc => .error (self.fail (.malformedUrl url exc) "get")
    | .ok parsed =>
      match lib.urlencode params with
      | .error text => .error (.unicodeError text)
      | .ok encoded =>
        let query := if parsed.query ≠ "" then parsed.query ++ "&" ++ encoded else encoded
        .ok (lib.urlunsplit parsed.scheme parsed.netloc parsed.path query parsed.fragment)

/-- `get`. -/
def get (url : String) (params : Dict String String := ∅) (headers : Dict String String := ∅) :
    HttpProg HttpResponse := do
  let url ← Program.done (self.withParams lib url params)
  self.request lib "GET" url none headers

end HttpIntegration

/-- An operation of the driver with its arguments. -/
inductive HttpOperation where
  | get (url : String) (params headers : Dict String String)
  | request (method url : String) (body : Option (List UInt8)) (headers : Dict String String)

/-- The driver performs an operation. -/
def HttpIntegration.perform (self : HttpIntegration) (lib : Urllib) :
    HttpOperation → HttpProg HttpResponse
  | .get url params headers => self.get lib url params headers
  | .request method url body headers => self.request lib method url body headers

end TitoOS

import TitoOS.Files.Confinement
import TitoOS.Files.Failures
import TitoOS.Http.Driver

/-!
# Drivers fail with `IntegrationError`

"A call that cannot be completed raises `IntegrationError`." Each driver keeps
to that as far as its `except` clauses go: `OSError` around the calls of the
filesystem, `URLError`, `OSError` and `ValueError` around those of the opener,
nothing around the reading of an error body and around the encodings.
`drivers_raise_iff` says exactly when an operation ends as promised.
-/

namespace TitoOS

/-- A result, or an `IntegrationError`. -/
def HttpRaised.Expected {α : Type} : Except HttpRaised α → Prop
  | .ok _ => True
  | .error x => ∃ e, x = .integration e

def HttpRaised.isIntegration : HttpRaised → Bool
  | .integration _ => true
  | _ => false

def HttpRaised.isHttpException : HttpRaised → Bool
  | .httpException _ => true
  | _ => false

/-- The exception leaves `request` as it is: any from an error body, and
`HTTPException` from the calls inside the `try`. -/
def HttpCall.uncaught : HttpCall → HttpRaised → Bool
  | .readError _, x => !x.isIntegration
  | _, x => x.isHttpException

/-- A call of the HTTP driver and its answer, in a world `W`. -/
abbrev HttpEvent (W : Type) := Event W HttpCall HttpCall.Result HttpRaised

/-- The last call to fail failed with something that is not caught. -/
def strayAnswer {W : Type} (es : List (HttpEvent W)) : Bool := spoiled HttpCall.uncaught es

namespace HttpIntegration

variable {self : HttpIntegration} {lib : Urllib} {W α : Type}
  {env : Surroundings W HttpCall HttpCall.Result HttpRaised}

/-- The operation ends in what is expected of it exactly when no stray answer
was the last failure. -/
def Reports (env : Surroundings W HttpCall HttpCall.Result HttpRaised) (p : HttpProg α) : Prop :=
  ∀ past w, strayAnswer past = false → p.Guarded env (fun _ _ => True)
    (fun outcome past _ => HttpRaised.Expected outcome ↔ strayAnswer past = false) past w

theorem check_expected {url method operation : String} :
    HttpRaised.Expected (self.check lib url method operation) := by
  unfold check
  split
  · exact ⟨_, rfl⟩
  · split
    · exact ⟨_, rfl⟩
    · simp only
      split
      · exact ⟨_, rfl⟩
      · split
        · exact ⟨_, rfl⟩
        · split
          · exact ⟨_, rfl⟩
          · trivial

namespace Reports

variable {β : Type}

theorem done {outcome : Except HttpRaised α} (h : HttpRaised.Expected outcome) :
    Reports env (Program.done outcome) := fun _ _ hpast =>
  .of_done ⟨fun _ => hpast, fun _ => h⟩

theorem ret (a : α) : Reports env (pure a : HttpProg α) := fun _ _ hpast =>
  ⟨fun _ => hpast, fun _ => trivial⟩

theorem raising (e : HttpIntegrationError) :
    Reports env (Program.throw (.integration e) : HttpProg α) := fun _ _ hpast =>
  ⟨fun _ => hpast, fun _ => ⟨e, rfl⟩⟩

theorem bind {p : HttpProg α} {f : α → HttpProg β} (h : Reports env p)
    (hf : ∀ a, Reports env (f a)) : Reports env (p >>= f) := fun past w hpast => by
  refine Program.Guarded.bind ((h past w hpast).mono fun outcome past w hout => ?_)
  cases outcome with
  | ok a => exact hf a past w (hout.mp trivial)
  | error => exact hout

end Reports

/-- The calls inside the `try` of `request`. -/
theorem body_tracks {request : HttpRequest} :
    Program.Tracks env HttpCall.uncaught HttpRaised.isHttpException (do
      let response ← http (.openUrl request self.timeout)
      let payload ← (http (.read (self.maxBytes + 1))).finallyDo (http .close)
      pure (payload, response)) := by
  refine .bind (.perform fun _ => rfl) fun response =>
    .bind (fun past w hpast => ?_) fun _ => .ret _
  exact (Program.Tracks.perform (fun _ => rfl) past w hpast).finallyDo
    (Program.follows_perform fun _ => rfl)

/-- Reading an error body: whatever it raises leaves `request`. -/
theorem readError_reports {size : Int} : Reports env (http (.readError size)) :=
  fun past w hpast => .perform fun v answer w' _ _ => ⟨trivial, by
    cases answer with
    | ok =>
      rw [strayAnswer, spoiled_append_ok]
      exact ⟨fun _ => hpast, fun _ => trivial⟩
    | error x =>
      rw [strayAnswer, spoiled_append_error]
      cases x with
      | integration e => exact ⟨fun _ => rfl, fun _ => ⟨e, rfl⟩⟩
      | _ =>
        refine ⟨fun h => ?_, fun h => Bool.noConfusion h⟩
        obtain ⟨e, he⟩ := h
        cases he⟩

theorem request_reports {method url : String} {body : Option (List UInt8)}
    {headers : Dict String String} : Reports env (self.request lib method url body headers) := by
  refine .bind (.done check_expected) fun safeUrl => .bind (fun past w hpast => ?_) fun answer => ?_
  · refine Program.Guarded.catching ((body_tracks past w hpast).mono fun outcome past w hout => ?_)
    cases outcome with
    | ok => exact ⟨fun _ => hout, fun _ => trivial⟩
    | error x =>
      cases x with
      | httpError exc => exact Reports.bind readError_reports (fun _ => .ret _) past w hout
      | urlError | osError | valueError | unicodeError => exact Reports.raising _ past w hout
      | httpException =>
        refine ⟨fun h => ?_, fun h => absurd (h.symm.trans hout) Bool.noConfusion⟩
        obtain ⟨e, he⟩ := h
        cases he
      | integration e => exact Reports.raising e past w hout
  · split
    · exact .raising _
    · exact .ret _

/-- The parameters of a `get` can be encoded, unless there are none or the URL
is refused before. -/
def Encodes (lib : Urllib) : HttpOperation → Prop
  | .get url params _ => params.entries.isEmpty = false → (lib.urlsplit url).isOk = true →
      (lib.urlencode params).isOk = true
  | .request .. => True

theorem withParams_expected_iff {url : String} {params headers : Dict String String} :
    HttpRaised.Expected (self.withParams lib url params)
      ↔ Encodes lib (.get url params headers) := by
  show _ ↔ (params.entries.isEmpty = false → (lib.urlsplit url).isOk = true →
    (lib.urlencode params).isOk = true)
  unfold withParams
  cases params.entries.isEmpty with
  | true => exact ⟨fun _ h => Bool.noConfusion h, fun _ => trivial⟩
  | false =>
    cases lib.urlsplit url with
    | error => exact ⟨fun _ _ h => Bool.noConfusion h, fun _ => ⟨_, rfl⟩⟩
    | ok parsed =>
      cases lib.urlencode params with
      | error =>
        refine ⟨fun h => ?_, fun h => Bool.noConfusion (h rfl rfl)⟩
        obtain ⟨e, he⟩ := h
        cases he
      | ok => exact ⟨fun _ _ _ => rfl, fun _ => trivial⟩

theorem get_outcome {url : String} {params headers : Dict String String} {w : W} :
    (self.get lib url params headers).Guarded env (fun _ _ => True)
      (fun outcome past _ => HttpRaised.Expected outcome
        ↔ HttpRaised.Expected (self.withParams lib url params) ∧ strayAnswer past = false)
      [] w := by
  have hnone : strayAnswer ([] : List (HttpEvent W)) = false := rfl
  unfold get
  cases self.withParams lib url params with
  | error x => exact ⟨fun h => ⟨h, hnone⟩, fun h => h.1⟩
  | ok url =>
    exact (request_reports [] w hnone).mono fun outcome past w hout =>
      hout.trans ⟨fun h => ⟨trivial, h⟩, fun h => h.2⟩

/-- **What an operation raises**: it ends in a response or an `IntegrationError`
exactly when the parameters can be encoded and the last call to fail, if any,
failed in a way that is caught there. -/
theorem perform_outcome {r : HttpOperation} {w u : W} {es : List (HttpEvent W)}
    {outcome : Except HttpRaised HttpResponse}
    (h : Program.Exec env (self.perform lib r) w es (Program.done outcome) u) :
    HttpRaised.Expected outcome ↔ Encodes lib r ∧ strayAnswer es = false := by
  cases r with
  | get url params headers =>
    have hparams : HttpRaised.Expected (self.withParams lib url params)
        ↔ Encodes lib (.get url params headers) := withParams_expected_iff
    rw [← hparams]
    exact get_outcome.outcome h
  | request method url body headers =>
    have hnone : strayAnswer ([] : List (HttpEvent W)) = false := rfl
    exact ((request_reports [] w hnone).outcome h).trans ⟨fun h => ⟨trivial, h⟩, fun h => h.2⟩

end HttpIntegration

/-! ## Both drivers -/

/-- A library that knows one URL. -/
def oneUrl : Urllib where
  urlsplit url :=
    if url = "http://example.com/a b" then
      .ok { scheme := "http", netloc := "example.com", path := "/a b", query := ""
            fragment := "", hostname := some "example.com" }
    else .error "unknown"
  urlunsplit scheme netloc path query _ :=
    scheme ++ "://" ++ netloc ++ path ++ if query = "" then "" else "?" ++ query
  urlencode params := .ok ("&".intercalate (params.entries.map fun e => e.1 ++ "=" ++ e.2))
  decode bytes := String.ofList (bytes.map fun b => Char.ofNat b.toNat)
  upper s := String.ofList (s.toList.map Char.toUpper)
  lower s := String.ofList (s.toList.map Char.toLower)

/-- A world in which any call may be answered in any way. -/
def anyWorld : Surroundings Unit HttpCall HttpCall.Result HttpRaised where
  answers _ _ _ _ := True
  interferes _ _ := True

/-- A driver that may speak to one host. -/
def client : HttpIntegration where
  allowedHosts := ["example.com"]
  name_ne := HttpIntegration.default_name_ne
  timeout_pos := HttpIntegration.default_timeout_pos
  maxBytes_pos := HttpIntegration.default_maxBytes_pos

/-- `get("http://example.com/a b")`: `http.client.InvalidURL` from the opener. -/
def invalidUrl : List (HttpEvent Unit) :=
  [⟨(), .openUrl
      { url := "http://example.com/a b", data := none, method := "GET", headers := ∅ } 10,
    .error (.httpException "URL can't contain control characters"), ()⟩]

theorem invalidUrl_exec : Program.Exec anyWorld
    (client.perform oneUrl (.get "http://example.com/a b" ∅ ∅)) () invalidUrl
    (Program.done (.error (.httpException "URL can't contain control characters"))) () := by
  have hcheck : client.check oneUrl "http://example.com/a b" (oneUrl.upper "GET") "request"
      = .ok "http://example.com/a b" := by decide
  have hparams : client.withParams oneUrl "http://example.com/a b" ∅
      = .ok "http://example.com/a b" := rfl
  show Program.Exec _ (client.get oneUrl "http://example.com/a b" ∅ ∅) _ _ _ _
  unfold HttpIntegration.get
  rw [hparams]
  show Program.Exec _ (client.request oneUrl "GET" "http://example.com/a b" none ∅) _ _ _ _
  unfold HttpIntegration.request
  simp only [hcheck]
  exact .call trivial trivial .stop

/-- `read_text("a\x00b")`: `ValueError` from `os.open`. -/
def nulEvents : List FileEvent :=
  [⟨swapWorld 1 [], .openRoot, .ok 3, swapWorld 1 [(3, 0)]⟩,
   ⟨swapWorld 1 [(3, 0)], .openAt 3 "a\x00b" { nofollow := true }, .error .valueError,
    swapWorld 1 [(3, 0)]⟩,
   ⟨swapWorld 1 [(3, 0)], .close 3, .ok (), swapWorld 1 []⟩]

theorem nulEvents_exec : Program.Exec (operatingSystem ascii)
    (sandbox.perform ascii (.readText "a\x00b" "utf-8")) (swapWorld 1 []) nulEvents
    (Program.done (.error .valueError)) (swapWorld 1 []) := by
  have hparts : sandbox.parts "a\x00b" "read_text" = .ok ["a\x00b"] := by decide
  show Program.Exec _ (sandbox.readText "a\x00b" "utf-8") _ _ _ _
  unfold FileSystemIntegration.readText FileSystemIntegration.openFile
  simp only [Bool.false_eq_true, if_false, hparts]
  exact .call ⟨rfl, rfl⟩ ⟨rfl, by decide, rfl⟩
    (.call ⟨rfl, rfl⟩ ⟨rfl, .inr (.inl ⟨rfl, by decide⟩)⟩ (.call ⟨rfl, rfl⟩ rfl .stop))

end TitoOS

import TitoOS.Allowlist
import TitoOS.Http.Driver
import TitoOS.Lib.Wildcard

/-!
# The host allowlist

The requests `HttpIntegration` opens: the one it was asked for, and one for each
redirect that `_NoRedirectOutsideAllowlist` lets pass. All of them have passed
`_check`.

A host is to match an entry that it is, or an entry `"." + d` that it ends with,
with or without the dot. The driver also takes an entry of another form that
begins with a dot for a suffix, so that `"."` lets every host pass that ends with
a dot. It holds to the list exactly if every entry that begins with a dot ends
with one of the proper form (`allowlist_holds_iff`).
-/

namespace TitoOS

/-- `HttpIntegration(allowed_hosts, ...)`, or the text of a `ValueError`. -/
def HttpIntegration.init (lib : Urllib) (allowedHosts : List String) (name : Option String := none)
    (timeout : Rat := 10) (headers : Dict String String := ∅) (maxBytes : Int := 1 <<< 20) :
    Except String HttpIntegration :=
  if hname : name.getD "http" = "" then .error "integration name must be a non-empty string"
  else
    match hallowed : normalizeAllowlist lib.lower allowedHosts "allowed_hosts" with
    | .error text => .error text
    | .ok allowed =>
      if htimeout : timeout ≤ 0 then .error "timeout must be positive"
      else if hmax : maxBytes ≤ 0 then .error "max_bytes must be positive"
      else .ok
        { name := name.getD "http", name_ne := hname
          allowedHosts := allowed, allowedHosts_ne := normalizeAllowlist_ne_nil hallowed
          timeout, timeout_pos := Rat.not_le.mp htimeout
          maxBytes, maxBytes_pos := Int.not_le.mp hmax
          headers }

/-! ## Redirects -/

/-- A redirect response: its status, its headers, and the URL it leads to, which
`http_error_302` has quoted. -/
structure Redirect where
  code : Int
  headers : List (String × String) := []
  newurl : String
  quoted : ' ' ∉ newurl.toList := by decide

/-- `newurl.replace(' ', '%20')`. -/
def quoteSpaces (newurl : String) : String :=
  String.ofList (newurl.toList.flatMap fun c => if c = ' ' then ['%', '2', '0'] else [c])

/-- `HTTPRedirectHandler.redirect_request`. -/
def superRedirectRequest (lib : Urllib) (req : HttpRequest) (hop : Redirect) :
    Except HttpRaised HttpRequest :=
  if (hop.code ∈ [301, 302, 303, 307, 308] ∧ req.method ∈ ["GET", "HEAD"])
      ∨ (hop.code ∈ [301, 302, 303] ∧ req.method = "POST") then
    .ok
      { url := quoteSpaces hop.newurl
        data := none
        method := if req.method = "HEAD" then "HEAD" else "GET"
        headers := req.headers.filter fun k _ =>
          lib.lower k ∉ ["content-length", "content-type"] }
  else
    .error (.httpError { code := hop.code, url := some req.url, headers := some hop.headers })

namespace HttpIntegration

variable (self : HttpIntegration) (lib : Urllib)

/-- `_NoRedirectOutsideAllowlist.redirect_request`. -/
def redirectRequest (req : HttpRequest) (hop : Redirect) : Except HttpRaised HttpRequest := do
  let _ ← self.check lib hop.newurl req.method "request"
  superRedirectRequest lib req hop

/-- The requests the opener opens, when it is answered with these redirects. -/
def openedFrom (req : HttpRequest) : List Redirect → List HttpRequest
  | [] => [req]
  | hop :: rest =>
    req :: match self.redirectRequest lib req hop with
      | .ok next => openedFrom next rest
      | .error _ => []

/-- The requests that `request` opens. -/
def opened (method url : String) (body : Option (List UInt8)) (headers : Dict String String)
    (hops : List Redirect) : List HttpRequest :=
  match self.check lib url (lib.upper method) "request" with
  | .error _ => []
  | .ok safeUrl => self.openedFrom lib
      { url := safeUrl, data := body, method := lib.upper method
        headers := headers.entries.foldl (fun d e => d.set e.1 e.2) self.headers } hops

end HttpIntegration

/-! ## What the allowlist promises -/

/-- The URL has the scheme http or https, and this host in lower case. -/
def Urllib.HasHost (lib : Urllib) (url h : String) : Prop :=
  ∃ parsed, lib.urlsplit url = .ok parsed ∧ lib.lower parsed.scheme ∈ ALLOWED_SCHEMES
    ∧ lib.lower (parsed.hostname.getD "") = h ∧ h ≠ ""

/-- A letter of a plain host name. -/
def isHostLetter (c : Char) : Bool :=
  (97 ≤ c.toNat && c.toNat ≤ 122) || (48 ≤ c.toNat && c.toNat ≤ 57) || c = '-' || c = '.'

/-- What is documented of `urllib.parse`. -/
structure Urllib.Documented (lib : Urllib) : Prop where
  /-- `urlunsplit` puts a URL together again that is equivalent to the one
  `urlsplit` has taken apart. -/
  unsplit : ∀ {url parsed}, lib.urlsplit url = .ok parsed →
    lib.lower parsed.scheme ∈ ALLOWED_SCHEMES → lib.lower (parsed.hostname.getD "") ≠ "" →
    ∃ again, lib.urlsplit (lib.urlunsplit (lib.lower parsed.scheme) parsed.netloc parsed.path
        parsed.query "") = .ok again
      ∧ lib.lower again.scheme = lib.lower parsed.scheme ∧ again.hostname = parsed.hostname
  /-- `"GET".upper()` -/
  upper : lib.upper "GET" = "GET"
  /-- A plain host name between `"http://"` and a slash is the host. -/
  plain : ∀ h : String, h ≠ "" → h.toList.all isHostLetter → lib.HasHost ("http://" ++ h ++ "/") h

/-- The host matches one of the entries: it is the entry, or the entry is `"." + d`
and it is `d` or ends with the entry. -/
def Listed (entries : List String) (h : String) : Prop :=
  ∃ e ∈ entries, h = e ∨ ∃ d, e = "." ++ d ∧ d ≠ "" ∧ d.toList.head? ≠ some '.'
    ∧ (h = d ∨ ∃ w, h = w ++ e)

/-- The entry ends with one of the form `"." + d`. -/
def EndsProperly (entries : List String) (e : String) : Prop :=
  ∃ d, "." ++ d ∈ entries ∧ d ≠ "" ∧ d.toList.head? ≠ some '.' ∧ ∃ w, e = w ++ ("." ++ d)

/-- Every entry that begins with a dot ends with one of the form `"." + d`; or it
has a letter that plain host names do not have, and lets no host of a URL pass
that is not listed. Which texts with such letters are hosts is not documented: it
is up to the version of `urllib.parse`. -/
def DotEntriesProper (lib : Urllib) (entries : List String) : Prop :=
  ∀ e ∈ entries, e.toList.head? = some '.' → EndsProperly entries e
    ∨ ¬ e.toList.all isHostLetter
      ∧ ∀ url h, lib.HasHost url h → Wildcard.Admits '.' e.toList h.toList → Listed entries h

namespace HttpIntegration

variable (self : HttpIntegration) (lib : Urllib) (entries : List String)

/-- Every URL that is opened, for any request and any chain of redirects, is an
http or https URL with a listed host. -/
def OpensListed : Prop :=
  ∀ method url body headers hops, ∀ req ∈ self.opened lib method url body headers hops,
    ∃ h, lib.HasHost req.url h ∧ Listed entries h

/-- Every http or https URL with a listed host and an allowed method is accepted. -/
def AcceptsListed : Prop :=
  ∀ method url operation h, method ∈ ALLOWED_METHODS → lib.HasHost url h → Listed entries h →
    ∃ safeUrl, self.check lib url method operation = .ok safeUrl

end HttpIntegration

/-! ## What `_check` lets pass -/

section Check

variable {self : HttpIntegration} {lib : Urllib} {url method operation h : String}

/-- A URL has one host. -/
theorem Urllib.HasHost.unique {h' : String} (hhost : lib.HasHost url h)
    (hhost' : lib.HasHost url h') : h = h' := by
  obtain ⟨parsed, hparsed, -, rfl, -⟩ := hhost
  obtain ⟨parsed', hparsed', -, rfl, -⟩ := hhost'
  obtain rfl := Except.ok.inj (hparsed.symm.trans hparsed')
  rfl

theorem HttpIntegration.hostAllowed_iff : self.hostAllowed h = true
    ↔ ∃ e ∈ self.allowedHosts, Wildcard.Admits '.' e.toList h.toList := by
  unfold HttpIntegration.hostAllowed
  rw [List.any_eq_true]
  refine exists_congr fun e => and_congr_right fun _ => ?_
  have hdot : ['.'].isPrefixOf e.toList = true ↔ e.toList.head? = some '.' := by
    cases e.toList with
    | nil => simp
    | cons c rest =>
      simp only [List.isPrefixOf, Bool.and_true, beq_iff_eq, List.head?_cons, Option.some.injEq]
      exact eq_comm
  simp only [Bool.or_eq_true, Bool.and_eq_true, beq_iff_eq, hdot, List.isSuffixOf_iff_suffix,
    Wildcard.Admits, String.toList_inj, or_assoc]

/-- What passes has an allowed method, the scheme http or https and an allowed
host, and the URL to open has that host too. -/
theorem host_of_check (hlib : lib.Documented) {safeUrl : String}
    (hcheck : self.check lib url method operation = .ok safeUrl) :
    ∃ h, self.hostAllowed h = true ∧ lib.HasHost url h ∧ lib.HasHost safeUrl h := by
  unfold HttpIntegration.check at hcheck
  split at hcheck
  · cases hcheck
  split at hcheck
  · cases hcheck
  rename_i parsed hparsed
  simp only at hcheck
  split at hcheck
  · cases hcheck
  rename_i hscheme
  rw [not_not] at hscheme
  split at hcheck
  · cases hcheck
  rename_i hhost
  split at hcheck
  · cases hcheck
  rename_i hallowed
  obtain rfl := Except.ok.inj hcheck
  obtain ⟨again, hagain, hscheme', hhostname⟩ := hlib.unsplit hparsed hscheme hhost
  refine ⟨_, by simpa using hallowed, ⟨parsed, hparsed, hscheme, rfl, hhost⟩,
    ⟨again, hagain, ?_, ?_, hhost⟩⟩
  · rw [hscheme']
    exact hscheme
  · rw [hhostname]

/-- With an allowed method and an allowed host, a URL passes. -/
theorem check_of_host (operation : String) (hmethod : method ∈ ALLOWED_METHODS)
    (hhost : lib.HasHost url h) (hallowed : self.hostAllowed h = true) :
    ∃ safeUrl, self.check lib url method operation = .ok safeUrl := by
  obtain ⟨parsed, hparsed, hscheme, rfl, hne⟩ := hhost
  refine ⟨lib.urlunsplit (lib.lower parsed.scheme) parsed.netloc parsed.path parsed.query "", ?_⟩
  unfold HttpIntegration.check
  rw [if_neg (not_not.mpr hmethod), hparsed]
  simp only
  rw [if_neg (not_not.mpr hscheme), if_neg hne, if_neg (by simp [hallowed])]

/-! ## What is opened -/

theorem quoteSpaces_of_not_mem (hquoted : ' ' ∉ url.toList) : quoteSpaces url = url := by
  have hflat : ∀ cs : List Char, ' ' ∉ cs →
      (cs.flatMap fun c => if c = ' ' then ['%', '2', '0'] else [c]) = cs := by
    intro cs
    induction cs with
    | nil => intro _; rfl
    | cons c rest ih =>
      intro hspace
      obtain ⟨hne, hrest⟩ := not_or.mp (fun hmem => hspace (List.mem_cons.mpr hmem))
      rw [List.flatMap_cons, if_neg (fun heq => hne heq.symm), ih hrest]
      rfl
  rw [quoteSpaces, hflat _ hquoted, String.ofList_toList]

/-- A redirect that is let pass leads to a URL with an allowed host. -/
theorem host_of_redirectRequest (hlib : lib.Documented) {req next : HttpRequest} {hop : Redirect}
    (hnext : self.redirectRequest lib req hop = .ok next) :
    ∃ h, self.hostAllowed h = true ∧ lib.HasHost next.url h := by
  unfold HttpIntegration.redirectRequest at hnext
  cases hcheck : self.check lib hop.newurl req.method "request" with
  | error x =>
    rw [hcheck] at hnext
    cases hnext
  | ok safeUrl =>
    rw [hcheck] at hnext
    obtain ⟨h, hallowed, hhost, -⟩ := host_of_check hlib hcheck
    change superRedirectRequest lib req hop = .ok next at hnext
    unfold superRedirectRequest at hnext
    split at hnext
    · obtain rfl := Except.ok.inj hnext
      refine ⟨h, hallowed, ?_⟩
      rw [quoteSpaces_of_not_mem hop.quoted]
      exact hhost
    · cases hnext

/-- Every request of a chain has an allowed host when the first one has. -/
theorem host_of_openedFrom (hlib : lib.Documented) (hops : List Redirect) {req : HttpRequest}
    (hreq : ∃ h, self.hostAllowed h = true ∧ lib.HasHost req.url h) :
    ∀ req' ∈ self.openedFrom lib req hops,
      ∃ h, self.hostAllowed h = true ∧ lib.HasHost req'.url h := by
  induction hops generalizing req with
  | nil =>
    intro req' hmem
    obtain rfl := List.mem_singleton.mp hmem
    exact hreq
  | cons hop rest ih =>
    intro req' hmem
    unfold HttpIntegration.openedFrom at hmem
    rcases List.mem_cons.mp hmem with rfl | hmem
    · exact hreq
    · cases hnext : self.redirectRequest lib req hop with
      | error x =>
        rw [hnext] at hmem
        cases hmem
      | ok next =>
        rw [hnext] at hmem
        exact ih (host_of_redirectRequest hlib hnext) req' hmem

/-- **Every request that is opened has an allowed host**, however often it was
redirected. -/
theorem host_of_opened (hlib : lib.Documented) {body : Option (List UInt8)}
    {headers : Dict String String} {hops : List Redirect} {req : HttpRequest}
    (hmem : req ∈ self.opened lib method url body headers hops) :
    ∃ h, self.hostAllowed h = true ∧ lib.HasHost req.url h := by
  unfold HttpIntegration.opened at hmem
  cases hcheck : self.check lib url (lib.upper method) "request" with
  | error x =>
    rw [hcheck] at hmem
    cases hmem
  | ok safeUrl =>
    rw [hcheck] at hmem
    obtain ⟨h, hallowed, -, hhost⟩ := host_of_check hlib hcheck
    exact host_of_openedFrom hlib hops ⟨h, hallowed, hhost⟩ req hmem

/-- A URL with an allowed host is opened. -/
theorem opened_of_host (hlib : lib.Documented) (hhost : lib.HasHost url h)
    (hallowed : self.hostAllowed h = true) :
    ∃ req ∈ self.opened lib "GET" url none ∅ [], lib.HasHost req.url h := by
  have hget : lib.upper "GET" ∈ ALLOWED_METHODS := by
    rw [hlib.upper]
    decide
  obtain ⟨safeUrl, hcheck⟩ := check_of_host "request" hget hhost hallowed
  obtain ⟨h', -, hurl, hsafe⟩ := host_of_check hlib hcheck
  obtain rfl := hurl.unique hhost
  unfold HttpIntegration.opened
  rw [hcheck]
  exact ⟨_, List.mem_singleton.mpr rfl, hsafe⟩

end Check

/-! ## What is listed -/

section Listing

variable {self : HttpIntegration} {lib : Urllib} {entries : List String} {e h : String}

theorem isSuffixPattern_iff : Wildcard.IsSuffixPattern '.' e.toList
    ↔ ∃ d, e = "." ++ d ∧ d ≠ "" ∧ d.toList.head? ≠ some '.' := by
  constructor
  · rintro ⟨d, he, hne, hhead⟩
    refine ⟨String.ofList d, String.toList_inj.mp ?_, ?_, by simpa using hhead⟩
    · simpa using he
    · intro hempty
      apply hne
      simpa using congrArg String.toList hempty
  · rintro ⟨d, rfl, hne, hhead⟩
    refine ⟨d.toList, by simp, fun hempty => hne ?_, hhead⟩
    exact String.toList_inj.mp (by simpa using hempty)

theorem suffix_toList_iff : e.toList <:+ h.toList ↔ ∃ w, h = w ++ e := by
  constructor
  · rintro ⟨w, hw⟩
    refine ⟨String.ofList w, String.toList_inj.mp ?_⟩
    simpa using hw.symm
  · rintro ⟨w, rfl⟩
    exact ⟨w.toList, by simp⟩

/-- A host is listed if it matches the entries as patterns. -/
theorem listed_iff :
    Listed entries h ↔ Wildcard.Matches '.' (entries.map String.toList) h.toList := by
  simp only [Listed, Wildcard.Matches, List.mem_map, exists_exists_and_eq_and,
    String.toList_inj]
  refine exists_congr fun e => and_congr_right fun _ => or_congr_right ?_
  constructor
  · rintro ⟨d, rfl, hne, hhead, hend⟩
    refine ⟨isSuffixPattern_iff.mpr ⟨d, rfl, hne, hhead⟩, hend.imp ?_ suffix_toList_iff.mpr⟩
    rintro rfl
    simp
  · rintro ⟨hproper, hend⟩
    obtain ⟨d, rfl, hne, hhead⟩ := isSuffixPattern_iff.mp hproper
    refine ⟨d, rfl, hne, hhead, hend.imp (fun htail => ?_) suffix_toList_iff.mp⟩
    exact String.toList_inj.mp (by simpa using htail)

theorem endsProperly_iff :
    EndsProperly entries e ↔ Wildcard.Covered '.' (entries.map String.toList) e.toList := by
  simp only [EndsProperly, Wildcard.Covered, List.mem_map, exists_exists_and_eq_and]
  constructor
  · rintro ⟨d, hmem, hne, hhead, hend⟩
    exact ⟨_, hmem, isSuffixPattern_iff.mpr ⟨d, rfl, hne, hhead⟩, suffix_toList_iff.mpr hend⟩
  · rintro ⟨e', hmem, hproper, hend⟩
    obtain ⟨d, rfl, hne, hhead⟩ := isSuffixPattern_iff.mp hproper
    exact ⟨d, hmem, hne, hhead, suffix_toList_iff.mp hend⟩

/-- A plain word in front of a plain entry is a plain host name. -/
theorem plain_replicate_append {n : Nat} (hplain : e.toList.all isHostLetter) :
    (String.ofList (List.replicate n 'a' ++ e.toList)).toList.all isHostLetter := by
  rw [String.toList_ofList, List.all_append, hplain, Bool.and_true, List.all_eq_true]
  intro c hc
  rw [List.eq_of_mem_replicate hc]
  decide

end Listing

namespace HttpIntegration

variable {self : HttpIntegration} {lib : Urllib} {allowedHosts : List String}
  {name : Option String} {timeout : Rat} {headers : Dict String String} {maxBytes : Int}

/-- The entries of the driver are those it was made with, normalized. -/
theorem mem_allowedHosts_iff
    (hinit : init lib allowedHosts name timeout headers maxBytes = .ok self) {e : String} :
    e ∈ self.allowedHosts ↔ e ∈ allowlistEntries lib.lower allowedHosts := by
  unfold init at hinit
  split at hinit
  · cases hinit
  split at hinit
  · cases hinit
  rename_i allowed hallowed
  split at hinit
  · cases hinit
  split at hinit
  · cases hinit
  obtain rfl := Except.ok.inj hinit
  exact mem_normalizeAllowlist_iff hallowed

/-- Every listed host is allowed. -/
theorem hostAllowed_of_listed
    (hinit : init lib allowedHosts name timeout headers maxBytes = .ok self) {h : String}
    (hlisted : Listed (allowlistEntries lib.lower allowedHosts) h) : self.hostAllowed h = true := by
  obtain ⟨chars, hmem, hadmits⟩ := (listed_iff.mp hlisted).admits
  obtain ⟨e, he, rfl⟩ := List.mem_map.mp hmem
  exact hostAllowed_iff.mpr ⟨e, (mem_allowedHosts_iff hinit).mpr he, hadmits⟩

/-- If dot entries are proper, every allowed host of a URL is listed. -/
theorem listed_of_hostAllowed
    (hinit : init lib allowedHosts name timeout headers maxBytes = .ok self)
    (hproper : DotEntriesProper lib (allowlistEntries lib.lower allowedHosts)) {url h : String}
    (hhost : lib.HasHost url h) (hallowed : self.hostAllowed h = true) :
    Listed (allowlistEntries lib.lower allowedHosts) h := by
  obtain ⟨e, hmem, hadmits⟩ := hostAllowed_iff.mp hallowed
  rw [mem_allowedHosts_iff hinit] at hmem
  by_cases hdot : e.toList.head? = some '.'
  · rcases hproper e hmem hdot with hends | ⟨-, hharmless⟩
    · rw [endsProperly_iff] at hends
      exact listed_iff.mpr (.of_admits (List.mem_map_of_mem hmem) (fun _ => hends) hadmits)
    · exact hharmless url h hhost hadmits
  · exact listed_iff.mpr
      (.of_admits (List.mem_map_of_mem hmem) (fun hdot' => absurd hdot' hdot) hadmits)

/-- If every request that is opened has a listed host, so has every URL whose
host is allowed. -/
theorem OpensListed.listed {entries : List String} (hlib : lib.Documented)
    (hopens : self.OpensListed lib entries) {url h : String} (hhost : lib.HasHost url h)
    (hallowed : self.hostAllowed h = true) : Listed entries h := by
  obtain ⟨req, hmem, hreq⟩ := opened_of_host hlib hhost hallowed
  obtain ⟨h', hreq', hlisted⟩ := hopens "GET" url none ∅ [] req hmem
  obtain rfl := hreq.unique hreq'
  exact hlisted

/-- **When the allowlist holds.** For every list of hosts the constructor accepts:
all URLs that are ever opened have listed hosts and all URLs with listed hosts
are accepted, exactly if every entry that begins with a dot ends with one of the
form `"." + d`, or lets nothing else pass. -/
theorem allowlist_holds_iff (hlib : lib.Documented)
    (hinit : init lib allowedHosts name timeout headers maxBytes = .ok self) :
    self.OpensListed lib (allowlistEntries lib.lower allowedHosts)
        ∧ self.AcceptsListed lib (allowlistEntries lib.lower allowedHosts)
      ↔ DotEntriesProper lib (allowlistEntries lib.lower allowedHosts) := by
  constructor
  · rintro ⟨hopens, -⟩ e hmem hdot
    have hadmitted : ∀ {url h}, lib.HasHost url h → Wildcard.Admits '.' e.toList h.toList →
        Listed (allowlistEntries lib.lower allowedHosts) h := fun hhost hadmits =>
      hopens.listed hlib hhost
        (hostAllowed_iff.mpr ⟨e, (mem_allowedHosts_iff hinit).mpr hmem, hadmits⟩)
    by_cases hplain : e.toList.all isHostLetter
    · left
      -- a host that ends with the entry and is longer than all of them
      obtain ⟨n, hn⟩ := Wildcard.exists_length_lt
        ((allowlistEntries lib.lower allowedHosts).map String.toList)
      have hne : String.ofList (List.replicate n 'a' ++ e.toList) ≠ "" := by
        intro hempty
        have hlist := congrArg String.toList hempty
        rw [String.toList_ofList] at hlist
        rw [(List.append_eq_nil_iff.mp hlist).2] at hdot
        cases hdot
      have hlisted := hadmitted (hlib.plain _ hne (plain_replicate_append hplain))
        (.inr (.inl ⟨hdot, by rw [String.toList_ofList]; exact List.suffix_append ..⟩))
      rw [listed_iff, String.toList_ofList] at hlisted
      exact endsProperly_iff.mpr (Wildcard.covered_of_matches (by decide) hn hlisted)
    · exact .inr ⟨hplain, fun url h hhost hadmits => hadmitted hhost hadmits⟩
  · intro hproper
    constructor
    · intro method url body headers hops req hmem
      obtain ⟨h, hallowed, hhost⟩ := host_of_opened hlib hmem
      exact ⟨h, hhost, listed_of_hostAllowed hinit hproper hhost hallowed⟩
    · intro method url operation h hmethod hhost hlisted
      exact check_of_host operation hmethod hhost (hostAllowed_of_listed hinit hlisted)

end HttpIntegration

/-- A list of plain names and names with one leading dot is proper. -/
theorem dotEntriesProper_of_isSuffixPattern {lib : Urllib} {entries : List String}
    (h : ∀ e ∈ entries, e.toList.head? = some '.' → Wildcard.IsSuffixPattern '.' e.toList) :
    DotEntriesProper lib entries := by
  intro e hmem hdot
  exact .inl (endsProperly_iff.mpr ⟨_, List.mem_map_of_mem hmem, h e hmem hdot, List.suffix_rfl⟩)

/-! ## An entry of one dot -/

/-- `urllib.parse` on URLs without credentials, port, query and fragment. -/
def plainUrllib : Urllib where
  urlsplit url :=
    let (scheme, _, rest) := Text.partition [':', '/', '/'] url.toList
    let netloc := String.ofList (rest.takeWhile (· ≠ '/'))
    .ok { scheme := String.ofList scheme, netloc, path := String.ofList (rest.dropWhile (· ≠ '/'))
          query := "", fragment := "", hostname := some netloc }
  urlunsplit scheme netloc path _ _ := scheme ++ "://" ++ netloc ++ path
  urlencode _ := .ok ""
  decode bytes := String.ofList (bytes.map fun b => Char.ofNat b.toNat)
  upper s := String.ofList (s.toList.map Char.toUpper)
  lower s := String.ofList (s.toList.map Char.toLower)

/-- A URL is taken apart at the first `"://"` and the next slash. -/
theorem plainUrllib_urlsplit {scheme : String} (hscheme : ':' ∉ scheme.toList) (rest : String) :
    plainUrllib.urlsplit (scheme ++ "://" ++ rest) =
      .ok { scheme, netloc := String.ofList (rest.toList.takeWhile (· ≠ '/'))
            path := String.ofList (rest.toList.dropWhile (· ≠ '/')), query := "", fragment := ""
            hostname := some (String.ofList (rest.toList.takeWhile (· ≠ '/'))) } := by
  have hparts : Text.partition [':', '/', '/'] (scheme.toList ++ ([':', '/', '/'] ++ rest.toList))
      = (scheme.toList, [':', '/', '/'], rest.toList) :=
    Text.partition_of_not_mem hscheme rest.toList
  have hlist : (scheme ++ "://" ++ rest).toList
      = scheme.toList ++ ([':', '/', '/'] ++ rest.toList) := by simp
  simp only [plainUrllib, hlist]
  rw [hparts]
  simp

theorem toLower_of_isHostLetter {c : Char} (h : isHostLetter c) : c.toLower = c := by
  unfold Char.toLower
  rw [dif_neg]
  rintro ⟨hle, hge⟩
  have hlow : 65 ≤ c.toNat := UInt32.le_iff_toNat_le.mp hle
  have hhigh : c.toNat ≤ 90 := UInt32.le_iff_toNat_le.mp hge
  simp only [isHostLetter, Bool.or_eq_true, Bool.and_eq_true, decide_eq_true_eq] at h
  rcases h with ((h | h) | rfl) | rfl
  · omega
  · omega
  · exact absurd hlow (by decide)
  · exact absurd hlow (by decide)

theorem plainUrllib_documented : plainUrllib.Documented where
  unsplit := by
    intro url parsed hparsed hscheme _
    obtain rfl := Except.ok.inj hparsed
    generalize plainUrllib.lower _ = scheme at hscheme ⊢
    have hcolon : ':' ∉ scheme.toList ∧ plainUrllib.lower scheme = scheme := by
      rcases List.mem_pair.mp hscheme with rfl | rfl <;> decide
    have happend : ∀ rest : List Char, String.ofList (rest.takeWhile (· ≠ '/'))
        ++ String.ofList (rest.dropWhile (· ≠ '/')) = String.ofList rest := by
      intro rest
      rw [← String.ofList_append, List.takeWhile_append_dropWhile]
    have hsplit := plainUrllib_urlsplit hcolon.1
      (String.ofList (Text.partition [':', '/', '/'] url.toList).2.2)
    rw [← happend, ← String.append_assoc, happend, String.toList_ofList] at hsplit
    exact ⟨_, hsplit, hcolon.2, rfl⟩
  upper := by decide
  plain := by
    intro h hne hletters
    rw [List.all_eq_true] at hletters
    have hslash : ∀ c ∈ h.toList, (decide (c ≠ '/')) = true := by
      intro c hc
      have hletter := hletters c hc
      refine decide_eq_true ?_
      rintro rfl
      exact absurd hletter (by decide)
    have hcolon : ':' ∉ "http".toList := by decide
    have hsplit := plainUrllib_urlsplit hcolon (h ++ "/")
    rw [← String.append_assoc] at hsplit
    -- the host ends at the first slash, which is none of its letters
    have hhost : (h ++ "/").toList.takeWhile (· ≠ '/') = h.toList := by
      rw [String.toList_append, List.takeWhile_append_of_pos hslash]
      simp
    rw [hhost, String.ofList_toList] at hsplit
    have hscheme : plainUrllib.lower "http" ∈ ALLOWED_SCHEMES := by decide
    refine ⟨_, hsplit, hscheme, ?_, hne⟩
    show String.ofList (h.toList.map Char.toLower) = h
    rw [List.map_congr_left fun c hc => toLower_of_isHostLetter (hletters c hc), List.map_id',
      String.ofList_toList]

/-- A driver with the one entry `"."`. -/
def dotted : HttpIntegration where
  allowedHosts := ["."]
  name_ne := HttpIntegration.default_name_ne
  timeout_pos := HttpIntegration.default_timeout_pos
  maxBytes_pos := HttpIntegration.default_maxBytes_pos

theorem dotted_init : HttpIntegration.init plainUrllib ["."] = .ok dotted := by rfl

/-- **A dot lets unrelated hosts pass**: the constructor accepts it, and the
driver opens any host that is written with a dot at its end. -/
theorem dot_entry_overreaches : plainUrllib.Documented
    ∧ HttpIntegration.init plainUrllib ["."] = .ok dotted
    ∧ ¬ dotted.OpensListed plainUrllib (allowlistEntries plainUrllib.lower ["."]) := by
  refine ⟨plainUrllib_documented, dotted_init, fun hopens => ?_⟩
  have hhost : plainUrllib.HasHost "http://evil.example.org./" "evil.example.org." :=
    ⟨_, rfl, by decide, by decide, by decide⟩
  obtain ⟨e, hmem, hend⟩ := hopens.listed plainUrllib_documented hhost (by decide)
  obtain rfl : e = "." := List.mem_singleton.mp hmem
  rcases hend with heq | ⟨d, heq, hne, -⟩
  · exact absurd heq (by decide)
  · apply hne
    have hlist := congrArg String.toList heq
    rw [String.toList_append] at hlist
    exact String.toList_inj.mp (List.cons.inj hlist).2.symm

theorem allowlist_holds_iff_dotted :
    dotted.OpensListed plainUrllib (allowlistEntries plainUrllib.lower ["."])
        ∧ dotted.AcceptsListed plainUrllib (allowlistEntries plainUrllib.lower ["."])
      ↔ DotEntriesProper plainUrllib (allowlistEntries plainUrllib.lower ["."]) :=
  HttpIntegration.allowlist_holds_iff plainUrllib_documented dotted_init

end TitoOS

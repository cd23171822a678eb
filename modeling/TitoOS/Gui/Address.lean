import TitoOS.Gui.Gate
import TitoOS.Lib.Authority

/-!
# The address of the dashboard

A request for the GUI's own URL should pass the checks of `Host` and `Origin`,
and one for another host or port should not. The GUI compares the headers with
`name:port` for each of its names, but clients leave the port out when it is 80.
So on that port it refuses every client (`locked_out`), and on every other it
answers at its own address and nowhere else (`own_address_iff`).
-/

namespace TitoOS

open Authority

variable {σ : Type}

/-- `str.lower` changes cased letters only: a colon and digits stay as they are,
and nothing becomes one. -/
structure LowersLetters (lower : String → String) : Prop where
  keeps_port : ∀ s port, lower (withPort s port) = withPort (lower s) port
  adds_no_port : ∀ {s t port}, lower s = withPort t port → ∃ s', s = withPort s' port

namespace KernelGUI

/-- `url`. -/
def url (gui : KernelGUI σ) : String :=
  "http://" ++ bracket gui.host ++ ":" ++ toString gui.port ++ "/"

/-- The bind host, an allowed host or, for a loopback bind, an alias of it. -/
inductive OwnName (gui : KernelGUI σ) : String → Prop
  | bind : OwnName gui gui.host
  | allowed {name : String} (h : name ∈ gui.extraHosts) : OwnName gui name
  | loopback {name : String} (hbind : gui.host = "127.0.0.1" ∨ gui.host = "localhost")
      (h : name ∈ LOOPBACK_NAMES) : OwnName gui name

/-- The URLs under which the GUI is meant to be reached. -/
inductive OwnUrl (gui : KernelGUI σ) : String → Prop
  | url : OwnUrl gui gui.url
  | named {name : String} (h : gui.OwnName name) : OwnUrl gui (httpUrl (bracket name) gui.port)

/-- The bind host and the allowed hosts are hosts, without ports. -/
def HasHosts (gui : KernelGUI σ) : Prop :=
  ∀ name ∈ gui.host :: gui.extraHosts, IsHost (bracket name)

/-- **The GUI answers at its own address and nowhere else.** -/
structure AnswersAtHome (lib : PythonLib) (gui : KernelGUI σ) : Prop where
  /-- What a client sends for a URL of the GUI, in any letter case, passes. -/
  own : ∀ (r : GuiRequest) (url host origin : String), gui.OwnUrl url →
    lib.lower host = lib.lower (sent (ofUrl url)) →
    lib.lower origin = lib.lower (sent (ofUrl url)) →
    r.host = some host → r.origin = some ("http://" ++ origin) →
    gui.guard lib r = .ok () ∧ gui.crossOrigin lib r.origin = false
  /-- A header that names another host or another port is refused. -/
  other : ∀ (r : GuiRequest) (header host : String) (port : Nat), r.host = some header →
    IsHost host → Names header host port →
    (port ≠ gui.port ∨ ∀ name, gui.OwnName name → lib.lower host ≠ lib.lower (bracket name)) →
    gui.guard lib r = .error (lib.errorAnswer .FORBIDDEN "host not allowed")

variable {lib : PythonLib} {gui : KernelGUI σ}

theorem mem_names_iff {name : String} : name ∈ gui.names ↔ gui.OwnName name := by
  unfold names
  constructor
  · intro h
    rcases List.mem_append.mp h with h | halias
    · rcases List.mem_cons.mp h with rfl | hextra
      · exact .bind
      · exact .allowed hextra
    · split at halias
      · rename_i hbind
        exact .loopback (by simpa using hbind) halias
      · cases halias
  · intro h
    cases h with
    | bind => simp
    | allowed hextra => simp [hextra]
    | loopback hbind halias => simp [hbind, halias]

theorem OwnName.isHost {name : String} (h : gui.OwnName name) (hhosts : gui.HasHosts) :
    IsHost (bracket name) := by
  cases h with
  | bind => exact hhosts _ (by simp)
  | allowed hextra => exact hhosts _ (by simp [hextra])
  | loopback _ halias =>
    simp only [LOOPBACK_NAMES, List.mem_cons, List.not_mem_nil, or_false] at halias
    rcases halias with rfl | rfl | rfl <;> decide

theorem url_eq (gui : KernelGUI σ) : gui.url = httpUrl (bracket gui.host) gui.port := by
  simp [url, httpUrl, withPort, String.append_assoc]

/-- Every URL of the GUI is that of the root of one of its names. -/
theorem OwnUrl.name {url : String} (h : gui.OwnUrl url) :
    ∃ name, gui.OwnName name ∧ url = httpUrl (bracket name) gui.port := by
  cases h with
  | url => exact ⟨_, .bind, gui.url_eq⟩
  | named h => exact ⟨_, h, rfl⟩

/-- The allowed hosts are the names with the port. -/
theorem mem_allowedHosts_iff {host : String} : host ∈ gui.allowedHosts lib
    ↔ ∃ name, gui.OwnName name ∧ host = lib.lower (withPort (bracket name) gui.port) := by
  simp only [allowedHosts, List.mem_map, mem_names_iff, withPort]
  constructor
  · rintro ⟨name, hname, rfl⟩
    exact ⟨name, hname, rfl⟩
  · rintro ⟨name, hname, rfl⟩
    exact ⟨name, hname, rfl⟩

theorem guard_of_mem {r : GuiRequest} {host : String} (hhost : r.host = some host)
    (h : lib.lower host ∈ gui.allowedHosts lib) : gui.guard lib r = .ok () := by
  simp [guard, hhost, hostAllowed, h]

theorem guard_of_not_mem {r : GuiRequest} {host : String} (hhost : r.host = some host)
    (h : lib.lower host ∉ gui.allowedHosts lib) :
    gui.guard lib r = .error (lib.errorAnswer .FORBIDDEN "host not allowed") := by
  simp [guard, hhost, hostAllowed, h]

/-- What passes `_guard` is one of the names with the port, in some letter case. -/
theorem exists_of_mem_allowedHosts (hlower : LowersLetters lib.lower) {header : String}
    (h : lib.lower header ∈ gui.allowedHosts lib) :
    ∃ name host, gui.OwnName name ∧ header = withPort host gui.port
      ∧ lib.lower host = lib.lower (bracket name) := by
  obtain ⟨name, hname, heq⟩ := mem_allowedHosts_iff.mp h
  rw [hlower.keeps_port] at heq
  obtain ⟨host, rfl⟩ := hlower.adds_no_port heq
  rw [hlower.keeps_port] at heq
  exact ⟨name, host, hname, rfl, withPort_left_inj.mp heq⟩

/-- A header that names another host or another port is refused, on any port. -/
theorem guard_of_other (hlower : LowersLetters lib.lower) {r : GuiRequest} {header host : String}
    {port : Nat} (hheader : r.host = some header) (hhost : IsHost host)
    (hnames : Names header host port)
    (hother : port ≠ gui.port
      ∨ ∀ name, gui.OwnName name → lib.lower host ≠ lib.lower (bracket name)) :
    gui.guard lib r = .error (lib.errorAnswer .FORBIDDEN "host not allowed") := by
  refine guard_of_not_mem hheader fun hmem => ?_
  obtain ⟨name, host', hname, heq, hsame⟩ := exists_of_mem_allowedHosts hlower hmem
  obtain ⟨rfl, rfl⟩ := hnames.of_withPort hhost heq
  rcases hother with hport | hhost'
  · exact hport rfl
  · exact hhost' name hname hsame

/-- What clients send passes on every port but the default one. -/
theorem passes_of_ne (hhosts : gui.HasHosts) (hport : gui.port ≠ DEFAULT_PORT) {url host : String}
    (hurl : gui.OwnUrl url) (hhost : lib.lower host = lib.lower (sent (ofUrl url))) :
    lib.lower host ∈ gui.allowedHosts lib := by
  obtain ⟨name, hname, rfl⟩ := hurl.name
  rw [sent_httpUrl (hname.isHost hhosts), if_neg hport] at hhost
  exact mem_allowedHosts_iff.mpr ⟨name, hname, hhost⟩

/-- And never on the default one. -/
theorem not_passes_of_eq (hlower : LowersLetters lib.lower) (hhosts : gui.HasHosts)
    (hport : gui.port = DEFAULT_PORT) :
    lib.lower (sent (ofUrl gui.url)) ∉ gui.allowedHosts lib := by
  have hhost : IsHost (bracket gui.host) := OwnName.bind.isHost hhosts
  rw [url_eq, sent_httpUrl hhost, if_pos hport]
  intro hmem
  obtain ⟨name, host, -, heq, -⟩ := exists_of_mem_allowedHosts hlower hmem
  exact hhost.ne_withPort _ _ heq

end KernelGUI

open KernelGUI in
/-- **Where the GUI answers.** It answers at its own address and nowhere else
exactly when its port is not the one that clients leave out. -/
theorem own_address_iff (lib : PythonLib) (hlower : LowersLetters lib.lower) (gui : KernelGUI σ)
    (hhosts : gui.HasHosts) : gui.AnswersAtHome lib ↔ gui.port ≠ 80 := by
  constructor
  · intro h hport
    have hpasses := (h.own { method := .GET, path := "/", host := some (sent (ofUrl gui.url)),
                             origin := some ("http://" ++ sent (ofUrl gui.url)) }
      gui.url _ _ .url rfl rfl rfl rfl).1
    obtain ⟨host, hhost, hmem⟩ := host_of_guard hpasses
    obtain rfl : sent (ofUrl gui.url) = host := Option.some.inj hhost
    exact not_passes_of_eq hlower hhosts hport hmem
  · intro hport
    refine ⟨fun r url host origin hurl hhost horigin hr hr' => ⟨?_, ?_⟩, ?_⟩
    · exact guard_of_mem hr (passes_of_ne hhosts hport hurl hhost)
    · rw [hr']
      exact not_crossOrigin (passes_of_ne hhosts hport hurl horigin)
    · exact fun r header host port hr hhost hnames hother =>
        guard_of_other hlower hr hhost hnames hother

/-! ## Two addresses -/

theorem toNat_le_of_mem_port {port : Nat} {c : Char} (h : c ∈ ':' :: Nat.toDigits 10 port) :
    c.toNat ≤ 58 := by
  rcases List.mem_cons.mp h with rfl | hdigit
  · decide
  · have hhigh := (Bool.and_eq_true_iff.mp (isDigit_of_mem_toDigits port c hdigit)).2
    have hhigh : c.toNat ≤ 57 := of_decide_eq_true hhigh
    omega

theorem toLower_of_le {c : Char} (h : c.toNat ≤ 58) : c.toLower = c := by
  unfold Char.toLower
  rw [dif_neg]
  rintro ⟨hlow, -⟩
  have hlow : 65 ≤ c.toNat := hlow
  omega

/-- What lies before the letters once lowered was there before. -/
theorem toLower_eq_of_le {c : Char} (h : c.toLower.toNat ≤ 58) : c.toLower = c := by
  unfold Char.toLower at h ⊢
  split
  · rename_i hupper
    rw [dif_pos hupper] at h
    have hlow : 65 ≤ c.val.toNat := hupper.1
    have hhigh : c.val.toNat ≤ 90 := hupper.2
    have hsum : (c.val + ('a'.val - 'A'.val)).toNat = (c.val.toNat + 32) % 2 ^ 32 :=
      UInt32.toNat_add ..
    have hle : (c.val + ('a'.val - 'A'.val)).toNat ≤ 58 := h
    omega
  · rfl

theorem map_toLower_eq {cs : List Char} (h : ∀ c ∈ cs, c.toLower.toNat ≤ 58) :
    cs.map Char.toLower = cs :=
  (List.map_congr_left fun c hc => toLower_eq_of_le (h c hc)).trans (List.map_id _)

theorem toList_lower_asciiLib (s : String) :
    (asciiLib.lower s).toList = s.toList.map Char.toLower := String.toList_ofList

theorem lowersLetters_asciiLib : LowersLetters asciiLib.lower where
  keeps_port s port := by
    have hport : (':' :: Nat.toDigits 10 port).map Char.toLower = ':' :: Nat.toDigits 10 port :=
      map_toLower_eq fun c hc => by
        rw [toLower_of_le (toNat_le_of_mem_port hc)]
        exact toNat_le_of_mem_port hc
    rw [← String.toList_inj, toList_lower_asciiLib, toList_withPort, toList_withPort,
      toList_lower_asciiLib, List.map_append, hport]
  adds_no_port {s t port} h := by
    have hlists := congrArg String.toList h
    rw [toList_lower_asciiLib, toList_withPort] at hlists
    obtain ⟨before, after, hs, -, hafter⟩ := List.map_eq_append_iff.mp hlists
    have hsame : after.map Char.toLower = after := map_toLower_eq fun c hc =>
      toNat_le_of_mem_port (hafter ▸ List.mem_map_of_mem hc)
    refine ⟨String.ofList before, ?_⟩
    rw [← String.toList_inj, toList_withPort, String.toList_ofList, hs, ← hafter, hsame]

/-- A dashboard on port 80. -/
def frontDoor : KernelGUI Script := { dashboard with port := 80 }

/-- **On port 80 nobody gets in**: a client leaves the port out, and the GUI
waits for it. -/
theorem locked_out : ¬frontDoor.AnswersAtHome asciiLib := by
  intro h
  have hpasses := h.own { method := .POST, path := "/api/step", host := some "127.0.0.1",
                          origin := some "http://127.0.0.1" }
    frontDoor.url "127.0.0.1" "127.0.0.1" .url (by decide) (by decide) rfl rfl
  exact absurd hpasses.2 (by decide)

/-- A dashboard for other machines. -/
def openDoor : KernelGUI Script :=
  { dashboard with host := "0.0.0.0", port := 8080, extraHosts := ["example.org", "fe80::1"] }

theorem own_address_iff_open : openDoor.AnswersAtHome asciiLib := by
  refine (own_address_iff asciiLib lowersLetters_asciiLib openDoor fun name hname => ?_).mpr
    (by decide)
  simp only [openDoor, List.mem_cons, List.not_mem_nil, or_false] at hname
  rcases hname with rfl | rfl | rfl <;> decide

end TitoOS

import Mathlib.Data.List.DropRight
import TitoOS.Lib.Text

/-!
# Addresses on the web

An `http` URL names a server by its authority, a host with a port. In the
`Host` and `Origin` headers a client writes the authority of the URL without a
port that is the default of the scheme (`sent_httpUrl`). Read from its end, a
header names one host and one port (`Names.unique`): the digits of a port hold
no colon, and a host holds one only inside the brackets of an IPv6 literal.
-/

namespace Authority

/-- The default port of `http`. -/
def DEFAULT_PORT : Nat := 80

/-- A host as it stands in a URL. Of the delimiters it may only hold colons, and
those in an IPv6 literal, in brackets. -/
structure IsHost (host : String) : Prop where
  plain : ∀ c ∈ host.toList, c ∉ ['/', '?', '#', '@']
  literal : ':' ∈ host.toList → host.toList.getLast? = some ']'

theorem isHost_iff (host : String) : IsHost host
    ↔ host.toList.all (fun c => !(['/', '?', '#', '@'].contains c)) = true
      ∧ (host.toList.contains ':' = false ∨ host.toList.getLast? = some ']') := by
  have hplain : host.toList.all (fun c => !(['/', '?', '#', '@'].contains c)) = true
      ↔ ∀ c ∈ host.toList, c ∉ ['/', '?', '#', '@'] := by simp
  have hliteral : (host.toList.contains ':' = false ∨ host.toList.getLast? = some ']')
      ↔ (':' ∈ host.toList → host.toList.getLast? = some ']') := by
    rw [imp_iff_not_or]
    simp
  rw [hplain, hliteral]
  exact ⟨fun h => ⟨h.plain, h.literal⟩, fun h => ⟨h.1, h.2⟩⟩

instance (host : String) : Decidable (IsHost host) := decidable_of_iff' _ (isHost_iff host)

/-- `host:port`. -/
def withPort (host : String) (port : Nat) : String := host ++ ":" ++ toString port

/-- The URL of the root of a server. -/
def httpUrl (host : String) (port : Nat) : String := "http://" ++ withPort host port ++ "/"

/-- The authority of a URL. -/
def ofUrl (url : String) : String :=
  String.ofList ((Text.partition [':', '/', '/'] url.toList).2.2.takeWhile
    fun c => !(['/', '?', '#'].contains c))

/-- What a client writes for an authority: the default port is left out. -/
def sent (authority : String) : String :=
  if [':', '8', '0'].isSuffixOf authority.toList then String.ofList (authority.toList.rdrop 3)
  else authority

/-- The header names the host and the port, or the host and leaves the port to
be the default one. -/
inductive Names : String → String → Nat → Prop
  | bare (host : String) : Names host host DEFAULT_PORT
  | port (host : String) {digits : List Char} (hdigits : ∀ c ∈ digits, c.isDigit = true) :
      Names (host ++ ":" ++ String.ofList digits) host (Nat.ofDigitChars 10 digits 0)

/-! ## The last colon -/

theorem toList_withPort (host : String) (port : Nat) :
    (withPort host port).toList = host.toList ++ ':' :: Nat.toDigits 10 port := by
  simp [withPort]

theorem withPort_left_inj {host other : String} {port : Nat} :
    withPort host port = withPort other port ↔ host = other := by
  rw [← String.toList_inj, toList_withPort, toList_withPort, List.append_left_inj,
    String.toList_inj]

/-- A text is split at its last colon in one way. -/
theorem append_colon_inj {l m ds es : List Char} (hds : ':' ∉ ds) (hes : ':' ∉ es)
    (h : l ++ ':' :: ds = m ++ ':' :: es) : l = m ∧ ds = es := by
  rcases List.append_eq_append_iff.mp h with ⟨more, rfl, htail⟩ | ⟨more, rfl, htail⟩
  · cases more with
    | nil => exact ⟨(List.append_nil l).symm, (List.cons.inj htail).2⟩
    | cons c rest => exact absurd ((List.cons.inj htail).2 ▸ by simp) hds
  · cases more with
    | nil => exact ⟨List.append_nil m, (List.cons.inj htail).2.symm⟩
    | cons c rest => exact absurd ((List.cons.inj htail).2 ▸ by simp) hes

theorem colon_not_mem {digits : List Char} (h : ∀ c ∈ digits, c.isDigit = true) :
    ':' ∉ digits := fun hmem => absurd (h _ hmem) (by decide)

theorem isDigit_of_mem_toDigits (port : Nat) : ∀ c ∈ Nat.toDigits 10 port, c.isDigit = true :=
  fun _ h => Nat.isDigit_of_mem_toDigits (by decide) (by decide) h

namespace IsHost

variable {host : String}

/-- A host does not end in a colon and digits. -/
theorem ne_append (h : IsHost host) {l digits : List Char}
    (hdigits : ∀ c ∈ digits, c.isDigit = true) : host.toList ≠ l ++ ':' :: digits := by
  intro heq
  have hlast := h.literal (heq ▸ by simp)
  rw [heq, List.getLast?_append_of_ne_nil _ (List.cons_ne_nil _ _)] at hlast
  have hmem := List.mem_of_getLast? hlast
  rcases List.mem_cons.mp hmem with hcolon | hdigit
  · exact absurd hcolon (by decide)
  · exact absurd (hdigits _ hdigit) (by decide)

theorem ne_withPort (h : IsHost host) (other : String) (port : Nat) :
    host ≠ withPort other port := by
  intro heq
  exact h.ne_append (isDigit_of_mem_toDigits port) (heq ▸ toList_withPort other port)

end IsHost

/-! ## Headers -/

/-- A header that ends in a port and names a host and a port ends in just those. -/
theorem Names.of_withPort {header host other : String} {p port : Nat} (hhost : IsHost host)
    (h : Names header host port) (heq : header = withPort other p) : host = other ∧ port = p := by
  cases h with
  | bare => exact absurd heq (hhost.ne_withPort other p)
  | @port _ digits hdigits =>
    have hlists : host.toList ++ ':' :: digits = other.toList ++ ':' :: Nat.toDigits 10 p := by
      rw [← toList_withPort, ← heq]
      simp
    obtain ⟨hsame, rfl⟩ := append_colon_inj (colon_not_mem hdigits)
      (colon_not_mem (isDigit_of_mem_toDigits p)) hlists
    exact ⟨String.toList_inj.mp hsame, Nat.ofDigitChars_ten_toDigits⟩

theorem ofUrl_httpUrl {host : String} (h : IsHost host) (port : Nat) :
    ofUrl (httpUrl host port) = withPort host port := by
  have hparts : Text.partition [':', '/', '/'] (httpUrl host port).toList
      = ("http".toList, [':', '/', '/'], (withPort host port).toList ++ ['/']) := by
    have hcolon : ':' ∉ "http".toList := by decide
    have hurl : (httpUrl host port).toList
        = "http".toList ++ ([':', '/', '/'] ++ ((withPort host port).toList ++ ['/'])) := by
      simp [httpUrl]
    rw [hurl]
    exact Text.partition_of_not_mem hcolon _
  have hplain : ∀ c ∈ (withPort host port).toList, c ∉ ['/', '?', '#'] := by
    intro c hc hdelim
    rw [toList_withPort] at hc
    rcases List.mem_append.mp hc with hhost | hport
    · exact h.plain c hhost (List.mem_append_left ['@'] hdelim)
    · rcases List.mem_cons.mp hport with rfl | hdigit
      · exact absurd hdelim (by decide)
      · have hdigit := isDigit_of_mem_toDigits port c hdigit
        simp only [List.mem_cons, List.not_mem_nil, or_false] at hdelim
        rcases hdelim with rfl | rfl | rfl <;> exact absurd hdigit (by decide)
  rw [ofUrl, hparts, List.takeWhile_append_of_pos fun c hc => by simpa using hplain c hc]
  simp [String.ofList_toList]

/-- **What a client sends** for the root of a server. -/
theorem sent_httpUrl {host : String} (h : IsHost host) (port : Nat) :
    sent (ofUrl (httpUrl host port))
      = if port = DEFAULT_PORT then host else withPort host port := by
  rw [ofUrl_httpUrl h, sent, toList_withPort]
  by_cases hport : port = DEFAULT_PORT
  · subst hport
    have hsuffix : [':', '8', '0'].isSuffixOf (host.toList ++ [':', '8', '0']) = true :=
      List.isSuffixOf_iff_suffix.mpr (List.suffix_append ..)
    rw [if_pos rfl, show Nat.toDigits 10 DEFAULT_PORT = ['8', '0'] from rfl, if_pos hsuffix]
    simp [List.rdrop]
  · rw [if_neg hport, if_neg]
    intro hsuffix
    obtain ⟨l, hl⟩ := List.isSuffixOf_iff_suffix.mp hsuffix
    obtain ⟨-, hdigits⟩ := append_colon_inj (by decide)
      (colon_not_mem (isDigit_of_mem_toDigits port)) hl
    have hvalue := congrArg (fun ds => Nat.ofDigitChars 10 ds 0) hdigits
    rw [Nat.ofDigitChars_ten_toDigits] at hvalue
    exact hport hvalue.symm

end Authority

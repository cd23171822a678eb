import Mathlib.Data.Nat.Digits.Lemmas

/-!
# JSON without fractions

A printer and a parser for JSON texts whose numbers are integers, over lists of
characters. The printer writes what Python's `json.dumps` does by default: `", "`
and `": "` as separators and nothing but printable ASCII, everything else as
`\uXXXX` escapes, with a surrogate pair beyond the basic plane. The parser reads
any JSON text of this kind, with whitespace between the tokens, and refuses
unpaired surrogates, which no character stands for.

`decode_encode` is the round trip. The parser is recursive in a bound on the
length of the text; `decodeSeq` reads the items of an array and the members of
an object alike.
-/

/-- A JSON value. -/
inductive Json where
  | null
  | bool (b : Bool)
  | int (n : Int)
  | str (s : String)
  | arr (items : List Json)
  | obj (members : List (String × Json))

namespace Json

/-! ## Printing -/

/-- The digit of a number below sixteen. -/
def hexDigit (d : Nat) : Char :=
  Char.ofNat (if d < 10 then 48 + d else 87 + d)

/-- Four hexadecimal digits. -/
def hex4 (n : Nat) : List Char :=
  [hexDigit (n / 4096 % 16), hexDigit (n / 256 % 16), hexDigit (n / 16 % 16), hexDigit (n % 16)]

/-- One character of a string. -/
def encodeChar (c : Char) : List Char :=
  if c = '"' then ['\\', '"']
  else if c = '\\' then ['\\', '\\']
  else if c = '\n' then ['\\', 'n']
  else if c = '\r' then ['\\', 'r']
  else if c = '\t' then ['\\', 't']
  else if c.toNat = 8 then ['\\', 'b']
  else if c.toNat = 12 then ['\\', 'f']
  else if 32 ≤ c.toNat ∧ c.toNat ≤ 126 then [c]
  else if c.toNat < 65536 then '\\' :: 'u' :: hex4 c.toNat
  else
    '\\' :: 'u' :: hex4 (55296 + (c.toNat - 65536) / 1024)
      ++ '\\' :: 'u' :: hex4 (56320 + (c.toNat - 65536) % 1024)

/-- A string in quotes. -/
def encodeString (s : String) : List Char := '"' :: (s.toList.flatMap encodeChar ++ ['"'])

/-- A natural number in decimals. -/
def encodeNat (n : Nat) : List Char :=
  if n = 0 then ['0'] else ((Nat.digits 10 n).map hexDigit).reverse

/-- An integer. -/
def encodeInt : Int → List Char
  | .ofNat n => encodeNat n
  | .negSucc n => '-' :: encodeNat (n + 1)

/-- `", ".join`. -/
def joined : List (List Char) → List Char
  | [] => []
  | [text] => text
  | text :: rest => text ++ ',' :: ' ' :: joined rest

mutual

/-- The text of a value. -/
def encode : Json → List Char
  | .null => ['n', 'u', 'l', 'l']
  | .bool true => ['t', 'r', 'u', 'e']
  | .bool false => ['f', 'a', 'l', 's', 'e']
  | .int n => encodeInt n
  | .str s => encodeString s
  | .arr items => '[' :: (joined (encodeItems items) ++ [']'])
  | .obj members => '{' :: (joined (encodeMembers members) ++ ['}'])

def encodeItems : List Json → List (List Char)
  | [] => []
  | v :: rest => encode v :: encodeItems rest

def encodeMembers : List (String × Json) → List (List Char)
  | [] => []
  | (key, v) :: rest => (encodeString key ++ ':' :: ' ' :: encode v) :: encodeMembers rest

end

/-! ## Parsing -/

/-- A character between tokens. -/
def isSpace (c : Char) : Bool := c = ' ' || c = '\n' || c = '\r' || c = '\t'

/-- Skip whitespace. -/
def skipSpace (cs : List Char) : List Char := cs.dropWhile isSpace

/-- The value of a hexadecimal digit. -/
def hexValue (c : Char) : Option Nat :=
  if 48 ≤ c.toNat ∧ c.toNat ≤ 57 then some (c.toNat - 48)
  else if 97 ≤ c.toNat ∧ c.toNat ≤ 102 then some (c.toNat - 87)
  else if 65 ≤ c.toNat ∧ c.toNat ≤ 70 then some (c.toNat - 55)
  else none

/-- Four hexadecimal digits. -/
def decodeHex4 : List Char → Option (Nat × List Char)
  | a :: b :: c :: d :: rest => do
    let a ← hexValue a
    let b ← hexValue b
    let c ← hexValue c
    let d ← hexValue d
    some (4096 * a + 256 * b + 16 * c + d, rest)
  | _ => none

/-- What follows `\u`. -/
def decodeUnicode (cs : List Char) : Option (Char × List Char) := do
  let (u, rest) ← decodeHex4 cs
  if 55296 ≤ u ∧ u ≤ 56319 then
    match rest with
    | '\\' :: 'u' :: rest => do
      let (v, rest) ← decodeHex4 rest
      if 56320 ≤ v ∧ v ≤ 57343 then
        some (Char.ofNat (65536 + 1024 * (u - 55296) + (v - 56320)), rest)
      else none
    | _ => none
  else if 56320 ≤ u ∧ u ≤ 57343 then none
  else some (Char.ofNat u, rest)

/-- What follows a backslash. -/
def decodeEscape : List Char → Option (Char × List Char)
  | [] => none
  | c :: rest =>
    if c = '"' ∨ c = '\\' ∨ c = '/' then some (c, rest)
    else if c = 'n' then some ('\n', rest)
    else if c = 'r' then some ('\r', rest)
    else if c = 't' then some ('\t', rest)
    else if c = 'b' then some (Char.ofNat 8, rest)
    else if c = 'f' then some (Char.ofNat 12, rest)
    else if c = 'u' then decodeUnicode rest
    else none

/-- The rest of a string, after its opening quote. -/
def decodeString : Nat → List Char → Option (List Char × List Char)
  | 0, _ => none
  | _ + 1, [] => none
  | n + 1, c :: rest =>
    if c = '"' then some ([], rest)
    else if c = '\\' then do
      let (e, rest) ← decodeEscape rest
      let (s, rest) ← decodeString n rest
      some (e :: s, rest)
    else if c.toNat < 32 then none
    else do
      let (s, rest) ← decodeString n rest
      some (c :: s, rest)

/-- A decimal digit. -/
def isDigit (c : Char) : Bool := 48 ≤ c.toNat && c.toNat ≤ 57

/-- A natural number, without leading zeros. -/
def decodeNat : List Char → Option (Nat × List Char)
  | [] => none
  | c :: rest =>
    if c = '0' then some (0, rest)
    else if isDigit c then
      some (Nat.ofDigits 10 (((c :: rest).takeWhile isDigit).map fun d => d.toNat - 48).reverse,
        (c :: rest).dropWhile isDigit)
    else none

/-- An integer. -/
def decodeInt : List Char → Option (Int × List Char)
  | [] => none
  | c :: rest =>
    if c = '-' then (decodeNat rest).map fun r => (-(r.1 : Int), r.2)
    else (decodeNat (c :: rest)).map fun r => ((r.1 : Int), r.2)

/-- A non-empty sequence of items separated by commas, up to `close`. -/
def decodeSeq {α : Type} (item : List Char → Option (α × List Char)) (close : Char) :
    Nat → List Char → Option (List α × List Char)
  | 0, _ => none
  | n + 1, cs => do
    let (v, rest) ← item cs
    match skipSpace rest with
    | c :: rest =>
      if c = ',' then do
        let (vs, rest) ← decodeSeq item close n rest
        some (v :: vs, rest)
      else if c = close then some ([v], rest)
      else none
    | [] => none

/-- A member of an object. -/
def decodeMember (value : List Char → Option (Json × List Char)) (cs : List Char) :
    Option ((String × Json) × List Char) :=
  match skipSpace cs with
  | '"' :: rest => do
    let (key, rest) ← decodeString rest.length rest
    match skipSpace rest with
    | ':' :: rest => do
      let (v, rest) ← value rest
      some ((String.ofList key, v), rest)
    | _ => none
  | _ => none

/-- What stands between the brackets of an array or an object. -/
def decodeBlock {α : Type} (item : List Char → Option (α × List Char)) (close : Char) (n : Nat)
    (cs : List Char) : Option (List α × List Char) :=
  match skipSpace cs with
  | [] => none
  | c :: rest => if c = close then some ([], rest) else decodeSeq item close n (c :: rest)

/-- A value, in a text of at most `n` characters. -/
def decodeValue : Nat → List Char → Option (Json × List Char)
  | 0, _ => none
  | n + 1, cs =>
    match skipSpace cs with
    | [] => none
    | c :: rest =>
      if c = '"' then
        (decodeString rest.length rest).map fun r => (.str (String.ofList r.1), r.2)
      else if c = '[' then
        (decodeBlock (decodeValue n) ']' n rest).map fun r => (.arr r.1, r.2)
      else if c = '{' then
        (decodeBlock (decodeMember (decodeValue n)) '}' n rest).map fun r => (.obj r.1, r.2)
      else if c = 'n' then
        if rest.take 3 = ['u', 'l', 'l'] then some (.null, rest.drop 3) else none
      else if c = 't' then
        if rest.take 3 = ['r', 'u', 'e'] then some (.bool true, rest.drop 3) else none
      else if c = 'f' then
        if rest.take 4 = ['a', 'l', 's', 'e'] then some (.bool false, rest.drop 4) else none
      else (decodeInt (c :: rest)).map fun r => (.int r.1, r.2)

/-- A whole text. -/
def decode (cs : List Char) : Option Json :=
  match decodeValue cs.length cs with
  | some (v, rest) => if (skipSpace rest).isEmpty then some v else none
  | none => none

/-! ## Characters and strings -/

theorem hexValue_hexDigit : ∀ d < 16, hexValue (hexDigit d) = some d := by decide

theorem decodeHex4_hex4 {n : Nat} (h : n < 65536) (rest : List Char) :
    decodeHex4 (hex4 n ++ rest) = some (n, rest) := by
  have hdigit : ∀ m, hexValue (hexDigit (m % 16)) = some (m % 16) :=
    fun m => hexValue_hexDigit _ (Nat.mod_lt _ (by decide))
  have hsum : 4096 * (n / 4096 % 16) + 256 * (n / 256 % 16) + 16 * (n / 16 % 16) + n % 16 = n := by
    omega
  simp [hex4, decodeHex4, hdigit, hsum]

/-- A character is not a surrogate. -/
theorem toNat_cases (c : Char) :
    c.toNat < 55296 ∨ (57343 < c.toNat ∧ c.toNat < 1114112) := c.valid

theorem decodeUnicode_basic {c : Char} (h : c.toNat < 65536) (rest : List Char) :
    decodeUnicode (hex4 c.toNat ++ rest) = some (c, rest) := by
  have hvalid := toNat_cases c
  rw [decodeUnicode, decodeHex4_hex4 h]
  have hhigh : ¬ (55296 ≤ c.toNat ∧ c.toNat ≤ 56319) := by omega
  have hlow : ¬ (56320 ≤ c.toNat ∧ c.toNat ≤ 57343) := by omega
  simp [hhigh, hlow]

theorem decodeUnicode_pair {u v : Nat} (hu : 55296 ≤ u ∧ u ≤ 56319)
    (hv : 56320 ≤ v ∧ v ≤ 57343) (rest : List Char) :
    decodeUnicode (hex4 u ++ '\\' :: 'u' :: (hex4 v ++ rest))
      = some (Char.ofNat (65536 + 1024 * (u - 55296) + (v - 56320)), rest) := by
  rw [decodeUnicode, decodeHex4_hex4 (by omega)]
  simp only [Option.bind_eq_bind, Option.bind_some, if_pos hu]
  rw [decodeHex4_hex4 (by omega)]
  simp only [Option.bind_some, if_pos hv]

/-- Reading a character that has been printed. -/
theorem decodeString_encodeChar (n : Nat) (c : Char) (rest : List Char) :
    decodeString (n + 1) (encodeChar c ++ rest)
      = (decodeString n rest).map fun r => (c :: r.1, r.2) := by
  have hescape : ∀ text : List Char, decodeEscape text = some (c, rest) →
      decodeString (n + 1) ('\\' :: text) = (decodeString n rest).map fun r => (c :: r.1, r.2) := by
    intro text htext
    rw [decodeString, if_neg (by decide), if_pos rfl, htext]
    cases hrest : decodeString n rest <;> simp [hrest]
  have hvalid := toNat_cases c
  unfold encodeChar
  split
  · exact hescape _ (by simp [decodeEscape, *])
  split
  · exact hescape _ (by simp [decodeEscape, *])
  split
  · exact hescape _ (by simp [decodeEscape, *])
  split
  · exact hescape _ (by simp [decodeEscape, *])
  split
  · exact hescape _ (by simp [decodeEscape, *])
  split
  · rename_i h8
    have hc : Char.ofNat 8 = c := by rw [← h8, Char.ofNat_toNat]
    exact hescape _ (by simpa [decodeEscape] using hc)
  split
  · rename_i h12
    have hc : Char.ofNat 12 = c := by rw [← h12, Char.ofNat_toNat]
    exact hescape _ (by simpa [decodeEscape] using hc)
  rename_i hquote hslash _ _ _ _ _
  split
  · -- a printable character stands for itself
    rename_i hprintable
    rw [List.singleton_append, decodeString, if_neg hquote, if_neg hslash,
      if_neg (by omega : ¬ c.toNat < 32)]
    cases decodeString n rest <;> simp
  split
  · rename_i hbasic
    exact hescape _ (by simp [decodeEscape, decodeUnicode_basic hbasic])
  · -- beyond the basic plane: the two halves of a surrogate pair
    rename_i hastral
    have hhigh : 55296 ≤ 55296 + (c.toNat - 65536) / 1024
        ∧ 55296 + (c.toNat - 65536) / 1024 ≤ 56319 := by omega
    have hlow : 56320 ≤ 56320 + (c.toNat - 65536) % 1024
        ∧ 56320 + (c.toNat - 65536) % 1024 ≤ 57343 := by omega
    have hpair := decodeUnicode_pair hhigh hlow rest
    have hsum : 65536 + 1024 * (55296 + (c.toNat - 65536) / 1024 - 55296)
        + (56320 + (c.toNat - 65536) % 1024 - 56320) = c.toNat := by omega
    rw [hsum, Char.ofNat_toNat] at hpair
    have hread := hescape ('u' :: (_ ++ '\\' :: 'u' :: (_ ++ rest)))
      (by simpa [decodeEscape] using hpair)
    simpa using hread

theorem encodeChar_ne_nil (c : Char) : encodeChar c ≠ [] := by
  unfold encodeChar
  repeat' split
  all_goals simp

theorem length_le_flatMap_encodeChar (cs : List Char) :
    cs.length ≤ (cs.flatMap encodeChar).length := by
  induction cs with
  | nil => simp
  | cons c rest ih =>
    have hone := List.length_pos_iff.mpr (encodeChar_ne_nil c)
    simp only [List.flatMap_cons, List.length_append, List.length_cons]
    omega

/-- Reading a string that has been printed. -/
theorem decodeString_encode (cs : List Char) {n : Nat} (hn : cs.length < n) (rest : List Char) :
    decodeString n (cs.flatMap encodeChar ++ '"' :: rest) = some (cs, rest) := by
  induction cs generalizing n with
  | nil =>
    obtain ⟨n, rfl⟩ := Nat.exists_eq_succ_of_ne_zero (Nat.ne_of_gt hn)
    simp [decodeString]
  | cons c cs ih =>
    obtain ⟨n, rfl⟩ := Nat.exists_eq_succ_of_ne_zero (Nat.ne_of_gt (Nat.zero_lt_of_lt hn))
    rw [List.flatMap_cons, List.append_assoc, decodeString_encodeChar,
      ih (Nat.lt_of_succ_lt_succ hn)]
    rfl

/-! ## Numbers -/

/-- The text goes on with something else than a digit, if at all. -/
def Ends (cs : List Char) : Prop := ∀ c rest, cs = c :: rest → isDigit c = false

theorem ends_nil : Ends [] := by
  intro c rest h
  cases h

theorem ends_cons {c : Char} (h : isDigit c = false) (rest : List Char) : Ends (c :: rest) := by
  intro d rest' heq
  cases heq
  exact h

theorem hexDigit_spec : ∀ d < 10, isDigit (hexDigit d) = true
    ∧ (hexDigit d).toNat - 48 = d ∧ (hexDigit d = '0' → d = 0) := by decide

/-- The digits of a positive number, the first of which is not zero. -/
theorem encodeNat_of_pos {n : Nat} (h : n ≠ 0) : ∃ c text, encodeNat n = c :: text ∧ c ≠ '0'
    ∧ (∀ d ∈ encodeNat n, isDigit d = true)
    ∧ ((encodeNat n).map fun d => d.toNat - 48).reverse = Nat.digits 10 n := by
  have hdigits : ∀ d ∈ Nat.digits 10 n, d < 10 := fun d hd => Nat.digits_lt_base (by decide) hd
  have hne : Nat.digits 10 n ≠ [] := Nat.digits_ne_nil_iff_ne_zero.mpr h
  have hencode : encodeNat n = ((Nat.digits 10 n).map hexDigit).reverse := by
    rw [encodeNat, if_neg h]
  have hhead : encodeNat n = hexDigit ((Nat.digits 10 n).getLast hne)
      :: ((Nat.digits 10 n).dropLast.map hexDigit).reverse := by
    rw [hencode]
    conv_lhs => rw [← List.dropLast_append_getLast hne]
    simp
  -- the digits come least significant first, and the last one is not zero
  have hlast := hdigits _ (List.getLast_mem hne)
  have hfirst : hexDigit ((Nat.digits 10 n).getLast hne) ≠ '0' := fun hzero =>
    Nat.getLast_digit_ne_zero 10 h ((hexDigit_spec _ hlast).2.2 hzero)
  refine ⟨_, _, hhead, hfirst, ?_, ?_⟩
  · intro d hd
    rw [hencode, List.mem_reverse, List.mem_map] at hd
    obtain ⟨e, he, rfl⟩ := hd
    exact (hexDigit_spec e (hdigits e he)).1
  · rw [hencode, List.map_reverse, List.reverse_reverse, List.map_map]
    refine (List.map_congr_left fun d hd => ?_).trans (List.map_id _)
    exact (hexDigit_spec d (hdigits d hd)).2.1

theorem takeWhile_digits {text rest : List Char} (h : ∀ d ∈ text, isDigit d = true)
    (hends : Ends rest) :
    (text ++ rest).takeWhile isDigit = text ∧ (text ++ rest).dropWhile isDigit = rest := by
  have hrest : rest.takeWhile isDigit = [] ∧ rest.dropWhile isDigit = rest := by
    cases rest with
    | nil => exact ⟨rfl, rfl⟩
    | cons c rest =>
      have hc := hends c rest rfl
      simp [hc]
  rw [List.takeWhile_append_of_pos h, List.dropWhile_append_of_pos h, hrest.1, hrest.2]
  simp

/-- Reading a number that has been printed. -/
theorem decodeNat_encode (n : Nat) {rest : List Char} (hends : Ends rest) :
    decodeNat (encodeNat n ++ rest) = some (n, rest) := by
  by_cases h : n = 0
  · subst h
    simp [encodeNat, decodeNat]
  · obtain ⟨c, text, hencode, hzero, hdigits, hvalue⟩ := encodeNat_of_pos h
    obtain ⟨htake, hdrop⟩ := takeWhile_digits hdigits hends
    have hc : isDigit c = true := hdigits c (by rw [hencode]; simp)
    rw [hencode, List.cons_append] at htake hdrop
    rw [hencode, List.cons_append, decodeNat, if_neg hzero, if_pos hc, htake, hdrop, ← hencode,
      hvalue, Nat.ofDigits_digits]

theorem encodeNat_head (n : Nat) : ∃ c text, encodeNat n = c :: text ∧ isDigit c = true := by
  by_cases h : n = 0
  · exact ⟨'0', [], by simp [encodeNat, h], rfl⟩
  · obtain ⟨c, text, hencode, -, hdigits, -⟩ := encodeNat_of_pos h
    exact ⟨c, text, hencode, hdigits c (by rw [hencode]; simp)⟩

theorem decodeInt_encode (n : Int) {rest : List Char} (hends : Ends rest) :
    decodeInt (encodeInt n ++ rest) = some (n, rest) := by
  cases n with
  | ofNat n =>
    obtain ⟨c, text, hencode, hdigit⟩ := encodeNat_head n
    have hread := decodeNat_encode n hends
    have hminus : c ≠ '-' := by
      rintro rfl
      cases hdigit
    rw [hencode, List.cons_append] at hread
    rw [encodeInt, hencode, List.cons_append, decodeInt, if_neg hminus, hread]
    rfl
  | negSucc n =>
    have hread := decodeNat_encode (n + 1) hends
    rw [encodeInt, List.cons_append, decodeInt, if_pos rfl, hread]
    rfl

/-! ## Sequences -/

/-- `cs` is `text` and then `rest`, perhaps after a space. -/
def Leads (cs text rest : List Char) : Prop := cs = text ++ rest ∨ cs = ' ' :: (text ++ rest)

/-- The text begins a token that is not `close`. -/
def Begins (close : Char) (text : List Char) : Prop :=
  ∃ c rest, text = c :: rest ∧ isSpace c = false ∧ c ≠ close

theorem Leads.skipSpace_eq {close : Char} {cs text rest : List Char} (h : Leads cs text rest)
    (hbegins : Begins close text) : skipSpace cs = text ++ rest := by
  obtain ⟨c, text', rfl, hc, -⟩ := hbegins
  rcases h with rfl | rfl
  · simp [skipSpace, hc]
  · have hblank : isSpace ' ' = true := rfl
    simp [skipSpace, hblank, hc]

/-- `item` reads `v` from `text`, when no more than `n` characters are left. -/
def Reads {α : Type} (item : List Char → Option (α × List Char)) (n : Nat) (v : α)
    (text : List Char) : Prop :=
  ∀ cs rest, Leads cs text rest → Ends rest → cs.length ≤ n → item cs = some (v, rest)

theorem joined_cons {texts : List (List Char)} (h : texts ≠ []) (text : List Char) :
    joined (text :: texts) = text ++ ',' :: ' ' :: joined texts := by
  cases texts with
  | nil => exact absurd rfl h
  | cons => rfl

section Sequences

variable {α : Type} {item : List Char → Option (α × List Char)} {close : Char} {n : Nat}

/-- Reading a sequence whose items can be read. -/
theorem decodeSeq_joined (hspace : isSpace close = false) (hcomma : close ≠ ',')
    (hdigit : isDigit close = false) {l : List (α × List Char)} (hne : l ≠ [])
    (hitems : ∀ e ∈ l, Reads item n e.1 e.2) {m : Nat} {cs rest : List Char}
    (hcs : Leads cs (joined (l.map Prod.snd)) (close :: rest)) (hn : cs.length ≤ n)
    (hm : cs.length ≤ m) :
    decodeSeq item close m cs = some (l.map Prod.fst, rest) := by
  induction l generalizing m cs with
  | nil => exact absurd rfl hne
  | cons e l ih =>
    have hpos : 0 < cs.length := by
      rcases hcs with rfl | rfl <;> simp
    obtain ⟨m, rfl⟩ := Nat.exists_eq_succ_of_ne_zero (Nat.ne_of_gt (Nat.lt_of_lt_of_le hpos hm))
    by_cases hl : l = []
    · subst hl
      have hread := hitems e (by simp) cs (close :: rest) hcs (ends_cons hdigit rest) hn
      simp [decodeSeq, hread, skipSpace, hspace, hcomma]
    · have hmore : l.map Prod.snd ≠ [] := by simpa using hl
      rw [List.map_cons, joined_cons hmore] at hcs
      have hlead : Leads cs e.2 (',' :: ' ' :: (joined (l.map Prod.snd) ++ close :: rest)) := by
        simpa [Leads] using hcs
      have hread := hitems e (by simp) cs _ hlead (ends_cons rfl _) hn
      have hshort : (' ' :: (joined (l.map Prod.snd) ++ close :: rest)).length < cs.length := by
        rcases hlead with rfl | rfl <;> simp <;> omega
      have hlead' : Leads (' ' :: (joined (l.map Prod.snd) ++ close :: rest))
          (joined (l.map Prod.snd)) (close :: rest) := .inr rfl
      have hrest := ih hl (fun e' he' => hitems e' (by simp [he'])) hlead' (m := m)
        (by omega) (by omega)
      simp [decodeSeq, hread, skipSpace, isSpace, hrest]

theorem decodeBlock_joined (hspace : isSpace close = false) (hcomma : close ≠ ',')
    (hdigit : isDigit close = false) {l : List (α × List Char)}
    (hitems : ∀ e ∈ l, Reads item n e.1 e.2 ∧ Begins close e.2) {rest : List Char}
    (hn : (joined (l.map Prod.snd) ++ close :: rest).length ≤ n) :
    decodeBlock item close n (joined (l.map Prod.snd) ++ close :: rest)
      = some (l.map Prod.fst, rest) := by
  cases l with
  | nil => simp [decodeBlock, joined, skipSpace, hspace]
  | cons e l =>
    have hbegins : Begins close (joined ((e :: l).map Prod.snd)) := by
      obtain ⟨c, text, htext, hc, hclose⟩ := (hitems e (by simp)).2
      cases l with
      | nil => exact ⟨c, text, htext, hc, hclose⟩
      | cons => exact ⟨c, _, by simp [joined, htext]; rfl, hc, hclose⟩
    have hskip : skipSpace (joined ((e :: l).map Prod.snd) ++ close :: rest)
        = joined ((e :: l).map Prod.snd) ++ close :: rest :=
      Leads.skipSpace_eq (.inl rfl) hbegins
    have hseq := decodeSeq_joined hspace hcomma hdigit (List.cons_ne_nil e l)
      (fun e' he' => (hitems e' he').1) (.inl rfl) hn hn
    obtain ⟨c, text, htext, -, hclose⟩ := hbegins
    rw [htext, List.cons_append] at hskip hseq
    rw [htext, List.cons_append, decodeBlock, hskip]
    simp only [if_neg hclose, hseq]

end Sequences

/-! ## The round trip -/

theorem encodeItems_eq (items : List Json) : encodeItems items = items.map encode := by
  induction items with
  | nil => rfl
  | cons v rest ih => rw [encodeItems, ih, List.map_cons]

/-- The text of a member. -/
def encodeMember (m : String × Json) : List Char := encodeString m.1 ++ ':' :: ' ' :: encode m.2

theorem encodeMembers_eq (members : List (String × Json)) :
    encodeMembers members = members.map encodeMember := by
  induction members with
  | nil => rfl
  | cons m rest ih =>
    obtain ⟨key, v⟩ := m
    rw [encodeMembers, ih, List.map_cons]
    rfl

/-- An integer begins with a sign or a digit. -/
theorem encodeInt_head (n : Int) : ∃ c text, encodeInt n = c :: text
    ∧ ∀ d, d ≠ '-' → isDigit d = false → c ≠ d := by
  cases n with
  | ofNat n =>
    obtain ⟨c, text, hencode, hdigit⟩ := encodeNat_head n
    refine ⟨c, text, hencode, fun d _ hd => ?_⟩
    rintro rfl
    rw [hd] at hdigit
    cases hdigit
  | negSucc n => exact ⟨'-', _, rfl, fun d hd _ => Ne.symm hd⟩

/-- A value begins with something else than the end of an array. -/
theorem begins_encode (v : Json) : Begins ']' (encode v) := by
  cases v with
  | null | str | arr | obj => exact ⟨_, _, rfl, rfl, by decide⟩
  | bool b => cases b <;> exact ⟨_, _, rfl, rfl, by decide⟩
  | int n =>
    obtain ⟨c, text, htext, hother⟩ := encodeInt_head n
    refine ⟨c, text, htext, ?_, hother ']' (by decide) rfl⟩
    simp [isSpace, hother ' ' (by decide) rfl, hother '\n' (by decide) rfl,
      hother '\r' (by decide) rfl, hother '\t' (by decide) rfl]

/-- Reading a string in quotes, after the first of them. -/
theorem decodeString_encodeString (s : String) (rest : List Char) :
    decodeString (s.toList.flatMap encodeChar ++ '"' :: rest).length
        (s.toList.flatMap encodeChar ++ '"' :: rest) = some (s.toList, rest) := by
  refine decodeString_encode s.toList ?_ rest
  have hlength := length_le_flatMap_encodeChar s.toList
  simp only [List.length_append, List.length_cons]
  omega

/-- A member can be read when its value can. -/
theorem reads_member {n : Nat} {m : String × Json}
    (h : Reads (decodeValue n) n m.2 (encode m.2)) :
    Reads (decodeMember (decodeValue n)) n m (encodeMember m) := by
  intro cs rest hcs hends hn
  have hbegins : Begins '}' (encodeMember m) := ⟨'"', _, rfl, rfl, by decide⟩
  have hskip := hcs.skipSpace_eq hbegins
  have hvalue := h (' ' :: (encode m.2 ++ rest)) rest (.inr rfl) hends (by
    refine Nat.le_trans ?_ hn
    rcases hcs with rfl | rfl <;> simp [encodeMember, encodeString] <;> omega)
  have hquote : encodeMember m ++ rest
      = '"' :: (m.1.toList.flatMap encodeChar ++ '"' :: ':' :: ' ' :: (encode m.2 ++ rest)) := by
    simp [encodeMember, encodeString]
  rw [decodeMember, hskip, hquote]
  simp only [decodeString_encodeString]
  have hcolon : isSpace ':' = false := rfl
  simp [skipSpace, hcolon, hvalue]

mutual

/-- **Every printed value can be read.** -/
theorem reads_encode : (v : Json) → (n : Nat) → Reads (decodeValue n) n v (encode v)
  | v, 0 => by
    intro cs rest hcs _ hn
    obtain ⟨c, text, htext, -⟩ := begins_encode v
    rcases hcs with rfl | rfl <;> simp [htext] at hn
  | v, n + 1 => by
    intro cs rest hcs hends hn
    have hskip := hcs.skipSpace_eq (begins_encode v)
    have hshort : (encode v ++ rest).length ≤ n + 1 := by
      rcases hcs with rfl | rfl
      · exact hn
      · exact Nat.le_of_succ_le hn
    rw [decodeValue, hskip]
    cases v with
    | null => rfl
    | bool b => cases b <;> rfl
    | int m =>
      -- a number begins with a digit or a minus sign, as no other value does
      obtain ⟨c, text, htext, hother⟩ := encodeInt_head m
      have hread := decodeInt_encode m hends
      rw [encode, htext, List.cons_append] at *
      simp only [hother '"' (by decide) rfl, hother '[' (by decide) rfl, hother '{' (by decide) rfl,
        hother 'n' (by decide) rfl, hother 't' (by decide) rfl, hother 'f' (by decide) rfl,
        if_false, hread]
      rfl
    | str s =>
      have htext : encode (.str s) ++ rest
          = '"' :: (s.toList.flatMap encodeChar ++ '"' :: rest) := by
        simp [encode, encodeString]
      simp only [htext, if_true, decodeString_encodeString]
      simp
    | arr items =>
      have htext : encode (.arr items) ++ rest
          = '[' :: (joined ((items.map fun v => (v, encode v)).map Prod.snd) ++ ']' :: rest) := by
        simp [encode, encodeItems_eq, Function.comp_def]
      rw [htext] at hshort
      -- every item is shorter than the block, so one unit of fuel less is enough
      have hitems : ∀ e ∈ items.map fun v => (v, encode v),
          Reads (decodeValue n) n e.1 e.2 ∧ Begins ']' e.2 := by
        intro e he
        obtain ⟨v, hv, rfl⟩ := List.mem_map.mp he
        exact ⟨reads_items items n v hv, begins_encode v⟩
      have hblock := decodeBlock_joined rfl (by decide) rfl hitems
        (Nat.le_of_succ_le_succ hshort)
      rw [htext]
      simp only [hblock]
      simp [Function.comp_def]
    | obj members =>
      have htext : encode (.obj members) ++ rest
          = '{' :: (joined ((members.map fun m => (m, encodeMember m)).map Prod.snd)
            ++ '}' :: rest) := by
        simp [encode, encodeMembers_eq, Function.comp_def]
      rw [htext] at hshort
      have hitems : ∀ e ∈ members.map fun m => (m, encodeMember m),
          Reads (decodeMember (decodeValue n)) n e.1 e.2 ∧ Begins '}' e.2 := by
        intro e he
        obtain ⟨m, hm, rfl⟩ := List.mem_map.mp he
        exact ⟨reads_member (reads_members members n m hm), '"', _, rfl, rfl, by decide⟩
      have hblock := decodeBlock_joined rfl (by decide) rfl hitems
        (Nat.le_of_succ_le_succ hshort)
      rw [htext]
      simp only [hblock]
      simp [Function.comp_def]

theorem reads_items : (items : List Json) → (n : Nat) → ∀ v ∈ items,
    Reads (decodeValue n) n v (encode v)
  | [], _ => fun _ h => by cases h
  | v :: rest, n => fun w hw => by
    rcases List.mem_cons.mp hw with heq | hw
    · rw [heq]
      exact reads_encode v n
    · exact reads_items rest n w hw

theorem reads_members : (members : List (String × Json)) → (n : Nat) → ∀ m ∈ members,
    Reads (decodeValue n) n m.2 (encode m.2)
  | [], _ => fun _ h => by cases h
  | (key, v) :: rest, n => fun m hm => by
    rcases List.mem_cons.mp hm with heq | hm
    · rw [heq]
      exact reads_encode v n
    · exact reads_members rest n m hm

end

/-- **The round trip**: what is printed is read back. -/
theorem decode_encode (v : Json) : decode (encode v) = some v := by
  have hread := reads_encode v (encode v).length (encode v) [] (.inl (by simp)) ends_nil
    (Nat.le_refl _)
  rw [decode, hread]
  rfl

end Json

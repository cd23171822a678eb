import TitoOS.Lib.Text
import Mathlib.Data.List.Dedup

/-!
# Allowlists

`normalize_allowlist` (`integrations/base.py`): the entries an operator has
named, stripped and in lower case, without blank ones. A driver that reaches
dangerous resources is not made without any.
-/

namespace TitoOS

/-- The entries of an allowlist, normalized. -/
def allowlistEntries (lower : String → String) (values : List String) : List String :=
  (values.filter fun v => v ≠ "" ∧ Text.strip v ≠ "").map fun v => lower (Text.strip v)

/-- `normalize_allowlist`: a list without repetitions, or the text of a
`ValueError`. -/
def normalizeAllowlist (lower : String → String) (values : Option (List String)) (what : String) :
    Except String (List String) :=
  let allowed := allowlistEntries lower (values.getD [])
  if allowed = [] then .error (what ++ " must list at least one entry")
  else .ok allowed.dedup

variable {lower : String → String} {values : Option (List String)} {what : String}
  {allowed : List String}

theorem mem_normalizeAllowlist_iff (h : normalizeAllowlist lower values what = .ok allowed)
    {e : String} : e ∈ allowed ↔ e ∈ allowlistEntries lower (values.getD []) := by
  simp only [normalizeAllowlist] at h
  split at h
  · cases h
  · obtain rfl := Except.ok.inj h
    exact List.mem_dedup

/-- An allowlist that is accepted has an entry. -/
theorem normalizeAllowlist_ne_nil (h : normalizeAllowlist lower values what = .ok allowed) :
    allowed ≠ [] := by
  simp only [normalizeAllowlist] at h
  split at h
  · cases h
  · rename_i hne
    obtain rfl := Except.ok.inj h
    intro hnil
    exact hne ((List.dedup_eq_nil _).mp hnil)

end TitoOS

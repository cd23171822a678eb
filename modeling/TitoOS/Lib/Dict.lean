import Mathlib.Data.List.Nodup

/-!
# Insertion-ordered dictionaries

A finite map that remembers the order in which its keys were first inserted:
updating a key keeps its position, a new key goes to the end, and a removed
key that comes back goes to the end again. `Mathlib`'s `AList` inserts at the
front, so it does not have this order.

That no key occurs twice is a field of the structure, so lookups never have
to say which occurrence they mean. The lookup laws (`get?_set`, `get?_erase`,
`get?_modify`, …) and the key laws (`keys_set`, …) are the whole interface;
`ext_get?` says that keys and lookups determine the dictionary.
-/

/-- An insertion-ordered dictionary from `κ` to `ν`. -/
@[ext]
structure Dict (κ ν : Type) where
  entries : List (κ × ν)
  nodup_keys : (entries.map Prod.fst).Nodup

namespace Dict

variable {κ ν μ : Type}

instance [DecidableEq κ] [DecidableEq ν] : DecidableEq (Dict κ ν) := fun d e =>
  decidable_of_iff (d.entries = e.entries) Dict.ext_iff.symm

instance : EmptyCollection (Dict κ ν) := ⟨⟨[], by simp⟩⟩

instance : Inhabited (Dict κ ν) := ⟨∅⟩

@[simp] theorem entries_empty : (∅ : Dict κ ν).entries = [] := rfl

/-- The keys, in insertion order. -/
def keys (d : Dict κ ν) : List κ := d.entries.map Prod.fst

/-- The values, in insertion order of their keys. -/
def values (d : Dict κ ν) : List ν := d.entries.map Prod.snd

theorem keys_nodup (d : Dict κ ν) : d.keys.Nodup := d.nodup_keys

@[simp] theorem keys_empty : (∅ : Dict κ ν).keys = [] := rfl

@[simp] theorem values_empty : (∅ : Dict κ ν).values = [] := rfl

/-! ## Lookup -/

section Lookup

variable [DecidableEq κ]

/-- The first value stored under `k` in an entry list. -/
def find? : List (κ × ν) → κ → Option ν
  | [], _ => none
  | (k', v) :: rest, k => if k' = k then some v else find? rest k

/-- `d.get(k)`. -/
def get? (d : Dict κ ν) (k : κ) : Option ν := find? d.entries k

/-- `k in d`. -/
def contains (d : Dict κ ν) (k : κ) : Bool := (d.get? k).isSome

@[simp] theorem get?_empty (k : κ) : (∅ : Dict κ ν).get? k = none := rfl

theorem find?_eq_none_iff {l : List (κ × ν)} {k : κ} :
    find? l k = none ↔ k ∉ l.map Prod.fst := by
  induction l with
  | nil => simp [find?]
  | cons e rest ih =>
    obtain ⟨k', v⟩ := e
    by_cases h : k' = k
    · simp [find?, h]
    · simp [find?, h, ih, Ne.symm h]

theorem find?_mem {l : List (κ × ν)} {k : κ} {v : ν} (h : find? l k = some v) :
    (k, v) ∈ l := by
  induction l with
  | nil => simp [find?] at h
  | cons e rest ih =>
    obtain ⟨k', w⟩ := e
    by_cases hk : k' = k
    · simp only [find?, if_pos hk, Option.some.injEq] at h
      simp [hk, h]
    · simp only [find?, if_neg hk] at h
      exact List.mem_cons_of_mem _ (ih h)

theorem find?_of_mem {l : List (κ × ν)} (hl : (l.map Prod.fst).Nodup) {k : κ} {v : ν}
    (h : (k, v) ∈ l) : find? l k = some v := by
  induction l with
  | nil => cases h
  | cons e rest ih =>
    obtain ⟨k', w⟩ := e
    simp only [List.map_cons, List.nodup_cons] at hl
    rcases List.mem_cons.mp h with heq | hrest
    · cases heq
      simp [find?]
    · have hne : k' ≠ k := by
        rintro rfl
        exact hl.1 (List.mem_map.mpr ⟨(k', v), hrest, rfl⟩)
      simp only [find?, if_neg hne]
      exact ih hl.2 hrest

theorem get?_eq_some_iff {d : Dict κ ν} {k : κ} {v : ν} :
    d.get? k = some v ↔ (k, v) ∈ d.entries :=
  ⟨find?_mem, find?_of_mem d.nodup_keys⟩

theorem get?_eq_none_iff {d : Dict κ ν} {k : κ} : d.get? k = none ↔ k ∉ d.keys :=
  find?_eq_none_iff

theorem mem_keys_iff {d : Dict κ ν} {k : κ} : k ∈ d.keys ↔ ∃ v, d.get? k = some v := by
  rw [← Option.isSome_iff_exists, ← not_iff_not, Option.not_isSome_iff_eq_none,
    get?_eq_none_iff]

theorem mem_keys_of_get? {d : Dict κ ν} {k : κ} {v : ν} (h : d.get? k = some v) :
    k ∈ d.keys := mem_keys_iff.mpr ⟨v, h⟩

@[simp] theorem contains_iff {d : Dict κ ν} {k : κ} : d.contains k = true ↔ k ∈ d.keys := by
  rw [contains, Option.isSome_iff_exists, mem_keys_iff]

theorem mem_values_iff {d : Dict κ ν} {v : ν} : v ∈ d.values ↔ ∃ k, d.get? k = some v := by
  simp only [values, List.mem_map, get?_eq_some_iff, Prod.exists, exists_eq_right]

end Lookup

/-! ## Updates -/

section Modify

/-- Apply `f` to every value, keeping keys and order. -/
def mapVals (d : Dict κ ν) (f : κ → ν → μ) : Dict κ μ where
  entries := d.entries.map fun e => (e.1, f e.1 e.2)
  nodup_keys := by
    rw [List.map_map]
    exact d.nodup_keys

@[simp] theorem keys_mapVals (d : Dict κ ν) (f : κ → ν → μ) : (d.mapVals f).keys = d.keys := by
  simp [keys, mapVals, Function.comp_def]

/-- Keep the entries that satisfy `p`. -/
def filter (d : Dict κ ν) (p : κ → ν → Bool) : Dict κ ν where
  entries := d.entries.filter fun e => p e.1 e.2
  nodup_keys := d.nodup_keys.sublist (List.Sublist.map _ List.filter_sublist)

variable [DecidableEq κ]

@[simp] theorem get?_mapVals (d : Dict κ ν) (f : κ → ν → μ) (k : κ) :
    (d.mapVals f).get? k = (d.get? k).map (f k) := by
  obtain ⟨l, hl⟩ := d
  simp only [get?, mapVals]
  clear hl
  induction l with
  | nil => rfl
  | cons e rest ih =>
    obtain ⟨k', v⟩ := e
    by_cases h : k' = k
    · subst h; simp [find?]
    · simpa [find?, h] using ih

theorem get?_filter (d : Dict κ ν) (p : κ → ν → Bool) (k : κ) :
    (d.filter p).get? k = (d.get? k).filter (p k) := by
  apply Option.ext
  intro v
  simp [get?_eq_some_iff, filter, Option.filter_eq_some_iff]

/-- Apply `f` to the value stored under `k`, if there is one. -/
def modify (d : Dict κ ν) (k : κ) (f : ν → ν) : Dict κ ν :=
  d.mapVals fun k' v => if k' = k then f v else v

@[simp] theorem keys_modify (d : Dict κ ν) (k : κ) (f : ν → ν) :
    (d.modify k f).keys = d.keys := keys_mapVals ..

theorem get?_modify (d : Dict κ ν) (k : κ) (f : ν → ν) (j : κ) :
    (d.modify k f).get? j = if j = k then (d.get? j).map f else d.get? j := by
  by_cases h : j = k <;> simp [modify, h]

@[simp] theorem get?_modify_self (d : Dict κ ν) (k : κ) (f : ν → ν) :
    (d.modify k f).get? k = (d.get? k).map f := by simp [get?_modify]

theorem get?_modify_ne (d : Dict κ ν) {k j : κ} (f : ν → ν) (h : j ≠ k) :
    (d.modify k f).get? j = d.get? j := by simp [get?_modify, h]

/-- `d.pop(k, None)`. -/
def erase (d : Dict κ ν) (k : κ) : Dict κ ν := d.filter fun k' _ => k' ≠ k

theorem get?_erase (d : Dict κ ν) (k j : κ) :
    (d.erase k).get? j = if j = k then none else d.get? j := by
  rw [erase, get?_filter]
  by_cases h : j = k <;> cases d.get? j <;> simp [h]

@[simp] theorem get?_erase_self (d : Dict κ ν) (k : κ) : (d.erase k).get? k = none := by
  simp [get?_erase]

theorem get?_erase_ne (d : Dict κ ν) {k j : κ} (h : j ≠ k) :
    (d.erase k).get? j = d.get? j := by simp [get?_erase, h]

theorem keys_erase (d : Dict κ ν) (k : κ) : (d.erase k).keys = d.keys.filter (· ≠ k) := by
  simp [keys, erase, filter, List.filter_map, Function.comp_def]

theorem mem_keys_erase (d : Dict κ ν) (k j : κ) : j ∈ (d.erase k).keys ↔ j ≠ k ∧ j ∈ d.keys := by
  simp [keys_erase, and_comm]

/-- `d[k] = v`: in place when `k` is present, at the end otherwise. -/
def set (d : Dict κ ν) (k : κ) (v : ν) : Dict κ ν :=
  if h : k ∈ d.keys then d.modify k fun _ => v
  else ⟨d.entries ++ [(k, v)], by
    rw [List.map_append]
    refine List.nodup_append'.mpr ⟨d.nodup_keys, by simp, ?_⟩
    simpa [keys] using h⟩

private theorem find?_append (l m : List (κ × ν)) (k : κ) :
    find? (l ++ m) k = (find? l k).or (find? m k) := by
  induction l with
  | nil => simp [find?]
  | cons e rest ih =>
    obtain ⟨k', v⟩ := e
    by_cases h : k' = k
    · simp [find?, h]
    · simpa [find?, h] using ih

theorem get?_set (d : Dict κ ν) (k : κ) (v : ν) (j : κ) :
    (d.set k v).get? j = if j = k then some v else d.get? j := by
  unfold set
  by_cases hk : k ∈ d.keys
  · rw [dif_pos hk, get?_modify]
    by_cases hj : j = k
    · obtain ⟨w, hw⟩ := mem_keys_iff.mp hk
      simp [hj, hw]
    · simp [hj]
  · rw [dif_neg hk]
    have hnone : find? d.entries k = none := get?_eq_none_iff.mpr hk
    show find? (d.entries ++ [(k, v)]) j = _
    rw [find?_append]
    by_cases hj : j = k
    · subst hj
      simp [find?, hnone]
    · simp [find?, Ne.symm hj, hj, get?]

@[simp] theorem get?_set_self (d : Dict κ ν) (k : κ) (v : ν) :
    (d.set k v).get? k = some v := by simp [get?_set]

theorem get?_set_ne (d : Dict κ ν) {k j : κ} (v : ν) (h : j ≠ k) :
    (d.set k v).get? j = d.get? j := by simp [get?_set, h]

/-- Setting what is there changes nothing. -/
theorem set_of_get? {d : Dict κ ν} {k : κ} {v : ν} (h : d.get? k = some v) : d.set k v = d := by
  rw [set, dif_pos (mem_keys_of_get? h)]
  refine Dict.ext ((List.map_congr_left fun e he => ?_).trans (List.map_id _))
  by_cases hk : e.1 = k
  · have hv : d.get? k = some e.2 := get?_eq_some_iff.mpr (hk ▸ he)
    rw [h, Option.some.injEq] at hv
    simp [hk, hv, Prod.ext_iff]
  · simp [hk]

theorem entries_set_of_not_mem {d : Dict κ ν} {k : κ} (h : k ∉ d.keys) (v : ν) :
    (d.set k v).entries = d.entries ++ [(k, v)] := by
  rw [set, dif_neg h]

theorem keys_set_of_not_mem {d : Dict κ ν} {k : κ} (h : k ∉ d.keys) (v : ν) :
    (d.set k v).keys = d.keys ++ [k] := by
  simp [keys, entries_set_of_not_mem h]

/-- `d[k]` on a `defaultdict`: insert the default when `k` is missing. -/
def setDefault (d : Dict κ ν) (k : κ) (v : ν) : Dict κ ν :=
  if k ∈ d.keys then d else d.set k v

theorem get?_setDefault (d : Dict κ ν) (k : κ) (v : ν) (j : κ) :
    (d.setDefault k v).get? j = if j = k then some ((d.get? k).getD v) else d.get? j := by
  unfold setDefault
  by_cases hk : k ∈ d.keys
  · obtain ⟨w, hw⟩ := mem_keys_iff.mp hk
    by_cases hj : j = k
    · simp [hk, hj, hw]
    · simp [hk, hj]
  · have hnone := get?_eq_none_iff.mpr hk
    simp [hk, get?_set, hnone]

theorem mem_keys_setDefault (d : Dict κ ν) (k : κ) (v : ν) (j : κ) :
    j ∈ (d.setDefault k v).keys ↔ j = k ∨ j ∈ d.keys := by
  rw [mem_keys_iff, mem_keys_iff, get?_setDefault]
  by_cases hj : j = k
  · simp [hj]
  · simp [hj]

/-! ### Entries a filter drops -/

omit [DecidableEq κ] in
theorem filter_filter (d : Dict κ ν) (p : κ → ν → Bool) : (d.filter p).filter p = d.filter p :=
  Dict.ext (by simp [filter, List.filter_filter])

theorem filter_setDefault (d : Dict κ ν) {p : κ → ν → Bool} {k : κ} {v : ν} (h : p k v = false) :
    (d.setDefault k v).filter p = d.filter p := by
  unfold setDefault
  split
  · rfl
  · exact Dict.ext (by simp [filter, entries_set_of_not_mem ‹_›, h])

theorem filter_erase (d : Dict κ ν) {p : κ → ν → Bool} {k : κ}
    (h : ∀ v, d.get? k = some v → p k v = false) : (d.erase k).filter p = d.filter p := by
  refine Dict.ext ?_
  show (d.entries.filter _).filter _ = d.entries.filter _
  rw [List.filter_filter]
  refine List.filter_congr fun e he => ?_
  by_cases hk : e.1 = k
  · have hp : p e.1 e.2 = false := hk ▸ h e.2 (get?_eq_some_iff.mpr (hk ▸ he))
    simp [hp]
  · simp [hk]

/-- The dictionary an entry list builds when inserted from left to right, as
a dict comprehension does. -/
def ofList (l : List (κ × ν)) : Dict κ ν := l.foldl (fun d e => d.set e.1 e.2) ∅

/-- Every entry of the dictionary is one of the list. -/
theorem mem_of_mem_ofList {l : List (κ × ν)} {e : κ × ν} (h : e ∈ (ofList l).entries) : e ∈ l := by
  have hfold : ∀ (l : List (κ × ν)) (d : Dict κ ν),
      (l.foldl (fun d e => d.set e.1 e.2) d).get? e.1 = some e.2 →
        e ∈ l ∨ d.get? e.1 = some e.2 := by
    intro l
    induction l with
    | nil => exact fun d h => .inr h
    | cons entry rest ih =>
      intro d h
      rcases ih (d.set entry.1 entry.2) h with hmem | hset
      · exact .inl (List.mem_cons_of_mem _ hmem)
      · rw [get?_set] at hset
        split at hset
        · rename_i hkey
          exact .inl (List.mem_cons.mpr (.inl (Prod.ext hkey (Option.some.inj hset).symm)))
        · exact .inr hset
  rcases hfold l ∅ (get?_eq_some_iff.mpr h) with hmem | hempty
  · exact hmem
  · cases hempty

theorem ofList_entries (d : Dict κ ν) : ofList d.entries = d := by
  have happend : ∀ (l : List (κ × ν)) (e : Dict κ ν), ((e.entries ++ l).map Prod.fst).Nodup →
      (l.foldl (fun d e => d.set e.1 e.2) e).entries = e.entries ++ l := by
    intro l
    induction l with
    | nil => simp
    | cons entry rest ih =>
      intro e hnodup
      have hnew : entry.1 ∉ e.keys := by
        rw [List.map_append, List.nodup_append'] at hnodup
        exact fun hin => hnodup.2.2 hin (by simp)
      have hentries := entries_set_of_not_mem hnew entry.2
      rw [List.foldl_cons, ih _ (by rw [hentries]; simpa using hnodup), hentries]
      simp
  exact Dict.ext (happend d.entries ∅ d.nodup_keys)

end Modify

end Dict

import Mathlib.Data.List.Induction
import Mathlib.Logic.Function.Basic
import TitoOS.Files.Calls

/-!
# The tree as a store

What a directory tree is for: it maps paths, lists of components, to the
contents of files (`Tree.contents`). In a tree in which every entry leads to an
inode of its own (`Tree.Shaped`), a path is one name of a file and its only one,
so that each way in which the driver changes a tree is an update of that map at
one path, or none.
-/

namespace TitoOS

/-- The content of a file. -/
def Node.content? : Node → Option (List UInt8)
  | file content => some content
  | dir _ | link _ => none

/-- A file, or an empty directory. -/
def Node.Bare : Node → Prop
  | file _ => True
  | dir d => d = .empty
  | link _ => False

@[simp] theorem Node.content?_file (content : List UInt8) :
    (file content).content? = some content := rfl

@[simp] theorem Node.content?_dir (d : Directory) : (dir d).content? = none := rfl

theorem Node.bare_file (content : List UInt8) : (file content).Bare := trivial

theorem Node.bare_empty : (dir .empty).Bare := rfl

namespace Tree

/-- The inode that a path leads to from `i`, entry by entry. -/
def lookupFrom (t : Tree) (i : Ino) : List String → Option Ino
  | [] => some i
  | name :: rest => (t.entry i name).bind fun j => t.lookupFrom j rest

/-- The inode at a path. -/
def lookup (t : Tree) (path : List String) : Option Ino := t.lookupFrom t.root path

/-- The content of the file at `i`. -/
def content? (t : Tree) (i : Ino) : Option (List UInt8) := (t.nodes.get? i).bind Node.content?

/-- The contents of the file at a path. -/
def contents (t : Tree) (path : List String) : Option (List UInt8) :=
  (t.lookup path).bind t.content?

/-- Every entry leads to an inode that exists and that no other entry leads to;
none leads to the root. -/
structure Shaped (t : Tree) : Prop where
  root : (t.nodes.get? t.root).isSome = true
  present : ∀ {d name i}, t.entry d name = some i → (t.nodes.get? i).isSome = true
  root_ne : ∀ {d name i}, t.entry d name = some i → i ≠ t.root
  inj : ∀ {d d' name name' i}, t.entry d name = some i → t.entry d' name' = some i →
    d = d' ∧ name = name'

section Lookup

variable {t t' : Tree} {d i j : Ino} {name : String} {p q : List String}

@[simp] theorem lookup_nil (t : Tree) : t.lookup [] = some t.root := rfl

theorem lookupFrom_concat (t : Tree) (i : Ino) (p : List String) (name : String) :
    t.lookupFrom i (p ++ [name]) = (t.lookupFrom i p).bind (t.entry · name) := by
  induction p generalizing i with
  | nil => simp [lookupFrom]
  | cons x p ih =>
    simp only [List.cons_append, lookupFrom]
    cases t.entry i x with
    | none => rfl
    | some j => exact ih j

theorem lookup_concat (t : Tree) (p : List String) (name : String) :
    t.lookup (p ++ [name]) = (t.lookup p).bind (t.entry · name) := t.lookupFrom_concat t.root p name

theorem lookup_append_of_none (h : t.lookup p = none) (rest : List String) :
    t.lookup (p ++ rest) = none := by
  induction rest using List.reverseRecOn with
  | nil => rwa [List.append_nil]
  | append_singleton rest name ih => rw [← List.append_assoc, lookup_concat, ih, Option.bind_none]

/-- Only a directory has entries. -/
theorem entry_eq_none (h : t.dir? i = none) (name : String) : t.entry i name = none := by
  rw [entry, h, Option.bind_none]

/-- Nothing is below what is no directory. -/
theorem lookup_below (h : ∀ i, t.lookup p = some i → t.dir? i = none) (name : String)
    (rest : List String) : t.lookup (p ++ name :: rest) = none := by
  have hnone : t.lookup (p ++ [name]) = none := by
    rw [lookup_concat]
    cases hp : t.lookup p with
    | none => rfl
    | some i => exact entry_eq_none (h i hp) name
  rw [List.append_cons, lookup_append_of_none hnone]

theorem isSome_of_lookup (h : t.Shaped) (hp : t.lookup p = some i) :
    (t.nodes.get? i).isSome = true := by
  induction p using List.reverseRecOn with
  | nil =>
    cases hp
    exact h.root
  | append_singleton p name ih =>
    rw [lookup_concat, Option.bind_eq_some_iff] at hp
    obtain ⟨d, -, hd⟩ := hp
    exact h.present hd

/-- **A path is the only name of what it leads to.** -/
theorem lookup_inj (h : t.Shaped) (hp : t.lookup p = some i) (hq : t.lookup q = some i) :
    p = q := by
  induction p using List.reverseRecOn generalizing q i with
  | nil =>
    cases hp
    induction q using List.reverseRecOn with
    | nil => rfl
    | append_singleton q name =>
      rw [lookup_concat, Option.bind_eq_some_iff] at hq
      obtain ⟨d, -, hd⟩ := hq
      exact absurd rfl (h.root_ne hd)
  | append_singleton p name ih =>
    rw [lookup_concat, Option.bind_eq_some_iff] at hp
    obtain ⟨d, hp, hd⟩ := hp
    induction q using List.reverseRecOn with
    | nil =>
      cases hq
      exact absurd rfl (h.root_ne hd)
    | append_singleton q name' =>
      rw [lookup_concat, Option.bind_eq_some_iff] at hq
      obtain ⟨d', hq, hd'⟩ := hq
      obtain ⟨rfl, rfl⟩ := h.inj hd hd'
      rw [ih hp hq]

/-- Trees with the same root and the same entries have the same paths. -/
theorem lookup_congr (hentry : ∀ d name, t'.entry d name = t.entry d name)
    (hroot : t'.root = t.root) (p : List String) : t'.lookup p = t.lookup p := by
  induction p using List.reverseRecOn with
  | nil => rw [lookup_nil, lookup_nil, hroot]
  | append_singleton p name ih =>
    rw [lookup_concat, lookup_concat, ih, funext fun d => hentry d name]

end Lookup

/-! ## A file is rewritten -/

section Update

variable {t : Tree} {d i j : Ino} {name : String} {p q : List String}

theorem dir?_put (t : Tree) (i : Ino) (node : Node) (j : Ino) :
    (t.put i node).dir? j = if j = i then (match node with
      | .dir d => some d
      | _ => none) else t.dir? j := by
  unfold dir?
  rw [get?_put]
  by_cases h : j = i
  · rw [if_pos h, if_pos h]
    cases node with
    | file | dir | link => rfl
  · rw [if_neg h, if_neg h]

theorem content?_put (t : Tree) (i : Ino) (node : Node) (j : Ino) :
    (t.put i node).content? j = if j = i then node.content? else t.content? j := by
  unfold content?
  rw [get?_put]
  by_cases h : j = i
  · rw [if_pos h, if_pos h, Option.bind_some]
  · rw [if_neg h, if_neg h]

theorem content?_of_dir {dir : Directory} (h : t.dir? d = some dir) : t.content? d = none := by
  rw [content?, dir?_eq_some_iff.mp h]
  rfl

theorem dir?_of_content {content : List UInt8} (h : t.content? i = some content) :
    t.dir? i = none := by
  obtain ⟨node, hnode, hcontent⟩ := Option.bind_eq_some_iff.mp h
  rw [dir?, hnode]
  cases node with
  | dir => cases hcontent
  | file | link => rfl

theorem entry_put_file (h : t.dir? i = none) (content : List UInt8) (d : Ino) (name : String) :
    (t.put i (.file content)).entry d name = t.entry d name := by
  unfold entry
  rw [dir?_put]
  by_cases hd : d = i
  · rw [if_pos hd, hd, h]
  · rw [if_neg hd]

theorem Shaped.put_file (h : t.Shaped) (hi : t.dir? i = none) (content : List UInt8) :
    (t.put i (.file content)).Shaped where
  root := by
    show ((t.put i (.file content)).nodes.get? t.root).isSome = true
    rw [get?_put]
    split
    · rfl
    · exact h.root
  present hd := by
    rw [entry_put_file hi] at hd
    rw [get?_put]
    split
    · rfl
    · exact h.present hd
  root_ne hd := h.root_ne (by rwa [entry_put_file hi] at hd)
  inj hd hd' := h.inj (by rwa [entry_put_file hi] at hd) (by rwa [entry_put_file hi] at hd')

/-- **Rewriting a file** updates the store at its path. -/
theorem contents_put_file (h : t.Shaped) (hp : t.lookup p = some i) (hi : t.dir? i = none)
    (content : List UInt8) :
    (t.put i (.file content)).contents = Function.update t.contents p (some content) := by
  funext q
  have hlookup : (t.put i (.file content)).lookup q = t.lookup q :=
    lookup_congr (entry_put_file hi content) rfl q
  rw [contents, hlookup]
  by_cases hq : q = p
  · subst hq
    rw [Function.update_self, hp, Option.bind_some, content?_put, if_pos rfl,
      Node.content?_file]
  · rw [Function.update_of_ne hq, contents]
    cases hlook : t.lookup q with
    | none => rfl
    | some j =>
      have hne : j ≠ i := by
        rintro rfl
        exact hq (lookup_inj h hlook hp)
      rw [Option.bind_some, Option.bind_some, content?_put, if_neg hne]

/-! ## An entry is added -/

/-- A new inode, under a new entry of a directory. -/
def add (t : Tree) (d : Ino) (dir : Directory) (name : String) (hname : IsComponent name) (i : Ino)
    (node : Node) : Tree :=
  (t.put d (.dir (dir.insert name hname i))).put i node

variable {dir : Directory} {hname : IsComponent name} {node : Node}

theorem ne_of_fresh (hdir : t.dir? d = some dir) (hi : t.nodes.get? i = none) : d ≠ i := by
  rintro rfl
  rw [dir?_eq_some_iff, hi] at hdir
  cases hdir

theorem entry_add (hdir : t.dir? d = some dir) (hi : t.nodes.get? i = none)
    (hnode : Node.Bare node) (d' : Ino) (name' : String) :
    (t.add d dir name hname i node).entry d' name'
      = if d' = d ∧ name' = name then some i else t.entry d' name' := by
  have hne := ne_of_fresh hdir hi
  have hnone : ∀ x, t.entry i x = none := entry_eq_none (by rw [dir?, hi])
  unfold add
  by_cases hd' : d' = i
  · subst hd'
    rw [if_neg (fun h => hne h.1.symm), hnone, entry, dir?_put, if_pos rfl]
    cases node with
    | file => rfl
    | link => rfl
    | dir dir' =>
      obtain rfl : dir' = .empty := hnode
      rfl
  · rw [entry, dir?_put, if_neg hd', dir?_put]
    by_cases hd : d' = d
    · subst hd
      rw [if_pos rfl, entry, hdir]
      show (dir.entries.set name i).get? name' = _
      rw [Dict.get?_set]
      by_cases hx : name' = name
      · rw [if_pos hx, if_pos ⟨rfl, hx⟩]
      · rw [if_neg hx, if_neg (fun h => hx h.2), Option.bind_some]
    · rw [if_neg hd, if_neg (fun h => hd h.1), entry]

theorem Shaped.add (h : t.Shaped) (hdir : t.dir? d = some dir) (hi : t.nodes.get? i = none)
    (hnode : Node.Bare node) : (t.add d dir name hname i node).Shaped := by
  have hnodes : ∀ j, (t.nodes.get? j).isSome = true →
      ((t.add d dir name hname i node).nodes.get? j).isSome = true := by
    intro j hj
    rw [Tree.add, get?_put]
    split
    · rfl
    · rw [get?_put]
      split
      · rfl
      · exact hj
  have hfresh : ∀ {d name}, t.entry d name ≠ some i := fun hd => by
    have := h.present hd
    rw [hi] at this
    cases this
  have hroot : i ≠ t.root := by
    rintro rfl
    have := h.root
    rw [hi] at this
    cases this
  constructor
  case root => exact hnodes _ h.root
  case present =>
    intro d' name' j hj
    rw [entry_add hdir hi hnode] at hj
    split at hj
    · obtain rfl := Option.some.inj hj
      rw [Tree.add, get?_put, if_pos rfl]
      rfl
    · exact hnodes _ (h.present hj)
  case root_ne =>
    intro d' name' j hj
    rw [entry_add hdir hi hnode] at hj
    split at hj
    · obtain rfl := Option.some.inj hj
      exact hroot
    · exact h.root_ne hj
  case inj =>
    intro d₁ d₂ x₁ x₂ j h₁ h₂
    rw [entry_add hdir hi hnode] at h₁ h₂
    split at h₁ <;> split at h₂
    -- the new inode has one entry, the one that was made
    · rename_i hx₁ hx₂
      exact ⟨hx₁.1.trans hx₂.1.symm, hx₁.2.trans hx₂.2.symm⟩
    · obtain rfl := Option.some.inj h₁
      exact absurd h₂ hfresh
    · obtain rfl := Option.some.inj h₂
      exact absurd h₁ hfresh
    · exact h.inj h₁ h₂

theorem lookup_add (h : t.Shaped) (hdir : t.dir? d = some dir) (hi : t.nodes.get? i = none)
    (hnode : Node.Bare node) (hnew : dir.entries.get? name = none) (hp : t.lookup p = some d)
    (q : List String) :
    (t.add d dir name hname i node).lookup q
      = if q = p ++ [name] then some i else t.lookup q := by
  induction q using List.reverseRecOn with
  | nil => rw [if_neg (by simp)]; rfl
  | append_singleton q x ih =>
    rw [lookup_concat, ih]
    by_cases hq : q = p ++ [name]
    · -- below the new inode there is nothing yet
      have hne : q ++ [x] ≠ p ++ [name] := by
        rw [hq]
        simp
      have hnone : t.lookup q = none := by
        rw [hq, lookup_concat, hp, Option.bind_some, entry, hdir]
        exact hnew
      rw [if_pos hq, if_neg hne, lookup_append_of_none hnone, Option.bind_some,
        entry_add hdir hi hnode, if_neg (fun h => ne_of_fresh hdir hi h.1.symm)]
      exact entry_eq_none (by rw [dir?, hi]) x
    · rw [if_neg hq, lookup_concat]
      cases hlook : t.lookup q with
      | none =>
        have hne : q ++ [x] ≠ p ++ [name] := fun heq => by
          obtain ⟨rfl, -⟩ := List.append_inj' heq rfl
          rw [hp] at hlook
          cases hlook
        rw [if_neg hne, Option.bind_none, Option.bind_none]
      | some j =>
        rw [Option.bind_some, Option.bind_some, entry_add hdir hi hnode]
        by_cases hx : j = d ∧ x = name
        · obtain ⟨rfl, rfl⟩ := hx
          rw [if_pos ⟨rfl, rfl⟩, if_pos (by rw [lookup_inj h hlook hp])]
        · rw [if_neg hx, if_neg]
          intro heq
          obtain ⟨rfl, hlast⟩ := List.append_inj' heq rfl
          rw [hp, Option.some.injEq] at hlook
          exact hx ⟨hlook.symm, by simpa using hlast⟩

theorem contents_add (h : t.Shaped) (hdir : t.dir? d = some dir) (hi : t.nodes.get? i = none)
    (hnode : Node.Bare node) (hnew : dir.entries.get? name = none) (hp : t.lookup p = some d) :
    (t.add d dir name hname i node).contents
      = Function.update t.contents (p ++ [name]) node.content? := by
  funext q
  rw [contents, lookup_add h hdir hi hnode hnew hp]
  by_cases hq : q = p ++ [name]
  · rw [if_pos hq, hq, Function.update_self, Option.bind_some, add, content?_put, if_pos rfl]
  · rw [if_neg hq, Function.update_of_ne hq, contents]
    cases hlook : t.lookup q with
    | none => rfl
    | some j =>
      have hji : j ≠ i := by
        rintro rfl
        have := isSome_of_lookup h hlook
        rw [hi] at this
        cases this
      rw [Option.bind_some, Option.bind_some, add, content?_put, if_neg hji, content?_put]
      split
      · rename_i hjd
        rw [hjd, content?_of_dir hdir, Node.content?_dir]
      · rfl

theorem contents_eq_none_of_new (hdir : t.dir? d = some dir)
    (hnew : dir.entries.get? name = none) (hp : t.lookup p = some d) :
    t.contents (p ++ [name]) = none := by
  rw [contents, lookup_concat, hp, Option.bind_some, entry, hdir, Option.bind_some, hnew,
    Option.bind_none]

/-- **A new file** is an empty file more in the store. -/
theorem contents_add_file (hname : IsComponent name) (h : t.Shaped) (hdir : t.dir? d = some dir)
    (hi : t.nodes.get? i = none) (hnew : dir.entries.get? name = none)
    (hp : t.lookup p = some d) (content : List UInt8) :
    (t.add d dir name hname i (.file content)).contents
      = Function.update t.contents (p ++ [name]) (some content) :=
  contents_add h hdir hi (Node.bare_file content) hnew hp

/-- **A new directory** changes nothing in the store. -/
theorem contents_add_dir (h : t.Shaped) (hdir : t.dir? d = some dir) (hi : t.nodes.get? i = none)
    (hnew : dir.entries.get? name = none) (hp : t.lookup p = some d) :
    (t.add d dir name hname i (.dir .empty)).contents = t.contents := by
  rw [contents_add h hdir hi Node.bare_empty hnew hp]
  exact Function.update_eq_self_iff.mpr (contents_eq_none_of_new hdir hnew hp).symm

/-- Adding an entry moves nothing. -/
theorem lookup_add_of_some (h : t.Shaped) (hdir : t.dir? d = some dir)
    (hi : t.nodes.get? i = none) (hnode : Node.Bare node) (hnew : dir.entries.get? name = none)
    (hp : t.lookup p = some d) (hq : t.lookup q = some j) :
    (t.add d dir name hname i node).lookup q = some j := by
  rw [lookup_add h hdir hi hnode hnew hp, if_neg, hq]
  rintro rfl
  rw [lookup_concat, hp, Option.bind_some, entry, hdir, Option.bind_some, hnew] at hq
  cases hq

/-! ## An entry is removed -/

/-- An entry of a directory less. -/
def drop (t : Tree) (d : Ino) (dir : Directory) (name : String) : Tree :=
  t.put d (.dir (dir.remove name))

theorem entry_drop (hdir : t.dir? d = some dir) (d' : Ino) (name' : String) :
    (t.drop d dir name).entry d' name' = if d' = d ∧ name' = name then none
      else t.entry d' name' := by
  rw [drop, entry, dir?_put]
  by_cases hd : d' = d
  · subst hd
    rw [if_pos rfl, entry, hdir]
    show (dir.entries.erase name).get? name' = _
    rw [Dict.get?_erase]
    by_cases hx : name' = name
    · rw [if_pos hx, if_pos ⟨rfl, hx⟩]
    · rw [if_neg hx, if_neg (fun h => hx h.2), Option.bind_some]
  · rw [if_neg hd, if_neg (fun h => hd h.1), entry]

theorem Shaped.drop (h : t.Shaped) (hdir : t.dir? d = some dir) : (t.drop d dir name).Shaped := by
  have hentry : ∀ {d' name' j}, (t.drop d dir name).entry d' name' = some j →
      t.entry d' name' = some j := by
    intro d' name' j hj
    rw [entry_drop hdir] at hj
    split at hj
    · cases hj
    · exact hj
  have hnodes : ∀ j, (t.nodes.get? j).isSome = true →
      ((t.drop d dir name).nodes.get? j).isSome = true := by
    intro j hj
    rw [Tree.drop, get?_put]
    split
    · rfl
    · exact hj
  exact
    { root := hnodes _ h.root
      present := fun hj => hnodes _ (h.present (hentry hj))
      root_ne := fun hj => h.root_ne (hentry hj)
      inj := fun hj hj' => h.inj (hentry hj) (hentry hj') }

theorem lookup_drop (h : t.Shaped) (hdir : t.dir? d = some dir) (hi : t.entry d name = some i)
    (hkind : t.dir? i = none) (hp : t.lookup p = some d) (q : List String) :
    (t.drop d dir name).lookup q = if q = p ++ [name] then none else t.lookup q := by
  induction q using List.reverseRecOn with
  | nil => rw [if_neg (by simp)]; rfl
  | append_singleton q x ih =>
    rw [lookup_concat, ih]
    by_cases hq : q = p ++ [name]
    · have hne : q ++ [x] ≠ p ++ [name] := by
        rw [hq]
        simp
      rw [if_pos hq, if_neg hne, hq, lookup_concat, lookup_concat, hp, Option.bind_some, hi,
        Option.bind_some, entry_eq_none hkind, Option.bind_none]
    · rw [if_neg hq, lookup_concat]
      cases hlook : t.lookup q with
      | none => simp
      | some j =>
        rw [Option.bind_some, Option.bind_some, entry_drop hdir]
        by_cases hx : j = d ∧ x = name
        · obtain ⟨rfl, rfl⟩ := hx
          rw [if_pos ⟨rfl, rfl⟩, if_pos (by rw [lookup_inj h hlook hp])]
        · rw [if_neg hx, if_neg]
          intro heq
          obtain ⟨rfl, hlast⟩ := List.append_inj' heq rfl
          rw [hp, Option.some.injEq] at hlook
          exact hx ⟨hlook.symm, by simpa using hlast⟩

/-- **Unlinking** takes a file out of the store. -/
theorem contents_drop (h : t.Shaped) (hdir : t.dir? d = some dir) (hi : t.entry d name = some i)
    (hkind : t.dir? i = none) (hp : t.lookup p = some d) :
    (t.drop d dir name).contents = Function.update t.contents (p ++ [name]) none := by
  funext q
  rw [contents, lookup_drop h hdir hi hkind hp]
  by_cases hq : q = p ++ [name]
  · rw [if_pos hq, hq, Function.update_self, Option.bind_none]
  · rw [if_neg hq, Function.update_of_ne hq, contents]
    cases hlook : t.lookup q with
    | none => rfl
    | some j =>
      rw [Option.bind_some, Option.bind_some, drop, content?_put]
      split
      · rename_i hjd
        rw [hjd, content?_of_dir hdir, Node.content?_dir]
      · rfl

end Update

end Tree

end TitoOS

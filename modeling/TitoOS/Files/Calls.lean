import TitoOS.Files.World

/-!
# What calls do

`FileWorld.answers` taken apart: what a call can do to the descriptors an
operation holds (`answers.held_cases`), and to the tree.
-/

namespace TitoOS

/-! ## What a call does to descriptors -/

variable {codec : Codec} {v w' : FileWorld} {fd : Fd}

namespace FileWorld

theorem inode_eq_none_iff {w : FileWorld} {fd : Fd} : w.inode fd = none ↔ fd ∉ w.held.keys := by
  rw [inode, Option.map_eq_none_iff, Dict.get?_eq_none_iff]

/-- A call that fails leaves the tree as it was, and at most closes a
descriptor. -/
theorem answers.of_error {op : Sys} {x : Raised} (h : v.answers codec op (.error x) w') :
    w'.tree = v.tree
      ∧ (w'.held = v.held ∨ ∃ fd, op.closes? = some fd ∧ w'.held = v.held.erase fd) := by
  cases op with
  | openRoot | openAt | mkdirAt | statAt | unlinkAt | listdir | fstat | read | write =>
    obtain ⟨rfl, -⟩ := h
    exact ⟨rfl, .inl rfl⟩
  | close fd | fdopen fd =>
    obtain ⟨rfl | rfl, -⟩ := h
    · exact ⟨rfl, .inl rfl⟩
    · exact ⟨rfl, .inr ⟨fd, rfl, rfl⟩⟩
  | closeHandle handle =>
    obtain ⟨rfl, -⟩ := h
    exact ⟨rfl, .inr ⟨handle.fd, rfl, rfl⟩⟩

/-- What a call can do to the held descriptors: add a new one, close one, note
what is to be written through one, or nothing. -/
theorem answers.held_cases {op : Sys} {answer : Except Raised op.Result}
    (h : v.answers codec op answer w') :
    (∃ fd d, op.opens = true ∧ fd ∉ v.held.keys ∧ w'.held = v.held.set fd d)
    ∨ (∃ fd, op.closes? = some fd ∧ w'.held = v.held.erase fd)
    ∨ (∃ fd bytes, w'.held = v.held.modify fd fun d => { d with pending := d.pending ++ bytes })
    ∨ w'.held = v.held := by
  cases answer with
  | error x =>
    rcases h.of_error.2 with hsame | hclosed
    · exact .inr (.inr (.inr hsame))
    · exact .inr (.inl hclosed)
  | ok result =>
    cases op with
    | openRoot =>
      obtain ⟨-, hfresh, rfl⟩ := h
      exact .inl ⟨result, _, rfl, hfresh, rfl⟩
    | openAt dir name flags =>
      obtain ⟨-, hfresh, i, hheld, -⟩ := h
      exact .inl ⟨result, _, rfl, hfresh, hheld⟩
    | mkdirAt | unlinkAt => exact .inr (.inr (.inr h.2.1))
    | statAt =>
      obtain ⟨-, rfl, -⟩ := h
      exact .inr (.inr (.inr rfl))
    | listdir | fstat | read | fdopen =>
      obtain ⟨rfl, -⟩ := h
      exact .inr (.inr (.inr rfl))
    | close fd =>
      obtain rfl := h
      exact .inr (.inl ⟨fd, rfl, rfl⟩)
    | write handle content =>
      obtain ⟨-, rfl⟩ := h
      exact .inr (.inr (.inl ⟨handle.fd, _, rfl⟩))
    | closeHandle handle => exact .inr (.inl ⟨handle.fd, rfl, h.1⟩)

/-- A descriptor that was not there before is the one that was added. -/
theorem ino_of_new {tree : Tree} {fd' : Fd} {d : Descriptor} (hnone : v.inode fd = none) {i : Ino}
    (hi : FileWorld.inode ⟨tree, v.held.set fd' d⟩ fd = some i) : d.ino = i := by
  rw [inode, Option.map_eq_none_iff] at hnone
  rw [inode, Dict.get?_set] at hi
  split at hi
  · exact Option.some.inj hi
  · simp [hnone] at hi

/-- A call leaves the descriptors alone that it does not close. -/
theorem answers.inode_kept {op : Sys} {answer : Except Raised op.Result}
    (h : v.answers codec op answer w') {i : Ino} (hi : v.inode fd = some i)
    (hopen : op.closes? ≠ some fd) : w'.inode fd = some i := by
  rcases h.held_cases with ⟨fd', d, -, hfresh, hheld⟩ | ⟨fd', hclose, hheld⟩
    | ⟨fd', bytes, hheld⟩ | hheld
  · have hne : fd ≠ fd' := by
      rintro rfl
      rw [← inode_eq_none_iff, hi] at hfresh
      cases hfresh
    rw [inode, hheld, Dict.get?_set_ne _ _ hne]
    exact hi
  · have hne : fd ≠ fd' := by
      rintro rfl
      exact hopen hclose
    rw [inode, hheld, Dict.get?_erase_ne _ hne]
    exact hi
  · rw [inode, hheld, Dict.get?_modify]
    rw [inode] at hi
    split
    · rw [Option.map_map]
      exact hi
    · exact hi
  · rw [inode, hheld]
    exact hi

theorem answers.held_kept {op : Sys} {answer : Except Raised op.Result}
    (h : v.answers codec op answer w') (hheld : fd ∈ v.held.keys) (hopen : op.closes? ≠ some fd) :
    fd ∈ w'.held.keys := by
  by_contra hgone
  obtain ⟨i, hi⟩ := Option.ne_none_iff_exists'.mp fun hnone => inode_eq_none_iff.mp hnone hheld
  rw [← inode_eq_none_iff, h.inode_kept hi hopen] at hgone
  cases hgone

/-- Only `os.open` adds a descriptor. -/
theorem answers.opens_of_new {op : Sys} {answer : Except Raised op.Result}
    (h : v.answers codec op answer w') {i : Ino} (hnone : v.inode fd = none)
    (hi : w'.inode fd = some i) : op.opens = true := by
  rw [inode, Option.map_eq_none_iff] at hnone
  rcases h.held_cases with ⟨fd', d, hopens, -⟩ | ⟨fd', -, hheld⟩ | ⟨fd', bytes, hheld⟩ | hheld
  · exact hopens
  · rw [inode, hheld, Dict.get?_erase] at hi
    split at hi <;> simp [hnone] at hi
  · rw [inode, hheld, Dict.get?_modify] at hi
    split at hi <;> simp [hnone] at hi
  · rw [inode, hheld, hnone] at hi
    cases hi

end FileWorld

/-! ## What a call does to the tree -/

namespace Tree

theorem get?_put (t : Tree) (i : Ino) (node : Node) (j : Ino) :
    (t.put i node).nodes.get? j = if j = i then some node else t.nodes.get? j :=
  Dict.get?_set ..

theorem dir?_eq_some_iff {t : Tree} {i : Ino} {d : Directory} :
    t.dir? i = some d ↔ t.nodes.get? i = some (.dir d) := by
  unfold dir?
  split <;> simp_all

theorem entry_eq_some_iff {t : Tree} {d i : Ino} {name : String} :
    t.entry d name = some i
      ↔ ∃ dir, t.nodes.get? d = some (.dir dir) ∧ dir.entries.get? name = some i := by
  rw [entry, Option.bind_eq_some_iff]
  simp only [dir?_eq_some_iff]

end Tree

namespace FileWorld.OpensEntry

variable {t t' : Tree} {d i : Ino} {name : String} {flags : OpenFlags}

/-- What is opened is the entry. -/
theorem entry_eq (h : OpensEntry t d name flags i t') : t'.entry d name = some i := by
  cases h with
  | @existing node hentry hnode hlink hdir =>
    split
    · rename_i htruncate
      obtain ⟨dir, hd, hname⟩ := Tree.entry_eq_some_iff.mp hentry
      have hne : d ≠ i := by
        rintro rfl
        rw [hnode] at hd
        cases hd
        simp [Node.kind] at htruncate
      exact Tree.entry_eq_some_iff.mpr ⟨dir, by rw [Tree.get?_put, if_neg hne, hd], hname⟩
    · exact hentry
  | @created dir hname hd hnew hcreate hfresh =>
    have hne : d ≠ i := by
      rintro rfl
      rw [Tree.dir?_eq_some_iff, hfresh] at hd
      cases hd
    refine Tree.entry_eq_some_iff.mpr ⟨dir.insert name hname i, ?_, Dict.get?_set_self ..⟩
    rw [Tree.get?_put, if_neg hne, Tree.get?_put, if_pos rfl]

/-- It is no symlink. -/
theorem kind_ne (h : OpensEntry t d name flags i t') : t'.kind? i ≠ some .symlink := by
  cases h with
  | @existing node hentry hnode hlink hdir =>
    split
    · simp [Tree.kind?, Tree.get?_put, Node.kind]
    · simpa [Tree.kind?, hnode] using hlink
  | created => simp [Tree.kind?, Tree.get?_put, Node.kind]

/-- Only the entry changes, and the directory when the entry is new. -/
theorem changed (h : OpensEntry t d name flags i t') {j : Ino}
    (hj : t'.nodes.get? j ≠ t.nodes.get? j) : j = d ∨ j = i := by
  by_contra hno
  rw [not_or] at hno
  refine hj ?_
  cases h with
  | existing =>
    split
    · rw [Tree.get?_put, if_neg hno.2]
    · rfl
  | created => rw [Tree.get?_put, if_neg hno.2, Tree.get?_put, if_neg hno.1]

end FileWorld.OpensEntry

/-- A flush changes only the file. -/
theorem FileWorld.flushed_changed {t : Tree} {d : Descriptor} {j : Ino}
    (hj : (flushed t d).nodes.get? j ≠ t.nodes.get? j) : j = d.ino := by
  by_contra hne
  refine hj ?_
  unfold flushed
  split
  · rw [Tree.get?_put, if_neg hne]
  · rfl

end TitoOS

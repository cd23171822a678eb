import TitoOS.Files.Confinement

/-!
# Paths in and paths out

`_parts` takes a caller's path apart, and `list_dir` puts the paths it reports
together in another way. What one prints the other parses: a listed path is that
of the directory with the name of the entry behind it.
-/

namespace TitoOS

variable {codec : Codec} {past : List FileEvent} {w : FileWorld}

namespace FileSystemIntegration

variable {self : FileSystemIntegration} {path operation : String}

/-! ## Parsing -/

/-- **What `_parts` returns**: the pieces of a path that neither is absolute nor
goes up. -/
theorem parts_eq_ok_iff {parts : List String} : self.parts path operation = .ok parts
    ↔ path.toList.head? ≠ some '/' ∧ ".." ∉ pieces path.toList
      ∧ parts = (pieces path.toList).filter fun part => part ≠ "" ∧ part ≠ "." := by
  unfold FileSystemIntegration.parts
  by_cases hslash : path.toList.head? = some '/'
  · have hroot : (PurePath.parse path).root ≠ "" := fun h => PurePath.root_eq_empty_iff.mp h hslash
    simp [hslash, hroot]
  · have hroot := PurePath.root_eq_empty_iff.mpr hslash
    have hparts : (PurePath.parse path).parts.filter (fun part => part ≠ "." ∧ part ≠ "")
        = (pieces path.toList).filter fun part => part ≠ "" ∧ part ≠ "." := by
      rw [PurePath.parts, if_pos hroot, PurePath.tail_of_relative hslash, List.filter_filter]
      refine List.filter_congr fun part _ => ?_
      by_cases hempty : part = "" <;> by_cases hdot : part = "." <;> simp [hempty, hdot]
    have hup : ((pieces path.toList).filter fun part => part ≠ "" ∧ part ≠ ".").any
        (fun part => part = "..") = true ↔ ".." ∈ pieces path.toList := by
      simp [List.any_eq_true]
    simp only [hparts, PurePath.isAbsolute, hroot, ne_eq, not_true_eq_false, decide_false,
      Bool.or_false, Bool.false_eq_true, if_false]
    split
    · rename_i hany
      simp [hup.mp hany]
    · rename_i hany
      have hnot : ".." ∉ pieces path.toList := fun h => hany (hup.mpr h)
      simp [hslash, hnot, eq_comm]

/-- **Joined components are parsed into the same components.** -/
theorem parts_intercalate {parts : List String} (h : ∀ part ∈ parts, IsComponent part) :
    self.parts ("/".intercalate parts) operation = .ok parts := by
  have hhead := PurePath.head_intercalate h
  refine parts_eq_ok_iff.mpr ⟨hhead, fun hup => ?_, ?_⟩
  · by_cases hne : parts = []
    · subst hne
      exact absurd hup (by decide)
    · rw [PurePath.pieces_intercalate (fun part hpart => (h part hpart).2.2.2) hne] at hup
      exact (h _ hup).2.2.1 rfl
  · rw [← PurePath.tail_of_relative hhead, PurePath.parse_intercalate h]

/-! ## Printing -/

/-- The path that `list_dir` reports for an entry. -/
def listedAs (parts : List String) (entry : String) : String :=
  if parts.isEmpty then entry else ((PurePath.ofSegments parts).div entry).str

/-- It is the joined components. -/
theorem listedAs_eq {parts : List String} {entry : String}
    (h : ∀ part ∈ parts ++ [entry], IsComponent part) :
    listedAs parts entry = "/".intercalate (parts ++ [entry]) := by
  unfold listedAs
  cases parts with
  | nil => simp
  | cons => exact PurePath.str_div (by simp) h

/-- **A listed path is parsed** into the directory's components and the entry. -/
theorem parts_listedAs {parts : List String} (hparts : self.parts path operation = .ok parts)
    {entry : String} (hentry : IsComponent entry) (operation' : String) :
    self.parts (listedAs parts entry) operation' = .ok (parts ++ [entry]) := by
  have hall : ∀ part ∈ parts ++ [entry], IsComponent part := by
    intro part hpart
    rcases List.mem_append.mp hpart with hpart | hpart
    · exact isComponent_of_parts hparts hpart
    · rwa [List.mem_singleton.mp hpart]
  rw [listedAs_eq hall]
  exact parts_intercalate hall

end FileSystemIntegration

/-! ## Listing -/

/-- One of the calls has listed the directory `d`, and found `names` there. -/
def Listing (es : List FileEvent) (d : Directory) (names : List String) : Prop :=
  ∃ v fd w i, (⟨v, .listdir fd, .ok names, w⟩ : FileEvent) ∈ es ∧ v.inode fd = some i
    ∧ v.tree.dir? i = some d ∧ names.Perm d.entries.keys

theorem Listing.later {d : Directory} {names : List String} (h : Listing past d names)
    (e : FileEvent) : Listing (past ++ [e]) d names := by
  obtain ⟨v, fd, w, i, hmem, hlisted⟩ := h
  exact ⟨v, fd, w, i, List.mem_append_left _ hmem, hlisted⟩

namespace FileSystemIntegration

variable {self : FileSystemIntegration} {path operation : String}

/-- The names that the walk for `list_dir` returns are those of a directory. -/
theorem listing_ensures {parts : List String} (hparts : ∀ part ∈ parts, IsComponent part) :
    Ensures codec (fun outcome past _ => ∀ names, outcome = .ok names → ∃ d, Listing past d names)
      (self.walk parts path operation false true fun dir => TitoOS.sys (.listdir dir)) past w := by
  refine walk_ensures (fun names past e h => ?_) (fun fd past w h => ?_) hparts
  · obtain ⟨d, hd⟩ := h
    exact ⟨d, hd.later e⟩
  · refine ensures_sys h fun v answer w' hint hans names hok => ?_
    subst hok
    obtain ⟨i, hi, -⟩ := h.interfered hint
    obtain ⟨d, hd, hnames⟩ := hans.2 i hi
    exact ⟨d, v, fd, w', i, by simp, hi, hd, hnames⟩

/-- **What `list_dir` returns**: the listed paths of the entries of a directory. -/
theorem listDir_ensures : Ensures codec (fun outcome past _ => ∀ listed, outcome = .ok listed →
      ∃ parts d names, self.parts path "list_dir" = .ok parts ∧ Listing past d names
        ∧ listed.Perm (names.map (listedAs parts)))
    (self.listDir path) past w := by
  unfold listDir
  cases hparts : self.parts path "list_dir" with
  | error => exact nofun
  | ok parts =>
    have hcomponents : ∀ part ∈ parts, IsComponent part := fun _ => isComponent_of_parts hparts
    have hwalk : Ensures codec _ (self.walk parts path "list_dir" false true fun dir =>
        TitoOS.sys (.listdir dir)) past w := listing_ensures hcomponents
    refine Program.Guarded.bind (Program.Guarded.of_done ?_)
    refine Program.Guarded.bind (Ensures.exceptOSError (hwalk.mono fun outcome past w hout => ?_))
    cases outcome with
    | error x =>
      cases x with
      | osError => exact nofun
      | _ => exact nofun
    | ok names =>
      obtain ⟨d, hd⟩ := hout names rfl
      rintro listed ⟨⟩
      exact ⟨parts, d, names, rfl, hd, List.mergeSort_perm ..⟩

end FileSystemIntegration

/-! ## Round trips -/

open FileSystemIntegration in
/-- **Paths are parsed and printed consistently.** `_parts` takes exactly the
relative paths that do not go up, into components which joined are parsed into
themselves; and when `list_dir` returns, it reports for each entry of the
directory a path that `_parts` takes, into the directory's components and that
entry. -/
theorem paths_round_trip (self : FileSystemIntegration) (path : String) :
    (∀ operation, (∃ parts, self.parts path operation = .ok parts)
      ↔ path.toList.head? ≠ some '/' ∧ ".." ∉ pieces path.toList)
    ∧ (∀ operation parts, self.parts path operation = .ok parts →
        (∀ part ∈ parts, IsComponent part)
        ∧ ∀ operation', self.parts ("/".intercalate parts) operation' = .ok parts)
    ∧ ∀ codec w es listed u, Program.Exec (operatingSystem codec) (self.listDir path) w es
          (Program.done (.ok listed)) u →
        ∃ parts d names, self.parts path "list_dir" = .ok parts ∧ Listing es d names
          ∧ listed.Perm (d.entries.keys.map (listedAs parts))
          ∧ ∀ entry ∈ d.entries.keys, ∀ operation,
              self.parts (listedAs parts entry) operation = .ok (parts ++ [entry]) := by
  refine ⟨fun operation => ?_, fun operation parts hparts => ?_, fun codec w es listed u h => ?_⟩
  · constructor
    · rintro ⟨parts, hparts⟩
      obtain ⟨hslash, hup, -⟩ := parts_eq_ok_iff.mp hparts
      exact ⟨hslash, hup⟩
    · rintro ⟨hslash, hup⟩
      exact ⟨_, parts_eq_ok_iff.mpr ⟨hslash, hup, rfl⟩⟩
  · have hcomponents : ∀ part ∈ parts, IsComponent part := fun _ => isComponent_of_parts hparts
    exact ⟨hcomponents, fun operation' => parts_intercalate hcomponents⟩
  · have hreturns : Ensures codec _ (self.listDir path) [] w := listDir_ensures
    obtain ⟨parts, d, names, hparts, hlisting, hlisted⟩ := hreturns.outcome h listed rfl
    obtain ⟨-, -, -, -, -, -, -, hnames⟩ := id hlisting
    refine ⟨parts, d, names, hparts, hlisting, hlisted.trans (hnames.map _), ?_⟩
    exact fun entry hentry operation => parts_listedAs hparts (d.named entry hentry) operation

/-- `list_dir("./a/")`. -/
def listEvents : List FileEvent :=
  [⟨swapWorld 1 [], .openRoot, .ok 3, swapWorld 1 [(3, 0)]⟩,
   ⟨swapWorld 1 [(3, 0)], .openAt 3 "a" { directory := true, nofollow := true }, .ok 4,
    swapWorld 1 [(3, 0), (4, 1)]⟩,
   ⟨swapWorld 1 [(3, 0), (4, 1)], .close 3, .ok (), swapWorld 1 [(4, 1)]⟩,
   ⟨swapWorld 1 [(4, 1)], .listdir 4, .ok ["b"], swapWorld 1 [(4, 1)]⟩,
   ⟨swapWorld 1 [(4, 1)], .close 4, .ok (), swapWorld 1 []⟩]

theorem listEvents_exec :
    Program.Exec (operatingSystem ascii) (sandbox.listDir "./a/") (swapWorld 1 []) listEvents
      (Program.done (.ok ["a/b"])) (swapWorld 1 []) := by
  have hparts : sandbox.parts "./a/" "list_dir" = .ok ["a"] := by decide
  have hlisted : ((["b"].map (FileSystemIntegration.listedAs ["a"])).mergeSort
      fun a b => decide (a ≤ b)) = ["a/b"] := by
    rw [List.map_singleton, List.mergeSort_singleton]
    decide
  unfold FileSystemIntegration.listDir
  rw [hparts, ← hlisted]
  have hopens : FileWorld.OpensEntry (swapTree 1) 0 "a" { directory := true, nofollow := true } 1
      (swapTree 1) := .existing rfl rfl nofun fun _ => rfl
  refine .call ⟨rfl, rfl⟩ ⟨rfl, by decide, rfl⟩
    (.call ⟨rfl, rfl⟩ ⟨by decide, by decide, 1, rfl, hopens⟩
    (.call ⟨rfl, rfl⟩ rfl (.call ⟨rfl, rfl⟩ ⟨rfl, ?_⟩ (.call ⟨rfl, rfl⟩ rfl .stop))))
  rintro i ⟨⟩
  exact ⟨_, rfl, List.Perm.refl _⟩

/-- The listed path names the entry. -/
theorem paths_round_trip_listed : ∃ d names, Listing listEvents d names
    ∧ ["a/b"].Perm (d.entries.keys.map (FileSystemIntegration.listedAs ["a"])) := by
  obtain ⟨parts, d, names, hparts, hlisting, hlisted, -⟩ :=
    (paths_round_trip sandbox "./a/").2.2 ascii _ _ _ _ listEvents_exec
  rw [show sandbox.parts "./a/" "list_dir" = .ok ["a"] by decide] at hparts
  cases hparts
  exact ⟨d, names, hlisting, hlisted⟩

end TitoOS

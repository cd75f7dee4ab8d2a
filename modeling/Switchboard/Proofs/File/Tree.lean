import Switchboard.File.Tree
import Switchboard.Proofs.File.Path

/-!
# What stands at a path while a tree changes

A tree is extended when its directories stay directories and its files stay files; files at kept
paths moreover stay as they are and none appears there. A path that leads to a directory or to a
kept file leads to it in every extension. Making directories extends a tree and keeps every file.
-/

namespace Switchboard.FileTree

def Leads (t : FileTree) (p : FilePath) : Prop :=
  ∀ above ∈ p.ancestors, t.atEnd above = .taken .directory

structure Extends (kept : FilePath → Prop) (t u : FileTree) : Prop where
  directory : ∀ p, t.node? p = some .directory → u.node? p = some .directory
  file : ∀ p contents, t.node? p = some (.file contents) → ∃ later, u.node? p = some (.file later)
  same : ∀ p, kept p → ∀ contents,
    t.node? p = some (.file contents) ↔ u.node? p = some (.file contents)

/-- Only directories are added. -/
def Grows (t u : FileTree) : Prop := Extends (fun _ => True) t u

/-- Nothing is changed but that there are directories where there was nothing, at some paths. -/
def Adds (row : List FilePath) (t u : FileTree) : Prop :=
  ∀ p, u.node? p = t.node? p ∨
    (t.node? p = none ∧ u.node? p = some .directory ∧ ∃ q ∈ row, q.location = p.location)

variable {t u v : FileTree} {p q : FilePath} {kept : FilePath → Prop}

theorem Extends.refl (kept : FilePath → Prop) (t : FileTree) : Extends kept t t :=
  ⟨fun _ h => h, fun _ contents h => ⟨contents, h⟩, fun _ _ _ => Iff.rfl⟩

theorem Extends.trans (hFirst : Extends kept t u) (hSecond : Extends kept u v) :
    Extends kept t v := by
  refine ⟨?_, ?_, ?_⟩
  · intro p h
    exact hSecond.directory p (hFirst.directory p h)
  · intro p contents h
    obtain ⟨between, hBetween⟩ := hFirst.file p contents h
    exact hSecond.file p between hBetween
  · intro p hKept contents
    exact (hFirst.same p hKept contents).trans (hSecond.same p hKept contents)

theorem Grows.extends (h : Grows t u) (kept : FilePath → Prop) : Extends kept t u :=
  ⟨h.directory, h.file, fun p _ => h.same p trivial⟩

theorem Extends.mono {fewer : FilePath → Prop} (h : Extends kept t u)
    (hKept : ∀ p, fewer p → kept p) : Extends fewer t u :=
  ⟨h.directory, h.file, fun p hp => h.same p (hKept p hp)⟩

theorem extends_of_node? (h : ∀ p, u.node? p = t.node? p) : Extends kept t u :=
  ⟨fun p hp => (h p).trans hp, fun p contents hp => ⟨contents, (h p).trans hp⟩,
    fun p _ _ => by rw [h p]⟩

/-! ## The end of a path -/

theorem atEnd_ne_of_obstacle? {o : Occupancy} (h : t.obstacle? p = some o) :
    (∀ node, o ≠ .taken node) ∧ o ≠ .vacant := by
  rw [obstacle?] at h
  split at h
  · cases h
  · cases h
    simp
  · cases h
    simp
  · rename_i hDirectory hFile hVacant
    cases h
    refine ⟨fun node hNode => ?_, hVacant⟩
    cases node with
    | file contents => exact hFile contents hNode
    | directory => exact hDirectory hNode

theorem obstacle?_eq_none_iff : t.obstacle? p = none ↔ t.atEnd p = .taken .directory := by
  rw [obstacle?]
  split <;> simp_all

theorem leads_iff : t.Leads p ↔ p.ancestors.findSome? t.obstacle? = none := by
  rw [List.findSome?_eq_none_iff]
  exact forall₂_congr fun above _ => obstacle?_eq_none_iff.symm

theorem occupancy_of_leads (hNameable : ¬ p.Unnameable) (hLong : ¬ p.TooLong) (hNames : p.names ≠ [])
    (hLeads : t.Leads p) : t.occupancy p = t.atEnd p := by
  rw [occupancy, if_neg hNameable, if_neg hLong, if_neg hNames, leads_iff.mp hLeads]
  rfl

/-- What a path goes through when something stands at its end, or might. -/
theorem leads_of_occupancy (hNames : p.names ≠ []) {o : Occupancy} (h : t.occupancy p = o)
    (ho : (∃ node, o = .taken node) ∨ o = .vacant) :
    ¬ p.Unnameable ∧ ¬ p.TooLong ∧ t.Leads p ∧ t.atEnd p = o := by
  rw [occupancy, if_neg hNames] at h
  split at h
  · subst h
    simp at ho
  rename_i hNameable
  split at h
  · subst h
    simp at ho
  rename_i hLong
  refine ⟨hNameable, hLong, ?_⟩
  cases hFind : p.ancestors.findSome? t.obstacle? with
  | none =>
    rw [hFind] at h
    exact ⟨leads_iff.mpr hFind, h⟩
  | some obstacle =>
    rw [hFind] at h
    obtain rfl : obstacle = o := h
    obtain ⟨above, _, hAbove⟩ := List.exists_of_findSome?_eq_some hFind
    obtain ⟨hTaken, hVacant⟩ := atEnd_ne_of_obstacle? hAbove
    rcases ho with ⟨node, hNode⟩ | ho
    · exact absurd hNode (hTaken node)
    · exact absurd ho hVacant

theorem occupancy_start (hNameable : ¬ p.Unnameable) (hLong : ¬ p.TooLong) (hNames : p.names = []) :
    t.occupancy p = .taken .directory := by
  rw [occupancy, if_neg hNameable, if_neg hLong, if_pos hNames]

theorem leads_child_iff (name : Text) :
    t.Leads (p.child name) ↔ p.names = [] ∨ (t.Leads p ∧ t.atEnd p = .taken .directory) := by
  unfold Leads
  by_cases hNames : p.names = []
  · simp [FilePath.ancestors_child_start hNames, hNames]
  · simp [FilePath.ancestors_child hNames, hNames, or_imp, forall_and]

theorem names_child_ne_nil (p : FilePath) (name : Text) : (p.child name).names ≠ [] := by
  simp [FilePath.child]

theorem occupancy_parent {name : Text} {o : Occupancy} (h : t.occupancy (p.child name) = o)
    (ho : (∃ node, o = .taken node) ∨ o = .vacant) : t.occupancy p = .taken .directory := by
  obtain ⟨hNameable, hLong, hLeads, _⟩ := leads_of_occupancy (names_child_ne_nil p name) h ho
  have hParentNameable : ¬ p.Unnameable :=
    fun hp => hNameable ((FilePath.unnameable_child p name).mpr (.inl hp))
  have hParentLong := FilePath.not_tooLong_of_child hLong
  by_cases hNames : p.names = []
  · exact occupancy_start hParentNameable hParentLong hNames
  · obtain ⟨hParentLeads, hEnd⟩ := ((leads_child_iff name).mp hLeads).resolve_left hNames
    rw [occupancy_of_leads hParentNameable hParentLong hNames hParentLeads, hEnd]

theorem leads_child_of_occupancy (hDirectory : t.occupancy p = .taken .directory) (name : Text) :
    t.Leads (p.child name) := by
  rw [leads_child_iff]
  by_cases hNames : p.names = []
  · exact .inl hNames
  · obtain ⟨_, _, hLeads, hEnd⟩ := leads_of_occupancy hNames hDirectory (.inl ⟨_, rfl⟩)
    exact .inr ⟨hLeads, hEnd⟩

theorem not_unnameable_of_occupancy {o : Occupancy} (h : t.occupancy p = o) (ho : o ≠ .unnameable) :
    ¬ p.Unnameable := by
  intro hUnnameable
  rw [occupancy, if_pos hUnnameable] at h
  exact ho h.symm

/-- What makes a path too long to be asked about, other than its last name, makes every path in its
directory too long whose name is no shorter. -/
theorem nameTooLong_child {m n : Text} (h : t.occupancy (p.child m) = .nameTooLong)
    (hShort : ¬ (p.child m).NameTooLong) (hName : ¬ n.Unnameable)
    (hLength : (Utf8.nameBytes m).length ≤ (Utf8.nameBytes n).length) :
    t.occupancy (p.child n) = .nameTooLong := by
  have hNameable : ¬ (p.child m).Unnameable := not_unnameable_of_occupancy h (by simp)
  have hNone : ¬ (p.child n).Unnameable := by
    rw [FilePath.unnameable_child] at hNameable ⊢
    exact not_or.mpr ⟨fun hp => hNameable (.inl hp), hName⟩
  rw [occupancy, if_neg hNone]
  split
  · rfl
  · rename_i hFits
    have hLong : ¬ (p.child m).TooLong := mt (p.tooLong_child_of_le hLength) hFits
    rw [occupancy, if_neg hNameable, if_neg hLong, if_neg (names_child_ne_nil p m),
      p.ancestors_child_congr m n] at h
    rw [if_neg (names_child_ne_nil p n)]
    cases hFind : (p.child n).ancestors.findSome? t.obstacle? with
    | some obstacle =>
      rw [hFind] at h
      exact h
    | none =>
      rw [hFind] at h
      change t.atEnd (p.child m) = .nameTooLong at h
      rw [atEnd, if_neg hShort] at h
      split at h
      · cases h
      split at h
      · cases h
      · cases h

theorem atEnd_eq_directory_iff : t.atEnd p = .taken .directory ↔
    p.lastName = FilePath.upward ∨ ¬ p.NameTooLong ∧ t.node? p = some .directory := by
  rw [atEnd]
  split
  · simp [*]
  · split
    · simp [*]
    · split <;> simp [*]

/-! ## Extensions -/

theorem Extends.atEnd_directory (h : Extends kept t u) (hEnd : t.atEnd p = .taken .directory) :
    u.atEnd p = .taken .directory := by
  rw [atEnd_eq_directory_iff] at hEnd ⊢
  exact hEnd.imp_right fun ⟨hName, hNode⟩ => ⟨hName, h.directory p hNode⟩

theorem Extends.leads (h : Extends kept t u) (hLeads : t.Leads p) : u.Leads p :=
  fun above hAbove => h.atEnd_directory (hLeads above hAbove)

theorem Extends.occupancy_directory (h : Extends kept t u)
    (hDirectory : t.occupancy p = .taken .directory) : u.occupancy p = .taken .directory := by
  by_cases hNames : p.names = []
  · have hNameable := not_unnameable_of_occupancy hDirectory (by simp)
    rw [occupancy, if_neg hNameable, if_pos hNames] at hDirectory ⊢
    exact hDirectory
  · obtain ⟨hNameable, hLong, hLeads, hEnd⟩ := leads_of_occupancy hNames hDirectory (.inl ⟨_, rfl⟩)
    rw [occupancy_of_leads hNameable hLong hNames (h.leads hLeads), h.atEnd_directory hEnd]

theorem node?_of_atEnd_file {contents : Bytes} (h : t.atEnd p = .taken (.file contents)) :
    p.lastName ≠ FilePath.upward ∧ ¬ p.NameTooLong ∧ t.node? p = some (.file contents) := by
  rw [atEnd] at h
  split at h
  · cases h
  split at h
  · cases h
  rename_i hBack hLong
  split at h
  · rename_i node hNode
    obtain rfl : node = .file contents := by simpa using h
    exact ⟨hBack, hLong, hNode⟩
  · cases h

theorem atEnd_of_node? (hBack : p.lastName ≠ FilePath.upward) (hLong : ¬ p.NameTooLong)
    {node : FileNode} (h : t.node? p = some node) : t.atEnd p = .taken node := by
  rw [atEnd, if_neg hBack, if_neg hLong, h]

theorem names_ne_nil_of_occupancy_file {contents : Bytes}
    (h : t.occupancy p = .taken (.file contents)) : p.names ≠ [] := by
  intro hNames
  rw [occupancy, if_pos hNames] at h
  split at h
  · cases h
  split at h
  · cases h
  · cases h

theorem node?_of_occupancy_file {contents : Bytes}
    (h : t.occupancy p = .taken (.file contents)) : t.node? p = some (.file contents) := by
  have hNames := names_ne_nil_of_occupancy_file h
  obtain ⟨_, _, _, hEnd⟩ := leads_of_occupancy hNames h (.inl ⟨_, rfl⟩)
  exact (node?_of_atEnd_file hEnd).2.2

theorem Extends.occupancy_file (h : Extends kept t u) {contents later : Bytes}
    (hFile : t.occupancy p = .taken (.file contents)) (hNode : u.node? p = some (.file later)) :
    u.occupancy p = .taken (.file later) := by
  have hNames := names_ne_nil_of_occupancy_file hFile
  obtain ⟨hNameable, hLong, hLeads, hEnd⟩ := leads_of_occupancy hNames hFile (.inl ⟨_, rfl⟩)
  obtain ⟨hBack, hName, _⟩ := node?_of_atEnd_file hEnd
  rw [occupancy_of_leads hNameable hLong hNames (h.leads hLeads), atEnd_of_node? hBack hName hNode]

theorem Extends.occupancy_kept (h : Extends kept t u) (hKept : kept p) {contents : Bytes}
    (hFile : t.occupancy p = .taken (.file contents)) :
    u.occupancy p = .taken (.file contents) :=
  h.occupancy_file hFile ((h.same p hKept contents).mp (node?_of_occupancy_file hFile))

theorem read_eq_ok_iff {contents : Bytes} :
    t.read p = .ok contents ↔ t.occupancy p = .taken (.file contents) := by
  rw [read]
  split <;> simp_all

/-! ## Making directories -/

theorem node?_congr (h : p.location = q.location) : t.node? p = t.node? q := by
  rw [node?, node?, h]

theorem Adds.grows {row : List FilePath} (h : Adds row t u) : Grows t u := by
  refine ⟨?_, ?_, ?_⟩
  · intro q hq
    rcases h q with hSame | ⟨hNone, _⟩
    · exact hSame.trans hq
    · rw [hNone] at hq
      cases hq
  · intro q contents hq
    rcases h q with hSame | ⟨hNone, _⟩
    · exact ⟨contents, hSame.trans hq⟩
    · rw [hNone] at hq
      cases hq
  · intro q _ contents
    rcases h q with hSame | ⟨hNone, hMade, _⟩
    · rw [hSame]
    · simp [hNone, hMade]

theorem Adds.refl (row : List FilePath) (t : FileTree) : Adds row t t :=
  fun _ => .inl rfl

theorem Adds.mono {row more : List FilePath} (h : Adds row t u) (hMore : row ⊆ more) :
    Adds more t u := by
  intro p
  refine (h p).imp_right ?_
  rintro ⟨hNone, hMade, q, hq, hPlace⟩
  exact ⟨hNone, hMade, q, hMore hq, hPlace⟩

theorem Adds.trans {row : List FilePath} (hFirst : Adds row t u) (hSecond : Adds row u v) :
    Adds row t v := by
  intro p
  rcases hSecond p with hSame | ⟨hNone, hMade, hRow⟩
  · rw [hSame]
    exact hFirst p
  · rcases hFirst p with hSame | ⟨_, hBefore, _⟩
    · exact .inr ⟨hSame.symm.trans hNone, hMade, hRow⟩
    · rw [hNone] at hBefore
      cases hBefore

theorem adds_put_directory (h : t.node? p = none) : Adds [p] t (t.put p .directory) := by
  intro q
  rw [node?_put]
  split
  · rename_i hEq
    rw [node?_congr hEq]
    exact .inr ⟨h, rfl, p, List.mem_singleton_self p, hEq.symm⟩
  · exact .inl rfl

theorem node?_of_atEnd_vacant (h : t.atEnd p = .vacant) :
    p.lastName ≠ FilePath.upward ∧ ¬ p.NameTooLong ∧ t.node? p = none := by
  rw [atEnd] at h
  split at h
  · cases h
  split at h
  · cases h
  rename_i hBack hLong
  split at h
  · cases h
  · rename_i hNode
    exact ⟨hBack, hLong, hNode⟩

theorem names_ne_nil_of_occupancy_vacant (h : t.occupancy p = .vacant) : p.names ≠ [] := by
  intro hNames
  rw [occupancy, if_pos hNames] at h
  split at h
  · cases h
  split at h
  · cases h
  · cases h

theorem makeDirectory_spec (h : t.makeDirectory p (t.atEnd p) = .ok u) :
    Adds [p] t u ∧ u.atEnd p = .taken .directory := by
  cases hEnd : t.atEnd p with
  | taken node =>
    rw [hEnd] at h
    cases node with
    | file contents => cases h
    | directory =>
      cases h
      exact ⟨.refl _ t, hEnd⟩
  | vacant =>
    rw [hEnd] at h
    cases h
    obtain ⟨hBack, hLong, hNode⟩ := node?_of_atEnd_vacant hEnd
    refine ⟨adds_put_directory hNode, atEnd_of_node? hBack hLong ?_⟩
    rw [node?_put, if_pos rfl]
  | adrift => rw [hEnd] at h; cases h
  | blocked => rw [hEnd] at h; cases h
  | nameTooLong => rw [hEnd] at h; cases h
  | unnameable => rw [hEnd] at h; cases h

theorem makeRow_spec (t : FileTree) (row : List FilePath) :
    Adds row t (t.makeRow row).2 ∧
      ((t.makeRow row).1 = .ok () → ∀ p ∈ row, (t.makeRow row).2.atEnd p = .taken .directory) := by
  induction row generalizing t with
  | nil => exact ⟨.refl _ t, fun _ => by simp⟩
  | cons first rest ih =>
    rw [makeRow]
    split
    · rename_i u hMade
      obtain ⟨hAdds, hFirst⟩ := makeDirectory_spec hMade
      obtain ⟨hRest, hAll⟩ := ih u
      have hBoth : Adds (first :: rest) t (u.makeRow rest).2 :=
        (hAdds.mono (by simp)).trans (hRest.mono (by simp))
      refine ⟨hBoth, fun hOk => List.forall_mem_cons.mpr ⟨?_, hAll hOk⟩⟩
      exact hRest.grows.atEnd_directory hFirst
    · exact ⟨.refl _ t, fun hOk => by cases hOk⟩

/-- Making a directory adds directories on its path only, and afterwards the path leads to one. -/
theorem makeDirectories_spec (t : FileTree) (p : FilePath) :
    Adds (p.ancestors ++ [p]) t (t.makeDirectories p).2 ∧ ((t.makeDirectories p).1 = .ok () →
      (t.makeDirectories p).2.occupancy p = .taken .directory) := by
  rw [makeDirectories]
  cases hOccupancy : t.occupancy p with
  | taken node =>
    cases node with
    | file contents => exact ⟨.refl _ t, fun hOk => by cases hOk⟩
    | directory => exact ⟨.refl _ t, fun _ => hOccupancy⟩
  | vacant =>
    have hNames := names_ne_nil_of_occupancy_vacant hOccupancy
    obtain ⟨hNameable, hLong, hLeads, hEnd⟩ := leads_of_occupancy hNames hOccupancy (.inr rfl)
    have hMade : t.makeDirectory p (t.atEnd p) = .ok (t.put p .directory) := by rw [hEnd]; rfl
    obtain ⟨hAdds, hDirectory⟩ := makeDirectory_spec hMade
    refine ⟨hAdds.mono (by simp), fun _ => ?_⟩
    exact (occupancy_of_leads hNameable hLong hNames (hAdds.grows.leads hLeads)).trans hDirectory
  | adrift =>
    obtain ⟨hAdds, hRow⟩ := t.makeRow_spec (p.ancestors ++ [p])
    refine ⟨hAdds, fun hOk => ?_⟩
    have hRow := hRow hOk
    have hNameable := not_unnameable_of_occupancy hOccupancy (by simp)
    have hLong : ¬ p.TooLong := by
      intro hLong
      rw [occupancy, if_neg hNameable, if_pos hLong] at hOccupancy
      cases hOccupancy
    by_cases hNames : p.names = []
    · exact occupancy_start hNameable hLong hNames
    · have hLeads : (t.makeRow (p.ancestors ++ [p])).2.Leads p :=
        fun above hAbove => hRow above (List.mem_append_left _ hAbove)
      rw [occupancy_of_leads hNameable hLong hNames hLeads]
      exact hRow p (List.mem_append_right _ List.mem_cons_self)
  | blocked => exact ⟨.refl _ t, fun hOk => by cases hOk⟩
  | nameTooLong => exact ⟨.refl _ t, fun hOk => by cases hOk⟩
  | unnameable => exact ⟨.refl _ t, fun hOk => by cases hOk⟩

theorem makeDirectories_of_directory (h : t.occupancy p = .taken .directory) :
    t.makeDirectories p = (.ok (), t) := by
  rw [makeDirectories, h]
  rfl

/-! ## Paths that cannot be given to the system -/

theorem atEnd_ne_unnameable (t : FileTree) (p : FilePath) : t.atEnd p ≠ .unnameable := by
  rw [atEnd]
  split
  · nofun
  split
  · nofun
  split
  · nofun
  · nofun

theorem unnameable_of_occupancy (h : t.occupancy p = .unnameable) : p.Unnameable := by
  rw [occupancy] at h
  split at h
  · assumption
  split at h
  · cases h
  split at h
  · cases h
  exfalso
  cases hFind : p.ancestors.findSome? t.obstacle? with
  | none =>
    rw [hFind] at h
    exact t.atEnd_ne_unnameable p h
  | some obstacle =>
    rw [hFind] at h
    obtain rfl : obstacle = .unnameable := h
    obtain ⟨above, _, hAbove⟩ := List.exists_of_findSome?_eq_some hFind
    rw [obstacle?] at hAbove
    split at hAbove
    · cases hAbove
    · cases hAbove
    · cases hAbove
    · exact t.atEnd_ne_unnameable above (Option.some.inj hAbove)

theorem eq_unnameable_of_makeDirectory {o : Occupancy} {e : FileError}
    (h : t.makeDirectory p o = .error e) (hSystem : e.isFromSystem = false) :
    o = .unnameable := by
  unfold makeDirectory at h
  split at h
  · cases h
  · cases h
    cases hSystem
  · cases h
  · cases h
    cases hSystem
  · cases h
    cases hSystem
  · cases h
    cases hSystem
  · rfl

theorem isFromSystem_of_makeRow {row : List FilePath} {e : FileError}
    (h : (t.makeRow row).1 = .error e) : e.isFromSystem = true := by
  induction row generalizing t with
  | nil => cases h
  | cons first rest ih =>
    rw [makeRow] at h
    split at h
    · exact ih h
    · rename_i hMade
      cases h
      cases hSystem : e.isFromSystem with
      | true => rfl
      | false =>
        exact absurd (eq_unnameable_of_makeDirectory hMade hSystem) (t.atEnd_ne_unnameable first)

theorem makeDirectories_of_unnameable (h : p.Unnameable) :
    t.makeDirectories p = (.error p.refusal, t) := by
  rw [makeDirectories, occupancy, if_pos h]
  rfl

theorem unnameable_of_makeDirectories {e : FileError} (h : (t.makeDirectories p).1 = .error e)
    (hSystem : e.isFromSystem = false) : p.Unnameable := by
  rw [makeDirectories] at h
  split at h
  · rw [isFromSystem_of_makeRow h] at hSystem
    cases hSystem
  · rename_i hOther
    split at h
    · cases h
    · rename_i refusal hMade
      cases h
      exact unnameable_of_occupancy (eq_unnameable_of_makeDirectory hMade hSystem)

theorem unnameable_of_openToWrite {e : FileError} (h : t.openToWrite p = .error e)
    (hSystem : e.isFromSystem = false) : p.Unnameable := by
  rw [openToWrite] at h
  split at h
  · cases h
  · rw [read] at h
    split at h
    case h_7 hUnnameable => exact unnameable_of_occupancy hUnnameable
    all_goals
      cases h
      try cases hSystem

theorem write_of_unnameable (h : p.Unnameable) (t : FileTree) (contents : Bytes) :
    t.write p contents = .error p.refusal := by
  rw [write, openToWrite, read, occupancy, if_pos h]

theorem unnameable_of_write {contents : Bytes} {e : FileError} (h : t.write p contents = .error e)
    (hSystem : e.isFromSystem = false) : p.Unnameable := by
  rw [write] at h
  split at h
  · cases h
  · rename_i refusal hOpen
    cases h
    exact unnameable_of_openToWrite hOpen hSystem

/-! ## Temporary files -/

theorem length_lastName_le {entries : Record Location FileNode} {entry : Location × FileNode}
    (h : entry ∈ entries) : entry.1.lastName.length ≤
      (entries.map fun entry => entry.1.lastName.length).foldr max 0 := by
  induction entries with
  | nil => cases h
  | cons first rest ih =>
    rw [List.map_cons, List.foldr_cons]
    rcases List.mem_cons.mp h with rfl | hRest
    · exact Nat.le_max_left _ _
    · exact Nat.le_trans (ih hRest) (Nat.le_max_right _ _)

theorem length_nameBytes_stars (count : Nat) :
    (Utf8.nameBytes (List.replicate count (CodePoint.ofChar '*'))).length = count := by
  induction count with
  | zero => rfl
  | succ count ih =>
    rw [List.replicate_succ, Utf8.nameBytes, List.flatMap_cons, List.length_append]
    rw [Utf8.nameBytes] at ih
    rw [ih, Nat.add_comm count 1]
    rfl

theorem lt_length_unusedName (t : FileTree) {entry : Location × FileNode} (h : entry ∈ t.entries) :
    entry.1.lastName.length < (Utf8.nameBytes t.unusedName).length := by
  have hLongest := length_lastName_le h
  rw [unusedName, Utf8.nameBytes_append, Utf8.nameBytes_append, List.length_append,
    List.length_append, length_nameBytes_stars]
  omega

theorem unusedName_ne_upward (t : FileTree) : t.unusedName ≠ FilePath.upward := by
  obtain ⟨rest, hRest⟩ : ∃ rest,
      t.unusedName = CodePoint.ofChar '.' :: CodePoint.ofChar 's' :: rest := ⟨_, rfl⟩
  rw [hRest]
  intro hEq
  have hSecond := (List.cons.inj (List.cons.inj hEq).2).1
  revert hSecond
  decide

theorem node?_unusedName (t : FileTree) (directory : FilePath) :
    t.node? (directory.child t.unusedName) = none := by
  rw [node?, FilePath.location_child _ _ t.unusedName_ne_upward, Record.get?,
    List.lookup_eq_none_iff]
  intro entry hEntry
  have hLonger := t.lt_length_unusedName hEntry
  rw [bne_iff_ne]
  intro hEq
  rw [← hEq, Location.lastName_child] at hLonger
  exact absurd hLonger (Nat.lt_irrefl _)

end Switchboard.FileTree

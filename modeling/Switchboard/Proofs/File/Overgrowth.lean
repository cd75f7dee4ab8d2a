import Switchboard.Proofs.File.Overlooking

/-!
# Trees that saving has grown over

Saving settings makes the directories on the way to a file and changes what stands at its place. A
tree on which that has happened is told from the bare one by nobody who keeps off the place and puts
nothing where those directories are to be: both answer alike, and both are changed alike.
-/

namespace Switchboard

/-- Neither is an error on one side only, and errors are the same unless the system has made
both. -/
def Akin (x y : Except FileError Unit) : Prop :=
  (x = .ok () ∧ y = .ok ()) ∨ ∃ e f, x = .error e ∧ y = .error f ∧
    (e = f ∨ e.isFromSystem = true ∧ f.isFromSystem = true)

namespace FilePath

/-- Leads neither to any of some places nor through one. -/
def Avoids (p : FilePath) (places : List FilePath) : Prop :=
  ∀ place ∈ places, p.KeepsOff place

instance (p : FilePath) (places : List FilePath) : Decidable (p.Avoids places) :=
  inferInstanceAs (Decidable (∀ place ∈ places, p.KeepsOff place))

theorem Avoids.ne {p q : FilePath} {places : List FilePath} (h : p.Avoids places)
    (hq : q ∈ p.ancestors ++ [p]) : ∀ place ∈ places, place.location ≠ q.location := by
  intro place hPlace hSame
  refine h place hPlace q hq ?_
  rw [LeadsInto, ← hSame]
  exact ⟨rfl, List.prefix_refl _⟩

end FilePath

namespace FileTree

/-- One tree holds what another holds, but for whatever is at some places, and for directories in a
row where the other holds nothing. -/
def Overgrows (places row : List FilePath) (bare t : FileTree) : Prop :=
  ∀ q, (∀ place ∈ places, place.location ≠ q.location) → t.node? q = bare.node? q ∨
    (bare.node? q = none ∧ t.node? q = some .directory ∧ ∃ d ∈ row, d.location = q.location)

variable {places row way : List FilePath} {bare t u : FileTree} {p q : FilePath}

theorem Overgrows.refl (places row : List FilePath) (t : FileTree) : Overgrows places row t t :=
  fun _ _ => .inl rfl

theorem Overgrows.trans (hFirst : Overgrows places row bare t) (hNext : Overgrows places row t u) :
    Overgrows places row bare u := by
  intro q hq
  rcases hNext q hq with hSame | ⟨hNone, hMade, hRow⟩
  · rw [hSame]
    exact hFirst q hq
  · rcases hFirst q hq with hSame | ⟨_, hBefore, _⟩
    · exact .inr ⟨hSame.symm.trans hNone, hMade, hRow⟩
    · rw [hNone] at hBefore
      cases hBefore

theorem Adds.overgrows (h : Adds row t u) (places : List FilePath) : Overgrows places row t u :=
  fun q _ => h q

theorem Overgrows.put (h : Overgrows places row bare t) (p : FilePath) (node : FileNode) :
    Overgrows places row (bare.put p node) (t.put p node) := by
  intro q hq
  rw [node?_put, node?_put]
  split
  · exact .inl rfl
  · exact h q hq

/-! ## Questions -/

theorem Overgrows.atEnd_cases (h : Overgrows places row bare t)
    (hq : ∀ place ∈ places, place.location ≠ q.location) : t.atEnd q = bare.atEnd q ∨
      (bare.atEnd q = .vacant ∧ t.atEnd q = .taken .directory ∧
        t.node? q = some .directory) := by
  rcases h q hq with hSame | ⟨hNone, hMade, _⟩
  · left
    rw [atEnd, atEnd, hSame]
  · rw [atEnd, atEnd, hNone, hMade]
    split
    · exact .inl rfl
    split
    · exact .inl rfl
    · exact .inr ⟨rfl, rfl, rfl⟩

theorem Overgrows.atEnd_taken (h : Overgrows places row bare t)
    (hq : ∀ place ∈ places, place.location ≠ q.location) {node : FileNode}
    (hEnd : bare.atEnd q = .taken node) : t.atEnd q = .taken node := by
  rcases h.atEnd_cases hq with hSame | ⟨hVacant, _, _⟩
  · rw [hSame, hEnd]
  · rw [hVacant] at hEnd
    cases hEnd

theorem Overgrows.leads (h : Overgrows places row bare t) (hp : p.Avoids places)
    (hLeads : bare.Leads p) : t.Leads p :=
  fun above hAbove =>
    h.atEnd_taken (hp.ne (List.mem_append_left _ hAbove)) (hLeads above hAbove)

theorem Overgrows.occupancy_eq (h : Overgrows places row bare t) (hp : p.Avoids places)
    (hRow : ∀ d ∈ row, d.location ≠ p.location) (hLeads : bare.Leads p) :
    t.occupancy p = bare.occupancy p := by
  have hNode : t.node? p = bare.node? p := by
    refine (h p (hp.ne (List.mem_append_right _ List.mem_cons_self))).resolve_right ?_
    rintro ⟨_, _, d, hd, hSame⟩
    exact hRow d hd hSame
  rw [occupancy, occupancy, leads_iff.mp hLeads, leads_iff.mp (h.leads hp hLeads), atEnd, atEnd,
    hNode]

theorem Overgrows.openToWrite_eq (h : Overgrows places row bare t) (hp : p.Avoids places)
    (hRow : ∀ d ∈ row, d.location ≠ p.location) (hLeads : bare.Leads p) :
    t.openToWrite p = bare.openToWrite p := by
  have hSame := h.occupancy_eq hp hRow hLeads
  rw [openToWrite, openToWrite, FileTree.read, FileTree.read, hSame]

theorem Overgrows.append (h : Overgrows places row bare t) (hp : p.Avoids places)
    (hRow : ∀ d ∈ row, d.location ≠ p.location) (hLeads : bare.Leads p) (more : Bytes) :
    SameEnd (Overgrows places row) (bare.append p more) (t.append p more) := by
  rw [FileTree.append, FileTree.append, h.openToWrite_eq hp hRow hLeads]
  cases bare.openToWrite p with
  | ok contents => exact .inr ⟨_, _, rfl, rfl, h.put p _⟩
  | error e => exact .inl ⟨e, rfl, rfl⟩

theorem Overgrows.write (h : Overgrows places row bare t) (hp : p.Avoids places)
    (hRow : ∀ d ∈ row, d.location ≠ p.location) (hLeads : bare.Leads p) (contents : Bytes) :
    SameEnd (Overgrows places row) (bare.write p contents) (t.write p contents) := by
  rw [FileTree.write, FileTree.write, h.openToWrite_eq hp hRow hLeads]
  cases bare.openToWrite p with
  | ok old => exact .inr ⟨_, _, rfl, rfl, h.put p _⟩
  | error e => exact .inl ⟨e, rfl, rfl⟩

/-! ## Directories -/

theorem Overgrows.makeDirectory (h : Overgrows places row bare t) (o : Occupancy) :
    SameEnd (Overgrows places row) (bare.makeDirectory p o) (t.makeDirectory p o) := by
  cases o with
  | taken node =>
    cases node with
    | file contents => exact .inl ⟨_, rfl, rfl⟩
    | directory => exact .inr ⟨bare, t, rfl, rfl, h⟩
  | vacant => exact .inr ⟨_, _, rfl, rfl, h.put p .directory⟩
  | adrift | blocked | nameTooLong | unnameable => exact .inl ⟨_, rfl, rfl⟩

theorem Overgrows.put_directory (h : Overgrows places row bare t)
    (hNode : t.node? p = some .directory) : Overgrows places row (bare.put p .directory) t := by
  intro q hq
  rw [node?_put]
  split
  · rename_i hSame
    rw [node?_congr hSame, hNode]
    exact .inl rfl
  · exact h q hq

theorem Overgrows.makeRow (h : Overgrows places row bare t)
    (hWay : ∀ q ∈ way, ∀ place ∈ places, place.location ≠ q.location) :
    Same (Overgrows places row) (bare.makeRow way) (t.makeRow way) := by
  -- over the row; where saving has made a directory already, the bare tree makes it now
  induction way generalizing bare t with
  | nil => exact ⟨_, bare, t, rfl, rfl, h⟩
  | cons p rest ih =>
    obtain ⟨hp, hRest⟩ := List.forall_mem_cons.mp hWay
    rw [FileTree.makeRow, FileTree.makeRow]
    rcases h.atEnd_cases hp with hSame | ⟨hVacant, hTaken, hNode⟩
    · rw [hSame]
      rcases h.makeDirectory (p := p) (bare.atEnd p) with
        ⟨e, hLeft, hRight⟩ | ⟨made, makes, hLeft, hRight, hMade⟩
      · rw [hLeft, hRight]
        exact ⟨_, bare, t, rfl, rfl, h⟩
      · rw [hLeft, hRight]
        exact ih hMade hRest
    · rw [hVacant, hTaken]
      exact ih (h.put_directory hNode) hRest

theorem makeRow_of_directories (hWay : ∀ q ∈ way, t.atEnd q = .taken .directory)
    (rest : List FilePath) : t.makeRow (way ++ rest) = t.makeRow rest := by
  induction way with
  | nil => rfl
  | cons q others ih =>
    obtain ⟨hq, hOthers⟩ := List.forall_mem_cons.mp hWay
    rw [List.cons_append, FileTree.makeRow, hq]
    exact ih hOthers

theorem makeRow_of_obstacle {o : Occupancy} (hWay : way.findSome? t.obstacle? = some o)
    (hOther : o ≠ .adrift) (rest : List FilePath) :
    ∃ e, t.makeRow (way ++ rest) = (.error e, t) := by
  induction way with
  | nil => cases hWay
  | cons q others ih =>
    rw [List.findSome?_cons] at hWay
    rw [List.cons_append, FileTree.makeRow]
    cases hObstacle : t.obstacle? q with
    | none =>
      rw [hObstacle] at hWay
      rw [obstacle?_eq_none_iff.mp hObstacle]
      exact ih hWay
    | some obstacle =>
      rw [hObstacle] at hWay
      cases hWay
      rw [obstacle?] at hObstacle
      -- what is in the way is no directory and not missing, so making one here is refused
      split at hObstacle
      · cases hObstacle
      · rename_i hEnd
        rw [hEnd]
        exact ⟨_, rfl⟩
      · cases hObstacle
        exact absurd rfl hOther
      · rename_i hDirectory hFile hVacant
        generalize t.atEnd q = ends at hDirectory hFile hVacant ⊢
        cases ends with
        | taken node =>
          cases node with
          | directory => exact absurd rfl hDirectory
          | file contents => exact absurd rfl (hFile contents)
        | vacant => exact absurd rfl hVacant
        | adrift | blocked | nameTooLong | unnameable => exact ⟨_, rfl⟩

/-- Making a directory comes to making the row of directories that ends with it, but for the words
of a refusal. -/
theorem makeDirectories_row (hNameable : ¬ p.Unnameable) (hLong : ¬ p.TooLong)
    (hNames : p.names ≠ []) (t : FileTree) :
    (t.makeDirectories p).2 = (t.makeRow (p.ancestors ++ [p])).2 ∧
      ((t.makeDirectories p).1 = .ok () ↔ (t.makeRow (p.ancestors ++ [p])).1 = .ok ()) := by
  cases hFind : p.ancestors.findSome? t.obstacle? with
  | none =>
    have hLeads : t.Leads p := leads_iff.mpr hFind
    have hEnd := occupancy_of_leads hNameable hLong hNames hLeads
    rw [makeRow_of_directories hLeads [p], makeRow, makeDirectories, hEnd]
    split
    · rename_i hAdrift
      rw [atEnd] at hAdrift
      split at hAdrift
      · cases hAdrift
      split at hAdrift
      · cases hAdrift
      split at hAdrift
      · cases hAdrift
      · cases hAdrift
    · split
      · exact ⟨rfl, Iff.rfl⟩
      · exact ⟨rfl, Iff.rfl⟩
  | some o =>
    have hOccupancy : t.occupancy p = o := by
      rw [occupancy, if_neg hNameable, if_neg hLong, if_neg hNames, hFind]
      rfl
    rw [makeDirectories, hOccupancy]
    by_cases hAdrift : o = .adrift
    · rw [hAdrift]
      exact ⟨rfl, Iff.rfl⟩
    · obtain ⟨e, hRow⟩ := makeRow_of_obstacle hFind hAdrift [p]
      obtain ⟨above, _, hAbove⟩ := List.exists_of_findSome?_eq_some hFind
      obtain ⟨hTaken, hVacant⟩ := atEnd_ne_of_obstacle? hAbove
      rw [hRow]
      cases o with
      | taken node => exact absurd rfl (hTaken node)
      | vacant => exact absurd rfl hVacant
      | adrift => exact absurd rfl hAdrift
      | blocked | nameTooLong | unnameable => exact ⟨rfl, by simp [makeDirectory]⟩

theorem akin_of_nameable {x y : Except FileError Unit} (hOk : x = .ok () ↔ y = .ok ())
    (hLeft : ∀ e, x = .error e → e.isFromSystem = true)
    (hRight : ∀ e, y = .error e → e.isFromSystem = true) : Akin x y := by
  cases x with
  | ok _ => exact .inl ⟨rfl, hOk.mp rfl⟩
  | error e =>
    cases y with
    | ok _ => cases hOk.mpr rfl
    | error f => exact .inr ⟨e, f, rfl, rfl, .inr ⟨hLeft e rfl, hRight f rfl⟩⟩

theorem isFromSystem_of_makeDirectories (hNameable : ¬ p.Unnameable) {e : FileError}
    (h : (t.makeDirectories p).1 = .error e) : e.isFromSystem = true := by
  by_contra hOther
  exact hNameable (unnameable_of_makeDirectories h (Bool.not_eq_true _ ▸ hOther))

theorem Overgrows.makeDirectories (h : Overgrows places row bare t) (hp : p.Avoids places) :
    Akin (bare.makeDirectories p).1 (t.makeDirectories p).1 ∧
      Overgrows places row (bare.makeDirectories p).2 (t.makeDirectories p).2 := by
  by_cases hUnnameable : p.Unnameable
  · rw [makeDirectories_of_unnameable hUnnameable, makeDirectories_of_unnameable hUnnameable]
    exact ⟨.inr ⟨_, _, rfl, rfl, .inl rfl⟩, h⟩
  by_cases hLong : p.TooLong
  · have hAlike : ∀ t : FileTree, t.makeDirectories p = (.error (.nameTooLong p), t) := by
      intro t
      rw [FileTree.makeDirectories, occupancy, if_neg hUnnameable, if_pos hLong]
      rfl
    rw [hAlike, hAlike]
    exact ⟨.inr ⟨_, _, rfl, rfl, .inl rfl⟩, h⟩
  by_cases hNames : p.names = []
  · rw [makeDirectories_of_directory (occupancy_start hUnnameable hLong hNames),
      makeDirectories_of_directory (occupancy_start hUnnameable hLong hNames)]
    exact ⟨.inl ⟨rfl, rfl⟩, h⟩
  · obtain ⟨hBare, hBareOk⟩ := makeDirectories_row hUnnameable hLong hNames bare
    obtain ⟨hMade, hMadeOk⟩ := makeDirectories_row hUnnameable hLong hNames t
    have hWay : ∀ q ∈ p.ancestors ++ [p], ∀ place ∈ places, place.location ≠ q.location :=
      fun q hq => hp.ne hq
    obtain ⟨hResult, hAfter⟩ := (h.makeRow hWay).parts
    rw [← hBare, ← hMade] at hAfter
    refine ⟨akin_of_nameable ?_ ?_ ?_, hAfter⟩
    · rw [hBareOk, hMadeOk, hResult]
    · exact fun e he => isFromSystem_of_makeDirectories hUnnameable he
    · exact fun e he => isFromSystem_of_makeDirectories hUnnameable he

end FileTree

/-- The faults that are met elsewhere than in replacing a file. -/
def Faults.elsewhere (met : Faults) : Faults :=
  { met with
    makeTemporary := none
    openTemporary := none
    replaceFile := none }

namespace Host

/-- A host on which saving may have gone on beside the bare one. What has been logged on either is
left open, and so are the faults that only saving meets. -/
structure Overgrows (places row : List FilePath) (met : Faults) (bare host : Host) : Prop where
  tree : FileTree.Overgrows places row bare.tree host.tree
  clock : host.clock = bare.clock
  faults : host.faults = met
  others : bare.faults = met.elsewhere

variable {places row : List FilePath} {met : Faults} {bare host : Host} {path : FilePath}

theorem Overgrows.note (h : Overgrows places row met bare host) (severity other : Severity)
    (source : Source) (message text : Text) :
    Overgrows places row met (bare.note severity source message)
      (host.note other source text) :=
  ⟨h.tree, h.clock, h.faults, h.others⟩

theorem Overgrows.makeDirectories (h : Overgrows places row met bare host)
    (hPath : path.Avoids places) :
    Akin (bare.makeDirectories path).1 (host.makeDirectories path).1 ∧
      Overgrows places row met (bare.makeDirectories path).2 (host.makeDirectories path).2 := by
  have hFault : bare.faults.makeDirectory = host.faults.makeDirectory := by
    rw [h.others, h.faults]
    rfl
  rw [Host.makeDirectories, Host.makeDirectories, hFault]
  cases host.faults.makeDirectory with
  | some message => exact ⟨.inr ⟨_, _, rfl, rfl, .inl rfl⟩, h⟩
  | none =>
    obtain ⟨hAkin, hAfter⟩ := h.tree.makeDirectories hPath
    exact ⟨hAkin, hAfter, h.clock, h.faults, h.others⟩

end Host

end Switchboard

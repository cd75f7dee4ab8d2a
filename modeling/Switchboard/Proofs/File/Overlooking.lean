import Switchboard.Proofs.File.Contents

/-!
# Trees that differ at one place

Two trees may differ in what they hold at one place and below it. Whoever keeps to paths that lead
neither there nor through there is told the same by both trees and changes them alike, and what each
of them holds at the place stays as it is.
-/

namespace Switchboard

/-- The same answer from both sides, and what is left of the two is related. -/
def Same {α β : Type} (R : β → β → Prop) (x y : α × β) : Prop :=
  ∃ a b c, x = (a, b) ∧ y = (a, c) ∧ R b c

theorem Same.intro {α β : Type} {R : β → β → Prop} {a : α} {b c : β} (h : R b c) :
    Same R (a, b) (a, c) :=
  ⟨a, b, c, rfl, rfl, h⟩

theorem Same.parts {α β : Type} {R : β → β → Prop} {x y : α × β} (h : Same R x y) :
    x.1 = y.1 ∧ R x.2 y.2 := by
  obtain ⟨_, _, _, rfl, rfl, hRest⟩ := h
  exact ⟨rfl, hRest⟩

/-- The same part on both sides, of which something holds, and the rest is related. -/
inductive Shared {α β : Type} (P : α → Prop) (R : β → β → Prop) : α × β → α × β → Prop
  | intro {a : α} {b c : β} (hPart : P a) (hRest : R b c) : Shared P R (a, b) (a, c)

theorem Shared.same {α β : Type} {P : α → Prop} {R : β → β → Prop} {x y : α × β}
    (h : Shared P R x y) : Same R x y := by
  obtain ⟨_, hRest⟩ := h
  exact .intro hRest

/-- The same refusal from both sides, or related results. -/
def SameEnd {ε α : Type} (R : α → α → Prop) (x y : Except ε α) : Prop :=
  (∃ e, x = .error e ∧ y = .error e) ∨ ∃ a b, x = .ok a ∧ y = .ok b ∧ R a b

namespace FilePath

/-- A path leads to a place, or to something below it. -/
def LeadsInto (p place : FilePath) : Prop :=
  p.location.IsWithin place.location

instance (p place : FilePath) : Decidable (p.LeadsInto place) :=
  inferInstanceAs (Decidable (p.location.IsWithin place.location))

/-- A path, as it is written, leads neither to a place nor through it. -/
def KeepsOff (p place : FilePath) : Prop :=
  ∀ q ∈ p.ancestors ++ [p], ¬ q.LeadsInto place

instance (p place : FilePath) : Decidable (p.KeepsOff place) :=
  inferInstanceAs (Decidable (∀ q ∈ p.ancestors ++ [p], ¬ q.LeadsInto place))

variable {p q place : FilePath}

theorem leadsInto_congr (h : p.location = q.location) : p.LeadsInto place ↔ q.LeadsInto place := by
  rw [LeadsInto, LeadsInto, h]

theorem KeepsOff.self (h : p.KeepsOff place) : ¬ p.LeadsInto place :=
  h p (List.mem_append_right _ List.mem_cons_self)

theorem KeepsOff.child {name : Text} (h : p.KeepsOff place) (hName : name ≠ upward)
    (hOther : (p.child name).location ≠ place.location) : (p.child name).KeepsOff place := by
  have hChild : ¬ (p.child name).LeadsInto place := by
    rintro ⟨hStart, hPrefix⟩
    rw [location_child p name hName] at hOther hStart hPrefix
    rcases List.prefix_concat_iff.mp hPrefix with hSame | hAbove
    · exact hOther (Location.mk.injEq .. ▸ ⟨hStart, hSame.symm⟩)
    · exact h.self ⟨hStart, hAbove⟩
  intro q hq
  rcases List.mem_append.mp hq with hAncestor | hSelf
  · by_cases hNames : p.names = []
    · rw [ancestors_child_start hNames] at hAncestor
      cases hAncestor
    · rw [ancestors_child hNames] at hAncestor
      exact h q hAncestor
  · rw [List.mem_singleton.mp hSelf]
    exact hChild

theorem keepsOff_start (hPlace : place.location.names ≠ []) (h : p.names = []) :
    p.KeepsOff place := by
  intro q hq
  have hNone : p.ancestors = [] := by rw [ancestors, h]; rfl
  rw [hNone, List.nil_append, List.mem_singleton] at hq
  have hLocation : p.location.names = [] := by
    rw [location_of_no_upward p (by rw [h]; exact List.not_mem_nil), h]
    rfl
  rintro ⟨_, hPrefix⟩
  rw [hq, hLocation] at hPrefix
  exact hPlace (List.prefix_nil.mp hPrefix)

theorem keepsOff_of_length (h : upward ∉ p.names)
    (hLength : p.names.length < place.location.names.length) : p.KeepsOff place := by
  rintro q hq ⟨_, hBelow⟩
  obtain ⟨_, hPrefix⟩ := prefix_of_mem_ancestors hq
  rw [location_of_no_upward q fun hBack => h (hPrefix.subset hBack)] at hBelow
  have hDeep := hBelow.length_le
  have hShort := hPrefix.length_le
  rw [List.length_map] at hDeep
  omega

theorem KeepsOff.parent (hPlace : place.location.names ≠ []) (h : p.KeepsOff place) :
    p.parent.KeepsOff place := by
  by_cases hNames : p.parent.names = []
  · exact keepsOff_start hPlace hNames
  · have hSome : p.names ≠ [] := by
      intro hNone
      exact hNames (by rw [FilePath.parent, hNone]; rfl)
    have hChild : p.ancestors = p.parent.ancestors ++ [p.parent] := by
      rw [← ancestors_child hNames p.lastName]
      exact congrArg ancestors (eq_child_of_names hSome)
    intro q hq
    exact h q (List.mem_append_left _ (hChild ▸ hq))

theorem KeepsOff.direct (hPlace : place.location.names ≠ []) (h : p.KeepsOff place) :
    p.direct.KeepsOff place := by
  obtain ⟨start, names⟩ := p
  -- over the names, the last one at the end, as a path is gone through
  induction names using List.reverseRecOn with
  | nil => exact h
  | append_singleton names name ih =>
    change (FilePath.child ⟨start, names⟩ name).KeepsOff place at h
    change (FilePath.child ⟨start, names⟩ name).direct.KeepsOff place
    have hBefore := h.parent hPlace
    rw [parent_child] at hBefore
    by_cases hBack : name = upward
    · rw [hBack, direct_child_upward]
      exact (ih hBefore).parent hPlace
    · rw [direct_child _ _ hBack]
      refine (ih hBefore).child hBack fun hSame => h.self ?_
      rw [← direct_child _ _ hBack, location_direct] at hSame
      rw [LeadsInto, hSame]
      exact ⟨rfl, List.prefix_refl _⟩

end FilePath

namespace FileTree

/-- Two trees that hold the same everywhere but at a place, where each holds what another tree
does. -/
structure Beside (place : FilePath) (first second t u : FileTree) : Prop where
  off : ∀ q : FilePath, ¬ q.LeadsInto place → t.node? q = u.node? q
  left : ∀ q : FilePath, q.LeadsInto place → t.node? q = first.node? q
  right : ∀ q : FilePath, q.LeadsInto place → u.node? q = second.node? q

variable {place p q : FilePath} {first second t u : FileTree}

theorem Beside.congr {v w : FileTree} (h : Beside place first second t u)
    (hLeft : ∀ q, v.node? q = t.node? q) (hRight : ∀ q, w.node? q = u.node? q) :
    Beside place first second v w := by
  refine ⟨fun q hq => ?_, fun q hq => ?_, fun q hq => ?_⟩
  · rw [hLeft, hRight]
    exact h.off q hq
  · rw [hLeft]
    exact h.left q hq
  · rw [hRight]
    exact h.right q hq

/-! ## Questions -/

theorem Beside.atEnd_eq (h : Beside place first second t u) (hq : ¬ q.LeadsInto place) :
    t.atEnd q = u.atEnd q := by
  rw [atEnd, atEnd, h.off q hq]

theorem Beside.findSome?_eq (h : Beside place first second t u) {row : List FilePath}
    (hRow : ∀ q ∈ row, ¬ q.LeadsInto place) :
    row.findSome? t.obstacle? = row.findSome? u.obstacle? := by
  induction row with
  | nil => rfl
  | cons q rest ih =>
    rw [List.findSome?_cons, List.findSome?_cons, obstacle?, obstacle?,
      h.atEnd_eq (hRow q List.mem_cons_self),
      ih fun other hOther => hRow other (List.mem_cons_of_mem q hOther)]

theorem Beside.occupancy_eq (h : Beside place first second t u) (hp : p.KeepsOff place) :
    t.occupancy p = u.occupancy p := by
  have hWay : p.ancestors.findSome? t.obstacle? = p.ancestors.findSome? u.obstacle? :=
    h.findSome?_eq fun q hq => hp q (List.mem_append_left _ hq)
  rw [occupancy, occupancy, hWay, h.atEnd_eq hp.self]

theorem Beside.read_eq (h : Beside place first second t u) (hp : p.KeepsOff place) :
    t.read p = u.read p := by
  rw [FileTree.read, FileTree.read, h.occupancy_eq hp]

theorem Beside.openToWrite_eq (h : Beside place first second t u) (hp : p.KeepsOff place) :
    t.openToWrite p = u.openToWrite p := by
  rw [openToWrite, openToWrite, h.occupancy_eq hp, h.read_eq hp]

/-! ## Changes -/

theorem node?_put_off (t : FileTree) (node : FileNode) (h : ¬ q.LeadsInto p) :
    (t.put p node).node? q = t.node? q := by
  rw [node?_put, if_neg]
  intro hSame
  exact h ((FilePath.leadsInto_congr hSame).mpr ⟨rfl, List.prefix_refl _⟩)

theorem Beside.put (h : Beside place first second t u) (hp : ¬ p.LeadsInto place)
    (node : FileNode) : Beside place first second (t.put p node) (u.put p node) := by
  have hOther : ∀ q : FilePath, q.LeadsInto place → q.location ≠ p.location := by
    intro q hq hSame
    exact hp ((FilePath.leadsInto_congr hSame).mp hq)
  refine ⟨fun q hq => ?_, fun q hq => ?_, fun q hq => ?_⟩
  · rw [node?_put, node?_put, h.off q hq]
  · rw [node?_put, if_neg (hOther q hq)]
    exact h.left q hq
  · rw [node?_put, if_neg (hOther q hq)]
    exact h.right q hq

theorem Beside.append (h : Beside place first second t u) (hp : p.KeepsOff place) (more : Bytes) :
    SameEnd (Beside place first second) (t.append p more) (u.append p more) := by
  rw [FileTree.append, FileTree.append, ← h.openToWrite_eq hp]
  cases t.openToWrite p with
  | ok contents => exact .inr ⟨_, _, rfl, rfl, h.put hp.self _⟩
  | error e => exact .inl ⟨e, rfl, rfl⟩

theorem Beside.makeDirectory (h : Beside place first second t u) (hp : ¬ p.LeadsInto place)
    (o : Occupancy) :
    SameEnd (Beside place first second) (t.makeDirectory p o) (u.makeDirectory p o) := by
  cases o with
  | taken node =>
    cases node with
    | file contents => exact .inl ⟨_, rfl, rfl⟩
    | directory => exact .inr ⟨t, u, rfl, rfl, h⟩
  | vacant => exact .inr ⟨_, _, rfl, rfl, h.put hp .directory⟩
  | adrift | blocked | nameTooLong | unnameable => exact .inl ⟨_, rfl, rfl⟩

theorem Beside.makeRow (h : Beside place first second t u) {row : List FilePath}
    (hRow : ∀ q ∈ row, ¬ q.LeadsInto place) :
    Same (Beside place first second) (t.makeRow row) (u.makeRow row) := by
  induction row generalizing t u with
  | nil => exact ⟨_, t, u, rfl, rfl, h⟩
  | cons p rest ih =>
    have hp := hRow p List.mem_cons_self
    rw [FileTree.makeRow, FileTree.makeRow, ← h.atEnd_eq hp]
    rcases h.makeDirectory hp (t.atEnd p) with ⟨e, hLeft, hRight⟩ | ⟨v, w, hLeft, hRight, hMade⟩
    · rw [hLeft, hRight]
      exact ⟨_, t, u, rfl, rfl, h⟩
    · rw [hLeft, hRight]
      exact ih hMade fun q hq => hRow q (List.mem_cons_of_mem p hq)

theorem Beside.makeDirectories (h : Beside place first second t u) (hp : p.KeepsOff place) :
    Same (Beside place first second) (t.makeDirectories p) (u.makeDirectories p) := by
  rw [FileTree.makeDirectories, FileTree.makeDirectories, ← h.occupancy_eq hp]
  split
  · exact h.makeRow hp
  · rcases h.makeDirectory hp.self (t.occupancy p) with
      ⟨e, hLeft, hRight⟩ | ⟨v, w, hLeft, hRight, hMade⟩
    · rw [hLeft, hRight]
      exact ⟨_, t, u, rfl, rfl, h⟩
    · rw [hLeft, hRight]
      exact ⟨_, v, w, rfl, rfl, hMade⟩

/-- Whether a directory stands at a path does not depend on a temporary file beside it. -/
theorem occupancy_put_temporary {directory : FilePath} (name : Text)
    (hDirectory : t.occupancy directory = .taken .directory) :
    (t.put (directory.child t.unusedName) (.file [])).occupancy (directory.child name) =
        .taken .directory ↔ t.occupancy (directory.child name) = .taken .directory := by
  constructor
  · intro hTaken
    obtain ⟨hNameable, hLong, _, hEnd⟩ :=
      leads_of_occupancy (names_child_ne_nil _ _) hTaken (.inl ⟨_, rfl⟩)
    rw [occupancy_of_leads hNameable hLong (names_child_ne_nil _ _)
      (leads_child_of_occupancy hDirectory name)]
    rw [atEnd_eq_directory_iff, node?_put] at hEnd
    refine atEnd_eq_directory_iff.mpr (hEnd.imp_right fun ⟨hName, hNode⟩ => ⟨hName, ?_⟩)
    split at hNode
    · cases hNode
    · exact hNode
  · exact (Host.extends_put_temporary t directory).occupancy_directory

end FileTree

namespace Host

open FileTree (occupancy_put_temporary)

/-- The same host but for what the trees hold at a place. -/
def Beside (place : FilePath) (first second : FileTree) (host other : Host) : Prop :=
  ∃ tree, other = { host with tree } ∧ FileTree.Beside place first second host.tree tree

variable {place path directory : FilePath} {first second : FileTree} {host other : Host}

theorem Beside.note (h : Beside place first second host other) (severity : Severity)
    (source : Source) (message : Text) :
    Beside place first second (host.note severity source message)
      (other.note severity source message) := by
  obtain ⟨tree, rfl, hTree⟩ := h
  exact ⟨tree, rfl, hTree⟩

theorem Beside.actingAs {α : Type} {P : α → Prop} {action : Host → α × Host}
    (h : Beside place first second host other) (party : Party)
    (hAction : ∀ host other, Beside place first second host other →
      Shared P (Beside place first second) (action host) (action other)) :
    Shared P (Beside place first second) (host.actingAs party action)
      (other.actingAs party action) := by
  obtain ⟨tree, rfl, hTree⟩ := h
  have hActed := hAction { host with acting := party } { host with acting := party, tree }
    ⟨tree, rfl, hTree⟩
  rw [Host.actingAs, Host.actingAs]
  dsimp only
  generalize action { host with acting := party } = acted at hActed ⊢
  generalize action { host with acting := party, tree } = acts at hActed ⊢
  obtain ⟨hPart, later, rfl, hLater⟩ := hActed
  exact .intro hPart ⟨later, rfl, hLater⟩

theorem Beside.makeDirectories (h : Beside place first second host other)
    (hPath : path.KeepsOff place) :
    Same (Beside place first second) (host.makeDirectories path) (other.makeDirectories path) := by
  obtain ⟨tree, rfl, hTree⟩ := h
  rw [Host.makeDirectories, Host.makeDirectories]
  dsimp only
  split
  · exact .intro ⟨tree, rfl, hTree⟩
  · obtain ⟨result, made, makes, hLeft, hRight, hMade⟩ := hTree.makeDirectories hPath
    rw [hLeft, hRight]
    exact .intro ⟨makes, rfl, hMade⟩

/-- What keeps a temporary file from being filled and moved over a target. -/
def refusal? (directory target : FilePath) (host : Host) : Option FileError :=
  ((host.faults.openTemporary.or host.faults.replaceFile).map .device).or
    (if host.tree.occupancy target = .taken .directory then
      some (.replacesDirectory directory target)
    else none)

theorem fillTemporary_eq (directory temporary target : FilePath) (contents : Bytes) (host : Host) :
    host.fillTemporary directory temporary target contents =
      match host.refusal? directory target with
      | some e => .error e
      | none =>
        .ok { host with tree := (host.tree.remove temporary).put target (.file contents) } := by
  rw [Host.fillTemporary, refusal?]
  cases host.faults.openTemporary with
  | some message => rfl
  | none =>
    cases host.faults.replaceFile with
    | some message => rfl
    | none =>
      dsimp only
      split
      · rename_i hTaken
        rw [if_pos hTaken]
        rfl
      · rename_i hFree
        rw [if_neg hFree]
        rfl

theorem Beside.replaceFile {name : Text} (h : Beside place first second host other)
    (hDirectory : directory.KeepsOff place) (hTarget : (directory.child name).KeepsOff place)
    (contents : Bytes) :
    Same (Beside place first second) (host.replaceFile directory (directory.child name) contents)
      (other.replaceFile directory (directory.child name) contents) := by
  obtain ⟨grown, _, hGrown, hThere⟩ := host.makeDirectories_eq directory
  obtain ⟨result, made, _, hLeft, hRight, makes, rfl, hMade⟩ := h.makeDirectories hDirectory
  rw [Host.replaceFile, Host.replaceFile, hLeft, hRight]
  rw [hLeft] at hGrown hThere
  obtain rfl : made = { host with tree := grown } := hGrown
  cases result with
  | error e => exact .intro ⟨makes, rfl, hMade⟩
  | ok _ =>
    have hStands := hThere rfl
    have hEmptied := hMade.congr (node?_remove_temporary grown directory (.file []))
      (node?_remove_temporary makes directory (.file []))
    dsimp only
    split
    · exact .intro ⟨makes, rfl, hMade⟩
    · split
      · exact .intro ⟨makes, rfl, hMade⟩
      · have hBlocked : (grown.put (directory.child grown.unusedName) (.file [])).occupancy
            (directory.child name) = .taken .directory ↔
            (makes.put (directory.child makes.unusedName) (.file [])).occupancy
              (directory.child name) = .taken .directory := by
          rw [occupancy_put_temporary name hStands, hMade.occupancy_eq hTarget,
            occupancy_put_temporary name (hMade.occupancy_eq hDirectory ▸ hStands)]
        have hRefusal : refusal? directory (directory.child name)
              { host with tree := makes.put (directory.child makes.unusedName) (.file []) } =
            refusal? directory (directory.child name)
              { host with tree := grown.put (directory.child grown.unusedName) (.file []) } := by
          simp only [refusal?, hBlocked]
        rw [fillTemporary_eq, fillTemporary_eq, hRefusal]
        cases refusal? directory (directory.child name)
            { host with tree := grown.put (directory.child grown.unusedName) (.file []) } with
        | some e => exact .intro ⟨_, rfl, hEmptied⟩
        | none => exact .intro ⟨_, rfl, hEmptied.put hTarget.self _⟩

end Host

end Switchboard

import Switchboard.Proofs.Json.Members
import Switchboard.Proofs.RecordFile.Operation

/-!
# What loads give, whatever the settings file is

The file may be missing, be a directory or hold any bytes, and every attempt to open it may fail. A
keeper that has only loaded so far has taken over exactly what the file stores, or it has nothing
because no attempt could open the file or because there is nothing to take over.
-/

namespace Switchboard.RecordFile

open FileTree

/-- What the file at a path stores under an identifier: the member of that name that is spelled
last, if the bytes are those of a text that spells an object. -/
def storedAt (tree : FileTree) (path : FilePath) (id : Text) : Option Json :=
  match tree.read path with
  | .error _ => none
  | .ok contents =>
    match Utf8.decode contents with
    | .error _ => none
    | .ok t => Json.lastMember? id t.unifyBreaks

/-- The keeper while it has only loaded. The proposition says that the file could be opened, had it
been there, at one attempt or more. -/
structure Loading (opened : Prop) (f : RecordFile) (tree : FileTree) : Prop where
  pending : f.pending = []
  held : f.loaded = true → ∀ id, f.data.get? id = storedAt tree f.path id
  unread : opened → f.loaded = false → ∀ id, storedAt tree f.path id = none
  unopened : ¬ opened → f.loaded = true → ∀ id, storedAt tree f.path id = none

variable {f : RecordFile} {host : Host} {opened : Prop} {r : Record Text Json}

theorem storedAt_of_not_file (h : ∀ contents, host.tree.occupancy f.path ≠ .taken (.file contents))
    (id : Text) : storedAt host.tree f.path id = none := by
  rw [storedAt]
  split
  · rfl
  · rename_i contents hRead
    exact absurd (read_eq_ok_iff.mp hRead) (h contents)

theorem get?_of_decode {tree : FileTree} {path : FilePath} {contents : Bytes}
    (h : (decode contents).record? = some r) (id : Text)
    (hRead : tree.read path = .ok contents) : r.get? id = storedAt tree path id := by
  rw [storedAt, hRead]
  rw [decode] at h
  dsimp only
  cases hText : Utf8.decode contents with
  | error e =>
    rw [hText] at h
    cases h
    rfl
  | ok t =>
    rw [hText] at h
    dsimp only at h ⊢
    cases hParse : Json.parse t.unifyBreaks with
    | error e =>
      rw [hParse] at h
      cases h
      rw [Json.lastMember?, hParse]
      rfl
    | ok value =>
      rw [hParse] at h
      cases value with
      | obj members =>
        cases h
        exact Json.get?_of_parse hParse id
      | _ =>
        cases h
        rw [Json.lastMember?, hParse]
        rfl

theorem get?_of_attempt (h : f.attempt host = some r) :
    (∀ id, r.get? id = storedAt host.tree f.path id) ∧
      (host.faults.openFile ≠ none → ∀ id, storedAt host.tree f.path id = none) := by
  rw [attempt, reading_eq] at h
  cases hOccupancy : host.tree.occupancy f.path with
  | taken node =>
    rw [hOccupancy] at h
    cases hFault : host.faults.openFile with
    | some message =>
      rw [hFault] at h
      cases h
    | none =>
      rw [hFault] at h
      cases node with
      | directory => cases h
      | file contents =>
        exact ⟨fun id => get?_of_decode h id (read_eq_ok_iff.mpr hOccupancy), fun hNot =>
          absurd rfl hNot⟩
  | nameTooLong =>
    rw [hOccupancy] at h
    cases h
  | vacant | adrift | blocked | unnameable =>
    rw [hOccupancy] at h
    obtain rfl : [] = r := Option.some.inj h
    have hNone : ∀ id, storedAt host.tree f.path id = none :=
      storedAt_of_not_file (by simp [hOccupancy])
    exact ⟨fun id => (hNone id).symm, fun _ => hNone⟩

theorem storedAt_of_unread (hFault : host.faults.openFile = none) (h : f.attempt host = none)
    (id : Text) : storedAt host.tree f.path id = none := by
  apply storedAt_of_not_file
  intro contents hFile
  obtain ⟨r, hRecord⟩ := record?_decode contents
  rw [attempt, reading_eq, hFile, hFault] at h
  exact absurd (h.symm.trans hRecord) (by simp)

/-! ## One load -/

theorem Loading.settled (h : Loading opened f host.tree) :
    Loading (opened ∨ host.faults.openFile = none) (f.settled host) host.tree := by
  rw [RecordFile.settled]
  split
  · rename_i hLoaded
    refine ⟨h.pending, h.held, fun _ hNot => ?_, fun hNot => h.unopened fun hOpened =>
      hNot (.inl hOpened)⟩
    rw [hLoaded] at hNot
    cases hNot
  · rename_i hLoaded
    cases hAttempt : f.attempt host with
    | none =>
      refine ⟨h.pending, h.held, fun hOpened hNot => ?_, fun _ hNow => absurd hNow hLoaded⟩
      rcases hOpened with hBefore | hFault
      · exact h.unread hBefore hNot
      · exact storedAt_of_unread hFault hAttempt
    | some r =>
      obtain ⟨hStored, hFaulted⟩ := get?_of_attempt hAttempt
      refine ⟨h.pending, fun _ => ?_, fun _ => ?_, fun hNot _ => ?_⟩
      · intro id
        change (r.putAll f.pending).get? id = storedAt host.tree f.path id
        rw [h.pending]
        exact hStored id
      · rintro ⟨⟩
      · exact hFaulted fun hFault => hNot (.inr hFault)

/-- A load gives the position in what is stored, once the file could be opened, and none before. -/
theorem Loading.load (h : Loading opened f host.tree) (id : Text) : ∃ result log,
    f.load id host = (result, f.settled host, { host with log }) ∧
    ∃ stored : Option Json,
      (result = .ok (stored.bind Json.toBool?) ∨ stored.bind Json.toBool? = none ∧
        ∃ e, result = .error e ∧ (e.isPersistence = true ∨ e.isFromSystem = true)) ∧
      ((opened ∨ host.faults.openFile = none) → stored = storedAt host.tree f.path id) ∧
      (¬ (opened ∨ host.faults.openFile = none) → stored = none) := by
  have hAfter := h.settled
  obtain ⟨result, log, hLoad, hResult⟩ := f.load_spec id host
  refine ⟨result, log, hLoad, ?_⟩
  rcases hResult with ⟨hLoaded, rfl⟩ | ⟨hUnloaded, hNothing, hError⟩
  · have hHeld := hAfter.held hLoaded id
    rw [path_settled] at hHeld
    refine ⟨_, .inl rfl, fun _ => hHeld, fun hNot => ?_⟩
    have hNone := hAfter.unopened hNot hLoaded id
    rw [path_settled] at hNone
    rw [hHeld, hNone]
  · refine ⟨none, .inr ⟨rfl, hError⟩, fun hOpened => Eq.symm ?_, fun _ => rfl⟩
    cases hAttempt : f.attempt host with
    | some r =>
      rw [← (get?_of_attempt hAttempt).1 id, hNothing r hAttempt]
      rfl
    | none =>
      rcases hOpened with hBefore | hFault
      · exact h.unread hBefore hUnloaded id
      · exact storedAt_of_unread hFault hAttempt id

theorem loading_new (directory : FilePath) (tree : FileTree) :
    Loading False { directory } tree :=
  ⟨rfl, nofun, nofun, nofun⟩

end Switchboard.RecordFile

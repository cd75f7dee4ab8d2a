import Switchboard.Proofs.RecordFile.Unreadable
import Switchboard.Proofs.Registry.Saving

/-!
# Files that saving spares

The saves of a registry touch no file but one that is named as settings files are. This holds for
every backend, at once or through the worker, and however deep listeners set further switches.
-/

namespace Switchboard

open FileTree

/-- Bears another name than settings files do. -/
def RecordFile.Foreign (p : FilePath) : Prop :=
  ∃ directory name, p = FilePath.child directory name ∧ name ≠ FilePath.upward ∧ name ≠ fileName

open RecordFile (Foreign)

theorem RecordFile.Foreign.apart {p : FilePath} (h : Foreign p) (f : RecordFile) :
    Apart f.path p := by
  obtain ⟨directory, name, rfl, hName, hOther⟩ := h
  exact apart_child f.directory directory (by decide) (by decide) hName hOther

/-- A settings file that counts as read has a path that can be asked about. -/
def Backend.Askable : Backend → Prop
  | .file f => f.loaded = true → f.Askable
  | .script _ => True

namespace Backend

variable {backend : Backend}

theorem Askable.load (h : backend.Askable) (id : Text) (host : Host) :
    (backend.load id host).2.1.Askable := by
  cases backend with
  | script s => trivial
  | file f =>
    obtain ⟨log, hLoad⟩ := f.load_state id host
    rw [Backend.load]
    generalize f.load id host = loaded at hLoad
    obtain ⟨result, after, later⟩ := loaded
    cases hLoad
    have hAfter : (f.settled host).loaded = true → (f.settled host).Askable :=
      RecordFile.askable_settled h
    rcases result with e | _ | b
    · exact hAfter
    · exact hAfter
    · exact hAfter

theorem tree_load (id : Text) (backend : Backend) (host : Host) :
    (backend.load id host).2.2.tree = host.tree := by
  cases backend with
  | script s => rfl
  | file f =>
    obtain ⟨log, hLoad⟩ := f.load_state id host
    rw [Backend.load]
    generalize f.load id host = loaded at hLoad
    obtain ⟨result, after, later⟩ := loaded
    cases hLoad
    rcases result with e | _ | b
    · rfl
    · rfl
    · rfl

theorem Askable.save (h : backend.Askable) (id : Text) (value : Json) (host : Host) :
    (backend.save id value host).2.1.Askable ∧
      Extends Foreign host.tree (backend.save id value host).2.2.tree := by
  cases backend with
  | script s =>
    rw [Backend.save]
    split
    · exact ⟨trivial, .refl _ _⟩
    · exact ⟨trivial, .refl _ _⟩
    · exact ⟨trivial, .refl _ _⟩
  | file f =>
    constructor
    · intro hLoaded
      change (f.save id value host).2.1.loaded = true at hLoaded
      change (f.save id value host).2.1.Askable
      rw [RecordFile.Askable, RecordFile.path_save]
      rw [RecordFile.loaded_save, ← RecordFile.loaded_settled] at hLoaded
      have hSettled := RecordFile.askable_settled h hLoaded
      rwa [RecordFile.Askable, RecordFile.path_settled] at hSettled
    · exact (RecordFile.extends_save h id value host).mono fun p hForeign => hForeign.apart f

end Backend

namespace WriteQueue

/-- What is done to a queue touches settings files only. -/
def Spares (act : WriteQueue → Host → WriteQueue × Host) : Prop :=
  ∀ q host, q.backend.Askable →
    (act q host).1.backend.Askable ∧ Extends Foreign host.tree (act q host).2.tree

theorem attempt_spares (request : SaveRequest) : Spares (attempt request) := by
  intro q host h
  have hSave := h.save request.id request.value host
  unfold attempt
  generalize q.backend.save request.id request.value host = saved at hSave
  obtain ⟨result, backend, after⟩ := saved
  cases result with
  | ok _ => exact hSave
  | error e => exact hSave

theorem submit_spares (request : SaveRequest) : Spares (submit request) := by
  intro q host h
  rw [submit]
  split
  · exact attempt_spares request q _ h
  · exact ⟨h, .refl _ _⟩

theorem take_spares : Spares fun q host => (q.take, host) := by
  intro q host h
  obtain ⟨inHand, waiting, hTake⟩ := q.take_frame
  refine ⟨?_, .refl _ _⟩
  dsimp only
  rw [hTake]
  exact h

theorem finish_spares : Spares finish := by
  intro q host h
  rw [finish]
  split
  · exact ⟨h, .refl _ _⟩
  · exact ⟨h, .refl _ _⟩
  · exact attempt_spares _ { q with inHand := none } { host with acting := .worker } h

theorem work_spares (count : Nat) : Spares (work count) := by
  induction count with
  | zero => exact fun q host h => ⟨h, .refl _ _⟩
  | succ count ih =>
    intro q host h
    obtain ⟨hTaken, _⟩ := take_spares q host h
    obtain ⟨hFinished, hTree⟩ := finish_spares q.take host hTaken
    obtain ⟨hAfter, hRest⟩ := ih _ _ hFinished
    exact ⟨hAfter, hTree.trans hRest⟩

theorem close_spares : Spares close := by
  intro q host h
  refine work_spares _ q.beginClose host ?_
  obtain ⟨closed, waiting, hBegun⟩ := q.beginClose_frame
  rw [hBegun]
  exact h

end WriteQueue

namespace Registry

/-- The backend behind the queue, if there is one, has a path that can be asked about. -/
def Askable (r : Registry) : Prop := ∀ q, r.queue = some q → q.backend.Askable

variable {r : Registry} {host : Host}

theorem tree_loadSetting (d : Descriptor) (backend : Backend) (host : Host) :
    (loadSetting d backend host).2.2.tree = host.tree := by
  have hLoad := backend.tree_load d.id host
  rw [loadSetting]
  split
  · rename_i hResult
    rwa [hResult] at hLoad
  · rename_i hResult
    rwa [hResult] at hLoad
  · rename_i hResult
    rw [hResult] at hLoad
    split
    · exact hLoad
    · exact hLoad

theorem tree_loadSettings (ds : List Descriptor) (backend : Backend) (host : Host) :
    (loadSettings ds backend host).2.2.tree = host.tree := by
  induction ds generalizing backend host with
  | nil => rfl
  | cons d rest ih =>
    have hFirst := tree_loadSetting d backend host
    rw [loadSettings]
    split
    · rename_i hResult
      rwa [hResult] at hFirst
    · rename_i s after later hResult
      rw [hResult] at hFirst
      have hRest := (ih after later).trans hFirst
      split
      · rename_i hOthers
        rwa [hOthers] at hRest
      · rename_i hOthers
        rwa [hOthers] at hRest

theorem tree_start (index : DescriptorIndex) (backend : Backend) (host : Host) :
    (start index (some backend) host).2.tree = host.tree := by
  have hLoad := tree_loadSettings index.descriptors backend host
  rw [start]
  split
  · rename_i hResult
    rwa [hResult] at hLoad
  · rename_i hResult
    rwa [hResult] at hLoad

theorem Askable.set (h : r.Askable) (id : Text) (value : Json) (host : Host) :
    (r.set id value host).2.1.Askable ∧
      Extends Foreign host.tree (r.set id value host).2.2.tree := by
  have hSteady : Steady fun s t => s = t ∧ (s.1.Askable ∧ Extends Foreign host.tree s.2.tree) := by
    apply steady_self
    · intro s change h
      exact h
    · intro s log h
      exact h
    · rintro s id b _ ⟨hAskable, hTree⟩
      rw [submit]
      cases hQueue : (s.1.assign id b).queue with
      | none =>
        refine ⟨fun q hSome => ?_, hTree⟩
        rw [hQueue] at hSome
        cases hSome
      | some q =>
        obtain ⟨hAfter, hSave⟩ :=
          WriteQueue.submit_spares ⟨id, .bool b⟩ q s.2 (hAskable q hQueue)
        refine ⟨?_, hTree.trans hSave⟩
        rintro _ ⟨⟩
        exact hAfter
  exact (hSteady.setWithin cascadeLimit (s := (r, host)) id value ⟨rfl, h, .refl _ _⟩).2.2

theorem Askable.overQueue (h : r.Askable) {act : WriteQueue → Host → WriteQueue × Host}
    (hSpares : WriteQueue.Spares act) (host : Host) :
    (r.overQueue act host).1.Askable ∧ Extends Foreign host.tree (r.overQueue act host).2.tree := by
  rw [Registry.overQueue]
  cases hQueue : r.queue with
  | none => exact ⟨h, .refl _ _⟩
  | some q =>
    obtain ⟨hAfter, hTree⟩ := hSpares q host (h q hQueue)
    refine ⟨?_, hTree⟩
    rintro _ ⟨⟩
    exact hAfter

end Registry

end Switchboard

import Switchboard.Proofs.RecordFile.Overlooking
import Switchboard.Proofs.Registry.Cascade

/-!
# Registries kept off a place

A registry whose backend keeps off a place goes through the same on hosts that differ there: it
starts with the same switches, sets them alike, and saves them at the same time and with the same
end.
-/

namespace Switchboard

variable {place : FilePath} {first second : FileTree} {host other : Host}

namespace WriteQueue

def KeepsOff (place : FilePath) (q : WriteQueue) : Prop :=
  q.backend.KeepsOff place

abbrev Beside (place : FilePath) (first second : FileTree) :
    WriteQueue × Host → WriteQueue × Host → Prop :=
  Shared (KeepsOff place) (Host.Beside place first second)

/-- What is done to a queue comes to the same on hosts that differ at a place. -/
def Overlooks (place : FilePath) (first second : FileTree)
    (act : WriteQueue → Host → WriteQueue × Host) : Prop :=
  ∀ q host other, q.KeepsOff place → Host.Beside place first second host other →
    Beside place first second (act q host) (act q other)

theorem overlooks_attempt (request : SaveRequest) :
    Overlooks place first second (attempt request) := by
  intro q host other hOff h
  obtain ⟨result, _, _, hLeft, hRight, ⟨hOff, hAfter⟩⟩ :=
    Backend.save_beside request.id request.value hOff h
  rw [attempt, attempt, hLeft, hRight]
  cases result with
  | ok _ => exact .intro hOff hAfter
  | error e => exact .intro hOff (hAfter.note _ _ _)

theorem overlooks_submit (request : SaveRequest) :
    Overlooks place first second (submit request) := by
  intro q host other hOff h
  rw [submit, submit]
  split
  · exact overlooks_attempt request q _ _ hOff (h.note _ _ _)
  · exact .intro hOff h

theorem KeepsOff.take {q : WriteQueue} (h : q.KeepsOff place) : q.take.KeepsOff place := by
  obtain ⟨inHand, waiting, hTake⟩ := q.take_frame
  rw [hTake]
  exact h

theorem overlooks_take : Overlooks place first second fun q host => (q.take, host) :=
  fun _ _ _ hOff h => .intro hOff.take h

theorem overlooks_finish : Overlooks place first second finish := by
  intro q host other hOff h
  rw [finish, finish]
  split
  · exact .intro hOff h
  · exact .intro hOff h
  · rename_i request _
    exact h.actingAs .worker fun _ _ hActing =>
      overlooks_attempt request { q with inHand := none } _ _ hOff hActing

theorem overlooks_work (count : Nat) : Overlooks place first second (work count) := by
  induction count with
  | zero => exact fun q host other hOff h => .intro hOff h
  | succ count ih =>
    intro q host other hOff h
    have hFinished := overlooks_finish q.take host other hOff.take h
    rw [work, work]
    generalize q.take.finish host = finished at hFinished ⊢
    generalize q.take.finish other = finishes at hFinished ⊢
    obtain ⟨hOff, hAfter⟩ := hFinished
    exact ih _ _ _ hOff hAfter

theorem overlooks_close : Overlooks place first second close := by
  intro q host other hOff h
  obtain ⟨closed, waiting, hBegun⟩ := q.beginClose_frame
  rw [close, close, hBegun]
  exact overlooks_work _ _ host other hOff h

end WriteQueue

namespace Registry

def KeepsOff (place : FilePath) (r : Registry) : Prop :=
  ∀ q, r.queue = some q → q.KeepsOff place

abbrev Beside (place : FilePath) (first second : FileTree) :
    Registry × Host → Registry × Host → Prop :=
  Shared (KeepsOff place) (Host.Beside place first second)

variable {r : Registry}

theorem overQueue_beside {act : WriteQueue → Host → WriteQueue × Host}
    (hAct : WriteQueue.Overlooks place first second act) (hOff : r.KeepsOff place)
    (h : Host.Beside place first second host other) :
    Beside place first second (r.overQueue act host) (r.overQueue act other) := by
  rw [overQueue, overQueue]
  cases hQueue : r.queue with
  | none => exact .intro hOff h
  | some q =>
    have hActed := hAct q host other (hOff q hQueue) h
    dsimp only
    generalize act q host = acted at hActed ⊢
    generalize act q other = acts at hActed ⊢
    obtain ⟨hOff, hAfter⟩ := hActed
    refine .intro ?_ hAfter
    rintro _ ⟨⟩
    exact hOff

theorem noteChange_beside (h : Host.Beside place first second host other) (d : Descriptor)
    (value : Bool) :
    Host.Beside place first second (noteChange d value host) (noteChange d value other) := by
  rw [noteChange, noteChange]
  split
  · exact (h.note _ _ _).note _ _ _
  · exact h.note _ _ _

theorem steady_beside (place : FilePath) (first second : FileTree) :
    Steady (Beside place first second) := by
  constructor
  · rintro _ _ ⟨_, _⟩
    rfl
  · rintro _ _ ⟨_, _⟩
    rfl
  · rintro _ _ ⟨_, _⟩
    rfl
  · rintro _ _ ⟨_, _⟩
    rfl
  · rintro _ _ change ⟨hOff, h⟩
    exact .intro hOff h
  · rintro _ _ d value ⟨hOff, h⟩
    exact .intro hOff (noteChange_beside h d value)
  · rintro _ _ id value _ ⟨hOff, h⟩
    exact overQueue_beside (r := assign id value _)
      (WriteQueue.overlooks_submit ⟨id, .bool value⟩) hOff h

/-! ## Starting -/

variable {backend : Backend}

theorem loadSetting_beside (d : Descriptor) (hOff : backend.KeepsOff place)
    (h : Host.Beside place first second host other) :
    Same (Backend.Beside place first second) (loadSetting d backend host)
      (loadSetting d backend other) := by
  obtain ⟨result, _, _, hLeft, hRight, ⟨hOff, hAfter⟩⟩ := Backend.load_beside d.id hOff h
  rw [loadSetting, loadSetting, hLeft, hRight]
  cases result with
  | ok value =>
    cases value with
    | null => exact .intro (.intro hOff hAfter)
    | _ => exact .intro (.intro hOff hAfter)
  | error e =>
    dsimp only
    split
    · exact .intro (.intro hOff (hAfter.note _ _ _))
    · exact .intro (.intro hOff hAfter)

theorem loadSettings_beside (ds : List Descriptor) (hOff : backend.KeepsOff place)
    (h : Host.Beside place first second host other) :
    Same (Backend.Beside place first second) (loadSettings ds backend host)
      (loadSettings ds backend other) := by
  induction ds generalizing backend host other with
  | nil => exact .intro (.intro hOff h)
  | cons d rest ih =>
    obtain ⟨result, _, _, hLeft, hRight, ⟨hOff, hAfter⟩⟩ := loadSetting_beside d hOff h
    rw [loadSettings, loadSettings, hLeft, hRight]
    cases result with
    | error e => exact .intro (.intro hOff hAfter)
    | ok s =>
      obtain ⟨others, _, _, hLeft, hRight, ⟨hOff, hLater⟩⟩ := ih hOff hAfter
      dsimp only
      rw [hLeft, hRight]
      cases others with
      | error e => exact .intro (.intro hOff hLater)
      | ok settings => exact .intro (.intro hOff hLater)

theorem start_beside (index : DescriptorIndex) (hOff : backend.KeepsOff place)
    (h : Host.Beside place first second host other) :
    Same (Host.Beside place first second) (start index (some backend) host)
        (start index (some backend) other) ∧
      ∀ r after, start index (some backend) host = (.ok r, after) → r.KeepsOff place := by
  obtain ⟨result, _, _, hLeft, hRight, ⟨hOff, hAfter⟩⟩ :=
    loadSettings_beside index.descriptors hOff h
  rw [start, start, hLeft, hRight]
  cases result with
  | error e =>
    refine ⟨.intro hAfter, fun r after hStart => ?_⟩
    cases congrArg Prod.fst hStart
  | ok settings =>
    refine ⟨.intro hAfter, fun r after hStart => ?_⟩
    cases congrArg Prod.fst hStart
    rintro _ ⟨⟩
    exact hOff

end Registry

end Switchboard

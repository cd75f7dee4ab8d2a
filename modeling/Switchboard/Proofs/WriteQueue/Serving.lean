import Switchboard.Proofs.RecordFile.Run
import Switchboard.Proofs.WriteQueue.Working

/-!
# The write queue before the settings file

What the settings file is to hold in the end follows from what it is to hold now and the saves that
are outstanding. Every attempt moves one save from the second to the first, whether it succeeds or
not, and after one that succeeds nothing is pending in the keeper. No other file is touched.
-/

namespace Switchboard

open FileTree
open RecordFile (also Tracks)

def WorkItem.request? : WorkItem → Option SaveRequest
  | save request => some request
  | stop => none

/-- A request to save a switch position under a name that has a byte form. -/
def SaveRequest.IsSwitch (r : SaveRequest) : Prop :=
  r.id.Encodable ∧ ∃ b, r.value = .bool b

namespace WriteQueue

def outstanding (q : WriteQueue) : List SaveRequest :=
  q.items.filterMap WorkItem.request?

def wantedAfter (requests : List SaveRequest) (saved : Text → Option Json) : Text → Option Json :=
  requests.foldl (fun saved r => also r.id r.value saved) saved

/-- No save has been attempted, or the last one attempted has succeeded. -/
def LastSucceeded (q : WriteQueue) : Prop :=
  q.outcomes = [] ∨ q.outcomes.getLast? = some none

structure Keeps (f : RecordFile) (saved : Text → Option Json) (q : WriteQueue) (tree : FileTree) :
    Prop where
  backend : q.backend = .file f
  tracks : Tracks saved f tree
  switches : ∀ r ∈ q.outstanding, r.IsSwitch
  told : q.outcomes.length = q.attempts.length
  pending : q.LastSucceeded → f.pending = []

/-- Once everything outstanding has been attempted, the settings file at the path is to hold what
is wanted. -/
def Serves (path : FilePath) (wanted : Text → Option Json) (q : WriteQueue) (tree : FileTree) :
    Prop :=
  ∃ f saved, Keeps f saved q tree ∧ f.path = path ∧ wantedAfter q.outstanding saved = wanted

variable {q : WriteQueue} {host : Host} {f : RecordFile} {saved wanted : Text → Option Json}
  {path : FilePath} {tree : FileTree}

theorem Serves.extends {kept : FilePath → Prop} {t u : FileTree} (h : Serves path wanted q t)
    (hTree : Extends kept t u) (hKept : kept path) : Serves path wanted q u := by
  obtain ⟨f, saved, hKeeps, rfl, hWanted⟩ := h
  exact ⟨f, saved, { hKeeps with tracks := hKeeps.tracks.extends hTree hKept }, rfl, hWanted⟩

theorem Keeps.attempt (host : Host) (h : Keeps f saved q host.tree) {request : SaveRequest}
    (hRequest : request.IsSwitch) : ∃ after,
    Keeps after (also request.id request.value saved) (q.attempt request host).1
      (q.attempt request host).2.tree ∧
    after.path = f.path ∧
    Extends (Apart f.path) host.tree (q.attempt request host).2.tree := by
  obtain ⟨id, value⟩ := request
  obtain ⟨hId, b, rfl⟩ : id.Encodable ∧ ∃ b, value = .bool b := hRequest
  have hTracks := h.tracks.save host hId b
  have hPath := RecordFile.path_save id (.bool b) f host
  have hTree := RecordFile.extends_save h.tracks.1.askable id (.bool b) host
  obtain ⟨result, after, later, hSave⟩ : ∃ result after later,
      f.save id (.bool b) host = (result, after, later) := ⟨_, _, _, rfl⟩
  rw [hSave] at hTracks hPath hTree
  have hBackend : q.backend.save id (.bool b) host = (result, .file after, later) := by
    rw [h.backend]
    simp only [Backend.save, hSave]
  have hTold (outcome : Option Failure) : (q.outcomes ++ [outcome]).length =
      (q.attempts ++ [(⟨id, .bool b⟩ : SaveRequest)]).length := by
    simp [h.told]
  rw [WriteQueue.attempt]
  dsimp only
  rw [hBackend]
  cases result with
  | ok _ =>
    exact ⟨after, ⟨rfl, hTracks.1, h.switches, hTold _, fun _ => (hTracks.2 rfl).1⟩, hPath, hTree⟩
  | error e =>
    refine ⟨after, ⟨rfl, hTracks.1, h.switches, hTold _, ?_⟩, hPath, hTree⟩
    rintro (hNone | hLast)
    · exact absurd (List.append_eq_nil_iff.mp hNone).2 (by simp)
    · rw [List.getLast?_concat] at hLast
      cases hLast

theorem outstanding_of_idle (h : q.items = []) : q.outstanding = [] := by
  rw [outstanding, h]
  rfl

theorem outstanding_attempt (request : SaveRequest) (q : WriteQueue) (host : Host) :
    (q.attempt request host).1.outstanding = q.outstanding := by
  obtain ⟨backend, outcome, lastError, hAttempt⟩ := attempt_frame request q host
  rw [hAttempt]
  rfl

theorem Serves.take (h : Serves path wanted q tree) : Serves path wanted q.take tree := by
  obtain ⟨f, saved, hKeeps, hPath, hWanted⟩ := h
  have hOutstanding : q.take.outstanding = q.outstanding := by
    rw [outstanding, items_take, outstanding]
  obtain ⟨inHand, waiting, hTake⟩ := q.take_frame
  rw [hTake] at hOutstanding ⊢
  refine ⟨f, saved, ⟨hKeeps.backend, hKeeps.tracks, ?_, hKeeps.told, hKeeps.pending⟩, hPath, ?_⟩
  · rw [hOutstanding]
    exact hKeeps.switches
  · rw [hOutstanding]
    exact hWanted

theorem Serves.finish (h : Serves path wanted q host.tree) :
    Serves path wanted (q.finish host).1 (q.finish host).2.tree ∧
      Extends (Apart path) host.tree (q.finish host).2.tree := by
  obtain ⟨f, saved, hKeeps, rfl, hWanted⟩ := h
  cases hHand : q.inHand with
  | none =>
    rw [finish_of_idle hHand]
    exact ⟨⟨f, saved, hKeeps, rfl, hWanted⟩, .refl _ _⟩
  | some item =>
    have hItems := items_of_inHand hHand
    cases item with
    | stop =>
      have hOutstanding : q.outstanding = q.waiting.filterMap WorkItem.request? := by
        rw [outstanding, hItems]
        rfl
      have hSwitches := hKeeps.switches
      rw [hOutstanding] at hSwitches hWanted
      rw [WriteQueue.finish, hHand]
      exact ⟨⟨f, saved, ⟨hKeeps.backend, hKeeps.tracks, hSwitches, hKeeps.told, hKeeps.pending⟩, rfl,
        hWanted⟩, .refl _ _⟩
    | save request =>
      have hOutstanding :
          q.outstanding = request :: ({ q with inHand := none } : WriteQueue).outstanding := by
        rw [outstanding, hItems]
        rfl
      have hSwitches := hKeeps.switches
      rw [hOutstanding] at hSwitches hWanted
      obtain ⟨hFirst, hRest⟩ := List.forall_mem_cons.mp hSwitches
      have hFreed : Keeps f saved { q with inHand := none } host.tree :=
        ⟨hKeeps.backend, hKeeps.tracks, hRest, hKeeps.told, hKeeps.pending⟩
      obtain ⟨after, hAfter, hPath, hTree⟩ :=
        Keeps.attempt { host with acting := .worker } hFreed hFirst
      rw [finish_save hHand]
      refine ⟨⟨after, _, hAfter, hPath, ?_⟩, hTree⟩
      rw [← hWanted]
      exact congrArg (wantedAfter · _) (outstanding_attempt request _ _)

theorem Serves.work (h : Serves path wanted q host.tree) (count : Nat) :
    Serves path wanted (work count q host).1 (work count q host).2.tree ∧
      Extends (Apart path) host.tree (WriteQueue.work count q host).2.tree := by
  induction count generalizing q host with
  | zero => exact ⟨h, .refl _ _⟩
  | succ count ih =>
    obtain ⟨hStep, hTree⟩ := h.take.finish
    obtain ⟨hRest, hLater⟩ := ih hStep
    exact ⟨hRest, hTree.trans hLater⟩

/-! ## The client's side -/

theorem Serves.submit (h : Serves path wanted q host.tree) (hOrderly : q.Orderly)
    {request : SaveRequest} (hRequest : request.IsSwitch) :
    Serves path (also request.id request.value wanted) (q.submit request host).1
        (q.submit request host).2.tree ∧
      Extends (Apart path) host.tree (q.submit request host).2.tree := by
  obtain ⟨f, saved, hKeeps, rfl, hWanted⟩ := h
  rw [WriteQueue.submit]
  split
  · rename_i hClosed
    have hNone := outstanding_of_idle (hOrderly.idle hClosed)
    rw [hNone] at hWanted
    obtain rfl : saved = wanted := hWanted
    obtain ⟨after, hAfter, hPath, hTree⟩ := Keeps.attempt
      (host.note .warning .storage ("Writer closed, saving " ++ request.id ++ " synchronously"))
      hKeeps hRequest
    refine ⟨⟨after, _, hAfter, hPath, ?_⟩, hTree⟩
    rw [outstanding_attempt, hNone]
    rfl
  · have hOutstanding :
        ({ q with waiting := q.waiting ++ [.save request] } : WriteQueue).outstanding =
          q.outstanding ++ [request] := by
      rw [outstanding, items_submit, List.filterMap_append]
      rfl
    refine ⟨⟨f, saved, ⟨hKeeps.backend, hKeeps.tracks, ?_, hKeeps.told, hKeeps.pending⟩, rfl, ?_⟩,
      .refl _ _⟩
    · rw [hOutstanding]
      exact List.forall_mem_append.mpr ⟨hKeeps.switches, List.forall_mem_singleton.mpr hRequest⟩
    · rw [hOutstanding, ← hWanted, wantedAfter, List.foldl_concat]
      rfl

theorem Serves.beginClose (h : Serves path wanted q tree) :
    Serves path wanted q.beginClose tree := by
  cases hClosed : q.closed with
  | true =>
    rw [WriteQueue.beginClose, if_pos hClosed]
    exact h
  | false =>
    have hOutstanding : q.beginClose.outstanding = q.outstanding := by
      rw [outstanding, items_beginClose hClosed, List.filterMap_append]
      exact List.append_nil _
    obtain ⟨f, saved, hKeeps, hPath, hWanted⟩ := h
    obtain ⟨closed, waiting, hBegun⟩ := q.beginClose_frame
    rw [hBegun] at hOutstanding ⊢
    refine ⟨f, saved, ⟨hKeeps.backend, hKeeps.tracks, ?_, hKeeps.told, hKeeps.pending⟩, hPath, ?_⟩
    · rw [hOutstanding]
      exact hKeeps.switches
    · rw [hOutstanding]
      exact hWanted

/-- With nothing left to attempt and the last attempt a success, the file holds what is wanted. -/
theorem Serves.recordAt (h : Serves path wanted q tree) (hNone : q.outstanding = [])
    (hLast : q.LastSucceeded) (name : Text) :
    (RecordFile.recordAt tree path).get? name = wanted name := by
  obtain ⟨f, saved, hKeeps, rfl, hWanted⟩ := h
  rw [hNone] at hWanted
  obtain rfl : saved = wanted := hWanted
  exact hKeeps.tracks.1.get?_recordAt (hKeeps.pending hLast) name

theorem Serves.reaches (h : Serves path wanted q tree) : RecordFile.Reaches tree path := by
  obtain ⟨f, saved, hKeeps, rfl, _⟩ := h
  exact hKeeps.tracks.1.reaches

end WriteQueue

end Switchboard

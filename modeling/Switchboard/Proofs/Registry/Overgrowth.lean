import Switchboard.Proofs.File.Overgrowth
import Switchboard.Proofs.RecordFile.Run
import Switchboard.Proofs.Registry.Cascade

/-!
# Registries beside bare ones

A registry is set beside one that saves nothing. Whatever becomes of its saves, and whenever the
worker comes to them, the other one stays a bare copy of it: the two differ in the queue, in what
has been logged, and in what saving has done to the files.
-/

namespace Switchboard

namespace RecordFile

theorem writeOut_overgrows (id : Text) (value : Json) (f : RecordFile) (host : Host) :
    ∃ tree log, (f.writeOut id value host).2.2 = { host with tree, log } ∧
      FileTree.Overgrows [f.path] (f.directory.ancestors ++ [f.directory]) host.tree tree := by
  obtain ⟨tree, hTree, hCases⟩ := host.replaceFile_spec f.directory (f.directory.child fileName)
    (encode (f.data.put id value))
  have hGrown : FileTree.Overgrows [f.path] (f.directory.ancestors ++ [f.directory]) host.tree
      tree := by
    rcases hCases with ⟨_, _, hAdds⟩ | ⟨_, grown, hAdds, _, _, hPut⟩
    · exact hAdds.overgrows _
    · intro q hq
      rw [hPut, if_neg fun hSame => hq f.path List.mem_cons_self hSame.symm]
      exact hAdds q
  unfold writeOut path
  dsimp only
  generalize host.replaceFile f.directory (f.directory.child fileName)
    (encode (f.data.put id value)) = replaced at hTree
  obtain ⟨result, after⟩ := replaced
  obtain rfl : after = { host with tree } := hTree
  cases result with
  | ok _ => exact ⟨tree, _, rfl, hGrown⟩
  | error e =>
    dsimp only
    split
    · exact ⟨tree, host.log, rfl, hGrown⟩
    · exact ⟨tree, host.log, rfl, hGrown⟩

theorem save_overgrows (id : Text) (value : Json) (f : RecordFile) (host : Host) :
    ∃ tree log, (f.save id value host).2.2 = { host with tree, log } ∧
      FileTree.Overgrows [f.path] (f.directory.ancestors ++ [f.directory]) host.tree tree := by
  rcases save_cases id value f host with ⟨e, log, hSave, _⟩ | ⟨log, hSave, _⟩
  · rw [hSave]
    exact ⟨host.tree, log, rfl, .refl _ _ _⟩
  · obtain ⟨tree, later, hHost, hGrown⟩ :=
      writeOut_overgrows id value ((f.pend id value).settled host) { host with log }
    have hDirectory : ((f.pend id value).settled host).directory = f.directory :=
      directory_settled _ _
    rw [path_settled, path_pend, hDirectory] at hGrown
    rw [hSave, hHost]
    exact ⟨tree, later, rfl, hGrown⟩

/-! ## The log -/

variable (id : Text) (f : RecordFile) (host : Host) (log : List LogLine)

theorem loadAll_log : ∃ later, f.loadAll { host with log } =
    ((f.loadAll host).1, (f.loadAll host).2.1, { host with log := later }) := by
  have hReading : f.reading { host with log } = f.reading host := rfl
  rw [loadAll, loadAll, hReading]
  cases f.reading host with
  | error e => exact ⟨log, rfl⟩
  | ok reading =>
    cases reading with
    | absent | unreadable | undecodable | notARecord | record => exact ⟨_, rfl⟩

theorem ensureLoaded_log : ∃ later, f.ensureLoaded { host with log } =
    ((f.ensureLoaded host).1, (f.ensureLoaded host).2.1, { host with log := later }) := by
  rw [ensureLoaded, ensureLoaded]
  split
  · exact ⟨log, rfl⟩
  · obtain ⟨later, hLoad⟩ := f.loadAll_log host log
    rw [hLoad]
    obtain ⟨result, after, _⟩ := f.loadAll host
    cases result with
    | ok _ => exact ⟨later, rfl⟩
    | error e => exact ⟨later, rfl⟩

theorem load_log : ∃ later, f.load id { host with log } =
    ((f.load id host).1, (f.load id host).2.1, { host with log := later }) := by
  obtain ⟨later, hLoaded⟩ := f.ensureLoaded_log host log
  rw [load, load, hLoaded]
  obtain ⟨result, after, _⟩ := f.ensureLoaded host
  cases result with
  | error e => exact ⟨later, rfl⟩
  | ok _ =>
    dsimp only
    split
    · exact ⟨later, rfl⟩
    · exact ⟨later, rfl⟩
    · exact ⟨_, rfl⟩

end RecordFile

namespace Backend

def places : Backend → List FilePath
  | file f => [f.path]
  | script _ => []

/-- The directories that a backend may have to make. -/
def row : Backend → List FilePath
  | file f => f.directory.ancestors ++ [f.directory]
  | script _ => []

structure At (places row : List FilePath) (backend : Backend) : Prop where
  places : backend.places = places
  row : backend.row = row

/-- What a backend answers to loads that are made one after another. -/
def answers (host : Host) : List Text → Backend → List (Except Failure Json)
  | [], _ => []
  | id :: rest, backend =>
    (backend.load id host).1 :: answers host rest (backend.load id host).2.1

variable {places row : List FilePath} {backend : Backend}

theorem at_file {f g : RecordFile} (hPath : g.path = f.path) (h : At places row (.file f)) :
    At places row (.file g) := by
  obtain ⟨rfl, rfl⟩ := h
  refine ⟨by rw [Backend.places, Backend.places, hPath], ?_⟩
  rw [Backend.row, Backend.row, RecordFile.directory_eq_of_path hPath]

theorem load_log (id : Text) (backend : Backend) (host : Host) (log : List LogLine) : ∃ later,
    backend.load id { host with log } =
      ((backend.load id host).1, (backend.load id host).2.1, { host with log := later }) := by
  cases backend with
  | script s => exact ⟨log, rfl⟩
  | file f =>
    obtain ⟨later, hLoad⟩ := f.load_log id host log
    rw [load, load, hLoad]
    obtain ⟨result, after, _⟩ := f.load id host
    rcases result with e | _ | b
    · exact ⟨later, rfl⟩
    · exact ⟨later, rfl⟩
    · exact ⟨later, rfl⟩

theorem At.load (h : backend.At places row) (id : Text) (host : Host) :
    (backend.load id host).2.1.At places row := by
  cases backend with
  | script s => exact h
  | file f =>
    obtain ⟨log, hLoad⟩ := f.load_state id host
    rw [Backend.load]
    generalize f.load id host = loaded at hLoad
    obtain ⟨result, after, later⟩ := loaded
    cases hLoad
    have hAfter := at_file (f.path_settled host) h
    rcases result with e | _ | b
    · exact hAfter
    · exact hAfter
    · exact hAfter

theorem At.save (h : backend.At places row) (id : Text) (value : Json) (host : Host) :
    (backend.save id value host).2.1.At places row ∧ ∃ tree log,
      (backend.save id value host).2.2 = { host with tree, log } ∧
        FileTree.Overgrows places row host.tree tree := by
  cases backend with
  | script s =>
    rw [Backend.save]
    split
    · exact ⟨⟨h.places, h.row⟩, host.tree, host.log, rfl, .refl _ _ _⟩
    · exact ⟨⟨h.places, h.row⟩, host.tree, host.log, rfl, .refl _ _ _⟩
    · exact ⟨⟨h.places, h.row⟩, host.tree, host.log, rfl, .refl _ _ _⟩
  | file f =>
    refine ⟨at_file (f.path_save id value host) h, ?_⟩
    obtain ⟨rfl, rfl⟩ := h
    exact f.save_overgrows id value host

end Backend

namespace WriteQueue

variable {places row : List FilePath}

/-- What is done to a queue is seen in nothing but the queue, the log, and the files about the given
places. -/
def Unseen (places row : List FilePath) (act : WriteQueue → Host → WriteQueue × Host) : Prop :=
  ∀ q host, q.backend.At places row → (act q host).1.backend.At places row ∧
    ∃ tree log, (act q host).2 = { host with tree, log } ∧
      FileTree.Overgrows places row host.tree tree

theorem unseen_attempt (request : SaveRequest) : Unseen places row (attempt request) := by
  intro q host h
  obtain ⟨hAfter, tree, log, hHost, hGrown⟩ := h.save request.id request.value host
  unfold attempt
  generalize q.backend.save request.id request.value host = saved at hAfter hHost
  obtain ⟨result, backend, later⟩ := saved
  obtain rfl : later = { host with tree, log } := hHost
  cases result with
  | ok _ => exact ⟨hAfter, tree, log, rfl, hGrown⟩
  | error e => exact ⟨hAfter, tree, _, rfl, hGrown⟩

theorem unseen_submit (request : SaveRequest) : Unseen places row (submit request) := by
  intro q host h
  rw [submit]
  split
  · exact unseen_attempt request q
      (host.note .warning .storage ("Writer closed, saving " ++ request.id ++ " synchronously")) h
  · exact ⟨h, host.tree, host.log, rfl, .refl _ _ _⟩

theorem unseen_take : Unseen places row fun q host => (q.take, host) := by
  intro q host h
  obtain ⟨inHand, waiting, hTake⟩ := q.take_frame
  refine ⟨?_, host.tree, host.log, rfl, .refl _ _ _⟩
  change q.take.backend.At places row
  rw [hTake]
  exact h

theorem unseen_finish : Unseen places row finish := by
  intro q host h
  rw [finish]
  split
  · exact ⟨h, host.tree, host.log, rfl, .refl _ _ _⟩
  · exact ⟨h, host.tree, host.log, rfl, .refl _ _ _⟩
  · rename_i request _
    obtain ⟨hAfter, tree, log, hHost, hGrown⟩ := unseen_attempt request { q with inHand := none }
      { host with acting := .worker } h
    refine ⟨hAfter, tree, log, ?_, hGrown⟩
    rw [Host.actingAs]
    dsimp only
    rw [hHost]

theorem unseen_work (count : Nat) : Unseen places row (work count) := by
  induction count with
  | zero => exact fun q host h => ⟨h, host.tree, host.log, rfl, .refl _ _ _⟩
  | succ count ih =>
    intro q host h
    obtain ⟨hTaken, _⟩ := unseen_take q host h
    obtain ⟨hFinished, tree, log, hHost, hGrown⟩ := unseen_finish q.take host hTaken
    obtain ⟨hAfter, later, last, hLater, hMore⟩ := ih _ (q.take.finish host).2 hFinished
    rw [hHost] at hMore
    refine ⟨hAfter, later, last, ?_, hGrown.trans hMore⟩
    exact hLater.trans (by rw [hHost])

theorem unseen_close : Unseen places row close := by
  intro q host h
  have hBegun : q.beginClose.backend.At places row := by
    obtain ⟨closed, waiting, hBegun⟩ := q.beginClose_frame
    rw [hBegun]
    exact h
  exact unseen_work _ q.beginClose host hBegun

end WriteQueue

namespace Registry

/-- A registry beside a bare copy of it, which has no queue, on hosts that differ in what saving has
done. On the bare side the tree is a given one. -/
structure Overgrown (places row : List FilePath) (met : Faults) (tree : FileTree)
    (bare s : Registry × Host) : Prop where
  same : bare.1 = { s.1 with queue := none }
  tree : bare.2.tree = tree
  host : Host.Overgrows places row met bare.2 s.2
  saved : ∀ q, s.1.queue = some q → q.backend.At places row

variable {places row : List FilePath} {met : Faults} {tree : FileTree} {bare s : Registry × Host}

theorem Overgrown.overQueue {act : WriteQueue → Host → WriteQueue × Host}
    (h : Overgrown places row met tree bare s) (hAct : WriteQueue.Unseen places row act) :
    Overgrown places row met tree bare (s.1.overQueue act s.2) := by
  rw [Registry.overQueue]
  cases hQueue : s.1.queue with
  | none => exact h
  | some q =>
    obtain ⟨hAfter, grown, log, hHost, hGrown⟩ := hAct q s.2 (h.saved q hQueue)
    dsimp only
    rw [hHost]
    refine ⟨h.same, h.tree,
      ⟨h.host.tree.trans hGrown, h.host.clock, h.host.faults, h.host.others⟩, ?_⟩
    rintro _ ⟨⟩
    exact hAfter

theorem steady_overgrown (places row : List FilePath) (met : Faults) (tree : FileTree) :
    Steady (Overgrown places row met tree) := by
  constructor
  · intro bare s h
    rw [h.same]
  · intro bare s h
    rw [h.same]
  · intro bare s h
    rw [h.same]
  · intro bare s h
    rw [h.same]
  · intro bare s change h
    refine ⟨?_, h.tree, h.host, h.saved⟩
    dsimp only
    rw [h.same]
  · intro bare s d value h
    obtain ⟨first, hFirst⟩ := noteChange_eq d value bare.2
    obtain ⟨second, hSecond⟩ := noteChange_eq d value s.2
    rw [hFirst, hSecond]
    exact ⟨h.same, h.tree, ⟨h.host.tree, h.host.clock, h.host.faults, h.host.others⟩, h.saved⟩
  · intro bare s id value _ h
    obtain ⟨registry, later⟩ := bare
    obtain rfl : registry = { s.1 with queue := none } := h.same
    have hAssigned : Overgrown places row met tree
        (assign id value { s.1 with queue := none }, later) (s.1.assign id value, s.2) :=
      ⟨rfl, h.tree, h.host, h.saved⟩
    exact hAssigned.overQueue (WriteQueue.unseen_submit ⟨id, .bool value⟩)

theorem Overgrown.isOn (h : Overgrown places row met tree bare s) (id : Text) :
    s.1.isOn id = bare.1.isOn id := by
  rw [h.same]
  rfl

/-! ## Starting -/

variable {others way : List FilePath} {first second : Backend} {host : Host}

theorem loadSetting_of_answer (d : Descriptor)
    (h : (first.load d.id host).1 = (second.load d.id host).1) (log other : List LogLine) :
    ∃ result before after,
      loadSetting d first { host with log } =
        (result, (first.load d.id host).2.1, { host with log := before }) ∧
      loadSetting d second { host with log := other } =
        (result, (second.load d.id host).2.1, { host with log := after }) := by
  obtain ⟨before, hFirst⟩ := first.load_log d.id host log
  obtain ⟨after, hSecond⟩ := second.load_log d.id host other
  rw [loadSetting, loadSetting, hFirst, hSecond, h]
  cases (second.load d.id host).1 with
  | ok value =>
    cases value with
    | null => exact ⟨_, before, after, rfl, rfl⟩
    | _ => exact ⟨_, before, after, rfl, rfl⟩
  | error e =>
    dsimp only
    split
    · exact ⟨_, _, _, rfl, rfl⟩
    · exact ⟨_, before, after, rfl, rfl⟩

theorem loadSettings_of_answers (ds : List Descriptor)
    (h : first.answers host (ds.map Descriptor.id) = second.answers host (ds.map Descriptor.id))
    (hFirst : first.At places row) (hSecond : second.At others way) (log other : List LogLine) :
    ∃ result left right before after,
      loadSettings ds first { host with log } = (result, left, { host with log := before }) ∧
      loadSettings ds second { host with log := other } =
        (result, right, { host with log := after }) ∧
      left.At places row ∧ right.At others way := by
  induction ds generalizing first second log other with
  | nil => exact ⟨_, _, _, log, other, rfl, rfl, hFirst, hSecond⟩
  | cons d rest ih =>
    rw [List.map_cons, Backend.answers, Backend.answers, List.cons.injEq] at h
    obtain ⟨hAnswer, hRest⟩ := h
    obtain ⟨result, before, after, hLeft, hRight⟩ := loadSetting_of_answer d hAnswer log other
    have hFirstLoaded := hFirst.load d.id host
    have hSecondLoaded := hSecond.load d.id host
    rw [loadSettings, loadSettings, hLeft, hRight]
    cases result with
    | error e => exact ⟨_, _, _, before, after, rfl, rfl, hFirstLoaded, hSecondLoaded⟩
    | ok s =>
      obtain ⟨loaded, left, right, later, last, hLoads, hSame, hAts⟩ :=
        ih hRest hFirstLoaded hSecondLoaded before after
      dsimp only
      rw [hLoads, hSame]
      cases loaded with
      | error e => exact ⟨_, left, right, later, last, rfl, rfl, hAts⟩
      | ok settings => exact ⟨_, left, right, later, last, rfl, rfl, hAts⟩

theorem start_of_answers (index : DescriptorIndex)
    (h : first.answers host (index.descriptors.map Descriptor.id) =
      second.answers host (index.descriptors.map Descriptor.id))
    (hFirst : first.At places row) (hSecond : second.At others way) :
    ∃ before after,
      (∃ e, start index (some first) host = (.error e, { host with log := before }) ∧
        start index (some second) host = (.error e, { host with log := after })) ∨
      ∃ settings left right,
        start index (some first) host =
          (.ok { settings, queue := some { backend := left } }, { host with log := before }) ∧
        start index (some second) host =
          (.ok { settings, queue := some { backend := right } }, { host with log := after }) ∧
        left.At places row ∧ right.At others way := by
  obtain ⟨result, left, right, before, after, hLeft, hRight, hAts⟩ :=
    loadSettings_of_answers index.descriptors h hFirst hSecond host.log host.log
  rw [show ({ host with log := host.log } : Host) = host from rfl] at hLeft hRight
  rw [start, start, hLeft, hRight]
  refine ⟨before, after, ?_⟩
  cases result with
  | error e => exact .inl ⟨e, rfl, rfl⟩
  | ok settings => exact .inr ⟨settings, left, right, rfl, rfl, hAts⟩

end Registry

end Switchboard

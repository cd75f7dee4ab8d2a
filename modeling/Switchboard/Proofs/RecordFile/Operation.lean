import Switchboard.Proofs.Host
import Switchboard.Proofs.RecordFile.Codec

/-!
# What the operations of the keeper come to

An attempt to read the settings file settles when it gives a record to take over, which a missing
or a spoilt file does as well. Loading and saving are described by whether an attempt settles and
by what becomes of the file when the record is written.
-/

namespace Switchboard.RecordFile

open FileTree

/-- The record that an attempt to read takes over, if it settles. -/
def Reading.record? : Reading → Option (Record Text Json)
  | absent => some []
  | unreadable _ => none
  | undecodable _ => some []
  | notARecord => some []
  | record r => some r

def attempt (f : RecordFile) (host : Host) : Option (Record Text Json) :=
  match f.reading host with
  | .error _ => none
  | .ok reading => reading.record?

/-- The keeper once it has tried to read the file, unless it had been read before. -/
def settled (f : RecordFile) (host : Host) : RecordFile :=
  if f.loaded then f
  else
    match f.attempt host with
    | some r => f.adopt r
    | none => f

def pend (id : Text) (value : Json) (f : RecordFile) : RecordFile :=
  { f with pending := f.pending.put id value }

variable {f : RecordFile} {host : Host}

@[simp] theorem path_pend (f : RecordFile) (id : Text) (value : Json) :
    (f.pend id value).path = f.path := rfl

@[simp] theorem path_settled (f : RecordFile) (host : Host) : (f.settled host).path = f.path := by
  rw [settled]
  split
  · rfl
  · split <;> rfl

theorem directory_eq_of_path {g : RecordFile} (h : g.path = f.path) : g.directory = f.directory :=
  ((FilePath.child_inj _ _ _ _).mp h).1

theorem directory_settled (f : RecordFile) (host : Host) :
    (f.settled host).directory = f.directory :=
  directory_eq_of_path (path_settled f host)

theorem pending_settled (f : RecordFile) (host : Host) :
    (f.settled host).pending = f.pending := by
  rw [settled]
  split
  · rfl
  · split <;> rfl

@[simp] theorem loaded_pend (f : RecordFile) (id : Text) (value : Json) :
    (f.pend id value).loaded = f.loaded := rfl

@[simp] theorem attempt_pend (f : RecordFile) (id : Text) (value : Json) (host : Host) :
    (f.pend id value).attempt host = f.attempt host := rfl

theorem loaded_settled (f : RecordFile) (host : Host) :
    (f.settled host).loaded = (f.loaded || (f.attempt host).isSome) := by
  rw [settled]
  split
  · rename_i hLoaded
    rw [hLoaded]
    rfl
  · rename_i hLoaded
    rw [Bool.not_eq_true] at hLoaded
    split
    · rename_i r hAttempt
      rw [hLoaded, hAttempt]
      rfl
    · rename_i hAttempt
      rw [hLoaded, hAttempt]
      rfl

theorem settled_of_not_loaded (h : (f.settled host).loaded = false) :
    f.settled host = f ∧ f.loaded = false ∧ f.attempt host = none := by
  rw [loaded_settled, Bool.or_eq_false_iff, Option.isSome_eq_false_iff,
    Option.isNone_iff_eq_none] at h
  refine ⟨?_, h⟩
  rw [settled, if_neg (Bool.eq_false_iff.mp h.1), h.2]

/-! ## Attempts to read -/

theorem reading_eq (f : RecordFile) (host : Host) : f.reading host =
    match host.tree.occupancy f.path with
    | .taken node =>
      match host.faults.openFile, node with
      | some message, _ => .ok (.unreadable (.device message))
      | none, .file contents => .ok (decode contents)
      | none, .directory => .ok (.unreadable (.isDirectory f.path))
    | .nameTooLong => .error (.nameTooLong f.path)
    | _ => .ok .absent := by
  unfold reading exists? FileTree.read
  cases host.tree.occupancy f.path with
  | taken node =>
    cases host.faults.openFile with
    | some message => rfl
    | none => cases node <;> rfl
  | vacant => rfl
  | adrift => rfl
  | blocked => rfl
  | nameTooLong => rfl
  | unnameable => rfl

/-- The path is one that can be asked about, or that the system cannot be given at all. -/
def Askable (f : RecordFile) : Prop :=
  f.path.TooLong → f.path.Unnameable

theorem askable_of_attempt {r : Record Text Json} (h : f.attempt host = some r) : f.Askable := by
  intro hLong
  by_cases hUnnameable : f.path.Unnameable
  · exact hUnnameable
  · rw [attempt, reading_eq, occupancy, if_neg hUnnameable, if_pos hLong] at h
    cases h

/-- The record that the file listed for a path holds, if there is one. -/
def recordAt (tree : FileTree) (path : FilePath) : Record Text Json :=
  match tree.node? path with
  | some (.file contents) => ((decode contents).record?).getD []
  | _ => []

/-- A file that is listed for a path can be reached on it. -/
def Reaches (tree : FileTree) (path : FilePath) : Prop :=
  ∀ contents, tree.node? path = some (.file contents) →
    tree.occupancy path = .taken (.file contents)

theorem recordAt_of_file {tree : FileTree} {path : FilePath} {contents : Bytes}
    (h : tree.occupancy path = .taken (.file contents)) :
    recordAt tree path = ((decode contents).record?).getD [] := by
  rw [recordAt, node?_of_occupancy_file h]

theorem record?_decode (contents : Bytes) : ∃ r, (decode contents).record? = some r := by
  rw [decode]
  split
  · exact ⟨[], rfl⟩
  · split
    · exact ⟨[], rfl⟩
    · exact ⟨_, rfl⟩
    · exact ⟨[], rfl⟩

theorem recordAt_eq_nil {tree : FileTree} {path : FilePath} (hReaches : Reaches tree path)
    (h : ∀ contents, tree.occupancy path ≠ .taken (.file contents)) : recordAt tree path = [] := by
  rw [recordAt]
  split
  · rename_i contents hNode
    exact absurd (hReaches contents hNode) (h contents)
  · rfl

theorem recordAt_of_attempt (hReaches : Reaches host.tree f.path) {r : Record Text Json}
    (h : f.attempt host = some r) : recordAt host.tree f.path = r := by
  rw [attempt, reading_eq] at h
  cases hOccupancy : host.tree.occupancy f.path with
  | taken node =>
    rw [hOccupancy] at h
    cases hFault : host.faults.openFile with
    | some message =>
      rw [hFault] at h
      cases h
    | none =>
      rw [hFault] at h
      cases node with
      | directory => cases h
      | file contents =>
        rw [recordAt_of_file hOccupancy]
        exact congrArg (·.getD []) h
  | nameTooLong =>
    rw [hOccupancy] at h
    cases h
  | vacant | adrift | blocked | unnameable =>
    rw [hOccupancy] at h
    obtain rfl : [] = r := Option.some.inj h
    exact recordAt_eq_nil hReaches (by simp [hOccupancy])

/-- When nothing keeps a file from being opened, only what is no file is not read. -/
theorem recordAt_of_unread (hReaches : Reaches host.tree f.path)
    (hFault : host.faults.openFile = none) (h : f.attempt host = none) :
    recordAt host.tree f.path = [] := by
  refine recordAt_eq_nil hReaches ?_
  intro contents hFile
  obtain ⟨r, hRecord⟩ := record?_decode contents
  rw [attempt, reading_eq, hFile, hFault] at h
  exact absurd (h.symm.trans hRecord) (by simp)

theorem storable_of_attempt {r : Record Text Json} (h : f.attempt host = some r) : Storable r := by
  rw [attempt] at h
  split at h
  · cases h
  · rename_i reading hReading
    rw [reading_eq] at hReading
    cases reading with
    | absent => cases h; exact storable_nil
    | unreadable e => cases h
    | undecodable cause => cases h; exact storable_nil
    | notARecord => cases h; exact storable_nil
    | record r =>
      cases h
      split at hReading
      · split at hReading
        · cases hReading
        · exact storable_of_decode (Except.ok.inj hReading)
        · cases hReading
      · cases hReading
      · cases hReading

/-! ## Loading -/

/-- Loading takes over what the attempt gives, and the file tree stays. It fails when the attempt
does not settle; when the attempt settles it fails in words of the keeper, if at all. -/
theorem loadAll_spec (f : RecordFile) (host : Host) : ∃ result log,
    f.loadAll host = (result,
      match f.attempt host with
      | some r => f.adopt r
      | none => f, { host with log }) ∧
    (f.attempt host = none → ∃ e, result = .error e) ∧
    (∀ e, (f.attempt host).isSome → result = .error e → e.isPersistence) := by
  rw [attempt]
  cases hReading : f.reading host with
  | error e =>
    refine ⟨_, _, by simp only [loadAll, hReading]; rfl, fun _ => ⟨_, rfl⟩, ?_⟩
    intro e hSome
    cases hSome
  | ok reading =>
    cases reading with
    | absent =>
      refine ⟨.ok [], _, by simp only [loadAll, hReading]; rfl, ?_, ?_⟩
      · intro hNone
        cases hNone
      · intro e _ hResult
        cases hResult
    | unreadable e =>
      refine ⟨_, _, by simp only [loadAll, hReading]; rfl, fun _ => ⟨_, rfl⟩, ?_⟩
      intro e hSome
      cases hSome
    | undecodable cause =>
      refine ⟨_, _, by simp only [loadAll, hReading]; rfl, fun _ => ⟨_, rfl⟩, ?_⟩
      rintro e - hResult
      cases hResult
      rfl
    | notARecord =>
      refine ⟨_, _, by simp only [loadAll, hReading]; rfl, fun _ => ⟨_, rfl⟩, ?_⟩
      rintro e - hResult
      cases hResult
      rfl
    | record r =>
      refine ⟨.ok (f.adopt r).data, _, by simp only [loadAll, hReading]; rfl, ?_, ?_⟩
      · intro hNone
        cases hNone
      · intro e _ hResult
        cases hResult

theorem loadAll_error {e : Failure} (h : (f.loadAll host).1 = .error e) :
    (e.isPersistence = true ∨ e.isFromSystem = true) ∧ ∀ r, f.attempt host = some r → r = [] := by
  rw [attempt]
  cases hReading : f.reading host with
  | error refusal =>
    rw [reading_eq] at hReading
    split at hReading
    · split at hReading
      · cases hReading
      · cases hReading
      · cases hReading
    · cases hReading
      simp only [loadAll, reading_eq, *] at h
      cases h
      exact ⟨.inr rfl, nofun⟩
    · cases hReading
  | ok reading =>
    simp only [loadAll, hReading] at h
    cases reading with
    | absent => cases h
    | unreadable refusal =>
      cases h
      exact ⟨.inl rfl, nofun⟩
    | undecodable cause =>
      cases h
      exact ⟨.inl rfl, fun r hr => (Option.some.inj hr).symm⟩
    | notARecord =>
      cases h
      exact ⟨.inl rfl, fun r hr => (Option.some.inj hr).symm⟩
    | record r => cases h

theorem ensureLoaded_spec (f : RecordFile) (host : Host) : ∃ result log,
    f.ensureLoaded host = (result, f.settled host, { host with log }) ∧
    ((f.settled host).loaded = false → ∃ e, result = .error e) ∧
    ((f.settled host).loaded = true → ∀ e, result = .error e → e.isPersistence) := by
  rw [loaded_settled]
  unfold ensureLoaded settled
  by_cases hLoaded : f.loaded = true
  · rw [if_pos hLoaded, if_pos hLoaded, hLoaded]
    exact ⟨.ok (), host.log, rfl, nofun, nofun⟩
  · obtain ⟨result, log, hLoad, hNone, hSome⟩ := f.loadAll_spec host
    rw [if_neg hLoaded, if_neg hLoaded, hLoad, Bool.eq_false_of_not_eq_true hLoaded, Bool.false_or]
    cases result with
    | ok r =>
      refine ⟨.ok (), log, rfl, fun hUnsettled => ?_, nofun⟩
      obtain ⟨e, he⟩ := hNone (by simpa using hUnsettled)
      cases he
    | error e =>
      refine ⟨.error e, log, rfl, fun _ => ⟨e, rfl⟩, fun hSettled e' he => ?_⟩
      exact hSome e' hSettled (congrArg _ (Except.error.inj he))

theorem ensureLoaded_error {e : Failure} (h : (f.ensureLoaded host).1 = .error e) :
    (e.isPersistence = true ∨ e.isFromSystem = true) ∧ ∀ r, f.attempt host = some r → r = [] := by
  rw [ensureLoaded] at h
  split at h
  · cases h
  · split at h
    · cases h
    · rename_i refusal _ _ hLoad
      cases h
      exact loadAll_error (congrArg Prod.fst hLoad)

/-- A load gives the position that the record in memory has, or fails before anything has been read
in which a position could stand. -/
theorem load_spec (id : Text) (f : RecordFile) (host : Host) : ∃ result log,
    f.load id host = (result, f.settled host, { host with log }) ∧
    (((f.settled host).loaded = true ∧
        result = .ok (((f.settled host).data.get? id).bind Json.toBool?)) ∨
      (f.loaded = false ∧ (∀ r, f.attempt host = some r → r = []) ∧
        ∃ e, result = .error e ∧ (e.isPersistence = true ∨ e.isFromSystem = true))) := by
  obtain ⟨result, log, hEnsure, hUnsettled, _⟩ := f.ensureLoaded_spec host
  rw [load]
  rw [hEnsure]
  cases result with
  | error e =>
    obtain ⟨hFamily, hNothing⟩ := ensureLoaded_error (congrArg Prod.fst hEnsure)
    refine ⟨.error e, log, rfl, .inr ⟨?_, hNothing, e, rfl, hFamily⟩⟩
    apply Bool.eq_false_of_not_eq_true
    intro hLoaded
    rw [ensureLoaded, if_pos hLoaded] at hEnsure
    cases hEnsure
  | ok _ =>
    have hLoaded : (f.settled host).loaded = true := by
      cases hCase : (f.settled host).loaded with
      | true => rfl
      | false =>
        obtain ⟨e, he⟩ := hUnsettled hCase
        cases he
    dsimp only
    split
    · rename_i hNone
      exact ⟨_, log, rfl, .inl ⟨hLoaded, by rw [hNone]; rfl⟩⟩
    · rename_i b hBool
      exact ⟨_, log, rfl, .inl ⟨hLoaded, by rw [hBool]; rfl⟩⟩
    · rename_i value hOther hSome
      refine ⟨_, _, rfl, .inl ⟨hLoaded, ?_⟩⟩
      rw [hSome]
      cases value with
      | bool b => exact absurd rfl (hOther b)
      | _ => rfl

/-! ## Saving -/

theorem not_nameTooLong_path (f : RecordFile) : ¬ (f.directory.child fileName).NameTooLong := by
  rw [FilePath.NameTooLong, FilePath.lastName_child]
  decide

theorem save_of_ensureLoaded_ok {g : RecordFile} {later : Host} {id : Text} {value : Json}
    (h : (f.pend id value).ensureLoaded host = (.ok (), g, later)) :
    f.save id value host = g.writeOut id value later := by
  rw [pend] at h
  rw [save, h]

theorem save_of_ensureLoaded_error {g : RecordFile} {later : Host} {id : Text} {value : Json}
    {e : Failure} (h : (f.pend id value).ensureLoaded host = (.error e, g, later)) :
    f.save id value host =
      if e.isPersistence ∧ g.loaded then g.writeOut id value later else (.error e, g, later) := by
  rw [pend] at h
  rw [save, h]

theorem save_spec (id : Text) (value : Json) (f : RecordFile) (host : Host) : ∃ log,
    (((f.pend id value).settled host).loaded = true → f.save id value host =
      ((f.pend id value).settled host).writeOut id value { host with log }) ∧
    (((f.pend id value).settled host).loaded = false → ∃ e, f.save id value host =
      (.error e, f.pend id value, { host with log })) := by
  obtain ⟨result, log, hEnsure, hUnsettled, hSettled⟩ := (f.pend id value).ensureLoaded_spec host
  refine ⟨log, ?_, ?_⟩
  · intro hLoaded
    cases result with
    | ok _ => exact save_of_ensureLoaded_ok hEnsure
    | error e =>
      rw [save_of_ensureLoaded_error hEnsure, if_pos ⟨hSettled hLoaded e rfl, hLoaded⟩]
  · intro hLoaded
    obtain ⟨e, rfl⟩ := hUnsettled hLoaded
    obtain ⟨hSame, _, _⟩ := settled_of_not_loaded hLoaded
    refine ⟨e, ?_⟩
    rw [save_of_ensureLoaded_error hEnsure, if_neg (by simp [hLoaded]), hSame]

/-- A save fails before anything has been read, or it writes what is in memory then. -/
theorem save_cases (id : Text) (value : Json) (f : RecordFile) (host : Host) :
    (∃ e log, f.save id value host = (.error e, f.pend id value, { host with log }) ∧
      f.loaded = false ∧ f.attempt host = none) ∨
    ∃ log, f.save id value host =
        ((f.pend id value).settled host).writeOut id value { host with log } ∧
      ((f.pend id value).settled host).loaded = true := by
  obtain ⟨log, hWritten, hUnwritten⟩ := save_spec id value f host
  cases hLoaded : ((f.pend id value).settled host).loaded with
  | false =>
    obtain ⟨e, hSave⟩ := hUnwritten hLoaded
    obtain ⟨_, hBefore, hAttempt⟩ := settled_of_not_loaded hLoaded
    exact .inl ⟨e, log, hSave, hBefore, hAttempt⟩
  | true => exact .inr ⟨log, hWritten hLoaded, rfl⟩

/-- Writing puts the value into the record in memory and the record into the file, or leaves every
file as it was. -/
theorem writeOut_spec (id : Text) (value : Json) (f : RecordFile) (host : Host)
    (hAskable : f.Askable) : ∃ tree log,
    (∃ e, f.writeOut id value host =
        (.error e, { f with data := f.data.put id value }, { host with tree, log }) ∧
      Grows host.tree tree) ∨
    (f.writeOut id value host =
        (.ok (), { f with data := f.data.put id value, pending := [] }, { host with tree, log }) ∧
      tree.occupancy f.path = .taken (.file (encode (f.data.put id value))) ∧
      Extends (Apart f.path) host.tree tree) := by
  obtain ⟨tree, hHost, hCases⟩ := host.replaceFile_child_spec f.directory
    (encode (f.data.put id value)) (by decide : ¬ fileName.Unnameable) (by decide)
    (not_nameTooLong_path f) hAskable
  obtain ⟨result, after, hReplace⟩ : ∃ result after,
      host.replaceFile f.directory (f.directory.child fileName) (encode (f.data.put id value)) =
        (result, after) := ⟨_, _, rfl⟩
  rw [hReplace] at hHost hCases
  obtain rfl : after = { host with tree } := hHost
  unfold writeOut path
  dsimp only
  rw [hReplace]
  rcases hCases with ⟨e, hError, hGrows⟩ | ⟨hOk, hTaken, hExtends⟩
  · obtain rfl : result = .error e := hError
    dsimp only
    split
    · exact ⟨tree, host.log, .inl ⟨_, rfl, hGrows⟩⟩
    · exact ⟨tree, host.log, .inl ⟨_, rfl, hGrows⟩⟩
  · obtain rfl : result = .ok () := hOk
    exact ⟨tree, _, .inr ⟨rfl, hTaken, hExtends⟩⟩

theorem askable_settled (h : f.loaded = true → f.Askable)
    (hLoaded : (f.settled host).loaded = true) : (f.settled host).Askable := by
  rw [loaded_settled, Bool.or_eq_true] at hLoaded
  rw [Askable, path_settled]
  rcases hLoaded with hBefore | hSettles
  · exact h hBefore
  · obtain ⟨r, hAttempt⟩ := Option.isSome_iff_exists.mp hSettles
    exact askable_of_attempt hAttempt

theorem extends_save (h : f.loaded = true → f.Askable) (id : Text) (value : Json) (host : Host) :
    Extends (Apart f.path) host.tree (f.save id value host).2.2.tree := by
  rcases save_cases id value f host with ⟨e, log, hSave, _⟩ | ⟨log, hSave, hLoaded⟩
  · rw [hSave]
    exact .refl _ _
  · have hAskable : ((f.pend id value).settled host).Askable := askable_settled h hLoaded
    rw [hSave]
    obtain ⟨tree, log, ⟨e, hWrite, hGrows⟩ | ⟨hWrite, _, hExtends⟩⟩ :=
      writeOut_spec id value ((f.pend id value).settled host) { host with log } hAskable
    · rw [hWrite]
      exact hGrows.extends _
    · rw [hWrite]
      rwa [path_settled, path_pend] at hExtends

end Switchboard.RecordFile

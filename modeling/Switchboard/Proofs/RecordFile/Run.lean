import Switchboard.Proofs.RecordFile.Operation

/-!
# Runs of the keeper

A run mixes calls of the keeper, each under faults of its own, with changes that others make to the
file tree. While nobody else writes the settings file, the record in the file with the pending
values laid over it stands for every value saved so far, and so does the record in memory once the
file has been read. A save that succeeds therefore leaves a file that has lost nothing.
-/

namespace Switchboard.RecordFile

open FileTree

def underFaults (faults : Faults) (host : Host) : Host :=
  { host with faults }

inductive Call
  | loadAll
  | load (id : Text)
  | save (id : Text) (value : Bool)

def Call.perform : Call → RecordFile → Host → RecordFile × Host
  | loadAll, f, host => (f.loadAll host).2
  | load id, f, host => (f.load id host).2
  | save id value, f, host => (f.save id value host).2

inductive Event
  | call (action : Call) (faults : Faults)
  /-- Others have left the file tree like this. -/
  | outside (tree : FileTree)

def Event.apply : Event → RecordFile × Host → RecordFile × Host
  | call action faults, s => action.perform s.1 (underFaults faults s.2)
  | outside tree, s => (s.1, { s.2 with tree })

def run (events : List Event) (s : RecordFile × Host) : RecordFile × Host :=
  events.foldl (fun s event => event.apply s) s

/-- What has been passed to saves, oldest first. -/
def saves (events : List Event) : List (Text × Json) :=
  events.filterMap fun
    | .call (.save id value) _ => some (id, .bool value)
    | _ => none

/-- What should stand under a name: the last value passed for it, or else what was there before. -/
def expected (initial : Record Text Json) (events : List Event) (name : Text) : Option Json :=
  (Record.get? (saves events).reverse name).or (initial.get? name)

/-- What the settings file starts out as, taken as a record. -/
inductive Initially (tree : FileTree) (path : FilePath) : Record Text Json → Prop
  | absent (h : tree.node? path = none) : Initially tree path []
  | undecodable {contents : Bytes} {cause : Failure} (hRead : tree.read path = .ok contents)
    (h : decode contents = .undecodable cause) : Initially tree path []
  | notARecord {contents : Bytes} (hRead : tree.read path = .ok contents)
    (h : decode contents = .notARecord) : Initially tree path []
  | record {contents : Bytes} {r : Record Text Json} (hRead : tree.read path = .ok contents)
    (h : decode contents = .record r) : Initially tree path r

/-! ## The invariant of a run -/

/-- The record in the file, with the pending values laid over it, stands for what is wanted. -/
structure Follows (wanted : Text → Option Json) (f : RecordFile) (tree : FileTree) : Prop where
  reaches : Reaches tree f.path
  storable : Storable f.data
  pending : Storable f.pending
  stored : ∀ name, (f.pending.get? name).or ((recordAt tree f.path).get? name) = wanted name
  askable : f.loaded = true → f.Askable

/-- The record in memory does so too, once the file has been read. -/
def Tracks (wanted : Text → Option Json) (f : RecordFile) (tree : FileTree) : Prop :=
  Follows wanted f tree ∧ (f.loaded = true → ∀ name, f.data.get? name = wanted name)

variable {wanted : Text → Option Json} {f : RecordFile} {host : Host} {t u : FileTree}

theorem reaches_of_file {path : FilePath} {contents : Bytes}
    (h : t.occupancy path = .taken (.file contents)) : Reaches t path := by
  intro other hNode
  rw [node?_of_occupancy_file h] at hNode
  rw [h, Option.some.inj hNode]

theorem Initially.reaches {path : FilePath} {initial : Record Text Json}
    (h : Initially t path initial) : Reaches t path := by
  cases h with
  | absent hNone =>
    intro contents hNode
    rw [hNone] at hNode
    cases hNode
  | undecodable hRead _ | notARecord hRead _ | record hRead _ =>
    exact reaches_of_file (read_eq_ok_iff.mp hRead)

theorem Initially.recordAt_eq {path : FilePath} {initial : Record Text Json}
    (h : Initially t path initial) : recordAt t path = initial := by
  cases h with
  | absent hNone => rw [recordAt, hNone]
  | undecodable hRead h | notARecord hRead h | record hRead h =>
    rw [recordAt_of_file (read_eq_ok_iff.mp hRead), h]
    rfl

theorem Initially.tracks {directory : FilePath} {initial : Record Text Json}
    (h : Initially t (RecordFile.path { directory }) initial) :
    Tracks (fun name => initial.get? name) { directory } t := by
  refine ⟨⟨h.reaches, storable_nil, storable_nil, ?_, nofun⟩, nofun⟩
  intro name
  rw [h.recordAt_eq]
  rfl

theorem Follows.get?_recordAt (h : Follows wanted f t) (hPending : f.pending = []) (name : Text) :
    (recordAt t f.path).get? name = wanted name := by
  rw [← h.stored name, hPending]
  rfl

/-! ## Changes of the tree -/

theorem recordAt_of_extends {kept : FilePath → Prop} {path : FilePath} (h : Extends kept t u)
    (hKept : kept path) : recordAt u path = recordAt t path := by
  have hSame := h.same path hKept
  unfold recordAt
  cases hOld : t.node? path with
  | none =>
    split
    · rename_i contents hNew
      rw [(hSame contents).mpr hNew] at hOld
      cases hOld
    · rfl
  | some node =>
    cases node with
    | file contents => rw [(hSame contents).mp hOld]
    | directory => rw [h.directory path hOld]

theorem reaches_of_extends {kept : FilePath → Prop} {path : FilePath} (h : Extends kept t u)
    (hKept : kept path) (hReaches : Reaches t path) : Reaches u path := by
  intro contents hNode
  exact h.occupancy_file (hReaches contents ((h.same path hKept contents).mpr hNode)) hNode

theorem Follows.extends {kept : FilePath → Prop} (h : Follows wanted f t) (hTree : Extends kept t u)
    (hKept : kept f.path) : Follows wanted f u := by
  refine ⟨reaches_of_extends hTree hKept h.reaches, h.storable, h.pending, ?_, h.askable⟩
  rw [recordAt_of_extends hTree hKept]
  exact h.stored

theorem Tracks.extends {kept : FilePath → Prop} (h : Tracks wanted f t) (hTree : Extends kept t u)
    (hKept : kept f.path) : Tracks wanted f u :=
  ⟨h.1.extends hTree hKept, h.2⟩

/-! ## Steps of the keeper -/

theorem Follows.adopt (h : Follows wanted f host.tree) {r : Record Text Json}
    (hAttempt : f.attempt host = some r) : Follows wanted (f.adopt r) host.tree :=
  ⟨h.reaches, storable_putAll (storable_of_attempt hAttempt) h.pending, h.pending, h.stored,
    fun _ => askable_of_attempt hAttempt⟩

theorem Follows.held_adopt (h : Follows wanted f host.tree) {r : Record Text Json}
    (hAttempt : f.attempt host = some r) (name : Text) :
    (f.adopt r).data.get? name = wanted name := by
  change (r.putAll f.pending).get? name = _
  rw [Record.get?_putAll_of_nodup r h.pending.nodup, ← h.stored,
    recordAt_of_attempt h.reaches hAttempt]

theorem Follows.settled (h : Follows wanted f host.tree) :
    Follows wanted (f.settled host) host.tree := by
  rw [RecordFile.settled]
  split
  · exact h
  · split
    · rename_i r hAttempt
      exact h.adopt hAttempt
    · exact h

theorem Follows.held_settled (h : Follows wanted f host.tree) {name : Text}
    (hHeld : f.loaded = true → f.data.get? name = wanted name)
    (hLoaded : (f.settled host).loaded = true) :
    (f.settled host).data.get? name = wanted name := by
  unfold RecordFile.settled at hLoaded ⊢
  split at hLoaded
  · rename_i hBefore
    rw [if_pos hBefore]
    exact hHeld hBefore
  · rename_i hBefore
    rw [if_neg hBefore]
    split at hLoaded
    · rename_i r hAttempt
      exact h.held_adopt hAttempt name
    · exact absurd hLoaded hBefore

theorem Tracks.settled (h : Tracks wanted f host.tree) : Tracks wanted (f.settled host) host.tree :=
  ⟨h.1.settled, fun hLoaded name =>
    h.1.held_settled (fun hBefore => h.2 hBefore name) hLoaded⟩

theorem Tracks.loadAll (host : Host) (h : Tracks wanted f host.tree) :
    Tracks wanted (f.loadAll host).2.1 (f.loadAll host).2.2.tree := by
  obtain ⟨result, log, hLoad, _⟩ := f.loadAll_spec host
  rw [hLoad]
  dsimp only
  split
  · rename_i r hAttempt
    exact ⟨h.1.adopt hAttempt, fun _ => h.1.held_adopt hAttempt⟩
  · exact h

theorem load_state (id : Text) (f : RecordFile) (host : Host) : ∃ log,
    (f.load id host).2 = (f.settled host, { host with log }) := by
  obtain ⟨result, log, hLoad, _⟩ := f.load_spec id host
  rw [hLoad]
  exact ⟨log, rfl⟩

theorem Tracks.load (host : Host) (h : Tracks wanted f host.tree) (id : Text) :
    Tracks wanted (f.load id host).2.1 (f.load id host).2.2.tree := by
  obtain ⟨log, hLoad⟩ := load_state id f host
  rw [hLoad]
  exact h.settled

/-- When files can be opened, a load gives the position in the file, or it fails because there is
nothing to be had from the file. -/
theorem Tracks.load_result (host : Host)
    (h : Tracks (fun name => (recordAt host.tree f.path).get? name) f host.tree)
    (hFault : host.faults.openFile = none) (id : Text) : ∃ result log,
    f.load id host = (result, f.settled host, { host with log }) ∧
      (result = .ok (((recordAt host.tree f.path).get? id).bind Json.toBool?) ∨
        (recordAt host.tree f.path = [] ∧ ∃ e, result = .error e ∧
          (e.isPersistence = true ∨ e.isFromSystem = true))) := by
  obtain ⟨result, log, hLoad, hResult⟩ := f.load_spec id host
  refine ⟨result, log, hLoad, ?_⟩
  rcases hResult with ⟨hLoaded, rfl⟩ | ⟨_, hNothing, hError⟩
  · have hHeld : (f.settled host).data.get? id = (recordAt host.tree f.path).get? id :=
      h.settled.2 hLoaded id
    exact .inl (by rw [hHeld])
  · refine .inr ⟨?_, hError⟩
    cases hAttempt : f.attempt host with
    | none => exact recordAt_of_unread h.1.reaches hFault hAttempt
    | some r => rw [recordAt_of_attempt h.1.reaches hAttempt, hNothing r hAttempt]

def also (id : Text) (value : Json) (wanted : Text → Option Json) : Text → Option Json :=
  fun name => if name = id then some value else wanted name

theorem Follows.pend (h : Follows wanted f t) {id : Text} (hId : id.Encodable) (value : Bool) :
    Follows (also id value wanted) (f.pend id value) t := by
  refine ⟨h.reaches, h.storable, storable_put h.pending hId value, ?_, h.askable⟩
  intro name
  change ((f.pending.put id (.bool value)).get? name).or _ = also id (.bool value) wanted name
  rw [Record.get?_put, also, ← h.stored]
  split
  · rfl
  · rfl

theorem Follows.writeOut (h : Follows wanted f host.tree) {id : Text} (hId : id.Encodable)
    {value : Bool} (hLoaded : f.loaded = true)
    (hHeld : ∀ name, (f.data.put id (.bool value)).get? name = wanted name) :
    Tracks wanted (f.writeOut id value host).2.1 (f.writeOut id value host).2.2.tree ∧
      ((f.writeOut id value host).1 = .ok () → (f.writeOut id value host).2.1.pending = [] ∧
        ∃ contents, (f.writeOut id value host).2.2.tree.read f.path = .ok contents ∧
          decode contents = .record (f.writeOut id value host).2.1.data) := by
  have hStorable := storable_put h.storable hId value
  obtain ⟨tree, log, ⟨e, hWrite, hGrows⟩ | ⟨hWrite, hTaken, hExtends⟩⟩ :=
    writeOut_spec id value f host (h.askable hLoaded)
  · rw [hWrite]
    have hTree := h.extends hGrows trivial
    exact ⟨⟨⟨hTree.reaches, hStorable, h.pending, hTree.stored, h.askable⟩, fun _ => hHeld⟩, nofun⟩
  · rw [hWrite]
    have hRecord : recordAt tree f.path = f.data.put id (.bool value) := by
      rw [recordAt_of_file hTaken, decode_encode hStorable]
      rfl
    refine ⟨⟨⟨reaches_of_file hTaken, hStorable, storable_nil, ?_, h.askable⟩, fun _ => hHeld⟩,
      fun _ => ⟨rfl, encode (f.data.put id (.bool value)), ?_, ?_⟩⟩
    · intro name
      rw [← hHeld name, ← hRecord]
      rfl
    · exact read_eq_ok_iff.mpr hTaken
    · exact decode_encode hStorable

theorem Tracks.save (host : Host) (h : Tracks wanted f host.tree) {id : Text}
    (hId : id.Encodable) (value : Bool) :
    Tracks (also id value wanted) (f.save id value host).2.1 (f.save id value host).2.2.tree ∧
      ((f.save id value host).1 = .ok () → (f.save id value host).2.1.pending = [] ∧
        ∃ contents, (f.save id value host).2.2.tree.read f.path = .ok contents ∧
          decode contents = .record (f.save id value host).2.1.data) := by
  have hPended := h.1.pend hId value
  rcases save_cases id value f host with ⟨e, log, hSave, hBefore, _⟩ | ⟨log, hSave, hLoaded⟩
  · rw [hSave]
    exact ⟨⟨hPended, fun hAfter => absurd (hBefore.symm.trans hAfter) Bool.false_ne_true⟩, nofun⟩
  · have hHeld : ∀ name, (((f.pend id value).settled host).data.put id (.bool value)).get? name =
        also id value wanted name := by
      intro name
      rw [Record.get?_put]
      by_cases hName : name = id
      · rw [if_pos hName, also, if_pos hName]
      · rw [if_neg hName]
        refine hPended.held_settled (fun hBefore => ?_) hLoaded
        rw [also, if_neg hName]
        exact h.2 hBefore name
    have hSettled : Follows (also id value wanted) ((f.pend id value).settled host)
        { host with log }.tree := hPended.settled
    have hWrite := hSettled.writeOut hId hLoaded hHeld
    rw [path_settled, path_pend] at hWrite
    rw [hSave]
    exact hWrite

/-! ## Whole runs -/

theorem saves_append (before after : List Event) :
    saves (before ++ after) = saves before ++ saves after :=
  List.filterMap_append

theorem expected_save (initial : Record Text Json) (events : List Event) (id : Text) (value : Bool)
    (faults : Faults) : expected initial (events ++ [.call (.save id value) faults]) =
      also id value (expected initial events) := by
  funext name
  rw [expected, saves_append, List.reverse_append, Record.get?_append]
  change ((Record.get? [(id, Json.bool value)] name).or _).or _ = _
  rw [Record.get?_cons, also, expected]
  split
  · rfl
  · rfl

theorem expected_quiet (initial : Record Text Json) (events : List Event) {event : Event}
    (h : saves [event] = []) : expected initial (events ++ [event]) = expected initial events := by
  funext name
  rw [expected, saves_append, h, List.append_nil, expected]

theorem run_append_singleton (events : List Event) (event : Event) (s : RecordFile × Host) :
    run (events ++ [event]) s = event.apply (run events s) :=
  List.foldl_concat ..

theorem path_loadAll (f : RecordFile) (host : Host) : (f.loadAll host).2.1.path = f.path := by
  obtain ⟨result, log, hLoad, _⟩ := f.loadAll_spec host
  rw [hLoad]
  dsimp only
  split <;> rfl

theorem path_writeOut (id : Text) (value : Json) (f : RecordFile) (host : Host) :
    (f.writeOut id value host).2.1.path = f.path := by
  rw [writeOut]
  dsimp only
  split
  · rfl
  · split <;> rfl

theorem path_save (id : Text) (value : Json) (f : RecordFile) (host : Host) :
    (f.save id value host).2.1.path = f.path := by
  rcases save_cases id value f host with ⟨e, log, hSave, _⟩ | ⟨log, hSave, _⟩
  · rw [hSave]
    rfl
  · rw [hSave, path_writeOut, path_settled, path_pend]

theorem path_apply (event : Event) (s : RecordFile × Host) :
    (event.apply s).1.path = s.1.path := by
  cases event with
  | outside tree => rfl
  | call action faults =>
    cases action with
    | loadAll => exact path_loadAll s.1 _
    | load id =>
      obtain ⟨log, hLoad⟩ := load_state id s.1 (underFaults faults s.2)
      exact (congrArg (fun t => t.1.path) hLoad).trans (path_settled s.1 _)
    | save id value => exact path_save id value s.1 _

theorem path_run (events : List Event) (s : RecordFile × Host) :
    (run events s).1.path = s.1.path := by
  induction events generalizing s with
  | nil => rfl
  | cons event rest ih => exact (ih (event.apply s)).trans (path_apply event s)

theorem tracks_run {directory : FilePath} {host : Host} {initial : Record Text Json}
    (hInitially : Initially host.tree (RecordFile.path { directory }) initial)
    {events : List Event} (hAlone : ∀ tree, .outside tree ∉ events)
    (hIds : ∀ pair ∈ saves events, pair.1.Encodable) :
    Tracks (expected initial events) (run events ({ directory }, host)).1
      (run events ({ directory }, host)).2.tree := by
  -- from the end, since what is expected goes by the latest saves
  induction events using List.reverseRecOn with
  | nil => exact hInitially.tracks
  | append_singleton events event ih =>
    have hBefore := ih (fun tree hTree => hAlone tree (List.mem_append_left _ hTree))
      (fun pair hPair => hIds pair (by rw [saves_append]; exact List.mem_append_left _ hPair))
    rw [run_append_singleton]
    generalize run events ({ directory }, host) = s at hBefore ⊢
    cases event with
    | outside tree => exact absurd (List.mem_append_right _ List.mem_cons_self) (hAlone tree)
    | call action faults =>
      cases action with
      | loadAll =>
        rw [expected_quiet initial events rfl]
        exact hBefore.loadAll (underFaults faults s.2)
      | load id =>
        rw [expected_quiet initial events rfl]
        exact hBefore.load (underFaults faults s.2) id
      | save id value =>
        have hId : id.Encodable := by
          refine hIds (id, .bool value) ?_
          rw [saves_append]
          exact List.mem_append_right _ List.mem_cons_self
        rw [expected_save]
        exact (hBefore.save (underFaults faults s.2) hId value).1

/-- No value that was ever passed to a save is lost: whenever a save succeeds, the file maps every
name saved so far to the last value passed for it, also where that save had failed, and every other
name to what it was mapped to in the beginning. -/
theorem save_writes_every_value (directory : FilePath) (host : Host) (initial : Record Text Json)
    (hInitially : Initially host.tree (RecordFile.path { directory }) initial)
    (events : List Event) (hAlone : ∀ tree, .outside tree ∉ events) (id : Text) (value : Bool)
    (faults : Faults)
    (hIds : ∀ pair ∈ saves (events ++ [.call (.save id value) faults]), pair.1.Encodable)
    (hOk : ((run events ({ directory }, host)).1.save id value
      (underFaults faults (run events ({ directory }, host)).2)).1 = .ok ()) :
    ∃ contents r,
      (run (events ++ [.call (.save id value) faults]) ({ directory }, host)).2.tree.read
        (RecordFile.path { directory }) = .ok contents ∧
      decode contents = .record r ∧
      ∀ name, r.get? name =
        (Record.get? (saves (events ++ [.call (.save id value) faults])).reverse name).or
          (initial.get? name) := by
  have hBefore := tracks_run hInitially hAlone
    (fun pair hPair => hIds pair (by rw [saves_append]; exact List.mem_append_left _ hPair))
  have hId : id.Encodable := by
    refine hIds (id, .bool value) ?_
    rw [saves_append]
    exact List.mem_append_right _ List.mem_cons_self
  rw [run_append_singleton]
  have hPath := path_run events ({ directory }, host)
  generalize run events ({ directory }, host) = s at hBefore hOk hPath ⊢
  obtain ⟨⟨hFollows, _⟩, hWritten⟩ := hBefore.save (underFaults faults s.2) hId value
  obtain ⟨hPending, contents, hRead, hDecode⟩ := hWritten hOk
  have hStored := hFollows.get?_recordAt hPending
  rw [path_save, recordAt_of_file (read_eq_ok_iff.mp hRead), hDecode] at hStored
  rw [hPath] at hRead
  refine ⟨contents, _, hRead, hDecode, fun name => ?_⟩
  rw [← expected, expected_save]
  exact hStored name

def hostHolding (contents : Bytes) : Host :=
  .sample [(⟨"/", ["c"]⟩, .directory), (⟨"/", ["c", "settings.json"]⟩, .file contents)]

theorem exists_ok_of_isOk {α : Type} {result : Except Failure α} (h : result.isOk = true) :
    ∃ a, result = .ok a := by
  cases result with
  | ok a => exact ⟨a, rfl⟩
  | error e => cases h

theorem eq_ok_of_isOk {result : Except Failure Unit} (h : result.isOk = true) : result = .ok () := by
  obtain ⟨_, hResult⟩ := exists_ok_of_isOk h
  exact hResult

def failedSave : Event := .call (.save "b" true) { replaceFile := some "disk full" }

/-- The value of a save that failed is in the file that the next save writes. -/
theorem save_writes_failed_value :
    ∃ contents r,
      (run ([failedSave] ++ [.call (.save "c" false) {}])
        ({ directory := ⟨"/", ["c"]⟩ }, Host.sample [])).2.tree.read
          (RecordFile.path { directory := ⟨"/", ["c"]⟩ }) = .ok contents ∧
      decode contents = .record r ∧ ∀ name, r.get? name =
        (Record.get? (saves ([failedSave] ++ [.call (.save "c" false) {}])).reverse name).or
          (Record.get? [] name) := by
  refine save_writes_every_value ⟨"/", ["c"]⟩ (Host.sample []) [] (.absent ?_) [failedSave] ?_ "c"
    false {}
    ?_ (eq_ok_of_isOk ?_)
  · decide +kernel
  · simp [failedSave]
  · decide +kernel
  · decide +kernel

end Switchboard.RecordFile

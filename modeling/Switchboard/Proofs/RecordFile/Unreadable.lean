import Switchboard.Proofs.RecordFile.Rewriting

/-!
# Unreadable settings files

Here others may write the settings file between any two calls. After an attempt to read it has
failed, the keeper leaves it alone until an attempt settles, provided that none had settled before.
A keeper that has read the file once never learns that reading it again has failed, and the next
save writes what it remembers over the file.
-/

namespace Switchboard.RecordFile

open FileTree

def Call.reads : Call → RecordFile → Bool
  | loadAll, _ => true
  | load _, f => !f.loaded
  | save _ _, f => !f.loaded

/-- An attempt to read that settles is made. -/
def Event.Settles : Event → RecordFile × Host → Prop
  | call action faults, s =>
    action.reads s.1 = true ∧ (s.1.attempt (underFaults faults s.2)).isSome = true
  | outside _, _ => False

def SettlesIn : RecordFile × Host → List Event → Prop
  | _, [] => False
  | s, event :: rest => event.Settles s ∨ SettlesIn (event.apply s) rest

instance (event : Event) (s : RecordFile × Host) : Decidable (event.Settles s) :=
  match event with
  | .call action _ => inferInstanceAs (Decidable (action.reads s.1 = true ∧ _))
  | .outside _ => inferInstanceAs (Decidable False)

instance decidableSettlesIn : ∀ (s : RecordFile × Host) (events : List Event),
    Decidable (SettlesIn s events)
  | _, [] => inferInstanceAs (Decidable False)
  | s, event :: rest =>
    have := decidableSettlesIn (event.apply s) rest
    inferInstanceAs (Decidable (event.Settles s ∨ SettlesIn (event.apply s) rest))

/-- After an event no save changes the settings file until an attempt to read it settles. -/
def LeavesAlone (s : RecordFile × Host) (event : Event) : Prop :=
  ∀ after id value faults, ¬ SettlesIn s (event :: after ++ [.call (.save id value) faults]) →
    (run (event :: after ++ [.call (.save id value) faults]) s).2.tree.read s.1.path =
      (run (event :: after) s).2.tree.read s.1.path

variable {f : RecordFile} {host : Host} {s : RecordFile × Host}

/-! ## When the file counts as read -/

theorem loaded_loadAll (f : RecordFile) (host : Host) :
    (f.loadAll host).2.1.loaded = (f.loaded || (f.attempt host).isSome) := by
  obtain ⟨result, log, hLoad, _⟩ := f.loadAll_spec host
  rw [hLoad]
  cases hAttempt : f.attempt host with
  | none => exact (Bool.or_false _).symm
  | some r => exact (Bool.or_true _).symm

theorem writeOut_keeper (id : Text) (value : Json) (f : RecordFile) (host : Host) :
    ∃ pending, (f.writeOut id value host).2.1 = { f with data := f.data.put id value, pending } ∧
      (pending = f.pending ∨ pending = []) := by
  rw [writeOut]
  dsimp only
  split
  · exact ⟨[], rfl, .inr rfl⟩
  · split
    · exact ⟨f.pending, rfl, .inl rfl⟩
    · exact ⟨f.pending, rfl, .inl rfl⟩

theorem loaded_save (id : Text) (value : Json) (f : RecordFile) (host : Host) :
    (f.save id value host).2.1.loaded = (f.loaded || (f.attempt host).isSome) := by
  rcases save_cases id value f host with
    ⟨e, log, hSave, hBefore, hAttempt⟩ | ⟨log, hSave, hLoaded⟩
  · rw [hSave, hAttempt]
    exact hBefore.trans (by rw [hBefore]; rfl)
  · obtain ⟨pending, hKeeper, _⟩ :=
      writeOut_keeper id value ((f.pend id value).settled host) { host with log }
    rw [hSave, hKeeper]
    exact loaded_settled (f.pend id value) host

theorem loaded_apply (event : Event) (s : RecordFile × Host) :
    (event.apply s).1.loaded = true ↔ s.1.loaded = true ∨ event.Settles s := by
  have hOnce : ∀ faults, (s.1.loaded || (s.1.attempt (underFaults faults s.2)).isSome) = true ↔
      s.1.loaded = true ∨
        ((!s.1.loaded) = true ∧ (s.1.attempt (underFaults faults s.2)).isSome = true) := by
    intro faults
    cases s.1.loaded <;> simp
  cases event with
  | outside tree => simp [Event.apply, Event.Settles]
  | call action faults =>
    cases action with
    | loadAll =>
      change ((s.1.loadAll (underFaults faults s.2)).2.1.loaded = true) ↔ _
      rw [loaded_loadAll, Bool.or_eq_true]
      simp [Event.Settles, Call.reads]
    | load id =>
      obtain ⟨log, hLoad⟩ := load_state id s.1 (underFaults faults s.2)
      change ((s.1.load id (underFaults faults s.2)).2.1.loaded = true) ↔ _
      rw [hLoad, loaded_settled]
      exact hOnce faults
    | save id value =>
      change ((s.1.save id value (underFaults faults s.2)).2.1.loaded = true) ↔ _
      rw [loaded_save]
      exact hOnce faults

theorem loaded_run (events : List Event) (s : RecordFile × Host) :
    (run events s).1.loaded = true ↔ s.1.loaded = true ∨ SettlesIn s events := by
  -- over the events; nothing takes it back that the file counts as read
  induction events generalizing s with
  | nil => simp [run, SettlesIn]
  | cons event rest ih =>
    change (run rest (event.apply s)).1.loaded = true ↔ _
    rw [ih, loaded_apply, SettlesIn, or_assoc]

theorem settlesIn_append (before after : List Event) (s : RecordFile × Host) :
    SettlesIn s (before ++ after) ↔ SettlesIn s before ∨ SettlesIn (run before s) after := by
  induction before generalizing s with
  | nil => simp [SettlesIn, run]
  | cons event rest ih =>
    change event.Settles s ∨ SettlesIn (event.apply s) (rest ++ after) ↔
      (event.Settles s ∨ SettlesIn (event.apply s) rest) ∨ SettlesIn (run rest (event.apply s)) after
    rw [ih, or_assoc]

/-! ## Saves of an unread file -/

theorem tree_save_of_unsettled (id : Text) (value : Json) (hLoaded : f.loaded = false)
    (hAttempt : f.attempt host = none) : (f.save id value host).2.2.tree = host.tree := by
  obtain ⟨log, _, hUnwritten⟩ := save_spec id value f host
  have hUnsettled : ((f.pend id value).settled host).loaded = false := by
    rw [loaded_settled, attempt_pend, hAttempt]
    exact (Bool.or_false _).trans hLoaded
  obtain ⟨e, hSave⟩ := hUnwritten hUnsettled
  rw [hSave]

theorem not_settles_of_fault (action : Call) {faults : Faults} {message : Text} {contents : Bytes}
    (hFile : s.2.tree.read s.1.path = .ok contents) (hFault : faults.openFile = some message) :
    s.1.reading (underFaults faults s.2) = .ok (.unreadable (.device message)) ∧
      ¬ (Event.call action faults).Settles s := by
  have hReading : s.1.reading (underFaults faults s.2) = .ok (.unreadable (.device message)) := by
    rw [reading_eq]
    simp only [underFaults, read_eq_ok_iff.mp hFile, hFault]
  refine ⟨hReading, fun hSettles => ?_⟩
  have hSome := hSettles.2
  rw [attempt, hReading] at hSome
  cases hSome

/-! ## Pending values -/

/-- Whatever is pending is part of the record in memory, once the file has been read. -/
structure Remembers (f : RecordFile) : Prop where
  nodup : (Record.names f.pending).Nodup
  held : f.loaded = true → ∀ name value, f.pending.get? name = some value →
    f.data.get? name = some value
  askable : f.loaded = true → f.Askable

theorem Remembers.adopt (h : Remembers f) {r : Record Text Json}
    (hAttempt : f.attempt host = some r) : Remembers (f.adopt r) := by
  refine ⟨h.nodup, fun _ name value hPending => ?_, fun _ => askable_of_attempt hAttempt⟩
  change (r.putAll f.pending).get? name = some value
  change f.pending.get? name = some value at hPending
  rw [Record.get?_putAll_of_nodup r h.nodup, hPending]
  rfl

theorem Remembers.settled (h : Remembers f) (host : Host) : Remembers (f.settled host) := by
  rw [RecordFile.settled]
  split
  · exact h
  · split
    · rename_i r hAttempt
      exact h.adopt hAttempt
    · exact h

theorem Remembers.held_settled_pend (h : Remembers f) {id name : Text} {value old : Json}
    (hName : name ≠ id) (hOld : f.pending.get? name = some old)
    (hLoaded : ((f.pend id value).settled host).loaded = true) :
    ((f.pend id value).settled host).data.get? name = some old := by
  have hPending : (f.pending.put id value).get? name = some old := by
    rw [Record.get?_put, if_neg hName, hOld]
  unfold RecordFile.settled at hLoaded ⊢
  split at hLoaded
  · rename_i hBefore
    rw [if_pos hBefore]
    exact h.held hBefore name old hOld
  · rename_i hBefore
    rw [if_neg hBefore]
    split at hLoaded
    · rename_i r hAttempt
      change (r.putAll (f.pending.put id value)).get? name = some old
      rw [Record.get?_putAll_of_nodup r (Record.nodup_names_put h.nodup id value), hPending]
      rfl
    · exact absurd hLoaded hBefore

theorem Remembers.save (h : Remembers f) (id : Text) (value : Json) (host : Host) :
    Remembers (f.save id value host).2.1 := by
  have hNodup := Record.nodup_names_put h.nodup id value
  rcases save_cases id value f host with ⟨e, log, hSave, hBefore, _⟩ | ⟨log, hSave, hLoaded⟩
  · rw [hSave]
    exact ⟨hNodup, fun hAfter => absurd (hBefore.symm.trans hAfter) Bool.false_ne_true,
      fun hAfter => absurd (hBefore.symm.trans hAfter) Bool.false_ne_true⟩
  · have hAskable : ((f.pend id value).settled host).Askable := askable_settled h.askable hLoaded
    have hPended : ((f.pend id value).settled host).pending = f.pending.put id value :=
      pending_settled (f.pend id value) host
    obtain ⟨pending, hKeeper, hPending⟩ :=
      writeOut_keeper id value ((f.pend id value).settled host) { host with log }
    rw [hSave, hKeeper]
    rcases hPending with rfl | rfl
    · refine ⟨hPended ▸ hNodup, fun _ name old hOld => ?_, fun _ => hAskable⟩
      change ((f.pend id value).settled host).pending.get? name = some old at hOld
      rw [hPended, Record.get?_put] at hOld
      change (((f.pend id value).settled host).data.put id value).get? name = some old
      rw [Record.get?_put]
      split at hOld
      · rename_i hName
        rw [if_pos hName, hOld]
      · rename_i hName
        rw [if_neg hName]
        exact h.held_settled_pend hName hOld hLoaded
    · refine ⟨by simp, fun _ name old hOld => ?_, fun _ => hAskable⟩
      cases hOld

theorem Remembers.apply {s : RecordFile × Host} (h : Remembers s.1) (event : Event) :
    Remembers (event.apply s).1 := by
  cases event with
  | outside tree => exact h
  | call action faults =>
    cases action with
    | loadAll =>
      obtain ⟨result, log, hLoad, _⟩ := s.1.loadAll_spec (underFaults faults s.2)
      change Remembers (s.1.loadAll (underFaults faults s.2)).2.1
      rw [hLoad]
      dsimp only
      split
      · rename_i r hAttempt
        exact h.adopt hAttempt
      · exact h
    | load id =>
      obtain ⟨log, hLoad⟩ := load_state id s.1 (underFaults faults s.2)
      change Remembers (s.1.load id (underFaults faults s.2)).2.1
      rw [hLoad]
      exact h.settled _
    | save id value => exact h.save id value _

theorem remembers_run {events : List Event} {s : RecordFile × Host} (h : Remembers s.1) :
    Remembers (run events s).1 := by
  induction events generalizing s with
  | nil => exact h
  | cons event rest ih => exact ih (h.apply event)

theorem remembers_new (directory : FilePath) : Remembers { directory } :=
  ⟨by simp, nofun, nofun⟩

theorem pending_apply {event : Event} (h : saves [event] = []) (s : RecordFile × Host) :
    (event.apply s).1.pending = s.1.pending := by
  cases event with
  | outside tree => rfl
  | call action faults =>
    cases action with
    | loadAll =>
      obtain ⟨result, log, hLoad, _⟩ := s.1.loadAll_spec (underFaults faults s.2)
      change (s.1.loadAll (underFaults faults s.2)).2.1.pending = _
      rw [hLoad]
      dsimp only
      split <;> rfl
    | load id =>
      obtain ⟨log, hLoad⟩ := load_state id s.1 (underFaults faults s.2)
      change (s.1.load id (underFaults faults s.2)).2.1.pending = _
      rw [hLoad]
      exact pending_settled s.1 _
    | save id value => cases h

theorem pending_run {events : List Event} (h : saves events = []) (s : RecordFile × Host) :
    (run events s).1.pending = s.1.pending := by
  induction events generalizing s with
  | nil => rfl
  | cons event rest ih =>
    have hSplit : saves [event] ++ saves rest = [] := by rw [← saves_append]; exact h
    obtain ⟨hFirst, hRest⟩ := List.append_eq_nil_iff.mp hSplit
    exact (ih hRest (event.apply s)).trans (pending_apply hFirst s)

theorem Remembers.written (h : Remembers f) {id name : Text} {value old : Json}
    (hPending : f.pending.get? name = some old) (hOk : (f.save id value host).1 = .ok ()) :
    ∃ r, (f.save id value host).2.2.tree.read f.path = .ok (encode r) ∧
      r.get? name = some (if name = id then value else old) := by
  rcases save_cases id value f host with ⟨e, log, hSave, _⟩ | ⟨log, hSave, hLoaded⟩
  · rw [hSave] at hOk
    cases hOk
  · have hAskable : ((f.pend id value).settled host).Askable := askable_settled h.askable hLoaded
    rw [hSave] at hOk ⊢
    obtain ⟨tree, later, ⟨e, hWrite, _⟩ | ⟨hWrite, hTaken, _⟩⟩ :=
      writeOut_spec id value ((f.pend id value).settled host) { host with log } hAskable
    · rw [hWrite] at hOk
      cases hOk
    · rw [path_settled, path_pend] at hTaken
      rw [hWrite]
      refine ⟨_, read_eq_ok_iff.mpr hTaken, ?_⟩
      rw [Record.get?_put]
      by_cases hName : name = id
      · rw [if_pos hName, if_pos hName]
      · rw [if_neg hName, if_neg hName]
        exact h.held_settled_pend hName hPending hLoaded

/-! ## The file that could not be read -/

/-- A keeper that has read the file once overwrites a file of any contents. -/
theorem exists_save_overwriting {contents : Bytes} (hLoaded : f.loaded = true) (host : Host)
    (hFaults : host.faults = {}) (hRoom : ¬ Host.TemporaryTooLong f.directory)
    (hRead : host.tree.read f.path = .ok contents) :
    ∃ id, (f.save id (.bool true) host).2.2.tree.read f.path ≠ host.tree.read f.path := by
  have hFile := read_eq_ok_iff.mp hRead
  have hAskable : f.Askable := by
    intro hLong
    obtain ⟨_, hShort, _⟩ :=
      leads_of_occupancy (names_ne_nil_of_occupancy_file hFile) hFile (.inl ⟨_, rfl⟩)
    exact absurd hLong hShort
  -- a name longer than the whole file
  refine ⟨List.replicate (contents.length + 1) 0, ?_⟩
  generalize hId : List.replicate (contents.length + 1) (0 : CodePoint) = id
  obtain ⟨log, hWritten, _⟩ := save_spec id (.bool true) f host
  have hSettled : (f.pend id (.bool true)).settled host = f.pend id (.bool true) := by
    rw [settled, loaded_pend, if_pos hLoaded]
  rw [hSettled] at hWritten
  rw [hWritten hLoaded]
  have hOk := writeOut_of_file id (.bool true) (f.pend id (.bool true)) { host with log } hFaults
    hRoom
    hFile
  obtain ⟨tree, later, ⟨e, hWrite, _⟩ | ⟨hWrite, hTaken, _⟩⟩ :=
    writeOut_spec id (.bool true) (f.pend id (.bool true)) { host with log } hAskable
  · rw [hWrite] at hOk
    cases hOk
  · rw [path_pend] at hTaken
    rw [hWrite, hRead]
    dsimp only
    rw [read_eq_ok_iff.mpr hTaken]
    intro hSame
    have hName : id ∈ Record.names ((f.pend id (.bool true)).data.put id (.bool true)) := by
      rw [← not_not (a := id ∈ _), ← Record.get?_eq_none_iff, Record.get?_put, if_pos rfl]
      exact Option.some_ne_none _
    have hLength := length_name_le_encode hName
    rw [Except.ok.inj hSame, ← hId, List.length_replicate] at hLength
    omega

theorem save_of_failed_load {id : Text} {value : Json} {e : Failure} (hLoaded : f.loaded = false)
    (hLoad : (f.pend id value).loadAll host = (.error e, f.pend id value, host)) :
    f.save id value host = (.error e, f.pend id value, host) := by
  have hEnsure : (f.pend id value).ensureLoaded host = (.error e, f.pend id value, host) := by
    rw [ensureLoaded, loaded_pend, hLoaded, hLoad]
    rfl
  rw [save_of_ensureLoaded_error hEnsure, loaded_pend, hLoaded, if_neg (by simp)]

theorem save_of_unreadable {e : FileError} (hLoaded : f.loaded = false)
    (hReading : f.reading host = .ok (.unreadable e)) (id : Text) (value : Json) :
    (f.save id value host).1 = .error (f.failure "read" e.message (some (.file e))) ∧
      (f.save id value host).2.1 = f.pend id value := by
  have hPended : (f.pend id value).reading host = .ok (.unreadable e) := hReading
  have hLoad : (f.pend id value).loadAll host =
      (.error (f.failure "read" e.message (some (.file e))), f.pend id value, host) := by
    rw [loadAll, hPended]
    rfl
  rw [save_of_failed_load hLoaded hLoad]
  exact ⟨rfl, rfl⟩

theorem attempt_of_not_settlesIn {id : Text} {value : Bool} {faults : Faults}
    (hLoaded : s.1.loaded = false) (h : ¬ SettlesIn s [.call (.save id value) faults]) :
    s.1.attempt (underFaults faults s.2) = none := by
  cases hAttempt : s.1.attempt (underFaults faults s.2) with
  | none => rfl
  | some r =>
    refine absurd (.inl ⟨?_, ?_⟩) h
    · change (!s.1.loaded) = true
      rw [hLoaded]
      rfl
    · rw [hAttempt]
      rfl

theorem exists_run_overwriting {action : Call} {faults : Faults} {message : Text}
    {contents : Bytes} (hLoaded : s.1.loaded = true) (hReads : action.reads s.1 = true)
    (hRoom : ¬ Host.TemporaryTooLong s.1.directory)
    (hFile : s.2.tree.read s.1.path = .ok contents) (hFault : faults.openFile = some message) :
    ∃ id, ¬ SettlesIn s [.call action faults, .call (.save id true) {}] ∧
      (run [.call action faults, .call (.save id true) {}] s).2.tree.read s.1.path ≠
        (run [.call action faults] s).2.tree.read s.1.path := by
  have hOnce : (!s.1.loaded) = false := by rw [hLoaded]; rfl
  cases action with
  | load id =>
    change (!s.1.loaded) = true at hReads
    rw [hOnce] at hReads
    cases hReads
  | save id value =>
    change (!s.1.loaded) = true at hReads
    rw [hOnce] at hReads
    cases hReads
  | loadAll =>
    obtain ⟨_, hFails⟩ := not_settles_of_fault .loadAll hFile hFault
    have hLater : ((Event.call .loadAll faults).apply s).1.loaded = true :=
      (loaded_apply _ s).mpr (.inl hLoaded)
    have hPath := path_apply (.call .loadAll faults) s
    have hTree : ((Event.call .loadAll faults).apply s).2.tree = s.2.tree := by
      obtain ⟨result, log, hLoad, _⟩ := s.1.loadAll_spec (underFaults faults s.2)
      change (s.1.loadAll (underFaults faults s.2)).2.2.tree = _
      rw [hLoad]
      rfl
    have hRead : ((Event.call .loadAll faults).apply s).2.tree.read
        ((Event.call .loadAll faults).apply s).1.path = .ok contents := by
      rw [hPath, hTree]
      exact hFile
    obtain ⟨id, hChanged⟩ := exists_save_overwriting hLater
      (underFaults {} ((Event.call .loadAll faults).apply s).2) rfl
      (directory_eq_of_path hPath ▸ hRoom) hRead
    rw [hPath] at hChanged
    refine ⟨id, ?_, hChanged⟩
    rintro (hFirst | hSecond | hNothing)
    · exact hFails hFirst
    · have hReadsAgain : (!((Event.call .loadAll faults).apply s).1.loaded) = true := hSecond.1
      rw [hLater] at hReadsAgain
      cases hReadsAgain
    · exact hNothing

/-- A file that could not be read is left alone by every save, until an attempt to read it settles,
when none had settled before. Otherwise a save can overwrite it, if the path of a temporary file is
not too long. A save that could not read it fails in words of the keeper, and the next save that
succeeds writes its value. -/
theorem unreadable_file_kept_iff (directory : FilePath) (host : Host) (before : List Event)
    (s : RecordFile × Host) (hRun : run before ({ directory }, host) = s) (action : Call)
    (faults : Faults) (message : Text) (contents : Bytes) (hReads : action.reads s.1 = true)
    (hFile : s.2.tree.read s.1.path = .ok contents) (hFault : faults.openFile = some message) :
    (¬ SettlesIn ({ directory }, host) before → LeavesAlone s (.call action faults)) ∧
    (¬ Host.TemporaryTooLong directory →
      (LeavesAlone s (.call action faults) ↔ ¬ SettlesIn ({ directory }, host) before)) ∧
    ∀ id value, action = .save id value →
      (s.1.save id value (underFaults faults s.2)).1 =
        .error (.persistence ("Failed to read " ++ s.1.path.toText ++ ": " ++ message)
          (some (.file (.device message)))) ∧
      ∀ between other next later, saves between = [] → ∀ t,
        run (.call action faults :: between) s = t →
        (t.1.save other (.bool next) (underFaults later t.2)).1 = .ok () →
        ∃ r, (t.1.save other (.bool next) (underFaults later t.2)).2.2.tree.read s.1.path =
            .ok (encode r) ∧
          r.get? id = some (.bool (if id = other then next else value)) := by
  have hLoaded : s.1.loaded = true ↔ SettlesIn ({ directory }, host) before := by
    rw [← hRun, loaded_run]
    simp
  obtain ⟨hReading, hFails⟩ := not_settles_of_fault action hFile hFault
  have hAlone : ¬ SettlesIn ({ directory }, host) before → LeavesAlone s (.call action faults) := by
    intro hUnread after id value later hQuiet
    rw [settlesIn_append, not_or] at hQuiet
    have hUnloaded : (run (.call action faults :: after) s).1.loaded = false := by
      rw [Bool.eq_false_iff, ne_eq, loaded_run, hLoaded]
      exact not_or.mpr ⟨hUnread, hQuiet.1⟩
    rw [run_append_singleton]
    generalize run (.call action faults :: after) s = t at hUnloaded hQuiet ⊢
    have hAttempt := attempt_of_not_settlesIn hUnloaded hQuiet.2
    exact congrArg (fun tree => FileTree.read tree s.1.path)
      (tree_save_of_unsettled id value hUnloaded hAttempt)
  refine ⟨hAlone, fun hRoom => ⟨?_, hAlone⟩, ?_⟩
  · -- a keeper that had read the file goes on to overwrite it at once
    intro hKept hSettled
    have hDirectory : s.1.directory = directory := by
      rw [← hRun]
      exact directory_eq_of_path (path_run before ({ directory }, host))
    obtain ⟨id, hQuiet, hChanged⟩ :=
      exists_run_overwriting (hLoaded.mpr hSettled) hReads (hDirectory ▸ hRoom) hFile hFault
    exact hChanged (hKept [] id true {} hQuiet)
  · rintro id value rfl
    have hUnloaded : s.1.loaded = false := by
      rw [← Bool.not_eq_true']
      exact hReads
    obtain ⟨hError, hKeeper⟩ := save_of_unreadable hUnloaded hReading id value
    refine ⟨hError, fun between other next later hQuiet t hLast hOk => ?_⟩
    have hRemembers : Remembers t.1 := by
      rw [← hLast, ← hRun]
      exact remembers_run (remembers_run (remembers_new directory))
    have hPath : t.1.path = s.1.path := by
      rw [← hLast]
      exact path_run _ s
    have hPending : t.1.pending.get? id = some (.bool value) := by
      rw [← hLast]
      change (run between ((Event.call (.save id value) faults).apply s)).1.pending.get? id = _
      rw [pending_run hQuiet]
      change (s.1.save id value (underFaults faults s.2)).2.1.pending.get? id = _
      rw [hKeeper]
      change (s.1.pending.put id (.bool value)).get? id = _
      rw [Record.get?_put, if_pos rfl]
    obtain ⟨r, hRead, hValue⟩ := hRemembers.written hPending hOk
    rw [hPath] at hRead
    refine ⟨r, hRead, hValue.trans ?_⟩
    split
    · rfl
    · rfl

def firstContents : Bytes :=
  Utf8.encodeLossy "\x7b\"a\": true\x7d"

def rewrittenContents : Bytes :=
  Utf8.encodeLossy "\x7b\"a\": true, \"b\": 1\x7d"

/-- A keeper that cannot read the file at its first attempt leaves it alone. -/
theorem unreadable_file_kept_at_first :
    LeavesAlone ({ directory := ⟨"/", ["c"]⟩ }, hostHolding firstContents)
      (.call .loadAll { openFile := some "Permission denied" }) :=
  (unreadable_file_kept_iff ⟨"/", ["c"]⟩ (hostHolding firstContents) [] _ rfl .loadAll
    { openFile := some "Permission denied" } "Permission denied" firstContents rfl
    (by decide +kernel) rfl).1 (by simp [SettlesIn])

/-- A keeper has read the file, others write it, and reading it again fails: the next save destroys
the entry that the others have made. -/
theorem reread_file_not_left_alone :
    ¬ LeavesAlone (run [.call .loadAll {}, .outside (hostHolding rewrittenContents).tree]
        ({ directory := ⟨"/", ["c"]⟩ }, hostHolding firstContents))
      (.call .loadAll { openFile := some "Permission denied" }) := by
  intro hAlone
  have hKept := hAlone [] "x" true { openFile := some "Permission denied" } (by decide +kernel)
  revert hKept
  decide +kernel

end Switchboard.RecordFile

import Switchboard.Proofs.RecordFile.Failing
import Switchboard.Proofs.RecordFile.Stored

/-!
# Reading back what was saved

A value that has been passed to a save is in the record in memory once the file has been read, and
it is pending or in the file. So the keeper gives it back, whether that save succeeded or not, until
another value is saved under the same name. Where it cannot give the value back it says so in its
own words, unless the path cannot even be asked about.
-/

namespace Switchboard.RecordFile

open FileTree

/-- The keeper's records are ones that the settings file can hold. -/
structure Fit (f : RecordFile) : Prop where
  data : Storable f.data
  pending : Storable f.pending
  askable : f.loaded = true → f.Askable

/-- A value is in the record in memory, if there is one, and it is pending or else in the file. -/
structure Recalls (id : Text) (value : Json) (f : RecordFile) (tree : FileTree) : Prop where
  held : f.loaded = true → f.data.get? id = some value
  kept : (f.pending.get? id).or (storedAt tree f.path id) = some value

variable {f : RecordFile} {host : Host} {s : RecordFile × Host} {id other : Text} {value : Json}
  {t u : FileTree}

/-! ## Records that the file can hold -/

theorem fit_new (directory : FilePath) : Fit { directory } :=
  ⟨storable_nil, storable_nil, nofun⟩

theorem Fit.adopt (h : Fit f) {r : Record Text Json} (hAttempt : f.attempt host = some r) :
    Fit (f.adopt r) :=
  ⟨storable_putAll (storable_of_attempt hAttempt) h.pending, h.pending, fun _ =>
    askable_of_attempt hAttempt⟩

theorem Fit.settled (h : Fit f) (host : Host) : Fit (f.settled host) := by
  rw [RecordFile.settled]
  split
  · exact h
  · split
    · rename_i r hAttempt
      exact h.adopt hAttempt
    · exact h

theorem Fit.pend (h : Fit f) (hId : id.Encodable) (b : Bool) : Fit (f.pend id (.bool b)) :=
  ⟨h.data, storable_put h.pending hId b, h.askable⟩

theorem Fit.writeOut (h : Fit f) (hId : id.Encodable) (b : Bool) (host : Host) :
    Fit (f.writeOut id (.bool b) host).2.1 := by
  have hData := storable_put h.data hId b
  obtain ⟨pending, hKeeper, rfl | rfl⟩ := writeOut_keeper id (.bool b) f host
  · rw [hKeeper]
    exact ⟨hData, h.pending, h.askable⟩
  · rw [hKeeper]
    exact ⟨hData, storable_nil, h.askable⟩

theorem Fit.save (h : Fit f) (hId : id.Encodable) (b : Bool) (host : Host) :
    Fit (f.save id (.bool b) host).2.1 := by
  have hPended := h.pend hId b
  rcases save_cases id (.bool b) f host with ⟨e, log, hSave, _⟩ | ⟨log, hSave, _⟩
  · rw [hSave]
    exact hPended
  · rw [hSave]
    exact (hPended.settled host).writeOut hId b _

theorem Fit.apply (h : Fit s.1) {event : Event}
    (hIds : ∀ pair ∈ saves [event], pair.1.Encodable) : Fit (event.apply s).1 := by
  cases event with
  | outside tree => exact h
  | call action faults =>
    cases action with
    | loadAll =>
      obtain ⟨result, log, hLoad, _⟩ := s.1.loadAll_spec (underFaults faults s.2)
      change Fit (s.1.loadAll (underFaults faults s.2)).2.1
      rw [hLoad]
      dsimp only
      split
      · rename_i r hAttempt
        exact h.adopt hAttempt
      · exact h
    | load id =>
      obtain ⟨log, hLoad⟩ := load_state id s.1 (underFaults faults s.2)
      change Fit (s.1.load id (underFaults faults s.2)).2.1
      rw [hLoad]
      exact h.settled _
    | save id b => exact h.save (hIds (id, .bool b) List.mem_cons_self) b _

theorem saves_cons (event : Event) (rest : List Event) :
    saves (event :: rest) = saves [event] ++ saves rest :=
  saves_append [event] rest

theorem Fit.run (h : Fit s.1) {events : List Event}
    (hIds : ∀ pair ∈ saves events, pair.1.Encodable) : Fit (run events s).1 := by
  induction events generalizing s with
  | nil => exact h
  | cons event rest ih =>
    rw [saves_cons, List.forall_mem_append] at hIds
    exact ih (h.apply hIds.1) hIds.2

/-! ## What the file keeps -/

theorem storedAt_of_written {path : FilePath} {r : Record Text Json}
    (hTaken : t.occupancy path = .taken (.file (encode r))) (hStorable : Storable r) (id : Text) :
    storedAt t path id = r.get? id := by
  refine (get?_of_decode ?_ id (read_eq_ok_iff.mpr hTaken)).symm
  rw [decode_encode hStorable]
  rfl

theorem storedAt_of_grows {path : FilePath} (h : Grows t u)
    (hStored : storedAt t path id = some value) : storedAt u path id = some value := by
  rw [storedAt] at hStored ⊢
  cases hRead : t.read path with
  | error e =>
    rw [hRead] at hStored
    cases hStored
  | ok contents =>
    rw [hRead] at hStored
    rw [read_eq_ok_iff.mpr (h.occupancy_kept trivial (read_eq_ok_iff.mp hRead))]
    exact hStored

theorem kept_of_grows {path : FilePath} {pending : Option Json} (h : Grows t u)
    (hKept : pending.or (storedAt t path id) = some value) :
    pending.or (storedAt u path id) = some value := by
  cases pending with
  | some _ => exact hKept
  | none => exact storedAt_of_grows h hKept

/-! ## Steps of the keeper -/

theorem Recalls.adopt (h : Recalls id value f host.tree) (hFit : Fit f) {r : Record Text Json}
    (hAttempt : f.attempt host = some r) : Recalls id value (f.adopt r) host.tree := by
  refine ⟨fun _ => ?_, h.kept⟩
  change (r.putAll f.pending).get? id = some value
  rw [Record.get?_putAll_of_nodup r hFit.pending.nodup, (get?_of_attempt hAttempt).1 id]
  exact h.kept

theorem Recalls.settled (h : Recalls id value f host.tree) (hFit : Fit f) :
    Recalls id value (f.settled host) host.tree := by
  rw [RecordFile.settled]
  split
  · exact h
  · split
    · rename_i r hAttempt
      exact h.adopt hFit hAttempt
    · exact h

theorem recalls_writeOut (hFit : Fit f) (hOther : other.Encodable) {b : Bool}
    (hLoaded : f.loaded = true) (hHeld : (f.data.put other (.bool b)).get? id = some value)
    (hKept : (f.pending.get? id).or (storedAt host.tree f.path id) = some value) :
    Recalls id value (f.writeOut other (.bool b) host).2.1
      (f.writeOut other (.bool b) host).2.2.tree := by
  obtain ⟨tree, log, ⟨e, hWrite, hGrows⟩ | ⟨hWrite, hTaken, _⟩⟩ :=
    writeOut_spec other (.bool b) f host (hFit.askable hLoaded)
  · rw [hWrite]
    exact ⟨fun _ => hHeld, kept_of_grows hGrows hKept⟩
  · rw [hWrite]
    refine ⟨fun _ => hHeld, ?_⟩
    exact (storedAt_of_written hTaken (storable_put hFit.data hOther b) id).trans hHeld

/-- A save makes the keeper recall its value, whatever comes of it. -/
theorem recalls_save (hFit : Fit f) (hId : id.Encodable) (b : Bool) (host : Host) :
    Recalls id (.bool b) (f.save id (.bool b) host).2.1 (f.save id (.bool b) host).2.2.tree := by
  have hPended := hFit.pend hId b
  have hPending : ((f.pend id (.bool b)).pending.get? id).or (storedAt host.tree f.path id) =
      some (.bool b) := by
    change ((f.pending.put id (.bool b)).get? id).or _ = _
    rw [Record.get?_put, if_pos rfl]
    rfl
  rcases save_cases id (.bool b) f host with ⟨e, log, hSave, hBefore, _⟩ | ⟨log, hSave, hLoaded⟩
  · rw [hSave]
    exact ⟨fun hAfter => absurd (hBefore.symm.trans hAfter) Bool.false_ne_true, hPending⟩
  · rw [hSave]
    refine recalls_writeOut (hPended.settled host) hId hLoaded ?_ ?_
    · rw [Record.get?_put, if_pos rfl]
    · rw [pending_settled, path_settled]
      exact hPending

theorem Recalls.save (h : Recalls id value f host.tree) (hFit : Fit f) (hOther : other.Encodable)
    (hNames : id ≠ other) (b : Bool) :
    Recalls id value (f.save other (.bool b) host).2.1
      (f.save other (.bool b) host).2.2.tree := by
  have hFitPended := hFit.pend hOther b
  have hPended : Recalls id value (f.pend other (.bool b)) host.tree := by
    refine ⟨h.held, ?_⟩
    change ((f.pending.put other (.bool b)).get? id).or _ = _
    rw [Record.get?_put, if_neg hNames]
    exact h.kept
  rcases save_cases other (.bool b) f host with ⟨e, log, hSave, _⟩ | ⟨log, hSave, hLoaded⟩
  · rw [hSave]
    exact hPended
  · have hSettled := hPended.settled hFitPended
    rw [hSave]
    refine recalls_writeOut (hFitPended.settled host) hOther hLoaded ?_ hSettled.kept
    rw [Record.get?_put, if_neg hNames]
    exact hSettled.held hLoaded

theorem Recalls.apply (h : Recalls id value s.1 s.2.tree) (hFit : Fit s.1) {event : Event}
    (hAlone : ∀ tree, event ≠ .outside tree) (hIds : ∀ pair ∈ saves [event], pair.1.Encodable)
    (hLast : ∀ pair ∈ saves [event], pair.1 ≠ id) :
    Recalls id value (event.apply s).1 (event.apply s).2.tree := by
  cases event with
  | outside tree => exact absurd rfl (hAlone tree)
  | call action faults =>
    have hMet : Recalls id value s.1 (underFaults faults s.2).tree := h
    cases action with
    | loadAll =>
      obtain ⟨result, log, hLoad, _⟩ := s.1.loadAll_spec (underFaults faults s.2)
      change Recalls id value (s.1.loadAll (underFaults faults s.2)).2.1
        (s.1.loadAll (underFaults faults s.2)).2.2.tree
      rw [hLoad]
      dsimp only
      split
      · rename_i r hAttempt
        exact hMet.adopt hFit hAttempt
      · exact h
    | load name =>
      obtain ⟨log, hLoad⟩ := load_state name s.1 (underFaults faults s.2)
      change Recalls id value (s.1.load name (underFaults faults s.2)).2.1
        (s.1.load name (underFaults faults s.2)).2.2.tree
      rw [hLoad]
      exact hMet.settled hFit
    | save other b =>
      exact hMet.save hFit (hIds (other, .bool b) List.mem_cons_self)
        (Ne.symm (hLast (other, .bool b) List.mem_cons_self)) b

theorem Recalls.run (h : Recalls id value s.1 s.2.tree) (hFit : Fit s.1) {events : List Event}
    (hAlone : ∀ tree, .outside tree ∉ events) (hIds : ∀ pair ∈ saves events, pair.1.Encodable)
    (hLast : ∀ pair ∈ saves events, pair.1 ≠ id) :
    Recalls id value (run events s).1 (run events s).2.tree := by
  -- over the calls; the value stays pending or in the file, as no other call is about its name
  induction events generalizing s with
  | nil => exact h
  | cons event rest ih =>
    rw [saves_cons, List.forall_mem_append] at hIds hLast
    refine ih (h.apply hFit (fun tree hSame => ?_) hIds.1 hLast.1) (hFit.apply hIds.1)
      (fun tree hTree => hAlone tree (List.mem_cons_of_mem _ hTree)) hIds.2 hLast.2
    exact hAlone tree (hSame ▸ List.mem_cons_self)

/-! ## Loads that fail -/

theorem load_of_unaskable (h : f.Unaskable host) (id : Text) :
    (f.load id host).1 = .error (.file (.nameTooLong f.path)) := by
  have hEnsure : f.ensureLoaded host = (.error (.file (.nameTooLong f.path)), f, host) := by
    rw [ensureLoaded, h.1, if_neg (by simp), loadAll_of_nameTooLong h.2]
  rw [load, hEnsure]

theorem Unaskable.perform (h : f.Unaskable host) (action : Call) :
    (action.perform f host).1.Unaskable (action.perform f host).2 := by
  cases action with
  | loadAll =>
    rw [Call.perform, loadAll_of_nameTooLong h.2]
    exact h
  | load id =>
    have hReading : f.reading host = .error (.nameTooLong f.path) := by rw [reading_eq, h.2]
    obtain ⟨log, hState⟩ := load_state id f host
    have hSettled : f.settled host = f := by
      rw [settled, if_neg (by simp [h.1]), attempt, hReading]
    rw [Call.perform, hState, hSettled]
    exact h
  | save id value =>
    rw [Call.perform,
      save_of_failed_load h.1 (loadAll_of_nameTooLong (f := f.pend id (.bool value)) h.2)]
    exact h

theorem Unaskable.load_after (h : f.Unaskable host) (action : Call) (asked : Faults) (id : Text) :
    ((action.perform f host).1.load id (underFaults asked (action.perform f host).2)).1 =
      .error (.file (.nameTooLong f.path)) := by
  have hPath : (action.perform f host).1.path = f.path :=
    path_apply (.call action host.faults) (f, host)
  have hAfter : (action.perform f host).1.Unaskable (underFaults asked (action.perform f host).2) :=
    h.perform action
  rw [load_of_unaskable hAfter, hPath]

theorem loadAll_isPersistence {e : Failure} (hAsked : host.tree.occupancy f.path ≠ .nameTooLong)
    (h : (f.loadAll host).1 = .error e) : e.isPersistence = true := by
  cases hReading : f.reading host with
  | error refusal =>
    rw [reading_eq] at hReading
    split at hReading
    · split at hReading
      · cases hReading
      · cases hReading
      · cases hReading
    · exact absurd ‹_› hAsked
    · cases hReading
  | ok reading =>
    simp only [loadAll, hReading] at h
    cases reading with
    | absent | record r => cases h
    | unreadable refusal | undecodable cause | notARecord =>
      cases h
      rfl

theorem load_isPersistence {e : Failure} (hAskable : ¬ f.Unaskable host)
    (h : (f.load id host).1 = .error e) : e.isPersistence = true := by
  have hEnsure : (f.ensureLoaded host).1 = .error e := by
    rw [load] at h
    split at h
    · rename_i refusal _ _ hEnsure
      cases h
      rw [hEnsure]
    · split at h
      · cases h
      · cases h
      · cases h
  rw [ensureLoaded] at hEnsure
  split at hEnsure
  · cases hEnsure
  · rename_i hUnread
    have hAsked : host.tree.occupancy f.path ≠ .nameTooLong := fun hLong =>
      hAskable ⟨Bool.eq_false_of_not_eq_true hUnread, hLong⟩
    refine loadAll_isPersistence hAsked ?_
    split at hEnsure
    · cases hEnsure
    · rename_i refusal _ _ hLoad
      cases hEnsure
      rw [hLoad]

theorem Recalls.load {b : Bool} (h : Recalls id (.bool b) f host.tree) (hFit : Fit f) :
    ((f.load id host).1 = .ok (some b) ∨
      ∃ e, (f.load id host).1 = .error e ∧ e.isPersistence = true) ↔ ¬ f.Unaskable host := by
  constructor
  · rintro (hValue | ⟨e, hError, hOwn⟩) hUnaskable
    · rw [load_of_unaskable hUnaskable] at hValue
      cases hValue
    · rw [load_of_unaskable hUnaskable] at hError
      cases hError
      cases hOwn
  · intro hAskable
    obtain ⟨result, log, hLoad, ⟨hLoaded, rfl⟩ | ⟨_, _, e, rfl, _⟩⟩ := f.load_spec id host
    · rw [hLoad, (h.settled hFit).held hLoaded]
      exact .inl rfl
    · rw [hLoad]
      exact .inr ⟨e, rfl, load_isPersistence hAskable (congrArg Prod.fst hLoad)⟩

/-- The keeper reads its own writes: after a save that succeeded or failed, and while nobody else
writes the file, every load of the same name gives the value that was saved or fails in words of the
keeper, exactly unless the file is still unread and its path cannot be asked about. -/
theorem load_gives_last_saved_iff (directory : FilePath) (host : Host) (before : List Event)
    (id : Text) (value : Bool) (faults : Faults) (after : List Event) (asked : Faults)
    (hIds : ∀ pair ∈ saves (before ++ .call (.save id value) faults :: after), pair.1.Encodable)
    (hAlone : ∀ tree, .outside tree ∉ after) (hLast : ∀ pair ∈ saves after, pair.1 ≠ id) :
    let s := run (before ++ .call (.save id value) faults :: after) ({ directory }, host)
    ((s.1.load id (underFaults asked s.2)).1 = .ok (some value) ∨
      ∃ e, (s.1.load id (underFaults asked s.2)).1 = .error e ∧ e.isPersistence = true) ↔
      ¬ s.1.Unaskable s.2 := by
  intro s
  rw [saves_append, saves_cons, List.forall_mem_append, List.forall_mem_append] at hIds
  obtain ⟨hBefore, hSave, hAfter⟩ := hIds
  have hId : id.Encodable := hSave (id, .bool value) List.mem_cons_self
  have hStart : Fit (run before ({ directory }, host)).1 := (fit_new directory).run hBefore
  have hRun : s = run after
      ((Event.call (.save id value) faults).apply (run before ({ directory }, host))) := by
    change run (before ++ _ :: after) _ = _
    rw [run, List.foldl_append]
    rfl
  clear_value s
  subst hRun
  have hFit : Fit ((Event.call (.save id value) faults).apply
      (run before ({ directory }, host))).1 := hStart.apply hSave
  have hRecalls := recalls_save hStart hId value
    (underFaults faults (run before ({ directory }, host)).2)
  have hLater := hRecalls.run hFit hAlone hAfter hLast
  exact Recalls.load (hLater : Recalls id (.bool value) _ (underFaults asked _).tree)
    (hFit.run hAfter)

/-- The value of a save that failed is given back after another failure. -/
theorem load_gives_failed_save :
    let s := run ([] ++ failedSave :: [.call .loadAll { openFile := some "busy" },
      .call (.save "c" false) { makeTemporary := some "busy" }])
      ({ directory := ⟨"/", ["c"]⟩ }, Host.sample [])
    (s.1.load "b" (underFaults {} s.2)).1 = .ok (some true) ∨
      ∃ e, (s.1.load "b" (underFaults {} s.2)).1 = .error e ∧ e.isPersistence = true := by
  refine (load_gives_last_saved_iff ⟨"/", ["c"]⟩ (Host.sample []) [] "b" true _ _ {} ?_ ?_ ?_).mpr ?_
  · decide +kernel
  · simp
  · decide +kernel
  · rintro ⟨_, hLong⟩
    revert hLong
    decide +kernel

/-- In a directory of a name that is too long a load after a save fails in words of the system. -/
theorem overlong_directory_not_recalled :
    let s := run [.call (.save "a" true) {}] ({ directory := overlongDirectory }, Host.sample [])
    (s.1.load "a" (underFaults {} s.2)).1 =
        .error (.file (.nameTooLong (overlongDirectory.child fileName))) ∧
      (Failure.file (.nameTooLong (overlongDirectory.child fileName))).isPersistence = false := by
  have hUnaskable :
      Unaskable { directory := overlongDirectory } (underFaults {} (Host.sample [])) :=
    ⟨rfl, by decide +kernel⟩
  have hLoad := hUnaskable.load_after (.save "a" true) {} "a"
  refine ⟨?_, rfl⟩
  rw [run, List.foldl_cons, List.foldl_nil, Event.apply]
  exact hLoad

end Switchboard.RecordFile

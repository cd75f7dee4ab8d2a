import Switchboard.Proofs.RecordFile.Unreadable

/-!
# Reading everything and reading one value

Right after everything has been read, a load of one name gives the position that the record just
handed out has under it. The record of a missing file is handed out empty, however, while the
values of failed saves are laid over it in memory, and a load of one of their names gives the value.
-/

namespace Switchboard.RecordFile

open FileTree

/-- The names passed to saves since the last one that succeeded, after one more event. -/
def Event.unwritten (event : Event) (s : RecordFile × Host) (names : List Text) : List Text :=
  match event with
  | call (.save id value) faults =>
    match (s.1.save id value (underFaults faults s.2)).1 with
    | .ok () => []
    | .error _ => names ++ [id]
  | _ => names

def unwritten : List Event → RecordFile × Host → List Text → List Text
  | [], _, names => names
  | event :: rest, s, names => unwritten rest (event.apply s) (event.unwritten s names)

/-- The pending values are positions, and these are their names. -/
structure Awaits (names : List Text) (f : RecordFile) : Prop where
  nodup : (Record.names f.pending).Nodup
  mem_iff : ∀ id, id ∈ Record.names f.pending ↔ id ∈ names
  positions : ∀ id value, f.pending.get? id = some value → ∃ b, value = .bool b

variable {f : RecordFile} {host : Host} {names : List Text}

/-! ## What is pending -/

theorem pending_writeOut (id : Text) (value : Json) (f : RecordFile) (host : Host) :
    (f.writeOut id value host).2.1.pending =
      match (f.writeOut id value host).1 with
      | .ok () => []
      | .error _ => f.pending := by
  rw [writeOut]
  dsimp only
  split
  · rfl
  · split <;> rfl

/-- A save that fails leaves its value pending, and one that succeeds leaves nothing pending. -/
theorem pending_save (id : Text) (value : Json) (f : RecordFile) (host : Host) :
    (f.save id value host).2.1.pending =
      match (f.save id value host).1 with
      | .ok () => []
      | .error _ => f.pending.put id value := by
  rcases save_cases id value f host with ⟨e, log, hSave, _⟩ | ⟨log, hSave, _⟩
  · rw [hSave]
    rfl
  · rw [hSave, pending_writeOut, pending_settled]
    rfl

theorem Awaits.save (h : Awaits names f) (id : Text) (b : Bool) (faults : Faults) (host : Host) :
    Awaits ((Event.call (.save id b) faults).unwritten (f, host) names)
      (f.save id (.bool b) (underFaults faults host)).2.1 := by
  have hPending := pending_save id (.bool b) f (underFaults faults host)
  rw [Event.unwritten]
  dsimp only
  cases hResult : (f.save id (.bool b) (underFaults faults host)).1 with
  | ok _ =>
    rw [hResult] at hPending
    refine ⟨?_, fun name => ?_, fun name value hValue => ?_⟩
    · rw [hPending]
      exact List.nodup_nil
    · rw [hPending]
      rfl
    · rw [hPending] at hValue
      cases hValue
  | error e =>
    rw [hResult] at hPending
    dsimp only at hPending ⊢
    refine ⟨?_, fun name => ?_, fun name value hValue => ?_⟩
    · rw [hPending]
      exact Record.nodup_names_put h.nodup id _
    · rw [hPending, Record.names_put, List.mem_append, List.mem_singleton, ← h.mem_iff]
      split
      · rename_i hId
        exact ⟨.inl, fun hName => hName.elim (fun hOld => hOld) fun hSame => hSame ▸ hId⟩
      · rw [List.mem_append, List.mem_singleton]
    · rw [hPending, Record.get?_put] at hValue
      split at hValue
      · exact ⟨b, (Option.some.inj hValue).symm⟩
      · exact h.positions name value hValue

theorem Awaits.apply {s : RecordFile × Host} (h : Awaits names s.1) (event : Event) :
    Awaits (event.unwritten s names) (event.apply s).1 := by
  have hQuiet : saves [event] = [] → event.unwritten s names = names →
      Awaits (event.unwritten s names) (event.apply s).1 := by
    intro hSaves hNames
    have hPending := pending_apply hSaves s
    rw [hNames]
    refine ⟨?_, ?_, ?_⟩
    · rw [hPending]
      exact h.nodup
    · rw [hPending]
      exact h.mem_iff
    · rw [hPending]
      exact h.positions
  cases event with
  | outside tree => exact hQuiet rfl rfl
  | call action faults =>
    cases action with
    | loadAll => exact hQuiet rfl rfl
    | load id => exact hQuiet rfl rfl
    | save id b => exact h.save id b faults s.2

theorem Awaits.run {s : RecordFile × Host} (h : Awaits names s.1) (events : List Event) :
    Awaits (unwritten events s names) (run events s).1 := by
  induction events generalizing s names with
  | nil => exact h
  | cons event rest ih => exact ih (h.apply event)

theorem awaits_new (directory : FilePath) : Awaits [] { directory } :=
  ⟨List.nodup_nil, fun _ => Iff.rfl, nofun⟩

/-! ## Reading right after reading everything -/

theorem load_of_loaded (hLoaded : f.loaded = true) (id : Text) (host : Host) :
    (f.load id host).1 = .ok ((f.data.get? id).bind Json.toBool?) := by
  have hSettled : f.settled host = f := by rw [settled, if_pos hLoaded]
  obtain ⟨result, log, hLoad, ⟨_, rfl⟩ | ⟨hUnread, _⟩⟩ := f.load_spec id host
  · rw [hLoad, hSettled]
  · rw [hLoaded] at hUnread
    cases hUnread

theorem decode_ne_absent (contents : Bytes) : decode contents ≠ .absent := by
  intro hAbsent
  rw [decode] at hAbsent
  split at hAbsent
  · cases hAbsent
  · split at hAbsent
    · cases hAbsent
    · cases hAbsent
    · cases hAbsent

theorem exists?_eq_false_iff :
    host.tree.exists? f.path = .ok false ↔ f.reading host = .ok .absent := by
  rw [reading]
  cases hExists : host.tree.exists? f.path with
  | error refusal => simp
  | ok there =>
    cases there with
    | false => simp
    | true =>
      dsimp only
      cases host.faults.openFile with
      | some message => simp
      | none =>
        cases host.tree.read f.path with
        | error refusal => simp
        | ok contents => simp [decode_ne_absent]

theorem loadAll_ok {r : Record Text Json} (h : (f.loadAll host).1 = .ok r) :
    (f.loadAll host).2.1.loaded = true ∧
      ((host.tree.exists? f.path = .ok false ∧ r = [] ∧
          (f.loadAll host).2.1.data = Record.putAll [] f.pending) ∨
        (host.tree.exists? f.path ≠ .ok false ∧ (f.loadAll host).2.1.data = r)) := by
  rw [exists?_eq_false_iff, ne_eq, exists?_eq_false_iff]
  cases hReading : f.reading host with
  | error refusal =>
    simp only [loadAll, hReading] at h
    cases h
  | ok reading =>
    simp only [loadAll, hReading] at h ⊢
    cases reading with
    | unreadable refusal | undecodable cause | notARecord => cases h
    | absent =>
      cases h
      exact ⟨rfl, .inl ⟨rfl, rfl, rfl⟩⟩
    | record r =>
      cases h
      refine ⟨rfl, .inr ⟨?_, rfl⟩⟩
      intro hAbsent
      cases hAbsent

/-- After everything has been read, a load of one name agrees with the record that was handed out,
exactly unless there was no file and the name has been passed to a save that failed, with none
succeeding since. -/
theorem loads_agree_iff (directory : FilePath) (host : Host) (events : List Event) (met : Faults)
    (r : Record Text Json)
    (hRead : ((run events ({ directory }, host)).1.loadAll
      (underFaults met (run events ({ directory }, host)).2)).1 = .ok r)
    (id : Text) (later : Faults) :
    let s := run events ({ directory }, host)
    let after := (s.1.loadAll (underFaults met s.2)).2
    (after.1.load id (underFaults later after.2)).1 = .ok ((r.get? id).bind Json.toBool?) ↔
      ¬ (s.2.tree.exists? s.1.path = .ok false ∧
        id ∈ unwritten events ({ directory }, host) []) := by
  intro s after
  have hAwaits : Awaits (unwritten events ({ directory }, host) []) s.1 :=
    (awaits_new directory).run events
  obtain ⟨hLoaded, hCases⟩ := loadAll_ok hRead
  rw [load_of_loaded hLoaded]
  rcases hCases with ⟨hMissing, rfl, hData⟩ | ⟨hThere, hData⟩
  · change s.2.tree.exists? s.1.path = .ok false at hMissing
    rw [hData, Record.get?_putAll_of_nodup [] hAwaits.nodup, ← hAwaits.mem_iff]
    change Except.ok (((s.1.pending.get? id).or none).bind Json.toBool?) = .ok none ↔ _
    rw [Option.or_none]
    cases hPending : s.1.pending.get? id with
    | none => simp [hMissing, (Record.get?_eq_none_iff _ id).mp hPending]
    | some value =>
      obtain ⟨b, rfl⟩ := hAwaits.positions id value hPending
      have hName : id ∈ Record.names s.1.pending := by
        rw [← not_not (a := id ∈ _), ← Record.get?_eq_none_iff, hPending]
        exact Option.some_ne_none _
      simp [hMissing, hName, Json.toBool?]
  · change s.2.tree.exists? s.1.path ≠ .ok false at hThere
    rw [hData]
    simp [hThere]

/-- Over a file that is there, a value that could not be saved is in the record handed out. -/
theorem loads_agree_after_failed_save :
    let s := run [.call (.save "d" true) { replaceFile := some "disk full" }]
      ({ directory := ⟨"/", ["c"]⟩ }, (hostHolding unusualFile))
    let after := (s.1.loadAll (underFaults {} s.2)).2
    ∃ r, (s.1.loadAll (underFaults {} s.2)).1 = .ok r ∧
      (after.1.load "d" (underFaults {} after.2)).1 = .ok ((r.get? "d").bind Json.toBool?) := by
  obtain ⟨r, hRead⟩ : ∃ r, ((run [.call (.save "d" true) { replaceFile := some "disk full" }]
      ({ directory := ⟨"/", ["c"]⟩ }, (hostHolding unusualFile))).1.loadAll (underFaults {}
        (run [.call (.save "d" true) { replaceFile := some "disk full" }]
          ({ directory := ⟨"/", ["c"]⟩ }, (hostHolding unusualFile))).2)).1 = .ok r :=
    exists_ok_of_isOk (by decide +kernel)
  refine ⟨r, hRead,
    (loads_agree_iff ⟨"/", ["c"]⟩ (hostHolding unusualFile) _ {} r hRead "d" {}).mpr ?_⟩
  rintro ⟨hMissing, _⟩
  revert hMissing
  decide +kernel

/-- The record of a missing file is handed out without the value that could not be saved. -/
theorem loads_disagree_on_missing_file :
    let s := run [failedSave] ({ directory := ⟨"/", ["c"]⟩ }, Host.sample [])
    let after := (s.1.loadAll (underFaults {} s.2)).2
    (s.1.loadAll (underFaults {} s.2)).1 = .ok [] ∧
      (after.1.load "b" (underFaults {} after.2)).1 = .ok (some true) :=
  ⟨rfl, rfl⟩

end Switchboard.RecordFile

import Switchboard.Proofs.Registry.Cascade

/-!
# Assignments and their saves

A run sets switches before any listeners, while the worker takes and finishes saves, and the queue
is drained or closed at any time. Every assignment is submitted as it is made, before anyone hears
of it, so the saves follow the assignments in their order, nested ones included, and the last save
of a switch carries the position that the switch has.
-/

namespace Switchboard

/-- Each of some loads in turn yields a position, or tells that none is stored. -/
def Backend.GivesPositions : List Text → Backend → Host → Prop
  | [], _, _ => True
  | id :: rest, backend, host =>
    ∃ value, (backend.load id host).1 = .ok value ∧ (value = .null ∨ value.isBool = true) ∧
      GivesPositions rest (backend.load id host).2.1 (backend.load id host).2.2

namespace Registry

inductive Act
  | set (id : Text) (value : Json)
  | connect (listener : Listener)
  | take
  | finish
  | flush
  | close
  /-- The host has changed. -/
  | outside (host : Host)

def Act.effect (limit : Nat) : Act → Registry × Host → Registry × Host
  | set id value, s => (setWithin limit id value s.1 s.2).2
  | connect listener, s => (s.1.connect listener, s.2)
  | take, s => s.1.overQueue (fun q host => (q.take, host)) s.2
  | finish, s => s.1.overQueue WriteQueue.finish s.2
  | flush, s => s.1.flush s.2
  | close, s => s.1.close s.2
  | outside host, s => (s.1, host)

def run (limit : Nat) (acts : List Act) (s : Registry × Host) : Registry × Host :=
  acts.foldl (fun s act => act.effect limit s) s

def lastSave? (id : Text) (requests : List SaveRequest) : Option SaveRequest :=
  requests.reverse.find? fun request => request.id = id

def getAfter (r : Registry) (requests : List SaveRequest) (id : Text) : Except Failure Json :=
  match lastSave? id requests with
  | some request => .ok request.value
  | none => r.get id

variable {first r : Registry} {host : Host} {id : Text} {s : Registry × Host}

/-! ## The last save of a switch -/

theorem lastSave?_append (id : Text) (requests : List SaveRequest) (request : SaveRequest) :
    lastSave? id (requests ++ [request]) =
      if request.id = id then some request else lastSave? id requests := by
  rw [lastSave?, List.reverse_append]
  by_cases h : request.id = id
  · simp [h]
  · simp [h, lastSave?]

theorem exists_lastSave? {requests : List SaveRequest} {request : SaveRequest}
    (h : request ∈ requests) : ∃ last, lastSave? request.id requests = some last := by
  refine Option.isSome_iff_exists.mp (List.find?_isSome.mpr ⟨request, ?_, ?_⟩)
  · exact List.mem_reverse.mpr h
  · simp

theorem setting?_assign (id other : Text) (b : Bool) (r : Registry) :
    (r.assign id b).setting? other = (r.setting? other).map fun s =>
      if s.descriptor.id = id then { s with value := .bool b } else s := by
  rw [setting?, assign, List.find?_map, setting?]
  congr 2
  funext s
  rw [Function.comp_apply]
  split
  · rfl
  · rfl

theorem get_assign_self (h : (r.setting? id).isSome = true) (b : Bool) :
    (r.assign id b).get id = .ok (.bool b) := by
  obtain ⟨s, hSetting⟩ := Option.isSome_iff_exists.mp h
  have hId : s.descriptor.id = id := by simpa using List.find?_some hSetting
  rw [get, setting?_assign, hSetting]
  simp [hId]

theorem get_assign_other {other : Text} (h : id ≠ other) (b : Bool) (r : Registry) :
    (r.assign id b).get other = r.get other := by
  rw [get, setting?_assign, get]
  cases hSetting : r.setting? other with
  | none => rfl
  | some s =>
    have hId : s.descriptor.id = other := by simpa using List.find?_some hSetting
    have hNot : ¬ s.descriptor.id = id := fun hEq => h (hEq.symm.trans hId)
    simp [hNot]

/-! ## In step -/

/-- The saves of a registry, made or outstanding, are its assignments, and they bring the registry
that it was at first to where it is. -/
structure InStep (first r : Registry) : Prop where
  queue : ∃ q, r.queue = some q ∧ q.Orderly ∧ q.ledger = r.assigned
  memory : ∀ id, r.get id = first.getAfter r.assigned id

theorem submit_eq {q : WriteQueue} (h : r.queue = some q) (id : Text) (b : Bool) (host : Host) :
    r.submit id b host =
      ({ r with queue := some (q.submit ⟨id, .bool b⟩ host).1 },
        (q.submit ⟨id, .bool b⟩ host).2) := by
  rw [submit, h]

theorem InStep.submit (h : InStep first r) (hKnown : (r.setting? id).isSome = true) (b : Bool)
    (host : Host) : InStep first ((r.assign id b).submit id b host).1 := by
  obtain ⟨q, hQueue, hOrderly, hLedger⟩ := h.queue
  rw [submit_eq (r := r.assign id b) hQueue]
  constructor
  · refine ⟨_, rfl, hOrderly.submit _ host, ?_⟩
    rw [WriteQueue.ledger_submit hOrderly.idle, hLedger]
    rfl
  · intro other
    change (r.assign id b).get other = first.getAfter (r.assigned ++ [⟨id, .bool b⟩]) other
    rw [getAfter, lastSave?_append]
    by_cases hSame : id = other
    · subst hSame
      rw [if_pos rfl]
      exact get_assign_self hKnown b
    · rw [if_neg hSame, get_assign_other hSame]
      exact h.memory other

theorem InStep.setWithin (h : InStep first r) (limit : Nat) (id : Text) (value : Json)
    (host : Host) : InStep first (setWithin limit id value r host).2.1 := by
  have hSteady : Steady fun s t => s = t ∧ InStep first s.1 := by
    apply steady_self
    · intro s change h
      exact ⟨h.queue, h.memory⟩
    · intro s log h
      exact h
    · intro s id b hKnown h
      exact h.submit hKnown b s.2
  exact (hSteady.setWithin limit (s := (r, host)) id value ⟨rfl, h⟩).2.2

theorem InStep.overQueue (h : InStep first r) {act : WriteQueue → Host → WriteQueue × Host}
    (hAct : ∀ q : WriteQueue, q.Orderly →
      (act q host).1.Orderly ∧ (act q host).1.ledger = q.ledger) :
    InStep first (r.overQueue act host).1 := by
  obtain ⟨q, hQueue, hOrderly, hLedger⟩ := h.queue
  obtain ⟨hAfter, hSame⟩ := hAct q hOrderly
  rw [Registry.overQueue, hQueue]
  exact ⟨⟨_, rfl, hAfter, hSame.trans hLedger⟩, h.memory⟩

theorem InStep.flush (h : InStep first r) (host : Host) :
    InStep first (r.flush host).1 ∧ (r.flush host).1.settings = r.settings ∧
      (r.flush host).1.attempts = r.assigned := by
  obtain ⟨q, hQueue, hOrderly, hLedger⟩ := h.queue
  obtain ⟨hAfter, hIdle⟩ := hOrderly.drain host
  have hSame : (q.drain host).1.ledger = r.assigned :=
    (WriteQueue.ledger_work _ q host).trans hLedger
  rw [Registry.flush, Registry.overQueue, hQueue]
  refine ⟨⟨⟨_, rfl, hAfter, hSame⟩, h.memory⟩, rfl, ?_⟩
  exact (WriteQueue.ledger_of_idle hIdle).symm.trans hSame

theorem InStep.effect (h : InStep first s.1) (limit : Nat) (act : Act) :
    InStep first (act.effect limit s).1 := by
  cases act with
  | set id value => exact h.setWithin limit id value s.2
  | connect listener => exact ⟨h.queue, h.memory⟩
  | take => exact h.overQueue fun q hOrderly => ⟨hOrderly.take, WriteQueue.ledger_take q⟩
  | finish => exact h.overQueue fun q hOrderly => ⟨hOrderly.finish _, WriteQueue.ledger_finish q _⟩
  | flush => exact (h.flush s.2).1
  | close =>
    exact h.overQueue fun q hOrderly => ⟨(hOrderly.close _).1,
      (WriteQueue.ledger_work _ q.beginClose _).trans (WriteQueue.ledger_beginClose q)⟩
  | outside host => exact h

theorem InStep.run (h : InStep first s.1) (limit : Nat) (acts : List Act) :
    InStep first (run limit acts s).1 := by
  induction acts generalizing s with
  | nil => exact h
  | cons act rest ih => exact ih (h.effect limit act)

/-! ## Single sets -/

theorem submit_frame (id : Text) (b : Bool) (r : Registry) (host : Host) :
    ∃ queue, (r.submit id b host).1 = { r with queue } := by
  rw [submit]
  split
  · exact ⟨r.queue, rfl⟩
  · exact ⟨_, rfl⟩

theorem isSome_setting?_setWithin (limit : Nat) (id name : Text) (value : Json) (r : Registry)
    (host : Host) :
    ((setWithin limit id value r host).2.1.setting? name).isSome = (r.setting? name).isSome := by
  have hSteady : Steady fun s t =>
      s = t ∧ (s.1.setting? name).isSome = (r.setting? name).isSome := by
    apply steady_self
    · intro s change h
      exact h
    · intro s log h
      exact h
    · intro s id b _ h
      obtain ⟨queue, hSubmit⟩ := submit_frame id b (s.1.assign id b) s.2
      rw [hSubmit]
      change ((s.1.assign id b).setting? name).isSome = _
      rw [setting?_assign, Option.isSome_map]
      exact h
  exact (hSteady.setWithin limit (s := (r, host)) id value ⟨rfl, rfl⟩).2.2

/-- No save is made when a switch is set: there is nothing to save to, or the saves wait for the
worker. -/
def Deferred (r : Registry) : Prop :=
  ∀ q, r.queue = some q → q.closed = false

theorem Deferred.submit {r : Registry} (h : r.Deferred) (id : Text) (b : Bool) (host : Host) :
    ∃ queue, r.submit id b host = ({ r with queue }, host) ∧
      Deferred { r with queue } := by
  rw [Registry.submit]
  cases hQueue : r.queue with
  | none => exact ⟨r.queue, rfl, h⟩
  | some q =>
    have hOpen := h q hQueue
    dsimp only
    rw [WriteQueue.submit, if_neg (Bool.eq_false_iff.mp hOpen)]
    refine ⟨_, rfl, ?_⟩
    rintro _ ⟨⟩
    exact hOpen

theorem Deferred.set {r : Registry} (h : r.Deferred) (id : Text) (value : Json) (host : Host) :
    (r.set id value host).2.1.Deferred ∧ (r.set id value host).2.2.tree = host.tree := by
  have hSteady : Steady fun s t => s = t ∧ (s.1.Deferred ∧ s.2.tree = host.tree) := by
    apply steady_self
    · intro s change h
      exact h
    · intro s log h
      exact h
    · rintro s id b _ ⟨hDeferred, hTree⟩
      have hAssigned : (s.1.assign id b).Deferred := hDeferred
      obtain ⟨queue, hSubmit, hAfter⟩ := hAssigned.submit id b s.2
      rw [hSubmit]
      exact ⟨hAfter, hTree⟩
  exact (hSteady.setWithin cascadeLimit (s := (r, host)) id value ⟨rfl, h, rfl⟩).2.2

theorem settings_overQueue (act : WriteQueue → Host → WriteQueue × Host) (r : Registry)
    (host : Host) : (r.overQueue act host).1.settings = r.settings := by
  rw [Registry.overQueue]
  split
  · rfl
  · rfl

theorem Deferred.overQueue {r : Registry} (h : r.Deferred)
    {act : WriteQueue → Host → WriteQueue × Host}
    (hAct : ∀ q host, (act q host).1.closed = q.closed) (host : Host) :
    (r.overQueue act host).1.Deferred := by
  rw [Registry.overQueue]
  split
  · exact h
  · rename_i q hQueue
    rintro _ ⟨⟩
    exact (hAct q host).trans (h q hQueue)

theorem exists_isOn {r : Registry} {id : Text} (h : (r.setting? id).isSome = true) :
    ∃ on, r.isOn id = .ok on := by
  obtain ⟨setting, hSetting⟩ := Option.isSome_iff_exists.mp h
  rw [isOn, get, hSetting]
  exact ⟨_, rfl⟩

theorem assigned_submit (id : Text) (b : Bool) (r : Registry) (host : Host) :
    (r.submit id b host).1.assigned = r.assigned := by
  rw [submit]
  split
  · rfl
  · rfl

theorem steady_assigned (before : List SaveRequest) :
    Steady fun s t => s = t ∧ before <+: s.1.assigned := by
  apply steady_self
  · intro s change h
    exact h
  · intro s log h
    exact h
  · intro s id b _ h
    rw [assigned_submit]
    exact h.trans (List.prefix_append _ _)

theorem submit_signal (id : Text) (b : Bool) (r : Registry) (host : Host) :
    (r.submit id b host).1.signal = r.signal := by
  obtain ⟨queue, hSubmit⟩ := submit_frame id b r host
  rw [hSubmit]

theorem steady_signal (signal : Signal) : Steady fun s t => s = t ∧ s.1.signal = signal := by
  apply steady_self
  · intro s change h
    exact h
  · intro s log h
    exact h
  · intro s id b _ h
    exact (submit_signal id b _ s.2).trans h

theorem signal_setWithin (limit : Nat) (id : Text) (value : Json) (r : Registry) (host : Host) :
    (setWithin limit id value r host).2.1.signal = r.signal :=
  ((steady_signal r.signal).setWithin limit (s := (r, host)) id value ⟨rfl, rfl⟩).2.2

theorem signal_overQueue (act : WriteQueue → Host → WriteQueue × Host) (r : Registry)
    (host : Host) : (r.overQueue act host).1.signal = r.signal := by
  rw [overQueue]
  split
  · rfl
  · rfl

theorem signal_effect (limit : Nat) (act : Act) (s : Registry × Host) :
    (act.effect limit s).1.signal = s.1.signal := by
  cases act with
  | set id value => exact signal_setWithin limit id value s.1 s.2
  | connect listener => rfl
  | outside host => rfl
  | take | finish | flush | close => exact signal_overQueue _ s.1 s.2

theorem signal_run (limit : Nat) (acts : List Act) (s : Registry × Host) :
    (run limit acts s).1.signal = s.1.signal := by
  induction acts generalizing s with
  | nil => rfl
  | cons act rest ih => exact (ih _).trans (signal_effect limit act s)

/-- A set is rejected and does nothing, or it makes its own assignment before any that listeners
make, and only what they fail by can come back. -/
theorem setWithin_cases (limit : Nat) (id : Text) (value : Json) (r : Registry) (host : Host) :
    (∃ e, setWithin limit id value r host = (.error e, r, host)) ∨
      ∃ b nested, value = .bool b ∧
        (setWithin limit id value r host).2.1.assigned =
          r.assigned ++ ⟨id, .bool b⟩ :: nested ∧
        (r.signal.Contains → (setWithin limit id value r host).1 = .ok ()) := by
  cases limit with
  | zero => exact .inl ⟨_, rfl⟩
  | succ limit =>
    change (∃ e, setWith (setWithin limit) id value r host = _) ∨ ∃ b nested, value = .bool b ∧
      (setWith (setWithin limit) id value r host).2.1.assigned = _ ∧
      (_ → (setWith (setWithin limit) id value r host).1 = _)
    unfold setWith
    split
    · exact .inl ⟨_, rfl⟩
    · rename_i s b _
      right
      have hOwn : ((r.assign id b).submit id b host).1.assigned =
          r.assigned ++ [⟨id, .bool b⟩] := assigned_submit id b _ host
      dsimp only
      split
      · exact ⟨b, [], rfl, hOwn, fun _ => rfl⟩
      · -- the announcement starts out with the assignment made and only adds to it
        have hSteady := steady_assigned (r.assigned ++ [⟨id, .bool b⟩])
        have hFirst : r.assigned ++ [⟨id, .bool b⟩] <+:
            ((r.assign id b).submit id b host).1.assigned := hOwn ▸ List.prefix_refl _
        obtain ⟨_, _, nested, hAfter⟩ := hSteady.announce (hSteady.setWithin limit) _ id b _
          (s := (_, noteChange s.descriptor b ((r.assign id b).submit id b host).2))
          ⟨rfl, hFirst⟩
        rw [List.append_assoc] at hAfter
        refine ⟨b, nested, rfl, hAfter.symm, fun hContains => announce_of_contains ?_ _ _ _ _ _ _⟩
        rw [submit_signal]
        exact hContains
    · exact .inl ⟨_, rfl⟩

theorem setWithin_of_rejected (limit : Nat) {value : Json} (h : id ∉ r.ids ∨ value.isBool = false)
    (host : Host) : (setWithin limit id value r host).2 = (r, host) := by
  cases limit with
  | zero => rfl
  | succ limit =>
    change (setWith (setWithin limit) id value r host).2 = (r, host)
    unfold setWith
    split
    · rfl
    · rename_i s b hSetting
      rcases h with hUnknown | hOther
      · exact absurd ((r.mem_ids_iff id).mpr ⟨s, hSetting⟩) hUnknown
      · cases hOther
    · rfl

theorem setWithin_error {limit : Nat} {value : Json} {e : Failure} (hSignal : r.signal.Contains)
    (h : (setWithin limit id value r host).1 = .error e) :
    (setWithin limit id value r host).2 = (r, host) := by
  rcases setWithin_cases limit id value r host with ⟨_, hSet⟩ | ⟨_, _, _, _, hOk⟩
  · rw [hSet]
  · rw [hOk hSignal] at h
    cases h

/-! ## Whole runs -/

theorem loadSetting_of_position {d : Descriptor} {backend : Backend} {value : Json}
    (h : (backend.load d.id host).1 = .ok value) : ∃ position,
    loadSetting d backend host = (.ok ⟨d, position⟩, (backend.load d.id host).2) := by
  obtain ⟨result, after, later, hLoad⟩ : ∃ result after later,
      backend.load d.id host = (result, after, later) := ⟨_, _, _, rfl⟩
  rw [hLoad] at h
  obtain rfl : result = .ok value := h
  rw [loadSetting, hLoad]
  cases value with
  | null => exact ⟨_, rfl⟩
  | _ => exact ⟨_, rfl⟩

theorem loadSettings_of_positions {ds : List Descriptor} {backend : Backend}
    (h : backend.GivesPositions (ds.map Descriptor.id) host) : ∃ settings after later,
    loadSettings ds backend host = (.ok settings, after, later) := by
  induction ds generalizing backend host with
  | nil => exact ⟨[], backend, host, rfl⟩
  | cons d rest ih =>
    obtain ⟨value, hLoad, _, hRest⟩ := h
    obtain ⟨position, hFirst⟩ := loadSetting_of_position hLoad
    obtain ⟨settings, after, later, hOthers⟩ := ih hRest
    rw [loadSettings, hFirst]
    dsimp only
    rw [hOthers]
    exact ⟨_, _, _, rfl⟩

theorem start_of_positions (index : DescriptorIndex) {backend : Backend}
    (h : backend.GivesPositions (index.descriptors.map Descriptor.id) host) : ∃ r later,
    start index (some backend) host = (.ok r, later) ∧ r.assigned = [] ∧ InStep r r := by
  obtain ⟨settings, after, later, hLoad⟩ := loadSettings_of_positions h
  refine ⟨{ settings, queue := some { backend := after } }, later, ?_, rfl, ?_, fun _ => rfl⟩
  · rw [start, hLoad]
  · exact ⟨_, rfl, WriteQueue.orderly_new after, rfl⟩

/-- Whatever the listeners do and whatever becomes of their failures, once the queue is drained the
saves attempted are the assignments in the order in which they were made, and the last one for a
switch carries its position. An accepted set is assigned even when nothing changes, also where a
failure of a listener comes back from it, and a rejected one is not. -/
theorem saves_follow_assignments (index : DescriptorIndex) (backend : Backend) (host : Host)
    (hLoads : backend.GivesPositions (index.descriptors.map Descriptor.id) host) :
    ∃ r₀ host₀, start index (some backend) host = (.ok r₀, host₀) ∧ r₀.assigned = [] ∧
      ∀ signal limit acts r later, run limit acts ({ r₀ with signal }, host₀) = (r, later) →
        (r.flush later).1.attempts = r.assigned ∧
        (r.flush later).1.settings = r.settings ∧
        (∀ id, r.get id = r₀.getAfter (r.flush later).1.attempts id) ∧
        (∀ request ∈ r.assigned, ∃ last,
          lastSave? request.id (r.flush later).1.attempts = some last ∧
          r.get request.id = .ok last.value) ∧
        ∀ id value,
          let set := setWithin limit id value r later
          (set.1 = .ok () → ∃ b nested, value = .bool b ∧
            set.2.1.assigned = r.assigned ++ ⟨id, .bool b⟩ :: nested) ∧
          ∀ e, set.1 = .error e → set.2 = (r, later) ∨
            ¬ signal.Contains ∧ ∃ b nested, value = .bool b ∧
              set.2.1.assigned = r.assigned ++ ⟨id, .bool b⟩ :: nested := by
  obtain ⟨r₀, host₀, hStart, hNone, hInStep⟩ := start_of_positions index hLoads
  refine ⟨r₀, host₀, hStart, hNone, ?_⟩
  intro signal limit acts r later hRun
  have hAfter : InStep r₀ r := by
    have hAll := InStep.run (s := ({ r₀ with signal }, host₀)) ⟨hInStep.queue, hInStep.memory⟩
      limit acts
    rwa [hRun] at hAll
  have hSignal : r.signal = signal := by
    have hSame := signal_run limit acts ({ r₀ with signal }, host₀)
    rwa [hRun] at hSame
  obtain ⟨_, hSettings, hAttempts⟩ := hAfter.flush later
  rw [hAttempts]
  refine ⟨rfl, hSettings, hAfter.memory, ?_, ?_⟩
  · intro request hMem
    obtain ⟨last, hLast⟩ := exists_lastSave? hMem
    refine ⟨last, hLast, ?_⟩
    rw [hAfter.memory, getAfter, hLast]
  · intro id value set
    rcases setWithin_cases limit id value r later with
      ⟨e, hRejected⟩ | ⟨b, nested, hValue, hAssigned, hOk⟩
    · refine ⟨?_, fun _ _ => .inl (congrArg Prod.snd hRejected)⟩
      intro hAccepted
      rw [show set.1 = .error e from congrArg Prod.fst hRejected] at hAccepted
      cases hAccepted
    · refine ⟨fun _ => ⟨b, nested, hValue, hAssigned⟩, ?_⟩
      intro e hFailed
      refine .inr ⟨fun hContains => ?_, b, nested, hValue, hAssigned⟩
      rw [show set.1 = .ok () from hOk (hSignal ▸ hContains)] at hFailed
      cases hFailed

def failingBackend : Backend :=
  .script
    { loads := [(Descriptor.confirmQuit, .ok false)]
      saves := [some (.reported .execution "disk on fire"), none, some (.persistence "full" none)] }

/-- When the mouse is switched on, switches logging on, tries a switch that is not there, and fails
over it. -/
def meddle : Text → Bool → List Setting → List Heard → Reaction :=
  fun id value _ _ =>
    if id = Descriptor.mouseEnabled ∧ value = true then
      .set Descriptor.loggingEnabled true fun _ _ _ =>
        .set "no_such_switch" true fun result _ _ =>
          match result with
          | .ok () => .finish
          | .error e => .fail e
    else .finish

def passing : Signal := ⟨fun _ => true⟩

def meddledActs : List Act :=
  [.connect (.program meddle),
    .connect (.rule Descriptor.loggingEnabled true Descriptor.loggingEnabled false),
    .connect (.recorder "seen"), .set Descriptor.mouseEnabled true, .take, .finish,
    .set Descriptor.confirmQuit false, .set "no_such_switch" false, .close,
    .set Descriptor.mouseEnabled (.int 0), .set Descriptor.saveHistory true]

/-- Logging is switched on by one listener and off again by another, the failure of the first comes
back from the set, two saves fail, and the last set comes after the close. -/
theorem meddled_saves_follow_assignments :
    failingBackend.GivesPositions (Descriptor.table.map Descriptor.id) (Host.sample []) ∧
      ∃ r₀ host₀, start .builtin (some failingBackend) (Host.sample []) = (.ok r₀, host₀) ∧
        ∀ r later, run cascadeLimit meddledActs ({ r₀ with signal := passing }, host₀) = (r, later) →
          (r.flush later).1.attempts =
            [⟨Descriptor.mouseEnabled, true⟩, ⟨Descriptor.loggingEnabled, true⟩,
              ⟨Descriptor.loggingEnabled, false⟩, ⟨Descriptor.confirmQuit, false⟩,
              ⟨Descriptor.saveHistory, true⟩] ∧
          r.get Descriptor.loggingEnabled = .ok false := by
  have hLoads :
      failingBackend.GivesPositions (Descriptor.table.map Descriptor.id) (Host.sample []) :=
    ⟨.null, rfl, .inl rfl, .null, rfl, .inl rfl, .null, rfl, .inl rfl, .bool false, rfl, .inr rfl,
      trivial⟩
  obtain ⟨r₀, host₀, hStart, _, hRun⟩ :=
    saves_follow_assignments .builtin failingBackend (Host.sample []) hLoads
  refine ⟨hLoads, r₀, host₀, hStart, ?_⟩
  intro r later hPlayed
  obtain ⟨hAttempts, _, hMemory, _⟩ := hRun passing cascadeLimit meddledActs r later hPlayed
  have hAssigned : r.assigned =
      [⟨Descriptor.mouseEnabled, true⟩, ⟨Descriptor.loggingEnabled, true⟩,
        ⟨Descriptor.loggingEnabled, false⟩, ⟨Descriptor.confirmQuit, false⟩,
        ⟨Descriptor.saveHistory, true⟩] := by
    cases hStart
    cases hPlayed
    decide +kernel
  rw [hAssigned] at hAttempts
  refine ⟨hAttempts, ?_⟩
  rw [hMemory, hAttempts]
  rfl

end Registry

end Switchboard

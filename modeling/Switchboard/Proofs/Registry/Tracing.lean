import Switchboard.Proofs.Registry.Hearing

/-!
# The trace of a set

Whatever listeners do, what a set comes to is told by the assignments made in its course: the
positions are those that the assignments bring about, the assignments are what has been submitted,
and the listeners stay connected.
-/

namespace Switchboard.Registry

open RecordFile (also)
open WriteQueue (wantedAfter)

/-- The saves submitted so far, attempted or not, oldest first. -/
def submitted (r : Registry) : List SaveRequest :=
  (r.queue.map WriteQueue.ledger).getD []

/-- The queue is as it is between two calls, if there is one. -/
def Orderly (r : Registry) : Prop :=
  ∀ q, r.queue = some q → q.Orderly

/-- What some assignments made in turn come to. -/
structure Trace (made : List SaveRequest) (r later : Registry) : Prop where
  listeners : later.listeners = r.listeners
  signal : later.signal = r.signal
  ids : later.ids = r.ids
  assigned : later.assigned = r.assigned ++ made
  isBool : ∀ request ∈ made, request.value.isBool = true
  known : ∀ request ∈ made, request.id ∈ r.ids
  position : later.position? = wantedAfter made r.position?
  orderly : r.Orderly → later.Orderly
  queue : later.queue.isSome = r.queue.isSome
  submitted : r.Orderly → r.queue.isSome = true → later.submitted = r.submitted ++ made

variable {id : Text} {value : Json} {b : Bool} {r later : Registry} {host : Host}
  {made : List SaveRequest} {s : Setting}

theorem ids_assign (id : Text) (b : Bool) (r : Registry) : (r.assign id b).ids = r.ids := by
  rw [ids, assign, List.map_map, ids]
  refine List.map_congr_left fun s _ => ?_
  rw [Function.comp_apply]
  split
  · rfl
  · rfl

theorem Trace.refl (r : Registry) : Trace [] r r where
  listeners := rfl
  signal := rfl
  ids := rfl
  assigned := (List.append_nil _).symm
  isBool := by simp
  known := by simp
  position := rfl
  orderly h := h
  queue := rfl
  submitted _ _ := (List.append_nil _).symm

theorem Trace.trans {more : List SaveRequest} {last : Registry} (h : Trace made r later)
    (hNext : Trace more later last) : Trace (made ++ more) r last where
  listeners := hNext.listeners.trans h.listeners
  signal := hNext.signal.trans h.signal
  ids := hNext.ids.trans h.ids
  assigned := by rw [hNext.assigned, h.assigned, List.append_assoc]
  isBool := List.forall_mem_append.mpr ⟨h.isBool, hNext.isBool⟩
  known := List.forall_mem_append.mpr
    ⟨h.known, fun request hMem => h.ids ▸ hNext.known request hMem⟩
  position := by rw [hNext.position, h.position, wantedAfter, wantedAfter, wantedAfter,
    List.foldl_append]
  orderly hOrderly := hNext.orderly (h.orderly hOrderly)
  queue := hNext.queue.trans h.queue
  submitted hOrderly hSome := by
    rw [hNext.submitted (h.orderly hOrderly) (h.queue.trans hSome), h.submitted hOrderly hSome,
      List.append_assoc]

theorem Trace.hear (h : Trace made r later) (heard : List Heard) :
    Trace made r { later with heard } :=
  ⟨h.listeners, h.signal, h.ids, h.assigned, h.isBool, h.known, h.position, h.orderly, h.queue,
    h.submitted⟩

theorem trace_submit (hKnown : id ∈ r.ids) (b : Bool) (host : Host) :
    Trace [⟨id, .bool b⟩] r ((r.assign id b).submit id b host).1 := by
  have hPosition : (r.assign id b).position? = wantedAfter [⟨id, .bool b⟩] r.position? :=
    position?_assign (Option.isSome_iff_exists.mpr ((r.mem_ids_iff id).mp hKnown)) b
  have hBool : ∀ request ∈ [(⟨id, .bool b⟩ : SaveRequest)], request.value.isBool = true := by
    simp [Json.isBool]
  have hIds : ∀ request ∈ [(⟨id, .bool b⟩ : SaveRequest)], request.id ∈ r.ids := by simpa
  cases hQueue : r.queue with
  | none =>
    have hNone : (r.assign id b).queue = none := hQueue
    rw [submit, hNone]
    refine ⟨rfl, rfl, ids_assign id b r, rfl, hBool, hIds, hPosition, fun h => h, rfl, ?_⟩
    intro _ hSome
    rw [hQueue] at hSome
    cases hSome
  | some q =>
    rw [submit_eq (r := r.assign id b) hQueue]
    refine ⟨rfl, rfl, ids_assign id b r, rfl, hBool, hIds, hPosition, ?_, ?_, ?_⟩
    · rintro hOrderly _ ⟨⟩
      exact (hOrderly q hQueue).submit _ host
    · rw [hQueue]
      rfl
    · intro hOrderly _
      have hLedger : r.submitted = q.ledger := by rw [submitted, hQueue]; rfl
      rw [hLedger, ← WriteQueue.ledger_submit (hOrderly q hQueue).idle _ host]
      rfl

theorem exists_trace (limit : Nat) (id : Text) (value : Json) (r : Registry) (host : Host) :
    ∃ made, Trace made r (setWithin limit id value r host).2.1 := by
  have hSteady : Steady fun s t => s = t ∧ ∃ made, Trace made r s.1 := by
    apply steady_self
    · rintro s change ⟨made, h⟩
      exact ⟨made, h.hear _⟩
    · intro s log h
      exact h
    · rintro s id b hKnown ⟨made, h⟩
      have hMem := (s.1.mem_ids_iff id).mpr (Option.isSome_iff_exists.mp hKnown)
      exact ⟨_, h.trans (trace_submit hMem b s.2)⟩
  exact (hSteady.setWithin limit (s := (r, host)) id value ⟨rfl, [], .refl r⟩).2.2

/-- An accepted set is traced by its own assignment and those that listeners make after it. -/
theorem exists_trace_cons {limit : Nat} (h : (setWithin limit id (.bool b) r host).1 = .ok ()) :
    ∃ nested, Trace (⟨id, .bool b⟩ :: nested) r (setWithin limit id (.bool b) r host).2.1 := by
  obtain ⟨made, hTrace⟩ := exists_trace limit id (.bool b) r host
  rcases setWithin_cases limit id (.bool b) r host with
    ⟨e, hRejected⟩ | ⟨_, nested, hValue, hAssigned, _⟩
  · rw [hRejected] at h
    cases h
  cases hValue
  obtain rfl : made = ⟨id, .bool b⟩ :: nested :=
    List.append_cancel_left (hTrace.assigned.symm.trans hAssigned)
  exact ⟨nested, hTrace⟩

theorem setWith_of_known (hSignal : r.signal.Contains) (hSetting : r.setting? id = some s)
    (nested : Setter) (b : Bool) (host : Host) :
    (setWith nested id (.bool b) r host).1 = .ok () := by
  unfold setWith
  rw [hSetting]
  dsimp only
  split
  · rfl
  · rw [submit_signal]
    exact announce_of_contains hSignal _ _ _ _ _ _

theorem set_of_known (hSignal : r.signal.Contains) (hSetting : r.setting? id = some s) (b : Bool)
    (host : Host) : (r.set id (.bool b) host).1 = .ok () :=
  setWith_of_known hSignal hSetting (setWithin 324) b host

/-- Where nothing changes, or nobody listens, a set does no more than its own assignment. -/
theorem set_of_unanswered (hSetting : r.setting? id = some s)
    (h : s.value.equalsBool b = true ∨ r.listeners = []) (host : Host) :
    (r.set id (.bool b) host).1 = .ok () ∧
      Trace [⟨id, .bool b⟩] r (r.set id (.bool b) host).2.1 := by
  have hOwn := trace_submit ((r.mem_ids_iff id).mpr ⟨s, hSetting⟩) b host
  have hListeners : ((r.assign id b).submit id b host).1.listeners = r.listeners :=
    (submit_notices id b _ host).1
  change (setWith (setWithin 324) id (.bool b) r host).1 = _ ∧
    Trace _ r (setWith (setWithin 324) id (.bool b) r host).2.1
  unfold setWith
  rw [hSetting]
  dsimp only
  split
  · exact ⟨rfl, hOwn⟩
  · rename_i hMoves
    rw [hListeners, h.resolve_left hMoves]
    exact ⟨rfl, hOwn⟩

/-- Setting a known switch is submitted once, ahead of what listeners set in answer to it. -/
theorem exists_trace_set (hSignal : r.signal.Contains) (hSetting : r.setting? id = some s)
    (b : Bool) (host : Host) :
    ∃ nested, Trace (⟨id, .bool b⟩ :: nested) r (r.set id (.bool b) host).2.1 ∧
      (r.get id = .ok (.bool b) ∨ r.listeners = [] → nested = []) := by
  obtain ⟨nested, hTrace⟩ := exists_trace_cons (set_of_known hSignal hSetting b host)
  refine ⟨nested, hTrace, ?_⟩
  intro h
  have hUnanswered : s.value.equalsBool b = true ∨ r.listeners = [] := by
    refine h.imp_left fun hGet => ?_
    rw [get, hSetting] at hGet
    obtain hValue : s.value = .bool b := Except.ok.inj hGet
    rw [hValue, Json.equalsBool_bool, beq_self_eq_true]
  obtain ⟨_, hAlone⟩ := set_of_unanswered hSetting hUnanswered host
  have hSame := List.append_cancel_left (hTrace.assigned.symm.trans hAlone.assigned)
  exact (List.cons.inj hSame).2

end Switchboard.Registry

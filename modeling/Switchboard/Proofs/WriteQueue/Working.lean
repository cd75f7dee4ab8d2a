import Switchboard.WriteQueue

/-!
# How the worker gets through the write queue

Between two calls of the client the worker has nothing but saves to go through, or the queue is
closed and nothing is left. A drain or a close ends with everything attempted.
-/

namespace Switchboard.WriteQueue

/-- What has not been finished, oldest first. -/
def items (q : WriteQueue) : List WorkItem :=
  q.inHand.toList ++ q.waiting

structure Orderly (q : WriteQueue) : Prop where
  idle : q.closed = true → q.items = []
  busy : q.closed = false → q.workerAlive = true ∧ .stop ∉ q.items

variable {q : WriteQueue} {host : Host}

/-! ## What a step leaves of the queue -/

theorem attempt_frame (request : SaveRequest) (q : WriteQueue) (host : Host) :
    ∃ backend outcome lastError, (q.attempt request host).1 =
      { q with
        backend
        attempts := q.attempts ++ [request]
        outcomes := q.outcomes ++ [outcome]
        lastError } := by
  obtain ⟨result, backend, after, hSave⟩ : ∃ result backend after,
      q.backend.save request.id request.value host = (result, backend, after) := ⟨_, _, _, rfl⟩
  rw [attempt]
  rw [hSave]
  cases result with
  | ok _ => exact ⟨backend, none, q.lastError, rfl⟩
  | error e => exact ⟨backend, some _, some _, rfl⟩

theorem take_frame (q : WriteQueue) : ∃ inHand waiting, q.take = { q with inHand, waiting } := by
  rw [take]
  split
  · exact ⟨_, _, rfl⟩
  · exact ⟨q.inHand, q.waiting, rfl⟩

theorem beginClose_frame (q : WriteQueue) :
    ∃ closed waiting, q.beginClose = { q with closed, waiting } := by
  rw [beginClose]
  split
  · exact ⟨q.closed, q.waiting, rfl⟩
  · exact ⟨_, _, rfl⟩

theorem take_of_items {item : WorkItem} {rest : List WorkItem} (hAlive : q.workerAlive = true)
    (h : q.items = item :: rest) : q.take = { q with inHand := some item, waiting := rest } := by
  obtain ⟨backend, waiting, inHand, attempts, outcomes, lastError, closed, workerAlive⟩ := q
  obtain rfl : workerAlive = true := hAlive
  cases inHand with
  | none =>
    obtain rfl : waiting = item :: rest := h
    rfl
  | some held =>
    obtain ⟨rfl, rfl⟩ := List.cons.inj h
    rfl

theorem items_of_inHand {item : WorkItem} (h : q.inHand = some item) :
    q.items = item :: q.waiting := by
  rw [items, h]
  rfl

theorem items_take (q : WriteQueue) : q.take.items = q.items := by
  rw [take]
  split
  · rename_i hHand hWaiting
    rw [items, items, hHand, hWaiting]
    rfl
  · rfl

theorem finish_of_idle (h : q.inHand = none) (host : Host) : q.finish host = (q, host) := by
  rw [finish, h]

theorem take_of_idle (h : q.items = []) : q.take = q := by
  obtain ⟨hHand, hWaiting⟩ := List.append_eq_nil_iff.mp h
  rw [take]
  rw [hWaiting]
  split
  · rename_i hCons
    cases hCons
  · rfl

theorem finish_save {request : SaveRequest} (h : q.inHand = some (.save request)) (host : Host) :
    q.finish host =
      host.actingAs .worker fun host => ({ q with inHand := none }).attempt request host := by
  rw [finish, h]

/-! ## Going through the items -/

theorem work_of_idle (h : q.items = []) (count : Nat) (host : Host) :
    work count q host = (q, host) := by
  induction count with
  | zero => rfl
  | succ count ih =>
    have hHand : q.inHand = none :=
      Option.toList_eq_nil_iff.mp (List.append_eq_nil_iff.mp h).1
    rw [work, take_of_idle h, finish_of_idle hHand]
    exact ih

/-- When nothing comes after a stop mark, enough steps of the worker leave nothing. -/
theorem work_spec {count : Nat} (hAlive : q.workerAlive = true)
    (hStops : .stop ∉ q.items.dropLast) (hCount : q.items.length ≤ count) (host : Host) :
    (work count q host).1.items = [] ∧ (work count q host).1.closed = q.closed ∧
      (.stop ∉ q.items → (work count q host).1.workerAlive = true) := by
  induction count generalizing q host with
  | zero =>
    have hItems := List.length_eq_zero_iff.mp (Nat.le_zero.mp hCount)
    exact ⟨hItems, rfl, fun _ => hAlive⟩
  | succ count ih =>
    cases hItems : q.items with
    | nil =>
      rw [work_of_idle hItems]
      exact ⟨hItems, rfl, fun _ => hAlive⟩
    | cons item rest =>
      rw [hItems] at hStops hCount
      rw [work, take_of_items hAlive hItems]
      cases item with
      | stop =>
        obtain rfl : rest = [] := by
          cases rest with
          | nil => rfl
          | cons next others => exact absurd List.mem_cons_self hStops
        rw [finish]
        dsimp only
        rw [work_of_idle rfl]
        exact ⟨rfl, rfl, fun hNone => absurd List.mem_cons_self hNone⟩
      | save request =>
        obtain ⟨backend, outcome, lastError, hAttempt⟩ :=
          attempt_frame request { q with inHand := none, waiting := rest }
            { host with acting := .worker }
        rw [finish_save rfl]
        rw [Host.actingAs]
        dsimp only
        rw [hAttempt]
        have hRest : .stop ∉ rest.dropLast := by
          cases rest with
          | nil => exact List.not_mem_nil
          | cons next others => exact fun hMem => hStops (List.mem_cons_of_mem _ hMem)
        obtain ⟨hEmpty, hClosed, hStill⟩ := ih
          (q := { q with
            backend
            inHand := none
            waiting := rest
            attempts := q.attempts ++ [request]
            outcomes := q.outcomes ++ [outcome]
            lastError }) hAlive hRest (Nat.le_of_succ_le_succ hCount)
          { ((({ q with inHand := none, waiting := rest } : WriteQueue).attempt request
              { host with acting := .worker }).2) with acting := host.acting }
        exact ⟨hEmpty, hClosed, fun hNone => hStill fun hMem =>
          hNone (List.mem_cons_of_mem _ hMem)⟩

/-! ## Between two calls of the client -/

theorem orderly_new (backend : Backend) : ({ backend } : WriteQueue).Orderly :=
  ⟨fun hClosed => Bool.noConfusion hClosed, fun _ => ⟨rfl, List.not_mem_nil⟩⟩

theorem Orderly.take (h : q.Orderly) : q.take.Orderly := by
  obtain ⟨inHand, waiting, hTake⟩ := q.take_frame
  have hItems := items_take q
  rw [hTake] at hItems ⊢
  constructor
  · intro hClosed
    exact hItems.trans (h.idle hClosed)
  · intro hOpen
    rw [hItems]
    exact h.busy hOpen

theorem Orderly.attempt (h : q.Orderly) (request : SaveRequest) (host : Host) :
    (q.attempt request host).1.Orderly := by
  obtain ⟨backend, outcome, lastError, hAttempt⟩ := attempt_frame request q host
  rw [hAttempt]
  exact ⟨h.idle, h.busy⟩

theorem Orderly.finish (h : q.Orderly) (host : Host) : (q.finish host).1.Orderly := by
  cases hHand : q.inHand with
  | none =>
    rw [finish_of_idle hHand]
    exact h
  | some item =>
    have hItems := items_of_inHand hHand
    have hOpen : q.closed = false := by
      cases hClosed : q.closed with
      | false => rfl
      | true => rw [h.idle hClosed] at hItems; cases hItems
    obtain ⟨hAlive, hNone⟩ := h.busy hOpen
    rw [hItems, List.mem_cons, not_or] at hNone
    cases item with
    | stop => exact absurd rfl hNone.1
    | save request =>
      have hFreed : Orderly { q with inHand := none } := by
        constructor
        · intro hClosed
          rw [hOpen] at hClosed
          cases hClosed
        · intro _
          exact ⟨hAlive, hNone.2⟩
      rw [finish_save hHand]
      exact hFreed.attempt request _

theorem items_submit (request : SaveRequest) (q : WriteQueue) :
    ({ q with waiting := q.waiting ++ [.save request] } : WriteQueue).items =
      q.items ++ [.save request] :=
  (List.append_assoc _ _ _).symm

theorem Orderly.submit (h : q.Orderly) (request : SaveRequest) (host : Host) :
    (q.submit request host).1.Orderly := by
  rw [WriteQueue.submit]
  split
  · exact h.attempt request _
  · rename_i hOpen
    obtain ⟨hAlive, hStops⟩ := h.busy (by simpa using hOpen)
    constructor
    · intro hClosed
      exact absurd hClosed hOpen
    · intro _
      rw [items_submit]
      refine ⟨hAlive, fun hMem => ?_⟩
      rcases List.mem_append.mp hMem with hOld | hNew
      · exact hStops hOld
      · cases List.mem_singleton.mp hNew

theorem length_items_le (q : WriteQueue) : q.items.length ≤ q.waiting.length + 1 := by
  rw [items, List.length_append]
  cases q.inHand with
  | none => simp
  | some item => simp [Nat.add_comm]

theorem Orderly.drain (h : q.Orderly) (host : Host) :
    (q.drain host).1.Orderly ∧ (q.drain host).1.items = [] := by
  cases hClosed : q.closed with
  | true =>
    have hItems := h.idle hClosed
    rw [WriteQueue.drain, work_of_idle hItems]
    exact ⟨h, hItems⟩
  | false =>
    obtain ⟨hAlive, hStops⟩ := h.busy hClosed
    obtain ⟨hEmpty, hStill, hLives⟩ := work_spec hAlive
      (fun hMem => hStops (List.dropLast_subset _ hMem)) (length_items_le q) host
    refine ⟨⟨fun _ => hEmpty, fun _ => ⟨hLives hStops, ?_⟩⟩, hEmpty⟩
    rw [WriteQueue.drain, hEmpty]
    exact List.not_mem_nil

theorem items_beginClose (hOpen : q.closed = false) :
    q.beginClose.items = q.items ++ [.stop] := by
  rw [beginClose, if_neg (by simp [hOpen])]
  exact (List.append_assoc _ _ _).symm

theorem Orderly.close (h : q.Orderly) (host : Host) :
    (q.close host).1.Orderly ∧ (q.close host).1.items = [] := by
  cases hClosed : q.closed with
  | true =>
    rw [WriteQueue.close, beginClose, if_pos hClosed]
    exact h.drain host
  | false =>
    obtain ⟨hAlive, hStops⟩ := h.busy hClosed
    have hItems := items_beginClose hClosed
    have hBegun : q.beginClose = { q with closed := true, waiting := q.waiting ++ [.stop] } := by
      rw [beginClose, if_neg (by simp [hClosed])]
    obtain ⟨hEmpty, hStill, _⟩ := work_spec (q := q.beginClose) (by rw [hBegun]; exact hAlive)
      (by rw [hItems, List.dropLast_concat]; exact hStops) (length_items_le q.beginClose) host
    refine ⟨⟨fun _ => hEmpty, fun hOpen => ?_⟩, hEmpty⟩
    rw [WriteQueue.close, WriteQueue.drain, hStill, hBegun] at hOpen
    cases hOpen

/-! ## The stop mark -/

theorem closed_take (q : WriteQueue) : q.take.closed = q.closed := by
  obtain ⟨inHand, waiting, hTake⟩ := q.take_frame
  rw [hTake]

theorem closed_finish (q : WriteQueue) (host : Host) : (q.finish host).1.closed = q.closed := by
  rw [WriteQueue.finish]
  split
  · rfl
  · rfl
  · rename_i request _
    obtain ⟨backend, outcome, lastError, hAttempt⟩ :=
      attempt_frame request { q with inHand := none } { host with acting := .worker }
    rw [Host.actingAs]
    dsimp only
    rw [hAttempt]

/-- The worker lives only until it comes to a stop mark that is in the queue. -/
def Stopping (q : WriteQueue) : Prop :=
  q.workerAlive = true → .stop ∈ q.items

theorem Stopping.take (h : q.Stopping) : q.take.Stopping := by
  obtain ⟨inHand, waiting, hTake⟩ := q.take_frame
  intro hAlive
  rw [hTake] at hAlive
  rw [items_take]
  exact h hAlive

theorem Stopping.finish (h : q.Stopping) (host : Host) : (q.finish host).1.Stopping := by
  cases hHand : q.inHand with
  | none =>
    rw [finish_of_idle hHand]
    exact h
  | some item =>
    rw [Stopping, items_of_inHand hHand] at h
    cases item with
    | stop =>
      rw [WriteQueue.finish, hHand]
      exact nofun
    | save request =>
      obtain ⟨backend, outcome, lastError, hAttempt⟩ :=
        attempt_frame request { q with inHand := none } { host with acting := .worker }
      rw [finish_save hHand, Host.actingAs]
      dsimp only
      rw [hAttempt]
      intro hAlive
      exact (List.mem_cons.mp (h hAlive)).resolve_left nofun

theorem Stopping.work (h : q.Stopping) (count : Nat) (host : Host) :
    (work count q host).1.Stopping := by
  induction count generalizing q host with
  | zero => exact h
  | succ count ih => exact ih (h.take.finish host) _

theorem workerAlive_close (h : q.Orderly) (hOpen : q.closed = false) (host : Host) :
    (q.close host).1.workerAlive = false := by
  have hStopping : q.beginClose.Stopping := by
    intro _
    rw [items_beginClose hOpen]
    exact List.mem_append_right _ List.mem_cons_self
  refine Bool.eq_false_iff.mpr fun hAlive => ?_
  have hStop : .stop ∈ (q.close host).1.items := hStopping.work _ host hAlive
  rw [(h.close host).2] at hStop
  cases hStop

end Switchboard.WriteQueue

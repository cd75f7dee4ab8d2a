import Switchboard.Proofs.WriteQueue.Serving

/-!
# The ledger of the write queue

The saves attempted so far, followed by those outstanding, are the ledger of the queue. The worker
and a closing client leave it as it is, and a submission adds one entry at its end.
-/

namespace Switchboard.WriteQueue

def ledger (q : WriteQueue) : List SaveRequest :=
  q.attempts ++ q.outstanding

variable {q : WriteQueue}

theorem ledger_of_idle (h : q.items = []) : q.ledger = q.attempts := by
  rw [ledger, outstanding_of_idle h, List.append_nil]

theorem attempts_attempt (request : SaveRequest) (q : WriteQueue) (host : Host) :
    (q.attempt request host).1.attempts = q.attempts ++ [request] := by
  obtain ⟨backend, outcome, lastError, hAttempt⟩ := attempt_frame request q host
  rw [hAttempt]

theorem ledger_attempt (request : SaveRequest) (q : WriteQueue) (host : Host) :
    (q.attempt request host).1.ledger = q.attempts ++ request :: q.outstanding := by
  rw [ledger, attempts_attempt, outstanding_attempt, List.append_assoc, List.singleton_append]

theorem ledger_take (q : WriteQueue) : q.take.ledger = q.ledger := by
  have hAttempts : q.take.attempts = q.attempts := by
    obtain ⟨inHand, waiting, hTake⟩ := q.take_frame
    rw [hTake]
  rw [ledger, hAttempts, outstanding, items_take, ledger, outstanding]

theorem ledger_finish (q : WriteQueue) (host : Host) : (q.finish host).1.ledger = q.ledger := by
  cases hHand : q.inHand with
  | none => rw [finish_of_idle hHand]
  | some item =>
    have hItems := items_of_inHand hHand
    cases item with
    | stop =>
      rw [finish, hHand]
      simp only [ledger, outstanding, hItems]
      rfl
    | save request =>
      have hOutstanding :
          q.outstanding = request :: ({ q with inHand := none } : WriteQueue).outstanding := by
        rw [outstanding, hItems]
        rfl
      have hAttempt :=
        ledger_attempt request { q with inHand := none } { host with acting := .worker }
      rw [finish_save hHand, ledger.eq_def q, hOutstanding]
      exact hAttempt

theorem ledger_work (count : Nat) (q : WriteQueue) (host : Host) :
    (work count q host).1.ledger = q.ledger := by
  induction count generalizing q host with
  | zero => rfl
  | succ count ih =>
    rw [work]
    exact (ih _ _).trans ((ledger_finish _ host).trans (ledger_take q))

theorem ledger_beginClose (q : WriteQueue) : q.beginClose.ledger = q.ledger := by
  cases hClosed : q.closed with
  | true => rw [beginClose, if_pos hClosed]
  | false =>
    have hAttempts : q.beginClose.attempts = q.attempts := by
      obtain ⟨closed, waiting, hBegun⟩ := q.beginClose_frame
      rw [hBegun]
    rw [ledger, hAttempts, outstanding, items_beginClose hClosed, List.filterMap_append]
    exact congrArg (q.attempts ++ ·) (List.append_nil _)

/-- A save submitted to a queue that is closed is attempted at once, so nothing may be outstanding
then. -/
theorem ledger_submit (h : q.closed = true → q.items = []) (request : SaveRequest) (host : Host) :
    (q.submit request host).1.ledger = q.ledger ++ [request] := by
  rw [submit]
  split
  · rename_i hClosed
    rw [ledger_attempt, outstanding_of_idle (h hClosed), ledger_of_idle (h hClosed)]
  · simp only [ledger, outstanding, items_submit, List.filterMap_append, List.append_assoc]
    rfl

end Switchboard.WriteQueue

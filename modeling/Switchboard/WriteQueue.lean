import Switchboard.Backend

/-!
# The write queue

Values to be saved wait in a queue, and a worker takes and saves them one at a time. Two parties
act on the queue: the client submits and closes, the worker takes and finishes. Closing puts a stop
mark behind everything submitted so far and waits until the worker has reached it; what is submitted
later is saved at once. A failed save never reaches whoever submitted it: it is logged and
remembered.
-/

namespace Switchboard

structure SaveRequest where
  id : Text
  value : Json
  deriving DecidableEq

inductive WorkItem
  | save (request : SaveRequest)
  | stop
  deriving DecidableEq

structure WriteQueue where
  backend : Backend
  /-- What waits, oldest first. -/
  waiting : List WorkItem := []
  /-- What the worker has taken and not finished. -/
  inHand : Option WorkItem := none
  /-- The saves attempted so far, oldest first. -/
  attempts : List SaveRequest := []
  /-- How they ended, with nothing for a success. -/
  outcomes : List (Option Failure) := []
  lastError : Option Failure := none
  closed : Bool := false
  workerAlive : Bool := true

namespace WriteQueue

/-- A failure as it is remembered: one not made by saving is wrapped in one that is. -/
def asPersistence (id : Text) (e : Failure) : Failure :=
  if e.isPersistence then e
  else .persistence ("Failed to save " ++ id ++ ": " ++ e.message) (some e)

/-- Attempts one save, on behalf of whoever acts on the host. -/
def attempt (request : SaveRequest) (q : WriteQueue) (host : Host) : WriteQueue × Host :=
  let attempts := q.attempts ++ [request]
  match q.backend.save request.id request.value host with
  | (.ok (), backend, host) =>
    ({ q with backend, attempts, outcomes := q.outcomes ++ [none] }, host)
  | (.error e, backend, host) =>
    let error := asPersistence request.id e
    ({ q with
        backend
        attempts
        outcomes := q.outcomes ++ [some error]
        lastError := some error },
      host.note .error .storage ("Failed to persist " ++ request.id ++ ": " ++ error.message))

/-! ## The client's side -/

def submit (request : SaveRequest) (q : WriteQueue) (host : Host) : WriteQueue × Host :=
  if q.closed then
    q.attempt request
      (host.note .warning .storage ("Writer closed, saving " ++ request.id ++ " synchronously"))
  else
    ({ q with waiting := q.waiting ++ [.save request] }, host)

/-- Begins to close the queue; nothing happens to a queue that is closed. -/
def beginClose (q : WriteQueue) : WriteQueue :=
  if q.closed then q else { q with closed := true, waiting := q.waiting ++ [.stop] }

/-! ## The worker's side -/

/-- Takes the oldest item, when there is one and the hand is free. -/
def take (q : WriteQueue) : WriteQueue :=
  match q.workerAlive, q.inHand, q.waiting with
  | true, none, item :: rest => { q with inHand := some item, waiting := rest }
  | _, _, _ => q

def finish (q : WriteQueue) (host : Host) : WriteQueue × Host :=
  match q.inHand with
  | none => (q, host)
  | some .stop => ({ q with inHand := none, workerAlive := false }, host)
  | some (.save request) =>
    host.actingAs .worker fun host => ({ q with inHand := none }).attempt request host

def work : Nat → WriteQueue → Host → WriteQueue × Host
  | 0, q, host => (q, host)
  | count + 1, q, host =>
    let (q, host) := q.take.finish host
    work count q host

/-- Waits until everything submitted has been attempted. -/
def drain (q : WriteQueue) (host : Host) : WriteQueue × Host :=
  work (q.waiting.length + 1) q host

def close (q : WriteQueue) (host : Host) : WriteQueue × Host :=
  q.beginClose.drain host

end WriteQueue

end Switchboard

import Switchboard.Proofs.WriteQueue.Ledger

/-!
# One client and one worker

The client submits saves, waits until all of them have been attempted, and closes the queue; the
worker takes and finishes one item at a time. Their moves follow each other in any order, and the
client does nothing while a call of its own has not returned. In whatever order they move, saves are
attempted in the order of their submission, each once, and the worker lives until it has reached the
stop mark.
-/

namespace Switchboard.WriteQueue

/-- What the client waits for in a call that has not returned. -/
inductive Wait
  | nothing
  | idleQueue
  | endOfWorker
  deriving DecidableEq

def Wait.IsOver : Wait → WriteQueue → Prop
  | nothing, _ => False
  | idleQueue, q => q.items = []
  | endOfWorker, q => q.workerAlive = false

structure Interplay where
  queue : WriteQueue
  host : Host
  wait : Wait := .nothing

inductive Move
  | submit (request : SaveRequest)
  | flush
  | close
  /-- The call that the client waits in returns. -/
  | resume
  | take
  | finish
  /-- The host has changed. -/
  | outside (host : Host)

def Move.Enabled : Move → Interplay → Prop
  | submit _, s => s.wait = .nothing
  | flush, s => s.wait = .nothing
  | close, s => s.wait = .nothing
  | resume, s => s.wait.IsOver s.queue
  | take, _ => True
  | finish, _ => True
  | outside _, _ => True

def Move.effect : Move → Interplay → Interplay
  | submit request, s =>
    let (queue, host) := s.queue.submit request s.host
    { s with queue, host }
  | flush, s => { s with wait := .idleQueue }
  | close, s =>
    { s with
      queue := s.queue.beginClose
      wait := if s.queue.closed then .nothing else .endOfWorker }
  | resume, s => { s with wait := .nothing }
  | take, s => { s with queue := s.queue.take }
  | finish, s =>
    let (queue, host) := s.queue.finish s.host
    { s with queue, host }
  | outside host, s => { s with host }

def play (moves : List Move) (s : Interplay) : Interplay :=
  moves.foldl (fun s move => move.effect s) s

def Playable : List Move → Interplay → Prop
  | [], _ => True
  | move :: rest, s => move.Enabled s ∧ Playable rest (move.effect s)

instance (w : Wait) (q : WriteQueue) : Decidable (w.IsOver q) :=
  match w with
  | .nothing => inferInstanceAs (Decidable False)
  | .idleQueue => inferInstanceAs (Decidable (q.items = []))
  | .endOfWorker => inferInstanceAs (Decidable (q.workerAlive = false))

instance (move : Move) (s : Interplay) : Decidable (move.Enabled s) :=
  match move with
  | .submit _ | .flush | .close => inferInstanceAs (Decidable (s.wait = .nothing))
  | .resume => inferInstanceAs (Decidable (s.wait.IsOver s.queue))
  | .take | .finish | .outside _ => inferInstanceAs (Decidable True)

instance decidablePlayable : ∀ (moves : List Move) (s : Interplay), Decidable (Playable moves s)
  | [], _ => inferInstanceAs (Decidable True)
  | move :: rest, s =>
    have := decidablePlayable rest (move.effect s)
    inferInstanceAs (Decidable (move.Enabled s ∧ Playable rest (move.effect s)))

def submissions (moves : List Move) : List SaveRequest :=
  moves.filterMap fun
    | .submit request => some request
    | _ => none

def rounds (count : Nat) : List Move :=
  (List.replicate count [Move.take, Move.finish]).flatten

/-- A remembered failure stands for one that was raised: it is that one itself, or it names it as
its cause. -/
def StandsFor (error raised : Failure) : Prop :=
  if raised.isPersistence then error = raised
  else ∃ message, error = .persistence message (some raised)

/-- What is remembered of the ends of some saves: the last failure among them. -/
def Recalls (ends : List (Option Failure)) : Option Failure → Prop
  | none => ∀ ended ∈ ends, ended = none
  | some error => ∃ before raised after, ends = before ++ some raised :: after ∧
      (∀ ended ∈ after, ended = none) ∧ StandsFor error raised

/-- How far the queue has come, by what the client waits for. -/
inductive Course (q : WriteQueue) : Wait → Prop
  | serving {wait : Wait} (hOpen : q.closed = false) (hAlive : q.workerAlive = true)
      (hStops : .stop ∉ q.items) (hWait : wait ≠ .endOfWorker) : Course q wait
  | closing (rest : List WorkItem) (hClosed : q.closed = true) (hAlive : q.workerAlive = true)
      (hItems : q.items = rest ++ [.stop]) (hStops : .stop ∉ rest) : Course q .endOfWorker
  | closed {wait : Wait} (hClosed : q.closed = true) (hDead : q.workerAlive = false)
      (hItems : q.items = []) : Course q wait

variable {q : WriteQueue} {wait : Wait} {host : Host} {s : Interplay} {script : Script}

/-! ## The course of a queue -/

theorem Course.items_of_closed (h : Course q wait) (hWait : wait ≠ .endOfWorker)
    (hClosed : q.closed = true) : q.items = [] := by
  cases h with
  | serving hOpen _ _ _ =>
    rw [hOpen] at hClosed
    cases hClosed
  | closing => exact absurd rfl hWait
  | closed _ _ hItems => exact hItems

theorem Course.alive_of_open (h : Course q wait) (hOpen : q.closed = false) :
    q.workerAlive = true := by
  cases h with
  | serving _ hAlive _ _ => exact hAlive
  | closing _ _ hAlive _ _ => exact hAlive
  | closed hClosed _ _ =>
    rw [hOpen] at hClosed
    cases hClosed

theorem Course.items_of_isOver (h : Course q wait) (hOver : wait.IsOver q) : q.items = [] := by
  cases h with
  | serving _ _ _ hWait =>
    cases wait with
    | nothing => cases hOver
    | idleQueue => exact hOver
    | endOfWorker => exact absurd rfl hWait
  | closing _ _ hAlive _ _ =>
    have hDead : q.workerAlive = false := hOver
    rw [hDead] at hAlive
    cases hAlive
  | closed _ _ hItems => exact hItems

theorem Course.attempt (h : Course q wait) (request : SaveRequest) (host : Host) :
    Course (q.attempt request host).1 wait := by
  obtain ⟨backend, outcome, lastError, hAttempt⟩ := attempt_frame request q host
  rw [hAttempt]
  cases h with
  | serving hOpen hAlive hStops hWait => exact .serving hOpen hAlive hStops hWait
  | closing rest hClosed hAlive hItems hStops =>
    exact .closing rest hClosed hAlive hItems hStops
  | closed hClosed hDead hItems => exact .closed hClosed hDead hItems

theorem Course.submit (h : Course q .nothing) (request : SaveRequest) (host : Host) :
    Course (q.submit request host).1 .nothing := by
  rw [WriteQueue.submit]
  split
  · exact h.attempt request _
  · rename_i hOpen
    cases h with
    | serving hOpen hAlive hStops hWait =>
      refine .serving hOpen hAlive ?_ hWait
      rw [items_submit]
      simp [hStops]
    | closed hClosed _ _ => exact absurd hClosed hOpen

theorem Course.beginClose (h : Course q .nothing) :
    Course q.beginClose (if q.closed then .nothing else .endOfWorker) := by
  cases h with
  | closed hClosed hDead hItems =>
    rw [WriteQueue.beginClose, if_pos hClosed, if_pos hClosed]
    exact .closed hClosed hDead hItems
  | serving hOpen hAlive hStops _ =>
    have hNot : ¬ q.closed = true := by simp [hOpen]
    have hBegun : q.beginClose = { q with closed := true, waiting := q.waiting ++ [.stop] } := by
      rw [WriteQueue.beginClose, if_neg hNot]
    rw [if_neg hNot]
    refine .closing q.items ?_ ?_ (items_beginClose hOpen) hStops
    · rw [hBegun]
    · rw [hBegun]
      exact hAlive

theorem Course.take (h : Course q wait) : Course q.take wait := by
  obtain ⟨inHand, waiting, hTake⟩ := q.take_frame
  have hItems := items_take q
  rw [hTake] at hItems ⊢
  cases h with
  | serving hOpen hAlive hStops hWait => exact .serving hOpen hAlive (hItems ▸ hStops) hWait
  | closing rest hClosed hAlive hLast hStops =>
    exact .closing rest hClosed hAlive (hItems.trans hLast) hStops
  | closed hClosed hDead hNone => exact .closed hClosed hDead (hItems.trans hNone)

theorem Course.finish (h : Course q wait) (host : Host) : Course (q.finish host).1 wait := by
  cases hHand : q.inHand with
  | none =>
    rw [finish_of_idle hHand]
    exact h
  | some item =>
    have hHeld := items_of_inHand hHand
    cases item with
    | save request =>
      have hFreed : Course { q with inHand := none } wait := by
        cases h with
        | serving hOpen hAlive hStops hWait =>
          rw [hHeld] at hStops
          exact .serving hOpen hAlive (fun hMem => hStops (List.mem_cons_of_mem _ hMem)) hWait
        | closing rest hClosed hAlive hItems hStops =>
          rw [hHeld] at hItems
          cases rest with
          | nil => cases hItems
          | cons first others =>
            exact .closing others hClosed hAlive (List.cons.inj hItems).2
              (fun hMem => hStops (List.mem_cons_of_mem _ hMem))
        | closed _ _ hItems =>
          rw [hHeld] at hItems
          cases hItems
      rw [finish_save hHand]
      exact hFreed.attempt request _
    | stop =>
      rw [WriteQueue.finish, hHand]
      cases h with
      | serving _ _ hStops _ =>
        rw [hHeld] at hStops
        exact absurd List.mem_cons_self hStops
      | closing rest hClosed _ hItems hStops =>
        rw [hHeld] at hItems
        cases rest with
        | nil => exact .closed hClosed rfl (List.cons.inj hItems).2
        | cons first others =>
          rw [← (List.cons.inj hItems).1] at hStops
          exact absurd List.mem_cons_self hStops
      | closed _ _ hItems =>
        rw [hHeld] at hItems
        cases hItems

theorem Course.effect {move : Move} (h : Course s.queue s.wait) (hEnabled : move.Enabled s) :
    Course (move.effect s).queue (move.effect s).wait := by
  obtain ⟨q, host, wait⟩ := s
  cases move with
  | submit request =>
    obtain rfl : wait = .nothing := hEnabled
    exact h.submit request host
  | flush =>
    obtain rfl : wait = .nothing := hEnabled
    cases h with
    | serving hOpen hAlive hStops _ => exact .serving hOpen hAlive hStops nofun
    | closed hClosed hDead hItems => exact .closed hClosed hDead hItems
  | close =>
    obtain rfl : wait = .nothing := hEnabled
    exact h.beginClose
  | resume =>
    cases h with
    | serving hOpen hAlive hStops _ => exact .serving hOpen hAlive hStops nofun
    | closing _ _ hAlive _ _ =>
      have hDead : q.workerAlive = false := hEnabled
      rw [hDead] at hAlive
      cases hAlive
    | closed hClosed hDead hItems => exact .closed hClosed hDead hItems
  | take => exact h.take
  | finish => exact h.finish host
  | outside host => exact h

theorem ledger_effect {move : Move} (h : Course s.queue s.wait) (hEnabled : move.Enabled s) :
    (move.effect s).queue.ledger = s.queue.ledger ++ submissions [move] := by
  cases move with
  | submit request =>
    have hFree : s.wait = .nothing := hEnabled
    exact ledger_submit (h.items_of_closed (by simp [hFree])) request s.host
  | flush => exact (List.append_nil _).symm
  | close => exact (ledger_beginClose s.queue).trans (List.append_nil _).symm
  | resume => exact (List.append_nil _).symm
  | take => exact (ledger_take s.queue).trans (List.append_nil _).symm
  | finish => exact (ledger_finish s.queue s.host).trans (List.append_nil _).symm
  | outside host => exact (List.append_nil _).symm

/-! ## What is remembered of failures -/

theorem standsFor_asPersistence (id : Text) (e : Failure) : StandsFor (asPersistence id e) e := by
  rw [StandsFor, asPersistence]
  split
  · rfl
  · exact ⟨_, rfl⟩

theorem Recalls.success {ends : List (Option Failure)} {lastError : Option Failure}
    (h : Recalls ends lastError) : Recalls (ends ++ [none]) lastError := by
  cases lastError with
  | none => exact List.forall_mem_append.mpr ⟨h, by simp⟩
  | some error =>
    obtain ⟨before, raised, after, rfl, hAfter, hError⟩ := h
    refine ⟨before, raised, after ++ [none], by simp, ?_, hError⟩
    exact List.forall_mem_append.mpr ⟨hAfter, by simp⟩

theorem recalls_failure (ends : List (Option Failure)) (id : Text) (e : Failure) :
    Recalls (ends ++ [some e]) (some (asPersistence id e)) :=
  ⟨ends, e, [], rfl, by simp, standsFor_asPersistence id e⟩

/-- The queue saves by a script, and remembers the last failure that the script has told so far. -/
structure Obeys (script : Script) (q : WriteQueue) : Prop where
  backend : q.backend = .script { script with saves := script.saves.drop q.attempts.length }
  recalls : Recalls (script.saves.take q.attempts.length) q.lastError

theorem Obeys.attempt (h : Obeys script q) (request : SaveRequest) (host : Host) :
    Obeys script (q.attempt request host).1 := by
  unfold WriteQueue.attempt
  dsimp only
  rw [h.backend]
  cases hDrop : script.saves.drop q.attempts.length with
  | nil =>
    have hLength := List.drop_eq_nil_iff.mp hDrop
    have hNext := Nat.le_succ_of_le hLength
    have hRecalls := h.recalls
    rw [List.take_of_length_le hLength] at hRecalls
    constructor
    · simp [Backend.save, List.drop_eq_nil_iff.mpr hNext]
    · simpa [Backend.save, List.take_of_length_le hNext] using hRecalls
  | cons first rest =>
    have hRest : script.saves.drop (q.attempts.length + 1) = rest := by
      rw [← List.tail_drop, hDrop]
      rfl
    have hTaken : script.saves.take (q.attempts.length + 1) =
        script.saves.take q.attempts.length ++ [first] := by
      rw [List.take_add_one, ← List.head?_drop, hDrop]
      rfl
    cases first with
    | none =>
      constructor
      · simp [Backend.save, hRest]
      · simpa [Backend.save, hTaken] using h.recalls.success
    | some e =>
      constructor
      · simp [Backend.save, hRest]
      · simpa [Backend.save, hTaken] using
          recalls_failure (script.saves.take q.attempts.length) request.id e

theorem Obeys.effect (h : Obeys script s.queue) (move : Move) :
    Obeys script (move.effect s).queue := by
  cases move with
  | submit request =>
    change Obeys script (s.queue.submit request s.host).1
    rw [WriteQueue.submit]
    split
    · exact h.attempt request _
    · exact ⟨h.backend, h.recalls⟩
  | flush => exact h
  | close =>
    obtain ⟨closed, waiting, hBegun⟩ := s.queue.beginClose_frame
    change Obeys script s.queue.beginClose
    rw [hBegun]
    exact ⟨h.backend, h.recalls⟩
  | resume => exact h
  | take =>
    obtain ⟨inHand, waiting, hTake⟩ := s.queue.take_frame
    change Obeys script s.queue.take
    rw [hTake]
    exact ⟨h.backend, h.recalls⟩
  | finish =>
    change Obeys script (s.queue.finish s.host).1
    rw [WriteQueue.finish]
    split
    · exact h
    · exact ⟨h.backend, h.recalls⟩
    · rename_i request _
      have hFreed : Obeys script { s.queue with inHand := none } := ⟨h.backend, h.recalls⟩
      exact hFreed.attempt request _
  | outside host => exact h

/-! ## Whole runs -/

theorem playable_append {before after : List Move} :
    Playable (before ++ after) s ↔ Playable before s ∧ Playable after (play before s) := by
  induction before generalizing s with
  | nil => simp [Playable, play]
  | cons move rest ih =>
    change move.Enabled s ∧ Playable (rest ++ after) (move.effect s) ↔
      (move.Enabled s ∧ Playable rest (move.effect s)) ∧ Playable after (play rest (move.effect s))
    rw [ih, and_assoc]

theorem Course.play {moves : List Move} (h : Course s.queue s.wait) (hPlayable : Playable moves s) :
    Course (play moves s).queue (play moves s).wait := by
  induction moves generalizing s with
  | nil => exact h
  | cons move rest ih => exact ih (h.effect hPlayable.1) hPlayable.2

theorem ledger_play {moves : List Move} (h : Course s.queue s.wait)
    (hPlayable : Playable moves s) :
    (play moves s).queue.ledger = s.queue.ledger ++ submissions moves := by
  -- over the moves; only the client's submissions add to the ledger, at its end
  induction moves generalizing s with
  | nil => exact (List.append_nil _).symm
  | cons move rest ih =>
    have hSplit : submissions (move :: rest) = submissions [move] ++ submissions rest :=
      List.filterMap_append (l := [move])
    have hRest := ih (h.effect hPlayable.1) hPlayable.2
    rw [ledger_effect h hPlayable.1, List.append_assoc, ← hSplit] at hRest
    exact hRest

theorem Obeys.play (h : Obeys script s.queue) (moves : List Move) :
    Obeys script (play moves s).queue := by
  induction moves generalizing s with
  | nil => exact h
  | cons move rest ih => exact ih (h.effect move)

theorem rounds_succ (count : Nat) : rounds (count + 1) = .take :: .finish :: rounds count := by
  simp [rounds, List.replicate_succ]

theorem play_rounds (count : Nat) (s : Interplay) : Playable (rounds count) s ∧
    play (rounds count) s =
      { s with
        queue := (work count s.queue s.host).1
        host := (work count s.queue s.host).2 } := by
  induction count generalizing s with
  | zero => exact ⟨trivial, rfl⟩
  | succ count ih =>
    obtain ⟨hPlayable, hPlay⟩ := ih (Move.finish.effect (Move.take.effect s))
    rw [rounds_succ]
    exact ⟨⟨trivial, trivial, hPlayable⟩, hPlay⟩

theorem Course.work_idle (h : Course q wait) (host : Host) :
    (work q.items.length q host).1.items = [] := by
  cases h with
  | serving _ hAlive hStops _ =>
    exact (work_spec hAlive (fun hMem => hStops (List.dropLast_subset _ hMem)) le_rfl host).1
  | closing rest _ hAlive hItems hStops =>
    refine (work_spec hAlive ?_ le_rfl host).1
    rw [hItems, List.dropLast_concat]
    exact hStops
  | closed _ _ hItems =>
    rw [work_of_idle hItems]
    exact hItems

theorem Course.isOver_of_idle (h : Course q wait) (hIdle : q.items = []) (hWait : wait ≠ .nothing) :
    wait.IsOver q := by
  cases wait with
  | nothing => exact absurd rfl hWait
  | idleQueue => exact hIdle
  | endOfWorker =>
    cases h with
    | serving _ _ _ hNot => exact absurd rfl hNot
    | closing rest _ _ hItems _ =>
      rw [hIdle] at hItems
      simp at hItems
    | closed _ hDead _ => exact hDead

/-- Whatever the client waits for comes about by the moves of the worker. -/
theorem Course.playable_resume (h : Course s.queue s.wait) (hWait : s.wait ≠ .nothing) :
    Playable (rounds s.queue.items.length ++ [.resume]) s := by
  obtain ⟨hPlayable, hPlay⟩ := play_rounds s.queue.items.length s
  have hLater := h.play hPlayable
  have hIdle := h.work_idle s.host
  rw [hPlay] at hLater
  rw [playable_append, hPlay]
  exact ⟨hPlayable, hLater.isOver_of_idle hIdle hWait, trivial⟩

/-- In whatever order the client and the worker move, the saves attempted so far, followed by those
in hand and waiting, are those submitted, in the order of their submission. A call that waits returns
when everything has been attempted, and the worker lets every such call return. The worker lives
until the queue is closed, and the last failure of a save is what is remembered. -/
theorem saves_in_order_of_submission (backend : Backend) (host : Host) (moves : List Move)
    (s : Interplay) (hPlay : play moves { queue := { backend }, host } = s)
    (hPlayable : Playable moves { queue := { backend }, host }) :
    s.queue.attempts ++ s.queue.outstanding = submissions moves ∧
      (Move.resume.Enabled s → s.queue.attempts = submissions moves) ∧
      (s.wait = .nothing → s.queue.closed = true → s.queue.attempts = submissions moves) ∧
      (s.wait ≠ .nothing → ∃ count, Playable (rounds count ++ [.resume]) s) ∧
      (s.queue.closed = false → s.queue.workerAlive = true) ∧
      ∀ script, backend = .script script →
        Recalls (script.saves.take s.queue.attempts.length) s.queue.lastError := by
  subst hPlay
  have hNew : Course ({ backend } : WriteQueue) .nothing := .serving rfl rfl List.not_mem_nil nofun
  have hCourse := Course.play (s := { queue := { backend }, host }) hNew hPlayable
  have hLedger := ledger_play (s := { queue := { backend }, host }) hNew hPlayable
  generalize hPlay : play moves { queue := { backend }, host } = s at hCourse hLedger ⊢
  refine ⟨hLedger, ?_, ?_, ?_, hCourse.alive_of_open, ?_⟩
  · intro hOver
    rw [← ledger_of_idle (hCourse.items_of_isOver hOver)]
    exact hLedger
  · intro hFree hClosed
    rw [← ledger_of_idle (hCourse.items_of_closed (by simp [hFree]) hClosed)]
    exact hLedger
  · intro hWait
    exact ⟨_, hCourse.playable_resume hWait⟩
  · rintro script rfl
    have hObeys : Obeys script ({ backend := .script script } : WriteQueue) :=
      ⟨rfl, by simp [Recalls]⟩
    rw [← hPlay]
    exact (Obeys.play (s := { queue := { backend := .script script }, host }) hObeys moves).recalls

def troubledScript : Script where
  saves := [some (.reported .execution "disk on fire"), none, some (.persistence "full" none)]

def troubledStart : Interplay where
  queue := { backend := .script troubledScript }
  host := .sample []

def troubledMoves : List Move :=
  [.submit ⟨"a", true⟩, .take, .submit ⟨"b", false⟩, .flush, .finish, .take, .finish, .resume,
    .submit ⟨"a", false⟩, .close, .take, .finish, .take, .finish, .resume, .submit ⟨"c", true⟩]

/-- Two of four saves fail, and the last one comes after the close. -/
theorem troubled_saves_in_order :
    Playable troubledMoves troubledStart ∧
      (play troubledMoves troubledStart).queue.attempts =
        [⟨"a", true⟩, ⟨"b", false⟩, ⟨"a", false⟩, ⟨"c", true⟩] ∧
      Recalls (troubledScript.saves.take 4) (play troubledMoves troubledStart).queue.lastError := by
  have hPlayable : Playable troubledMoves troubledStart := by decide +kernel
  obtain ⟨_, _, hAttempts, _, _, hRecalls⟩ :=
    saves_in_order_of_submission (.script troubledScript) troubledStart.host troubledMoves _ rfl
      hPlayable
  have hDone := hAttempts (by decide +kernel) (by decide +kernel)
  refine ⟨hPlayable, hDone, ?_⟩
  have hRecalled := hRecalls troubledScript rfl
  rw [hDone] at hRecalled
  exact hRecalled

end Switchboard.WriteQueue

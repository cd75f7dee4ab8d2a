import Switchboard.Proofs.Client.Lifetimes
import Switchboard.Proofs.Client.Logging
import Switchboard.Proofs.Client.Teardown
import Switchboard.Proofs.Registry.Confluence

/-!
# After the first shutdown

A client that has been shut down still handles lines and still lets switches be set. What is set is
then saved at once, so that every later shutdown finds it in the settings file. The transcript is
another matter: a line that is logged opens it again, and no later shutdown closes it, since only
the first one does anything.
-/

namespace Switchboard

open FileTree
open RecordFile (recordAt Reaches)

namespace WriteQueue

theorem closed_submit (request : SaveRequest) (q : WriteQueue) (host : Host) :
    (q.submit request host).1.closed = q.closed := by
  rw [submit]
  split
  · obtain ⟨backend, outcome, lastError, hAttempt⟩ := attempt_frame request q
      (host.note .warning .storage ("Writer closed, saving " ++ request.id ++ " synchronously"))
    rw [hAttempt]
  · rfl

theorem closed_work (count : Nat) (q : WriteQueue) (host : Host) :
    (work count q host).1.closed = q.closed := by
  induction count generalizing q host with
  | zero => rfl
  | succ count ih =>
    rw [work]
    exact (ih _ _).trans ((closed_finish _ host).trans (closed_take q))

theorem closed_close (q : WriteQueue) (host : Host) : (q.close host).1.closed = true := by
  refine (closed_work _ _ host).trans ?_
  rw [beginClose]
  split
  · assumption
  · rfl

theorem lastSucceeded_of_all {q : WriteQueue} (h : ∀ outcome ∈ q.outcomes, outcome = none) :
    q.LastSucceeded := by
  cases hLast : q.outcomes.getLast? with
  | none => exact .inl (List.getLast?_eq_none_iff.mp hLast)
  | some outcome => exact .inr (by rw [hLast, h outcome (List.mem_of_getLast? hLast)])

end WriteQueue

namespace Registry

/-- Saves are made by whoever sets a switch. -/
def Closed (r : Registry) : Prop :=
  ∃ q, r.queue = some q ∧ q.closed = true

/-- In the end the settings file at the path is to hold the last position that each switch has been
given, and what was held for those that have been given none. -/
def Owes (path : FilePath) (held : Text → Option Json) (r : Registry) (tree : FileTree) : Prop :=
  ∃ q, r.queue = some q ∧ q.Orderly ∧
    q.Serves path (WriteQueue.wantedAfter r.assigned held) tree

variable {r first : Registry} {host : Host} {path : FilePath} {held : Text → Option Json}
  {tree : FileTree}

theorem Closed.set (h : r.Closed) (id : Text) (value : Json) (host : Host) :
    (r.set id value host).2.1.Closed := by
  have hSteady : Steady fun s t => s = t ∧ s.1.Closed := by
    apply steady_self
    · intro s change h
      exact h
    · intro s log h
      exact h
    · rintro s id b _ ⟨q, hQueue, hClosed⟩
      rw [submit_eq (r := s.1.assign id b) hQueue]
      exact ⟨_, rfl, (WriteQueue.closed_submit _ q s.2).trans hClosed⟩
  exact (hSteady.setWithin cascadeLimit (s := (r, host)) id value ⟨rfl, h⟩).2.2

theorem Closed.overQueue (h : r.Closed) {act : WriteQueue → Host → WriteQueue × Host}
    (hAct : ∀ q, q.closed = true → (act q host).1.closed = true) :
    (r.overQueue act host).1.Closed := by
  obtain ⟨q, hQueue, hClosed⟩ := h
  rw [Registry.overQueue, hQueue]
  exact ⟨_, rfl, hAct q hClosed⟩

theorem InStep.attempts_of_closed (h : InStep first r) (hClosed : r.Closed) :
    r.attempts = r.assigned := by
  obtain ⟨q, hQueue, hOrderly, hLedger⟩ := h.queue
  obtain ⟨other, hOther, hDone⟩ := hClosed
  obtain rfl : q = other := Option.some.inj (hQueue.symm.trans hOther)
  rw [Registry.attempts, hQueue]
  exact (WriteQueue.ledger_of_idle (hOrderly.idle hDone)).symm.trans hLedger

theorem Stopped.closed (h : r.Stopped) (hInStep : InStep first r) : r.Closed := by
  obtain ⟨q, hQueue, hOrderly, _⟩ := hInStep.queue
  obtain ⟨other, hOther, _, _, hDead⟩ := h
  obtain rfl : q = other := Option.some.inj (hQueue.symm.trans hOther)
  refine ⟨q, hQueue, ?_⟩
  by_contra hOpen
  rw [(hOrderly.busy (Bool.eq_false_iff.mpr hOpen)).1] at hDead
  cases hDead

theorem Owes.extends {kept : FilePath → Prop} {later : FileTree} (h : r.Owes path held tree)
    (hTree : Extends kept tree later) (hKept : kept path) : r.Owes path held later := by
  obtain ⟨q, hQueue, hOrderly, hServes⟩ := h
  exact ⟨q, hQueue, hOrderly, hServes.extends hTree hKept⟩

theorem Owes.set (h : r.Owes path held host.tree) {tag : Text}
    (hListeners : r.listeners = [.recorder tag])
    (hNames : ∀ id, (r.setting? id).isSome = true → id.Encodable) (id : Text) (value : Json) :
    (r.set id value host).2.1.Owes path held (r.set id value host).2.2.tree := by
  rcases set_state hListeners id value host with hNone | ⟨b, heard, log, rfl, hKnown, hSet⟩
  · rw [hNone]
    exact h
  · obtain ⟨q, hQueue, hOrderly, hServes⟩ := h
    have hRequest : SaveRequest.IsSwitch ⟨id, .bool b⟩ := ⟨hNames id hKnown, b, rfl⟩
    have hServed := (hServes.submit hOrderly hRequest).1
    rw [hSet, submit_eq (r := r.assign id b) hQueue]
    refine ⟨_, rfl, hOrderly.submit _ host, ?_⟩
    change (q.submit ⟨id, .bool b⟩ host).1.Serves path
      (WriteQueue.wantedAfter (r.assigned ++ [⟨id, .bool b⟩]) held) _
    rw [WriteQueue.wantedAfter, List.foldl_concat]
    exact hServed

theorem Owes.overQueue (h : r.Owes path held host.tree)
    {act : WriteQueue → Host → WriteQueue × Host}
    (hAct : ∀ q wanted, q.Orderly → q.Serves path wanted host.tree →
      (act q host).1.Orderly ∧ (act q host).1.Serves path wanted (act q host).2.tree) :
    (r.overQueue act host).1.Owes path held (r.overQueue act host).2.tree := by
  obtain ⟨q, hQueue, hOrderly, hServes⟩ := h
  obtain ⟨hAfter, hServed⟩ := hAct q _ hOrderly hServes
  rw [Registry.overQueue, hQueue]
  exact ⟨_, rfl, hAfter, hServed⟩

/-- With every save made and none failed, the settings file holds the last position of each switch
that has been set. -/
theorem Owes.stored (h : r.Owes path held tree) (hClosed : r.Closed)
    (hSaved : ∀ outcome ∈ r.outcomes, outcome = none) {id : Text} {request : SaveRequest}
    (hLast : lastSave? id r.assigned = some request) :
    (recordAt tree path).get? id = some request.value := by
  obtain ⟨q, hQueue, hOrderly, hServes⟩ := h
  obtain ⟨other, hOther, hDone⟩ := hClosed
  obtain rfl : q = other := Option.some.inj (hQueue.symm.trans hOther)
  rw [outcomes, hQueue] at hSaved
  rw [hServes.recordAt (WriteQueue.outstanding_of_idle (hOrderly.idle hDone))
    (WriteQueue.lastSucceeded_of_all hSaved), wantedAfter_eq, hLast]
  rfl

end Registry

namespace Client

/-- Whether a line that is for the transcript is written to it. -/
def Step.succeeds : Step → Client × Host → Bool
  | line text, s => !s.1.logs text ||
    match (s.1.transcript.write true text s.2).1 with
    | .ok written => written
    | .error _ => false
  | _, _ => true

def losesNoLine : List Step → Client × Host → Bool
  | [], _ => true
  | step :: rest, s => step.succeeds s && losesNoLine rest (step.apply s)

/-- A line has been logged after a shutdown, and logging has been on ever since. -/
def Reopened (steps : List Step) (s : Client × Host) : Prop :=
  ∃ before text after, steps = before ++ .line text :: after ∧
    (run before s).1.down = true ∧ (run before s).1.logs text = true ∧
    ∀ part, part <+: after → (run (before ++ .line text :: part) s).1.registry.isOn
      Descriptor.loggingEnabled = .ok true

variable {settingsDirectory logDirectory : FilePath} {c : Client} {host : Host}
  {s : Client × Host} {steps : List Step} {step : Step}

theorem run_concat (steps : List Step) (step : Step) (s : Client × Host) :
    run (steps ++ [step]) s = step.apply (run steps s) := by
  rw [run, run, List.foldl_concat]

theorem losesNoLine_concat (steps : List Step) (step : Step) (s : Client × Host) :
    losesNoLine (steps ++ [step]) s = (losesNoLine steps s && step.succeeds (run steps s)) := by
  induction steps generalizing s with
  | nil => simp [losesNoLine, run]
  | cons first rest ih =>
    rw [List.cons_append, losesNoLine, ih, losesNoLine, Bool.and_assoc]
    rfl

/-! ## Being shut down -/

theorem down_shutdown (c : Client) (host : Host) : (c.shutdown host).2.1.down = true := by
  rw [Client.shutdown]
  split
  · assumption
  · dsimp only
    split
    · rfl
    · split
      · rfl
      · rfl

theorem down_apply_iff (step : Step) (s : Client × Host) :
    (step.apply s).1.down = true ↔ s.1.down = true ∨ step = .shutdown := by
  cases step with
  | line text =>
    change (s.1.handleLine text s.2).2.1.down = true ↔ _
    rw [(handleLine_frame text s.1 s.2).2]
    simp
  | shutdown => exact iff_of_true (down_shutdown s.1 s.2) (.inr rfl)
  | _ => exact ⟨.inl, fun h => h.resolve_right nofun⟩

theorem apply_shutdown_of_down (h : s.1.down = true) :
    (Step.shutdown.apply s).1 = s.1 := by
  change (s.1.shutdown s.2).2.1 = s.1
  rw [Client.shutdown, if_pos h]

theorem down_run_iff (steps : List Step) (s : Client × Host) :
    (run steps s).1.down = true ↔ s.1.down = true ∨ .shutdown ∈ steps := by
  induction steps using List.reverseRecOn with
  | nil => simp [run]
  | append_singleton steps step ih =>
    rw [run_concat, down_apply_iff, ih, or_assoc, List.mem_append, List.mem_singleton,
      eq_comm (a := step)]

theorem down_of_reopened (h : Reopened steps s) : (run steps s).1.down = true := by
  obtain ⟨before, text, after, rfl, hDown, _⟩ := h
  rw [run, List.foldl_append]
  exact (down_run_iff (.line text :: after) _).mpr (.inl hDown)

theorem reopened_concat_iff (steps : List Step) (step : Step) (s : Client × Host) :
    Reopened (steps ++ [step]) s ↔
      (step.apply (run steps s)).1.registry.isOn Descriptor.loggingEnabled = .ok true ∧
        (Reopened steps s ∨ (run steps s).1.down = true ∧
          ∃ text, step = .line text ∧ (run steps s).1.logs text = true) := by
  rw [← run_concat]
  constructor
  · rintro ⟨before, text, after, hSteps, hDown, hLogs, hOn⟩
    refine ⟨hSteps ▸ hOn after List.prefix_rfl, ?_⟩
    rcases List.eq_nil_or_concat after with rfl | ⟨earlier, last, rfl⟩
    · obtain ⟨rfl, hLast⟩ := List.append_inj' hSteps rfl
      exact .inr ⟨hDown, text, List.singleton_inj.mp hLast, hLogs⟩
    · rw [List.concat_eq_append, ← List.cons_append, ← List.append_assoc] at hSteps
      obtain ⟨rfl, -⟩ := List.append_inj' hSteps rfl
      exact .inl ⟨before, text, earlier, rfl, hDown, hLogs, fun part hPart =>
        hOn part (List.concat_eq_append ▸ hPart.trans (List.prefix_append earlier [last]))⟩
  · rintro ⟨hLast, ⟨before, text, after, rfl, hDown, hLogs, hOn⟩ | ⟨hDown, text, rfl, hLogs⟩⟩
    · refine ⟨before, text, after ++ [step], by simp, hDown, hLogs, fun part hPart => ?_⟩
      rcases List.prefix_concat_iff.mp hPart with rfl | hEarlier
      · simpa using hLast
      · exact hOn part hEarlier
    · refine ⟨steps, text, [], rfl, hDown, hLogs, fun part hPart => ?_⟩
      rw [List.prefix_nil.mp hPart]
      exact hLast

theorem reopened_shutdown_iff (steps : List Step) (s : Client × Host) :
    Reopened (steps ++ [.shutdown]) s ↔ Reopened steps s := by
  rw [reopened_concat_iff]
  constructor
  · rintro ⟨_, hReopened | ⟨_, _, hLine, _⟩⟩
    · exact hReopened
    · cases hLine
  · intro hReopened
    have hOn : (run steps s).1.registry.isOn Descriptor.loggingEnabled = .ok true := by
      obtain ⟨before, text, after, rfl, _, _, hOn⟩ := hReopened
      exact hOn after List.prefix_rfl
    rw [apply_shutdown_of_down (down_of_reopened hReopened)]
    exact ⟨hOn, .inl hReopened⟩

/-! ## Being open -/

/-- As long as logging stays on, setting a switch does not close the transcript, and it never opens
it. -/
theorem isOpen_set (h : c.Attentive) (id : Text) (value : Json) (host : Host)
    (hOn : (c.set id value host).2.1.registry.isOn Descriptor.loggingEnabled = .ok true) :
    (c.set id value host).2.1.transcript.isOpen = c.transcript.isOpen := by
  change (c.registry.set id value host).2.1.isOn Descriptor.loggingEnabled = .ok true at hOn
  change ((({ c with registry := (c.registry.set id value host).2.1 } : Client).relay
    c.registry.heard.length (c.registry.set id value host).2.2).1).transcript.isOpen = _
  rcases Registry.set_cases h.listeners id value host with
    ⟨_, hNone⟩ | ⟨b, setting, rfl, hSetting, ⟨_, hSet⟩ | ⟨_, log, hSet⟩⟩
  · rw [hNone, relay, List.drop_length]
    rfl
  · have hHeard := (Registry.submit_notices id b (c.registry.assign id b) host).2
    rw [hSet, relay]
    rw [show ((c.registry.assign id b).submit id b host).1.heard = c.registry.heard from hHeard,
      List.drop_length]
    rfl
  · have hStaysOn : ¬ (id = Descriptor.loggingEnabled ∧ ¬ (Json.bool b).isTruthy) := by
      rintro ⟨rfl, hOff⟩
      rw [Registry.isOn_set_self h.listeners (by rw [hSetting]; rfl)] at hOn
      exact hOff (Except.ok.inj hOn)
    rw [hSet, relay]
    dsimp only
    rw [List.drop_left]
    change (c.transcript.settingChanged id (.bool b) _).1.isOpen = _
    rw [Transcript.settingChanged, if_neg hStaysOn]

theorem handleLine_of_command {line : Text} (hContained : c.registry.signal.Contains)
    (h : SetCommand.isCommand line = true) (host : Host) : (c.handleLine line host).2 =
      (execute line { c with history := c.history.add line } host).2 := by
  obtain ⟨reply, hReply⟩ := execute_of_command
    (c := { c with history := c.history.add line }) hContained h host
  rw [Client.handleLine]
  generalize Client.execute line { c with history := c.history.add line } host = executed
    at hReply ⊢
  obtain ⟨result, after, later⟩ := executed
  obtain rfl : result = .ok (some reply) := hReply
  rfl

theorem handleLine_of_not_command {line : Text} (h : SetCommand.isCommand line = false)
    {on : Bool} (hOn : c.registry.isOn Descriptor.loggingEnabled = .ok on) (host : Host) :
    (c.handleLine line host).2.1 =
      { c with
        history := c.history.add line
        transcript := (c.transcript.write on line host).2.1 } := by
  rw [Client.handleLine, execute_of_not_command h]
  dsimp only
  rw [Client.record]
  dsimp only
  rw [hOn]
  dsimp only
  generalize c.transcript.write on line host = written
  obtain ⟨result, transcript, later⟩ := written
  cases result with
  | error e => rfl
  | ok _ => rfl

/-- The line, or nothing at all, is what opens the transcript. -/
theorem isOpen_handleLine_iff (hReady : c.Ready logDirectory host.tree) (h : c.Attentive)
    {line : Text} (hSucceeds : (Step.line line).succeeds (c, host) = true)
    (hOn : (c.handleLine line host).2.1.registry.isOn Descriptor.loggingEnabled = .ok true) :
    (c.handleLine line host).2.1.transcript.isOpen = true ↔
      c.transcript.isOpen = true ∨ c.logs line = true := by
  cases hCommand : SetCommand.isCommand line with
  | true =>
    have hLogs : c.logs line = false := by
      rw [logs, hCommand]
      rfl
    have hAdded : Attentive { c with history := c.history.add line } :=
      ⟨h.positions, h.listeners, h.on⟩
    rw [handleLine_of_command hReady.saving.contained hCommand] at hOn ⊢
    rw [hLogs]
    rcases execute_state line { c with history := c.history.add line } host with
      hNone | ⟨id, value, hSet⟩
    · rw [hNone]
      simp
    · rw [hSet] at hOn ⊢
      rw [isOpen_set hAdded id value host hOn]
      simp
  | false =>
    obtain ⟨on, hBefore⟩ :=
      Registry.exists_isOn (hReady.known Descriptor.loggingEnabled (by decide))
    rw [handleLine_of_not_command hCommand hBefore] at hOn ⊢
    obtain rfl : on = true := Except.ok.inj (hBefore.symm.trans hOn)
    have hLogs : c.logs line = true := by
      rw [logs, hCommand, hBefore]
      rfl
    have hWritten : (c.transcript.write true line host).1 = .ok true := by
      simp only [Step.succeeds, hLogs, Bool.not_true, Bool.false_or] at hSucceeds
      split at hSucceeds
      · rename_i hWrite
        rw [hWrite, hSucceeds]
      · cases hSucceeds
    exact iff_of_true ((Transcript.isOpen_write_iff true line c.transcript host).mpr hWritten)
      (.inr hLogs)

/-- Once a client is shut down, its transcript is open only as far as a line has opened it and
logging is still on. -/
theorem isOpen_apply_iff (hReady : s.1.Ready logDirectory s.2.tree) (h : s.1.Attentive)
    (hDown : s.1.down = true) (hSucceeds : step.succeeds s = true) :
    (step.apply s).1.transcript.isOpen = true ↔
      (step.apply s).1.registry.isOn Descriptor.loggingEnabled = .ok true ∧
        (s.1.transcript.isOpen = true ∨
          ∃ text, step = .line text ∧ s.1.logs text = true) := by
  have hAfter : (step.apply s).1.Attentive := attentive_kept.step h step fun _ _ => trivial
  refine (and_iff_right_of_imp hAfter.on).symm.trans (and_congr_right fun hOn => ?_)
  cases step with
  | line text =>
    refine (isOpen_handleLine_iff hReady h hSucceeds hOn).trans (or_congr_right ?_)
    simp
  | set id value =>
    have hSame := isOpen_set h id value s.2 hOn
    change (s.1.set id value s.2).2.1.transcript.isOpen = true ↔ _
    rw [hSame]
    simp
  | shutdown =>
    rw [apply_shutdown_of_down hDown]
    exact ⟨.inl, fun hOpen => hOpen.resolve_right nofun⟩
  | _ => exact ⟨.inl, fun hOpen => hOpen.resolve_right nofun⟩

/-! ## What shut-down clients keep to -/

/-- A client that can save its history, and does so as far as the system lets it. -/
structure Savable (settingsDirectory logDirectory : FilePath) (c : Client) (tree : FileTree) :
    Prop where
  ready : c.Ready logDirectory tree
  attentive : c.Attentive
  path : c.history.path = historyPath settingsDirectory
  entries : ∀ entry ∈ c.history.entries, entry.Encodable

theorem history_kept (settingsDirectory logDirectory : FilePath) :
    Kept Text.Encodable fun c _ => c.Framed logDirectory ∧
      c.history.path = historyPath settingsDirectory ∧
      ∀ entry ∈ c.history.entries, entry.Encodable := by
  apply kept_of_history (Q := fun h _ _ => h.path = historyPath settingsDirectory ∧
    ∀ entry ∈ h.entries, entry.Encodable)
  · rintro h _ _ line hLine ⟨hPath, hEntries⟩
    refine ⟨(path_add line h).trans hPath, fun entry hEntry => ?_⟩
    rcases History.mem_add hEntry with hOld | ⟨rfl, _⟩
    · exact hEntries entry hOld
    · exact hLine
  · exact fun _ h => h
  · exact fun h => h
  · exact fun _ h => h

theorem Savable.apply (h : Savable settingsDirectory logDirectory s.1 s.2.tree) (step : Step)
    (hLine : ∀ text, step = .line text → text.Encodable) :
    Savable settingsDirectory logDirectory (step.apply s).1 (step.apply s).2.tree := by
  have hFramed : s.1.Framed logDirectory :=
    ⟨h.ready.saving.askable, h.ready.tidy, h.ready.logs⟩
  obtain ⟨_, hPath, hEntries⟩ := (history_kept settingsDirectory logDirectory).step
    ⟨hFramed, h.path, h.entries⟩ step hLine
  exact ⟨h.ready.apply step, attentive_kept.step h.attentive step fun _ _ => trivial, hPath,
    hEntries⟩

theorem Savable.tornDown (h : Savable settingsDirectory logDirectory c host.tree)
    (hNameable : ¬ settingsDirectory.Unnameable) (hUp : c.down = false) :
    TornDown (c.shutdown host).1 (c.shutdown host).2.1 := by
  obtain ⟨kept, hKept⟩ :=
    Registry.exists_isOn (h.ready.known Descriptor.saveHistory (by decide))
  have hParent : ¬ c.history.path.parent.Unnameable := by
    rw [h.path, historyPath, FilePath.parent_child]
    exact hNameable
  have hName : c.history.path.Unnameable → c.history.path.parent.Unnameable := by
    rw [h.path, historyPath, FilePath.unnameable_child, FilePath.parent_child]
    exact fun hBoth => hBoth.resolve_right (by decide)
  refine h.ready.tornDown hUp hKept ((History.save_eq_ok_iff hName kept).mpr ?_)
  rintro ⟨_, ⟨_, hPath⟩ | ⟨_, _, _, entry, hEntry, hText⟩⟩
  · exact hParent hPath
  · exact hText (h.entries entry hEntry)

theorem closed_kept : Kept (fun _ => True) fun c _ => c.registry.Closed where
  add _ h := h
  set id value h := h.set id value _
  write _ _ h := h
  wheel _ h := h
  down h := h
  save _ _ h := h
  close h := h
  queue act h := by
    refine h.overQueue fun q hClosed => ?_
    cases act with
    | take => exact (WriteQueue.closed_take q).trans hClosed
    | finish => exact (WriteQueue.closed_finish q _).trans hClosed
    | close => exact WriteQueue.closed_close q _

/-- Once a client is shut down, its saves are made at once, and its transcript is open exactly if it
has been opened again. -/
structure Shut (steps : List Step) (s : Client × Host) : Prop where
  closed : (run steps s).1.registry.Closed
  reopened : (run steps s).1.transcript.isOpen = true ↔ Reopened steps s

theorem savable_shut (hNameable : ¬ settingsDirectory.Unnameable) (hUp : s.1.down = false)
    (h : Savable settingsDirectory logDirectory s.1 s.2.tree)
    (hLines : ∀ text, .line text ∈ steps → text.Encodable) (hKept : losesNoLine steps s = true) :
    Savable settingsDirectory logDirectory (run steps s).1 (run steps s).2.tree ∧
      ((run steps s).1.down = true → Shut steps s) := by
  induction steps using List.reverseRecOn with
  | nil => exact ⟨h, fun hDown => absurd hDown (by simp [run, hUp])⟩
  | append_singleton steps step ih =>
    obtain ⟨hEarlier, hLine⟩ := List.forall_mem_append.mp
      (show ∀ taken ∈ steps ++ [step], ∀ text, taken = .line text → text.Encodable from
        fun taken hTaken text hText => hLines text (hText ▸ hTaken))
    rw [losesNoLine_concat, Bool.and_eq_true] at hKept
    obtain ⟨hSavable, hShut⟩ := ih (fun text hText => hEarlier _ hText text rfl) hKept.1
    have hLine := hLine step (List.mem_singleton_self step)
    rw [run_concat]
    refine ⟨hSavable.apply step hLine, fun hDown => ?_⟩
    by_cases hBefore : (run steps s).1.down = true
    · obtain ⟨hClosed, hReopened⟩ := hShut hBefore
      constructor
      · rw [run_concat]
        exact closed_kept.step hClosed step fun _ _ => trivial
      · rw [run_concat, reopened_concat_iff, ← hReopened, and_iff_right hBefore]
        exact isOpen_apply_iff hSavable.ready hSavable.attentive hBefore hKept.2
    · -- this is the first shutdown
      obtain rfl := ((down_apply_iff step _).mp hDown).resolve_left hBefore
      obtain ⟨_, hClosed, hStopped⟩ :=
        hSavable.tornDown hNameable (Bool.eq_false_iff.mpr hBefore)
      obtain ⟨first, hInStep⟩ := (hSavable.apply .shutdown (by simp)).ready.saving.inStep
      constructor
      · rw [run_concat]
        exact hStopped.closed hInStep
      · rw [run_concat, reopened_concat_iff]
        refine iff_of_false ?_ ?_
        · change ¬ ((run steps s).1.shutdown (run steps s).2).2.1.transcript.isOpen = true
          rw [Transcript.isOpen, hClosed]
          simp
        · rintro ⟨_, hReopened | ⟨hDown, _⟩⟩
          · exact hBefore (down_of_reopened hReopened)
          · exact hBefore hDown

/-! ## What is owed to the settings file -/

theorem owes_leaves {r : Registry} {held : Text → Option Json} {t written : Transcript}
    {later : Host} (h : r.Owes (settingsPath settingsDirectory) held host.tree)
    (hLogs : t.directory = logDirectory) (hLeaves : t.Leaves host written later) :
    r.Owes (settingsPath settingsDirectory) held later.tree := by
  have hTree := hLeaves.tree
  rw [hLogs] at hTree
  exact h.extends hTree (elsewhere_settings _ _)

theorem owes_set {held : Text → Option Json}
    (hSound : Sound settingsDirectory logDirectory False c host.tree)
    (h : c.registry.Owes (settingsPath settingsDirectory) held host.tree) (id : Text)
    (value : Json) :
    (c.set id value host).2.1.registry.Owes (settingsPath settingsDirectory) held
      (c.set id value host).2.2.tree := by
  have hNames : ∀ name, (c.registry.setting? name).isSome = true → name.Encodable := by
    intro name hKnown
    obtain ⟨_, _, _, _, _, hSettings⟩ := hSound.registry
    obtain ⟨d, hd, rfl⟩ := List.mem_map.mp (Registry.mem_ids_of_setting? hKnown hSettings)
    exact encodable_of_mem_table d hd
  have hSet := h.set hSound.listeners hNames id value
  exact owes_leaves (t := c.transcript) hSet hSound.logs
    (Transcript.hear_leaves _ hSound.tidy _)

theorem owing_kept (settingsDirectory logDirectory : FilePath) (held : Text → Option Json) :
    Kept (fun _ => True) fun c tree => Sound settingsDirectory logDirectory False c tree ∧
      c.registry.Owes (settingsPath settingsDirectory) held tree := by
  have hSound := sound_kept settingsDirectory logDirectory False
  refine ⟨?_, ?_, ?_, ?_, ?_, ?_, ?_, ?_⟩
  · exact fun hLine h => ⟨hSound.add hLine h.1, h.2⟩
  · exact fun id value h => ⟨hSound.set id value h.1, owes_set h.1 h.2 id value⟩
  · exact fun line hOn h => ⟨hSound.write line hOn h.1,
      owes_leaves h.2 h.1.logs (Transcript.write_leaves _ line h.1.tidy _)⟩
  · exact fun scrollback h => ⟨hSound.wheel scrollback h.1, h.2⟩
  · exact fun h => ⟨hSound.down h.1, h.2⟩
  · intro c host kept hDown h
    have hTree := (c.history.save_spec kept host).tree
    rw [h.1.history] at hTree
    exact ⟨hSound.save kept hDown h.1, h.2.extends hTree (apart_history _)⟩
  · exact fun h => ⟨hSound.close h.1, owes_leaves h.2 h.1.logs (Transcript.close_leaves h.1.tidy _)⟩
  · intro c host act h
    refine ⟨hSound.queue act h.1, h.2.overQueue fun q wanted hOrderly hServes => ?_⟩
    cases act with
    | take => exact ⟨hOrderly.take, hServes.take⟩
    | finish => exact ⟨hOrderly.finish _, hServes.finish.1⟩
    | close => exact ⟨(hOrderly.close _).1, (hServes.beginClose.work _).1⟩

/-! ## Starting -/

theorem savable_of_start {later : Host} {started : Client}
    (h : Client.start settingsDirectory logDirectory none host = (.ok started, later)) :
    Savable settingsDirectory logDirectory started later.tree where
  ready := ready_of_start (by simp) h
  attentive := attentive_of_start (by simp) h
  path := by
    rcases history_of_start h with hNew | ⟨_, _, _, _, hLoaded⟩
    · rw [hNew]
    · rw [hLoaded]
  entries := by
    rcases history_of_start h with hNew | ⟨contents, t, _, hText, hLoaded⟩
    · rw [hNew]
      exact nofun
    · intro entry hEntry
      have hEntries : started.history.entries = History.newest 500 (History.entriesOf t) := by
        rw [hLoaded]
      rw [hEntries] at hEntry
      have hMem := (History.newest_suffix 500 (History.entriesOf t)).subset hEntry
      rw [History.entriesOf_eq] at hMem
      exact Text.encodable_of_mem_lines (Utf8.encodable_of_decode hText) hMem

theorem assigned_of_start {backend : Backend} {index : DescriptorIndex} {r : Registry}
    {later : Host} (h : Registry.start index (some backend) host = (.ok r, later)) :
    r.assigned = [] := by
  rw [Registry.start] at h
  split at h
  · cases h
  · cases h
    rfl

theorem owes_of_start {later : Host} {started : Client}
    (hReaches : Reaches host.tree (settingsPath settingsDirectory))
    (hFault : host.faults.openFile = none)
    (h : Client.start settingsDirectory logDirectory none host = (.ok started, later)) :
    ∃ held, Sound settingsDirectory logDirectory False started later.tree ∧
      started.registry.Owes (settingsPath settingsDirectory) held later.tree := by
  obtain ⟨result, log, hStart, hSound, _⟩ :=
    start_spec settingsDirectory logDirectory host hReaches hFault
  obtain ⟨rfl, rfl⟩ := Prod.mk.inj (hStart.symm.trans h)
  obtain ⟨_, hRegistry, hListeners, hTidy, hLogs, hHistory, _⟩ := hSound started rfl
  obtain ⟨r, _, _, _, hStarted, _, _, hConnected, _⟩ := parts_of_start h
  have hNone : started.registry.assigned = [] := by
    rw [hConnected]
    change r.assigned = []
    exact assigned_of_start hStarted
  obtain ⟨q, wanted, hQueue, hOrderly, hServes, hSettings⟩ := hRegistry
  refine ⟨wanted, ⟨⟨q, wanted, hQueue, hOrderly, hServes, hSettings⟩, hListeners, hTidy, hLogs,
    hHistory, False.elim⟩, q, hQueue, hOrderly, ?_⟩
  rw [hNone]
  exact hServes

/-! ## Shutting down again -/

/-- However often a client is shut down and whatever it does in between: where nothing fails, every
shutdown ends without an error and finds or leaves the last position of every switch in the settings
file. The transcript is closed after it, unless a line has been logged since the first shutdown and
logging has been on ever since. -/
theorem shutdown_leaves_closed_iff (settingsDirectory logDirectory : FilePath)
    (hNameable : ¬ settingsDirectory.Unnameable) (first afterStart host later : Host)
    (started c after : Client) (result : Except Failure Unit) (steps : List Step)
    (hReadable : first.tree.node? (settingsPath settingsDirectory) = none ∨
      ∃ contents, first.tree.read (settingsPath settingsDirectory) = .ok contents)
    (hFault : first.faults.openFile = none)
    (hStart : Client.start settingsDirectory logDirectory none first = (.ok started, afterStart))
    (hRun : run steps (started, afterStart) = (c, host))
    (hShutdown : c.shutdown host = (result, after, later))
    (hLines : ∀ text, .line text ∈ steps → text.Encodable)
    (hWritten : losesNoLine steps (started, afterStart) = true)
    (hSaved : ∀ outcome ∈ after.registry.outcomes, outcome = none) :
    result = .ok () ∧
      (after.transcript.isOpen = false ↔ ¬ Reopened steps (started, afterStart)) ∧
      after.registry.attempts = after.registry.assigned ∧
      ∀ id request, Registry.lastSave? id after.registry.assigned = some request →
        (recordAt later.tree (settingsPath settingsDirectory)).get? id = some request.value := by
  have hReaches : Reaches first.tree (settingsPath settingsDirectory) := by
    rcases hReadable with hNone | ⟨contents, hRead⟩
    · intro contents hNode
      rw [hNone] at hNode
      cases hNode
    · exact RecordFile.reaches_of_file (read_eq_ok_iff.mp hRead)
  obtain ⟨_, _, _, _, _, _, _, _, _, hUp⟩ := parts_of_start hStart
  obtain ⟨held, hOwing⟩ := owes_of_start hReaches hFault hStart
  have hRunAgain : run (steps ++ [.shutdown]) (started, afterStart) = (after, later) := by
    rw [run_concat, hRun]
    exact congrArg Prod.snd hShutdown
  have hAgain : ∀ text, .line text ∈ steps ++ [.shutdown] → text.Encodable := by
    intro text hText
    exact hLines text ((List.mem_append.mp hText).resolve_right (by simp))
  obtain ⟨hBefore, _⟩ := savable_shut hNameable hUp (savable_of_start hStart) hLines hWritten
  obtain ⟨hAfter, hShut⟩ := savable_shut hNameable hUp
    (savable_of_start hStart) hAgain
    (by rw [losesNoLine_concat, hWritten]; rfl)
  have hOwed := (owing_kept settingsDirectory logDirectory held).run
    (s := (started, afterStart)) hOwing (steps ++ [.shutdown]) fun _ _ => trivial
  rw [hRun] at hBefore
  rw [hRunAgain] at hAfter hShut hOwed
  have hDown : after.down = true := by
    have hDown := down_shutdown c host
    rwa [hShutdown] at hDown
  obtain ⟨hClosed, hReopened⟩ := hShut hDown
  rw [hRunAgain] at hClosed hReopened
  rw [reopened_shutdown_iff] at hReopened
  obtain ⟨_, hInStep⟩ := hAfter.ready.saving.inStep
  refine ⟨?_, ?_, hInStep.attempts_of_closed hClosed, ?_⟩
  · by_cases hDown : c.down = true
    · rw [Client.shutdown, if_pos hDown] at hShutdown
      exact (Prod.mk.inj hShutdown).1.symm
    · have hQuiet := (hBefore.tornDown hNameable (Bool.eq_false_iff.mpr hDown)).quiet
      rwa [hShutdown] at hQuiet
  · rw [← hReopened, Bool.not_eq_true]
  · exact fun id request => hOwed.2.stored hClosed hSaved

def reopeningSteps : List Step :=
  [.set Descriptor.loggingEnabled (.bool true), .shutdown, .line "look"]

/-- A second shutdown leaves the transcript open that a line has opened since the first. -/
theorem open_after_second_shutdown : ∃ started afterStart c host,
    Client.start ⟨"/", ["config"]⟩ ⟨"/", ["logs"]⟩ none (.sample []) = (.ok started, afterStart) ∧
    run reopeningSteps (started, afterStart) = (c, host) ∧
    losesNoLine reopeningSteps (started, afterStart) = true ∧
    (c.shutdown host).2.1.registry.outcomes.all Option.isNone = true ∧
    (c.shutdown host).1.toOption = some () ∧
    (c.shutdown host).2.1.transcript.isOpen = true := by
  refine ⟨_, _, _, _, rfl, rfl, ?_, ?_, ?_, ?_⟩
  · decide +kernel
  · decide +kernel
  · decide +kernel
  · decide +kernel

def closingSteps : List Step :=
  [.line "/set logging_enabled on", .line "look", .workerTakes, .shutdown, .line "north",
    .set "mouse_enabled" (.bool true), .shutdown, .set Descriptor.loggingEnabled (.bool false)]

/-- Switching logging off after the first shutdown closes the transcript for the ones after it, and
what is set after the first is in the settings file all the same. -/
theorem shutdown_leaves_closed_with_logging_off : ∃ started afterStart c host after later,
    Client.start ⟨"/", ["config"]⟩ ⟨"/", ["logs"]⟩ none (.sample []) = (.ok started, afterStart) ∧
    run closingSteps (started, afterStart) = (c, host) ∧ c.down = true ∧
    c.shutdown host = (.ok (), after, later) ∧ ¬ Reopened closingSteps (started, afterStart) ∧
    after.registry.attempts = [⟨"logging_enabled", .bool true⟩, ⟨"mouse_enabled", .bool true⟩,
      ⟨"logging_enabled", .bool false⟩] ∧
    (recordAt later.tree (settingsPath ⟨"/", ["config"]⟩)).get? "logging_enabled" =
      some (.bool false) := by
  have hPasses : Host.passes (fun s =>
      let before := run closingSteps s
      let after := (before.1.shutdown before.2).2.1
      losesNoLine closingSteps s && before.1.down && after.registry.outcomes.all Option.isNone &&
        !after.transcript.isOpen &&
        after.registry.assigned = [⟨"logging_enabled", .bool true⟩, ⟨"mouse_enabled", .bool true⟩,
          ⟨"logging_enabled", .bool false⟩])
      (Client.start ⟨"/", ["config"]⟩ ⟨"/", ["logs"]⟩ none (.sample [])) = true := by
    decide +kernel
  obtain ⟨started, afterStart, hStart, hTest⟩ := Host.exists_of_passes _ _ hPasses
  obtain ⟨⟨c, host⟩, hRun⟩ : ∃ s, run closingSteps (started, afterStart) = s := ⟨_, rfl⟩
  obtain ⟨⟨result, after, later⟩, hShutdown⟩ : ∃ s, c.shutdown host = s := ⟨_, rfl⟩
  simp only [hRun, hShutdown, Bool.and_eq_true, decide_eq_true_eq, Bool.not_eq_true',
    List.all_eq_true, Option.isNone_iff_eq_none] at hTest
  obtain ⟨⟨⟨⟨hWritten, hDown⟩, hSaved⟩, hClosed⟩, hAssigned⟩ := hTest
  have hLines : ∀ text, .line text ∈ closingSteps → text.Encodable := by
    intro text hText
    simp only [closingSteps, List.mem_cons, Step.line.injEq, List.not_mem_nil, reduceCtorEq,
      false_or, or_false] at hText
    rcases hText with rfl | rfl | rfl
    · decide
    · decide
    · decide
  obtain ⟨rfl, hShut, hAttempts, hStored⟩ :=
    shutdown_leaves_closed_iff ⟨"/", ["config"]⟩ ⟨"/", ["logs"]⟩ (by decide +kernel) (.sample [])
      afterStart host later started c after result closingSteps (.inl rfl) rfl hStart hRun
      hShutdown hLines hWritten hSaved
  have hLast : Registry.lastSave? Descriptor.loggingEnabled after.registry.assigned =
      some ⟨"logging_enabled", .bool false⟩ := by
    rw [hAssigned]
    decide +kernel
  exact ⟨started, afterStart, c, host, after, later, hStart, hRun, hDown, hShutdown,
    hShut.mp hClosed, hAttempts.trans hAssigned, hStored _ _ hLast⟩

end Client

end Switchboard

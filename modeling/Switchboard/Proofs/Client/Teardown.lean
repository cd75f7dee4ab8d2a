import Switchboard.Proofs.Client.Readiness

/-!
# Tearing a client down

The first shutdown saves the history, closes the transcript and waits for the saves of the switches.
Whatever the last two meet stays with them. The history comes first, and a failure of its save that
is no refusal of the system goes through the shutdown and leaves the rest undone, for good, since no
later shutdown does anything.
-/

namespace Switchboard

namespace Registry

variable {first r : Registry}

theorem assigned_overQueue (act : WriteQueue → Host → WriteQueue × Host) (r : Registry)
    (host : Host) : (r.overQueue act host).1.assigned = r.assigned := by
  rw [Registry.overQueue]
  split
  · rfl
  · rfl

/-- The save of every assignment has been attempted, and the worker has ended. -/
def Stopped (r : Registry) : Prop :=
  ∃ q, r.queue = some q ∧ q.items = [] ∧ q.attempts = r.assigned ∧ q.workerAlive = false

theorem InStep.close (h : InStep first r) (hDeferred : r.Deferred) (host : Host) :
    (r.close host).1.Stopped := by
  obtain ⟨q, hQueue, hOrderly, hLedger⟩ := h.queue
  have hItems := (hOrderly.close host).2
  have hSame : (q.close host).1.ledger = r.assigned := by
    calc (q.close host).1.ledger
      _ = q.beginClose.ledger := WriteQueue.ledger_work _ q.beginClose host
      _ = q.ledger := WriteQueue.ledger_beginClose q
      _ = r.assigned := hLedger
  rw [Stopped, Registry.close, assigned_overQueue, Registry.overQueue, hQueue]
  refine ⟨_, rfl, hItems, ?_, WriteQueue.workerAlive_close hOrderly (hDeferred q hQueue) host⟩
  exact (WriteQueue.ledger_of_idle hItems).symm.trans hSame

end Registry

namespace Client

/-- What a shutdown is to come to: it raises nothing, the transcript is closed, and the registry is
done with its saves. -/
structure TornDown (result : Except Failure Unit) (c : Client) : Prop where
  quiet : result = .ok ()
  closed : c.transcript.file = none
  stopped : c.registry.Stopped

variable {logDirectory : FilePath} {c : Client} {host : Host} {kept : Bool} {e : Failure}

theorem shutdown_of_unsaved (hUp : c.down = false)
    (hKept : c.registry.isOn Descriptor.saveHistory = .ok kept)
    (hFailed : (c.history.save kept host).1 = .error e) :
    c.shutdown host = (.error e, { c with down := true }, (c.history.save kept host).2) := by
  rw [Client.shutdown, if_neg (Bool.eq_false_iff.mp hUp)]
  dsimp only
  rw [hKept]
  dsimp only
  generalize c.history.save kept host = saved at hFailed ⊢
  obtain ⟨result, later⟩ := saved
  obtain rfl : result = .error e := hFailed
  rfl

theorem Ready.tornDown (h : c.Ready logDirectory host.tree) (hUp : c.down = false)
    (hKept : c.registry.isOn Descriptor.saveHistory = .ok kept)
    (hSaved : (c.history.save kept host).1 = .ok ()) :
    TornDown (c.shutdown host).1 (c.shutdown host).2.1 := by
  obtain ⟨first, hInStep⟩ := h.saving.inStep
  rw [Client.shutdown, if_neg (Bool.eq_false_iff.mp hUp)]
  dsimp only
  rw [hKept]
  dsimp only
  generalize c.history.save kept host = saved at hSaved ⊢
  obtain ⟨result, later⟩ := saved
  obtain rfl : result = .ok () := hSaved
  exact ⟨rfl, c.transcript.file_close later, hInStep.close (h.deferred hUp) _⟩

/-- Whatever a started client has been through, and whatever fails meanwhile, its first shutdown
tears everything down, unless the history is kept and its save fails otherwise than by a refusal of
the system. -/
theorem shutdown_tears_down_iff (settingsDirectory logDirectory : FilePath)
    (backend : Option Backend) (hAskable : ∀ given, backend = some given → given.Askable)
    (first afterStart host : Host) (started c : Client) (steps : List Step)
    (hStart : Client.start settingsDirectory logDirectory backend first =
      (.ok started, afterStart))
    (hRun : Client.run steps (started, afterStart) = (c, host)) (hUp : c.down = false) :
    TornDown (c.shutdown host).1 (c.shutdown host).2.1 ↔
      ¬ (c.registry.isOn Descriptor.saveHistory = .ok true ∧ c.history.Unsavable host) := by
  have hReady : c.Ready logDirectory host.tree := ready_of_run hAskable hStart hRun
  obtain ⟨kept, hKept⟩ :=
    Registry.exists_isOn (hReady.known Descriptor.saveHistory (by decide))
  have hName : c.history.path.Unnameable → c.history.path.parent.Unnameable := by
    obtain ⟨directory, hPath⟩ := hReady.history
    rw [hPath, FilePath.unnameable_child, FilePath.parent_child]
    exact fun hUnnameable => hUnnameable.resolve_right (by decide)
  have hSave : (c.history.save kept host).1 = .ok () ↔ _ := History.save_eq_ok_iff hName kept
  rw [hKept, Except.ok.injEq, ← hSave]
  constructor
  · intro hTornDown
    cases hResult : (c.history.save kept host).1 with
    | ok _ => rfl
    | error e =>
      have hQuiet := hTornDown.quiet
      rw [shutdown_of_unsaved hUp hKept hResult] at hQuiet
      cases hQuiet
  · exact hReady.tornDown hUp hKept

def fullBackend : Backend :=
  .script { saves := [none, some (.persistence "disk full" none)] }

def keptLine : Text := [0xD800]

def keptSteps (met : Faults) : List Step :=
  [.faults { newFile := { close := some "disk full" } }, .line "/set logging_enabled on",
    .line "/set save_history on", .line keptLine, .line "look", .faults met]

def fullFaults : Faults :=
  { writeText := some "disk full" }

/-- A history that is not written, a file that does not close and a save that fails stop no
shutdown. -/
theorem shutdown_tears_down_in_trouble :
    (∀ given, some fullBackend = some given → given.Askable) ∧ ∃ started afterStart c host,
      Client.start ⟨"/", ["config"]⟩ ⟨"/", ["logs"]⟩ (some fullBackend) (Host.sample []) =
        (.ok started, afterStart) ∧
      Client.run (keptSteps fullFaults) (started, afterStart) = (c, host) ∧ c.down = false ∧
      c.transcript.isOpen = true ∧ TornDown (c.shutdown host).1 (c.shutdown host).2.1 := by
  have hAskable : ∀ given, some fullBackend = some given → given.Askable := by
    rintro _ ⟨⟩
    trivial
  refine ⟨hAskable, _, _, _, _, rfl, rfl, ?_, ?_, ?_⟩
  · decide +kernel
  · decide +kernel
  · refine (shutdown_tears_down_iff ⟨"/", ["config"]⟩ ⟨"/", ["logs"]⟩ _ hAskable
      (Host.sample []) _ _ _ _
      (keptSteps fullFaults) rfl rfl (by decide +kernel)).mpr ?_
    rintro ⟨_, ⟨_, hUnnameable⟩ | ⟨_, hFault, _⟩⟩
    · exact absurd hUnnameable (by decide +kernel)
    · exact absurd hFault (by decide +kernel)

/-- Kept history with a line that has no byte form ends the shutdown: the transcript stays open, the
worker lives on with every save still to be made, and a second shutdown changes nothing of it. -/
theorem not_torn_down_with_kept_surrogate :
    ∃ started afterStart c host,
      Client.start ⟨"/", ["config"]⟩ ⟨"/", ["logs"]⟩ (some fullBackend) (Host.sample []) =
        (.ok started, afterStart) ∧
      Client.run (keptSteps {}) (started, afterStart) = (c, host) ∧ c.down = false ∧
      (c.shutdown host).1.toOption = none ∧
      (c.shutdown host).2.1.transcript.isOpen = true ∧
      ((c.shutdown host).2.1.registry.queue.any fun q =>
        q.workerAlive && q.attempts.isEmpty && q.items.length = 2) = true ∧
      ((c.shutdown host).2.1.shutdown (c.shutdown host).2.2).2.1.transcript.isOpen = true := by
  refine ⟨_, _, _, _, rfl, rfl, ?_, ?_, ?_, ?_, ?_⟩
  · decide +kernel
  · decide +kernel
  · decide +kernel
  · decide +kernel
  · decide +kernel

end Client

end Switchboard

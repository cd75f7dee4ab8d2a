import Switchboard.Proofs.Client.Agreement
import Switchboard.Proofs.Registry.Overlooking
import Switchboard.Proofs.Transcript.Overlooking

/-!
# History that is not kept

A client that is not to keep its history neither reads the history file when it starts nor writes it
when it is shut down. Two sessions on hosts that differ in that file go the same way, and each
leaves it as it was, provided that neither the settings file nor the transcripts are to lie in its
place or below it.
-/

namespace Switchboard.Client

/-- Neither the backend nor the transcript of a client goes to a place or through it. -/
structure KeepsOff (place : FilePath) (c : Client) : Prop where
  registry : c.registry.KeepsOff place
  transcript : c.transcript.KeepsOff place

abbrev Beside (place : FilePath) (first second : FileTree) :
    Client × Host → Client × Host → Prop :=
  Shared (KeepsOff place) (Host.Beside place first second)

/-- The history is not kept at a shutdown that does anything. -/
def Step.Unkept : Step → Client × Host → Prop
  | shutdown, s => s.1.down = true ∨ s.1.registry.isOn Descriptor.saveHistory = .ok false
  | _, _ => True

def Unkept : List Step → Client × Host → Prop
  | [], _ => True
  | step :: rest, s => step.Unkept s ∧ Unkept rest (step.apply s)

def StartsUnkept (backend : Backend) (host : Host) : Prop :=
  ∀ r after, Registry.start .builtin (some backend) host = (.ok r, after) →
    r.isOn Descriptor.saveHistory = .ok false

def answers : List Step → Client × Host → List Answer
  | [], _ => []
  | step :: rest, s => step.answer s :: answers rest (step.apply s)

variable {place settingsDirectory logDirectory : FilePath} {first second : FileTree} {c : Client}
  {host other : Host} {s t : Client × Host}

/-! ## The parts of a step -/

theorem relay_beside (known : Nat) (hOff : c.KeepsOff place)
    (h : Host.Beside place first second host other) :
    Beside place first second (c.relay known host) (c.relay known other) := by
  have hHeard := Transcript.hear_beside (c.registry.heard.drop known) hOff.transcript h
  rw [relay, relay]
  generalize Transcript.hear _ c.transcript host = heard at hHeard ⊢
  generalize Transcript.hear _ c.transcript other = hears at hHeard ⊢
  obtain ⟨hTranscript, hAfter⟩ := hHeard
  exact .intro ⟨hOff.registry, hTranscript⟩ hAfter

theorem set_beside (id : Text) (value : Json) (hOff : c.KeepsOff place)
    (h : Host.Beside place first second host other) :
    Same (Beside place first second) (c.set id value host) (c.set id value other) := by
  obtain ⟨hResult, hAfter⟩ := (Registry.steady_beside place first second).setWithin
    Registry.cascadeLimit id value (s := (c.registry, host)) (.intro hOff.registry h)
  change (c.registry.set id value host).1 = (c.registry.set id value other).1 at hResult
  change Registry.Beside place first second (c.registry.set id value host).2
    (c.registry.set id value other).2 at hAfter
  rw [set, set]
  generalize c.registry.set id value host = assigned at hResult hAfter ⊢
  generalize c.registry.set id value other = assigns at hResult hAfter ⊢
  obtain ⟨result, after⟩ := assigned
  obtain ⟨same, later⟩ := assigns
  obtain rfl : result = same := hResult
  obtain ⟨hRegistry, hAfter⟩ := hAfter
  exact .intro (relay_beside _ ⟨hRegistry, hOff.transcript⟩ hAfter)

theorem execute_beside (line : Text) (hOff : c.KeepsOff place)
    (h : Host.Beside place first second host other) :
    Same (Beside place first second) (c.execute line host) (c.execute line other) := by
  obtain ⟨hResult, hAfter⟩ := SetCommand.execute_steady
    (Registry.steady_beside place first second) (s := (c.registry, host))
    (.intro hOff.registry h) line
  rw [execute, execute]
  generalize SetCommand.execute line c.registry host = executed at hResult hAfter ⊢
  generalize SetCommand.execute line c.registry other = executes at hResult hAfter ⊢
  obtain ⟨result, after⟩ := executed
  obtain ⟨same, later⟩ := executes
  obtain rfl : result = same := hResult
  obtain ⟨hRegistry, hAfter⟩ := hAfter
  exact .intro (relay_beside _ ⟨hRegistry, hOff.transcript⟩ hAfter)

theorem record_beside (line : Text) (hOff : c.KeepsOff place)
    (h : Host.Beside place first second host other) :
    Same (Beside place first second) (c.record line host) (c.record line other) := by
  rw [record, record]
  split
  · exact .intro (.intro hOff h)
  · rename_i loggingOn _
    obtain ⟨result, _, _, hLeft, hRight, ⟨hTranscript, hAfter⟩⟩ :=
      Transcript.write_beside loggingOn line hOff.transcript h
    rw [hLeft, hRight]
    cases result with
    | error e => exact .intro (.intro ⟨hOff.registry, hTranscript⟩ hAfter)
    | ok _ => exact .intro (.intro ⟨hOff.registry, hTranscript⟩ hAfter)

theorem parallel_beside (place : FilePath) (first second : FileTree) :
    Parallel (Beside place first second) := by
  constructor
  · rintro _ _ line ⟨hOff, h⟩
    exact .intro ⟨hOff.registry, hOff.transcript⟩ h
  · rintro _ _ line ⟨hOff, h⟩
    exact (execute_beside line hOff h).parts
  · rintro _ _ line ⟨hOff, h⟩
    exact (record_beside line hOff h).parts

theorem overQueue_beside {act : WriteQueue → Host → WriteQueue × Host}
    (hAct : WriteQueue.Overlooks place first second act) (hOff : c.KeepsOff place)
    (h : Host.Beside place first second host other) :
    Beside place first second
      ({ c with registry := (c.registry.overQueue act host).1 }, (c.registry.overQueue act host).2)
      ({ c with registry := (c.registry.overQueue act other).1 },
        (c.registry.overQueue act other).2) := by
  have hActed := Registry.overQueue_beside hAct hOff.registry h
  generalize c.registry.overQueue act host = acted at hActed ⊢
  generalize c.registry.overQueue act other = acts at hActed ⊢
  obtain ⟨hRegistry, hAfter⟩ := hActed
  exact .intro ⟨hRegistry, hOff.transcript⟩ hAfter

theorem shutdown_beside (hUnkept : Step.shutdown.Unkept (c, host)) (hOff : c.KeepsOff place)
    (h : Host.Beside place first second host other) :
    Same (Beside place first second) (c.shutdown host) (c.shutdown other) := by
  rw [shutdown, shutdown]
  split
  · exact .intro (.intro hOff h)
  · rename_i hUp
    have hKept : c.registry.isOn Descriptor.saveHistory = .ok false := hUnkept.resolve_left hUp
    have hSave : ∀ host, History.save false c.history host = (.ok (), host) := fun _ => rfl
    have hClosed := Transcript.close_beside hOff.transcript h
    dsimp only
    rw [hKept]
    dsimp only
    rw [hSave, hSave]
    dsimp only
    generalize c.transcript.close host = closed at hClosed ⊢
    generalize c.transcript.close other = closes at hClosed ⊢
    obtain ⟨hTranscript, hAfter⟩ := hClosed
    have hEnded := Registry.overQueue_beside WriteQueue.overlooks_close hOff.registry hAfter
    rw [Registry.close]
    dsimp only
    generalize c.registry.overQueue WriteQueue.close _ = ended at hEnded ⊢
    generalize c.registry.overQueue WriteQueue.close _ = ends at hEnded ⊢
    obtain ⟨hRegistry, hLater⟩ := hEnded
    exact .intro (.intro ⟨hRegistry, hTranscript⟩ (hLater.note _ _ _))

/-! ## Whole sessions -/

theorem apply_beside {step : Step} (hUnkept : step.Unkept s) (h : Beside place first second s t) :
    step.answer s = step.answer t ∧ Beside place first second (step.apply s) (step.apply t) := by
  have hLine := (parallel_beside place first second).handleLine h
  obtain ⟨hOff, hHosts⟩ := h
  cases step with
  | line text =>
    obtain ⟨hResult, hAfter⟩ := hLine text
    exact ⟨congrArg Answer.line hResult, hAfter⟩
  | set id value =>
    obtain ⟨hResult, hAfter⟩ := (set_beside id value hOff hHosts).parts
    exact ⟨congrArg Answer.set hResult, hAfter⟩
  | wheel notches => exact ⟨rfl, .intro ⟨hOff.registry, hOff.transcript⟩ hHosts⟩
  | shutdown =>
    obtain ⟨hResult, hAfter⟩ := (shutdown_beside hUnkept hOff hHosts).parts
    exact ⟨congrArg Answer.shutdown hResult, hAfter⟩
  | workerTakes => exact ⟨rfl, overQueue_beside WriteQueue.overlooks_take hOff hHosts⟩
  | workerFinishes => exact ⟨rfl, overQueue_beside WriteQueue.overlooks_finish hOff hHosts⟩
  | faults met =>
    obtain ⟨tree, rfl, hTree⟩ := hHosts
    exact ⟨rfl, .intro hOff ⟨tree, rfl, hTree⟩⟩
  | clock time =>
    obtain ⟨tree, rfl, hTree⟩ := hHosts
    exact ⟨rfl, .intro hOff ⟨tree, rfl, hTree⟩⟩

theorem run_beside {steps : List Step} (hUnkept : Unkept steps s)
    (h : Beside place first second s t) :
    answers steps s = answers steps t ∧ ∀ taken, taken <+: steps →
      Beside place first second (run taken s) (run taken t) := by
  -- over the steps; a shutdown that keeps no history does not come near the place
  induction steps generalizing s t with
  | nil =>
    refine ⟨rfl, fun taken hTaken => ?_⟩
    rw [List.prefix_nil.mp hTaken]
    exact h
  | cons step rest ih =>
    obtain ⟨hAnswer, hAfter⟩ := apply_beside hUnkept.1 h
    obtain ⟨hAnswers, hRuns⟩ := ih hUnkept.2 hAfter
    refine ⟨?_, fun taken hTaken => ?_⟩
    · rw [answers, answers, hAnswer, hAnswers]
    · rcases taken with _ | ⟨_, taken⟩
      · exact h
      · obtain ⟨rfl, hRest⟩ := List.cons_prefix_cons.mp hTaken
        exact hRuns taken hRest

/-! ## Starting -/

theorem inside_history (settingsDirectory : FilePath) :
    (historyPath settingsDirectory).location.names ≠ [] := by
  rw [historyPath_location]
  simp [Location.child]

theorem transcript_keepsOff (h : logDirectory.KeepsOff (historyPath settingsDirectory)) :
    Transcript.KeepsOff (historyPath settingsDirectory) { directory := logDirectory } := by
  have hNamed : ∀ clock, (logDirectory.child (Transcript.fileName clock)).KeepsOff
      (historyPath settingsDirectory) := fun clock =>
    h.child (Transcript.fileName_ne_upward clock)
      (elsewhere_history settingsDirectory logDirectory clock).symm
  exact ⟨h, hNamed, fun clock => (hNamed clock).direct (inside_history _), nofun⟩

theorem start_beside {backend : Backend} (hOff : backend.KeepsOff (historyPath settingsDirectory))
    (hLog : logDirectory.KeepsOff (historyPath settingsDirectory))
    (hUnkept : StartsUnkept backend host)
    (h : Host.Beside (historyPath settingsDirectory) first second host other) :
    Same (Host.Beside (historyPath settingsDirectory) first second)
        (start settingsDirectory logDirectory (some backend) host)
        (start settingsDirectory logDirectory (some backend) other) ∧
      ∀ c after, start settingsDirectory logDirectory (some backend) host = (.ok c, after) →
        c.KeepsOff (historyPath settingsDirectory) := by
  obtain ⟨⟨result, after, later, hLeft, hRight, hAfter⟩, hRegistry⟩ :=
    Registry.start_beside .builtin hOff h
  have hLoad : ∀ (h : History) host, h.load false host = (.ok (), h, host) := fun _ _ => rfl
  rw [start, start, Option.getD_some, hLeft, hRight]
  cases result with
  | error e =>
    refine ⟨.intro hAfter, fun c last hStart => ?_⟩
    cases congrArg Prod.fst hStart
  | ok registry =>
    dsimp only
    rw [hUnkept registry after hLeft]
    cases registry.get Descriptor.mouseEnabled with
    | error e =>
      refine ⟨.intro hAfter, fun c last hStart => ?_⟩
      cases congrArg Prod.fst hStart
    | ok mouse =>
      simp only [Scrollback.start]
      rw [hLoad, hLoad]
      refine ⟨.intro (hAfter.note _ _ _), fun c last hStart => ?_⟩
      cases congrArg Prod.fst hStart
      exact ⟨hRegistry registry after hLeft, transcript_keepsOff hLog⟩

def backendOf (settingsDirectory : FilePath) (backend : Option Backend) : Backend :=
  backend.getD (.file { directory := settingsDirectory })

/-- Where the history is kept neither at the start nor at the shutdown, what stands in the place of
the history file, and below it, does not matter and stays as it is: the client starts alike on two
hosts that differ in nothing else, every step comes to the same, and after every step both clients
are the same, and so are both hosts elsewhere. -/
theorem unkept_history_unseen (settingsDirectory logDirectory : FilePath)
    (backend : Option Backend) (host : Host) (tree : FileTree) (steps : List Step)
    (hBackend : (backendOf settingsDirectory backend).KeepsOff (historyPath settingsDirectory))
    (hLog : logDirectory.KeepsOff (historyPath settingsDirectory))
    (hTree : ∀ q : FilePath, ¬ q.LeadsInto (historyPath settingsDirectory) →
      host.tree.node? q = tree.node? q)
    (hStart : StartsUnkept (backendOf settingsDirectory backend) host)
    (hSteps : ∀ c after, start settingsDirectory logDirectory backend host = (.ok c, after) →
      Unkept steps (c, after)) :
    ∃ result after later,
      start settingsDirectory logDirectory backend host = (result, after) ∧
      start settingsDirectory logDirectory backend { host with tree } = (result, later) ∧
      Host.Beside (historyPath settingsDirectory) host.tree tree after later ∧
      ∀ c, result = .ok c →
        answers steps (c, after) = answers steps (c, later) ∧
        ∀ taken, taken <+: steps →
          Same (Host.Beside (historyPath settingsDirectory) host.tree tree)
            (run taken (c, after)) (run taken (c, later)) := by
  have hHosts : Host.Beside (historyPath settingsDirectory) host.tree tree host { host with tree } :=
    ⟨tree, rfl, hTree, fun _ _ => rfl, fun _ _ => rfl⟩
  obtain ⟨⟨result, after, later, hLeft, hRight, hAfter⟩, hClient⟩ :=
    start_beside hBackend hLog hStart hHosts
  refine ⟨result, after, later, hLeft, hRight, hAfter, ?_⟩
  rintro c rfl
  obtain ⟨hAnswers, hRuns⟩ :=
    run_beside (hSteps c after hLeft) (.intro (hClient c after hLeft) hAfter)
  exact ⟨hAnswers, fun taken hTaken => (hRuns taken hTaken).same⟩

/-! ## Samples -/

instance (r : Registry) (id : Text) (b : Bool) : Decidable (r.isOn id = .ok b) :=
  decidable_of_iff ((r.isOn id).toOption = some b) (by cases r.isOn id <;> simp [Except.toOption])

instance (step : Step) (s : Client × Host) : Decidable (step.Unkept s) :=
  match step with
  | .shutdown => inferInstanceAs (Decidable (_ ∨ _))
  | .line _ | .set _ _ | .wheel _ | .workerTakes | .workerFinishes | .faults _ | .clock _ =>
    inferInstanceAs (Decidable True)

instance decidableUnkept : ∀ (steps : List Step) (s : Client × Host), Decidable (Unkept steps s)
  | [], _ => inferInstanceAs (Decidable True)
  | step :: rest, s =>
    have := decidableUnkept rest (step.apply s)
    inferInstanceAs (Decidable (step.Unkept s ∧ Unkept rest (step.apply s)))

def tidyHost : Host :=
  .sample [(⟨"/", ["config"]⟩, .directory)]

def switchingSteps : List Step :=
  [.line "/set logging_enabled on", .line "/set save_history on", .workerTakes, .workerFinishes,
    .line "look", .set Descriptor.saveHistory false, .shutdown]

theorem startsUnkept_tidyHost : StartsUnkept (backendOf ⟨"/", ["config"]⟩ none) tidyHost := by
  obtain ⟨r, after, hStart, hTest⟩ := Host.exists_of_passes
    (fun s => s.1.isOn Descriptor.saveHistory = .ok false)
    (Registry.start .builtin (some (backendOf ⟨"/", ["config"]⟩ none)) tidyHost)
    (by decide +kernel)
  intro _ _ hAgain
  obtain ⟨⟨⟩, rfl⟩ := Prod.mk.inj (hStart.symm.trans hAgain)
  exact of_decide_eq_true hTest

/-- A history file that no client could read is seen in nothing. -/
theorem undecodable_history_unseen :
    let tree := tidyHost.tree.put (historyPath ⟨"/", ["config"]⟩) (.file [0xFF])
    ∃ c after later,
      start ⟨"/", ["config"]⟩ ⟨"/", ["logs"]⟩ none tidyHost = (.ok c, after) ∧
      start ⟨"/", ["config"]⟩ ⟨"/", ["logs"]⟩ none { tidyHost with tree } = (.ok c, later) ∧
      answers switchingSteps (c, after) = answers switchingSteps (c, later) ∧
      Same (Host.Beside (historyPath ⟨"/", ["config"]⟩) tidyHost.tree tree)
        (run switchingSteps (c, after)) (run switchingSteps (c, later)) := by
  obtain ⟨c, after, hStart, hTest⟩ := Host.exists_of_passes
    (fun s => Unkept switchingSteps s)
    (start ⟨"/", ["config"]⟩ ⟨"/", ["logs"]⟩ none tidyHost) (by decide +kernel)
  have hSteps : ∀ started left,
      start ⟨"/", ["config"]⟩ ⟨"/", ["logs"]⟩ none tidyHost = (.ok started, left) →
      Unkept switchingSteps (started, left) := by
    intro _ _ hAgain
    obtain ⟨⟨⟩, rfl⟩ := Prod.mk.inj (hStart.symm.trans hAgain)
    exact of_decide_eq_true hTest
  have hBackend : (backendOf ⟨"/", ["config"]⟩ none).KeepsOff (historyPath ⟨"/", ["config"]⟩) :=
    file_keepsOff (by decide)
  obtain ⟨_, _, later, hLeft, hRight, _, hSame⟩ :=
    unkept_history_unseen ⟨"/", ["config"]⟩ ⟨"/", ["logs"]⟩ none tidyHost
      (tidyHost.tree.put (historyPath ⟨"/", ["config"]⟩) (.file [0xFF])) switchingSteps
      hBackend (by decide +kernel)
      (fun q hq => (FileTree.node?_put_off _ _ hq).symm) startsUnkept_tidyHost hSteps
  obtain ⟨rfl, rfl⟩ := Prod.mk.inj (hStart.symm.trans hLeft)
  obtain ⟨hAnswers, hRuns⟩ := hSame c rfl
  exact ⟨c, after, later, hStart, hRight, hAnswers, hRuns _ (List.prefix_refl _)⟩

def loggingSteps : List Step :=
  [.set Descriptor.loggingEnabled true, .line "look", .shutdown]

/-- Where transcripts are to lie in the place of the history file, a session that never keeps its
history leaves a directory there. -/
theorem history_file_made_a_directory :
    StartsUnkept (backendOf ⟨"/", ["config"]⟩ none) tidyHost ∧ ∃ c after,
      start ⟨"/", ["config"]⟩ ⟨"/", ["config", "history"]⟩ none tidyHost = (.ok c, after) ∧
      Unkept loggingSteps (c, after) ∧
      tidyHost.tree.node? (historyPath ⟨"/", ["config"]⟩) = none ∧
      (run loggingSteps (c, after)).2.tree.node? (historyPath ⟨"/", ["config"]⟩) =
        some .directory := by
  refine ⟨startsUnkept_tidyHost, _, _, rfl, ?_, ?_, ?_⟩
  · decide +kernel
  · decide +kernel
  · decide +kernel

end Switchboard.Client

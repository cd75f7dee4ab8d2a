import Switchboard.Proofs.Client.Parts
import Switchboard.Proofs.RecordFile.Overlooking
import Switchboard.Proofs.Registry.Overgrowth
import Switchboard.Proofs.Transcript.Overgrowth

/-!
# What a session shows of its saves

A session shows what each step of the user comes to, and where the client and the files are after
it. A client that saves its settings is set beside a bare copy that saves nothing. As long as saving
and what the client does itself stay out of each other's way, both show the same, so that two
sessions of the same steps over backends that load alike do.
-/

namespace Switchboard

/-- What a backend writes lies neither in the place of the history or of a transcript nor below it,
and neither of these lies in the place of what the backend writes. -/
structure Backend.StaysAside (settingsDirectory logDirectory : FilePath) (b : Backend) : Prop where
  history : b.KeepsOff (Client.historyPath settingsDirectory)
  logs : ∀ clock, b.KeepsOff (logDirectory.child (Transcript.fileName clock))
  settingsDirectory : settingsDirectory.Avoids b.places
  logDirectory : logDirectory.Avoids b.places

namespace Client

inductive Answer
  | line (result : Except Failure (Option Reply))
  | set (result : Except Failure Unit)
  | wheel (scrolled : Bool)
  | shutdown (result : Except Failure Unit)
  | nothing

def Step.answer : Step → Client × Host → Answer
  | line text, s => .line (s.1.handleLine text s.2).1
  | set id value, s => .set (s.1.set id value s.2).1
  | wheel notches, s => .wheel (s.1.wheel notches).1
  | shutdown, s => .shutdown (s.1.shutdown s.2).1
  | _, _ => .nothing

/-- Whether a step is seen. What the worker does is not, nor are the faults to come. -/
def Step.isSeen : Step → Bool
  | workerTakes | workerFinishes | faults _ => false
  | line _ | set _ _ | wheel _ | shutdown | clock _ => true

def Step.met (met : Faults) : Step → Faults
  | faults later => later
  | _ => met

/-- The steps that are seen, each after the faults that it meets elsewhere than in saving. -/
def seen : Faults → List Step → List Step
  | _, [] => []
  | met, step :: rest =>
    if step.isSeen then .faults met.elsewhere :: step :: seen met rest
    else seen (step.met met) rest

/-- What the files hold, other than those in some places. -/
def filesBeside (hidden : List FilePath) (tree : FileTree) (p : FilePath) : Option Bytes :=
  if ∃ place ∈ hidden, place.location = p.location then none
  else
    match tree.node? p with
    | some (.file contents) => some contents
    | _ => none

/-- What there is to see: the client without the write queue, and the files beside some places. -/
def sight (hidden : List FilePath) (s : Client × Host) : Client × (FilePath → Option Bytes) :=
  ({ s.1 with registry := { s.1.registry with queue := none } }, filesBeside hidden s.2.tree)

/-- What each step that is seen comes to, and what there is to see after it. -/
def observe (hidden : List FilePath) :
    List Step → Client × Host → List (Answer × Client × (FilePath → Option Bytes))
  | [], _ => []
  | step :: rest, s =>
    if step.isSeen then
      (step.answer s, sight hidden (step.apply s)) :: observe hidden rest (step.apply s)
    else observe hidden rest (step.apply s)

def session (hidden : List FilePath) (settingsDirectory logDirectory : FilePath)
    (backend : Backend) (steps : List Step) (host : Host) :
    Except (Failure × (FilePath → Option Bytes))
      (List (Answer × Client × (FilePath → Option Bytes))) :=
  match start settingsDirectory logDirectory (some backend) host with
  | (.error e, host) => .error (e, filesBeside hidden host.tree)
  | (.ok c, host) => .ok ((.nothing, sight hidden (c, host)) :: observe hidden steps (c, host))

/-- The history and the transcripts stand apart from some places and a row of directories. -/
structure Aside (settingsDirectory logDirectory : FilePath) (places row : List FilePath) :
    Prop where
  transcript : Transcript.Aside places row logDirectory
  directory : settingsDirectory.Avoids places
  history : (historyPath settingsDirectory).Avoids places
  off : ∀ d ∈ row, d.location ≠ (historyPath settingsDirectory).location

structure Placed (settingsDirectory logDirectory : FilePath) (c : Client) (tree : FileTree) :
    Prop where
  tidy : c.transcript.Tidy
  settled : c.transcript.Settled tree
  logs : c.transcript.directory = logDirectory
  history : c.history.path = historyPath settingsDirectory

/-- A client beside a bare copy of it, which has the same parts around a bare registry. -/
inductive Overgrown (settingsDirectory logDirectory : FilePath) (places row : List FilePath)
    (met : Faults) : Client × Host → Client × Host → Prop
  | intro (c : Client) {r other : Registry} {bare host : Host}
      (h : Registry.Overgrown places row met bare.tree (r, bare) (other, host))
      (hPlaced : Placed settingsDirectory logDirectory c bare.tree) :
      Overgrown settingsDirectory logDirectory places row met ({ c with registry := r }, bare)
        ({ c with registry := other }, host)

variable {settingsDirectory logDirectory : FilePath} {places row : List FilePath} {met : Faults}
  {hidden : List FilePath} {s t : Client × Host}

/-! ## Backends that stay aside -/

theorem aside_of_backend {b : Backend} (h : b.StaysAside settingsDirectory logDirectory) :
    Aside settingsDirectory logDirectory b.places b.row := by
  cases b with
  | script script => exact ⟨⟨nofun, nofun, nofun, nofun⟩, nofun, nofun, nofun⟩
  | file f =>
    have hInside : f.path.location.names ≠ [] := by
      rw [RecordFile.path, FilePath.location_child _ _ (by decide)]
      simp [Location.child]
    have hNamed : ∀ clock, (logDirectory.child (Transcript.fileName clock)).KeepsOff f.path :=
      fun clock => (h.logDirectory f.path List.mem_cons_self).child
        (Transcript.fileName_ne_upward clock)
        (Transcript.elsewhere_child logDirectory f.directory (by decide) (by decide) clock).symm
    have hHistory : (historyPath settingsDirectory).KeepsOff f.path :=
      (h.settingsDirectory f.path List.mem_cons_self).child (by decide)
        (FileTree.apart_child f.directory settingsDirectory (by decide) (by decide) (by decide)
          (by decide))
    have hOff : ∀ place, Backend.KeepsOff place (.file f) →
        ∀ d ∈ Backend.row (.file f), d.location ≠ place.location := by
      intro place hPlace d hd hSame
      have hDirectory := hPlace.1
      rw [RecordFile.path, FilePath.parent_child] at hDirectory
      refine hDirectory d hd ?_
      rw [FilePath.LeadsInto, hSame]
      exact ⟨rfl, List.prefix_refl _⟩
    refine ⟨⟨h.logDirectory, ?_, ?_, fun clock => hOff _ (h.logs clock)⟩, h.settingsDirectory, ?_,
      hOff _ h.history⟩
    · intro clock place hPlace
      rw [List.mem_singleton.mp hPlace]
      exact hNamed clock
    · intro clock place hPlace
      rw [List.mem_singleton.mp hPlace]
      exact (hNamed clock).direct hInside
    · intro place hPlace
      rw [List.mem_singleton.mp hPlace]
      exact hHistory

theorem historyPath_location (settingsDirectory : FilePath) :
    (historyPath settingsDirectory).location =
      settingsDirectory.location.child (Utf8.nameBytes historyName) :=
  FilePath.location_child _ _ (by decide)

theorem file_keepsOff (h : FilePath.upward ∉ settingsDirectory.names) :
    Backend.KeepsOff (historyPath settingsDirectory)
      (.file { directory := settingsDirectory }) := by
  have hDirectory : settingsDirectory.KeepsOff (historyPath settingsDirectory) := by
    apply FilePath.keepsOff_of_length h
    rw [historyPath_location, FilePath.location_of_no_upward _ h]
    simp [Location.child]
  refine ⟨?_, hDirectory.child (by decide) (apart_history settingsDirectory)⟩
  rw [RecordFile.path, FilePath.parent_child]
  exact hDirectory

/-- It stays aside as soon as neither directory leads where the other one is to hold a file. -/
theorem file_staysAside (h : FilePath.upward ∉ settingsDirectory.names)
    (hLogs : logDirectory.KeepsOff (settingsPath settingsDirectory))
    (hNamed : ∀ clock, settingsDirectory.KeepsOff
      (logDirectory.child (Transcript.fileName clock))) :
    Backend.StaysAside settingsDirectory logDirectory
      (.file { directory := settingsDirectory }) := by
  refine ⟨file_keepsOff h, fun clock => ⟨?_, ?_⟩, ?_, ?_⟩
  · rw [RecordFile.path, FilePath.parent_child]
    exact hNamed clock
  · exact (hNamed clock).child (by decide) (elsewhere_settings _ _ clock)
  · intro place hPlace
    rw [List.mem_singleton.mp hPlace]
    apply FilePath.keepsOff_of_length h
    rw [RecordFile.path, FilePath.location_child _ _ (by decide),
      FilePath.location_of_no_upward _ h]
    simp [Location.child]
  · intro place hPlace
    rw [List.mem_singleton.mp hPlace]
    exact hLogs

/-! ## What there is to see -/

theorem Overgrown.sight_eq (h : Overgrown settingsDirectory logDirectory places row met s t)
    (hHidden : places ⊆ hidden) : sight hidden s = sight hidden t := by
  cases h with
  | intro c h hPlaced =>
    have hSame := h.same
    dsimp only at hSame
    rw [sight, sight, hSame]
    refine Prod.ext rfl (funext fun p => ?_)
    dsimp only
    rw [filesBeside, filesBeside]
    split
    · rfl
    · rename_i hOff
      rcases h.host.tree p fun place hPlace hThere => hOff ⟨place, hHidden hPlace, hThere⟩ with
        hNode | ⟨hNone, hMade, _⟩
      · rw [hNode]
      · rw [hNone, hMade]

/-! ## The parts of a step -/

section

variable (hAside : Aside settingsDirectory logDirectory places row)

theorem Placed.step {c : Client} {host later : Host} {u : Transcript} {entries : List Entry}
    (h : Placed settingsDirectory logDirectory c host.tree)
    (hWrites : Transcript.Writes entries c.transcript host u later)
    (hLeaves : c.transcript.Leaves host u later) :
    Placed settingsDirectory logDirectory { c with transcript := u } later.tree :=
  ⟨hLeaves.tidy, hWrites.settled, hLeaves.directory.trans h.logs, h.history⟩

include hAside in
theorem Placed.file {c : Client} {tree : FileTree}
    (h : Placed settingsDirectory logDirectory c tree) :
    ∀ f, c.transcript.file = some f → f.Aside places row tree := by
  refine Transcript.Aside.file ?_ h.tidy h.settled
  rw [h.logs]
  exact hAside.transcript

include hAside in
theorem Overgrown.relay (h : Overgrown settingsDirectory logDirectory places row met s t)
    (known : Nat) :
    Overgrown settingsDirectory logDirectory places row met (s.1.relay known s.2)
      (t.1.relay known t.2) := by
  cases h with
  | @intro c r other bare host h hPlaced =>
    have hHeard : r.heard = other.heard := by rw [show r = _ from h.same]
    have hWrites := Transcript.hear_writes (other.heard.drop known) hPlaced.settled
    have hLeaves := Transcript.hear_leaves (other.heard.drop known) hPlaced.tidy bare
    obtain ⟨transcript, after, later, hLeft, hRight, hHosts⟩ :=
      Transcript.hear_overgrows (other.heard.drop known) (hPlaced.file hAside) h.host
    rw [hLeft] at hWrites hLeaves
    rw [Client.relay, Client.relay]
    dsimp only
    rw [hHeard, hLeft, hRight]
    exact .intro { c with transcript } ⟨h.same, rfl, hHosts, h.saved⟩ (hPlaced.step hWrites hLeaves)

include hAside in
theorem Overgrown.set (h : Overgrown settingsDirectory logDirectory places row met s t) (id : Text)
    (value : Json) :
    (s.1.set id value s.2).1 = (t.1.set id value t.2).1 ∧
      Overgrown settingsDirectory logDirectory places row met (s.1.set id value s.2).2
        (t.1.set id value t.2).2 := by
  cases h with
  | @intro c r other bare host h hPlaced =>
    have hHeard : r.heard = other.heard := by rw [show r = _ from h.same]
    obtain ⟨hResult, hAfter⟩ := (Registry.steady_overgrown places row met bare.tree).setWithin
      Registry.cascadeLimit id value h
    change (r.set id value bare).1 = (other.set id value host).1 at hResult
    change Registry.Overgrown places row met bare.tree (r.set id value bare).2
      (other.set id value host).2 at hAfter
    rw [Client.set, Client.set]
    dsimp only
    rw [hHeard]
    generalize r.set id value bare = assigned at hResult hAfter ⊢
    generalize other.set id value host = assigns at hResult hAfter ⊢
    have hTree : assigned.2.2.tree = bare.tree := hAfter.tree
    have hSet : Overgrown settingsDirectory logDirectory places row met
        ({ c with registry := assigned.2.1 }, assigned.2.2)
        ({ c with registry := assigns.2.1 }, assigns.2.2) :=
      .intro c (hTree ▸ hAfter) (hTree ▸ hPlaced)
    exact ⟨hResult, hSet.relay hAside _⟩

include hAside in
theorem Overgrown.execute (h : Overgrown settingsDirectory logDirectory places row met s t)
    (line : Text) :
    (s.1.execute line s.2).1 = (t.1.execute line t.2).1 ∧
      Overgrown settingsDirectory logDirectory places row met (s.1.execute line s.2).2
        (t.1.execute line t.2).2 := by
  cases h with
  | @intro c r other bare host h hPlaced =>
    have hHeard : r.heard = other.heard := by rw [show r = _ from h.same]
    obtain ⟨hResult, hAfter⟩ := SetCommand.execute_steady
      (Registry.steady_overgrown places row met bare.tree) h line
    rw [Client.execute, Client.execute]
    dsimp only at hResult hAfter ⊢
    rw [hHeard]
    generalize SetCommand.execute line r bare = executed at hResult hAfter ⊢
    generalize SetCommand.execute line other host = executes at hResult hAfter ⊢
    have hTree : executed.2.2.tree = bare.tree := hAfter.tree
    have hSet : Overgrown settingsDirectory logDirectory places row met
        ({ c with registry := executed.2.1 }, executed.2.2)
        ({ c with registry := executes.2.1 }, executes.2.2) :=
      .intro c (hTree ▸ hAfter) (hTree ▸ hPlaced)
    exact ⟨hResult, hSet.relay hAside _⟩

include hAside in
theorem Overgrown.record (h : Overgrown settingsDirectory logDirectory places row met s t)
    (line : Text) :
    (s.1.record line s.2).1 = (t.1.record line t.2).1 ∧
      Overgrown settingsDirectory logDirectory places row met (s.1.record line s.2).2
        (t.1.record line t.2).2 := by
  cases h with
  | @intro c r other bare host h hPlaced =>
    have hOn : other.isOn Descriptor.loggingEnabled = r.isOn Descriptor.loggingEnabled :=
      h.isOn Descriptor.loggingEnabled
    have hDirectory : Transcript.Aside places row c.transcript.directory :=
      hPlaced.logs.symm ▸ hAside.transcript
    rw [Client.record, Client.record]
    dsimp only
    rw [hOn]
    split
    · exact ⟨rfl, .intro c h hPlaced⟩
    · rename_i loggingOn _
      have hWrites := Transcript.write_writes loggingOn line hPlaced.settled
      have hLeaves := Transcript.write_leaves loggingOn line hPlaced.tidy bare
      obtain ⟨result, _, _, hLeft, hRight, transcript, after, later, rfl, rfl, hHosts⟩ :=
        Transcript.write_overgrows loggingOn line hDirectory hPlaced.tidy hPlaced.settled h.host
      rw [hLeft] at hWrites hLeaves
      rw [hLeft, hRight]
      have hWritten : Overgrown settingsDirectory logDirectory places row met
          ({ c with registry := r, transcript }, after)
          ({ c with registry := other, transcript }, later) :=
        .intro { c with transcript } ⟨h.same, rfl, hHosts, h.saved⟩
          (hPlaced.step hWrites hLeaves)
      cases result with
      | error e => exact ⟨rfl, hWritten⟩
      | ok _ => exact ⟨rfl, hWritten⟩

theorem Overgrown.add (h : Overgrown settingsDirectory logDirectory places row met s t)
    (line : Text) :
    Overgrown settingsDirectory logDirectory places row met
      ({ s.1 with history := s.1.history.add line }, s.2)
      ({ t.1 with history := t.1.history.add line }, t.2) := by
  cases h with
  | intro c h hPlaced =>
    exact .intro { c with history := c.history.add line } h
      ⟨hPlaced.tidy, hPlaced.settled, hPlaced.logs, (path_add line _).trans hPlaced.history⟩

include hAside in
theorem parallel_overgrown :
    Parallel (Overgrown settingsDirectory logDirectory places row met) :=
  ⟨fun line h => h.add line, fun line h => h.execute hAside line,
    fun line h => h.record hAside line⟩

theorem Overgrown.wheel (h : Overgrown settingsDirectory logDirectory places row met s t)
    (notches : Int) :
    (s.1.wheel notches).1 = (t.1.wheel notches).1 ∧
      Overgrown settingsDirectory logDirectory places row met ((s.1.wheel notches).2, s.2)
        ((t.1.wheel notches).2, t.2) := by
  cases h with
  | intro c h hPlaced =>
    exact ⟨rfl, .intro { c with scrollback := (c.scrollback.wheel notches).2 } h
      ⟨hPlaced.tidy, hPlaced.settled, hPlaced.logs, hPlaced.history⟩⟩

include hAside in
theorem Overgrown.shutdown (h : Overgrown settingsDirectory logDirectory places row met s t) :
    (s.1.shutdown s.2).1 = (t.1.shutdown t.2).1 ∧
      Overgrown settingsDirectory logDirectory places row met (s.1.shutdown s.2).2
        (t.1.shutdown t.2).2 := by
  cases h with
  | @intro c r other bare host h hPlaced =>
    have hOn : other.isOn Descriptor.saveHistory = r.isOn Descriptor.saveHistory :=
      h.isOn Descriptor.saveHistory
    have hDown : Placed settingsDirectory logDirectory { c with down := true } bare.tree :=
      ⟨hPlaced.tidy, hPlaced.settled, hPlaced.logs, hPlaced.history⟩
    rw [Client.shutdown, Client.shutdown]
    dsimp only
    rw [hOn]
    split
    · exact ⟨rfl, .intro c h hPlaced⟩
    · split
      · exact ⟨rfl, .intro { c with down := true } h hDown⟩
      · rename_i kept _
        obtain ⟨result, saved, saves, hLeft, hRight, hSaved⟩ := History.save_overgrows kept
          c.history hPlaced.history hAside.directory (hPlaced.history.symm ▸ hAside.history)
          (hPlaced.history.symm ▸ hAside.off) h.host
        have hSettled : c.transcript.Settled saved.tree := by
          obtain ⟨hTree, _⟩ := c.history.save_spec kept bare
          rw [hLeft] at hTree
          exact hPlaced.settled.extends hTree
        have hKept : Placed settingsDirectory logDirectory { c with down := true } saved.tree :=
          ⟨hPlaced.tidy, hSettled, hPlaced.logs, hPlaced.history⟩
        rw [hLeft, hRight]
        cases result with
        | error e =>
          exact ⟨rfl, .intro { c with down := true } ⟨h.same, rfl, hSaved, h.saved⟩ hKept⟩
        | ok _ =>
          have hWrites := Transcript.close_writes hSettled
          have hLeaves := Transcript.close_leaves hPlaced.tidy saved
          obtain ⟨transcript, closed, closes, hLeft, hRight, hClosed⟩ :=
            Transcript.close_overgrows (hKept.file hAside) hSaved
          rw [hLeft] at hWrites hLeaves
          dsimp only
          rw [hLeft, hRight]
          have hAfter : Registry.Overgrown places row met closed.tree (r, closed) (other, closes) :=
            ⟨h.same, rfl, hClosed, h.saved⟩
          have hQueue := hAfter.overQueue WriteQueue.unseen_close
          -- the bare registry has no queue, so closing it does nothing
          have hBare : r.close closed = (r, closed) := by
            rw [show r = _ from h.same]
            rfl
          dsimp only
          rw [hBare]
          have hLast := hKept.step hWrites hLeaves
          exact ⟨rfl, .intro { c with down := true, transcript }
            ⟨hQueue.same, rfl, hQueue.host.note _ _ _ _ _, hQueue.saved⟩ hLast⟩

/-! ## Whole sessions -/

include hAside in
theorem Overgrown.apply (h : Overgrown settingsDirectory logDirectory places row met s t)
    {step : Step} (hSeen : step.isSeen = true) :
    step.answer s = step.answer t ∧
      Overgrown settingsDirectory logDirectory places row met (step.apply s) (step.apply t) := by
  cases step with
  | line text =>
    obtain ⟨hResult, hAfter⟩ := (parallel_overgrown hAside).handleLine h text
    exact ⟨congrArg Answer.line hResult, hAfter⟩
  | set id value =>
    obtain ⟨hResult, hAfter⟩ := h.set hAside id value
    exact ⟨congrArg Answer.set hResult, hAfter⟩
  | wheel notches =>
    obtain ⟨hResult, hAfter⟩ := h.wheel notches
    exact ⟨congrArg Answer.wheel hResult, hAfter⟩
  | shutdown =>
    obtain ⟨hResult, hAfter⟩ := h.shutdown hAside
    exact ⟨congrArg Answer.shutdown hResult, hAfter⟩
  | clock time =>
    cases h with
    | intro c h hPlaced =>
      exact ⟨rfl, .intro c ⟨h.same, rfl, ⟨h.host.tree, rfl, h.host.faults, h.host.others⟩, h.saved⟩
        hPlaced⟩
  | workerTakes | workerFinishes | faults => cases hSeen

end

/-- A client that meets given faults, but for those of saving. -/
def facing (met : Faults) (s : Client × Host) : Client × Host :=
  (s.1, { s.2 with faults := met.elsewhere })

theorem Overgrown.facing_self
    (h : Overgrown settingsDirectory logDirectory places row met s t) : facing met s = s := by
  cases h with
  | intro c h hPlaced =>
    rw [facing]
    dsimp only
    rw [← show _ = met.elsewhere from h.host.others]

/-- A step that is not seen changes nothing about the bare client but the faults that it is to
meet. -/
theorem Overgrown.apply_unseen
    (h : Overgrown settingsDirectory logDirectory places row met s t) {step : Step}
    (hUnseen : step.isSeen = false) :
    Overgrown settingsDirectory logDirectory places row (step.met met) (facing (step.met met) s)
      (step.apply t) := by
  cases h with
  | @intro c r other bare host h hPlaced =>
    cases step with
    | workerTakes =>
      have hTaken := h.overQueue WriteQueue.unseen_take
      exact .intro c ⟨hTaken.same, rfl, ⟨hTaken.host.tree, hTaken.host.clock, hTaken.host.faults,
        rfl⟩, hTaken.saved⟩ hPlaced
    | workerFinishes =>
      have hFinished := h.overQueue WriteQueue.unseen_finish
      exact .intro c ⟨hFinished.same, rfl, ⟨hFinished.host.tree, hFinished.host.clock,
        hFinished.host.faults, rfl⟩, hFinished.saved⟩ hPlaced
    | faults later =>
      exact .intro c ⟨h.same, rfl, ⟨h.host.tree, h.host.clock, rfl, rfl⟩, h.saved⟩ hPlaced
    | line | set | wheel | shutdown | clock => cases hUnseen

/-- What is seen of a client is what the bare one shows of the steps that are seen. -/
theorem Overgrown.observe_eq (hAside : Aside settingsDirectory logDirectory places row)
    (hHidden : places ⊆ hidden) (steps : List Step)
    (h : Overgrown settingsDirectory logDirectory places row met (facing met s) t) :
    observe hidden steps t = observe hidden (seen met steps) s := by
  -- over the steps; one that is not seen leaves the bare client as it is, but for its faults
  induction steps generalizing s t met with
  | nil => rfl
  | cons step rest ih =>
    rw [observe, seen]
    cases hSeen : step.isSeen with
    | false =>
      rw [if_neg (by simp), if_neg (by simp)]
      exact ih (h.apply_unseen hSeen)
    | true =>
      obtain ⟨hAnswer, hAfter⟩ := h.apply hAside hSeen
      rw [if_pos rfl, if_pos rfl, observe, if_neg (by simp [Step.isSeen]), observe, if_pos hSeen]
      change _ = (step.answer (facing met s), sight hidden (step.apply (facing met s))) ::
        observe hidden (seen met rest) (step.apply (facing met s))
      rw [hAnswer, hAfter.sight_eq hHidden, ih (hAfter.facing_self.symm ▸ hAfter)]

/-! ## Starting -/

variable {host : Host} {first second : Backend}

def withQueue (c : Client) (backend : Backend) : Client :=
  { c with registry := { c.registry with queue := some { backend } } }

theorem start_of_answers
    (h : first.answers host (Descriptor.table.map Descriptor.id) =
      second.answers host (Descriptor.table.map Descriptor.id))
    (settingsDirectory logDirectory : FilePath) :
    ∃ before after,
      (∃ e,
        start settingsDirectory logDirectory (some first) host =
          (.error e, { host with log := before }) ∧
        start settingsDirectory logDirectory (some second) host =
          (.error e, { host with log := after })) ∨
      ∃ (c : Client) (left right : Backend),
        start settingsDirectory logDirectory (some first) host =
          (.ok (c.withQueue left), { host with log := before }) ∧
        start settingsDirectory logDirectory (some second) host =
          (.ok (c.withQueue right), { host with log := after }) ∧
        left.At first.places first.row ∧ right.At second.places second.row ∧
        c.transcript = { directory := logDirectory } ∧
        c.history.path = historyPath settingsDirectory := by
  obtain ⟨before, after, hRegistry⟩ :=
    Registry.start_of_answers .builtin h ⟨rfl, rfl⟩ ⟨rfl, rfl⟩
  rcases hRegistry with ⟨e, hFirst, hSecond⟩ | ⟨settings, left, right, hFirst, hSecond, hAts⟩
  · refine ⟨before, after, .inl ⟨e, ?_, ?_⟩⟩
    · rw [start, Option.getD_some, hFirst]
    · rw [start, Option.getD_some, hSecond]
  · have hGet : ∀ id backend, Registry.get { settings, queue := some { backend } } id =
        Registry.get { settings } id := fun _ _ => rfl
    have hIsOn : ∀ id backend, Registry.isOn { settings, queue := some { backend } } id =
        Registry.isOn { settings } id := fun _ _ => rfl
    cases hMouse : Registry.get { settings } Descriptor.mouseEnabled with
    | error e =>
      refine ⟨before, after, .inl ⟨e, ?_, ?_⟩⟩
      · rw [start, Option.getD_some, hFirst]
        dsimp only
        rw [hGet, hMouse]
      · rw [start, Option.getD_some, hSecond]
        dsimp only
        rw [hGet, hMouse]
    | ok mouse =>
      cases hKept : Registry.isOn { settings } Descriptor.saveHistory with
      | error e =>
        refine ⟨before, after, .inl ⟨e, ?_, ?_⟩⟩
        · rw [start, Option.getD_some, hFirst]
          dsimp only
          rw [hGet, hMouse, hIsOn, hKept]
        · rw [start, Option.getD_some, hSecond]
          dsimp only
          rw [hGet, hMouse, hIsOn, hKept]
      | ok kept =>
        obtain ⟨scrolled, hStarts⟩ := start_eq settingsDirectory logDirectory (some first) hFirst
          ((hGet _ _).trans hMouse) ((hIsOn _ _).trans hKept)
        obtain ⟨scrolls, hOthers⟩ := start_eq settingsDirectory logDirectory (some second) hSecond
          ((hGet _ _).trans hMouse) ((hIsOn _ _).trans hKept)
        obtain ⟨result, loaded, _, hLoad, hPath, _⟩ :=
          History.load_spec kept { path := historyPath settingsDirectory } host
        obtain ⟨later, hLoads⟩ :=
          History.load_log kept { path := historyPath settingsDirectory } host scrolled
        obtain ⟨last, hSame⟩ :=
          History.load_log kept { path := historyPath settingsDirectory } host scrolls
        rw [hLoad] at hLoads hSame
        refine ⟨later, last, ?_⟩
        rw [hStarts _ _ _ hLoads, hOthers _ _ _ hSame]
        cases result with
        | error e => exact .inl ⟨e, rfl, rfl⟩
        | ok _ =>
          refine .inr ⟨{
            registry := Registry.connect (.recorder feedTag) { settings }
            transcript := { directory := logDirectory }
            scrollback := { enabled := mouse }
            history := loaded }, left, right, rfl, rfl, hAts.1, hAts.2, rfl, hPath⟩

theorem overgrown_of_start {c : Client} {backend : Backend} (host : Host)
    (log other : List LogLine) (hAt : backend.At places row)
    (hTranscript : c.transcript = { directory := logDirectory })
    (hHistory : c.history.path = historyPath settingsDirectory) :
    Overgrown settingsDirectory logDirectory places row host.faults
      (facing host.faults ({ c with registry := { c.registry with queue := none } },
        { host with log }))
      (c.withQueue backend, { host with log := other }) := by
  have hNone : c.transcript.file = none := by rw [hTranscript]
  refine .intro c ⟨rfl, rfl, ⟨.refl _ _ _, rfl, rfl, rfl⟩, ?_⟩
    ⟨Transcript.tidy_of_none hNone, Transcript.settled_of_none hNone _, by rw [hTranscript],
      hHistory⟩
  rintro _ ⟨⟩
  exact hAt

/-- Sessions of the same steps show the same, however their saves end and whenever the worker comes
to them: what each step of the user gives back or fails with, and after it the switches, the changes
heard, the history, the scrollback, the transcript, and all files but those that hold settings. -/
theorem save_failures_unseen (settingsDirectory logDirectory : FilePath) (first second : Backend)
    (host : Host) (hFirst : first.StaysAside settingsDirectory logDirectory)
    (hSecond : second.StaysAside settingsDirectory logDirectory)
    (hLoads : first.answers host (Descriptor.table.map Descriptor.id) =
      second.answers host (Descriptor.table.map Descriptor.id))
    (steps others : List Step) (hSteps : seen host.faults steps = seen host.faults others) :
    session (first.places ++ second.places) settingsDirectory logDirectory first steps host =
      session (first.places ++ second.places) settingsDirectory logDirectory second others
        host := by
  obtain ⟨before, after, hStart⟩ := start_of_answers hLoads settingsDirectory logDirectory
  rw [session, session]
  rcases hStart with ⟨e, hLeft, hRight⟩ |
    ⟨c, left, right, hLeft, hRight, hLeftAt, hRightAt, hTranscript, hHistory⟩
  · rw [hLeft, hRight]
  · have hSeen := (overgrown_of_start host before before hLeftAt hTranscript hHistory).observe_eq
      (aside_of_backend hFirst) (List.subset_append_left first.places second.places) steps
    have hSame := (overgrown_of_start host before after hRightAt hTranscript hHistory).observe_eq
      (aside_of_backend hSecond) (List.subset_append_right first.places second.places) others
    rw [hLeft, hRight]
    dsimp only
    rw [hSeen, hSame, hSteps]
    rfl

def scriptOfFailures : Script where
  saves := [some (.reported .execution "disk on fire"), none, some (.persistence "full" none)]

def promptSteps : List Step :=
  [.set Descriptor.loggingEnabled true, .workerTakes, .faults { replaceFile := some "disk full" },
    .workerFinishes, .faults {}, .line "hello", .wheel 2, .set Descriptor.saveHistory true,
    .set "no_such_switch" false, .shutdown, .set Descriptor.loggingEnabled false, .line "/set"]

def delayedSteps : List Step :=
  [.set Descriptor.loggingEnabled true, .line "hello", .wheel 2, .workerTakes,
    .set Descriptor.saveHistory true, .set "no_such_switch" false, .workerFinishes, .shutdown,
    .set Descriptor.loggingEnabled false, .line "/set"]

theorem file_staysAside_sample : Backend.StaysAside ⟨"/", ["config"]⟩ ⟨"/", ["logs"]⟩
    (.file { directory := ⟨"/", ["config"]⟩ }) := by
  refine file_staysAside (by decide) (by decide +kernel) fun clock => ?_
  refine FilePath.keepsOff_of_length (by decide) ?_
  rw [FilePath.location_child _ _ (Transcript.fileName_ne_upward clock)]
  simp [Location.child]
  decide

/-- The settings file takes all changes but the first, and a script fails at the first and at the
third; the worker comes to the first one at different times. -/
theorem troubled_session_unseen :
    let file := Backend.file { directory := ⟨"/", ["config"]⟩ }
    let script := Backend.script scriptOfFailures
    file.StaysAside ⟨"/", ["config"]⟩ ⟨"/", ["logs"]⟩ ∧
      script.StaysAside ⟨"/", ["config"]⟩ ⟨"/", ["logs"]⟩ ∧
      file.answers (Host.sample []) (Descriptor.table.map Descriptor.id) =
        script.answers (Host.sample []) (Descriptor.table.map Descriptor.id) ∧
      seen {} promptSteps = seen {} delayedSteps ∧
      session (file.places ++ script.places) ⟨"/", ["config"]⟩ ⟨"/", ["logs"]⟩ file promptSteps
          (Host.sample []) =
        session (file.places ++ script.places) ⟨"/", ["config"]⟩ ⟨"/", ["logs"]⟩ script delayedSteps
          (Host.sample []) ∧
      ∃ shown, session (file.places ++ script.places) ⟨"/", ["config"]⟩ ⟨"/", ["logs"]⟩ file
        promptSteps (Host.sample []) = .ok shown ∧ shown.length = 9 := by
  intro file script
  have hScript : script.StaysAside ⟨"/", ["config"]⟩ ⟨"/", ["logs"]⟩ :=
    ⟨trivial, fun _ => trivial, nofun, nofun⟩
  have hLoads : file.answers (Host.sample []) (Descriptor.table.map Descriptor.id) =
      script.answers (Host.sample []) (Descriptor.table.map Descriptor.id) := by rfl
  have hSteps : seen {} promptSteps = seen {} delayedSteps := rfl
  refine ⟨file_staysAside_sample, hScript, hLoads, hSteps, ?_, _, rfl, ?_⟩
  · exact save_failures_unseen _ _ file script (Host.sample []) file_staysAside_sample hScript
      hLoads promptSteps delayedSteps hSteps
  · decide +kernel

def loggingTroubled : List Step :=
  [.set Descriptor.loggingEnabled true, .workerTakes, .faults { replaceFile := some "disk full" },
    .workerFinishes, .faults {}, .line "look"]

def loggingCalm : List Step :=
  [.set Descriptor.loggingEnabled true, .workerTakes, .workerFinishes, .line "look"]

/-- Where transcripts are to lie below the settings file, there is one only after a failed save. -/
theorem failed_save_lets_transcript_open :
    let file := Backend.file { directory := ⟨"/", ["config"]⟩ }
    seen {} loggingTroubled = seen {} loggingCalm ∧
      session (file.places ++ file.places) ⟨"/", ["config"]⟩ ⟨"/", ["config", "settings.json"]⟩ file
          loggingTroubled (Host.sample []) ≠
        session (file.places ++ file.places) ⟨"/", ["config"]⟩ ⟨"/", ["config", "settings.json"]⟩
          file loggingCalm (Host.sample []) := by
  refine ⟨rfl, fun hSame => ?_⟩
  have hOpen := congrArg (fun shown => shown.toOption.map fun steps =>
    steps.map fun step => step.2.1.transcript.isOpen) hSame
  revert hOpen
  decide +kernel

end Client

end Switchboard

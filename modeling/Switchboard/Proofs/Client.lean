import Switchboard.Client
import Switchboard.Proofs.History
import Switchboard.Proofs.Registry
import Switchboard.Proofs.Transcript

/-!
# Runs of a client

A run mixes what the user does, the steps of the worker, and changes of the clock and of the faults
that calls meet. In the course of it the positions of the switches stay those that the settings file
is to give, and nothing but the history itself is written to the history file.
-/

namespace Switchboard.Client

open FileTree

inductive Step
  | line (text : Text)
  | set (id : Text) (value : Json)
  | wheel (notches : Int)
  | shutdown
  | workerTakes
  | workerFinishes
  /-- From now on calls meet these faults. -/
  | faults (met : Faults)
  | clock (time : Timestamp)

def Step.apply : Step → Client × Host → Client × Host
  | line text, s => (s.1.handleLine text s.2).2
  | set id value, s => (s.1.set id value s.2).2
  | wheel notches, s => ((s.1.wheel notches).2, s.2)
  | shutdown, s => (s.1.shutdown s.2).2
  | workerTakes, s =>
    let (registry, host) := s.1.registry.overQueue (fun q host => (q.take, host)) s.2
    ({ s.1 with registry }, host)
  | workerFinishes, s =>
    let (registry, host) := s.1.registry.overQueue WriteQueue.finish s.2
    ({ s.1 with registry }, host)
  | faults met, s => (s.1, { s.2 with faults := met })
  | clock time, s => (s.1, { s.2 with clock := time })

def run (steps : List Step) (s : Client × Host) : Client × Host :=
  steps.foldl (fun s step => step.apply s) s

/-! ## What steps keep -/

inductive QueueAct
  | take
  | finish
  | close

def QueueAct.perform : QueueAct → WriteQueue → Host → WriteQueue × Host
  | take, q, host => (q.take, host)
  | finish, q, host => q.finish host
  | close, q, host => q.close host

/-- A property of clients and their files that no part of a step breaks, as long as the lines are
allowed ones. -/
structure Kept (allowed : Text → Prop) (P : Client → FileTree → Prop) : Prop where
  add : ∀ {c tree line}, allowed line → P c tree →
    P { c with history := c.history.add line } tree
  set : ∀ {c} {host : Host} (id : Text) (value : Json), P c host.tree →
    P (c.set id value host).2.1 (c.set id value host).2.2.tree
  write : ∀ {c} {host : Host} {loggingOn : Bool} (line : Text),
    c.registry.isOn Descriptor.loggingEnabled = .ok loggingOn → P c host.tree →
    P { c with transcript := (c.transcript.write loggingOn line host).2.1 }
      (c.transcript.write loggingOn line host).2.2.tree
  wheel : ∀ {c tree} (scrollback : Scrollback), P c tree → P { c with scrollback } tree
  down : ∀ {c tree}, P c tree → P { c with down := true } tree
  save : ∀ {c} {host : Host} (kept : Bool), c.down = true → P c host.tree →
    P c (c.history.save kept host).2.tree
  close : ∀ {c} {host : Host}, P c host.tree →
    P { c with transcript := (c.transcript.close host).1 } (c.transcript.close host).2.tree
  queue : ∀ {c} {host : Host} (act : QueueAct), P c host.tree →
    P { c with registry := (c.registry.overQueue act.perform host).1 }
      (c.registry.overQueue act.perform host).2.tree

theorem execute_state (line : Text) (c : Client) (host : Host) :
    (c.execute line host).2 = (c, host) ∨
      ∃ id value, (c.execute line host).2 = (c.set id value host).2 := by
  rcases SetCommand.execute_state line c.registry host with hNone | ⟨id, value, hSet⟩
  · left
    rw [execute]
    generalize SetCommand.execute line c.registry host = executed at hNone
    obtain ⟨result, registry, later⟩ := executed
    cases hNone
    dsimp only
    rw [relay, List.drop_length]
    rfl
  · refine .inr ⟨id, value, ?_⟩
    rw [execute, set]
    generalize SetCommand.execute line c.registry host = executed at hSet
    generalize c.registry.set id value host = assigned at hSet
    obtain ⟨result, registry, later⟩ := executed
    obtain ⟨ended, _, _⟩ := assigned
    cases hSet
    rfl

section

variable {allowed : Text → Prop} {P : Client → FileTree → Prop} {c : Client} {host : Host}

theorem Kept.execute (hKept : Kept allowed P) (host : Host) (h : P c host.tree) (line : Text) :
    P (c.execute line host).2.1 (c.execute line host).2.2.tree := by
  rcases execute_state line c host with hNone | ⟨id, value, hSet⟩
  · rw [hNone]
    exact h
  · rw [hSet]
    exact hKept.set id value h

theorem Kept.record (hKept : Kept allowed P) (h : P c host.tree) (line : Text) :
    P (c.record line host).2.1 (c.record line host).2.2.tree := by
  rw [Client.record]
  split
  · exact h
  · rename_i loggingOn hOn
    have hWrite := hKept.write line hOn h
    split
    · rename_i hResult
      rwa [hResult] at hWrite
    · rename_i hResult
      rwa [hResult] at hWrite

theorem Kept.handleLine (hKept : Kept allowed P) (h : P c host.tree) {line : Text}
    (hLine : allowed line) :
    P (c.handleLine line host).2.1 (c.handleLine line host).2.2.tree := by
  have hExecuted := hKept.execute host (hKept.add hLine h) line
  rw [Client.handleLine]
  split
  · rename_i hResult
    rwa [hResult] at hExecuted
  · rename_i hResult
    rwa [hResult] at hExecuted
  · rename_i after later hResult
    rw [hResult] at hExecuted
    have hRecorded := hKept.record hExecuted line
    split
    · rename_i hResult
      rwa [hResult] at hRecorded
    · rename_i hResult
      rwa [hResult] at hRecorded

theorem Kept.shutdown (hKept : Kept allowed P) (h : P c host.tree) :
    P (c.shutdown host).2.1 (c.shutdown host).2.2.tree := by
  have hDown := hKept.down h
  rw [Client.shutdown]
  split
  · exact h
  · dsimp only
    split
    · exact hDown
    · rename_i kept _
      have hSaved := hKept.save kept rfl hDown
      dsimp only at hSaved
      split
      · rename_i hResult
        rwa [hResult] at hSaved
      · rename_i later hResult
        rw [hResult] at hSaved
        exact hKept.queue .close (hKept.close hSaved)

theorem Kept.step {s : Client × Host} (hKept : Kept allowed P) (h : P s.1 s.2.tree) (step : Step)
    (hLine : ∀ text, step = .line text → allowed text) :
    P (step.apply s).1 (step.apply s).2.tree := by
  cases step with
  | line text => exact hKept.handleLine h (hLine text rfl)
  | set id value => exact hKept.set id value h
  | wheel notches => exact hKept.wheel _ h
  | shutdown => exact hKept.shutdown h
  | workerTakes => exact hKept.queue .take h
  | workerFinishes => exact hKept.queue .finish h
  | faults met => exact h
  | clock time => exact h

theorem Kept.run {s : Client × Host} (hKept : Kept allowed P) (h : P s.1 s.2.tree)
    (steps : List Step) (hLines : ∀ text, .line text ∈ steps → allowed text) :
    P (Client.run steps s).1 (Client.run steps s).2.tree := by
  induction steps generalizing s with
  | nil => exact h
  | cons step rest ih =>
    refine ih (hKept.step h step ?_) fun text hText => hLines text (List.mem_cons_of_mem _ hText)
    rintro text rfl
    exact hLines text List.mem_cons_self

end

/-! ## Two clients side by side -/

/-- A relation of two clients on their hosts that is kept by the parts of handling a line, each of
which ends alike on both sides. -/
structure Parallel (R : Client × Host → Client × Host → Prop) : Prop where
  add : ∀ {s t} (line : Text), R s t →
    R ({ s.1 with history := s.1.history.add line }, s.2)
      ({ t.1 with history := t.1.history.add line }, t.2)
  execute : ∀ {s t} (line : Text), R s t →
    (s.1.execute line s.2).1 = (t.1.execute line t.2).1 ∧
      R (s.1.execute line s.2).2 (t.1.execute line t.2).2
  record : ∀ {s t} (line : Text), R s t →
    (s.1.record line s.2).1 = (t.1.record line t.2).1 ∧
      R (s.1.record line s.2).2 (t.1.record line t.2).2

theorem Parallel.handleLine {R : Client × Host → Client × Host → Prop} (hParallel : Parallel R)
    {s t : Client × Host} (h : R s t) (line : Text) :
    (s.1.handleLine line s.2).1 = (t.1.handleLine line t.2).1 ∧
      R (s.1.handleLine line s.2).2 (t.1.handleLine line t.2).2 := by
  obtain ⟨hResult, hAfter⟩ := hParallel.execute line (hParallel.add line h)
  rw [Client.handleLine, Client.handleLine]
  generalize { s.1 with history := s.1.history.add line }.execute line s.2 = first
    at hResult hAfter ⊢
  generalize { t.1 with history := t.1.history.add line }.execute line t.2 = second
    at hResult hAfter ⊢
  obtain ⟨result, after⟩ := first
  obtain ⟨other, later⟩ := second
  obtain rfl : result = other := hResult
  cases result with
  | error e => exact ⟨rfl, hAfter⟩
  | ok reply =>
    cases reply with
    | some reply => exact ⟨rfl, hAfter⟩
    | none =>
      obtain ⟨hRecord, hRecorded⟩ := hParallel.record line hAfter
      dsimp only at hRecord hRecorded ⊢
      generalize after.1.record line after.2 = first at hRecord hRecorded ⊢
      generalize later.1.record line later.2 = second at hRecord hRecorded ⊢
      obtain ⟨result, after⟩ := first
      obtain ⟨other, later⟩ := second
      obtain rfl : result = other := hRecord
      cases result with
      | error e => exact ⟨rfl, hRecorded⟩
      | ok _ => exact ⟨rfl, hRecorded⟩

/-! ## The files of a client -/

def settingsPath (settingsDirectory : FilePath) : FilePath :=
  RecordFile.path { directory := settingsDirectory }

def historyPath (settingsDirectory : FilePath) : FilePath :=
  settingsDirectory.child historyName

theorem apart_settings (settingsDirectory : FilePath) :
    Apart (settingsPath settingsDirectory) (historyPath settingsDirectory) :=
  apart_child _ _ (by decide) (by decide) (by decide) (by decide)

theorem apart_history (settingsDirectory : FilePath) :
    Apart (historyPath settingsDirectory) (settingsPath settingsDirectory) :=
  apart_child _ _ (by decide) (by decide) (by decide) (by decide)

theorem elsewhere_settings (settingsDirectory logDirectory : FilePath) :
    Transcript.Elsewhere logDirectory (settingsPath settingsDirectory) :=
  Transcript.elsewhere_child _ _ (by decide) (by decide)

theorem elsewhere_history (settingsDirectory logDirectory : FilePath) :
    Transcript.Elsewhere logDirectory (historyPath settingsDirectory) :=
  Transcript.elsewhere_child _ _ (by decide) (by decide)

/-! ## The invariant -/

/-- A client in the given directories, in step with its files. Where it is known that the history
file held text, it still does. -/
structure Sound (settingsDirectory logDirectory : FilePath) (heldText : Prop) (c : Client)
    (tree : FileTree) : Prop where
  registry : c.registry.Serves (settingsPath settingsDirectory) Descriptor.table tree
  listeners : c.registry.listeners = [.recorder feedTag]
  tidy : c.transcript.Tidy
  logs : c.transcript.directory = logDirectory
  history : c.history.path = historyPath settingsDirectory
  text : heldText → History.HoldsText (historyPath settingsDirectory) tree

variable {settingsDirectory logDirectory : FilePath} {heldText : Prop} {c : Client} {host : Host}

theorem encodable_of_mem_table : ∀ d ∈ Descriptor.table, d.id.Encodable := by
  decide

theorem Sound.transcript (h : Sound settingsDirectory logDirectory heldText c host.tree)
    {t : Transcript} {later : Host} (hLeaves : c.transcript.Leaves host t later) :
    Sound settingsDirectory logDirectory heldText { c with transcript := t } later.tree := by
  obtain ⟨hDirectory, hTidy, hTree⟩ := hLeaves
  rw [h.logs] at hDirectory hTree
  refine ⟨?_, h.listeners, hTidy, hDirectory, h.history, ?_⟩
  · exact h.registry.extends hTree (elsewhere_settings _ _)
  · intro hText
    exact (h.text hText).extends hTree (elsewhere_history _ _)

theorem Sound.relay (h : Sound settingsDirectory logDirectory heldText c host.tree) (known : Nat) :
    Sound settingsDirectory logDirectory heldText (c.relay known host).1
      (c.relay known host).2.tree :=
  h.transcript (Transcript.hear_leaves _ h.tidy host)

theorem Sound.setRegistry (h : Sound settingsDirectory logDirectory heldText c host.tree)
    (id : Text) (value : Json) :
    Sound settingsDirectory logDirectory heldText
      { c with registry := (c.registry.set id value host).2.1 }
      (c.registry.set id value host).2.2.tree := by
  obtain ⟨hServes, hListeners, hTree⟩ :=
    h.registry.set encodable_of_mem_table h.listeners id value
  refine ⟨hServes, hListeners, h.tidy, h.logs, h.history, ?_⟩
  intro hText
  exact (h.text hText).extends hTree (apart_settings _)

theorem Sound.set (h : Sound settingsDirectory logDirectory heldText c host.tree) (id : Text)
    (value : Json) :
    Sound settingsDirectory logDirectory heldText (c.set id value host).2.1
      (c.set id value host).2.2.tree :=
  (h.setRegistry id value).relay _

theorem path_add (line : Text) (h : History) : (h.add line).path = h.path := by
  rw [History.add]
  split
  · rfl
  · rfl

theorem Sound.saveHistory (h : Sound settingsDirectory logDirectory heldText c host.tree)
    (kept : Bool) :
    Sound settingsDirectory logDirectory heldText c (c.history.save kept host).2.tree := by
  obtain ⟨hTree, hText⟩ := c.history.save_spec kept host
  rw [h.history] at hTree hText
  exact ⟨h.registry.extends hTree (apart_history _), h.listeners, h.tidy, h.logs, h.history,
    fun hHeld => hText (h.text hHeld)⟩

theorem Sound.overQueue (h : Sound settingsDirectory logDirectory heldText c host.tree)
    (act : WriteQueue → Host → WriteQueue × Host)
    (hAct : ∀ q wanted, q.Orderly → q.Serves (settingsPath settingsDirectory) wanted host.tree →
      (act q host).1.Orderly ∧
        (act q host).1.Serves (settingsPath settingsDirectory) wanted (act q host).2.tree ∧
        Extends (Apart (settingsPath settingsDirectory)) host.tree (act q host).2.tree) :
    Sound settingsDirectory logDirectory heldText
      { c with registry := (c.registry.overQueue act host).1 }
      (c.registry.overQueue act host).2.tree := by
  obtain ⟨hServes, _, hListeners, hTree⟩ := h.registry.overQueue hAct
  refine ⟨hServes, hListeners.trans h.listeners, h.tidy, h.logs, h.history, ?_⟩
  intro hText
  exact (h.text hText).extends hTree (apart_settings _)

theorem sound_kept (settingsDirectory logDirectory : FilePath) (heldText : Prop) :
    Kept (fun _ => True) (Sound settingsDirectory logDirectory heldText) where
  add _ h := ⟨h.registry, h.listeners, h.tidy, h.logs, (path_add _ _).trans h.history, h.text⟩
  set id value h := h.set id value
  write line _ h := h.transcript (Transcript.write_leaves _ line h.tidy _)
  wheel _ h := ⟨h.registry, h.listeners, h.tidy, h.logs, h.history, h.text⟩
  down h := ⟨h.registry, h.listeners, h.tidy, h.logs, h.history, h.text⟩
  save kept _ h := h.saveHistory kept
  close h := h.transcript (Transcript.close_leaves h.tidy _)
  queue act h := by
    refine h.overQueue act.perform fun q wanted hOrderly hServes => ?_
    cases act with
    | take => exact ⟨hOrderly.take, hServes.take, .refl _ _⟩
    | finish => exact ⟨hOrderly.finish _, hServes.finish⟩
    | close =>
      obtain ⟨hServed, hTree⟩ := hServes.beginClose.work (q.beginClose.waiting.length + 1)
      exact ⟨(hOrderly.close _).1, hServed, hTree⟩

end Switchboard.Client

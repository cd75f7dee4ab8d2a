import Switchboard.Proofs.Client.Logging
import Switchboard.Proofs.History.Entries

/-!
# The history over the lifetimes of clients

Clients follow each other on the same files. Each one starts with the history that the one before it
has left, if that was shut down, and adds the lines that it is given. The file holds one entry a
line, so an entry with a line boundary in it comes back as others.
-/

namespace Switchboard.Client

open FileTree
open RecordFile (underFaults Foreign)

/-! ## Files that a client spares -/

/-- Bears the name neither of a settings file nor of a transcript in the directory. -/
def Spared (logDirectory p : FilePath) : Prop :=
  Foreign p ∧ Transcript.Elsewhere logDirectory p

theorem spared_history (settingsDirectory logDirectory : FilePath) :
    Spared logDirectory (historyPath settingsDirectory) :=
  ⟨⟨settingsDirectory, historyName, rfl, by decide, by decide⟩, elsewhere_history _ _⟩

/-- Touches spared files in no other way than by saving its history. -/
structure Framed (logDirectory : FilePath) (c : Client) : Prop where
  askable : c.registry.Askable
  tidy : c.transcript.Tidy
  logs : c.transcript.directory = logDirectory

variable {settingsDirectory logDirectory : FilePath} {c : Client} {host later : Host}

theorem Framed.transcript (h : c.Framed logDirectory) {t : Transcript}
    (hLeaves : c.transcript.Leaves host t later) :
    Framed logDirectory { c with transcript := t } ∧
      Extends (Spared logDirectory) host.tree later.tree := by
  obtain ⟨hDirectory, hTidy, hTree⟩ := hLeaves
  rw [h.logs] at hDirectory hTree
  exact ⟨⟨h.askable, hTidy, hDirectory⟩, hTree.mono fun _ hSpared => hSpared.2⟩

theorem Framed.set (h : c.Framed logDirectory) (id : Text) (value : Json) (host : Host) :
    (c.set id value host).2.1.Framed logDirectory ∧
      Extends (Spared logDirectory) host.tree (c.set id value host).2.2.tree := by
  obtain ⟨hAskable, hTree⟩ := h.askable.set id value host
  have hSet : Framed logDirectory { c with registry := (c.registry.set id value host).2.1 } :=
    ⟨hAskable, h.tidy, h.logs⟩
  obtain ⟨hAfter, hHeard⟩ := hSet.transcript (Transcript.hear_leaves
    ((c.registry.set id value host).2.1.heard.drop c.registry.heard.length) h.tidy
    (c.registry.set id value host).2.2)
  exact ⟨hAfter, (hTree.mono fun _ hSpared => hSpared.1).trans hHeard⟩

theorem Framed.queue (h : c.Framed logDirectory) (act : QueueAct) (host : Host) :
    Framed logDirectory { c with registry := (c.registry.overQueue act.perform host).1 } ∧
      Extends (Spared logDirectory) host.tree (c.registry.overQueue act.perform host).2.tree := by
  have hSpares : WriteQueue.Spares act.perform := by
    cases act with
    | take => exact WriteQueue.take_spares
    | finish => exact WriteQueue.finish_spares
    | close => exact WriteQueue.close_spares
  obtain ⟨hAskable, hTree⟩ := h.askable.overQueue hSpares host
  exact ⟨⟨hAskable, h.tidy, h.logs⟩, hTree.mono fun _ hSpared => hSpared.1⟩

theorem kept_of_history {allowed : Text → Prop} {Q : History → Bool → FileTree → Prop}
    (hAdd : ∀ {h down tree line}, allowed line → Q h down tree → Q (h.add line) down tree)
    (hTree : ∀ {h down t u}, Extends (Spared logDirectory) t u → Q h down t → Q h down u)
    (hDown : ∀ {h down tree}, Q h down tree → Q h true tree)
    (hSave : ∀ {h} {host : Host} (kept : Bool), Q h true host.tree →
      Q h true (h.save kept host).2.tree) :
    Kept allowed fun c tree => c.Framed logDirectory ∧ Q c.history c.down tree where
  add hLine h := ⟨⟨h.1.askable, h.1.tidy, h.1.logs⟩, hAdd hLine h.2⟩
  set id value h := by
    obtain ⟨hFramed, hSet⟩ := h.1.set id value _
    exact ⟨hFramed, hTree hSet h.2⟩
  write line _ h := by
    obtain ⟨hFramed, hWrite⟩ := h.1.transcript (Transcript.write_leaves _ line h.1.tidy _)
    exact ⟨hFramed, hTree hWrite h.2⟩
  wheel _ h := ⟨⟨h.1.askable, h.1.tidy, h.1.logs⟩, h.2⟩
  down h := ⟨⟨h.1.askable, h.1.tidy, h.1.logs⟩, hDown h.2⟩
  save kept hDown h := by
    obtain ⟨hFramed, hHistory⟩ := h
    rw [hDown] at hHistory ⊢
    exact ⟨hFramed, hSave kept hHistory⟩
  close h := by
    obtain ⟨hFramed, hClose⟩ := h.1.transcript (Transcript.close_leaves h.1.tidy _)
    exact ⟨hFramed, hTree hClose h.2⟩
  queue act h := by
    obtain ⟨hFramed, hQueue⟩ := h.1.queue act _
    exact ⟨hFramed, hTree hQueue h.2⟩

theorem history_of_start {backend : Option Backend}
    (h : Client.start settingsDirectory logDirectory backend host = (.ok c, later)) :
    c.history = { path := historyPath settingsDirectory } ∨
      ∃ contents t, host.tree.read (historyPath settingsDirectory) = .ok contents ∧
        Utf8.decode contents = .ok t ∧ c.history =
          { path := historyPath settingsDirectory
            entries := History.newest 500 (History.entriesOf t) } := by
  obtain ⟨r, between, kept, log, hRegistry, _, hHistory, _⟩ := parts_of_start h
  have hStarted := Registry.tree_start .builtin
    (backend.getD (.file { directory := settingsDirectory })) host
  rw [hRegistry] at hStarted
  have hEntries := History.load_entries kept { path := historyPath settingsDirectory }
    { between with log }
  rw [hHistory] at hEntries
  rw [← show between.tree = host.tree from hStarted]
  exact hEntries

theorem tree_start (settingsDirectory logDirectory : FilePath) (backend : Option Backend)
    (host : Host) :
    (Client.start settingsDirectory logDirectory backend host).2.tree = host.tree := by
  have hStarted := Registry.tree_start .builtin
    (backend.getD (.file { directory := settingsDirectory })) host
  rw [Client.start]
  dsimp only
  split
  · rename_i hRegistry
    rwa [hRegistry] at hStarted
  · rename_i r between hRegistry
    rw [hRegistry] at hStarted
    split
    · exact hStarted
    · exact hStarted
    · rename_i mouse kept _ _
      obtain ⟨scrolled, hScroll⟩ := scrollback_start mouse between
      rw [hScroll]
      dsimp only
      obtain ⟨result, _, _, hLoad, _⟩ := History.load_spec kept
        { path := settingsDirectory.child historyName } { between with log := scrolled }
      rw [hLoad]
      cases result with
      | error e => exact hStarted
      | ok _ => exact hStarted

theorem framed_of_start {backend : Option Backend}
    (hAskable : ∀ given, backend = some given → given.Askable)
    (h : Client.start settingsDirectory logDirectory backend host = (.ok c, later)) :
    c.Framed logDirectory := by
  have hReady := ready_of_start hAskable h
  exact ⟨hReady.saving.askable, hReady.tidy, hReady.logs⟩

/-! ## Lifetimes -/

/-- What happens while clients follow each other on the same files. -/
inductive Happening
  /-- A client starts under some faults. The one before it is gone, whether it was shut down or
  not. -/
  | start (met : Faults) (backend : Option { given : Backend // given.Askable })
  | step (taken : Step)

def Happening.apply (settingsDirectory logDirectory : FilePath) :
    Happening → Option Client × Host → Option Client × Host
  | start met backend, s =>
    match Client.start settingsDirectory logDirectory (backend.map Subtype.val)
        (underFaults met s.2) with
    | (.ok c, host) => (some c, host)
    | (.error _, host) => (none, host)
  | step taken, (some c, host) => ((taken.apply (c, host)).1, (taken.apply (c, host)).2)
  | step _, (none, host) => (none, host)

def live (settingsDirectory logDirectory : FilePath) (happenings : List Happening)
    (s : Option Client × Host) : Option Client × Host :=
  happenings.foldl (fun s happening => happening.apply settingsDirectory logDirectory s) s

/-- A line that a history does not take, gives back as it is, or cannot save. -/
def Harmless (line : Text) : Prop :=
  line.IsBlank ∨ line.IsWhole ∨ ¬ line.Encodable

/-- The history is clean, and so is what its file gives, and will be after a save. -/
structure Tended (path : FilePath) (h : History) (tree : FileTree) : Prop where
  atPath : h.path = path
  clean : History.Clean h.entries
  entries : ∀ entry ∈ h.entries, entry.IsWhole ∨ ¬ entry.Encodable
  file : History.HoldsClean path tree

theorem tended_kept (settingsDirectory logDirectory : FilePath) :
    Kept Harmless fun c tree =>
      c.Framed logDirectory ∧ Tended (historyPath settingsDirectory) c.history tree := by
  apply kept_of_history (Q := fun h _ tree => Tended (historyPath settingsDirectory) h tree)
  · intro h _ tree line hLine hTended
    refine ⟨(path_add line h).trans hTended.atPath, History.clean_add hTended.clean line, ?_,
      hTended.file⟩
    intro entry hEntry
    rcases History.mem_add hEntry with hOld | ⟨rfl, hBlank⟩
    · exact hTended.entries entry hOld
    · exact hLine.resolve_left fun hNone => hBlank ((Text.strip_eq_nil_iff entry).mpr hNone)
  · intro h _ t u hTree hTended
    exact ⟨hTended.atPath, hTended.clean, hTended.entries,
      hTended.file.extends hTree (spared_history _ _)⟩
  · exact fun hTended => hTended
  · intro h host kept hTended
    obtain ⟨_, hLeaves⟩ := h.save_leaves kept host
    obtain ⟨hPath, hClean, hEntries, hFile⟩ := hTended
    refine ⟨hPath, hClean, hEntries, ?_⟩
    rw [← hPath] at hFile ⊢
    exact hLeaves.clean hFile hClean hEntries

/-- The client that lives is tended, and the file waits for the next one. -/
def Kempt (settingsDirectory logDirectory : FilePath) (s : Option Client × Host) : Prop :=
  History.HoldsClean (historyPath settingsDirectory) s.2.tree ∧ ∀ c, s.1 = some c →
    c.Framed logDirectory ∧ Tended (historyPath settingsDirectory) c.history s.2.tree

theorem tended_of_start {backend : Option Backend}
    (h : Client.start settingsDirectory logDirectory backend host = (.ok c, later))
    (hFile : History.HoldsClean (historyPath settingsDirectory) host.tree) :
    Tended (historyPath settingsDirectory) c.history host.tree := by
  rcases history_of_start h with hNew | ⟨contents, t, hRead, hText, hLoaded⟩
  · rw [hNew]
    exact ⟨rfl, History.clean_nil, nofun, hFile⟩
  · have hEntries : c.history.entries = History.newest 500 (History.entriesOf t) := by
      rw [hLoaded]
    obtain ⟨other, hOther, hClean⟩ :=
      hFile contents (node?_of_occupancy_file (read_eq_ok_iff.mp hRead))
    obtain rfl : t = other := Except.ok.inj (hText.symm.trans hOther)
    have hNewest := History.newest_suffix 500 (History.entriesOf t)
    rw [← hEntries] at hNewest
    refine ⟨by rw [hLoaded], hClean.suffix hNewest, fun entry hEntry => .inl ?_, hFile⟩
    exact History.isWhole_of_mem_entriesOf (hNewest.subset hEntry)

theorem Kempt.apply {s : Option Client × Host} (h : Kempt settingsDirectory logDirectory s)
    (happening : Happening) (hLine : ∀ line, happening = .step (.line line) → Harmless line) :
    Kempt settingsDirectory logDirectory
      (happening.apply settingsDirectory logDirectory s) := by
  obtain ⟨hFile, hClient⟩ := h
  cases happening with
  | start met backend =>
    have hTree := tree_start settingsDirectory logDirectory (backend.map Subtype.val)
      (underFaults met s.2)
    rw [Happening.apply]
    split
    · rename_i c later hStart
      rw [hStart] at hTree
      change later.tree = s.2.tree at hTree
      have hAskable : ∀ given, backend.map Subtype.val = some given → given.Askable := by
        rintro _ hGiven
        obtain ⟨given, _, rfl⟩ := Option.map_eq_some_iff.mp hGiven
        exact given.property
      refine ⟨hTree ▸ hFile, ?_⟩
      rintro _ ⟨⟩
      have hTended := tended_of_start hStart hFile
      refine ⟨framed_of_start hAskable hStart, ?_⟩
      rw [hTree]
      exact hTended
    · rename_i hStart
      rw [hStart] at hTree
      refine ⟨?_, ?_⟩
      · rw [hTree]
        exact hFile
      · rintro _ ⟨⟩
  | step taken =>
    obtain ⟨_ | c, host⟩ := s
    · exact ⟨hFile, hClient⟩
    · have hStep := (tended_kept settingsDirectory logDirectory).step (s := (c, host))
        (hClient c rfl) taken fun text hText => hLine text (congrArg Happening.step hText)
      refine ⟨hStep.2.file, ?_⟩
      rintro _ ⟨⟩
      exact hStep

theorem Kempt.live {s : Option Client × Host} (h : Kempt settingsDirectory logDirectory s)
    (happenings : List Happening)
    (hLines : ∀ line, .step (.line line) ∈ happenings → Harmless line) :
    Kempt settingsDirectory logDirectory
      (live settingsDirectory logDirectory happenings s) := by
  -- over what happens; between two clients it is the file that has to be clean
  induction happenings generalizing s with
  | nil => exact h
  | cons happening rest ih =>
    refine ih (h.apply happening ?_) fun line hLine => hLines line (List.mem_cons_of_mem _ hLine)
    rintro line rfl
    exact hLines line List.mem_cons_self

/-! ## A line that comes back as others -/

theorem live_cons (first : Happening) (rest : List Happening) (s : Option Client × Host) :
    live settingsDirectory logDirectory (first :: rest) s =
      live settingsDirectory logDirectory rest
        (first.apply settingsDirectory logDirectory s) :=
  List.foldl_cons

theorem live_append (first later : List Happening) (s : Option Client × Host) :
    live settingsDirectory logDirectory (first ++ later) s =
      live settingsDirectory logDirectory later (live settingsDirectory logDirectory first s) :=
  List.foldl_append

theorem live_steps (settingsDirectory logDirectory : FilePath) (steps : List Step)
    (s : Client × Host) :
    live settingsDirectory logDirectory (steps.map .step) (some s.1, s.2) =
      (some (run steps s).1, (run steps s).2) := by
  induction steps generalizing s with
  | nil => rfl
  | cons step rest ih => exact ih (step.apply s)

theorem handleLine_frame (line : Text) (c : Client) (host : Host) :
    (c.handleLine line host).2.1.history = c.history.add line ∧
      (c.handleLine line host).2.1.down = c.down := by
  have hExecute : ∀ d : Client, (d.execute line host).2.1.history = d.history ∧
      (d.execute line host).2.1.down = d.down := by
    intro d
    rcases execute_state line d host with hNone | ⟨id, value, hSet⟩
    · rw [hNone]
      exact ⟨rfl, rfl⟩
    · rw [hSet]
      exact ⟨rfl, rfl⟩
  have hRecord : ∀ (d : Client) (between : Host),
      (d.record line between).2.1.history = d.history ∧
        (d.record line between).2.1.down = d.down := by
    intro d between
    rw [Client.record]
    split
    · exact ⟨rfl, rfl⟩
    · split
      · exact ⟨rfl, rfl⟩
      · exact ⟨rfl, rfl⟩
  have hExecuted := hExecute { c with history := c.history.add line }
  rw [Client.handleLine]
  split
  · rename_i hResult
    rwa [hResult] at hExecuted
  · rename_i hResult
    rwa [hResult] at hExecuted
  · rename_i after later hResult
    rw [hResult] at hExecuted
    have hRecorded := hRecord after later
    rw [hExecuted.1, hExecuted.2] at hRecorded
    split
    · rename_i hResult
      rwa [hResult] at hRecorded
    · rename_i hResult
      rwa [hResult] at hRecorded

theorem shutdown_saves {old : Bytes} (host : Host) (h : c.Framed logDirectory) (hUp : c.down = false)
    (hKept : c.registry.isOn Descriptor.saveHistory = .ok true)
    (hPath : c.history.path = historyPath settingsDirectory) (hFaults : host.faults = {})
    (hFile : host.tree.occupancy (historyPath settingsDirectory) = .taken (.file old))
    (hEntries : ∀ entry ∈ c.history.entries, entry.Encodable) :
    (c.shutdown host).2.2.tree.occupancy (historyPath settingsDirectory) =
      .taken (.file (Utf8.encodeLossy (History.fileText c.history.entries))) := by
  rw [← hPath] at hFile
  obtain ⟨hResult, hSaved⟩ := History.save_of_file hPath hFaults hFile hEntries
  rw [hPath] at hSaved
  rw [Client.shutdown, if_neg (by simp [hUp])]
  dsimp only
  rw [hKept]
  dsimp only
  generalize c.history.save true host = saved at hResult hSaved ⊢
  obtain ⟨_, later⟩ := saved
  obtain rfl := hResult
  have hDown : Framed logDirectory { c with down := true } := ⟨h.askable, h.tidy, h.logs⟩
  obtain ⟨hClosed, hClose⟩ := hDown.transcript (Transcript.close_leaves h.tidy later)
  obtain ⟨_, hQueue⟩ := hClosed.queue .close (c.transcript.close later).2
  exact (hClose.trans hQueue).occupancy_kept (spared_history settingsDirectory _) hSaved

/-- Yields that the history is kept, whatever has been saved. -/
def keeper : { given : Backend // given.Askable } :=
  ⟨.script { loads := [(Descriptor.saveHistory, .ok (.bool true))] }, trivial⟩

theorem start_keeper (logDirectory : FilePath) {contents : Bytes} {t : Text} (host : Host)
    (hFaults : host.faults.readText = none)
    (hFile : host.tree.occupancy (historyPath settingsDirectory) = .taken (.file contents))
    (hText : Utf8.decode contents = .ok t) : ∃ c later,
    Client.start settingsDirectory logDirectory (some keeper.val) host = (.ok c, later) ∧
      c.history =
        { path := historyPath settingsDirectory
          entries := History.newest 500 (History.entriesOf t) } := by
  obtain ⟨r, hStart, hMouse, hKept⟩ : ∃ r,
      Registry.start .builtin (some keeper.val) host = (.ok r, host) ∧
      r.get Descriptor.mouseEnabled = .ok (.bool false) ∧
      r.isOn Descriptor.saveHistory = .ok true := ⟨_, rfl, rfl, rfl⟩
  obtain ⟨log, hStarts⟩ := start_eq settingsDirectory logDirectory
    (some keeper.val) hStart hMouse hKept
  have hRead : History.readFile { path := historyPath settingsDirectory } { host with log } =
      .ok t :=
    History.readFile_eq_ok_iff.mpr ⟨hFaults, contents, read_eq_ok_iff.mpr hFile, hText⟩
  rw [History.load, if_pos rfl, exists?] at hStarts
  dsimp only at hStarts
  rw [hFile] at hStarts
  dsimp only at hStarts
  rw [hRead] at hStarts
  exact ⟨_, _, hStarts _ _ _ rfl, rfl⟩

/-- What saves the history of a client that is not shut down, if only its directory is there. -/
def savingSteps : List Step :=
  [.set Descriptor.saveHistory (.bool true), .faults {}, .shutdown]

theorem savingSteps_save {old : Bytes} (h : c.Framed logDirectory)
    (hListeners : c.registry.listeners = [.recorder feedTag])
    (hKnown : (c.registry.setting? Descriptor.saveHistory).isSome = true) (hUp : c.down = false)
    (hPath : c.history.path = historyPath settingsDirectory)
    (hFile : host.tree.occupancy (historyPath settingsDirectory) = .taken (.file old))
    (hEntries : ∀ entry ∈ c.history.entries, entry.Encodable) :
    (run savingSteps (c, host)).2.tree.occupancy (historyPath settingsDirectory) =
      .taken (.file (Utf8.encodeLossy (History.fileText c.history.entries))) := by
  obtain ⟨hFramed, hTree⟩ := h.set Descriptor.saveHistory (.bool true) host
  exact shutdown_saves { (c.set Descriptor.saveHistory (.bool true) host).2.2 with faults := {} }
    hFramed hUp (Registry.isOn_set_self hListeners hKnown true host) hPath rfl
    (hTree.occupancy_kept (spared_history _ _) hFile) hEntries

/-- Until a client is shut down, it leaves the history file as it is. -/
theorem untouched_kept (settingsDirectory logDirectory : FilePath) (contents : Bytes) :
    Kept (fun _ => True) fun c tree => c.Framed logDirectory ∧ (c.down = false →
      tree.occupancy (historyPath settingsDirectory) = .taken (.file contents)) := by
  apply kept_of_history (Q := fun _ down tree => down = false →
    tree.occupancy (historyPath settingsDirectory) = .taken (.file contents))
  · exact fun _ hFile => hFile
  · exact fun hTree hFile hUp => hTree.occupancy_kept (spared_history _ _) (hFile hUp)
  · exact fun _ => nofun
  · exact fun _ _ => nofun

theorem lines_saved {backend : Option Backend} {old : Bytes} {line last : Text}
    (hAskable : ∀ given, backend = some given → given.Askable)
    (hLoads : ∀ given, backend = some given → given.LoadsPositions)
    (hStart : Client.start settingsDirectory logDirectory backend host = (.ok c, later))
    (hFile : host.tree.occupancy (historyPath settingsDirectory) = .taken (.file old))
    (hEntries : ∀ entry ∈ ((c.history.add line).add last).entries, entry.Encodable) :
    (run savingSteps (run [.line line, .line last] (c, later))).2.tree.occupancy
        (historyPath settingsDirectory) =
      .taken (.file (Utf8.encodeLossy
        (History.fileText ((c.history.add line).add last).entries))) := by
  obtain ⟨_, _, _, _, _, _, _, _, _, hUp⟩ := parts_of_start hStart
  have hTree := tree_start settingsDirectory logDirectory backend host
  rw [hStart] at hTree
  -- Either line may be a command, so all that is known of the switches is what any run keeps.
  have hReady := (ready_of_start hAskable hStart).run (s := (c, later)) [.line line, .line last]
  have hAttentive := attentive_kept.run (s := (c, later)) (attentive_of_start hLoads hStart)
    [.line line, .line last] fun _ _ => trivial
  obtain ⟨hFramed, hThere⟩ := (untouched_kept settingsDirectory logDirectory old).run
    (s := (c, later)) ⟨framed_of_start hAskable hStart, fun _ => by rw [hTree]; exact hFile⟩
    [.line line, .line last] fun _ _ => trivial
  have hFirst := handleLine_frame line c later
  have hSecond := handleLine_frame last (c.handleLine line later).2.1
    (c.handleLine line later).2.2
  rw [hFirst.1, hFirst.2, hUp] at hSecond
  obtain ⟨hHistory, hStillUp⟩ : (run [.line line, .line last] (c, later)).1.history =
      (c.history.add line).add last ∧
      (run [.line line, .line last] (c, later)).1.down = false := hSecond
  have hPath : ((c.history.add line).add last).path = historyPath settingsDirectory := by
    rw [path_add, path_add]
    rcases history_of_start hStart with hNew | ⟨_, _, _, _, hLoaded⟩
    · rw [hNew]
    · rw [hLoaded]
  rw [← hHistory] at hEntries hPath ⊢
  generalize run [.line line, .line last] (c, later) = told at *
  exact savingSteps_save hFramed hAttentive.listeners (hReady.known _ (by decide)) hStillUp hPath
    (hThere hStillUp) hEntries

def clientDirectory : FilePath := ⟨"/", ["config"]⟩

def transcriptDirectory : FilePath := ⟨"/", ["logs"]⟩

def firstLife : List Happening :=
  [.start {} (some keeper), .step .shutdown]

/-- A client is given two lines and saves them, and the next one loads them. -/
def retelling (line last : Text) : List Happening :=
  Happening.start {} (some keeper) ::
    ((Step.line line :: Step.line last :: savingSteps).map Happening.step ++
      [Happening.start {} (some keeper)])

theorem apply_start {met : Faults} (backend : Option { given : Backend // given.Askable })
    {s : Option Client × Host}
    (h : Client.start settingsDirectory logDirectory (backend.map Subtype.val)
      (underFaults met s.2) = (.ok c, later)) :
    (Happening.start met backend).apply settingsDirectory logDirectory s = (some c, later) := by
  rw [Happening.apply, h]

/-- The file that the first client leaves gives the second one no entries, and the third one what has
become of the two lines. -/
theorem entries_of_retelling {line last : Text} (hLine : line.Encodable)
    (hLast : last.Encodable) : ∃ c later,
    live clientDirectory transcriptDirectory (firstLife ++ retelling line last)
        (none, Host.sample []) =
      (some c, later) ∧
    c.history.entries = History.newest 500 (History.entriesOf (History.fileText
      (((History.add line { path := historyPath clientDirectory }).add last).entries))) := by
  have hFile : (live clientDirectory transcriptDirectory firstLife
      (none, Host.sample [])).2.tree.occupancy (historyPath clientDirectory) =
        .taken (.file []) := by
    decide +kernel
  rw [live_append]
  generalize live clientDirectory transcriptDirectory firstLife (none, Host.sample []) = left
    at hFile ⊢
  obtain ⟨second, later, hSecond, hNothing⟩ := start_keeper transcriptDirectory
    (t := []) (underFaults {} left.2) rfl hFile rfl
  have hNew : second.history = { path := historyPath clientDirectory } := hNothing
  have hLoads : ∀ given, some keeper.val = some given → given.LoadsPositions := by
    rintro _ ⟨⟩
    exact Backend.loadsPositions_single _ true
  have hEntries : ∀ entry ∈ ((second.history.add line).add last).entries, entry.Encodable := by
    intro entry hEntry
    rcases History.mem_add hEntry with hEntry | ⟨rfl, _⟩
    · rcases History.mem_add hEntry with hEntry | ⟨rfl, _⟩
      · rw [hNew] at hEntry
        cases hEntry
      · exact hLine
    · exact hLast
  have hSaved := lines_saved (by rintro _ ⟨⟩; exact keeper.property) hLoads hSecond hFile hEntries
  have hText := (History.encodable_fileText_iff _).mpr hEntries
  obtain ⟨third, after, hThird, hLoaded⟩ := start_keeper transcriptDirectory
    (underFaults {} _) rfl hSaved (Utf8.decode_encodeLossy hText)
  refine ⟨third, after, ?_, ?_⟩
  · have hLive := live_steps clientDirectory transcriptDirectory
      (.line line :: .line last :: savingSteps) (second, later)
    rw [retelling, live_cons, apply_start (some keeper) hSecond, live_append, hLive]
    exact apply_start (some keeper) hThird
  · rw [hLoaded, hNew]

/-- Clients follow each other on files among which there is no history at first, and are given whole
lines and some others. Exactly if each of those others is harmless, no history ever holds a blank
entry or the same entry twice in a row. -/
theorem clean_iff_harmless (others : Text → Prop) :
    (∀ (settingsDirectory logDirectory : FilePath) (host : Host) (happenings : List Happening)
      (c : Client),
      (∀ contents, host.tree.node? (historyPath settingsDirectory) ≠ some (.file contents)) →
      (∀ line, .step (.line line) ∈ happenings → line.IsWhole ∨ others line) →
      (live settingsDirectory logDirectory happenings (none, host)).1 = some c →
      History.Clean c.history.entries) ↔
    ∀ line, others line → Harmless line := by
  constructor
  · intro hClean line hLine
    by_contra hHarmful
    rw [Harmless, not_or, not_or, not_not] at hHarmful
    obtain ⟨hBlank, hWhole, hBytes⟩ := hHarmful
    obtain ⟨before, last, hLines⟩ := line.exists_lines_ended
    have hMem : last ∈ Text.lines (line ++ [Text.newline]) := by
      rw [hLines]
      exact List.mem_append_right _ List.mem_cons_self
    have hLast := Text.encodable_of_mem_lines ((Utf8.encodable_ended_iff line).mpr hBytes) hMem
    obtain ⟨c, later, hLive, hEntries⟩ := entries_of_retelling hBytes hLast
    refine History.not_clean_reloaded (historyPath clientDirectory)
      (fun hStrip => hBlank ((Text.strip_eq_nil_iff line).mp hStrip)) hWhole hLines ?_
    rw [← hEntries]
    refine hClean clientDirectory transcriptDirectory (Host.sample []) _ c (fun contents => ?_) ?_
      (congrArg Prod.fst hLive)
    · rw [show (Host.sample []).tree.node? (historyPath clientDirectory) = none from rfl]
      rintro ⟨⟩
    · intro given hGiven
      have hTold : given = line ∨ given = last := by
        simpa [firstLife, retelling, savingSteps] using hGiven
      rcases hTold with rfl | rfl
      · exact .inr hLine
      · exact .inl (Text.isWhole_of_mem_lines hMem)
  · intro hHarmless settingsDirectory logDirectory host happenings c hNone hLines hLive
    have hKempt : Kempt settingsDirectory logDirectory (none, host) :=
      ⟨fun contents hNode => absurd hNode (hNone contents), by rintro _ ⟨⟩⟩
    have hEnd := hKempt.live happenings fun line hLine =>
      (hLines line hLine).elim (fun hWhole => .inr (.inl hWhole)) (hHarmless line)
    exact (hEnd.2 c hLive).2.clean

def separatedHappenings : List Happening :=
  [.start {} none, .step (.line "look\u2028look"),
    .step (.set Descriptor.saveHistory (.bool true)), .step .shutdown, .start {} none]

/-- The one entry comes back as the same entry twice in a row. -/
theorem not_clean_after_separator : ∃ c,
    (live clientDirectory transcriptDirectory separatedHappenings
      (none, Host.sample [])).1 = some c ∧
      c.history.entries = [Text.ofString "look", Text.ofString "look"] ∧
      ¬ History.Clean c.history.entries := by
  have hPasses : (live clientDirectory transcriptDirectory separatedHappenings
      (none, Host.sample [])).1.any (fun c => decide
        (c.history.entries = [Text.ofString "look", Text.ofString "look"])) = true := by
    decide +kernel
  obtain ⟨c, hLive, hTest⟩ := (Option.any_eq_true _ _).mp hPasses
  have hEntries := of_decide_eq_true hTest
  refine ⟨c, hLive, hEntries, ?_⟩
  rw [hEntries]
  decide

end Switchboard.Client

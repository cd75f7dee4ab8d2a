import Switchboard.History
import Switchboard.Proofs.Host
import Switchboard.Proofs.Text.Utf8

/-!
# The file of the input history

Saving the history touches no file but its own, and what it leaves there can be read as text. It
fails only for entries without a byte form, or where the system cannot be given its directory. A
load fails only where the file cannot be read as text, or where its path cannot be asked about.
-/

namespace Switchboard.History

open FileTree

/-- Whatever file is listed for a path holds text. -/
def HoldsText (path : FilePath) (tree : FileTree) : Prop :=
  ∀ contents, tree.node? path = some (.file contents) → ∃ t, Utf8.decode contents = .ok t

variable {h : History} {host : Host} {path : FilePath}

theorem HoldsText.extends {kept : FilePath → Prop} {t u : FileTree} (hText : HoldsText path t)
    (hTree : Extends kept t u) (hKept : kept path) : HoldsText path u := by
  intro contents hNode
  exact hText contents ((hTree.same path hKept contents).mpr hNode)

/-- What an action does to the file tree when it writes no file but one, and leaves text there. -/
structure WritesText (path : FilePath) (t u : FileTree) : Prop where
  tree : Extends (Apart path) t u
  text : HoldsText path t → HoldsText path u

/-- An action leaves in the file what was there before, or nothing, or the entries. -/
def Leaves (h : History) (t u : FileTree) : Prop :=
  ∀ contents, u.node? h.path = some (.file contents) →
    t.node? h.path = some (.file contents) ∨ contents = [] ∨
      Utf8.encode (fileText h.entries) = .ok contents

theorem Leaves.text {t u : FileTree} (hLeaves : h.Leaves t u) (hText : HoldsText h.path t) :
    HoldsText h.path u := by
  intro contents hNode
  rcases hLeaves contents hNode with hBefore | rfl | hEncode
  · exact hText contents hBefore
  · exact ⟨[], rfl⟩
  · exact ⟨_, Utf8.decode_of_encode hEncode⟩

theorem Leaves.of_extends {t u v : FileTree} (hTree : Grows t u) (hLeaves : h.Leaves u v) :
    h.Leaves t v := by
  intro contents hNode
  exact (hLeaves contents hNode).imp_left (hTree.same h.path trivial contents).mpr

theorem leaves_self (h : History) (t : FileTree) : h.Leaves t t :=
  fun _ hNode => .inl hNode

/-- Writing the file is refused and nothing happens, or the file is opened, which empties it, and
holds the entries in the end if they have a byte form. -/
theorem writeFile_cases (h : History) (host : Host) :
    (∃ e, h.writeFile host = (.error (.file e), host) ∧
      (host.faults.writeText = none → ∀ emptied, host.tree.write h.path [] ≠ .ok emptied)) ∨
    (∃ emptied, host.tree.write h.path [] = .ok emptied ∧ host.faults.writeText = none ∧
      ((∃ e, Utf8.encode (fileText h.entries) = .error e ∧
          h.writeFile host = (.error (.unencodable e), { host with tree := emptied })) ∨
        ∃ contents, Utf8.encode (fileText h.entries) = .ok contents ∧
          h.writeFile host =
            (.ok (), { host with tree := emptied.put h.path (.file contents) }))) := by
  rw [writeFile]
  cases hFault : host.faults.writeText with
  | some message => exact .inl ⟨_, rfl, nofun⟩
  | none =>
    cases hWrite : host.tree.write h.path [] with
    | error refusal => exact .inl ⟨_, rfl, nofun⟩
    | ok emptied =>
      refine .inr ⟨emptied, rfl, rfl, ?_⟩
      cases hEncode : Utf8.encode (fileText h.entries) with
      | error e => exact .inl ⟨e, rfl, rfl⟩
      | ok contents => exact .inr ⟨contents, rfl, rfl⟩

/-- The directory is there and the file can be opened to be written. -/
structure Opens (h : History) (host : Host) : Prop where
  directory : (host.makeDirectories h.path.parent).1 = .ok ()
  allowed : host.faults.writeText = none
  file : ∃ emptied, (host.makeDirectories h.path.parent).2.tree.write h.path [] = .ok emptied

theorem store_cases (h : History) (host : Host) : ∃ tree, Grows host.tree tree ∧
    ((¬ h.Opens host ∧ ∃ e, h.store host = (.error (.file e), { host with tree })) ∨
    (h.Opens host ∧ ∃ old, tree.openToWrite h.path = .ok old ∧
      ((∃ e, Utf8.encode (fileText h.entries) = .error e ∧ h.store host =
          (.error (.unencodable e), { host with tree := tree.put h.path (.file []) })) ∨
        ∃ contents, Utf8.encode (fileText h.entries) = .ok contents ∧ h.store host =
          (.ok (), { host with
            tree := (tree.put h.path (.file [])).put h.path (.file contents) })))) := by
  obtain ⟨tree, hAdds, hHost, _⟩ := host.makeDirectories_eq h.path.parent
  refine ⟨tree, hAdds.grows, ?_⟩
  cases hMade : host.makeDirectories h.path.parent with
  | mk result later =>
    rw [hMade] at hHost
    obtain rfl : later = { host with tree } := hHost
    cases result with
    | error e =>
      refine .inl ⟨fun hOpens => ?_, e, by rw [store, hMade]⟩
      have hDirectory := hOpens.directory
      rw [hMade] at hDirectory
      cases hDirectory
    | ok _ =>
      have hStore : h.store host = h.writeFile { host with tree } := by rw [store, hMade]
      rw [hStore]
      obtain ⟨e, hRefused, hClosed⟩ | ⟨emptied, hWrite, hAllowed, hOpened⟩ :=
        h.writeFile_cases { host with tree }
      · refine .inl ⟨fun hOpens => ?_, e, hRefused⟩
        obtain ⟨emptied, hWrite⟩ := hOpens.file
        rw [hMade] at hWrite
        exact hClosed hOpens.allowed emptied hWrite
      · refine .inr ⟨⟨by rw [hMade], hAllowed, emptied, by rw [hMade]; exact hWrite⟩, ?_⟩
        obtain ⟨rfl, old, hOpen⟩ := eq_put_of_write hWrite
        exact ⟨old, hOpen, hOpened⟩

theorem store_spec (h : History) (host : Host) :
    Extends (Apart h.path) host.tree (h.store host).2.tree ∧
      h.Leaves host.tree (h.store host).2.tree := by
  obtain ⟨tree, hGrows, ⟨_, e, hRefused⟩ | ⟨_, old, hOpen, hOpened⟩⟩ := h.store_cases host
  · rw [hRefused]
    exact ⟨hGrows.extends _, .of_extends hGrows (leaves_self h tree)⟩
  · have hEmptied := (hGrows.extends (Apart h.path)).trans
      (extends_put_file (node?_of_openToWrite hOpen) [])
    obtain ⟨e, _, hFailed⟩ | ⟨contents, hEncode, hStored⟩ := hOpened
    · rw [hFailed]
      refine ⟨hEmptied, fun contents hNode => ?_⟩
      rw [node?_put, if_pos rfl] at hNode
      cases hNode
      exact .inr (.inl rfl)
    · rw [hStored]
      refine ⟨hEmptied.trans (extends_put_file ?_ contents), fun other hNode => ?_⟩
      · simp [node?_put]
      · rw [node?_put, if_pos rfl] at hNode
        cases hNode
        exact .inr (.inr hEncode)

theorem save_tree (kept : Bool) (h : History) (host : Host) :
    (h.save kept host).2.tree = if kept then (h.store host).2.tree else host.tree := by
  cases kept with
  | false => rfl
  | true =>
    rw [save, if_pos rfl, if_pos rfl]
    generalize h.store host = stored
    obtain ⟨result, later⟩ := stored
    cases result with
    | ok _ => rfl
    | error e =>
      dsimp only
      split
      · rfl
      · rfl

theorem save_leaves (kept : Bool) (h : History) (host : Host) :
    Extends (Apart h.path) host.tree (h.save kept host).2.tree ∧
      h.Leaves host.tree (h.save kept host).2.tree := by
  rw [save_tree]
  cases kept with
  | false => exact ⟨.refl _ _, leaves_self h _⟩
  | true => exact h.store_spec host

theorem save_spec (kept : Bool) (h : History) (host : Host) :
    WritesText h.path host.tree (h.save kept host).2.tree := by
  obtain ⟨hTree, hLeaves⟩ := h.save_leaves kept host
  exact ⟨hTree, hLeaves.text⟩

/-! ## How a save ends -/

/-- A save fails otherwise than by a refusal of the system: the system cannot be given its
directory, or the file has been emptied for entries of which one has no byte form. -/
def Unsavable (h : History) (host : Host) : Prop :=
  (host.faults.makeDirectory = none ∧ h.path.parent.Unnameable) ∨
    ((host.makeDirectories h.path.parent).1 = .ok () ∧ host.faults.writeText = none ∧
      (∃ emptied, (host.makeDirectories h.path.parent).2.tree.write h.path [] = .ok emptied) ∧
      ∃ entry ∈ h.entries, ¬ entry.Encodable)

theorem encodable_fileText_iff (entries : List Text) :
    Text.Encodable (fileText entries) ↔ ∀ entry ∈ entries, entry.Encodable := by
  induction entries with
  | nil => exact ⟨fun _ => nofun, fun _ => nofun⟩
  | cons entry rest ih =>
    have hSplit : Text.Encodable (fileText (entry :: rest)) ↔
        Text.Encodable (entry ++ [Text.newline]) ∧ Text.Encodable (fileText rest) :=
      List.forall_mem_append
    rw [hSplit, Utf8.encodable_ended_iff, ih, List.forall_mem_cons]

/-- A path that the system cannot be given, or entries without a byte form in a file that has been
emptied for them. -/
def Fails (h : History) (host : Host) : Prop :=
  (host.faults.makeDirectory = none ∧ h.path.parent.Unnameable) ∨
    ((host.makeDirectories h.path.parent).1 = .ok () ∧ host.faults.writeText = none ∧
      (h.path.Unnameable ∨
        (∃ emptied, (host.makeDirectories h.path.parent).2.tree.write h.path [] = .ok emptied) ∧
          ∃ entry ∈ h.entries, ¬ entry.Encodable))

theorem writeFile_passes_iff (h : History) (host : Host) :
    (∀ e, (h.writeFile host).1 = .error e → e.isFromSystem = true) ↔
      ¬ (host.faults.writeText = none ∧ (h.path.Unnameable ∨
        (∃ emptied, host.tree.write h.path [] = .ok emptied) ∧
          ∃ entry ∈ h.entries, ¬ entry.Encodable)) := by
  rw [writeFile]
  cases hFault : host.faults.writeText with
  | some message =>
    refine iff_of_true ?_ nofun
    rintro _ ⟨⟩
    rfl
  | none =>
    rw [and_iff_right rfl]
    cases hWrite : host.tree.write h.path [] with
    | error refusal =>
      by_cases hUnnameable : h.path.Unnameable
      · have hRefused := write_of_unnameable hUnnameable host.tree []
        rw [hWrite] at hRefused
        obtain rfl : refusal = h.path.refusal := Except.error.inj hRefused
        refine iff_of_false ?_ (not_not_intro (.inl hUnnameable))
        intro hPasses
        have hSystem : h.path.refusal.isFromSystem = true := hPasses _ rfl
        simp at hSystem
      · refine iff_of_true ?_ ?_
        · rintro _ ⟨⟩
          cases hSystem : refusal.isFromSystem with
          | true => exact hSystem
          | false => exact absurd (unnameable_of_write hWrite hSystem) hUnnameable
        · rintro (hNamed | ⟨⟨_, ⟨⟩⟩, _⟩)
          exact hUnnameable hNamed
    | ok emptied =>
      have hUnnameable : ¬ h.path.Unnameable := by
        intro hUnnameable
        rw [write_of_unnameable hUnnameable] at hWrite
        cases hWrite
      rw [or_iff_right hUnnameable, and_iff_right ⟨emptied, rfl⟩]
      by_cases hEntries : ∀ entry ∈ h.entries, entry.Encodable
      · dsimp only
        rw [Utf8.encode_eq_ok _ ((encodable_fileText_iff h.entries).mpr hEntries)]
        refine iff_of_true nofun ?_
        simpa using hEntries
      · cases hEncode : Utf8.encode (fileText h.entries) with
        | ok contents =>
          exact absurd ((encodable_fileText_iff _).mp (Utf8.encodable_of_encodeFrom hEncode))
            hEntries
        | error e =>
          refine iff_of_false ?_ ?_
          · intro hPasses
            cases hPasses _ rfl
          · simpa using hEntries

theorem store_passes_iff (h : History) (host : Host) :
    (∀ e, (h.store host).1 = .error e → e.isFromSystem = true) ↔ ¬ h.Fails host := by
  have hNamed : host.faults.makeDirectory = none ∧ h.path.parent.Unnameable →
      (host.makeDirectories h.path.parent).1 = .error h.path.parent.refusal :=
    fun ⟨hFault, hParent⟩ => congrArg Prod.fst (Host.makeDirectories_of_unnameable hParent hFault)
  have hRefused := fun e (hMade : (host.makeDirectories h.path.parent).1 = .error e) =>
    Host.unnameable_of_makeDirectories hMade
  obtain ⟨tree, _, hHost, _⟩ := host.makeDirectories_eq h.path.parent
  rw [store, Fails, not_or]
  generalize host.makeDirectories h.path.parent = made at hNamed hRefused hHost ⊢
  obtain ⟨result, later⟩ := made
  obtain rfl : later = { host with tree } := hHost
  cases result with
  | error refusal =>
    constructor
    · intro hPasses
      refine ⟨fun hUnnamed => ?_, nofun⟩
      obtain rfl : refusal = h.path.parent.refusal := Except.error.inj (hNamed hUnnamed)
      have hSystem : h.path.parent.refusal.isFromSystem = true := hPasses _ rfl
      simp at hSystem
    · rintro ⟨hAsked, _⟩ _ ⟨⟩
      cases hSystem : refusal.isFromSystem with
      | true => exact hSystem
      | false => exact absurd (hRefused refusal rfl hSystem).symm hAsked
  | ok _ =>
    have hAsked : ¬ (host.faults.makeDirectory = none ∧ h.path.parent.Unnameable) := by
      intro hUnnamed
      cases hNamed hUnnamed
    dsimp only
    rw [writeFile_passes_iff, and_iff_right rfl, and_iff_right hAsked]

theorem save_passes_iff (kept : Bool) (h : History) (host : Host) :
    (h.save kept host).1 = .ok () ↔ ¬ (kept = true ∧ h.Fails host) := by
  cases kept with
  | false => exact iff_of_true rfl nofun
  | true =>
    rw [and_iff_right rfl, ← store_passes_iff, save, if_pos rfl]
    generalize h.store host = stored
    obtain ⟨result, later⟩ := stored
    cases result with
    | ok _ => exact iff_of_true rfl nofun
    | error e =>
      dsimp only
      split
      · rename_i hSystem
        exact iff_of_true rfl fun _ hSame => Except.error.inj hSame ▸ hSystem
      · rename_i hFamily
        exact iff_of_false nofun fun hPasses => hFamily (hPasses e rfl)

/-- Where the file has a name that can be asked for, only its directory may have none. -/
theorem fails_iff_unsavable (hName : h.path.Unnameable → h.path.parent.Unnameable) :
    h.Fails host ↔ h.Unsavable host := by
  refine or_congr_right (and_congr_right fun hMade => and_congr_right fun _ => or_iff_right ?_)
  intro hUnnameable
  obtain ⟨tree, _, _, hThere⟩ := host.makeDirectories_eq h.path.parent
  exact not_unnameable_of_occupancy (hThere hMade) (by simp) (hName hUnnameable)

theorem save_eq_ok_iff (hName : h.path.Unnameable → h.path.parent.Unnameable) (kept : Bool) :
    (h.save kept host).1 = .ok () ↔ ¬ (kept = true ∧ h.Unsavable host) := by
  rw [save_passes_iff, fails_iff_unsavable hName]

/-! ## Loading -/

theorem readFile_error {e : Failure} (hText : HoldsText h.path host.tree)
    (hTaken : ∃ node, host.tree.occupancy h.path = .taken node)
    (hRead : h.readFile host = .error e) : e.isFromSystem = true := by
  obtain ⟨node, hTaken⟩ := hTaken
  rw [readFile] at hRead
  split at hRead
  · cases hRead
    rfl
  · rw [FileTree.read, hTaken] at hRead
    cases node with
    | directory =>
      cases hRead
      rfl
    | file contents =>
      obtain ⟨t, hDecode⟩ := hText contents (node?_of_occupancy_file hTaken)
      dsimp only at hRead
      rw [hDecode] at hRead
      cases hRead

/-- Loading changes no file, and it succeeds where the file can be asked about and holds text. -/
theorem load_spec (kept : Bool) (h : History) (host : Host) : ∃ result loaded log,
    h.load kept host = (result, loaded, { host with log }) ∧ loaded.path = h.path ∧
      (HoldsText h.path host.tree →
        (kept = true → host.tree.occupancy h.path ≠ .nameTooLong) → result = .ok ()) := by
  rw [load]
  split
  · rename_i hKept
    split
    · rename_i refusal hRefused
      refine ⟨_, h, host.log, rfl, rfl, fun _ hAsk => ?_⟩
      rw [exists?] at hRefused
      split at hRefused
      · cases hRefused
      · rename_i hLong
        exact absurd hLong (hAsk hKept)
      · cases hRefused
    · exact ⟨.ok (), h, host.log, rfl, rfl, fun _ _ => rfl⟩
    · rename_i hThere
      have hTaken : ∃ node, host.tree.occupancy h.path = .taken node := by
        rw [exists?] at hThere
        split at hThere
        · rename_i node hTaken
          exact ⟨node, hTaken⟩
        · cases hThere
        · cases hThere
      split
      · rename_i e hRead
        split
        · exact ⟨.ok (), h, _, rfl, rfl, fun _ _ => rfl⟩
        · rename_i hFamily
          exact ⟨_, h, host.log, rfl, rfl, fun hText _ =>
            absurd (readFile_error hText hTaken hRead) hFamily⟩
      · exact ⟨.ok (), _, _, rfl, rfl, fun _ _ => rfl⟩
  · exact ⟨.ok (), h, host.log, rfl, rfl, fun _ _ => rfl⟩

theorem load_log (kept : Bool) (h : History) (host : Host) (log : List LogLine) : ∃ later,
    h.load kept { host with log } =
      ((h.load kept host).1, (h.load kept host).2.1, { host with log := later }) := by
  have hRead : h.readFile { host with log } = h.readFile host := rfl
  rw [load, load, hRead]
  cases kept with
  | false => exact ⟨log, rfl⟩
  | true =>
    dsimp only
    cases host.tree.exists? h.path with
    | error e => exact ⟨log, rfl⟩
    | ok there =>
      cases there with
      | false => exact ⟨log, rfl⟩
      | true =>
        cases h.readFile host with
        | ok t => exact ⟨_, rfl⟩
        | error e =>
          simp only [if_true]
          split
          · exact ⟨_, rfl⟩
          · exact ⟨log, rfl⟩

end Switchboard.History

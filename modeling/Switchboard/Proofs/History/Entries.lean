import Mathlib.Data.List.Chain
import Switchboard.Proofs.History.Saving
import Switchboard.Proofs.Text.Lines

/-!
# Clean histories and their file

A history is clean when none of its entries is blank and no two neighbours are equal. Adding lines
keeps it clean. The file gives back every entry as the lines that it breaks into, so a history of
whole entries comes back as it is.
-/

namespace Switchboard.History

open FileTree

/-- No entry is blank, and no entry is followed by itself. -/
def Clean (entries : List Text) : Prop :=
  (∀ entry ∈ entries, entry.strip ≠ []) ∧ entries.IsChain (· ≠ ·)

instance (entries : List Text) : Decidable (Clean entries) := inferInstanceAs (Decidable (_ ∧ _))

variable {h : History} {entries more : List Text} {line : Text}

@[simp] theorem clean_nil : Clean [] := ⟨by simp, .nil⟩

theorem Clean.suffix (hClean : Clean entries) (hMore : more <:+ entries) : Clean more :=
  ⟨fun entry hEntry => hClean.1 entry (hMore.subset hEntry), hClean.2.suffix hMore⟩

theorem Clean.concat (hClean : Clean entries) (hLine : line.strip ≠ [])
    (hLast : entries.getLast? ≠ some line) : Clean (entries ++ [line]) := by
  constructor
  · intro entry hEntry
    rcases List.mem_append.mp hEntry with hOld | hNew
    · exact hClean.1 entry hOld
    · rw [List.mem_singleton.mp hNew]
      exact hLine
  · refine List.isChain_append.mpr ⟨hClean.2, .singleton line, ?_⟩
    intro last hOld new hNew
    rw [List.head?_singleton, Option.mem_some_iff] at hNew
    rintro rfl
    rw [hNew] at hLast
    exact hLast hOld

theorem newest_suffix (limit : Int) (entries : List Text) : newest limit entries <:+ entries := by
  rw [newest]
  split
  · exact List.drop_suffix _ _
  · exact List.drop_suffix _ _

theorem clean_add (hClean : Clean h.entries) (line : Text) : Clean (h.add line).entries := by
  rw [add]
  split
  · exact hClean
  · rename_i hNew
    rw [not_or] at hNew
    exact (hClean.concat hNew.1 hNew.2).suffix (newest_suffix _ _)

theorem mem_add {entry : Text} (hEntry : entry ∈ (h.add line).entries) :
    entry ∈ h.entries ∨ entry = line ∧ line.strip ≠ [] := by
  rw [add] at hEntry
  split at hEntry
  · exact .inl hEntry
  · rename_i hNew
    rw [not_or] at hNew
    rcases List.mem_append.mp ((newest_suffix _ _).subset hEntry) with hOld | hLine
    · exact .inl hOld
    · exact .inr ⟨List.mem_singleton.mp hLine, hNew.1⟩

/-! ## The file -/

theorem entriesOf_eq (t : Text) : entriesOf t = t.lines :=
  t.lines_unifyBreaks

theorem isWhole_of_mem_entriesOf {t entry : Text} (hEntry : entry ∈ entriesOf t) :
    entry.IsWhole := by
  rw [entriesOf_eq] at hEntry
  exact Text.isWhole_of_mem_lines hEntry

/-- Each entry comes back as the lines that it breaks into. -/
theorem entriesOf_fileText (entries : List Text) :
    entriesOf (fileText entries) =
      entries.flatMap fun entry => Text.lines (entry ++ [Text.newline]) := by
  rw [entriesOf_eq]
  induction entries with
  | nil => rfl
  | cons entry rest ih =>
    rw [List.flatMap_cons, ← ih, ← Text.lines_append]
    congr 1
    simp [fileText]

theorem entriesOf_fileText_of_whole (hWhole : ∀ entry ∈ entries, entry.IsWhole) :
    entriesOf (fileText entries) = entries := by
  rw [entriesOf_fileText]
  induction entries with
  | nil => rfl
  | cons entry rest ih =>
    obtain ⟨hFirst, hRest⟩ := List.forall_mem_cons.mp hWhole
    rw [List.flatMap_cons, Text.lines_ended hFirst, ih hRest]
    rfl

theorem suffix_newest {limit : Nat} (hFits : more.length ≤ limit) (entries : List Text) :
    more <:+ newest limit (entries ++ more) := by
  have hMore : (entries ++ more).drop entries.length = more := List.drop_left
  have hDropped : ∀ count ≤ entries.length, more <:+ (entries ++ more).drop count := by
    intro count hCount
    have hSuffix := List.drop_suffix_drop_left (entries ++ more) hCount
    rwa [hMore] at hSuffix
  rw [newest]
  split
  · apply hDropped
    rw [List.length_append]
    omega
  · apply hDropped
    omega

theorem add_new {path : FilePath} (hLine : line.strip ≠ []) (hLast : entries.getLast? ≠ some line)
    (hFits : entries.length < 500) :
    add line { path, entries } = { path, entries := entries ++ [line] } := by
  have hNewest : newest 500 (entries ++ [line]) = entries ++ [line] := by
    have hFits : (entries ++ [line]).length ≤ 500 := by
      rw [List.length_append, List.length_singleton]
      omega
    exact (newest_suffix 500 _).eq_of_length_le (suffix_newest hFits []).length_le
  rw [add, if_neg (not_or.mpr ⟨hLine, hLast⟩)]
  exact congrArg (History.mk path 500) hNewest

/-- A line with a boundary in it comes back with its last piece twice, if that is added behind it, or
with a blank last piece. -/
theorem not_clean_reloaded {last : Text} {before : List Text} (path : FilePath)
    (hBlank : line.strip ≠ []) (hWhole : ¬ line.IsWhole)
    (hLines : Text.lines (line ++ [Text.newline]) = before ++ [last]) :
    ¬ Clean (newest 500
      (entriesOf (fileText (add last (add line { path })).entries))) := by
  intro hClean
  have hPiece : last.IsWhole := Text.isWhole_of_mem_lines (t := line ++ [Text.newline]) (by
    rw [hLines]
    exact List.mem_append_right _ List.mem_cons_self)
  have hFirst : add line { path } = { path, entries := [line] } :=
    add_new hBlank (by simp) (by simp)
  rw [hFirst] at hClean
  by_cases hLast : last.strip = []
  · rw [add, if_pos (.inl hLast), entriesOf_fileText] at hClean
    simp only [List.flatMap_cons, List.flatMap_nil, List.append_nil, hLines] at hClean
    have hOne : [last].length ≤ 500 := by simp
    exact (hClean.suffix (suffix_newest hOne before)).1 last List.mem_cons_self hLast
  · have hOther : [line].getLast? ≠ some last := by
      rintro ⟨⟩
      exact hWhole hPiece
    rw [add_new hLast hOther (by simp), entriesOf_fileText] at hClean
    simp only [List.flatMap_cons, List.flatMap_nil, List.append_nil, hLines,
      Text.lines_ended hPiece, List.append_assoc, List.cons_append, List.nil_append] at hClean
    have hTwo : [last, last].length ≤ 500 := by simp
    have hTwice := (hClean.suffix (suffix_newest hTwo before)).2
    simp at hTwice

/-- What the history file gives, if it is there, is a clean history. -/
def HoldsClean (path : FilePath) (tree : FileTree) : Prop :=
  ∀ contents, tree.node? path = some (.file contents) →
    ∃ t, Utf8.decode contents = .ok t ∧ Clean (entriesOf t)

theorem HoldsClean.extends {path : FilePath} {kept : FilePath → Prop} {t u : FileTree}
    (hClean : HoldsClean path t) (hTree : Extends kept t u) (hKept : kept path) :
    HoldsClean path u := by
  intro contents hNode
  exact hClean contents ((hTree.same path hKept contents).mpr hNode)

theorem readFile_eq_ok_iff {host : Host} {t : Text} :
    h.readFile host = .ok t ↔ host.faults.readText = none ∧ ∃ contents,
      host.tree.read h.path = .ok contents ∧ Utf8.decode contents = .ok t := by
  constructor
  · intro hRead
    rw [readFile] at hRead
    split at hRead
    · cases hRead
    · rename_i hFault
      split at hRead
      · cases hRead
      · rename_i contents hContents
        split at hRead
        · cases hRead
        · rename_i hText
          cases hRead
          exact ⟨hFault, contents, hContents, hText⟩
  · rintro ⟨hFault, contents, hContents, hText⟩
    rw [readFile, hFault]
    dsimp only
    rw [hContents]
    dsimp only
    rw [hText]

theorem load_entries (kept : Bool) (h : History) (host : Host) :
    (h.load kept host).2.1 = h ∨ ∃ contents t,
      host.tree.read h.path = .ok contents ∧ Utf8.decode contents = .ok t ∧
      (h.load kept host).2.1 = { h with entries := newest h.maxEntries (entriesOf t) } := by
  rw [load]
  split
  · split
    · exact .inl rfl
    · exact .inl rfl
    · split
      · split
        · exact .inl rfl
        · exact .inl rfl
      · rename_i t hRead
        obtain ⟨_, contents, hContents, hText⟩ := readFile_eq_ok_iff.mp hRead
        exact .inr ⟨contents, t, hContents, hText, rfl⟩
  · exact .inl rfl

theorem Leaves.clean {t u : FileTree} (hLeaves : h.Leaves t u) (hFile : HoldsClean h.path t)
    (hClean : Clean h.entries)
    (hEntries : ∀ entry ∈ h.entries, entry.IsWhole ∨ ¬ entry.Encodable) :
    HoldsClean h.path u := by
  intro contents hNode
  rcases hLeaves contents hNode with hBefore | rfl | hEncode
  · exact hFile contents hBefore
  · exact ⟨[], rfl, clean_nil⟩
  · refine ⟨_, Utf8.decode_of_encode hEncode, ?_⟩
    have hBytes := (encodable_fileText_iff h.entries).mp (Utf8.encodable_of_encodeFrom hEncode)
    rw [entriesOf_fileText_of_whole fun entry hEntry =>
      (hEntries entry hEntry).resolve_right (not_not_intro (hBytes entry hEntry))]
    exact hClean

theorem save_of_file {directory : FilePath} {name : Text} {old : Bytes} {host : Host}
    (hPath : h.path = directory.child name) (hFaults : host.faults = {})
    (hFile : host.tree.occupancy h.path = .taken (.file old))
    (hEntries : ∀ entry ∈ h.entries, entry.Encodable) :
    (h.save true host).1 = .ok () ∧ (h.save true host).2.tree.occupancy h.path =
      .taken (.file (Utf8.encodeLossy (fileText h.entries))) := by
  have hDirectory : host.tree.occupancy h.path.parent = .taken .directory := by
    rw [hPath] at hFile
    rw [hPath, FilePath.parent_child]
    exact occupancy_parent hFile (.inl ⟨_, rfl⟩)
  have hMade := Host.makeDirectories_of_directory hFaults hDirectory
  refine save_of_opens ⟨?_, ?_, ?_⟩ hEntries
  · rw [hMade]
  · rw [hFaults]
  · rw [hMade, FileTree.write, openToWrite_of_file hFile]
    exact ⟨_, rfl⟩

end Switchboard.History

import Switchboard.Proofs.History.Entries
import Switchboard.Proofs.History.Recording

/-!
# Saved entries that come back

A file of entries is read by other boundaries than those it was written with, so that an entry comes
back as the lines that it breaks into. What comes back is never broken any further.
-/

namespace Switchboard.History

open FileTree

variable {h : History} {host : Host} {entries : List Text} {limit : Nat}

theorem load_of_file {contents : Bytes} {t : Text}
    (hFile : host.tree.occupancy h.path = .taken (.file contents))
    (hAllowed : host.faults.readText = none) (hText : Utf8.decode contents = .ok t) :
    ∃ log, h.load true host =
      (.ok (), { h with entries := newest h.maxEntries (entriesOf t) }, { host with log }) := by
  have hRead : h.readFile host = .ok t :=
    readFile_eq_ok_iff.mpr ⟨hAllowed, contents, read_eq_ok_iff.mpr hFile, hText⟩
  rw [load, if_pos rfl, exists?, hFile]
  dsimp only
  rw [hRead]
  exact ⟨_, rfl⟩

theorem rtake_entriesOf_eq_iff (hFits : entries.length ≤ limit) :
    (entriesOf (fileText entries)).rtake limit = entries ↔ ∀ entry ∈ entries, entry.IsWhole := by
  constructor
  · intro hBack entry hEntry
    rw [← hBack, List.rtake] at hEntry
    exact isWhole_of_mem_entriesOf (List.mem_of_mem_drop hEntry)
  · intro hWhole
    rw [entriesOf_fileText_of_whole hWhole, rtake_of_length_le hFits]

/-- Entries within the limit that a save could write are found by a later load as the lines that they
break into, the newest as many as the limit allows. They are the same entries if and only if none of
them has a boundary of lines in it. -/
theorem saved_entries_come_back_iff (limit : Nat) (hLimit : 0 < limit) (h : History)
    (hMax : h.maxEntries = limit) (hFits : h.entries.length ≤ limit)
    (hEntries : ∀ entry ∈ h.entries, entry.Encodable) (host later : Host) (hOpens : h.Opens host)
    (hTree : later.tree = (h.save true host).2.tree) (hAllowed : later.faults.readText = none) :
    (h.save true host).1 = .ok () ∧ ∃ loaded log,
      load true { path := h.path, maxEntries := limit } later =
        (.ok (), loaded, { later with log }) ∧
      loaded = { h with
        entries := (h.entries.flatMap fun entry => Text.lines (entry ++ [Text.newline])).rtake limit } ∧
      (loaded.entries = h.entries ↔ ∀ entry ∈ h.entries, entry.IsWhole) := by
  obtain ⟨hSaved, hFile⟩ := save_of_opens hOpens hEntries
  rw [← hTree] at hFile
  have hText := Utf8.decode_encodeLossy ((encodable_fileText_iff h.entries).mpr hEntries)
  obtain ⟨log, hLoad⟩ := load_of_file (h := { path := h.path, maxEntries := limit }) hFile hAllowed
    hText
  refine ⟨hSaved, _, log, hLoad, ?_, ?_⟩
  · rw [newest_eq_rtake hLimit, entriesOf_fileText, hMax]
  · dsimp only
    rw [newest_eq_rtake hLimit, rtake_entriesOf_eq_iff hFits]

/-- The line separator of one entry is a boundary, and so is the return at the end of the other, which
gives way together with the newline behind it. -/
theorem saved_entries_come_back_broken :
    let h : History := {
      path := ⟨"/", ["config", "history"]⟩, maxEntries := 3
      entries := ["one\u2028two", "three\r"] }
    let host := Host.sample []
    h.entries.length ≤ 3 ∧ (∀ entry ∈ h.entries, entry.Encodable) ∧ h.Opens host ∧
      ∃ loaded after, load true { path := h.path, maxEntries := 3 } (h.save true host).2 =
        (.ok (), loaded, after) ∧
      loaded.entries = ["one", "two", "three"] ∧ loaded.entries ≠ h.entries := by
  intro h host
  have hEntries : ∀ entry ∈ h.entries, entry.Encodable := by decide +kernel
  have hOpens : h.Opens host := ⟨by decide +kernel, rfl, _, rfl⟩
  obtain ⟨_, loaded, log, hLoad, hLoaded, hBack⟩ := saved_entries_come_back_iff 3 (by decide) h rfl
    (by decide) hEntries host (h.save true host).2 hOpens rfl rfl
  refine ⟨by decide, hEntries, hOpens, loaded, _, hLoad, ?_, ?_⟩
  · rw [hLoaded]
    decide +kernel
  · intro hSame
    exact absurd (hBack.mp hSame _ List.mem_cons_self 0x2028) (by decide +kernel)

end Switchboard.History

import Switchboard.Proofs.File.Contents
import Switchboard.Proofs.History

/-!
# Saving the history over an old one

The file is written in place: opening it empties it, and only then are the entries encoded. Whatever
is refused is refused before the file is opened, so that only entries without a byte form can do away
with the old ones.
-/

namespace Switchboard.History

open FileTree

/-- The file holds what it held before, and if there was none, there still is none. -/
def Keeps (h : History) (t u : FileTree) : Prop :=
  ∀ contents, t.node? h.path = some (.file contents) ↔ u.node? h.path = some (.file contents)

def HoldsEntries (h : History) (t : FileTree) : Prop :=
  ∃ contents, Utf8.encode (fileText h.entries) = .ok contents ∧
    t.node? h.path = some (.file contents)

variable {h : History} {host : Host} {t u : FileTree}

theorem keeps_of_grows (hGrows : Grows t u) : h.Keeps t u := hGrows.same h.path trivial

theorem keeps_iff_of_emptied (hEmptied : u.node? h.path = some (.file [])) :
    h.Keeps t u ↔ t.node? h.path = some (.file []) := by
  constructor
  · intro hKeeps
    exact (hKeeps []).mpr hEmptied
  · intro hOld contents
    rw [hOld, hEmptied]

theorem encode_fileText_iff :
    (∃ contents, Utf8.encode (fileText h.entries) = .ok contents) ↔
      ∀ entry ∈ h.entries, entry.Encodable := by
  rw [← encodable_fileText_iff]
  constructor
  · rintro ⟨contents, hEncode⟩
    exact Utf8.encodable_of_encodeFrom hEncode
  · intro hText
    exact ⟨_, Utf8.encode_eq_ok _ hText⟩

theorem store_of_unencodable (hOpens : h.Opens host)
    (hEntries : ¬ ∀ entry ∈ h.entries, entry.Encodable) :
    (h.store host).2.tree.node? h.path = some (.file []) ∧
      ¬ h.HoldsEntries (h.store host).2.tree := by
  rw [← encode_fileText_iff] at hEntries
  obtain ⟨tree, _, ⟨hClosed, _⟩ | ⟨_, _, _, ⟨_, _, hFailed⟩ | ⟨contents, hEncode, _⟩⟩⟩ :=
    h.store_cases host
  · exact absurd hOpens hClosed
  · rw [hFailed]
    constructor
    · rw [node?_put, if_pos rfl]
    · rintro ⟨contents, hEncode, _⟩
      exact hEntries ⟨contents, hEncode⟩
  · exact absurd ⟨contents, hEncode⟩ hEntries

theorem store_keeps_or_holds
    (hSaved : h.Opens host → ∀ entry ∈ h.entries, entry.Encodable) :
    h.Keeps host.tree (h.store host).2.tree ∨ h.HoldsEntries (h.store host).2.tree := by
  obtain ⟨tree, hGrows, ⟨_, e, hRefused⟩ |
      ⟨hOpens, _, _, ⟨e, hEncode, _⟩ | ⟨contents, hEncode, hStored⟩⟩⟩ := h.store_cases host
  · rw [hRefused]
    exact .inl (keeps_of_grows hGrows)
  · obtain ⟨contents, hEncoded⟩ := encode_fileText_iff.mpr (hSaved hOpens)
    rw [hEncode] at hEncoded
    cases hEncoded
  · rw [hStored]
    exact .inr ⟨contents, hEncode, by rw [node?_put, if_pos rfl]⟩

theorem save_of_opens (hOpens : h.Opens host) (hEntries : ∀ entry ∈ h.entries, entry.Encodable) :
    (h.save true host).1 = .ok () ∧ (h.save true host).2.tree.occupancy h.path =
      .taken (.file (Utf8.encodeLossy (fileText h.entries))) := by
  have hText := (encodable_fileText_iff h.entries).mpr hEntries
  have hBytes : Utf8.encode (fileText h.entries) = .ok (Utf8.encodeLossy (fileText h.entries)) := by
    rw [Utf8.encode_eq_ok _ hText, Utf8.encodeLossy_of_encodable hText]
  obtain ⟨tree, _, ⟨hClosed, _⟩ |
      ⟨_, old, hOpen, ⟨e, hEncode, _⟩ | ⟨contents, hEncode, hStored⟩⟩⟩ := h.store_cases host
  · exact absurd hOpens hClosed
  · rw [hBytes] at hEncode
    cases hEncode
  · rw [hBytes] at hEncode
    cases hEncode
    rw [save, if_pos rfl, hStored]
    have hEmptied := occupancy_put_of_openToWrite hOpen []
    exact ⟨rfl, occupancy_put_of_openToWrite (openToWrite_of_file hEmptied) _⟩

theorem save_loses_iff (kept : Bool) (h : History) (host : Host) :
    (¬ h.Keeps host.tree (h.save kept host).2.tree ∧ ¬ h.HoldsEntries (h.save kept host).2.tree) ↔
      kept = true ∧ h.Opens host ∧ (¬ ∀ entry ∈ h.entries, entry.Encodable) ∧
        host.tree.node? h.path ≠ some (.file []) := by
  rw [save_tree]
  cases kept with
  | false => exact iff_of_false (fun hLost => hLost.1 (keeps_of_grows (.refl _ _))) nofun
  | true =>
    rw [if_pos rfl, and_iff_right rfl]
    constructor
    · intro hLost
      have hSpoilt := mt store_keeps_or_holds (not_or.mpr hLost)
      obtain ⟨hOpens, hEntries⟩ := Classical.not_imp.mp hSpoilt
      have hEmptied := (store_of_unencodable hOpens hEntries).1
      exact ⟨hOpens, hEntries, mt (keeps_iff_of_emptied hEmptied).mpr hLost.1⟩
    · rintro ⟨hOpens, hEntries, hOld⟩
      obtain ⟨hEmptied, hNone⟩ := store_of_unencodable hOpens hEntries
      exact ⟨mt (keeps_iff_of_emptied hEmptied).mp hOld, hNone⟩

/-- A save raises nothing and leaves the old file or the entries, except where it fails otherwise than
by a refusal of the system. Neither is left only where entries without a byte form were to take the
place of something. -/
theorem save_keeps_or_replaces_iff (kept : Bool) (h : History) (host : Host) :
    ((h.save kept host).1 = .ok () ∧ (h.Keeps host.tree (h.save kept host).2.tree ∨
        h.HoldsEntries (h.save kept host).2.tree) ↔ ¬ (kept = true ∧ h.Fails host)) ∧
      (¬ h.Keeps host.tree (h.save kept host).2.tree ∧
          ¬ h.HoldsEntries (h.save kept host).2.tree ↔
        kept = true ∧ h.Opens host ∧ (¬ ∀ entry ∈ h.entries, entry.Encodable) ∧
          host.tree.node? h.path ≠ some (.file [])) := by
  have hLoses := h.save_loses_iff kept host
  refine ⟨?_, hLoses⟩
  rw [save_passes_iff, and_iff_left_iff_imp]
  intro hPasses
  by_contra hLost
  obtain ⟨hKept, hOpens, hEntries, _⟩ := hLoses.mp (not_or.mp hLost)
  refine hPasses ⟨hKept, .inr ⟨hOpens.directory, hOpens.allowed, .inr ⟨hOpens.file, ?_⟩⟩⟩
  simpa using hEntries

/-- A line with a lone surrogate in it is recorded like any other. Saving it raises and leaves nothing
of the old history. -/
theorem old_history_lost_to_surrogate :
    let directory : FilePath := ⟨"/", ["config"]⟩
    let path := directory.child "history"
    let h : History := add [0xD800] { path }
    let host := Host.sample [(directory, .directory), (path, .file (Utf8.encodeLossy "look\n"))]
    h.entries = [[0xD800]] ∧ (h.save true host).1.toOption = none ∧
      (h.save true host).2.tree.node? path = some (.file []) ∧
      ¬ (h.Keeps host.tree (h.save true host).2.tree ∨
        h.HoldsEntries (h.save true host).2.tree) := by
  intro directory path h host
  have hEmptied : (h.save true host).2.tree.node? h.path = some (.file []) := by decide +kernel
  have hOld : host.tree.node? h.path ≠ some (.file []) := by decide +kernel
  refine ⟨by decide +kernel, by decide +kernel, hEmptied, ?_⟩
  rintro (hKeeps | ⟨contents, hEncode, hHolds⟩)
  · exact hOld ((keeps_iff_of_emptied hEmptied).mp hKeeps)
  · obtain rfl : [] = contents := by simpa [hEmptied] using hHolds
    have hRefused : (Utf8.encode (fileText h.entries)).toOption = none := by decide +kernel
    rw [hEncode] at hRefused
    cases hRefused

end Switchboard.History

import Mathlib.Data.List.Destutter
import Mathlib.Data.List.DropRight
import Switchboard.History

/-!
# Recording lines of input

A history with a limit is the end of an unlimited one. What a line is compared with, the entry before
it, is the last thing that the limit would leave out, so that lines come and go as if nothing had
been left out at all.
-/

namespace Switchboard

theorem Text.all_isBlank_iff (t : Text) : t.all CodePoint.isBlank = true ↔ t.strip = [] := by
  rw [strip_eq_nil_iff, List.all_eq_true]
  rfl

namespace History

def addAll (lines : List Text) (h : History) : History :=
  lines.foldl (fun h line => h.add line) h

/-- The lines that are not blank, without those that only repeat the one kept before them. The first
one may repeat what was there last. -/
def fresh (last : Option Text) (lines : List Text) : List Text :=
  ((last.toList ++ lines.filter fun line => !line.all CodePoint.isBlank).destutter (· ≠ ·)).drop
    last.toList.length

variable {h : History} {limit : Nat} {line : Text} {last : Option Text} {entries : List Text}

/-! ## Fresh lines -/

theorem exists_destutter'_eq_cons (line : Text) (rest : List Text) :
    ∃ others, rest.destutter' (· ≠ ·) line = line :: others := by
  induction rest generalizing line with
  | nil => exact ⟨[], rfl⟩
  | cons second rest ih =>
    by_cases hOther : line ≠ second
    · exact ⟨_, List.destutter'_cons_pos _ hOther⟩
    · rw [List.destutter'_cons_neg _ hOther]
      exact ih line

theorem fresh_none (lines : List Text) : fresh none lines =
    (lines.filter fun line => !line.all CodePoint.isBlank).destutter (· ≠ ·) := rfl

theorem fresh_some (old : Text) (lines : List Text) : fresh (some old) lines =
    ((lines.filter fun line => !line.all CodePoint.isBlank).destutter' (· ≠ ·) old).tail :=
  List.drop_one

theorem fresh_nil (last : Option Text) : fresh last [] = [] := by
  cases last <;> rfl

theorem fresh_cons_of_skipped (hSkipped : line.strip = [] ∨ last = some line) (rest : List Text) :
    fresh last (line :: rest) = fresh last rest := by
  rw [← Text.all_isBlank_iff] at hSkipped
  by_cases hBlank : line.all CodePoint.isBlank = true
  · rw [fresh, fresh, List.filter_cons_of_neg (by simp [hBlank])]
  · obtain rfl := hSkipped.resolve_left hBlank
    rw [fresh_some, fresh_some, List.filter_cons_of_pos (by simp [hBlank]),
      List.destutter'_cons_neg _ (by simp)]

theorem fresh_cons_of_new (hBlank : line.strip ≠ []) (hNew : last ≠ some line) (rest : List Text) :
    fresh last (line :: rest) = line :: fresh (some line) rest := by
  rw [Ne, ← Text.all_isBlank_iff] at hBlank
  obtain ⟨others, hOthers⟩ := exists_destutter'_eq_cons line
    (rest.filter fun line => !line.all CodePoint.isBlank)
  cases last with
  | none =>
    rw [fresh_none, fresh_some, List.filter_cons_of_pos (by simp [hBlank]), List.destutter_cons',
      hOthers, List.tail_cons]
  | some old =>
    have hOther : old ≠ line := by simpa using hNew
    rw [fresh_some, fresh_some, List.filter_cons_of_pos (by simp [hBlank]),
      List.destutter'_cons_pos _ hOther, hOthers, List.tail_cons, List.tail_cons]

/-! ## Under a limit -/

theorem newest_eq_rtake (hLimit : 0 < limit) (entries : List Text) :
    newest limit entries = entries.rtake limit := by
  rw [newest, if_pos (by omega), Int.toNat_natCast, List.rtake]

theorem rtake_of_length_le (hFits : entries.length ≤ limit) : entries.rtake limit = entries := by
  rw [List.rtake, Nat.sub_eq_zero_of_le hFits, List.drop_zero]

theorem length_rtake_le (limit : Nat) (entries : List Text) :
    (entries.rtake limit).length ≤ limit := by
  rw [List.rtake, List.length_drop]
  omega

theorem getLast?_rtake (hLimit : 0 < limit) (entries : List Text) :
    (entries.rtake limit).getLast? = entries.getLast? := by
  rw [List.rtake, List.getLast?_drop]
  split
  · rename_i hNone
    obtain rfl : entries = [] := List.length_eq_zero_iff.mp (by omega)
    rfl
  · rfl

/-- What a limit has left out before is not missed when it is applied again. -/
theorem rtake_append (limit : Nat) (entries more : List Text) :
    (entries.rtake limit ++ more).rtake limit = (entries ++ more).rtake limit := by
  simp [List.rtake_eq_reverse_take_reverse, List.take_append, List.take_take]

/-! ## Lines in a row -/

theorem add_of_skipped (hSkipped : line.strip = [] ∨ h.entries.getLast? = some line) :
    h.add line = h := by
  rw [add, if_pos hSkipped]

theorem add_of_new (hLimit : 0 < limit) (hMax : h.maxEntries = limit) (hBlank : line.strip ≠ [])
    (hNew : h.entries.getLast? ≠ some line) :
    h.add line = { h with entries := (h.entries ++ [line]).rtake limit } := by
  rw [add, if_neg (not_or.mpr ⟨hBlank, hNew⟩), hMax, newest_eq_rtake hLimit]

/-- Whatever lines are added to a history within its limit, it comes to hold the newest of its
entries with the fresh lines behind them, as many as the limit allows. Nothing else changes. -/
theorem addAll_keeps_newest (limit : Nat) (hLimit : 0 < limit) (h : History)
    (hMax : h.maxEntries = limit) (hFits : h.entries.length ≤ limit) (lines : List Text) :
    addAll lines h =
      { h with entries := (h.entries ++ fresh h.entries.getLast? lines).rtake limit } := by
  -- over the lines; the last entry is kept whatever the limit cuts, and the next line meets it
  induction lines generalizing h with
  | nil => simp [addAll, fresh_nil, rtake_of_length_le hFits]
  | cons line rest ih =>
    change addAll rest (h.add line) = _
    by_cases hSkipped : line.strip = [] ∨ h.entries.getLast? = some line
    · rw [add_of_skipped hSkipped, ih h hMax hFits, fresh_cons_of_skipped hSkipped]
    · obtain ⟨hBlank, hNew⟩ := not_or.mp hSkipped
      have hLast : (h.entries ++ [line]).getLast? = some line := by simp
      rw [add_of_new hLimit hMax hBlank hNew,
        ih { h with entries := (h.entries ++ [line]).rtake limit } hMax (length_rtake_le _ _),
        fresh_cons_of_new hBlank hNew]
      dsimp only
      rw [getLast?_rtake hLimit, hLast, rtake_append, List.append_assoc, List.singleton_append]

/-- The last entry left in a history of two is the one that the next line is compared with, and so
is a blank one from a file. -/
theorem addAll_keeps_newest_of_two :
    let h : History := { path := ⟨"/", ["history"]⟩, maxEntries := 2, entries := ["look", " "] }
    h.maxEntries = (2 : Nat) ∧ h.entries.length ≤ 2 ∧
      addAll [" ", "north", "\t", "north", "look", "north", "north"] h =
        { h with entries := ["look", "north"] } := by
  refine ⟨rfl, by decide, ?_⟩
  rw [addAll_keeps_newest 2 (by decide) _ rfl (by decide)]
  decide

end History

end Switchboard

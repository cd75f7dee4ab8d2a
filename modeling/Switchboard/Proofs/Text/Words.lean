import Switchboard.Text.Blank

/-!
# The words of a text

A blank belongs to no word, so the words of a text with a blank in it are those before the blank and
those behind it. A word by itself is the only one of its text.
-/

namespace Switchboard.Text

/-- There is something in the text, and no blank. -/
def IsWord (t : Text) : Prop := t ≠ [] ∧ ∀ c ∈ t, c.isBlank = false

instance (t : Text) : Decidable t.IsWord :=
  have : Decidable (∀ c ∈ t, c.isBlank = false) :=
    List.decidableBAll (fun c => CodePoint.isBlank c = false) t
  inferInstanceAs (Decidable (t ≠ [] ∧ _))

theorem pieces_eq_splitOnP (t : Text) : t.pieces = t.splitOnP CodePoint.isBlank := by
  induction t with
  | nil => rfl
  | cons c rest ih =>
    rw [pieces, List.splitOnP_cons_eq_if_modifyHead, ih]
    split
    · rfl
    · cases hRest : rest.splitOnP CodePoint.isBlank with
      | nil => exact absurd hRest (List.splitOnP_ne_nil _ _)
      | cons piece others => rfl

theorem words_append_blank {c : CodePoint} (hBlank : c.isBlank = true) (t u : Text) :
    words (t ++ c :: u) = t.words ++ u.words := by
  simp only [words, pieces_eq_splitOnP, List.splitOnP_append_cons t u hBlank, List.filter_append]

theorem words_of_isWord {t : Text} (h : t.IsWord) : t.words = [t] := by
  obtain ⟨hSome, hPlain⟩ := h
  rw [words, pieces_eq_splitOnP, List.splitOnP_eq_singleton hPlain]
  simp [hSome]

/-- A word at the beginning of a text is its first one where a blank ends it. -/
theorem words_isWord_append {t : Text} (h : t.IsWord) {c : CodePoint} (hBlank : c.isBlank = true)
    (u : Text) : words (t ++ c :: u) = t :: u.words := by
  rw [words_append_blank hBlank, words_of_isWord h, List.singleton_append]

end Switchboard.Text

import Switchboard.Text.Lines

/-!
# Breaking texts into lines

A text is whole when it has no line boundary of any kind in it. Lines are whole, and a whole text
that is ended by a line feed is read back as the one line that it is. A text with a boundary in it
comes back as other lines, of which the last one at least is a different text.
-/

namespace Switchboard.Text

/-- No line boundary stands in the text. -/
def IsWhole (t : Text) : Prop := ∀ c ∈ t, c.isLineBreak = false

instance (t : Text) : Decidable t.IsWhole := inferInstanceAs (Decidable (∀ c ∈ t, _))

@[simp] theorem isLineBreak_newline : newline.isLineBreak = true := rfl

@[simp] theorem isLineBreak_carriageReturn : carriageReturn.isLineBreak = true := rfl

/-! ## Carriage returns -/

theorem unifyBreaks_eq_self {t : Text} (h : carriageReturn ∉ t) : t.unifyBreaks = t := by
  rw [unifyBreaks]
  induction t with
  | nil => rfl
  | cons c rest ih =>
    obtain ⟨hFirst, hRest⟩ := List.ne_and_not_mem_of_not_mem_cons h
    rw [unifyBreaksFrom, if_neg hFirst.symm, if_neg (by simp), ih hRest]

theorem return_not_mem_unifyBreaksFrom (afterReturn : Bool) (t : Text) :
    carriageReturn ∉ unifyBreaksFrom afterReturn t := by
  induction t generalizing afterReturn with
  | nil => simp [unifyBreaksFrom]
  | cons c rest ih =>
    rw [unifyBreaksFrom]
    split
    · rw [List.mem_cons, not_or]
      exact ⟨by decide, ih true⟩
    split
    · exact ih false
    · rename_i hReturn _
      rw [List.mem_cons, not_or]
      exact ⟨Ne.symm hReturn, ih false⟩

theorem unifyBreaks_unifyBreaks (t : Text) : t.unifyBreaks.unifyBreaks = t.unifyBreaks :=
  unifyBreaks_eq_self (return_not_mem_unifyBreaksFrom false t)

/-- A line feed ends what a carriage return before it can reach. -/
theorem unifyBreaksFrom_append (afterReturn : Bool) (t u : Text) :
    unifyBreaksFrom afterReturn (t ++ newline :: u) =
      unifyBreaksFrom afterReturn (t ++ [newline]) ++ unifyBreaksFrom false u := by
  induction t generalizing afterReturn with
  | nil => cases afterReturn <;> rfl
  | cons c rest ih =>
    rw [List.cons_append, List.cons_append, unifyBreaksFrom, unifyBreaksFrom]
    split
    · rw [ih]
      rfl
    split
    · exact ih false
    · rw [ih]
      rfl

/-- A text that is ended by a line feed still is. The feed itself may have become part of a
carriage return before it. -/
theorem exists_unifyBreaks_ended (t : Text) :
    ∃ s, unifyBreaks (t ++ [newline]) = s ++ [newline] := by
  have hEnded : ∀ afterReturn : Bool, (afterReturn = true ∧ t = []) ∨
      ∃ s, unifyBreaksFrom afterReturn (t ++ [newline]) = s ++ [newline] := by
    induction t with
    | nil =>
      intro afterReturn
      cases afterReturn with
      | true => exact .inl ⟨rfl, rfl⟩
      | false => exact .inr ⟨[], rfl⟩
    | cons c rest ih =>
      intro afterReturn
      right
      rw [List.cons_append, unifyBreaksFrom]
      split
      · rcases ih true with ⟨_, rfl⟩ | ⟨s, hs⟩
        · exact ⟨[], rfl⟩
        · exact ⟨newline :: s, by rw [hs]; rfl⟩
      · have hRest : ∃ s, unifyBreaksFrom false (rest ++ [newline]) = s ++ [newline] :=
          (ih false).resolve_left (by simp)
        obtain ⟨s, hs⟩ := hRest
        split
        · exact ⟨s, hs⟩
        · exact ⟨c :: s, by rw [hs]; rfl⟩
  exact (hEnded false).resolve_left (by simp)

/-! ## Boundaries -/

theorem cutAtBreaks_eq_nil_iff (t : Text) : cutAtBreaks t = [] ↔ t = [] := by
  cases t with
  | nil => simp [cutAtBreaks]
  | cons c rest =>
    rw [cutAtBreaks]
    split
    · simp
    · split <;> simp

theorem cutAtBreaks_append {c : CodePoint} (h : c.isLineBreak = true) (t u : Text) :
    cutAtBreaks (t ++ c :: u) = cutAtBreaks (t ++ [c]) ++ cutAtBreaks u := by
  induction t with
  | nil => simp [cutAtBreaks, h]
  | cons d rest ih =>
    rw [List.cons_append, List.cons_append, cutAtBreaks, cutAtBreaks, ih]
    split
    · rfl
    · cases hCut : cutAtBreaks (rest ++ [c]) with
      | nil => simp [cutAtBreaks_eq_nil_iff] at hCut
      | cons line others => rfl

theorem isWhole_of_mem_cutAtBreaks {t line : Text} (h : line ∈ cutAtBreaks t) : line.IsWhole := by
  induction t generalizing line with
  | nil => cases h
  | cons c rest ih =>
    rw [cutAtBreaks] at h
    split at h
    · rcases List.mem_cons.mp h with rfl | hRest
      · simp [IsWhole]
      · exact ih hRest
    · rename_i hBreak
      rw [Bool.not_eq_true] at hBreak
      split at h
      · rw [List.mem_singleton] at h
        subst h
        simpa [IsWhole] using hBreak
      · rename_i first others hCut
        rcases List.mem_cons.mp h with rfl | hOther
        · have hFirst : first.IsWhole := ih (by rw [hCut]; exact List.mem_cons_self)
          exact List.forall_mem_cons.mpr ⟨hBreak, hFirst⟩
        · exact ih (by rw [hCut]; exact List.mem_cons_of_mem _ hOther)

theorem cutAtBreaks_ended {t : Text} (h : t.IsWhole) : cutAtBreaks (t ++ [newline]) = [t] := by
  induction t with
  | nil => rfl
  | cons c rest ih =>
    obtain ⟨hFirst, hRest⟩ := List.forall_mem_cons.mp h
    rw [List.cons_append, cutAtBreaks, ih hRest, if_neg (by simp [hFirst])]

/-! ## Lines -/

theorem isWhole_of_mem_lines {t line : Text} (h : line ∈ lines t) : line.IsWhole :=
  isWhole_of_mem_cutAtBreaks h

theorem mem_of_mem_unifyBreaksFrom {afterReturn : Bool} {t : Text} {c : CodePoint}
    (h : c ∈ unifyBreaksFrom afterReturn t) : c = newline ∨ c ∈ t := by
  induction t generalizing afterReturn with
  | nil => cases h
  | cons d rest ih =>
    rw [unifyBreaksFrom] at h
    split at h
    · rcases List.mem_cons.mp h with rfl | hRest
      · exact .inl rfl
      · exact (ih hRest).imp_right (List.mem_cons_of_mem d)
    split at h
    · exact (ih h).imp_right (List.mem_cons_of_mem d)
    · rcases List.mem_cons.mp h with rfl | hRest
      · exact .inr List.mem_cons_self
      · exact (ih hRest).imp_right (List.mem_cons_of_mem d)

theorem mem_of_mem_cutAtBreaks {t line : Text} {c : CodePoint} (h : line ∈ cutAtBreaks t)
    (hc : c ∈ line) : c ∈ t := by
  induction t generalizing line with
  | nil => cases h
  | cons d rest ih =>
    rw [cutAtBreaks] at h
    split at h
    · rcases List.mem_cons.mp h with rfl | hRest
      · cases hc
      · exact List.mem_cons_of_mem d (ih hRest hc)
    · split at h
      · rw [List.mem_singleton.mp h, List.mem_singleton] at hc
        rw [hc]
        exact List.mem_cons_self
      · rename_i first others hCut
        rcases List.mem_cons.mp h with rfl | hOther
        · rcases List.mem_cons.mp hc with rfl | hFirst
          · exact List.mem_cons_self
          · exact List.mem_cons_of_mem d (ih (by rw [hCut]; exact List.mem_cons_self) hFirst)
        · exact List.mem_cons_of_mem d
            (ih (by rw [hCut]; exact List.mem_cons_of_mem _ hOther) hc)

theorem encodable_of_mem_lines {t line : Text} (hText : t.Encodable) (h : line ∈ lines t) :
    line.Encodable := by
  intro c hc
  rcases mem_of_mem_unifyBreaksFrom (mem_of_mem_cutAtBreaks h hc) with rfl | hMem
  · decide
  · exact hText c hMem

theorem lines_unifyBreaks (t : Text) : t.unifyBreaks.lines = t.lines := by
  rw [lines, unifyBreaks_unifyBreaks, lines]

theorem lines_append (t u : Text) :
    lines (t ++ newline :: u) = lines (t ++ [newline]) ++ lines u := by
  obtain ⟨s, hs⟩ := exists_unifyBreaks_ended t
  unfold lines
  rw [unifyBreaks, unifyBreaksFrom_append]
  change cutAtBreaks (unifyBreaks (t ++ [newline]) ++ unifyBreaks u) = _
  rw [hs, List.append_assoc]
  exact cutAtBreaks_append rfl s _

theorem lines_ended {t : Text} (h : t.IsWhole) : lines (t ++ [newline]) = [t] := by
  have hReturn : carriageReturn ∉ t ++ [newline] := by
    intro hMem
    rcases List.mem_append.mp hMem with hMem | hMem
    · cases h _ hMem
    · revert hMem
      decide
  rw [lines, unifyBreaks_eq_self hReturn, cutAtBreaks_ended h]

theorem exists_lines_ended (t : Text) :
    ∃ before last, lines (t ++ [newline]) = before ++ [last] := by
  obtain ⟨s, hs⟩ := exists_unifyBreaks_ended t
  have hSome : lines (t ++ [newline]) ≠ [] := by
    rw [lines, hs, Ne, cutAtBreaks_eq_nil_iff]
    simp
  exact ⟨_, _, (List.dropLast_concat_getLast hSome).symm⟩

end Switchboard.Text

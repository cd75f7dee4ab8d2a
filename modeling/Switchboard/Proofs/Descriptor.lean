import Switchboard.Descriptor
import Switchboard.Proofs.Record

/-!
# Indexes of descriptors

Descriptors make an index exactly when no two of them share an identifier. If two do, the failure
names the first descriptor that repeats an earlier one. The index leads from each identifier to its
descriptor and keeps the order of declaration.
-/

namespace Switchboard.DescriptorIndex

variable {index : DescriptorIndex} {ds : List Descriptor} {id : Text} {e : Failure}

theorem firstRepeated?_eq_some_iff (seen : List Text) (ds : List Descriptor) (id : Text) :
    firstRepeated? seen ds = some id ↔ ∃ before d behind, ds = before ++ d :: behind ∧
      d.id = id ∧ (id ∈ seen ∨ id ∈ before.map Descriptor.id) ∧
      firstRepeated? seen before = none := by
  -- over the descriptors; each one that is passed joins those seen before
  induction ds generalizing seen with
  | nil => simp [firstRepeated?]
  | cons first rest ih =>
    by_cases hSeen : first.id ∈ seen
    · rw [firstRepeated?, if_pos hSeen, Option.some.injEq]
      constructor
      · rintro rfl
        exact ⟨[], first, rest, rfl, rfl, .inl hSeen, rfl⟩
      · rintro ⟨before, d, behind, hSplit, hId, _, hNone⟩
        cases before with
        | nil =>
          obtain ⟨rfl, _⟩ := List.cons.inj hSplit
          exact hId
        | cons other before =>
          obtain ⟨rfl, _⟩ := List.cons.inj hSplit
          rw [firstRepeated?, if_pos hSeen] at hNone
          cases hNone
    · rw [firstRepeated?, if_neg hSeen, ih]
      constructor
      · rintro ⟨before, d, behind, rfl, hId, hRepeats, hNone⟩
        refine ⟨first :: before, d, behind, rfl, hId, ?_, ?_⟩
        · simpa [or_assoc, or_left_comm] using hRepeats
        · rw [firstRepeated?, if_neg hSeen, hNone]
      · rintro ⟨before, d, behind, hSplit, hId, hRepeats, hNone⟩
        cases before with
        | nil =>
          obtain ⟨rfl, _⟩ := List.cons.inj hSplit
          rcases hRepeats with hRepeats | hRepeats
          · exact absurd (hId ▸ hRepeats) hSeen
          · cases hRepeats
        | cons other before =>
          obtain ⟨rfl, hRest⟩ := List.cons.inj hSplit
          rw [firstRepeated?, if_neg hSeen] at hNone
          refine ⟨before, d, behind, hRest, hId, ?_, hNone⟩
          simpa [or_assoc, or_left_comm] using hRepeats

theorem build_of_repeated (h : firstRepeated? [] ds = some id) :
    build ds = .error (.duplicateId id) := by
  unfold build
  split
  · rename_i other hOther
    obtain rfl : id = other := Option.some.inj (h.symm.trans hOther)
    rfl
  · rename_i hNone
    cases h.symm.trans hNone

theorem build_of_nodup (h : (ds.map Descriptor.id).Nodup) : build ds = .ok ⟨ds, h⟩ := by
  have hNone := (firstRepeated?_eq_none_iff [] ds).mpr ⟨h, fun _ _ => List.not_mem_nil⟩
  unfold build
  split
  · rename_i hRepeated
    cases hNone.symm.trans hRepeated
  · rfl

theorem exists_build_error_iff :
    (∃ e, build ds = .error e ∧ e.isAboutValue = true) ↔ ¬ (ds.map Descriptor.id).Nodup := by
  constructor
  · rintro ⟨e, hError, _⟩ hNodup
    cases (build_of_nodup hNodup).symm.trans hError
  · intro hShared
    cases hRepeated : firstRepeated? [] ds with
    | none => exact absurd ((firstRepeated?_eq_none_iff [] ds).mp hRepeated).1 hShared
    | some id => exact ⟨_, build_of_repeated hRepeated, rfl⟩

/-- Building fails over the first descriptor that repeats an earlier one. -/
theorem build_eq_error_iff :
    build ds = .error e ↔ ∃ before d behind, ds = before ++ d :: behind ∧
      d.id ∈ before.map Descriptor.id ∧ (before.map Descriptor.id).Nodup ∧
      e = .duplicateId d.id := by
  constructor
  · intro hError
    cases hRepeated : firstRepeated? [] ds with
    | none =>
      have hNodup := ((firstRepeated?_eq_none_iff [] ds).mp hRepeated).1
      cases (build_of_nodup hNodup).symm.trans hError
    | some id =>
      cases (build_of_repeated hRepeated).symm.trans hError
      obtain ⟨before, d, behind, hSplit, rfl, hRepeats, hNone⟩ :=
        (firstRepeated?_eq_some_iff [] ds id).mp hRepeated
      have hNodup := ((firstRepeated?_eq_none_iff [] before).mp hNone).1
      exact ⟨before, d, behind, hSplit, hRepeats.resolve_left List.not_mem_nil, hNodup, rfl⟩
  · rintro ⟨before, d, behind, hSplit, hRepeats, hNodup, rfl⟩
    have hNone := (firstRepeated?_eq_none_iff [] before).mpr
      ⟨hNodup, fun _ _ => List.not_mem_nil⟩
    exact build_of_repeated ((firstRepeated?_eq_some_iff [] ds d.id).mpr
      ⟨before, d, behind, hSplit, rfl, .inr hRepeats, hNone⟩)

/-- The first descriptor to repeat another need not repeat the first one. -/
example : build [⟨"a", true, .null, false⟩, ⟨"b", true, .null, false⟩, ⟨"b", false, .null, true⟩,
    ⟨"a", false, .null, true⟩] = .error (.duplicateId "b") :=
  build_of_repeated (by decide)

/-- The index leads from an identifier to the descriptor that has it. -/
theorem get?_entries_iff (index : DescriptorIndex) (id : Text) (d : Descriptor) :
    index.entries.get? id = some d ↔ d ∈ index.descriptors ∧ d.id = id := by
  have hNames : index.entries.names = index.descriptors.map Descriptor.id := by
    rw [entries, Record.names, List.map_map]
    rfl
  rw [Record.get?_eq_some_iff (hNames ▸ index.nodup), entries, List.mem_map]
  constructor
  · rintro ⟨other, hMem, hEq⟩
    obtain ⟨rfl, rfl⟩ := Prod.mk.inj hEq
    exact ⟨hMem, rfl⟩
  · rintro ⟨hMem, rfl⟩
    exact ⟨d, hMem, rfl⟩

end Switchboard.DescriptorIndex

import Switchboard.File.Path

/-!
# Facts about children of paths

A child goes through its parent: what the child's path goes through is what the parent's path goes
through and the parent itself, and a path is no longer than its children's.
-/

namespace Switchboard

namespace Utf8

theorem nameBytes_append (t u : Text) : nameBytes (t ++ u) = nameBytes t ++ nameBytes u := by
  rw [nameBytes, List.flatMap_append]
  rfl

theorem nameCodePoint_of_lt {c : CodePoint} (h : c.val < 0x80) :
    nameCodePoint c = [UInt8.ofNat c.val] := by
  rw [nameCodePoint, if_neg fun hEscape => absurd hEscape.1 (by omega), encodeCodePoint]
  exact if_pos h

theorem exists_nameCodePoint_eq_cons {c : CodePoint} (h : ¬ c.val < 0x80) : ∃ first rest,
    nameCodePoint c = first :: rest ∧ 0x80 ≤ first.toNat := by
  have hBound := c.isLt
  rw [nameCodePoint]
  split
  · rename_i hEscape
    obtain ⟨hLow, hHigh⟩ := hEscape
    refine ⟨_, _, rfl, ?_⟩
    rw [UInt8.toNat_ofNat']
    omega
  · simp only [encodeCodePoint, if_neg h]
    split
    · refine ⟨_, _, rfl, ?_⟩
      rw [UInt8.toNat_ofNat']
      omega
    · split
      · refine ⟨_, _, rfl, ?_⟩
        rw [UInt8.toNat_ofNat']
        omega
      · refine ⟨_, _, rfl, ?_⟩
        rw [UInt8.toNat_ofNat']
        omega

/-- No other name is known by the bytes of a name in ASCII. -/
theorem eq_of_nameBytes_eq {m n : Text} (hPlain : ∀ c ∈ m, c.val < 0x80)
    (h : nameBytes n = nameBytes m) : n = m := by
  induction m generalizing n with
  | nil =>
    cases n with
    | nil => rfl
    | cons d rest =>
      rw [nameBytes, List.flatMap_cons] at h
      by_cases hd : d.val < 0x80
      · rw [nameCodePoint_of_lt hd] at h
        cases h
      · obtain ⟨first, others, hFirst, _⟩ := exists_nameCodePoint_eq_cons hd
        rw [hFirst] at h
        cases h
  | cons c rest ih =>
    have hc := hPlain c List.mem_cons_self
    cases n with
    | nil =>
      rw [nameBytes, nameBytes, List.flatMap_cons, nameCodePoint_of_lt hc] at h
      cases h
    | cons d others =>
      rw [nameBytes, nameBytes, List.flatMap_cons, List.flatMap_cons, nameCodePoint_of_lt hc] at h
      by_cases hd : d.val < 0x80
      · rw [nameCodePoint_of_lt hd] at h
        obtain ⟨hFirst, hRest⟩ := List.cons.inj h
        have hSame := congrArg UInt8.toNat hFirst
        rw [UInt8.toNat_ofNat', UInt8.toNat_ofNat', Nat.mod_eq_of_lt (by omega),
          Nat.mod_eq_of_lt (by omega)] at hSame
        rw [Fin.ext hSame, ih (fun e he => hPlain e (List.mem_cons_of_mem c he)) hRest]
      · obtain ⟨first, more, hMore, hFirst⟩ := exists_nameCodePoint_eq_cons hd
        rw [hMore] at h
        obtain ⟨rfl, _⟩ := List.cons.inj h
        rw [UInt8.toNat_ofNat'] at hFirst
        omega

end Utf8

namespace FilePath

theorem ancestors_child {p : FilePath} (h : p.names ≠ []) (name : Text) :
    (p.child name).ancestors = p.ancestors ++ [p] := by
  obtain ⟨k, hk⟩ : ∃ k, p.names.length = k + 1 :=
    Nat.exists_eq_succ_of_ne_zero (mt List.length_eq_zero_iff.mp h)
  have hTake : ∀ count ∈ List.range' 1 (k + 1),
      (⟨p.start, (p.names ++ [name]).take count⟩ : FilePath) = ⟨p.start, p.names.take count⟩ := by
    intro count hCount
    rw [List.take_append_of_le_length]
    rw [List.mem_range'_1] at hCount
    omega
  have hWhole : (⟨p.start, p.names.take (1 + k)⟩ : FilePath) = p := by
    rw [List.take_of_length_le (by omega)]
  have hChild : (p.child name).names.length - 1 = k + 1 := by simp [child, hk]
  rw [ancestors, hChild]
  change (List.range' 1 (k + 1)).map
    (fun count => (⟨p.start, (p.names ++ [name]).take count⟩ : FilePath)) = _
  rw [List.map_congr_left hTake, List.range'_1_concat, List.map_append, List.map_singleton, hWhole,
    ancestors, hk]
  rfl

theorem ancestors_child_start {p : FilePath} (h : p.names = []) (name : Text) :
    (p.child name).ancestors = [] := by
  simp [ancestors, child, h]

theorem prefix_of_mem_ancestors {p q : FilePath} (h : q ∈ p.ancestors ++ [p]) :
    q.start = p.start ∧ q.names <+: p.names := by
  rcases List.mem_append.mp h with hAbove | hSelf
  · obtain ⟨count, _, rfl⟩ := List.mem_map.mp hAbove
    exact ⟨rfl, List.take_prefix _ _⟩
  · obtain rfl := List.mem_singleton.mp hSelf
    exact ⟨rfl, List.prefix_refl _⟩

theorem unnameable_child (p : FilePath) (name : Text) :
    (p.child name).Unnameable ↔ p.Unnameable ∨ name.Unnameable := by
  simp only [Unnameable, child, List.mem_append, List.mem_singleton]
  constructor
  · rintro ⟨other, hOther | rfl, hUnnameable⟩
    · exact .inl ⟨other, hOther, hUnnameable⟩
    · exact .inr hUnnameable
  · rintro (⟨other, hOther, hUnnameable⟩ | hUnnameable)
    · exact ⟨other, .inl hOther, hUnnameable⟩
    · exact ⟨name, .inr rfl, hUnnameable⟩

theorem joinWith_isPrefix_append (separator : Text) (ts : List Text) (t : Text) :
    Text.joinWith separator ts <+: Text.joinWith separator (ts ++ [t]) := by
  induction ts with
  | nil => exact List.nil_prefix
  | cons first rest ih =>
    cases rest with
    | nil => exact ⟨separator ++ t, by simp [Text.joinWith]⟩
    | cons second rest =>
      obtain ⟨tail, hTail⟩ := ih
      exact ⟨tail, by simpa [Text.joinWith, List.intersperse] using hTail⟩

theorem length_toText_child (p : FilePath) (name : Text) :
    (Utf8.nameBytes p.toText).length ≤ max 1 (Utf8.nameBytes (p.child name).toText).length := by
  have hChild : (p.child name).toText = p.start ++ Text.joinWith "/" (p.names ++ [name]) := by
    simp [toText, child]
  by_cases hNowhere : p.start = [] ∧ p.names = []
  · rw [toText, if_pos hNowhere]
    exact Nat.le_max_left 1 _
  · obtain ⟨tail, hTail⟩ := joinWith_isPrefix_append "/" p.names name
    rw [toText, if_neg hNowhere, hChild, ← hTail, ← List.append_assoc, Utf8.nameBytes_append _ tail,
      List.length_append]
    omega

theorem exists_beginning_joinWith (separator : Text) (ts : List Text) : ∃ beginning, ∀ t,
    Text.joinWith separator (ts ++ [t]) = beginning ++ t := by
  induction ts with
  | nil => exact ⟨[], fun t => by simp [Text.joinWith]⟩
  | cons first rest ih =>
    obtain ⟨beginning, hBeginning⟩ := ih
    refine ⟨first ++ separator ++ beginning, fun t => ?_⟩
    have hTail := hBeginning t
    cases rest with
    | nil => simpa [Text.joinWith, List.intersperse] using hTail
    | cons second rest => simpa [Text.joinWith, List.intersperse] using hTail

/-- Of two paths in one directory the one with the longer name is the longer one. -/
theorem tooLong_child_of_le (p : FilePath) {m n : Text}
    (hLength : (Utf8.nameBytes m).length ≤ (Utf8.nameBytes n).length)
    (h : (p.child m).TooLong) : (p.child n).TooLong := by
  obtain ⟨beginning, hBeginning⟩ := exists_beginning_joinWith "/" p.names
  have hChild : ∀ name, (p.child name).toText = p.start ++ beginning ++ name := by
    intro name
    rw [List.append_assoc, ← hBeginning]
    simp [toText, child]
  unfold TooLong at h ⊢
  rw [hChild, Utf8.nameBytes_append, List.length_append] at h ⊢
  omega

theorem ancestors_child_congr (p : FilePath) (m n : Text) :
    (p.child m).ancestors = (p.child n).ancestors := by
  cases hNames : p.names with
  | nil => rw [ancestors_child_start hNames, ancestors_child_start hNames]
  | cons first rest =>
    have hNames : p.names ≠ [] := by simp [hNames]
    rw [ancestors_child hNames, ancestors_child hNames]

theorem not_tooLong_of_child {p : FilePath} {name : Text} (h : ¬ (p.child name).TooLong) :
    ¬ p.TooLong := by
  have := p.length_toText_child name
  unfold TooLong lengthLimit at h ⊢
  omega

end FilePath

end Switchboard

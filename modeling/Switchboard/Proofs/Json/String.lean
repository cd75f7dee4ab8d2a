import Switchboard.Json.Parser
import Switchboard.Json.Printer
import Switchboard.Proofs.Text.Numeral

/-!
# Printed strings read back

What the reader gives never holds a high surrogate right before a low one, since such a pair has
been joined. A text without such a pair is read back from its printed form, whether it holds single
surrogates or code points that escapes spell by two surrogates.
-/

namespace Switchboard.Json

/-- No high surrogate stands right before a low one. -/
def Joined (t : Text) : Prop :=
  t.IsChain fun c d => ¬ (c.IsHighSurrogate ∧ d.IsLowSurrogate)

@[simp] theorem joined_nil : Joined [] := List.isChain_nil

theorem joined_of_encodable {t : Text} (h : t.Encodable) : Joined t := by
  induction t with
  | nil => exact joined_nil
  | cons c rest ih =>
    cases rest with
    | nil => exact List.isChain_singleton c
    | cons d rest =>
      refine List.isChain_cons_cons.mpr ⟨fun hPair => ?_, ih fun e he => h e (by simp [he])⟩
      exact h c (by simp) ((CodePoint.isSurrogate_iff c).mpr (.inl hPair.1))

/-! ## Joining surrogates -/

theorem val_joinedSurrogates {c d : CodePoint} (hc : c.IsHighSurrogate) (hd : d.IsLowSurrogate) :
    (joinedSurrogates c d).val = 0x10000 + (c.val - 0xD800) * 0x400 + (d.val - 0xDC00) := by
  rw [CodePoint.IsHighSurrogate] at hc
  rw [CodePoint.IsLowSurrogate] at hd
  exact Nat.mod_eq_of_lt (by omega)

theorem not_isLowSurrogate_joinedSurrogates {c d : CodePoint} (hc : c.IsHighSurrogate)
    (hd : d.IsLowSurrogate) : ¬ (joinedSurrogates c d).IsLowSurrogate := by
  rw [CodePoint.IsLowSurrogate, val_joinedSurrogates hc hd]
  omega

theorem isLowSurrogate_of_head_joinSurrogates {c e : CodePoint} {rest : Text}
    (he : e ∈ (joinSurrogates (c :: rest)).head?) (hLow : e.IsLowSurrogate) : c.IsLowSurrogate := by
  cases rest with
  | nil =>
    obtain rfl : c = e := by simpa [joinSurrogates] using he
    exact hLow
  | cons d rest =>
    rw [joinSurrogates] at he
    split at he
    · rename_i hPair
      obtain rfl : joinedSurrogates c d = e := by simpa using he
      exact absurd hLow (not_isLowSurrogate_joinedSurrogates hPair.1 hPair.2)
    · obtain rfl : c = e := by simpa using he
      exact hLow

theorem joined_cons_iff (c : CodePoint) (t : Text) :
    Joined (c :: t) ↔ (∀ d ∈ t.head?, ¬ (c.IsHighSurrogate ∧ d.IsLowSurrogate)) ∧ Joined t := by
  cases t with
  | nil => simp [Joined]
  | cons d t => simp [Joined, List.isChain_cons_cons]

theorem joined_joinSurrogates (t : Text) : Joined (joinSurrogates t) := by
  fun_induction joinSurrogates t with
  | case1 => exact joined_nil
  | case2 c => exact List.isChain_singleton c
  | case3 c d rest hPair ih =>
    refine (joined_cons_iff ..).mpr ⟨fun e _ hBoth => ?_, ih⟩
    have hHigh := hBoth.1
    rw [CodePoint.IsHighSurrogate, val_joinedSurrogates hPair.1 hPair.2] at hHigh
    omega
  | case4 c d rest hPair ih =>
    refine (joined_cons_iff ..).mpr ⟨fun e he hBoth => hPair ⟨hBoth.1, ?_⟩, ih⟩
    exact isLowSurrogate_of_head_joinSurrogates he hBoth.2

/-- The code points that escapes spell: one beyond the first 65536 is spelled by two surrogates. -/
def spelled (c : CodePoint) : Text :=
  if c.val < 0x10000 then [c]
  else [Fin.ofNat _ (surrogatePair c.val).1, Fin.ofNat _ (surrogatePair c.val).2]

theorem surrogatePair_bounds {c : CodePoint} (hc : ¬ c.val < 0x10000) :
    CodePoint.IsHighSurrogate (Fin.ofNat _ (surrogatePair c.val).1) ∧
      CodePoint.IsLowSurrogate (Fin.ofNat _ (surrogatePair c.val).2) ∧
      (surrogatePair c.val).1 < 0x10000 ∧ (surrogatePair c.val).2 < 0x10000 := by
  have hBound := c.isLt
  simp only [surrogatePair, CodePoint.IsHighSurrogate, CodePoint.IsLowSurrogate, Fin.val_ofNat]
  omega

theorem joinedSurrogates_surrogatePair {c : CodePoint} (hc : ¬ c.val < 0x10000) :
    joinedSurrogates (Fin.ofNat _ (surrogatePair c.val).1) (Fin.ofNat _ (surrogatePair c.val).2) =
      c := by
  obtain ⟨hHigh, hLow, _, _⟩ := surrogatePair_bounds hc
  have hBound := c.isLt
  apply Fin.ext
  rw [val_joinedSurrogates hHigh hLow]
  simp only [surrogatePair, Fin.val_ofNat]
  omega

theorem isLowSurrogate_of_head_spelled {c e : CodePoint} {rest : Text}
    (he : e ∈ (spelled c ++ rest).head?) (hLow : e.IsLowSurrogate) : c.IsLowSurrogate := by
  rw [spelled] at he
  split at he
  · obtain rfl : c = e := by simpa using he
    exact hLow
  · rename_i hc
    obtain rfl : Fin.ofNat _ (surrogatePair c.val).1 = e := by simpa using he
    have hHigh := (surrogatePair_bounds hc).1
    rw [CodePoint.IsHighSurrogate] at hHigh
    rw [CodePoint.IsLowSurrogate] at hLow
    omega

theorem joinSurrogates_cons {c : CodePoint} {t : Text}
    (h : ∀ d ∈ t.head?, ¬ (c.IsHighSurrogate ∧ d.IsLowSurrogate)) :
    joinSurrogates (c :: t) = c :: joinSurrogates t := by
  cases t with
  | nil => rfl
  | cons d t => rw [joinSurrogates, if_neg (h d (by simp))]

theorem joinSurrogates_spelled {t : Text} (h : Joined t) :
    joinSurrogates (t.flatMap spelled) = t := by
  induction t with
  | nil => rfl
  | cons c rest ih =>
    obtain ⟨hHead, hRest⟩ := (joined_cons_iff c rest).mp h
    have ih := ih hRest
    rw [List.flatMap_cons]
    by_cases hc : c.val < 0x10000
    · rw [spelled, if_pos hc, List.singleton_append, joinSurrogates_cons, ih]
      intro e he hBoth
      cases rest with
      | nil => simp at he
      | cons d rest =>
        rw [List.flatMap_cons] at he
        exact hHead d (by simp) ⟨hBoth.1, isLowSurrogate_of_head_spelled he hBoth.2⟩
    · obtain ⟨hHigh, hLow, _, _⟩ := surrogatePair_bounds hc
      rw [spelled, if_neg hc, List.cons_append, List.singleton_append, joinSurrogates,
        if_pos ⟨hHigh, hLow⟩, ih, joinedSurrogates_surrogatePair hc]

/-! ## Escapes -/

theorem hexValue?_digits {a b c d : Nat} (hDigits : ∀ x ∈ [a, b, c, d], x < 16) :
    hexValue? (Numeral.digitCodePoint a) (Numeral.digitCodePoint b) (Numeral.digitCodePoint c)
      (Numeral.digitCodePoint d) = some (Fin.ofNat _ (Numeral.value 16 [a, b, c, d])) := by
  simp only [List.forall_mem_cons] at hDigits
  simp [hexValue?, Numeral.hexDigit?_digitCodePoint, hDigits]

theorem readCodePoints_unicodeEscape {opening v : Nat} (hv : v < 0x10000) {s t after : Text}
    (hs : s ≠ []) (h : readCodePoints opening s = .ok (t, after)) :
    readCodePoints opening (unicodeEscape v ++ s) = .ok (Fin.ofNat _ v :: t, after) := by
  obtain ⟨ds, hHex, hLength, hDigits, hValue⟩ :=
    Text.exists_digits_of_hex (show 0 < 4 by decide) (show v < 16 ^ 4 by omega)
  obtain ⟨a, b, c, d, rfl⟩ := List.length_eq_four.mp hLength
  obtain ⟨next, s, rfl⟩ := List.exists_cons_of_ne_nil hs
  have hRead := hexValue?_digits hDigits
  rw [hValue] at hRead
  rw [unicodeEscape, hHex]
  change readCodePoints opening (CodePoint.ofChar '\\' :: CodePoint.ofChar 'u' ::
    Numeral.digitCodePoint a :: Numeral.digitCodePoint b :: Numeral.digitCodePoint c ::
      Numeral.digitCodePoint d :: next :: s) = _
  rw [readCodePoints.eq_def]
  dsimp only
  rw [if_neg (by decide), if_pos rfl, if_pos rfl, hRead]
  dsimp only
  rw [h]

theorem readCodePoints_letter {opening : Nat} {c letter : CodePoint} (hLetter : letter ≠ 'u')
    (hEscaped : escapedCodePoint? letter = some c) {s t after : Text}
    (h : readCodePoints opening s = .ok (t, after)) :
    readCodePoints opening (CodePoint.ofChar '\\' :: letter :: s) = .ok (c :: t, after) := by
  rw [readCodePoints.eq_def]
  dsimp only
  rw [if_neg (by decide), if_pos rfl, if_neg hLetter, hEscaped]
  dsimp only
  rw [h]

theorem readCodePoints_plain {opening : Nat} {c : CodePoint} (hQuote : c ≠ '"') (hSlash : c ≠ '\\')
    (hControl : ¬ c.val ≤ 0x1F) {s t after : Text}
    (h : readCodePoints opening s = .ok (t, after)) :
    readCodePoints opening (c :: s) = .ok (c :: t, after) := by
  rw [readCodePoints.eq_def]
  dsimp only
  rw [if_neg hQuote, if_neg hSlash, if_neg hControl, h]

theorem escapedCodePoint?_of_mem : ∀ pair ∈ escapeLetters,
    pair.2 ≠ 'u' ∧ escapedCodePoint? pair.2 = some pair.1 ∧ pair.1.val < 0x10000 := by
  simp only [escapeLetters, List.forall_mem_cons]
  exact ⟨⟨by decide, rfl, by decide⟩, ⟨by decide, rfl, by decide⟩, ⟨by decide, rfl, by decide⟩,
    ⟨by decide, rfl, by decide⟩, ⟨by decide, rfl, by decide⟩, ⟨by decide, rfl, by decide⟩,
    ⟨by decide, rfl, by decide⟩, by simp⟩

theorem readCodePoints_escape {opening : Nat} (c : CodePoint) {s t after : Text} (hs : s ≠ [])
    (h : readCodePoints opening s = .ok (t, after)) :
    readCodePoints opening (escape c ++ s) = .ok (spelled c ++ t, after) := by
  rw [escape]
  split
  · rename_i letter hLookup
    obtain ⟨before, behind, hSplit, _⟩ := List.lookup_eq_some_iff.mp hLookup
    have hMem : (c, letter) ∈ escapeLetters := by
      rw [hSplit]
      simp
    obtain ⟨hLetter, hEscaped, hSmall⟩ := escapedCodePoint?_of_mem _ hMem
    rw [spelled, if_pos hSmall]
    exact readCodePoints_letter hLetter hEscaped h
  · rename_i hLookup
    have hOther : ∀ pair ∈ escapeLetters, c ≠ pair.1 := by
      simpa using List.lookup_eq_none_iff.mp hLookup
    split
    · rename_i hPlain
      rw [spelled, if_pos (by omega)]
      exact readCodePoints_plain (hOther ('"', '"') (by decide)) (hOther ('\\', '\\') (by decide))
        (by omega) h
    split
    · rename_i hSmall
      rw [spelled, if_pos hSmall]
      have hRead := readCodePoints_unicodeEscape hSmall hs h
      rwa [show Fin.ofNat _ c.val = c from Fin.ofNat_val_eq_self c] at hRead
    · rename_i hLarge
      obtain ⟨_, _, hHigh, hLow⟩ := surrogatePair_bounds hLarge
      have hRead := readCodePoints_unicodeEscape hLow hs h
      have hEscape : unicodeEscape (surrogatePair c.val).2 ++ s ≠ [] := by
        rw [unicodeEscape]
        exact List.append_ne_nil_of_right_ne_nil _ hs
      rw [spelled, if_neg hLarge, List.append_assoc]
      exact readCodePoints_unicodeEscape hHigh hEscape hRead

theorem readCodePoints_escapes (opening : Nat) (t rest : Text) :
    readCodePoints opening (t.flatMap escape ++ CodePoint.ofChar '"' :: rest) =
      .ok (t.flatMap spelled, rest) := by
  induction t with
  | nil =>
    rw [List.flatMap_nil, List.nil_append, readCodePoints.eq_def]
    rfl
  | cons c t ih =>
    rw [List.flatMap_cons, List.flatMap_cons, List.append_assoc]
    exact readCodePoints_escape c (by simp) ih

/-- A string is read back up to its closing quote. -/
theorem readString_escapes {t : Text} (h : Joined t) (rest : Text) :
    readString (t.flatMap escape ++ CodePoint.ofChar '"' :: rest) = .ok (t, rest) := by
  rw [readString, readCodePoints_escapes]
  dsimp only
  rw [joinSurrogates_spelled h]

theorem joined_of_readString {s t rest : Text} (h : readString s = .ok (t, rest)) : Joined t := by
  rw [readString] at h
  split at h
  · cases h
    exact joined_joinSurrogates _
  · cases h

end Switchboard.Json

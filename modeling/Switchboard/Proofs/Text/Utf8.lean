import Switchboard.Text.Lines
import Switchboard.Text.Utf8

/-!
# Reading text back from its bytes

A code point that is no surrogate is written as one byte to four, and each of these is one that the
reader may meet there. What is written of a text without surrogates is therefore read back as the
text. A text that is written at all has no surrogate, and neither has one that is read.
-/

namespace Switchboard.Utf8

theorem toNat_ofNat {v : Nat} (h : v < 0x100) : (UInt8.ofNat v).toNat = v :=
  Nat.mod_eq_of_lt h

/-! ## One byte -/

theorem decodeFrom_first {v : Nat} (hv : v < 0x100) (hHigh : 0x80 ≤ v) {position : Nat}
    {u : Unfinished} (h : begin? position (UInt8.ofNat v) = some u) (rest : Bytes) :
    decodeFrom position none (UInt8.ofNat v :: rest) = decodeFrom (position + 1) (some u) rest := by
  have hByte : ¬ (UInt8.ofNat v).toNat < 0x80 := by
    rw [toNat_ofNat hv]
    omega
  rw [decodeFrom, if_neg hByte, h]

theorem decodeFrom_next {v : Nat} (hv : v < 0x100) {u : Unfinished} (hLow : u.low ≤ v)
    (hHigh : v ≤ u.high) (hOwed : 1 < u.owed) (position : Nat) (rest : Bytes) :
    decodeFrom position (some u) (UInt8.ofNat v :: rest) =
      decodeFrom (position + 1)
        (some ⟨u.start, u.first, u.value * 0x40 + v % 0x40, u.owed - 1, 0x80, 0xBF⟩) rest := by
  rw [decodeFrom, toNat_ofNat hv, if_pos ⟨hLow, hHigh⟩]
  exact if_neg (by omega)

theorem decodeFrom_last {v : Nat} (hv : v < 0x100) {u : Unfinished} (hLow : u.low ≤ v)
    (hHigh : v ≤ u.high) (hOwed : u.owed = 1) (position : Nat) (rest : Bytes) :
    decodeFrom position (some u) (UInt8.ofNat v :: rest) =
      (Fin.ofNat _ (u.value * 0x40 + v % 0x40) :: ·) <$> decodeFrom (position + 1) none rest := by
  rw [decodeFrom, toNat_ofNat hv, if_pos ⟨hLow, hHigh⟩]
  exact if_pos (by omega)

theorem begin?_of_two {v : Nat} (hLow : 0xC2 ≤ v) (hHigh : v < 0xE0) (position : Nat) :
    begin? position (UInt8.ofNat v) =
      some ⟨position, UInt8.ofNat v, v % 0x20, 1, 0x80, 0xBF⟩ := by
  simp only [begin?, toNat_ofNat (show v < 0x100 by omega)]
  rw [if_neg (by omega), if_pos hHigh]

theorem begin?_of_three {v : Nat} (hLow : 0xE0 ≤ v) (hHigh : v < 0xF0) (position : Nat) :
    begin? position (UInt8.ofNat v) =
      some ⟨position, UInt8.ofNat v, v % 0x10, 2, if v = 0xE0 then 0xA0 else 0x80,
        if v = 0xED then 0x9F else 0xBF⟩ := by
  simp only [begin?, toNat_ofNat (show v < 0x100 by omega)]
  rw [if_neg (by omega), if_neg (by omega), if_pos hHigh]

theorem begin?_of_four {v : Nat} (hLow : 0xF0 ≤ v) (hHigh : v < 0xF5) (position : Nat) :
    begin? position (UInt8.ofNat v) =
      some ⟨position, UInt8.ofNat v, v % 0x08, 3, if v = 0xF0 then 0x90 else 0x80,
        if v = 0xF4 then 0x8F else 0xBF⟩ := by
  simp only [begin?, toNat_ofNat (show v < 0x100 by omega)]
  rw [if_neg (by omega), if_neg (by omega), if_neg (by omega), if_pos hHigh]

/-! ## One code point -/

theorem decodeFrom_encodeCodePoint {c : CodePoint} (hc : ¬ c.IsSurrogate) (position : Nat)
    (rest : Bytes) : ∃ later,
    decodeFrom position none (encodeCodePoint c ++ rest) =
      (c :: ·) <$> decodeFrom later none rest := by
  have hLimit := c.isLt
  have hPlain : c.val < 0xD800 ∨ 0xDFFF < c.val := by
    rw [CodePoint.IsSurrogate] at hc
    omega
  have hBack : ∀ value, value = c.val → Fin.ofNat 0x110000 value = c := by
    rintro value rfl
    exact Fin.ofNat_val_eq_self c
  unfold encodeCodePoint
  dsimp only
  split
  · rename_i hOne
    refine ⟨position + 1, ?_⟩
    rw [List.singleton_append, decodeFrom, toNat_ofNat (by omega), if_pos hOne, hBack _ rfl]
  split
  · rename_i hOne hTwo
    refine ⟨position + 1 + 1, ?_⟩
    rw [List.cons_append, List.singleton_append,
      decodeFrom_first (by omega) (by omega) (begin?_of_two (by omega) (by omega) position),
      decodeFrom_last (by omega) (by dsimp only; omega) (by dsimp only; omega) rfl, hBack]
    dsimp only
    omega
  split
  · rename_i hOne hTwo hThree
    refine ⟨position + 1 + 1 + 1, ?_⟩
    rw [List.cons_append, List.cons_append, List.singleton_append,
      decodeFrom_first (by omega) (by omega) (begin?_of_three (by omega) (by omega) position),
      decodeFrom_next (by omega) (by dsimp only; split <;> omega) (by dsimp only; split <;> omega)
        (by dsimp only; omega),
      decodeFrom_last (by omega) (by dsimp only; omega) (by dsimp only; omega) rfl, hBack]
    dsimp only
    omega
  · rename_i hOne hTwo hThree
    refine ⟨position + 1 + 1 + 1 + 1, ?_⟩
    rw [List.cons_append, List.cons_append, List.cons_append, List.singleton_append,
      decodeFrom_first (by omega) (by omega) (begin?_of_four (by omega) (by omega) position),
      decodeFrom_next (by omega) (by dsimp only; split <;> omega) (by dsimp only; split <;> omega)
        (by dsimp only; omega),
      decodeFrom_next (by omega) (by dsimp only; omega) (by dsimp only; omega)
        (by dsimp only; omega),
      decodeFrom_last (by omega) (by dsimp only; omega) (by dsimp only; omega) rfl, hBack]
    dsimp only
    omega

/-! ## Whole texts -/

theorem decodeFrom_flatMap {t : Text} (h : t.Encodable) (position : Nat) :
    decodeFrom position none (t.flatMap encodeCodePoint) = .ok t := by
  induction t generalizing position with
  | nil => rfl
  | cons c rest ih =>
    obtain ⟨hFirst, hRest⟩ := List.forall_mem_cons.mp h
    obtain ⟨later, hLater⟩ :=
      decodeFrom_encodeCodePoint hFirst position (rest.flatMap encodeCodePoint)
    rw [List.flatMap_cons, hLater, ih hRest]
    rfl

theorem encodable_of_encodeFrom {t : Text} {position : Nat} {bytes : Bytes}
    (h : encodeFrom position t = .ok bytes) : t.Encodable := by
  induction t generalizing position bytes with
  | nil =>
    intro c hc
    cases hc
  | cons c rest ih =>
    rw [encodeFrom] at h
    split at h
    · cases h
    · rename_i hFirst
      cases hTail : encodeFrom (position + 1) rest with
      | error e =>
        rw [hTail] at h
        cases h
      | ok tail => exact List.forall_mem_cons.mpr ⟨hFirst, ih hTail⟩

theorem encodable_ended_iff (t : Text) :
    Text.Encodable (t ++ [Text.newline]) ↔ t.Encodable := by
  have hBreak : Text.Encodable [Text.newline] := by decide
  rw [Text.Encodable, List.forall_mem_append]
  exact and_iff_left hBreak

theorem encodeLossy_of_encodable {t : Text} (h : t.Encodable) :
    encodeLossy t = t.flatMap encodeCodePoint := by
  have hWhole : t.filter (fun c => !decide c.IsSurrogate) = t :=
    List.filter_eq_self.mpr fun c hc => by simp [h c hc]
  rw [encodeLossy, hWhole]

theorem decode_encodeLossy {t : Text} (h : t.Encodable) : decode (encodeLossy t) = .ok t := by
  rw [encodeLossy_of_encodable h]
  exact decodeFrom_flatMap h 0

/-- Whatever has been written as text is read back as that text. -/
theorem decode_of_encode {t : Text} {bytes : Bytes} (h : encode t = .ok bytes) :
    decode bytes = .ok t := by
  have hText : t.Encodable := encodable_of_encodeFrom h
  rw [encode_eq_ok t hText] at h
  cases h
  exact decodeFrom_flatMap hText 0

/-! ## Bytes of no surrogate -/

/-- All code points from one to another, with no surrogate among them. -/
def Scalars (least greatest : Nat) : Prop :=
  greatest < 0xD800 ∨ (0xDFFF < least ∧ greatest < 0x110000)

/-- However the character goes on, it is no surrogate. The bytes that are still owed say where it
lies, six bits each. -/
structure Unfinished.Proper (u : Unfinished) : Prop where
  low : 0x80 ≤ u.low
  high : u.high ≤ 0xBF
  range : (u.owed = 1 ∧ Scalars (u.value * 0x40 + u.low % 0x40) (u.value * 0x40 + u.high % 0x40)) ∨
    (u.owed = 2 ∧ Scalars ((u.value * 0x40 + u.low % 0x40) * 0x40)
      ((u.value * 0x40 + u.high % 0x40) * 0x40 + 0x3F)) ∨
    (u.owed = 3 ∧ Scalars ((u.value * 0x40 + u.low % 0x40) * 0x1000)
      ((u.value * 0x40 + u.high % 0x40) * 0x1000 + 0xFFF))

variable {u : Unfinished} {b : Nat}

theorem proper_of_begin? {position : Nat} {first : UInt8} (h : begin? position first = some u) :
    u.Proper := by
  rw [begin?] at h
  generalize first.toNat = b at h
  split at h
  · cases h
  · split at h
    · cases h
      refine ⟨Nat.le_refl _, Nat.le_refl _, .inl ⟨rfl, ?_⟩⟩
      unfold Scalars
      dsimp only
      omega
    · split at h
      · cases h
        refine ⟨?_, ?_, .inr (.inl ⟨rfl, ?_⟩)⟩
        · dsimp only
          split <;> decide
        · dsimp only
          split <;> decide
        · unfold Scalars
          dsimp only
          split <;> split <;> omega
      · split at h
        · cases h
          refine ⟨?_, ?_, .inr (.inr ⟨rfl, ?_⟩)⟩
          · dsimp only
            split <;> decide
          · dsimp only
            split <;> decide
          · unfold Scalars
            dsimp only
            split <;> split <;> omega
        · cases h

theorem Unfinished.Proper.next (h : u.Proper) (hLow : u.low ≤ b) (hHigh : b ≤ u.high)
    (hOwed : ¬ u.owed ≤ 1) :
    Proper ⟨u.start, u.first, u.value * 0x40 + b % 0x40, u.owed - 1, 0x80, 0xBF⟩ := by
  obtain ⟨hFrom, hTo, hRange⟩ := h
  refine ⟨Nat.le_refl _, Nat.le_refl _, ?_⟩
  unfold Scalars at hRange ⊢
  dsimp only
  omega

theorem Unfinished.Proper.last (h : u.Proper) (hLow : u.low ≤ b) (hHigh : b ≤ u.high)
    (hOwed : u.owed ≤ 1) :
    ¬ CodePoint.IsSurrogate (Fin.ofNat _ (u.value * 0x40 + b % 0x40)) := by
  obtain ⟨hFrom, hTo, hRange⟩ := h
  rw [CodePoint.IsSurrogate, Fin.val_ofNat]
  unfold Scalars at hRange
  omega

theorem encodable_of_decodeFrom {bytes : Bytes} {position : Nat} {pending : Option Unfinished}
    {t : Text} (hPending : ∀ u ∈ pending, u.Proper)
    (h : decodeFrom position pending bytes = .ok t) : t.Encodable := by
  induction bytes generalizing position pending t with
  | nil =>
    cases pending with
    | none =>
      cases h
      exact nofun
    | some u => cases h
  | cons b rest ih =>
    have hCons : ∀ {c : CodePoint} {later : Option Unfinished}, ¬ c.IsSurrogate →
        (∀ u ∈ later, u.Proper) →
        (c :: ·) <$> decodeFrom (position + 1) later rest = .ok t → t.Encodable := by
      intro c later hc hLater hResult
      cases hRest : decodeFrom (position + 1) later rest with
      | error e =>
        rw [hRest] at hResult
        cases hResult
      | ok others =>
        rw [hRest] at hResult
        cases hResult
        exact List.forall_mem_cons.mpr ⟨hc, ih hLater hRest⟩
    cases pending with
    | none =>
      rw [decodeFrom] at h
      split at h
      · refine hCons ?_ (by simp) h
        rw [CodePoint.IsSurrogate, Fin.val_ofNat]
        omega
      · split at h
        · cases h
        · rename_i u hBegun
          refine ih ?_ h
          rintro _ ⟨⟩
          exact proper_of_begin? hBegun
    | some u =>
      have hProper := hPending u rfl
      rw [decodeFrom] at h
      split at h
      · rename_i hNext
        dsimp only at h
        split at h
        · rename_i hOwed
          exact hCons (hProper.last hNext.1 hNext.2 hOwed) (by simp) h
        · rename_i hOwed
          refine ih ?_ h
          rintro _ ⟨⟩
          exact hProper.next hNext.1 hNext.2 hOwed
      · cases h

/-- What is read from bytes can be written again. -/
theorem encodable_of_decode {bytes : Bytes} {t : Text} (h : decode bytes = .ok t) :
    t.Encodable :=
  encodable_of_decodeFrom (by simp) h

end Switchboard.Utf8

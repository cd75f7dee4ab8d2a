import Switchboard.Json.Parser
import Switchboard.Json.Printer
import Switchboard.Proofs.Decimal.ReadBack

/-!
# Printed numbers read back

A printed whole number is read as itself as long as it has no more digits than a whole number may
have. A printed binary64 number is read as the same sign and rank, in every layout of its digits.
What follows a number must not go on with it.
-/

namespace Switchboard.Json

open Numeral (digitCodePoint decimalDigit?)

def StartsNoDigit (rest : Text) : Prop :=
  ∀ c ∈ rest.head?, decimalDigit? c = none

/-- A number goes on with a digit, a point or the letter of a power of ten. -/
def EndsNumber (rest : Text) : Prop :=
  ∀ c ∈ rest.head?, decimalDigit? c = none ∧ c ≠ '.' ∧ c ≠ 'e' ∧ c ≠ 'E'

theorem EndsNumber.startsNoDigit {rest : Text} (h : EndsNumber rest) : StartsNoDigit rest :=
  fun c hc => (h c hc).1

@[simp] theorem startsNoDigit_nil : StartsNoDigit [] := by simp [StartsNoDigit]

@[simp] theorem startsNoDigit_cons (c : CodePoint) (rest : Text) :
    StartsNoDigit (c :: rest) ↔ decimalDigit? c = none := by simp [StartsNoDigit]

/-! ## Rows of digits -/

theorem readDigits_append {ds : List Nat} (hDigits : ∀ d ∈ ds, d < 10) {rest : Text}
    (hRest : StartsNoDigit rest) :
    readDigits (ds.map digitCodePoint ++ rest) = (ds, rest) := by
  induction ds with
  | nil =>
    cases rest with
    | nil => rfl
    | cons c rest =>
      have hc := (startsNoDigit_cons c rest).mp hRest
      simp [readDigits, hc]
  | cons d ds ih =>
    have hd := Numeral.decimalDigit?_digitCodePoint d (hDigits d (by simp))
    simp [readDigits, hd, ih fun d h => hDigits d (by simp [h])]

/-- Digits that may stand before the point: zero alone, or a first digit that is not zero. -/
def IsWhole (ds : List Nat) : Prop :=
  (∀ d ∈ ds, d < 10) ∧ (ds = [0] ∨ ∃ d rest, ds = d :: rest ∧ d ≠ 0)

theorem readWhole?_append {ds : List Nat} (hWhole : IsWhole ds) {rest : Text}
    (hRest : StartsNoDigit rest) :
    readWhole? (ds.map digitCodePoint ++ rest) = some (ds, rest) := by
  have hRead := readDigits_append hWhole.1 hRest
  rw [readWhole?]
  rw [hRead]
  rcases hWhole.2 with rfl | ⟨d, tail, rfl, hd⟩
  · rfl
  · split
    · rename_i hEq
      cases hEq
    · rename_i hEq
      cases hEq
      exact absurd rfl hd
    · rfl

theorem isWhole_digits (n : Nat) : IsWhole (Numeral.digits 10 n) := by
  refine ⟨fun d hd => Numeral.lt_of_mem_digits (by decide) hd, ?_⟩
  by_cases hn : n = 0
  · subst hn
    exact .inl rfl
  · exact .inr (Numeral.digits_head (by decide) hn)

theorem readFraction_none {rest : Text} (hRest : ∀ c ∈ rest.head?, c ≠ '.') :
    readFraction rest = ([], rest) := by
  cases rest with
  | nil => rfl
  | cons c rest => simp [readFraction, hRest c (by simp)]

theorem readFraction_append {ds : List Nat} (hDigits : ∀ d ∈ ds, d < 10) (hNil : ds ≠ [])
    {rest : Text} (hRest : StartsNoDigit rest) :
    readFraction (CodePoint.ofChar '.' :: (ds.map digitCodePoint ++ rest)) = (ds, rest) := by
  rw [readFraction, if_pos rfl, readDigits_append hDigits hRest]
  split
  · rename_i hEq
    cases hEq
    exact absurd rfl hNil
  · rfl

theorem readExponent_none {rest : Text} (hRest : ∀ c ∈ rest.head?, c ≠ 'e' ∧ c ≠ 'E') :
    readExponent rest = (none, rest) := by
  cases rest with
  | nil => rfl
  | cons c rest => simp [readExponent, hRest c (by simp)]

theorem readExponent_exponentText (e : Int) {rest : Text} (hRest : StartsNoDigit rest) :
    readExponent (Significand.exponentText e ++ rest) = (some e, rest) := by
  obtain ⟨ds, hText, hNil, hDigits, hValue⟩ := Text.exists_digits_of_padded 2 e.natAbs
  have hRead := readDigits_append hDigits hRest
  obtain ⟨d, ds, rfl⟩ := List.exists_cons_of_ne_nil hNil
  rw [Significand.exponentText]
  rw [hText]
  by_cases he : e < 0
  · rw [if_pos he]
    change readExponent (CodePoint.ofChar 'e' :: CodePoint.ofChar '-' ::
      ((d :: ds).map digitCodePoint ++ rest)) = _
    have hSize : -((Numeral.value 10 (d :: ds) : Nat) : Int) = e := by omega
    rw [readExponent, if_pos (by decide), readSign, if_pos rfl]
    dsimp only
    rw [hRead]
    simp only [if_true, hSize]
  · rw [if_neg he]
    change readExponent (CodePoint.ofChar 'e' :: CodePoint.ofChar '+' ::
      ((d :: ds).map digitCodePoint ++ rest)) = _
    have hSize : ((Numeral.value 10 (d :: ds) : Nat) : Int) = e := by omega
    rw [readExponent, if_pos (by decide), readSign, if_neg (by decide), if_pos rfl]
    dsimp only
    rw [hRead]
    simp [hSize]

/-! ## Numbers after their sign -/

theorem readUnsigned_whole (negative : Bool) {ds : List Nat} (hWhole : IsWhole ds)
    (hLimit : ds.length ≤ digitLimit) {rest : Text} (hRest : EndsNumber rest) :
    readUnsigned negative (ds.map digitCodePoint ++ rest) =
      some (.ok (int (if negative then -(Numeral.value 10 ds : Nat) else (Numeral.value 10 ds : Nat)),
        rest)) := by
  have hFraction := readFraction_none fun c hc => (hRest c hc).2.1
  have hExponent := readExponent_none fun c hc => (hRest c hc).2.2
  simp only [readUnsigned, readWhole?_append hWhole hRest.startsNoDigit, hFraction, hExponent]
  rw [if_pos (by simp), if_neg (by omega)]

theorem readUnsigned_fraction (negative : Bool) {w f : List Nat} (hWhole : IsWhole w)
    (hDigits : ∀ d ∈ f, d < 10) (hNil : f ≠ []) {rest : Text}
    (hRest : EndsNumber rest) :
    readUnsigned negative (w.map digitCodePoint ++
        CodePoint.ofChar '.' :: (f.map digitCodePoint ++ rest)) =
      some (.ok (float (Binary64.ofDecimal negative
        ⟨Numeral.value 10 (w ++ f), -(f.length : Int)⟩), rest)) := by
  have hExponent := readExponent_none fun c hc => (hRest c hc).2.2
  have hPoint : StartsNoDigit (CodePoint.ofChar '.' :: (f.map digitCodePoint ++ rest)) :=
    (startsNoDigit_cons ..).mpr rfl
  simp only [readUnsigned, readWhole?_append hWhole hPoint,
    readFraction_append hDigits hNil hRest.startsNoDigit, hExponent]
  rw [if_neg (by simp [hNil])]
  simp

theorem readUnsigned_exponent (negative : Bool) {w f : List Nat} (hWhole : IsWhole w)
    (hDigits : ∀ d ∈ f, d < 10) (e : Int) {rest : Text} (hRest : StartsNoDigit rest) :
    readUnsigned negative (w.map digitCodePoint ++
        (Significand.fraction (f.map digitCodePoint) ++
          (Significand.exponentText e ++ rest))) =
      some (.ok (float (Binary64.ofDecimal negative
        ⟨Numeral.value 10 (w ++ f), e - f.length⟩), rest)) := by
  have hExponent := readExponent_exponentText e hRest
  obtain ⟨tail, hTail⟩ : ∃ tail, Significand.exponentText e ++ rest = CodePoint.ofChar 'e' :: tail := by
    rw [Significand.exponentText]
    split
    · exact ⟨_, rfl⟩
    · exact ⟨_, rfl⟩
  rw [hTail] at hExponent ⊢
  have hLetter : StartsNoDigit (CodePoint.ofChar 'e' :: tail) := (startsNoDigit_cons ..).mpr rfl
  by_cases hNil : f = []
  · subst hNil
    have hFraction : readFraction (CodePoint.ofChar 'e' :: tail) = ([], CodePoint.ofChar 'e' :: tail) :=
      readFraction_none (by simp; decide)
    simp only [Significand.fraction, List.map_nil, if_true, List.nil_append, readUnsigned,
      readWhole?_append hWhole hLetter, hFraction, hExponent]
    rw [if_neg (by simp)]
    simp
  · have hMap : f.map digitCodePoint ≠ [] := by simpa using hNil
    have hPoint : StartsNoDigit (CodePoint.ofChar '.' ::
        (f.map digitCodePoint ++ CodePoint.ofChar 'e' :: tail)) :=
      (startsNoDigit_cons ..).mpr rfl
    rw [Significand.fraction, if_neg hMap]
    change readUnsigned negative (w.map digitCodePoint ++ CodePoint.ofChar '.' ::
      (f.map digitCodePoint ++ CodePoint.ofChar 'e' :: tail)) = _
    simp only [readUnsigned, readWhole?_append hWhole hPoint,
      readFraction_append hDigits hNil hLetter, hExponent]
    rw [if_neg (by simp)]
    simp

/-! ## The layout of a significand -/

theorem value_cons_ne_zero {d : Nat} (hd : d ≠ 0) (ds : List Nat) :
    Numeral.value 10 (d :: ds) ≠ 0 := by
  have hValue := Numeral.value_append 10 [d] ds
  rw [List.singleton_append, show Numeral.value 10 [d] = d by simp [Numeral.value]] at hValue
  have hPos : 0 < d * 10 ^ ds.length := Nat.mul_pos (Nat.pos_of_ne_zero hd) (by positivity)
  omega

theorem value_append_zeros (ds : List Nat) (k : Nat) :
    Numeral.value 10 (ds ++ List.replicate k 0) = Numeral.value 10 ds * 10 ^ k := by
  rw [Numeral.value_append, Numeral.value_replicate_zero, List.length_replicate, Nat.add_zero]

theorem value_zeros_append (ds : List Nat) (k : Nat) :
    Numeral.value 10 (List.replicate k 0 ++ ds) = Numeral.value 10 ds := by
  rw [Numeral.value_append, Numeral.value_replicate_zero, Nat.zero_mul, Nat.zero_add]

theorem lt_ten_of_mem_zeros {k d : Nat} (h : d ∈ List.replicate k 0) : d < 10 := by
  rw [(List.mem_replicate.mp h).2]
  decide

theorem zeros_eq_map (k : Nat) :
    Significand.zeros k = (List.replicate k 0).map digitCodePoint := by
  rw [List.map_replicate]
  rfl

/-- The decimal that a significand stands for, with its digits as the coefficient. -/
def decimalOf (s : Significand) : Decimal :=
  ⟨Numeral.value 10 s.digits, s.point - s.digits.length⟩

structure IsSignificant (ds : List Nat) : Prop where
  digits : ∀ d ∈ ds, d < 10
  head : ∃ d rest, ds = d :: rest ∧ d ≠ 0

theorem IsSignificant.ne_nil {ds : List Nat} (h : IsSignificant ds) : ds ≠ [] := by
  obtain ⟨d, rest, rfl, _⟩ := h.head
  exact List.cons_ne_nil d rest

theorem IsSignificant.value_ne_zero {ds : List Nat} (h : IsSignificant ds) :
    Numeral.value 10 ds ≠ 0 := by
  obtain ⟨d, rest, rfl, hd⟩ := h.head
  exact value_cons_ne_zero hd rest

section Layout

variable (negative : Bool) (s : Significand) {rest : Text}

theorem readUnsigned_point_before (h : IsSignificant s.digits) (hPoint : s.point ≤ 0)
    (hRest : EndsNumber rest) :
    readUnsigned negative ("0." ++ Significand.zeros (-s.point).toNat ++
        s.digits.map digitCodePoint ++ rest) =
      some (.ok (float (Binary64.ofDecimal negative (decimalOf s)), rest)) := by
  have hDigits : ∀ d ∈ List.replicate (-s.point).toNat 0 ++ s.digits, d < 10 := by
    intro d hd
    exact (List.mem_append.mp hd).elim lt_ten_of_mem_zeros (h.digits d)
  have hRead := readUnsigned_fraction negative (isWhole_digits 0) hDigits (by simp [h.ne_nil]) hRest
  have hValue : Numeral.value 10 (Numeral.digits 10 0 ++
      (List.replicate (-s.point).toNat 0 ++ s.digits)) = Numeral.value 10 s.digits := by
    rw [← List.append_assoc]
    exact value_zeros_append s.digits ((-s.point).toNat + 1)
  have hExponent : -((List.replicate (-s.point).toNat 0 ++ s.digits).length : Int) =
      s.point - s.digits.length := by
    rw [List.length_append, List.length_replicate]
    omega
  rw [hValue, hExponent, List.map_append, ← zeros_eq_map] at hRead
  rw [decimalOf, ← hRead]
  congr 1

theorem readUnsigned_point_behind (h : IsSignificant s.digits)
    (hPoint : s.digits.length ≤ s.point.toNat) (hRest : EndsNumber rest) :
    readUnsigned negative (s.digits.map digitCodePoint ++
        Significand.zeros (s.point.toNat - s.digits.length) ++ ".0" ++ rest) =
      some (.ok (float (Binary64.ofDecimal negative (decimalOf s)), rest)) := by
  obtain ⟨k, hk⟩ : ∃ k, s.point.toNat - s.digits.length = k := ⟨_, rfl⟩
  have hWhole : IsWhole (s.digits ++ List.replicate k 0) := by
    obtain ⟨d, ds, hHead, hd⟩ := h.head
    refine ⟨fun d hd => (List.mem_append.mp hd).elim (h.digits d) lt_ten_of_mem_zeros, .inr ?_⟩
    exact ⟨d, ds ++ List.replicate k 0, by rw [hHead, List.cons_append], hd⟩
  have hRead := readUnsigned_fraction negative hWhole (f := [0]) (by simp) (by simp) hRest
  have hShift := Binary64.ofDecimal_shift negative (Numeral.value 10 s.digits) (k + 1)
    (s.point - s.digits.length) h.value_ne_zero
  have hLength := List.length_pos_iff.mpr h.ne_nil
  have hExponent : s.point - s.digits.length - ((k + 1 : Nat) : Int) =
      -(([0] : List Nat).length : Int) := by
    simp only [List.length_singleton]
    omega
  rw [List.append_assoc, ← List.replicate_succ', value_append_zeros, ← hExponent, hShift,
    List.map_append, ← zeros_eq_map] at hRead
  rw [decimalOf, ← hRead, hk]
  congr 1
  simp only [List.append_assoc]
  rfl

theorem readUnsigned_point_among (h : IsSignificant s.digits) (hPos : 0 < s.point)
    (hPoint : s.point.toNat < s.digits.length) (hRest : EndsNumber rest) :
    readUnsigned negative ((s.digits.take s.point.toNat).map digitCodePoint ++ "." ++
        (s.digits.drop s.point.toNat).map digitCodePoint ++ rest) =
      some (.ok (float (Binary64.ofDecimal negative (decimalOf s)), rest)) := by
  have hWhole : IsWhole (s.digits.take s.point.toNat) := by
    obtain ⟨d, ds, hHead, hd⟩ := h.head
    obtain ⟨k, hk⟩ : ∃ k, s.point.toNat = k + 1 := ⟨s.point.toNat - 1, by omega⟩
    refine ⟨fun d hd => h.digits d (List.mem_of_mem_take hd), .inr ?_⟩
    exact ⟨d, ds.take k, by rw [hHead, hk, List.take_succ_cons], hd⟩
  have hRead := readUnsigned_fraction negative hWhole (f := s.digits.drop s.point.toNat)
    (fun d hd => h.digits d (List.mem_of_mem_drop hd))
    (by rw [ne_eq, List.drop_eq_nil_iff]; omega) hRest
  have hExponent : -((s.digits.drop s.point.toNat).length : Int) =
      s.point - s.digits.length := by
    rw [List.length_drop]
    omega
  rw [List.take_append_drop, hExponent] at hRead
  rw [decimalOf, ← hRead]
  congr 1
  simp only [List.append_assoc]
  rfl

theorem readUnsigned_power (h : IsSignificant s.digits) (hRest : EndsNumber rest) :
    readUnsigned negative ((s.digits.take 1).map digitCodePoint ++
        Significand.fraction ((s.digits.drop 1).map digitCodePoint) ++
        Significand.exponentText (s.point - 1) ++ rest) =
      some (.ok (float (Binary64.ofDecimal negative (decimalOf s)), rest)) := by
  have hWhole : IsWhole (s.digits.take 1) := by
    obtain ⟨d, ds, hHead, hd⟩ := h.head
    exact ⟨fun d hd => h.digits d (List.mem_of_mem_take hd), .inr ⟨d, [], by rw [hHead]; rfl, hd⟩⟩
  have hRead := readUnsigned_exponent negative hWhole (f := s.digits.drop 1)
    (fun d hd => h.digits d (List.mem_of_mem_drop hd)) (s.point - 1) hRest.startsNoDigit
  have hExponent : s.point - 1 - ((s.digits.drop 1).length : Int) = s.point - s.digits.length := by
    have hLength := List.length_pos_iff.mpr h.ne_nil
    rw [List.length_drop]
    omega
  rw [List.take_append_drop, hExponent] at hRead
  rw [decimalOf, ← hRead]
  simp only [List.append_assoc]

/-- Every layout of the digits is read as their decimal. -/
theorem readUnsigned_text (h : IsSignificant s.digits) (hRest : EndsNumber rest) :
    readUnsigned negative (s.text ++ rest) =
      some (.ok (float (Binary64.ofDecimal negative (decimalOf s)), rest)) := by
  unfold Significand.text
  dsimp only
  rw [List.length_map, ← List.map_take, ← List.map_drop, ← List.map_take, ← List.map_drop]
  split
  · split
    · exact readUnsigned_point_before negative s h ‹_› hRest
    split
    · exact readUnsigned_point_behind negative s h ‹_› hRest
    · exact readUnsigned_point_among negative s h (by omega) (by omega) hRest
  · exact readUnsigned_power negative s h hRest

end Layout

/-! ## Significands of decimals -/

theorem exists_zeros_after_dropTrailingZeros (ds : List Nat) :
    ∃ k, ds = Decimal.dropTrailingZeros ds ++ List.replicate k 0 := by
  refine ⟨(ds.reverse.takeWhile (· == 0)).length, ?_⟩
  have hZeros : ds.reverse.takeWhile (· == 0) =
      List.replicate (ds.reverse.takeWhile (· == 0)).length 0 := by
    refine List.eq_replicate_of_mem fun d hd => ?_
    simpa using List.all_eq_true.mp List.all_takeWhile d hd
  calc
    ds = (ds.reverse.takeWhile (· == 0) ++ ds.reverse.dropWhile (· == 0)).reverse := by
      rw [List.takeWhile_append_dropWhile, List.reverse_reverse]
    _ = Decimal.dropTrailingZeros ds ++ (ds.reverse.takeWhile (· == 0)).reverse :=
      List.reverse_append
    _ = _ := by
      rw [hZeros, List.reverse_replicate, List.length_replicate]

theorem isSignificant_significand {d : Decimal} (hd : d.coefficient ≠ 0) :
    IsSignificant d.significand.digits := by
  obtain ⟨k, hk⟩ := exists_zeros_after_dropTrailingZeros (Numeral.digits 10 d.coefficient)
  obtain ⟨first, rest, hHead, hFirst⟩ := Numeral.digits_head (b := 10) (by decide) hd
  refine ⟨fun x hx => ?_, ?_⟩
  · have hMem : x ∈ Numeral.digits 10 d.coefficient := by
      rw [hk]
      exact List.mem_append_left _ hx
    exact Numeral.lt_of_mem_digits (by decide) hMem
  · rw [hHead] at hk
    change ∃ first rest, Decimal.dropTrailingZeros (Numeral.digits 10 d.coefficient) = _ ∧ _
    rw [hHead]
    cases hDrop : Decimal.dropTrailingZeros (first :: rest) with
    | nil =>
      rw [hDrop, List.nil_append] at hk
      have hZero : first ∈ List.replicate k 0 := hk ▸ List.mem_cons_self
      exact absurd (List.mem_replicate.mp hZero).2 hFirst
    | cons other tail =>
      rw [hDrop, List.cons_append, List.cons.injEq] at hk
      exact ⟨other, tail, rfl, hk.1 ▸ hFirst⟩

theorem ofDecimal_decimalOf_significand (negative : Bool) {d : Decimal} (hd : d.coefficient ≠ 0) :
    Binary64.ofDecimal negative (decimalOf d.significand) = Binary64.ofDecimal negative d := by
  obtain ⟨k, hk⟩ := exists_zeros_after_dropTrailingZeros (Numeral.digits 10 d.coefficient)
  have hCoefficient : d.coefficient = Numeral.value 10 d.significand.digits * 10 ^ k := by
    rw [← value_append_zeros, Decimal.significand, ← hk, Numeral.value_digits (by decide)]
  have hLength : ((Numeral.digits 10 d.coefficient).length : Int) =
      d.significand.digits.length + k := by
    conv_lhs => rw [hk]
    rw [List.length_append, List.length_replicate]
    rfl
  have hShift := Binary64.ofDecimal_shift negative (Numeral.value 10 d.significand.digits) k
    (d.significand.point - d.significand.digits.length)
    (isSignificant_significand hd).value_ne_zero
  have hExponent : d.significand.point - d.significand.digits.length - k = d.exponent := by
    simp only [Decimal.significand] at hLength ⊢
    omega
  rw [← hCoefficient, hExponent] at hShift
  exact hShift.symm

/-! ## Whole texts of numbers -/

/-- The text of a number after its sign. -/
def StartsDigit (t : Text) : Prop :=
  ∃ d rest, d < 10 ∧ t = digitCodePoint d :: rest

theorem startsDigit_map_append {ds : List Nat} (hDigits : ∀ d ∈ ds, d < 10) (hNil : ds ≠ [])
    (rest : Text) : StartsDigit (ds.map digitCodePoint ++ rest) := by
  obtain ⟨d, ds, rfl⟩ := List.exists_cons_of_ne_nil hNil
  exact ⟨d, ds.map digitCodePoint ++ rest, hDigits d (by simp), rfl⟩

theorem startsDigit_text {s : Significand} (h : IsSignificant s.digits) (rest : Text) :
    StartsDigit (s.text ++ rest) := by
  obtain ⟨d, ds, hHead, hd⟩ := h.head
  have hFirst : d < 10 := h.digits d (by simp [hHead])
  unfold Significand.text
  rw [hHead]
  dsimp only
  split
  · split
    · exact ⟨0, _, by decide, rfl⟩
    split
    · exact ⟨d, _, hFirst, rfl⟩
    · obtain ⟨k, hk⟩ : ∃ k, s.point.toNat = k + 1 := ⟨s.point.toNat - 1, by omega⟩
      rw [hk]
      exact ⟨d, _, hFirst, rfl⟩
  · exact ⟨d, _, hFirst, rfl⟩

theorem readNumber_signed {negative : Bool} {t : Text} (hStart : StartsDigit t)
    {read : Json × Text} (h : readUnsigned negative t = some (.ok read)) :
    readNumber (Binary64.signText negative ++ t) = .ok read := by
  cases negative with
  | true =>
    change (readUnsigned true t).getD _ = _
    rw [h]
    rfl
  | false =>
    obtain ⟨d, rest, hd, rfl⟩ := hStart
    have hMinus : digitCodePoint d ≠ CodePoint.ofChar '-' := by
      intro hEq
      have hRead := Numeral.decimalDigit?_digitCodePoint d hd
      rw [hEq] at hRead
      cases hRead
    change (if digitCodePoint d = CodePoint.ofChar '-' then readUnsigned true rest
      else readUnsigned false (digitCodePoint d :: rest)).getD _ = _
    rw [if_neg hMinus, h]
    rfl

theorem ofInt_eq_signed (n : Int) :
    Text.ofInt n = Binary64.signText (decide (n < 0)) ++ Text.ofNat n.natAbs := by
  cases n with
  | ofNat n => rfl
  | negSucc n =>
    have hNegative : decide (Int.negSucc n < 0) = true := decide_eq_true (Int.negSucc_lt_zero n)
    rw [hNegative]
    rfl

theorem readNumber_ofInt {n : Int} (hLimit : (Numeral.digits 10 n.natAbs).length ≤ digitLimit)
    {rest : Text} (hRest : EndsNumber rest) :
    readNumber (Text.ofInt n ++ rest) = .ok (int n, rest) := by
  have hWhole := isWhole_digits n.natAbs
  have hRead := readUnsigned_whole (decide (n < 0)) hWhole hLimit hRest
  have hValue : (if decide (n < 0) = true then
      -((Numeral.value 10 (Numeral.digits 10 n.natAbs) : Nat) : Int)
      else (Numeral.value 10 (Numeral.digits 10 n.natAbs) : Nat)) = n := by
    rw [Numeral.value_digits (by decide)]
    split
    · rename_i hNegative
      have := of_decide_eq_true hNegative
      omega
    · rename_i hNegative
      rw [decide_eq_true_eq] at hNegative
      omega
  rw [hValue] at hRead
  rw [ofInt_eq_signed, List.append_assoc]
  exact readNumber_signed
    (startsDigit_map_append hWhole.1 (Numeral.digits_ne_nil (by decide) _) rest) hRead

theorem readNumber_finite (negative : Bool) (rank : Fin topRank) {rest : Text}
    (hRest : EndsNumber rest) :
    readNumber ((Binary64.finite negative rank).text numberWords ++ rest) =
      .ok (float (.finite negative rank), rest) := by
  rw [Binary64.text, List.append_assoc]
  by_cases hZero : rank.val = 0
  · have hRead := readUnsigned_fraction negative (isWhole_digits 0) (f := [0]) (by simp) (by simp)
      hRest
    have hRank : Binary64.ofDecimal negative ⟨0, -1⟩ = .finite negative rank := by
      have hEq : rank = ⟨0, by decide⟩ := Fin.ext hZero
      rw [hEq]
      cases negative <;> rfl
    rw [if_pos hZero]
    refine readNumber_signed ⟨0, _, by decide, rfl⟩ ?_
    rw [← hRank]
    exact hRead
  · have hCoefficient := Binary64.shortest_coefficient_ne_zero rank hZero
    have hSignificant := isSignificant_significand hCoefficient
    have hRead := readUnsigned_text negative (Binary64.shortest rank.val).significand hSignificant
      hRest
    rw [ofDecimal_decimalOf_significand negative hCoefficient,
      Binary64.ofDecimal_shortest negative rank hZero] at hRead
    rw [if_neg hZero]
    exact readNumber_signed (startsDigit_text hSignificant rest) hRead

end Switchboard.Json

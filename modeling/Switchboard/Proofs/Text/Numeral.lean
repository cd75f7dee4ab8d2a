import Mathlib.Data.Nat.Digits.Lemmas
import Switchboard.Text.Numeral

/-!
# Numerals read back

The digits of a number have the number as their value, and a list of digits that does not begin with
zero is the digits of its value. A digit shown as a code point is read as itself.
-/

namespace Switchboard.Numeral

theorem digitsOnto_eq_reverse_digits {b : Nat} (hBase : 1 < b) (bound n : Nat)
    (hBound : n < bound) (hn : n ≠ 0) (tail : List Nat) :
    digitsOnto b bound n tail = (Nat.digits b n).reverse ++ tail := by
  induction bound generalizing n tail with
  | zero => omega
  | succ bound ih =>
    rw [digitsOnto]
    split
    · rename_i hSmall
      rw [Nat.digits_of_lt b n hn hSmall]
      rfl
    · rename_i hLarge
      have hPos : 0 < n / b := Nat.div_pos (by omega) (by omega)
      have hLess : n / b < n := Nat.div_lt_self (by omega) hBase
      rw [ih (n / b) (by omega) (by omega), Nat.digits_def' hBase (by omega) (n := n)]
      simp

theorem digits_eq_reverse_digits {b : Nat} (hBase : 1 < b) (n : Nat) (hn : n ≠ 0) :
    digits b n = (Nat.digits b n).reverse := by
  rw [digits, digitsOnto_eq_reverse_digits hBase (n + 1) n (by omega) hn, List.append_nil]

theorem digits_of_lt {b n : Nat} (h : n < b) : digits b n = [n] := by
  simp [digits, digitsOnto, h]

theorem value_eq_ofDigits (b : Nat) (ds : List Nat) :
    value b ds = Nat.ofDigits b ds.reverse := by
  rw [Nat.ofDigits_eq_foldr, List.foldr_reverse, value]
  congr 1
  funext n d
  rw [Nat.cast_id, Nat.mul_comm, Nat.add_comm]

theorem value_digits {b : Nat} (hBase : 1 < b) (n : Nat) :
    value b (digits b n) = n := by
  by_cases hn : n = 0
  · subst hn
    rw [digits_of_lt (by omega)]
    simp [value]
  · rw [value_eq_ofDigits, digits_eq_reverse_digits hBase n hn, List.reverse_reverse,
      Nat.ofDigits_digits]

theorem lt_of_mem_digits {b : Nat} (hBase : 1 < b) {n d : Nat} (h : d ∈ digits b n) :
    d < b := by
  by_cases hn : n = 0
  · subst hn
    rw [digits_of_lt (by omega), List.mem_singleton] at h
    omega
  · rw [digits_eq_reverse_digits hBase n hn, List.mem_reverse] at h
    exact Nat.digits_lt_base hBase h

theorem digits_ne_nil {b : Nat} (hBase : 1 < b) (n : Nat) : digits b n ≠ [] := by
  by_cases hn : n = 0
  · subst hn
    rw [digits_of_lt (by omega)]
    simp
  · rw [digits_eq_reverse_digits hBase n hn]
    simpa using Nat.digits_ne_nil_iff_ne_zero.mpr hn

theorem digits_head {b : Nat} (hBase : 1 < b) {n : Nat} (hn : n ≠ 0) :
    ∃ d rest, digits b n = d :: rest ∧ d ≠ 0 := by
  have hNil : Nat.digits b n ≠ [] := Nat.digits_ne_nil_iff_ne_zero.mpr hn
  have hLast := Nat.getLast_digit_ne_zero b hn
  refine ⟨(Nat.digits b n).getLast hNil, (Nat.digits b n).dropLast.reverse, ?_, hLast⟩
  rw [digits_eq_reverse_digits hBase n hn]
  conv_lhs => rw [← List.dropLast_append_getLast hNil]
  rw [List.reverse_append, List.reverse_singleton, List.singleton_append]

theorem length_digits_le_iff {b k : Nat} (hBase : 1 < b) (hk : 0 < k) (n : Nat) :
    (digits b n).length ≤ k ↔ n < b ^ k := by
  by_cases hn : n = 0
  · subst hn
    rw [digits_of_lt (by omega)]
    simpa using ⟨fun _ => by positivity, fun _ => hk⟩
  · rw [digits_eq_reverse_digits hBase n hn, List.length_reverse]
    exact Nat.digits_length_le_iff hBase n

theorem digits_mul_pow {b : Nat} (hBase : 1 < b) (n k : Nat) (hn : n ≠ 0) :
    digits b (n * b ^ k) = digits b n ++ List.replicate k 0 := by
  have hPow : b ^ k ≠ 0 := by positivity
  rw [digits_eq_reverse_digits hBase _ (Nat.mul_ne_zero hn hPow), Nat.mul_comm,
    Nat.digits_base_pow_mul hBase (Nat.pos_of_ne_zero hn), List.reverse_append,
    List.reverse_replicate, ← digits_eq_reverse_digits hBase n hn]

theorem value_append (b : Nat) (xs ys : List Nat) :
    value b (xs ++ ys) = value b xs * b ^ ys.length + value b ys := by
  rw [value_eq_ofDigits, value_eq_ofDigits, value_eq_ofDigits, List.reverse_append,
    Nat.ofDigits_append, List.length_reverse, Nat.add_comm, Nat.mul_comm]

theorem value_replicate_zero (b k : Nat) : value b (List.replicate k 0) = 0 := by
  rw [value_eq_ofDigits, List.reverse_replicate, Nat.ofDigits_replicate_zero]

theorem value_lt_pow {b : Nat} (hBase : 1 < b) (ds : List Nat) (hDigits : ∀ d ∈ ds, d < b) :
    value b ds < b ^ ds.length := by
  have h := Nat.ofDigits_lt_base_pow_length (l := ds.reverse) hBase (by simpa using hDigits)
  rwa [← value_eq_ofDigits, List.length_reverse] at h

/-! ## Digits as code points -/

theorem decimalDigit?_digitCodePoint (d : Nat) (h : d < 10) :
    decimalDigit? (digitCodePoint d) = some d := by
  interval_cases d <;> rfl

theorem hexDigit?_digitCodePoint (d : Nat) (h : d < 16) : hexDigit? (digitCodePoint d) = some d := by
  interval_cases d <;> rfl

theorem lt_of_decimalDigit?_eq_some {c : CodePoint} {d : Nat} (h : decimalDigit? c = some d) :
    d < 10 := by
  rw [decimalDigit?] at h
  split at h
  · rw [← Option.some.inj h]
    omega
  · cases h

end Switchboard.Numeral

namespace Switchboard.Text

theorem exists_digits_of_padding {b : Nat} (hBase : 1 < b) (width n : Nat) :
    ∃ ds, List.replicate (width - ((Numeral.digits b n).map Numeral.digitCodePoint).length)
        (CodePoint.ofChar '0') ++ (Numeral.digits b n).map Numeral.digitCodePoint =
          ds.map Numeral.digitCodePoint ∧
      ds.length = max width (Numeral.digits b n).length ∧ (∀ d ∈ ds, d < b) ∧
      Numeral.value b ds = n := by
  refine ⟨List.replicate (width - (Numeral.digits b n).length) 0 ++ Numeral.digits b n,
    ?_, ?_, ?_, ?_⟩
  · rw [List.map_append, List.map_replicate, List.length_map]
    rfl
  · rw [List.length_append, List.length_replicate]
    omega
  · intro d hd
    rcases List.mem_append.mp hd with hd | hd
    · rw [(List.mem_replicate.mp hd).2]
      omega
    · exact Numeral.lt_of_mem_digits hBase hd
  · rw [Numeral.value_append, Numeral.value_replicate_zero, Nat.zero_mul, Nat.zero_add,
      Numeral.value_digits hBase]

/-- A number of at most so many hexadecimal digits is shown with exactly so many. -/
theorem exists_digits_of_hex {width n : Nat} (hWidth : 0 < width) (h : n < 16 ^ width) :
    ∃ ds, hex width n = ds.map Numeral.digitCodePoint ∧ ds.length = width ∧
      (∀ d ∈ ds, d < 16) ∧ Numeral.value 16 ds = n := by
  obtain ⟨ds, hEq, hLength, hDigits, hValue⟩ :=
    exists_digits_of_padding (b := 16) (by decide) width n
  have hShort := (Numeral.length_digits_le_iff (b := 16) (by decide) hWidth n).mpr h
  exact ⟨ds, hEq, by omega, hDigits, hValue⟩

theorem exists_digits_of_padded (width n : Nat) :
    ∃ ds, padded width n = ds.map Numeral.digitCodePoint ∧ ds ≠ [] ∧ (∀ d ∈ ds, d < 10) ∧
      Numeral.value 10 ds = n := by
  obtain ⟨ds, hEq, hLength, hDigits, hValue⟩ :=
    exists_digits_of_padding (b := 10) (by decide) width n
  refine ⟨ds, hEq, ?_, hDigits, hValue⟩
  have hPos := List.length_pos_iff.mpr (Numeral.digits_ne_nil (b := 10) (by decide) n)
  exact List.length_pos_iff.mp (by omega)

end Switchboard.Text

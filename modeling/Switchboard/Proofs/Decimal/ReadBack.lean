import Mathlib.Tactic.Ring
import Switchboard.Decimal.Shortest
import Switchboard.Proofs.Text.Numeral

/-!
# Shortest decimals read back

What a decimal is read as depends on its value alone, not on how it is split into a coefficient and a
power of ten. The exact decimal of a rank is read as that rank, and so is the shortest one.
-/

namespace Switchboard.Binary64

/-! ## Quotients of one value -/

theorem divideToNearest_mul_right (n d : Nat) {m : Nat} (hm : 0 < m) :
    divideToNearest (n * m) (d * m) = divideToNearest n d := by
  have hQuotient : n * m / (d * m) = n / d := Nat.mul_div_mul_right n d hm
  have hRemainder : 2 * (n * m % (d * m)) = 2 * (n % d) * m := by
    rw [Nat.mul_mod_mul_right, Nat.mul_assoc]
  simp only [divideToNearest, hQuotient, hRemainder, Nat.mul_lt_mul_right hm]

theorem divideToNearest_eq_or (n d : Nat) :
    divideToNearest n d = n / d ∨ divideToNearest n d = n / d + 1 := by
  simp only [divideToNearest]
  split
  · exact .inl rfl
  split
  · exact .inr rfl
  · omega

theorem divideToNearest_mul_left (n : Nat) {d : Nat} (hd : 0 < d) : divideToNearest (n * d) d = n := by
  simp [divideToNearest, hd]

theorem nearestRank_mul_right (n d : Nat) {m : Nat} (hm : 0 < m) :
    nearestRank (n * m) (d * m) = nearestRank n d := by
  simp only [nearestRank, Nat.mul_div_mul_right n d hm, Nat.mul_right_comm d m,
    divideToNearest_mul_right n _ hm]

theorem nearestRank_congr {n d n' d' : Nat} (hd : 0 < d) (hd' : 0 < d') (h : n * d' = n' * d) :
    nearestRank n d = nearestRank n' d' := by
  calc
    nearestRank n d = nearestRank (n * d') (d * d') := (nearestRank_mul_right n d hd').symm
    _ = nearestRank (n' * d) (d' * d) := by rw [h, Nat.mul_comm d d']
    _ = nearestRank n' d' := nearestRank_mul_right n' d' hd

/-! ## Decimals of one value -/

theorem nearestRank_shift (c k s : Nat) (e : Int) :
    nearestRank (c * 10 ^ k * 10 ^ (e - k).toNat * 2 ^ s) (10 ^ (-(e - k)).toNat) =
      nearestRank (c * 10 ^ e.toNat * 2 ^ s) (10 ^ (-e).toNat) := by
  apply nearestRank_congr (by positivity) (by positivity)
  have hPowers : 10 ^ k * 10 ^ (e - k).toNat * 10 ^ (-e).toNat =
      10 ^ e.toNat * 10 ^ (-(e - k)).toNat := by
    rw [← Nat.pow_add, ← Nat.pow_add, ← Nat.pow_add]
    congr 1
    omega
  calc
    c * 10 ^ k * 10 ^ (e - k).toNat * 2 ^ s * 10 ^ (-e).toNat =
        c * (10 ^ k * 10 ^ (e - k).toNat * 10 ^ (-e).toNat) * 2 ^ s := by ring
    _ = c * (10 ^ e.toNat * 10 ^ (-(e - k)).toNat) * 2 ^ s := by rw [hPowers]
    _ = c * 10 ^ e.toNat * 2 ^ s * 10 ^ (-(e - k)).toNat := by ring

/-- Zeros moved from the power of ten into the coefficient change nothing. -/
theorem ofDecimal_shift (negative : Bool) (c k : Nat) (e : Int) (hc : c ≠ 0) :
    ofDecimal negative ⟨c * 10 ^ k, e - k⟩ = ofDecimal negative ⟨c, e⟩ := by
  have hNonzero : c * 10 ^ k ≠ 0 := Nat.mul_ne_zero hc (by positivity)
  have hPlaces : ((Numeral.digits 10 (c * 10 ^ k)).length : Int) + (e - k) =
      (Numeral.digits 10 c).length + e := by
    rw [Numeral.digits_mul_pow (by decide) c k hc, List.length_append, List.length_replicate]
    omega
  simp only [ofDecimal, hPlaces, nearestRank_shift, hNonzero, hc]

theorem ofDecimal_eq_finite (negative : Bool) {d : Decimal} {rank : Fin topRank}
    (h : ofDecimal false d = finite false rank) : ofDecimal negative d = finite negative rank := by
  have hRank (r : Nat) (hr : ofRank false r = finite false rank) :
      ofRank negative r = finite negative rank := by
    unfold ofRank at hr ⊢
    split at hr
    · rename_i hFinite
      rw [dif_pos hFinite, (finite.inj hr).2]
    · cases hr
  simp only [ofDecimal] at h ⊢
  split at h
  · rename_i hSmall
    rw [if_pos hSmall]
    exact hRank _ h
  · rename_i hSmall
    rw [if_neg hSmall]
    split at h
    · cases h
    · rename_i hLarge
      rw [if_neg hLarge]
      exact hRank _ h

/-! ## The exact decimal -/

theorem nearestRank_units (rank : Nat) : nearestRank (units rank) 1 = rank := by
  rw [nearestRank, Nat.div_one]
  by_cases h : rank < 2 ^ 52
  · have hLog : rank.log2 - 52 = 0 := by
      by_cases hZero : rank = 0
      · subst hZero
        rfl
      · have := (Nat.log2_lt hZero).mpr h
        omega
    have hDivide := divideToNearest_mul_left rank (d := 1) (by decide)
    rw [units, if_pos h, hLog]
    simpa using hDivide
  · have hMantissa : 2 ^ 52 + rank % 2 ^ 52 ≠ 0 := by omega
    have hLog : ((2 ^ 52 + rank % 2 ^ 52) * 2 ^ (rank / 2 ^ 52 - 1)).log2 =
        52 + (rank / 2 ^ 52 - 1) := by
      rw [Nat.log2_eq_iff (Nat.mul_ne_zero hMantissa (by positivity))]
      constructor
      · rw [Nat.pow_add]
        exact Nat.mul_le_mul_right _ (by omega)
      · rw [show 52 + (rank / 2 ^ 52 - 1) + 1 = 53 + (rank / 2 ^ 52 - 1) by omega, Nat.pow_add]
        exact Nat.mul_lt_mul_of_pos_right (by omega) (by positivity)
    rw [units, if_neg h, hLog, Nat.add_sub_cancel_left, Nat.one_mul,
      divideToNearest_mul_left _ (by positivity)]
    omega

theorem units_pos {rank : Nat} (h : 0 < rank) : 0 < units rank := by
  rw [units]
  split
  · exact h
  · positivity

theorem units_lt {rank k : Nat} (h : rank < (k + 2) * 2 ^ 52) : units rank < 2 ^ 53 * 2 ^ k := by
  have hExponent : rank / 2 ^ 52 - 1 ≤ k := by omega
  rw [units]
  split
  · rename_i hSmall
    calc
      rank < 2 ^ 53 * 1 := by omega
      _ ≤ 2 ^ 53 * 2 ^ k := Nat.mul_le_mul_left _ Nat.one_le_two_pow
  · calc
      (2 ^ 52 + rank % 2 ^ 52) * 2 ^ (rank / 2 ^ 52 - 1) < 2 ^ 53 * 2 ^ (rank / 2 ^ 52 - 1) :=
        Nat.mul_lt_mul_of_pos_right (by omega) (by positivity)
      _ ≤ 2 ^ 53 * 2 ^ k := Nat.mul_le_mul_left _ (Nat.pow_le_pow_right (by decide) hExponent)

/-- A decimal with places after the point only, of a size between the two cutoffs. -/
theorem ofDecimal_neg_exponent (negative : Bool) (c s : Nat) (hc : c ≠ 0)
    (hLower : s ≤ (Numeral.digits 10 c).length + 323)
    (hUpper : (Numeral.digits 10 c).length ≤ s + 309) :
    ofDecimal negative ⟨c, -(s : Int)⟩ =
      ofRank negative (nearestRank (c * 10 ^ 0 * 2 ^ 1074) (10 ^ s)) := by
  have hZero : (-(s : Int)).toNat = 0 := by omega
  have hSize : (-(-(s : Int))).toNat = s := by omega
  simp only [ofDecimal, hZero, hSize]
  rw [if_neg (not_or.mpr ⟨hc, by omega⟩), if_neg (by omega)]

theorem nearestRank_exact (u s : Nat) :
    nearestRank (u * 5 ^ s * 10 ^ 0 * 2 ^ s) (10 ^ s) = nearestRank u 1 := by
  apply nearestRank_congr (by positivity) (by decide)
  rw [show (10 : Nat) = 5 * 2 from rfl, Nat.mul_pow 5 2 s]
  ring

theorem length_digits_exact {u s b m n : Nat} (hPos : 0 < u) (hBound : u < b)
    (hHigh : 0 < n) (hFive : 10 ^ m ≤ 5 ^ s) (hTen : b * 5 ^ s ≤ 10 ^ n) :
    m + 1 ≤ (Numeral.digits 10 (u * 5 ^ s)).length ∧
      (Numeral.digits 10 (u * 5 ^ s)).length ≤ n := by
  constructor
  · by_contra hShort
    have hLow : (Numeral.digits 10 (u * 5 ^ s)).length ≤ m := by omega
    have hLowPos : 0 < m :=
      (List.length_pos_iff.mpr (Numeral.digits_ne_nil (by decide) _)).trans_le hLow
    have hLess := (Numeral.length_digits_le_iff (by decide) hLowPos _).mp hLow
    exact absurd (hFive.trans (Nat.le_mul_of_pos_left _ hPos)) (not_le.mpr hLess)
  · rw [Numeral.length_digits_le_iff (by decide) hHigh]
    exact (Nat.mul_lt_mul_of_pos_right hBound (by positivity)).trans_le hTen

theorem ofDecimal_exactDecimal {rank : Nat} (hPos : 0 < rank) (hTop : rank < topRank) :
    ofDecimal false (exactDecimal rank) = ofRank false rank := by
  have hUnits := units_pos hPos
  have hNonzero : units rank * 5 ^ 1074 ≠ 0 := Nat.mul_ne_zero hUnits.ne' (by positivity)
  obtain ⟨hLower, hUpper⟩ := length_digits_exact (s := 1074) (m := 750) (n := 1383) hUnits
    (units_lt (k := 2045) hTop) (by decide) (by decide +kernel) (by decide +kernel)
  have hRead := ofDecimal_neg_exponent false _ 1074 hNonzero (Nat.add_le_add_right hLower 323) hUpper
  rw [nearestRank_exact, nearestRank_units] at hRead
  exact hRead

/-! ## The shortest decimal -/

theorem good_of_choose? {good : Decimal → Bool} {n d : Nat} {e : Int} {x : Decimal}
    (h : choose? good n d e = some x) : good x = true := by
  unfold choose? at h
  dsimp only at h
  split at h
  · rename_i hBelow hAbove
    rw [← Option.some.inj h]
    rcases divideToNearest_eq_or n d with hEq | hEq
    · rwa [hEq]
    · rwa [hEq]
  · rename_i hBelow hAbove
    rwa [← Option.some.inj h]
  · rename_i hBelow hAbove
    rwa [← Option.some.inj h]
  · cases h

theorem readsBack_of_neighbour? {rank count : Nat} {d : Decimal}
    (h : neighbour? rank count = some d) : readsBack rank d = true :=
  good_of_choose? h

theorem readsBack_shortest {rank : Nat} (hPos : 0 < rank) (hTop : rank < topRank) :
    readsBack rank (shortest rank) = true := by
  rw [shortest]
  cases h : (List.range' 1 17).findSome? (neighbour? rank) with
  | none =>
    rw [Option.getD_none, readsBack, decide_eq_true_eq]
    exact ofDecimal_exactDecimal hPos hTop
  | some d =>
    obtain ⟨count, _, hd⟩ := List.exists_of_findSome?_eq_some h
    exact readsBack_of_neighbour? hd

theorem ofDecimal_shortest (negative : Bool) (rank : Fin topRank) (hPos : rank.val ≠ 0) :
    ofDecimal negative (shortest rank.val) = finite negative rank := by
  have h := readsBack_shortest (Nat.pos_of_ne_zero hPos) rank.isLt
  rw [readsBack, decide_eq_true_eq, ofRank, dif_pos rank.isLt] at h
  exact ofDecimal_eq_finite negative h

theorem shortest_coefficient_ne_zero (rank : Fin topRank) (hPos : rank.val ≠ 0) :
    (shortest rank.val).coefficient ≠ 0 := by
  intro hZero
  have h := ofDecimal_shortest false rank hPos
  simp only [ofDecimal, hZero, true_or, if_true, ofRank] at h
  rw [dif_pos (show 0 < topRank by decide)] at h
  exact hPos (congrArg Fin.val (finite.inj h).2).symm

end Switchboard.Binary64

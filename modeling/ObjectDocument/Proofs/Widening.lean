import ObjectDocument.Number.Binary

/-!
# Numbers of two widths

Rounding a number that a format has gives that number (`roundScaled_exact`), and rounding sees only
the number, not the significand and the power of two that it is given as
(`roundQuotient_mul_two_pow`). So a 32-bit number is not changed by going through 64 bits, and the
64-bit numbers that can be narrowed are those that come from widening (`narrow?_eq_some_iff`).
-/

namespace ObjectDocument

-- Powers are those of the core library, whatever else is imported.
attribute [local instance (2000)] instPowNat

theorem log2_mul_two_pow {n : Nat} (h : n ≠ 0) (k : Nat) : (n * 2 ^ k).log2 = n.log2 + k := by
  have hpow : n * 2 ^ k ≠ 0 := Nat.mul_ne_zero h (Nat.ne_of_gt (Nat.two_pow_pos k))
  rw [Nat.log2_eq_iff hpow]
  constructor
  · rw [Nat.pow_add]
    exact Nat.mul_le_mul_right _ (Nat.log2_self_le h)
  · rw [Nat.add_right_comm, Nat.pow_add]
    exact Nat.mul_lt_mul_of_pos_right Nat.lt_log2_self (Nat.two_pow_pos k)

namespace FloatFormat
variable (f : FloatFormat)

/-! ## Rounding -/

theorem roundQuotient_mul_two_pow {num den : Nat} (hd : den ≠ 0) (k : Nat) :
    f.roundQuotient (num * 2 ^ k) (den * 2 ^ k) = f.roundQuotient num den := by
  by_cases hn : num = 0
  · simp [roundQuotient, hn]
  have hk := Nat.two_pow_pos k
  have hn' : num * 2 ^ k ≠ 0 := Nat.mul_ne_zero hn (Nat.ne_of_gt hk)
  have hestimate : ((num * 2 ^ k).log2 : Int) - (den * 2 ^ k).log2 = num.log2 - den.log2 := by
    rw [log2_mul_two_pow hn, log2_mul_two_pow hd]
    omega
  have swap (a b : Nat) : a * 2 ^ k * b = a * b * 2 ^ k := Nat.mul_right_comm a (2 ^ k) b
  have hle (a b : Nat) : a * 2 ^ k ≤ b * 2 ^ k ↔ a ≤ b := Nat.mul_le_mul_right_iff hk
  have hlt (a b : Nat) : a * 2 ^ k < 2 * (b * 2 ^ k) ↔ a < 2 * b := by
    rw [← Nat.mul_assoc]
    exact Nat.mul_lt_mul_right hk
  have heq (a b : Nat) : 2 * (a * 2 ^ k) = b * 2 ^ k ↔ 2 * a = b := by
    rw [← Nat.mul_assoc]
    exact Nat.mul_left_inj (Nat.ne_of_gt hk)
  simp only [roundQuotient, hn, hn', hestimate, swap, hle, if_false, Nat.mul_div_mul_right _ _ hk,
    Nat.mul_mod_mul_right, hlt, heq]

theorem roundScaled_mul_two_pow (m : Nat) (q : Int) (j : Nat) :
    f.roundScaled (m * 2 ^ j) (q - j) = f.roundScaled m q := by
  obtain ⟨k, hn, hd⟩ : ∃ k, j + (q - j).toNat = q.toNat + k ∧ (-(q - j)).toNat = (-q).toNat + k :=
    ⟨j + (q - j).toNat - q.toNat, by omega, by omega⟩
  have hnum : m * 2 ^ j * 2 ^ (q - j).toNat = m * 2 ^ q.toNat * 2 ^ k := by
    rw [Nat.mul_assoc, ← Nat.pow_add, hn, Nat.pow_add, Nat.mul_assoc]
  rw [roundScaled, roundScaled, hnum, hd, Nat.pow_add]
  exact f.roundQuotient_mul_two_pow (Nat.ne_of_gt (Nat.two_pow_pos _)) k

/-- A number with a last place that the format has is not rounded. -/
theorem roundScaled_exact {m : Nat} (hm : m ≠ 0) {q u : Int}
    (hu : u = max f.minExponent (m.log2 + q - f.precision + 1)) (hle : u ≤ q) :
    f.roundScaled m q =
      min f.infinity ((u - f.minExponent).toNat * f.hidden + m * 2 ^ (q - u).toNat) := by
  have hnum : m * 2 ^ q.toNat ≠ 0 := Nat.mul_ne_zero hm (Nat.ne_of_gt (Nat.two_pow_pos _))
  have hestimate : ((m * 2 ^ q.toNat).log2 : Int) - (2 ^ (-q).toNat).log2 = m.log2 + q := by
    rw [log2_mul_two_pow hm, Nat.log2_two_pow]
    omega
  -- the estimate is the place of the leading bit, for the divisor is a power of two
  have hleading : 2 ^ (-q).toNat * 2 ^ (m.log2 + q).toNat ≤
      m * 2 ^ q.toNat * 2 ^ (-(m.log2 + q)).toNat := by
    have hexp : (-q).toNat + (m.log2 + q).toNat =
        m.log2 + (q.toNat + (-(m.log2 + q)).toNat) := by omega
    rw [← Nat.pow_add, hexp, Nat.pow_add, Nat.pow_add, ← Nat.mul_assoc]
    exact Nat.mul_le_mul_right _ (Nat.mul_le_mul_right _ (Nat.log2_self_le hm))
  have hquotient : m * 2 ^ q.toNat * 2 ^ (-u).toNat =
      m * 2 ^ (q - u).toNat * (2 ^ (-q).toNat * 2 ^ u.toNat) := by
    have hexp : q.toNat + (-u).toNat = (q - u).toNat + ((-q).toNat + u.toNat) := by omega
    rw [Nat.mul_assoc, ← Nat.pow_add, hexp, Nat.pow_add, Nat.pow_add, Nat.mul_assoc]
  have hpos : 0 < 2 ^ (-q).toNat * 2 ^ u.toNat :=
    Nat.mul_pos (Nat.two_pow_pos _) (Nat.two_pow_pos _)
  have hpne : 2 ^ (-q).toNat * 2 ^ u.toNat ≠ 0 := Nat.ne_of_gt hpos
  simp only [roundScaled, roundQuotient, hnum, if_false, hestimate, if_pos hleading, ← hu,
    hquotient, Nat.mul_mod_left, Nat.mul_div_cancel _ hpos]
  simp [Ne.symm hpne]

/-! ## Decoding and encoding -/

theorem decode_withSign {g : Nat} (hg : g < f.signBit) (s : Bool) :
    f.decode (f.withSign s g) =
      if f.infinity < g then .nan
      else if g = f.infinity then .infinite s
      else if g / f.hidden = 0 then .finite s (g % f.hidden) f.minExponent
      else .finite s (f.hidden + g % f.hidden) (f.minExponent + (g / f.hidden : Nat) - 1) := by
  have hneg : decide (f.signBit ≤ f.withSign s g) = s := by
    cases s with
    | true => simp [withSign]
    | false => simpa [withSign] using hg
  have hmag : f.withSign s g % f.signBit = g := by
    cases s with
    | true => simp [withSign, Nat.mod_eq_of_lt hg]
    | false => simp [withSign, Nat.mod_eq_of_lt hg]
  simp only [decode, hneg, hmag]

theorem withSign_decide {bits : Nat} (h : bits < 2 * f.signBit) :
    f.withSign (decide (f.signBit ≤ bits)) (bits % f.signBit) = bits := by
  by_cases hs : f.signBit ≤ bits
  · have : bits % f.signBit = bits - f.signBit := by
      rw [Nat.mod_eq_sub_mod hs, Nat.mod_eq_of_lt (by omega)]
    simp only [withSign, decide_eq_true hs, this, if_true]
    omega
  · simp [withSign, hs, Nat.mod_eq_of_lt (Nat.lt_of_not_le hs)]

theorem withSign_lt {g : Nat} (hg : g < f.signBit) (s : Bool) : f.withSign s g < 2 * f.signBit := by
  cases s <;> simp only [withSign, Bool.false_eq_true, if_true, if_false] <;> omega

theorem roundScaled_decode (hp : 0 < f.precision) {g : Nat} (hsign : g < f.signBit) {s t : Bool}
    {m : Nat} {q : Int} (hd : f.decode (f.withSign s g) = .finite t m q) :
    t = s ∧ f.roundScaled m q = g := by
  have hpos : 0 < f.hidden := Nat.two_pow_pos _
  have hmod : g % f.hidden < f.hidden := Nat.mod_lt _ hpos
  have hdiv := Nat.div_add_mod g f.hidden
  rw [f.decode_withSign hsign] at hd
  split at hd
  · cases hd
  split at hd
  · cases hd
  split at hd
  next hf =>
    cases hd
    refine ⟨rfl, ?_⟩
    rw [hf, Nat.mul_zero, Nat.zero_add] at hdiv
    rw [hdiv]
    by_cases h0 : g = 0
    · simp [h0, roundScaled, roundQuotient]
    have hlog : g.log2 < f.precision - 1 := by
      rw [Nat.log2_lt h0]
      exact hdiv ▸ hmod
    rw [f.roundScaled_exact h0 (u := f.minExponent) (by omega) (by omega)]
    simp
    omega
  next hf =>
    cases hd
    refine ⟨rfl, ?_⟩
    have hm : f.hidden + g % f.hidden ≠ 0 := by omega
    have hlog : (f.hidden + g % f.hidden).log2 = f.precision - 1 := by
      rw [Nat.log2_eq_iff hm, Nat.pow_succ]
      change f.hidden ≤ _ ∧ _ < f.hidden * 2
      omega
    obtain ⟨c, hc⟩ := Nat.exists_eq_succ_of_ne_zero hf
    rw [f.roundScaled_exact hm (u := f.minExponent + (g / f.hidden : Nat) - 1) (by omega)
      (by omega)]
    have hfield : (f.minExponent + (g / f.hidden : Nat) - 1 - f.minExponent).toNat = c := by omega
    rw [hfield, Int.sub_self]
    rw [hc, Nat.mul_succ, Nat.mul_comm] at hdiv
    simp
    omega

/-! ## From 32 to 64 bits -/

theorem decode_binary32_bounds {g : Nat} (hg : g < binary32.signBit) {s t : Bool} {m : Nat}
    {q : Int} (hd : binary32.decode (binary32.withSign s g) = .finite t m q) :
    m < 2 ^ (24 : Nat) ∧ -149 ≤ q ∧ q ≤ 104 := by
  have hhidden : binary32.hidden = 8388608 := rfl
  have hinf : binary32.infinity = 2139095040 := rfl
  have hmin : binary32.minExponent = -149 := rfl
  rw [decode_withSign _ hg, hhidden, hinf, hmin] at hd
  split at hd
  · cases hd
  split at hd
  · cases hd
  split at hd <;> cases hd <;> omega

theorem decode_binary64_roundScaled {m : Nat} {q : Int} (hm : m < 2 ^ (24 : Nat)) (hlo : -149 ≤ q)
    (hhi : q ≤ 104) (s : Bool) :
    binary64.roundScaled m q < binary64.infinity ∧
      ∃ n r, binary64.decode (binary64.withSign s (binary64.roundScaled m q)) = .finite s n r ∧
        binary32.roundScaled n r = binary32.roundScaled m q := by
  by_cases h0 : m = 0
  · have hzero (f : FloatFormat) (r : Int) : f.roundScaled 0 r = 0 := by
      simp [roundScaled, roundQuotient]
    rw [h0, hzero, hzero]
    exact ⟨by decide, 0, _, decode_withSign _ (by decide) s, hzero _ _⟩
  have hlog : m.log2 ≤ 23 := by
    have := (Nat.log2_lt h0).2 hm
    omega
  obtain ⟨j, hj⟩ : ∃ j, j = 52 - m.log2 := ⟨_, rfl⟩
  have hlower : 2 ^ (52 : Nat) ≤ m * 2 ^ j := by
    have := Nat.mul_le_mul_right (2 ^ j) (Nat.log2_self_le h0)
    rwa [← Nat.pow_add, show m.log2 + j = 52 by omega] at this
  have hupper : m * 2 ^ j < 2 ^ (53 : Nat) := by
    have := Nat.mul_lt_mul_of_pos_right (Nat.lt_log2_self (n := m)) (Nat.two_pow_pos j)
    rwa [← Nat.pow_add, show m.log2 + 1 + j = 53 by omega] at this
  have hhidden : binary64.hidden = 2 ^ (52 : Nat) := rfl
  have hinf : binary64.infinity = 2047 * 2 ^ (52 : Nat) := rfl
  have hmin : binary64.minExponent = -1074 := rfl
  have hprecision : binary64.precision = 53 := rfl
  have hsign : binary64.signBit = 2 ^ (63 : Nat) := rfl
  obtain ⟨e, he⟩ : ∃ e : Nat, (e : Int) = q - j + 1074 := ⟨(q - j + 1074).toNat, by omega⟩
  have hsmall : e * 2 ^ (52 : Nat) + m * 2 ^ j < 2047 * 2 ^ (52 : Nat) := by omega
  have hround : binary64.roundScaled m q = e * 2 ^ (52 : Nat) + m * 2 ^ j := by
    rw [binary64.roundScaled_exact h0 (u := q - j) (by omega) (by omega), hhidden, hinf, hmin,
      show (q - j - -1074).toNat = e by omega, show (q - (q - j)).toNat = j by omega]
    exact Nat.min_eq_right (Nat.le_of_lt hsmall)
  have hlt : binary64.roundScaled m q < binary64.infinity := by
    rw [hround, hinf]
    exact hsmall
  refine ⟨hlt, m * 2 ^ j, q - j, ?_, binary32.roundScaled_mul_two_pow m q j⟩
  rw [decode_withSign _ (by omega), if_neg (by omega), if_neg (by omega), hround, hhidden, hmin,
    if_neg (by omega)]
  congr 1 <;> omega

end FloatFormat

open FloatFormat

theorem Binary64.value_ofBits {n : Nat} (h : n < 2 * binary64.signBit) :
    (ofBits n).value = binary64.decode n := by
  rw [value, ofBits, UInt64.toNat_ofNat_of_lt' h]

theorem Binary32.ofBits_toNat (y : Binary32) : ofBits y.bits.toNat = y := by
  rw [ofBits, UInt32.ofNat_toNat]

theorem Binary32.narrow_widen {nan : WideNaN} {y : Binary32} (hy : y.isNaN = false) :
    (y.widen nan).narrow = y := by
  obtain ⟨s, g, hg, hbits⟩ : ∃ s g, g < binary32.signBit ∧
      y.bits.toNat = binary32.withSign s g :=
    ⟨_, _, Nat.mod_lt _ (by decide), (binary32.withSign_decide y.bits.toNat_lt).symm⟩
  have hvalue : y.value = binary32.decode (binary32.withSign s g) := by rw [value, hbits]
  rw [Binary64.narrow, widen, if_neg (Bool.eq_false_iff.1 hy)]
  cases hv : y.value with
  | nan => simp [isNaN, hv] at hy
  | infinite t =>
    have hi : t = s ∧ g = binary32.infinity := by
      rw [hvalue, decode_withSign _ hg] at hv
      split at hv
      · cases hv
      split at hv
      next h =>
        cases hv
        exact ⟨rfl, h⟩
      next => split at hv <;> cases hv
    obtain ⟨rfl, rfl⟩ := hi
    rw [encode, Binary64.value_ofBits (binary64.withSign_lt (by decide) t),
      decode_withSign _ (by decide), if_neg (Nat.lt_irrefl _), if_pos rfl, encode, ← hbits,
      ofBits_toNat]
  | finite t m q =>
    rw [hvalue] at hv
    obtain ⟨hm, hlo, hhi⟩ := decode_binary32_bounds hg hv
    obtain ⟨rfl, hround⟩ := binary32.roundScaled_decode (by decide) hg hv
    obtain ⟨hlt, n, r, hd, hn⟩ := decode_binary64_roundScaled hm hlo hhi t
    have hsign : binary64.roundScaled m q < binary64.signBit := Nat.lt_trans hlt (by decide)
    rw [encode, Binary64.value_ofBits (binary64.withSign_lt hsign t), hd, encode, hn, hround,
      ← hbits, ofBits_toNat]

namespace Binary64

theorem eq_zero_of_isZero {x : Binary64} (h : x.isZero = true) :
    x = ⟨0⟩ ∨ x = ⟨0x8000000000000000⟩ := by
  obtain ⟨s, g, hg, hbits⟩ : ∃ s g, g < binary64.signBit ∧
      x.bits.toNat = binary64.withSign s g :=
    ⟨_, _, Nat.mod_lt _ (by decide), (binary64.withSign_decide x.bits.toNat_lt).symm⟩
  have hpos : 0 < binary64.hidden := Nat.two_pow_pos _
  have hzero : g = 0 := by
    have hdiv := Nat.div_add_mod g binary64.hidden
    obtain ⟨t, q, hv⟩ : ∃ t q, x.value = .finite t 0 q := by
      simp only [isZero] at h
      split at h
      next t q hv => exact ⟨t, q, hv⟩
      next => cases h
    rw [value, hbits, decode_withSign _ hg] at hv
    split at hv
    · cases hv
    split at hv
    · cases hv
    split at hv
    next hf =>
      have hm : g % binary64.hidden = 0 := by injection hv
      rw [hf, hm] at hdiv
      exact hdiv.symm
    next =>
      have : binary64.hidden + g % binary64.hidden = 0 := by injection hv
      omega
  have hx : x = ofBits (binary64.withSign s g) := by rw [← hbits, ofBits, UInt64.ofNat_toNat]
  rw [hx, hzero]
  cases s
  · exact .inl rfl
  · exact .inr rfl

theorem isNaN_of_widen {nan : WideNaN} {y : Binary32} (h : (y.widen nan).isNaN = false) :
    y.isNaN = false := by
  refine Bool.eq_false_iff.2 fun hy => ?_
  rw [Binary32.widen, if_pos hy, (nan y).2] at h
  cases h

/-- What can be narrowed is what widening gives, and gives it back. -/
theorem narrow?_eq_some_iff {nan : WideNaN} {x : Binary64} {y : Binary32} :
    x.narrow? nan = some y ↔ y.widen nan = x ∧ x.isNaN = false := by
  constructor
  · intro h
    simp only [narrow?] at h
    split at h
    next heq =>
      cases h
      simp only [numEq, Bool.and_eq_true, Bool.not_eq_true', Bool.or_eq_true, beq_iff_eq] at heq
      obtain ⟨⟨-, hx⟩, heq | ⟨-, hzero⟩⟩ := heq
      · exact ⟨heq, hx⟩
      · refine ⟨?_, hx⟩
        rcases eq_zero_of_isZero hzero with rfl | rfl <;> rfl
    next => cases h
  · rintro ⟨rfl, hx⟩
    simp [narrow?, Binary32.narrow_widen (isNaN_of_widen hx), numEq, hx]

end Binary64

end ObjectDocument

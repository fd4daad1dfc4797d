import Mathlib
import MarkovLogic.Number

/-!
# The values of numbers

A number stands for an exact number, for one of the infinities, or for nothing (`Number.value`). The
value of a floating-point number is read off its bits: the magnitude of a finite one is a number of
equal small units (`Binary.magnitude_of_ofBits?`), and no other bits of exponent and significand
give as many units (`Bits.units_injective`). So comparing numbers compares their values, except that
what stands for nothing equals nothing (`Number.eqValue_iff`).
-/

namespace MarkovLogic

/-! ## Bits -/

namespace Bits

/-- The bits of the exponent. -/
def field (bits : Nat) : Nat :=
  bits / 2 ^ 52 % 2 ^ 11

/-- The bits of the significand. -/
def tail (bits : Nat) : Nat :=
  bits % 2 ^ 52

/-- How often the smallest positive value is contained in the magnitude of a finite value. -/
def units (bits : Nat) : Nat :=
  if field bits = 0 then tail bits else (2 ^ 52 + tail bits) * 2 ^ (field bits - 1)

variable {bits bits' : Nat}

theorem tail_lt (bits : Nat) : tail bits < 2 ^ 52 :=
  Nat.mod_lt _ (by decide)

/-- The bits are those of the sign, of the exponent and of the significand. -/
theorem eq_of_parts (h : bits < 2 ^ 64) (h' : bits' < 2 ^ 64)
    (hsign : bits / 2 ^ 63 = bits' / 2 ^ 63) (hfield : field bits = field bits')
    (htail : tail bits = tail bits') : bits = bits' := by
  simp only [field, tail] at hfield htail
  omega

theorem units_bounds (h : field bits ≠ 0) :
    2 ^ (52 + (field bits - 1)) ≤ units bits ∧ units bits < 2 ^ (52 + (field bits - 1) + 1) := by
  have htail : tail bits < 2 ^ 52 := tail_lt bits
  rw [units, if_neg h, Nat.add_right_comm, Nat.pow_add, Nat.pow_add]
  constructor
  · exact Nat.mul_le_mul_right _ (Nat.le_add_right _ _)
  · exact Nat.mul_lt_mul_of_pos_right (by omega) (Nat.two_pow_pos _)

theorem log2_units (h : field bits ≠ 0) : (units bits).log2 = 52 + (field bits - 1) := by
  have hbounds := units_bounds h
  exact (Nat.log2_eq_iff (by have := Nat.two_pow_pos (52 + (field bits - 1)); omega)).2 hbounds

theorem units_of_field_zero (h : field bits = 0) : units bits = tail bits :=
  if_pos h

theorem le_units (h : field bits ≠ 0) : 2 ^ 52 ≤ units bits :=
  (Nat.pow_le_pow_right (by decide) (Nat.le_add_right _ _)).trans (units_bounds h).1

/-- **The units determine the bits of exponent and significand.** -/
theorem units_injective (h : units bits = units bits') :
    field bits = field bits' ∧ tail bits = tail bits' := by
  have htail : tail bits < 2 ^ 52 := tail_lt bits
  have htail' : tail bits' < 2 ^ 52 := tail_lt bits'
  by_cases hzero : field bits = 0 <;> by_cases hzero' : field bits' = 0
  · rw [units_of_field_zero hzero, units_of_field_zero hzero'] at h
    exact ⟨hzero.trans hzero'.symm, h⟩
  · have hle := le_units hzero'
    rw [← h, units_of_field_zero hzero] at hle
    omega
  · have hle := le_units hzero
    rw [h, units_of_field_zero hzero'] at hle
    omega
  · have hlog : 52 + (field bits - 1) = 52 + (field bits' - 1) := by
      rw [← log2_units hzero, ← log2_units hzero', h]
    have hfield : field bits = field bits' := by omega
    rw [units, units, if_neg hzero, if_neg hzero', hfield] at h
    have hsum := Nat.eq_of_mul_eq_mul_right (Nat.two_pow_pos _) h
    exact ⟨hfield, by omega⟩

end Bits

namespace Binary

/-- The magnitude as an exact number. -/
def magnitude (b : Binary) : ℚ :=
  b.significand * 2 ^ b.power

theorem magnitude_eq_div (b : Binary) : b.magnitude = b.fraction.1 / b.fraction.2 := by
  obtain ⟨n, h | h⟩ := Int.eq_nat_or_neg b.power
  · simp [magnitude, fraction, h, twos]
  · simp [magnitude, fraction, h, twos, div_eq_mul_inv]

theorem fraction_snd_pos (b : Binary) : 0 < b.fraction.2 :=
  Nat.two_pow_pos _

theorem ofBits?_eq (bits : Nat) : ofBits? bits =
    if Bits.field bits = 2047 then none
    else if Bits.field bits = 0 then some ⟨Bits.tail bits, -1074, false⟩
    else some ⟨2 ^ 52 + Bits.tail bits, (Bits.field bits : Int) - 1075,
      Bits.tail bits = 0 && Bits.field bits ≠ 1⟩ :=
  rfl

theorem ofBits?_eq_none_iff {bits : Nat} : ofBits? bits = none ↔ Bits.field bits = 2047 := by
  rw [ofBits?_eq]
  split_ifs with h <;> simp [h]

/-- **The magnitude of a finite value is its units.** -/
theorem magnitude_of_ofBits? {bits : Nat} {b : Binary} (h : ofBits? bits = some b) :
    b.magnitude = Bits.units bits / 2 ^ 1074 := by
  rw [ofBits?_eq] at h
  split_ifs at h with hnone hzero
  · obtain rfl := Option.some.inj h
    rw [magnitude, Bits.units_of_field_zero hzero, zpow_neg, div_eq_mul_inv]
    rfl
  · obtain rfl := Option.some.inj h
    have hpower : (Bits.field bits : Int) - 1075 =
        ((Bits.field bits - 1 : Nat) : Int) - (1074 : Nat) := by omega
    have hunits : (Bits.units bits : ℚ) =
        (2 ^ 52 + Bits.tail bits : Nat) * 2 ^ (Bits.field bits - 1) := by
      rw [Bits.units, if_neg hzero, Nat.cast_mul, Nat.cast_pow, Nat.cast_ofNat]
    rw [hunits, magnitude, hpower, zpow_sub₀ (by norm_num), zpow_natCast, zpow_natCast,
      mul_div_assoc]

theorem magnitude_nonneg (b : Binary) : 0 ≤ b.magnitude := by
  unfold magnitude
  positivity

end Binary

/-! ## Floating-point values -/

section

variable {x y : Float}

open Float.Model.UnpackedFloat in
/-- What is no number has the largest exponent and some bit of the significand. -/
theorem isNaN_iff (x : Float) :
    x.isNaN = true ↔ Bits.field x.toBits.toNat = 2047 ∧ Bits.tail x.toBits.toNat ≠ 0 := by
  let bits : BitVec Float.Model.Format.binary64.numBits := x.toBits.toBitVec
  have hfield : (unpackExponent bits).toNat = Bits.field x.toBits.toNat := by
    rw [unpackExponent_def, BitVec.extractLsb'_toNat, Nat.shiftRight_eq_div_pow]
    rfl
  have htail : (unpackMantissa bits).toNat = Bits.tail x.toBits.toNat := by
    rw [unpackMantissa_def, BitVec.extractLsb'_toNat, Nat.shiftRight_zero]
    rfl
  have hexponent : unpackExponent bits = -1#_ ↔ Bits.field x.toBits.toNat = 2047 := by
    rw [← hfield, ← BitVec.toNat_inj]
    rfl
  have hmantissa : unpackMantissa bits = 0#_ ↔ Bits.tail x.toBits.toNat = 0 := by
    rw [← htail, ← BitVec.toNat_inj]
    rfl
  have hunpack : x.isNaN = (unpack Float.Model.Format.binary64 bits).isNaN := rfl
  rw [hunpack, unpack, ← hexponent, ne_eq, ← hmantissa]
  split_ifs with hlargest hinfinite hzero hsmall
  · exact iff_of_false Bool.false_ne_true fun h => h.2 hinfinite
  · exact iff_of_true rfl ⟨hlargest, hinfinite⟩
  all_goals exact iff_of_false Bool.false_ne_true fun h => hlargest h.1

/-- Bits that agree in sign, exponent and significand are those of one value. -/
theorem eq_of_bits (hsign : signBit x = signBit y)
    (hfield : Bits.field x.toBits.toNat = Bits.field y.toBits.toNat)
    (htail : Bits.tail x.toBits.toNat = Bits.tail y.toBits.toNat) : x = y := by
  have hx : x.toBits.toNat < 2 ^ 64 := x.toBits.toNat_lt
  have hy : y.toBits.toNat < 2 ^ 64 := y.toBits.toNat_lt
  have htop : x.toBits.toNat / 2 ^ 63 = y.toBits.toNat / 2 ^ 63 := by
    have hone : x.toBits.toNat / 2 ^ 63 = 1 ↔ y.toBits.toNat / 2 ^ 63 = 1 :=
      decide_eq_decide.1 hsign
    omega
  exact Float.toBits_inj.1 (UInt64.toNat_inj.1 (Bits.eq_of_parts hx hy htop hfield htail))

end

/-! ## Values -/

/-- What a number stands for. -/
inductive NumberValue where
  | undefined
  | infinite (negative : Bool)
  | exact (q : ℚ)
deriving DecidableEq

namespace Number

/-- What a floating-point value stands for. -/
def realValue (x : Float) : NumberValue :=
  match Binary.ofFloat? x with
  | none => if x.isNaN then .undefined else .infinite (signBit x)
  | some b => .exact (if signBit x then -b.magnitude else b.magnitude)

/-- What the number stands for. -/
def value : Number → NumberValue
  | .int n => .exact n
  | .real x => realValue x

variable {x y : Float}

theorem realValue_of_some {b : Binary} (h : Binary.ofFloat? x = some b) :
    realValue x = .exact (if signBit x then -b.magnitude else b.magnitude) := by
  rw [realValue, h]

theorem realValue_of_none (h : Binary.ofFloat? x = none) (hnan : ¬ x.isNaN = true) :
    realValue x = .infinite (signBit x) := by
  rw [realValue, h]
  exact if_neg hnan

theorem realValue_eq_undefined_iff : realValue x = .undefined ↔ x.isNaN = true := by
  cases h : Binary.ofFloat? x with
  | none => simp [realValue, h]
  | some b =>
    have hfield : Bits.field x.toBits.toNat ≠ 2047 := by
      intro hlargest
      rw [Binary.ofFloat?, Binary.ofBits?_eq_none_iff.2 hlargest] at h
      cases h
    rw [realValue_of_some h, isNaN_iff]
    simp [hfield]

theorem realValue_ne_exact (h : Binary.ofFloat? x = none) (q : ℚ) : realValue x ≠ .exact q := by
  by_cases hnan : x.isNaN = true
  · simp [realValue_eq_undefined_iff.2 hnan]
  · simp [realValue_of_none h hnan]

theorem bits_of_infinite (h : Binary.ofFloat? x = none) (hnan : ¬ x.isNaN = true) :
    Bits.field x.toBits.toNat = 2047 ∧ Bits.tail x.toBits.toNat = 0 := by
  have hfield : Bits.field x.toBits.toNat = 2047 := Binary.ofBits?_eq_none_iff.1 h
  refine ⟨hfield, ?_⟩
  by_contra hne
  exact hnan ((isNaN_iff x).2 ⟨hfield, hne⟩)

theorem eq_of_infinite (hx : Binary.ofFloat? x = none) (hy : Binary.ofFloat? y = none)
    (hnan : ¬ x.isNaN = true) (hnan' : ¬ y.isNaN = true) (hsign : signBit x = signBit y) :
    x = y := by
  obtain ⟨hfield, htail⟩ := bits_of_infinite hx hnan
  obtain ⟨hfield', htail'⟩ := bits_of_infinite hy hnan'
  exact eq_of_bits hsign (hfield.trans hfield'.symm) (htail.trans htail'.symm)

theorem eq_of_magnitude {b b' : Binary} (hx : Binary.ofFloat? x = some b)
    (hy : Binary.ofFloat? y = some b') (hsign : signBit x = signBit y)
    (h : b.magnitude = b'.magnitude) : x = y := by
  rw [Binary.magnitude_of_ofBits? hx, Binary.magnitude_of_ofBits? hy,
    div_left_inj' (pow_ne_zero _ two_ne_zero), Nat.cast_inj] at h
  obtain ⟨hfield, htail⟩ := Bits.units_injective h
  exact eq_of_bits hsign hfield htail

theorem ofFloat?_zero : Binary.ofFloat? 0 = some ⟨0, -1074, false⟩ := by
  decide

theorem ofFloat?_neg_zero : Binary.ofFloat? (-0) = some ⟨0, -1074, false⟩ := by
  decide

theorem magnitude_of_zero : Binary.magnitude ⟨0, -1074, false⟩ = 0 := by
  simp [Binary.magnitude]

theorem realValue_zero : realValue 0 = .exact 0 := by
  rw [realValue_of_some ofFloat?_zero, magnitude_of_zero]
  simp

theorem realValue_neg_zero : realValue (-0) = .exact 0 := by
  rw [realValue_of_some ofFloat?_neg_zero, magnitude_of_zero]
  simp

theorem eq_zero_of_magnitude {b : Binary} (hx : Binary.ofFloat? x = some b)
    (h : b.magnitude = 0) : x = if signBit x then -0 else 0 := by
  have hmagnitude : b.magnitude = Binary.magnitude ⟨0, -1074, false⟩ :=
    h.trans magnitude_of_zero.symm
  split
  · next hsign =>
    have hminus : signBit x = signBit (-0) := hsign.trans (by decide)
    exact eq_of_magnitude hx ofFloat?_neg_zero hminus hmagnitude
  · next hsign =>
    have hplus : signBit x = signBit 0 := (Bool.eq_false_iff.2 hsign).trans (by decide)
    exact eq_of_magnitude hx ofFloat?_zero hplus hmagnitude

theorem eq_or_zeros_of_exact {b b' : Binary} (hx : Binary.ofFloat? x = some b)
    (hy : Binary.ofFloat? y = some b') (h : (if signBit x then -b.magnitude else b.magnitude) =
      if signBit y then -b'.magnitude else b'.magnitude) :
    x = y ∨ (x = 0 ∧ y = -0) ∨ (x = -0 ∧ y = 0) := by
  have hb : 0 ≤ b.magnitude := b.magnitude_nonneg
  have hb' : 0 ≤ b'.magnitude := b'.magnitude_nonneg
  -- opposite signs leave room for zero only
  cases hsign : signBit x <;> cases hsign' : signBit y <;>
    simp only [hsign, hsign', if_true, if_false, Bool.false_eq_true] at h
  · exact .inl (eq_of_magnitude hx hy (hsign.trans hsign'.symm) h)
  · have hzero := eq_zero_of_magnitude hx (by linarith)
    have hzero' := eq_zero_of_magnitude hy (by linarith)
    exact .inr (.inl ⟨by simpa [hsign] using hzero, by simpa [hsign'] using hzero'⟩)
  · have hzero := eq_zero_of_magnitude hx (by linarith)
    have hzero' := eq_zero_of_magnitude hy (by linarith)
    exact .inr (.inr ⟨by simpa [hsign] using hzero, by simpa [hsign'] using hzero'⟩)
  · exact .inl (eq_of_magnitude hx hy (hsign.trans hsign'.symm) (neg_inj.1 h))

/-- **Floating-point values that stand for the same are the same or the two zeros.** -/
theorem eq_or_zeros_of_realValue (h : realValue x = realValue y)
    (hdefined : realValue x ≠ .undefined) :
    x = y ∨ (x = 0 ∧ y = -0) ∨ (x = -0 ∧ y = 0) := by
  have hnan : ¬ x.isNaN = true := fun hnan => hdefined (realValue_eq_undefined_iff.2 hnan)
  have hnan' : ¬ y.isNaN = true :=
    fun hnan => (h ▸ hdefined) (realValue_eq_undefined_iff.2 hnan)
  cases hx : Binary.ofFloat? x with
  | none =>
    rw [realValue_of_none hx hnan] at h
    cases hy : Binary.ofFloat? y with
    | none =>
      rw [realValue_of_none hy hnan', NumberValue.infinite.injEq] at h
      exact .inl (eq_of_infinite hx hy hnan hnan' h)
    | some b' =>
      rw [realValue_of_some hy] at h
      cases h
  | some b =>
    rw [realValue_of_some hx] at h
    cases hy : Binary.ofFloat? y with
    | none =>
      rw [realValue_of_none hy hnan'] at h
      cases h
    | some b' =>
      rw [realValue_of_some hy, NumberValue.exact.injEq] at h
      exact eq_or_zeros_of_exact hx hy h

theorem beq_iff_realValue : (x == y) = true ↔
    realValue x = realValue y ∧ realValue x ≠ .undefined := by
  have hdefined : ∀ z, realValue z ≠ .undefined ↔ z ≠ Float.nan := by
    intro z
    rw [ne_eq, realValue_eq_undefined_iff, Float.isNaN_eq_decide_eq_nan, decide_eq_true_eq]
  rw [Float.beq_iff_ne_nan_and_eq]
  constructor
  · rintro ⟨hx, -, rfl | ⟨rfl, rfl⟩ | ⟨rfl, rfl⟩⟩
    · exact ⟨rfl, (hdefined x).2 hx⟩
    · exact ⟨realValue_zero.trans realValue_neg_zero.symm, (hdefined 0).2 hx⟩
    · exact ⟨realValue_neg_zero.trans realValue_zero.symm, (hdefined (-0)).2 hx⟩
  · rintro ⟨h, hx⟩
    exact ⟨(hdefined x).1 hx, (hdefined y).1 (h ▸ hx), eq_or_zeros_of_realValue h hx⟩

/-! ## Comparison -/

/-- A whole number is the signed magnitude if it has this size and not the other sign. -/
theorem signed_eq_iff {m : ℚ} {n : Int} {negative : Bool} (hm : 0 ≤ m) :
    (if negative then -m else m) = n ↔
      (n.natAbs : ℚ) = m ∧ (n = 0 ∨ decide (n < 0) = negative) := by
  rw [Nat.cast_natAbs, Int.cast_abs]
  rcases lt_trichotomy n 0 with hn | rfl | hn
  · have hcast : (n : ℚ) < 0 := Int.cast_lt_zero.2 hn
    rw [abs_of_neg hcast, decide_eq_true hn]
    cases negative
    · simp only [Bool.false_eq_true, if_false, hn.ne, or_false, Bool.true_eq_false, and_false,
        iff_false]
      linarith
    · simp only [if_true, or_true, and_true]
      constructor <;> intro h <;> linarith
  · cases negative <;> simp [eq_comm]
  · have hcast : 0 < (n : ℚ) := Int.cast_pos.2 hn
    rw [abs_of_pos hcast, decide_eq_false hn.not_gt]
    cases negative
    · simp only [Bool.false_eq_true, if_false, or_true, and_true]
      exact eq_comm
    · simp only [if_true, hn.ne', or_false, Bool.false_eq_true, and_false, iff_false]
      linarith

theorem intEqReal_iff {n : Int} : intEqReal n x = true ↔ realValue x = .exact n := by
  cases hx : Binary.ofFloat? x with
  | none =>
    rw [intEqReal, hx]
    exact iff_of_false Bool.false_ne_true (realValue_ne_exact hx n)
  | some b =>
    have hpos : (b.fraction.2 : ℚ) ≠ 0 := Nat.cast_ne_zero.2 b.fraction_snd_pos.ne'
    have hsize : n.natAbs * b.fraction.2 = b.fraction.1 ↔ (n.natAbs : ℚ) = b.magnitude := by
      rw [b.magnitude_eq_div, eq_div_iff hpos, ← Nat.cast_mul, Nat.cast_inj]
    rw [realValue_of_some hx, NumberValue.exact.injEq, signed_eq_iff b.magnitude_nonneg, ← hsize,
      intEqReal, hx]
    simp

/-- **Numbers are equal if they stand for the same**, but what stands for nothing equals nothing. -/
theorem eqValue_iff {a b : Number} :
    a.eqValue b = true ↔ a.value = b.value ∧ a.value ≠ .undefined := by
  cases a with
  | int m =>
    cases b with
    | int n => simp [eqValue, value]
    | real y =>
      rw [eqValue, intEqReal_iff, value, value, eq_comm]
      exact (and_iff_left (by simp)).symm
  | real x =>
    cases b with
    | int n =>
      rw [eqValue, intEqReal_iff, value, value]
      exact ⟨fun h => ⟨h, by simp [h]⟩, fun h => h.1⟩
    | real y => exact beq_iff_realValue

end Number

end MarkovLogic

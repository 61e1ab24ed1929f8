import Montage.Proofs.Number.Bits

/-!
# The exact value of a floating-point number

A finite number other than zero is a mantissa of 53 bits times a power of two; only with the
least power the mantissa may be shorter (`Number.IsCanonical`).  Numbers that are put together
this way are read as they were put together, and one number is less than another when its
exact value is.
-/

namespace Montage
namespace Number

open Float.Model
open Float.Model.UnpackedFloat

/-- The exact value of a number; what is not finite counts as zero. -/
def exact (number : Float) : Rat :=
  match Readable.reading number with
  | .finite value => value
  | _ => 0

/-- A finite number is read as its exact value. -/
theorem isFinite_iff_reading {number : Float} :
    isFinite number = true ↔ Readable.reading number = .finite (exact number) := by
  unfold isFinite exact
  cases Readable.reading number <;> simp

theorem exact_of_reading
    {number : Float}
    {value : Rat}
    (reading : Readable.reading number = .finite value) :
    exact number = value := by
  rw [exact, reading]

theorem isFinite_of_reading
    {number : Float}
    {value : Rat}
    (reading : Readable.reading number = .finite value) :
    isFinite number = true := by
  rw [isFinite, reading]

/-- A rational with a sign. -/
def signed (sign : Sign) (magnitude : Rat) : Rat :=
  match sign with
  | .negative => -magnitude
  | .positive => magnitude

@[simp] theorem cast_apply
    (sign : Sign)
    (number : Nat) :
    ((sign.apply number : Int) : Rat) = signed sign number := by
  cases sign <;> simp [Sign.apply, signed]

theorem signed_mul
    (sign : Sign)
    (magnitude factor : Rat) :
    signed sign magnitude * factor = signed sign (magnitude * factor) := by
  cases sign <;> simp [signed]

theorem abs_signed
    (sign : Sign)
    (magnitude : Rat) :
    |signed sign magnitude| = |magnitude| := by
  cases sign <;> simp [signed]

/-! ## Canonical numbers -/

/-- A mantissa and a power as they are kept in a finite number other than zero. -/
structure IsCanonical
    (mantissa : Nat)
    (exponent : Int) : Prop where
  /-- The mantissa is not zero. -/
  pos : 0 < mantissa
  /-- The mantissa has at most 53 bits. -/
  lt : mantissa < 2 ^ 53
  /-- It has no fewer, unless the power is the least. -/
  full_or_least : 2 ^ 52 ≤ mantissa ∨ exponent = -1074
  /-- The power is no less than the least. -/
  least : -1074 ≤ exponent
  /-- The power is no greater than the greatest. -/
  greatest : exponent ≤ 971

theorem isCanonical_of_unpack
    {number : Float.Model}
    {sign : Sign}
    {mantissa : Nat}
    {exponent : Int}
    {positive : 0 < mantissa}
    (unpacked : number.unpack = .finite sign mantissa exponent positive) :
    IsCanonical mantissa exponent := by
  rcases unpack_cases number with ⟨-, infinite⟩ | ⟨-, _, isZero⟩ |
    ⟨_, _, _, _, isFinite, below, power, short, full⟩
  · rw [unpacked] at infinite
    cases infinite
  · rw [unpacked] at isZero
    cases isZero
  · obtain ⟨-, rfl, rfl⟩ := UnpackedFloat.finite.inj (unpacked.symm.trans isFinite)
    have nonzero := Nat.ne_of_gt positive
    refine ⟨positive, (Nat.log2_lt nonzero).mp short, ?_, by omega, by omega⟩
    rcases Nat.eq_zero_or_pos (powerBits number) with first | later
    · exact Or.inr (by omega)
    · exact Or.inl ((Nat.le_log2 nonzero).mp (full later).ge)

theorem unpackSign_packComponents
    {format : Format}
    (sign : Sign)
    (exponent : BitVec format.exponentBits)
    (mantissa : BitVec format.mantissaBitsWithoutImplicit) :
    unpackSign (packComponents format sign exponent mantissa) = sign.toBitVec := by
  apply BitVec.eq_of_getLsbD_eq
  intro index inside
  obtain rfl : index = 0 := by omega
  simp [unpackSign, packComponents, BitVec.getLsbD_append, BitVec.getElem_append]

@[simp] theorem ofBitVec_toBitVec (sign : Sign) : Sign.ofBitVec sign.toBitVec = sign := by
  cases sign <;> rfl

/-- A canonical number is unpacked as it was packed. -/
theorem unpack_pack
    {mantissa : Nat}
    {exponent : Int}
    (canonical : IsCanonical mantissa exponent)
    (sign : Sign)
    (positive : 0 < mantissa) :
    (Float.Model.pack (.finite sign mantissa exponent positive)).unpack =
      .finite sign mantissa exponent positive := by
  obtain ⟨-, short, fullOrLeast, least, greatest⟩ := canonical
  have small : ¬ 2 ^ Format.binary64.exponentBits ≤
      (exponent + (1023 : Nat) + (52 : Nat)).toNat + 1 := by
    change ¬ 2048 ≤ _
    omega
  unfold Float.Model.unpack Float.Model.pack UnpackedFloat.pack
  simp only [exponentBias_binary64, mantissaBits_binary64]
  rw [if_neg small]
  unfold UnpackedFloat.unpack
  by_cases long : 2 ^ 52 ≤ mantissa
  · have log : mantissa.log2 + 1 = 53 := by
      rw [(Nat.log2_eq_iff (Nat.ne_of_gt positive)).mpr ⟨long, short⟩]
    have power : (BitVec.ofNat 11 (exponent + (1023 : Nat) + (52 : Nat)).toNat).toNat =
        (exponent + (1023 : Nat) + (52 : Nat)).toNat := by
      rw [BitVec.toNat_ofNat]
      omega
    have notLast : BitVec.ofNat 11 (exponent + (1023 : Nat) + (52 : Nat)).toNat ≠ -1#_ := by
      intro same
      have := congrArg BitVec.toNat same
      rw [power] at this
      change _ = 2047 at this
      omega
    have notFirst : BitVec.ofNat 11 (exponent + (1023 : Nat) + (52 : Nat)).toNat ≠ 0#_ := by
      intro same
      have := congrArg BitVec.toNat same
      rw [power] at this
      change _ = 0 at this
      omega
    have joined : (1#1 ++ BitVec.ofNat 52 mantissa).toNat = mantissa := by
      rw [BitVec.toNat_append, ← Nat.shiftLeft_add_eq_or_of_lt (BitVec.isLt _)]
      change 1 <<< 52 + mantissa % 2 ^ 52 = mantissa
      omega
    simp only [if_pos log, unpackExponent_packComponents, unpackMantissa_packComponents,
      unpackSign_packComponents, ofBitVec_toBitVec, if_neg notLast, if_neg notFirst, joined, power,
      exponentBias_binary64]
    congr 1
    omega
  · obtain rfl : exponent = -1074 := by omega
    have log : ¬ mantissa.log2 + 1 = 53 := by
      have := (Nat.log2_lt (Nat.ne_of_gt positive)).mpr (Nat.lt_of_not_le long)
      omega
    have kept : (BitVec.ofNat 52 mantissa).toNat = mantissa := by
      rw [BitVec.toNat_ofNat]
      omega
    have nonzero : BitVec.ofNat 52 mantissa ≠ 0#_ := by
      intro same
      have := congrArg BitVec.toNat same
      rw [kept] at this
      change _ = 0 at this
      omega
    have notLast : (0#11) ≠ -1#_ := by decide
    simp only [if_neg log, unpackExponent_packComponents, unpackMantissa_packComponents,
      unpackSign_packComponents, ofBitVec_toBitVec, if_neg notLast, if_pos, dif_neg nonzero, kept,
      exponentBias_binary64]
    rfl

/-- A number with too great a power is packed as an infinity. -/
theorem unpack_pack_of_lt
    {mantissa : Nat}
    {exponent : Int}
    (large : 971 < exponent)
    (sign : Sign)
    (positive : 0 < mantissa) :
    (Float.Model.pack (.finite sign mantissa exponent positive)).unpack = .infinity sign := by
  have beyond : 2 ^ Format.binary64.exponentBits ≤
      (exponent + (1023 : Nat) + (52 : Nat)).toNat + 1 := by
    change 2048 ≤ _
    omega
  unfold Float.Model.unpack Float.Model.pack UnpackedFloat.pack
  simp only [exponentBias_binary64]
  rw [if_pos beyond]
  cases sign <;> rfl

/-! ## Readings -/

/-- What a finite number is taken apart into: zero, or a canonical number with a sign. -/
inductive Unpacks : UnpackedFloat → Rat → Prop where
  | zero (sign : Sign) : Unpacks (.zero sign) 0
  | finite
      (sign : Sign)
      {mantissa : Nat}
      {exponent : Int}
      (positive : 0 < mantissa)
      (canonical : IsCanonical mantissa exponent) :
      Unpacks (.finite sign mantissa exponent positive)
        (signed sign (mantissa * (2 : Rat) ^ exponent))

theorem unpacks_of_isFinite
    {number : Float}
    (finite : isFinite number = true) :
    Unpacks number.toModel.unpack (exact number) := by
  have reading := isFinite_iff_reading.mp finite
  change Reading.ofUnpacked number.toModel.unpack = _ at reading
  cases unpacked : number.toModel.unpack with
  | notANumber =>
      rw [unpacked] at reading
      cases reading
  | infinity sign =>
      rw [unpacked] at reading
      cases reading
  | zero sign =>
      rw [unpacked] at reading
      rw [← Reading.finite.inj reading]
      exact .zero sign
  | finite sign mantissa exponent positive =>
      rw [unpacked] at reading
      rw [← Reading.finite.inj reading, cast_apply, signed_mul]
      exact .finite sign positive (isCanonical_of_unpack unpacked)

/-- What a number is read as that is put together from its parts. -/
def packed (unpacked : UnpackedFloat) : Reading :=
  .ofUnpacked (Float.Model.pack unpacked).unpack

@[simp] theorem packed_zero (sign : Sign) : packed (.zero sign) = .finite 0 := by
  cases sign <;> rfl

@[simp] theorem packed_infinity (sign : Sign) :
    packed (.infinity sign) = .infinite (sign == .negative) := by
  cases sign <;> rfl

@[simp] theorem packed_notANumber : packed .notANumber = .undefined := rfl

theorem Unpacks.packed_eq
    {unpacked : UnpackedFloat}
    {value : Rat}
    (unpacks : Unpacks unpacked value) :
    packed unpacked = .finite value := by
  cases unpacks with
  | zero sign => exact packed_zero sign
  | finite sign positive canonical =>
      rw [packed, unpack_pack canonical, Reading.ofUnpacked, cast_apply, signed_mul]

theorem unpack_of_infinite
    {number : Float}
    {negative : Bool}
    (infinite : Readable.reading number = .infinite negative) :
    ∃ sign, number.toModel.unpack = .infinity sign ∧ (sign == .negative) = negative := by
  change Reading.ofUnpacked number.toModel.unpack = _ at infinite
  cases unpacked : number.toModel.unpack with
  | infinity sign =>
      rw [unpacked] at infinite
      exact ⟨sign, rfl, Reading.infinite.inj infinite⟩
  | notANumber => simp [unpacked, Reading.ofUnpacked] at infinite
  | zero sign => simp [unpacked, Reading.ofUnpacked] at infinite
  | finite sign mantissa exponent positive => simp [unpacked, Reading.ofUnpacked] at infinite

theorem unpack_of_undefined
    {number : Float}
    (undefined : Readable.reading number = .undefined) :
    number.toModel.unpack = .notANumber := by
  change Reading.ofUnpacked number.toModel.unpack = _ at undefined
  cases unpacked : number.toModel.unpack <;> simp_all [Reading.ofUnpacked]

/-! ## Order -/

/-- With a greater power a canonical number is greater. -/
theorem IsCanonical.lt_of_lt
    {mantissa mantissa' : Nat}
    {exponent exponent' : Int}
    (canonical : IsCanonical mantissa exponent)
    (canonical' : IsCanonical mantissa' exponent')
    (less : exponent < exponent') :
    mantissa * (2 : Rat) ^ exponent < mantissa' * (2 : Rat) ^ exponent' := by
  have short : (mantissa : Rat) < 2 ^ 53 := by exact_mod_cast canonical.lt
  have long : (2 : Rat) ^ 52 ≤ mantissa' := by
    have full : 2 ^ 52 ≤ mantissa' :=
      canonical'.full_or_least.resolve_right (by have := canonical.least; omega)
    exact_mod_cast full
  have powers : (2 : Rat) ^ (exponent + 1) ≤ 2 ^ exponent' :=
    zpow_le_zpow_right₀ (by norm_num) less
  calc mantissa * (2 : Rat) ^ exponent
    _ < 2 ^ 53 * 2 ^ exponent := mul_lt_mul_of_pos_right short (by positivity)
    _ = 2 ^ 52 * 2 ^ (exponent + 1) := by rw [zpow_add_one₀ two_ne_zero]; ring
    _ ≤ mantissa' * 2 ^ exponent' := mul_le_mul long powers (by positivity) (by positivity)

/-- Canonical numbers are ordered by their powers and then by their mantissas. -/
theorem IsCanonical.compare_eq
    {mantissa mantissa' : Nat}
    {exponent exponent' : Int}
    (canonical : IsCanonical mantissa exponent)
    (canonical' : IsCanonical mantissa' exponent') :
    (compare exponent exponent').then (compare mantissa mantissa') =
      cmp (mantissa * (2 : Rat) ^ exponent) (mantissa' * (2 : Rat) ^ exponent') := by
  rcases lt_trichotomy exponent exponent' with less | rfl | greater
  · rw [compare_lt_iff_lt.mpr less, (cmp_eq_lt_iff _ _).mpr (canonical.lt_of_lt canonical' less)]
    rfl
  · have positive : (0 : Rat) < 2 ^ exponent := by positivity
    rw [compare_eq_iff_eq.mpr rfl, cmp_mul_pos_right positive, Nat.strictMono_cast.cmp_map_eq,
      cmp_eq_compare]
    rfl
  · rw [compare_gt_iff_gt.mpr greater,
      (cmp_eq_gt_iff _ _).mpr (canonical'.lt_of_lt canonical greater)]
    rfl

/-- What finite numbers are taken apart into compares as their exact values do. -/
theorem Unpacks.compare_eq
    {unpacked unpacked' : UnpackedFloat}
    {value value' : Rat}
    (unpacks : Unpacks unpacked value)
    (unpacks' : Unpacks unpacked' value') :
    unpacked.compare unpacked' = some (cmp value value') := by
  have isPositive : ∀ {mantissa : Nat} {exponent : Int}, IsCanonical mantissa exponent →
      (0 : Rat) < mantissa * 2 ^ exponent := fun canonical =>
    mul_pos (Nat.cast_pos.mpr canonical.pos) (by positivity)
  cases unpacks with
  | zero sign =>
      cases unpacks' with
      | zero sign' =>
          rw [cmp_self_eq_eq]
          rfl
      | finite sign' positive' canonical' =>
          have above := isPositive canonical'
          cases sign' with
          | positive => rw [signed, (cmp_eq_lt_iff _ _).mpr above]; rfl
          | negative => rw [signed, (cmp_eq_gt_iff _ _).mpr (neg_lt_zero.mpr above)]; rfl
  | finite sign positive canonical =>
      have above := isPositive canonical
      cases unpacks' with
      | zero sign' =>
          cases sign with
          | positive => rw [signed, (cmp_eq_gt_iff _ _).mpr above]; rfl
          | negative => rw [signed, (cmp_eq_lt_iff _ _).mpr (neg_lt_zero.mpr above)]; rfl
      | finite sign' positive' canonical' =>
          have above' := isPositive canonical'
          cases sign <;> cases sign'
          · have antitone : StrictAnti fun value : Rat => -value := fun _ _ => neg_lt_neg
            simp only [UnpackedFloat.compare, signed, canonical.compare_eq canonical', cmp_swap]
            exact congrArg some (antitone.cmp_map_eq _ _).symm
          · rw [signed, signed, (cmp_eq_lt_iff _ _).mpr (by linarith)]
            rfl
          · rw [signed, signed, (cmp_eq_gt_iff _ _).mpr (by linarith)]
            rfl
          · exact congrArg some (canonical.compare_eq canonical')

section Order

variable {number other : Float}

/-- Finite numbers compare as their exact values do. -/
theorem compare_eq_cmp_exact
    (finite : isFinite number = true)
    (otherFinite : isFinite other = true) :
    number.toModel.unpack.compare other.toModel.unpack =
      some (cmp (exact number) (exact other)) :=
  (unpacks_of_isFinite finite).compare_eq (unpacks_of_isFinite otherFinite)

theorem lt_iff_exact_lt
    (finite : isFinite number = true)
    (otherFinite : isFinite other = true) :
    number < other ↔ exact number < exact other := by
  change decide (UnpackedFloat.lt _ _ = true) = true ↔ _
  rw [decide_eq_true_iff, UnpackedFloat.lt, compare_eq_cmp_exact finite otherFinite]
  simp [cmp_eq_lt_iff]

theorem le_iff_exact_le
    (finite : isFinite number = true)
    (otherFinite : isFinite other = true) :
    number ≤ other ↔ exact number ≤ exact other := by
  change decide (UnpackedFloat.le _ _ = true) = true ↔ _
  rw [decide_eq_true_iff, UnpackedFloat.le, compare_eq_cmp_exact finite otherFinite]
  rw [← not_lt, ← cmp_eq_gt_iff]
  cases cmp (exact number) (exact other) <;> simp

end Order

end Number
end Montage

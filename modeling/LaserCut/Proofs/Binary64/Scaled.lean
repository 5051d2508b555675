import Mathlib.Algebra.Group.Nat.Defs
import LaserCut.Binary64

/-!
# Binary64 numbers of few digits

Arithmetic is exact on the numbers `m * 2 ^ e` whose `m` has at most 53 binary digits, as long as
the results have no more.

* `scaled m e`: the number `m * 2 ^ e`, its mantissa brought to 53 digits;
* `add_scaled`, `div_scaled`: sums, and quotients by powers of two;
* `scaled_lt_scaled`: numbers in order;
* `ofNat_eq_scaled`: the numbers that numerals without a fraction stand for.
-/

namespace LaserCut.Binary64

open Float.Model Float.Model.UnpackedFloat

/-- A number without a sign, as it is kept if its mantissa has 53 digits. -/
def unsigned (m : Nat) (e : Int) : UnpackedFloat :=
  if h : m = 0 then .zero .positive else .finite .positive m e (Nat.pos_of_ne_zero h)

/-- How far a mantissa has to be shifted to have 53 digits. -/
def room (m : Nat) : Nat := 52 - m.log2

/-- The number `m * 2 ^ e`, before it is packed. -/
def scaledParts (m : Nat) (e : Int) : UnpackedFloat := unsigned (m <<< room m) (e - room m)

/-- The number `m * 2 ^ e`. -/
def scaled (m : Nat) (e : Int) : Float := .ofModel (pack (scaledParts m e))

theorem unsigned_of_ne_zero {m : Nat} (h : m ≠ 0) (e : Int) :
    unsigned m e = .finite .positive m e (Nat.pos_of_ne_zero h) := dif_neg h

/-! ## Mantissas -/

theorem shiftLeft_ne_zero {m : Nat} (h : m ≠ 0) (k : Nat) : m <<< k ≠ 0 := by
  rw [Nat.shiftLeft_eq]
  exact Nat.mul_ne_zero h (Nat.ne_of_gt (Nat.two_pow_pos k))

theorem log2_shiftLeft {m : Nat} (h : m ≠ 0) (k : Nat) : (m <<< k).log2 = m.log2 + k := by
  induction k with
  | zero => rfl
  | succ k ih =>
    rw [Nat.shiftLeft_succ, Nat.log2_two_mul (shiftLeft_ne_zero h k), ih]
    omega

theorem log2_le_of_lt {m : Nat} (hm : m < 2 ^ 53) : m.log2 ≤ 52 := by
  by_cases h : m = 0
  · rw [h]
    decide
  · exact Nat.le_of_lt_succ ((Nat.log2_lt h).mpr hm)

theorem log2_shiftLeft_room {m : Nat} (h : m ≠ 0) (hm : m < 2 ^ 53) :
    (m <<< room m).log2 = 52 := by
  have := log2_le_of_lt hm
  rw [log2_shiftLeft h, room]
  omega

theorem log2_le_log2 {a b : Nat} (ha : a ≠ 0) (h : a ≤ b) : a.log2 ≤ b.log2 :=
  (Nat.le_log2 (by omega)).mpr (Nat.le_trans (Nat.log2_self_le ha) h)

theorem scaledParts_of_ne_zero {m : Nat} (h : m ≠ 0) (e : Int) :
    scaledParts m e =
      .finite .positive (m <<< room m) (e - room m) (Nat.pos_of_ne_zero (shiftLeft_ne_zero h _)) :=
  unsigned_of_ne_zero (shiftLeft_ne_zero h _) _

/-- Doubling the mantissa is as good as raising the exponent. -/
theorem scaled_two_mul (m : Nat) (hm : 2 * m < 2 ^ 53) (e : Int) :
    scaled (2 * m) e = scaled m (e + 1) := by
  by_cases h : m = 0
  · rw [h]
    rfl
  · have room_eq : room m = room (2 * m) + 1 := by
      have := log2_le_of_lt hm
      rw [Nat.log2_two_mul h] at this
      rw [room, room, Nat.log2_two_mul h]
      omega
    have mantissa : m <<< room m = (2 * m) <<< room (2 * m) := by
      rw [room_eq, Nat.add_comm, Nat.shiftLeft_add, Nat.shiftLeft_eq m, Nat.pow_one, Nat.mul_comm]
    have exponent : e + 1 - (room m : Int) = e - room (2 * m) := by omega
    rw [scaled, scaled, scaledParts, scaledParts, mantissa, exponent]

/-! ## Rounding -/

/-- A mantissa that was shifted up can be shifted down without loss. -/
theorem shiftRight_shiftLeft (m k : Nat) :
    (⟨m <<< k, false, false⟩ : ExtendedMantissa) >>> k = ⟨m, false, false⟩ := by
  induction k generalizing m with
  | zero => rfl
  | succ k ih =>
    have step : (⟨m <<< (k + 1), false, false⟩ : ExtendedMantissa) >>> (k + 1) =
        ((⟨(m <<< 1) <<< k, false, false⟩ : ExtendedMantissa) >>> k).shiftRightOne := by
      rw [← Nat.shiftLeft_add, Nat.add_comm 1]
      rfl
    rw [step, ih, ExtendedMantissa.shiftRightOne]
    simp only [Nat.shiftLeft_eq, Nat.pow_one, Nat.mul_div_cancel _ Nat.two_pos, Nat.mul_mod_left]
    rfl

/-- A number has 53 digits if its exponent may be so low. -/
theorem targetExponent_eq (e : Int) : Format.binary64.targetExponent e = max (e - 53) (-1074) := rfl

theorem shiftToTargetExponent_shiftLeft {m : Nat} (h : m.log2 = 52) {e : Int} (he : -1074 ≤ e)
    (k : Nat) :
    shiftToTargetExponent Format.binary64 (m <<< k) (e - k) .exact = (⟨m, false, false⟩, e) := by
  have ne : m ≠ 0 := by
    intro zero
    rw [zero] at h
    cases h
  have target :
      Format.binary64.targetExponent (totalExponent (m <<< k) (e - k)) = e := by
    rw [totalExponent, log2_shiftLeft ne, h, targetExponent_eq]
    omega
  have shift : (e - (e - (k : Int))).toNat = k := by omega
  have exponent : e - (k : Int) + k = e := by omega
  rw [shiftToTargetExponent, target, shiftToExponent, shift, exponent]
  exact congrArg (·, e) (shiftRight_shiftLeft m k)

/-- Rounding keeps a mantissa of 53 digits, however far it was shifted up. -/
theorem roundWithAccuracy_shiftLeft {m : Nat} (h : m.log2 = 52) {e : Int} (he : -1074 ≤ e)
    (k : Nat) :
    roundWithAccuracy Format.binary64 .positive (m <<< k) (e - k) .exact = unsigned m e := by
  have again : shiftToTargetExponent Format.binary64 m e .exact = (⟨m, false, false⟩, e) := by
    have := shiftToTargetExponent_shiftLeft h he 0
    rwa [Nat.shiftLeft_zero, Int.natCast_zero, Int.sub_zero] at this
  have rounded : (⟨m, false, false⟩ : ExtendedMantissa).roundedMantissa = m := rfl
  rw [roundWithAccuracy, shiftToTargetExponent_shiftLeft h he]
  dsimp only
  rw [rounded, again]
  rfl

/-- A mantissa of few digits is kept, shifted to where it has 53 of them. -/
theorem round_shiftLeft {m : Nat} (h : m ≠ 0) (hm : m < 2 ^ 53) {e : Int} (he : -1022 ≤ e)
    (k : Nat) :
    UnpackedFloat.round Format.binary64 .positive (m <<< k) (e - k) = scaledParts m e := by
  have digits := log2_le_of_lt hm
  have full := log2_shiftLeft_room h hm
  have target : Format.binary64.targetExponent (totalExponent (m <<< k) (e - k)) =
      e - room m := by
    rw [totalExponent, log2_shiftLeft h, targetExponent_eq, room]
    omega
  have shift : (e - (k : Int) - (e - room m)).toNat = room m - k := by omega
  have low : -1074 ≤ e - room m := by
    rw [room]
    omega
  rw [UnpackedFloat.round, target, decreaseExponent, shift, scaledParts]
  show roundWithAccuracy _ _ ((m <<< k) <<< (room m - k)) (e - k - (room m - k : Nat)) _ = _
  rw [← Nat.shiftLeft_add]
  -- Either the mantissa is shifted up to its 53 digits, or it is beyond them already.
  rcases Nat.le_total k (room m) with le | le
  · have exponent : e - (k : Int) - (room m - k : Nat) = e - room m - (0 : Nat) := by omega
    have mantissa : m <<< (k + (room m - k)) = (m <<< room m) <<< 0 := by
      rw [Nat.add_sub_cancel' le]
      rfl
    rw [exponent, mantissa]
    exact roundWithAccuracy_shiftLeft full low 0
  · have exponent : e - (k : Int) - (room m - k : Nat) =
        e - room m - (k - room m : Nat) := by omega
    have mantissa : m <<< (k + (room m - k)) = (m <<< room m) <<< (k - room m) := by
      rw [← Nat.shiftLeft_add]
      congr 1
      omega
    rw [exponent, mantissa]
    exact roundWithAccuracy_shiftLeft full low (k - room m)

/-! ## Packing -/

theorem finite_congr {s t : Sign} {m n : Nat} {e f : Int} {hm : 0 < m} {hn : 0 < n} (hs : s = t)
    (h : m = n) (he : e = f) : UnpackedFloat.finite s m e hm = .finite t n f hn := by
  subst hs h he
  rfl

theorem unpackSign_packComponents (spec : Format) (s : Sign) (e : BitVec spec.exponentBits)
    (m : BitVec spec.mantissaBitsWithoutImplicit) :
    unpackSign (packComponents spec s e m) = s.toBitVec := by
  apply BitVec.eq_of_getLsbD_eq
  intro i hi
  obtain rfl : i = 0 := by omega
  show (BitVec.cast _ (BitVec.extractLsb _ _ (s.toBitVec ++ e ++ m))).getLsbD 0 = _
  simp [BitVec.getLsbD_append, BitVec.getElem_append]

/-- The leading digit of a mantissa is left out when it is packed. -/
theorem toNat_one_append {m : Nat} (h : m.log2 = 52) :
    ((1#1 : BitVec 1) ++ BitVec.ofNat 52 m).toNat = m := by
  have ne : m ≠ 0 := by
    intro zero
    rw [zero] at h
    cases h
  obtain ⟨low, high⟩ := (Nat.log2_eq_iff ne).mp h
  rw [BitVec.toNat_append, ← Nat.shiftLeft_add_eq_or_of_lt (BitVec.isLt _), BitVec.toNat_ofNat,
    BitVec.toNat_ofNat, Nat.shiftLeft_eq]
  omega

/-- A number with a mantissa of 53 digits is read back from its bits. -/
theorem unpack_pack_full {m : Nat} (h : m.log2 = 52) {e : Int} (low : -1074 ≤ e) (high : e ≤ 971)
    (s : Sign) (hm : 0 < m) : (pack (.finite s m e hm)).unpack = .finite s m e hm := by
  let b := (e + 1023 + 52).toNat
  let v := packComponents Format.binary64 s (BitVec.ofNat 11 b) (BitVec.ofNat 52 m)
  have packed : UnpackedFloat.pack Format.binary64 (.finite s m e hm) = v := by
    show (if 2 ^ 11 ≤ b + 1 then _ else if m.log2 + 1 = 53 then _ else _) = _
    rw [if_neg (by omega), if_pos (by omega)]
    rfl
  have exponent : unpackExponent v = BitVec.ofNat 11 b := unpackExponent_packComponents ..
  have mantissa : unpackMantissa v = BitVec.ofNat 52 m := unpackMantissa_packComponents ..
  have sign : Sign.ofBitVec (unpackSign v) = s := by
    rw [unpackSign_packComponents]
    cases s <;> rfl
  have biased : (BitVec.ofNat 11 b).toNat = b := by
    rw [BitVec.toNat_ofNat]
    omega
  have finite : unpackExponent v ≠ -1#11 := by
    intro same
    rw [exponent] at same
    rw [same] at biased
    have : b = 2047 := biased.symm
    omega
  have normal : unpackExponent v ≠ 0#11 := by
    intro same
    rw [exponent] at same
    rw [same] at biased
    have : b = 0 := biased.symm
    omega
  show UnpackedFloat.unpack Format.binary64 (UnpackedFloat.pack Format.binary64 _) = _
  rw [packed]
  show (if unpackExponent v = -1#11 then _ else if unpackExponent v = 0#11 then _ else
    UnpackedFloat.finite (Sign.ofBitVec (unpackSign v)) (1#1 ++ unpackMantissa v).toNat
      (((unpackExponent v).toNat : Int) - (1023 + 52)) _) = _
  rw [if_neg finite, if_neg normal]
  refine finite_congr sign ?_ ?_
  · rw [mantissa, toNat_one_append h]
  · rw [exponent, biased]
    omega

theorem unpack_pack_unsigned {m : Nat} (h : m.log2 = 52) {e : Int} (low : -1074 ≤ e)
    (high : e ≤ 971) : (pack (unsigned m e)).unpack = unsigned m e := by
  have ne : m ≠ 0 := by
    intro zero
    rw [zero] at h
    cases h
  rw [unsigned_of_ne_zero ne]
  exact unpack_pack_full h low high .positive _

theorem unpack_scaled {m : Nat} (hm : m < 2 ^ 53) {e : Int} (low : -1022 ≤ e) (high : e ≤ 971) :
    (scaled m e).toModel.unpack = scaledParts m e := by
  by_cases h : m = 0
  · have zero : scaledParts 0 e = .zero .positive := rfl
    rw [h, scaled, zero]
    rfl
  · have : room m ≤ 52 := Nat.sub_le ..
    exact unpack_pack_unsigned (log2_shiftLeft_room h hm) (by omega) (by omega)

/-! ## Sums and quotients -/

theorem add_finite (spec : Format) (s t : Sign) {m n : Nat} (e f : Int) (hm : 0 < m) (hn : 0 < n) :
    UnpackedFloat.add spec (.finite s m e hm) (.finite t n f hn) =
      normalize spec (s.apply (decreaseExponent m e (min e f)).1 +
        t.apply (decreaseExponent n f (min e f)).1) (min e f) .positive :=
  rfl

theorem div_finite (spec : Format) (s t : Sign) {m n : Nat} (e f : Int) (hm : 0 < m) (hn : 0 < n) :
    UnpackedFloat.div spec (.finite s m e hm) (.finite t n f hn) =
      roundWithAccuracy spec (s / t) (divCore spec m e n f).1 (divCore spec m e n f).2.1
        (divCore spec m e n f).2.2 :=
  rfl

theorem add_scaledParts {a b : Nat} (h : a + b < 2 ^ 53) {e : Int} (he : -1022 ≤ e) :
    UnpackedFloat.add Format.binary64 (scaledParts a e) (scaledParts b e) =
      scaledParts (a + b) e := by
  by_cases ha : a = 0
  · rw [ha, Nat.zero_add]
    show UnpackedFloat.add _ (.zero .positive) (scaledParts b e) = _
    by_cases hb : b = 0
    · rw [hb]
      rfl
    · rw [scaledParts_of_ne_zero hb]
      rfl
  by_cases hb : b = 0
  · rw [hb, Nat.add_zero]
    show UnpackedFloat.add _ (scaledParts a e) (.zero .positive) = _
    rw [scaledParts_of_ne_zero ha]
    rfl
  -- Both mantissas are shifted as far as the smaller number needs.
  let k := max (room a) (room b)
  have smaller : min (e - (room a : Int)) (e - room b) = e - k := by omega
  have shifted (m : Nat) (hm : room m ≤ k) :
      decreaseExponent (m <<< room m) (e - room m) (e - k) = (m <<< k, e - k) := by
    have shift : (e - (room m : Int) - (e - k)).toNat = k - room m := by omega
    have exponent : e - (room m : Int) - (k - room m : Nat) = e - k := by omega
    rw [decreaseExponent, shift, exponent, ← Nat.shiftLeft_add, Nat.add_sub_cancel' hm]
  have sum : (a <<< k + b <<< k : Nat) = (a + b) <<< k := by
    rw [Nat.shiftLeft_eq, Nat.shiftLeft_eq, Nat.shiftLeft_eq, Nat.add_mul]
  have positive : 0 < (a + b) <<< k := Nat.pos_of_ne_zero (shiftLeft_ne_zero (by omega) k)
  rw [scaledParts_of_ne_zero ha, scaledParts_of_ne_zero hb, add_finite, smaller,
    shifted a (Nat.le_max_left ..), shifted b (Nat.le_max_right ..), Sign.apply, Sign.apply]
  dsimp only
  rw [← Int.natCast_add, sum, UnpackedFloat.normalize, Int.compare_eq_gt.mpr (by omega)]
  exact round_shiftLeft (by omega) h he k

/-- Sums of numbers with the same exponent are exact. -/
theorem add_scaled {a b : Nat} (h : a + b < 2 ^ 53) {e : Int} (low : -1022 ≤ e)
    (high : e ≤ 971) : scaled a e + scaled b e = scaled (a + b) e := by
  show Float.ofModel (pack (UnpackedFloat.add Format.binary64 (scaled a e).toModel.unpack
    (scaled b e).toModel.unpack)) = _
  rw [unpack_scaled (by omega) low high, unpack_scaled (by omega) low high, add_scaledParts h low]
  rfl

theorem shiftLeft_room_two_pow {k : Nat} (hk : k ≤ 52) : 2 ^ k <<< room (2 ^ k) = 2 ^ 52 := by
  rw [room, Nat.log2_two_pow, Nat.shiftLeft_eq, ← Nat.pow_add, Nat.add_sub_cancel' hk]

theorem div_scaledParts {m : Nat} (hm : m < 2 ^ 53) {e : Int} {k : Nat} (hk : k ≤ 52)
    (he : k - 1021 ≤ e) :
    UnpackedFloat.div Format.binary64 (scaledParts m e) (scaledParts (2 ^ k) 0) =
      scaledParts m (e - k) := by
  have power : scaledParts (2 ^ k) 0 =
      .finite .positive (2 ^ 52) (k - 52) (Nat.two_pow_pos 52) := by
    rw [scaledParts_of_ne_zero (Nat.ne_of_gt (Nat.two_pow_pos k))]
    refine finite_congr rfl ?_ ?_
    · exact shiftLeft_room_two_pow hk
    · rw [room, Nat.log2_two_pow]
      omega
  rw [power]
  by_cases h : m = 0
  · rw [h]
    rfl
  have full := log2_shiftLeft_room h hm
  have digits : room m ≤ 52 := Nat.sub_le ..
  have target : Format.binary64.targetExponent (totalExponent (m <<< room m) (e - room m) -
      totalExponent (2 ^ 52) (k - 52)) = e - room m - k - 1 := by
    rw [totalExponent, totalExponent, full, Nat.log2_two_pow, targetExponent_eq]
    omega
  have smaller : min (e - (room m : Int) - (k - 52)) (e - room m - k - 1) = e - room m - k - 1 := by
    omega
  have shift : (e - (room m : Int) - (k - 52) - (e - room m - k - 1)).toNat = 53 := by omega
  have quotient : (m <<< room m) <<< 53 / 2 ^ 52 = (m <<< room m) <<< 1 := by
    rw [Nat.shiftLeft_eq _ 53, Nat.shiftLeft_eq _ 1]
    omega
  have remainder : (m <<< room m) <<< 53 % 2 ^ 52 = 0 := by
    rw [Nat.shiftLeft_eq _ 53]
    omega
  have divided : divCore Format.binary64 (m <<< room m) (e - room m) (2 ^ 52) (k - 52) =
      ((m <<< room m) <<< 1, e - k - room m - (1 : Nat), .exact) := by
    have exponent : e - (room m : Int) - k - 1 = e - k - room m - (1 : Nat) := by omega
    rw [divCore, target, smaller, shift, quotient, remainder, exponent]
    rfl
  rw [scaledParts_of_ne_zero h, div_finite, divided]
  exact roundWithAccuracy_shiftLeft full (by omega) 1

/-- Quotients by powers of two are exact. -/
theorem div_scaled {m : Nat} (hm : m < 2 ^ 53) {e : Int} {k : Nat} (hk : k ≤ 52)
    (low : k - 1021 ≤ e) (high : e ≤ 971) :
    scaled m e / scaled (2 ^ k) 0 = scaled m (e - k) := by
  have small : 2 ^ k < 2 ^ 53 := Nat.pow_lt_pow_right (by decide) (by omega)
  show Float.ofModel (pack (UnpackedFloat.div Format.binary64 (scaled m e).toModel.unpack
    (scaled (2 ^ k) 0).toModel.unpack)) = _
  rw [unpack_scaled hm (by omega) high, unpack_scaled small (by decide) (by decide),
    div_scaledParts hm hk low]
  rfl

/-! ## Order -/

theorem compare_scaledParts {a b : Nat} (h : a < b) (hb : b < 2 ^ 53) (e : Int) :
    (scaledParts a e).compare (scaledParts b e) = some .lt := by
  have nb : b ≠ 0 := by omega
  rw [scaledParts_of_ne_zero nb]
  by_cases ha : a = 0
  · rw [ha]
    rfl
  rw [scaledParts_of_ne_zero ha]
  show some ((compare (e - (room a : Int)) (e - room b)).then
    (compare (a <<< room a) (b <<< room b))) = some .lt
  have digits := log2_le_log2 ha (Nat.le_of_lt h)
  have most := log2_le_of_lt hb
  rcases Nat.lt_or_eq_of_le digits with less | same
  · have exponents : compare (e - (room a : Int)) (e - room b) = .lt := by
      rw [Int.compare_eq_lt, room, room]
      omega
    rw [exponents]
    rfl
  · have rooms : room a = room b := by rw [room, room, same]
    have mantissas : compare (a <<< room b) (b <<< room b) = .lt := by
      rw [Nat.compare_eq_lt, Nat.shiftLeft_eq, Nat.shiftLeft_eq]
      exact Nat.mul_lt_mul_of_pos_right h (Nat.two_pow_pos _)
    rw [rooms, mantissas, Std.ReflOrd.compare_self]
    rfl

theorem scaled_lt_scaled {a b : Nat} (h : a < b) (hb : b < 2 ^ 53) {e : Int} (low : -1022 ≤ e)
    (high : e ≤ 971) : scaled a e < scaled b e := by
  have less : ((scaled a e).toModel.unpack.compare (scaled b e).toModel.unpack == some .lt) =
      true := by
    rw [unpack_scaled (by omega) low high, unpack_scaled hb low high, compare_scaledParts h hb]
    rfl
  exact decide_eq_true less

/-! ## Numerals -/

theorem mul_scaledParts_one {m : Nat} (hm : m < 2 ^ 53) {e : Int} (he : -1022 ≤ e) :
    UnpackedFloat.mul Format.binary64 (scaledParts m e) (scaledParts 1 0) = scaledParts m e := by
  have one : scaledParts 1 0 = .finite .positive (2 ^ 52) (-52) (Nat.two_pow_pos 52) := rfl
  rw [one]
  by_cases h : m = 0
  · rw [h]
    rfl
  have digits : room m ≤ 52 := Nat.sub_le ..
  have kept := roundWithAccuracy_shiftLeft (log2_shiftLeft_room h hm)
    (e := e - room m) (by omega) 52
  rw [Nat.shiftLeft_eq _ 52, ← Int.add_neg_eq_sub,
    unsigned_of_ne_zero (shiftLeft_ne_zero h (room m))] at kept
  rw [scaledParts_of_ne_zero h]
  exact kept

theorem mul_scaled_one {m : Nat} (hm : m < 2 ^ 53) {e : Int} (low : -1022 ≤ e) (high : e ≤ 971) :
    scaled m e * scaled 1 0 = scaled m e := by
  show Float.ofModel (pack (UnpackedFloat.mul Format.binary64 (scaled m e).toModel.unpack
    (scaled 1 0).toModel.unpack)) = _
  rw [unpack_scaled hm low high, unpack_scaled (by decide) (by decide) (by decide),
    mul_scaledParts_one hm low]
  rfl

theorem ofNat_eq_scaledParts {n : Nat} (h : n < 2 ^ 53) :
    UnpackedFloat.ofNat Format.binary64 n = scaledParts n 0 := by
  by_cases zero : n = 0
  · rw [zero]
    rfl
  · have rounded := round_shiftLeft zero h (e := 0) (by decide) 0
    rw [Nat.shiftLeft_zero, Int.natCast_zero, Int.sub_zero] at rounded
    rw [UnpackedFloat.ofNat, UnpackedFloat.ofInt, UnpackedFloat.normalize,
      Int.compare_eq_gt.mpr (by omega)]
    exact rounded

theorem toFloat_eq_scaled {n : Nat} (h : n < 2 ^ 53) : n.toUInt64.toFloat = scaled n 0 := by
  have word : n.toUInt64.toNat = n := UInt64.toNat_ofNat_of_lt' (Nat.lt_trans h (by decide))
  rw [UInt64.toFloat, Float.Model.ofUInt64, UnpackedFloat.ofUInt64, word, ofNat_eq_scaledParts h,
    scaled]

/-- A numeral without a fraction stands for itself. -/
theorem ofNat_eq_scaled {n : Nat} (h : n < 2 ^ 53) : (Scalar.ofNat n : Float) = scaled n 0 := by
  have one : Float.exactlyRepresentablePowersOfTen[0] = scaled 1 0 := rfl
  show Float.ofScientific n false 0 = _
  rw [Float.ofScientific, dif_pos ⟨h, by decide⟩]
  show n.toUInt64.toFloat * Float.exactlyRepresentablePowersOfTen[0] = _
  rw [toFloat_eq_scaled h, one, mul_scaled_one h (by decide) (by decide)]

end LaserCut.Binary64

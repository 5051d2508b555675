import LaserCut.Proofs.Binary64.Finite

/-!
# The parts of finite numbers

A finite binary64 number other than zero is a mantissa and an exponent in just one way.

* `IsCanonical`: the mantissas and exponents of such numbers;
* `isCanonical_of_unpack`: every finite number has such parts;
* `unpack_pack_canonical`: these parts are read back from its bits.
-/

namespace LaserCut.Binary64

open Float.Model Float.Model.UnpackedFloat

/-- The mantissa and the exponent of a finite number other than zero: a mantissa has 53 digits, and
fewer only at the least exponent. -/
structure IsCanonical (m : Nat) (e : Int) : Prop where
  pos : 0 < m
  lt : m < 2 ^ 53
  least : -1074 ≤ e
  most : e ≤ 971
  full : e = -1074 ∨ 2 ^ 52 ≤ m

theorem isCanonical_of_unpack {b : BitVec Format.binary64.numBits} {s : Sign} {m : Nat} {e : Int}
    {hm : 0 < m} (h : UnpackedFloat.unpack Format.binary64 b = .finite s m e hm) :
    IsCanonical m e := by
  unfold UnpackedFloat.unpack at h
  dsimp only at h
  split at h
  · split at h <;> cases h
  rename_i finite
  have mantissa : (unpackMantissa b).toNat < 2 ^ 52 := (unpackMantissa b).isLt
  split at h
  · rename_i subnormal
    split at h
    · cases h
    · rename_i nonzero
      obtain ⟨-, rfl, rfl⟩ := UnpackedFloat.finite.inj h
      have least : ((unpackExponent b).toNat : Int) - (1023 + 52) + 1 = -1074 := by
        rw [subnormal]
        rfl
      exact ⟨hm, by omega, least.ge, least.le.trans (by decide), .inl least⟩
  · rename_i normal
    obtain ⟨-, rfl, rfl⟩ := UnpackedFloat.finite.inj h
    have exponent : (unpackExponent b).toNat < 2 ^ 11 := (unpackExponent b).isLt
    have low : (unpackExponent b).toNat ≠ 0 := fun zero => normal (BitVec.eq_of_toNat_eq zero)
    have high : (unpackExponent b).toNat ≠ 2047 := fun top => finite (BitVec.eq_of_toNat_eq top)
    have leading : (1#1 ++ unpackMantissa b).toNat = 2 ^ 52 + (unpackMantissa b).toNat := by
      rw [BitVec.toNat_append, ← Nat.shiftLeft_add_eq_or_of_lt mantissa]
      rfl
    refine ⟨hm, by omega, ?_, ?_, .inr (by omega)⟩
    · show -1074 ≤ ((unpackExponent b).toNat : Int) - (1023 + 52)
      omega
    · show ((unpackExponent b).toNat : Int) - (1023 + 52) ≤ 971
      omega

/-- The parts of a finite number are read back from its bits. -/
theorem unpack_pack_canonical {m : Nat} {e : Int} (h : IsCanonical m e) (s : Sign) :
    (pack (.finite s m e h.pos)).unpack = .finite s m e h.pos := by
  have ne : m ≠ 0 := h.pos.ne'
  by_cases full : 2 ^ 52 ≤ m
  · have digits : m.log2 = 52 :=
      Nat.le_antisymm (log2_le_of_lt h.lt) ((Nat.le_log2 ne).mpr full)
    exact unpack_pack_full digits h.least h.most s h.pos
  -- With fewer digits the exponent is the least, and all digits are stored.
  · have least : e = -1074 := h.full.resolve_right full
    have digits : m.log2 + 1 ≠ 53 := by
      have := (Nat.log2_lt ne).mpr (not_le.mp full)
      omega
    let b := (e + 1023 + 52).toNat
    have packed : UnpackedFloat.pack Format.binary64 (.finite s m e h.pos) =
        packComponents Format.binary64 s 0#11 (BitVec.ofNat 52 m) := by
      show (if 2 ^ 11 ≤ b + 1 then _ else if m.log2 + 1 = 53 then _ else _) = _
      rw [if_neg (by omega), if_neg digits]
    have stored : (BitVec.ofNat 52 m).toNat = m := by
      rw [BitVec.toNat_ofNat, Nat.mod_eq_of_lt (not_le.mp full)]
    have nonzero : BitVec.ofNat 52 m ≠ 0#52 := fun zero => ne (stored.symm.trans (congrArg _ zero))
    show UnpackedFloat.unpack Format.binary64
      (UnpackedFloat.pack Format.binary64 (.finite s m e h.pos)) = _
    rw [packed, UnpackedFloat.unpack]
    simp only [unpackMantissa_packComponents, unpackExponent_packComponents,
      unpackSign_packComponents, Sign.ofBitVec_toBitVec]
    rw [if_neg (by decide), if_pos trivial, dif_neg nonzero]
    simp only [stored, least]
    rfl

theorem neg_ofModel_pack {m : Nat} {e : Int} (h : IsCanonical m e) :
    -Float.ofModel (pack (.finite .positive m e h.pos)) =
      .ofModel (pack (.finite .negative m e h.pos)) := by
  show Float.ofModel (pack (pack (.finite .positive m e h.pos)).unpack.neg) = _
  rw [unpack_pack_canonical h]
  rfl

end LaserCut.Binary64

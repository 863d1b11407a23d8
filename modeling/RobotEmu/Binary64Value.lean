import RobotEmu.Binary64
import RobotEmu.FloatGrid

/-! The numbers that doubles stand for. Among the unpacked numbers those of the format are the canonical ones;
packing keeps them, and their order is that of the numbers they stand for. -/

namespace Binary64

open Float.Model Float.Model.UnpackedFloat

/-! ### Canonical numbers -/

/-- A significand and an exponent of the format, without the bound that the exponent has from above. -/
structure Canonical (m : Nat) (e : Int) : Prop where
  pos : 0 < m
  lt : m < 2 ^ 53
  min_le : -1074 ≤ e
  normal : 2 ^ 52 ≤ m ∨ e = -1074

theorem toNat_implicit (v : BitVec 52) : (1#1 ++ v).toNat = 2 ^ 52 + v.toNat := by
  rw [BitVec.toNat_append, ← Nat.shiftLeft_add_eq_or_of_lt v.isLt]
  rfl

theorem canonical_of_unpack {x : Binary64} {s : Sign} {m : Nat} {e : Int} {hm : 0 < m}
    (h : x.unpack = .finite s m e hm) : Canonical m e ∧ e ≤ 971 := by
  rw [unpack, UnpackedFloat.unpack] at h
  have hmantissa := (@unpackMantissa Format.binary64 x.bits).isLt
  have hexponent := (@unpackExponent Format.binary64 x.bits).isLt
  have hbias : (Format.binary64.exponentBias : Int) + (Format.binary64.mantissaBitsWithoutImplicit : Nat) = 1075 := by
    decide
  dsimp only at h
  split_ifs at h with hspecial hinfinity hsubnormal hzero
  · obtain ⟨-, rfl, rfl⟩ := UnpackedFloat.finite.inj h
    have hzeros : (@unpackExponent Format.binary64 x.bits).toNat = 0 := congrArg BitVec.toNat hsubnormal
    rw [hbias, hzeros]
    exact ⟨⟨hm, hmantissa.trans (by decide), by decide, .inr (by decide)⟩, by decide⟩
  · obtain ⟨-, rfl, rfl⟩ := UnpackedFloat.finite.inj h
    have hne : (@unpackExponent Format.binary64 x.bits).toNat ≠ 0 := fun heq => hsubnormal (BitVec.eq_of_toNat_eq heq)
    have hones : (@unpackExponent Format.binary64 x.bits).toNat ≠ 2047 :=
      fun heq => hspecial (BitVec.eq_of_toNat_eq heq)
    rw [hbias, toNat_implicit]
    change _ < 2 ^ 52 at hmantissa
    change _ < 2 ^ 11 at hexponent
    exact ⟨⟨by omega, by omega, by omega, .inl (by omega)⟩, by omega⟩

/-- A finite double is a zero, or a canonical number within the range of the exponent. -/
theorem IsFinite.cases {x : Binary64} (h : x.IsFinite) : (∃ s, x.unpack = .zero s) ∨
    ∃ s m e hm, x.unpack = .finite s m e hm ∧ Canonical m e ∧ e ≤ 971 := by
  rw [IsFinite] at h
  cases hx : x.unpack with
  | notANumber | infinity s =>
      rw [hx] at h
      exact absurd h Bool.false_ne_true
  | zero s => exact .inl ⟨s, rfl⟩
  | finite s m e hm => exact .inr ⟨s, m, e, hm, rfl, canonical_of_unpack hx⟩

theorem unpack_packComponents_normal (s : Sign) {e : BitVec 11} (v : BitVec 52) (hzero : e ≠ 0#11)
    (hones : e ≠ -1#11) :
    ∃ hm, UnpackedFloat.unpack Format.binary64 (packComponents Format.binary64 s e v) =
      .finite s (2 ^ 52 + v.toNat) (e.toNat - 1075) hm := by
  rw [UnpackedFloat.unpack]
  simp only [unpackMantissa_packComponents, unpackExponent_packComponents, unpackSign_packComponents,
    Sign.ofBitVec_toBitVec]
  rw [if_neg hones, if_neg hzero]
  simp only [toNat_implicit]
  exact ⟨Nat.add_pos_left (by decide) _, rfl⟩

theorem unpack_packComponents_subnormal (s : Sign) {v : BitVec 52} (hv : v ≠ 0#52) :
    ∃ hm, UnpackedFloat.unpack Format.binary64 (packComponents Format.binary64 s 0#11 v) =
      .finite s v.toNat (-1074) hm := by
  rw [UnpackedFloat.unpack]
  simp only [unpackMantissa_packComponents, unpackExponent_packComponents, unpackSign_packComponents,
    Sign.ofBitVec_toBitVec]
  rw [if_neg (by decide), if_pos trivial, dif_neg hv]
  have hpos : v.toNat ≠ 0 := fun heq => hv (BitVec.eq_of_toNat_eq heq)
  exact ⟨Nat.pos_of_ne_zero hpos, rfl⟩

theorem biasedExponent (e : Int) :
    (e + Format.binary64.exponentBias + Format.binary64.mantissaBitsWithoutImplicit).toNat = (e + 1075).toNat := by
  have hbias : (Format.binary64.exponentBias : Int) = 1023 := by decide
  rw [hbias, add_assoc]
  rfl

theorem unpack_pack_of_overflow {s : Sign} {m : Nat} {e : Int} {hm : 0 < m} (he : 972 ≤ e) :
    (pack (.finite s m e hm)).unpack = .infinity s := by
  rw [pack, unpack, UnpackedFloat.pack]
  dsimp only
  rw [biasedExponent, if_pos (by omega)]
  exact unpack_pack_infinity s

/-- A canonical number within the range of the exponent is read back as it was packed. -/
theorem unpack_pack_finite {s : Sign} {m : Nat} {e : Int} {hm : 0 < m} (h : Canonical m e) (he : e ≤ 971) :
    (pack (.finite s m e hm)).unpack = .finite s m e hm := by
  have hmin := h.min_le
  have hlt := h.lt
  have hexponent : (BitVec.ofNat 11 (e + 1075).toNat).toNat = (e + 1075).toNat := by
    rw [BitVec.toNat_ofNat, Nat.mod_eq_of_lt (by omega)]
  rw [pack, unpack, UnpackedFloat.pack]
  dsimp only
  rw [biasedExponent, if_neg (by omega)]
  by_cases hnormal : 2 ^ 52 ≤ m
  · have hlog : m.log2 + 1 = Format.binary64.mantissaBits := by
      rw [(Nat.log2_eq_iff hm.ne').2 ⟨hnormal, hlt⟩]
      rfl
    have hmantissa : 2 ^ 52 + (BitVec.ofNat 52 m).toNat = m := by
      rw [BitVec.toNat_ofNat]
      omega
    have hzero : BitVec.ofNat 11 (e + 1075).toNat ≠ 0#11 := by
      intro heq
      rw [heq] at hexponent
      change 0 = _ at hexponent
      omega
    have hones : BitVec.ofNat 11 (e + 1075).toNat ≠ -1#11 := by
      intro heq
      rw [heq] at hexponent
      change 2047 = _ at hexponent
      omega
    obtain ⟨hm', hunpack⟩ := unpack_packComponents_normal s (BitVec.ofNat 52 m) hzero hones
    rw [if_pos hlog, hunpack]
    congr 1
    rw [hexponent]
    omega
  · have hlog : m.log2 + 1 ≠ Format.binary64.mantissaBits := by
      have hlog2 := (Nat.log2_lt hm.ne').2 (Nat.lt_of_not_le hnormal)
      change m.log2 + 1 ≠ 53
      omega
    have hmantissa : (BitVec.ofNat 52 m).toNat = m := by
      rw [BitVec.toNat_ofNat, Nat.mod_eq_of_lt (Nat.lt_of_not_le hnormal)]
    have hzero : BitVec.ofNat 52 m ≠ 0#52 := by
      intro heq
      rw [heq] at hmantissa
      change 0 = _ at hmantissa
      omega
    obtain ⟨hm', hunpack⟩ := unpack_packComponents_subnormal s hzero
    rw [if_neg hlog, hunpack]
    congr 1
    rw [h.normal.resolve_left hnormal]

/-! ### Values -/

noncomputable def signed (s : Sign) (r : ℝ) : ℝ :=
  match s with
  | .positive => r
  | .negative => -r

/-- The number that a finite unpacked number stands for, zero where it is not finite. -/
noncomputable def realOf : UnpackedFloat → ℝ
  | .finite s m e _ => signed s (m * FloatGrid.unit e)
  | _ => 0

noncomputable def extendedOf : UnpackedFloat → EReal
  | .infinity .positive => ⊤
  | .infinity .negative => ⊥
  | u => realOf u

noncomputable def toReal (x : Binary64) : ℝ := realOf x.unpack

/-- The number, finite or not, that a double stands for; nothing is said where it is not a number. -/
noncomputable def value (x : Binary64) : EReal := extendedOf x.unpack

theorem realOf_zero {s : Sign} : realOf (.zero s) = 0 := rfl

theorem realOf_finite {s : Sign} {m : Nat} {e : Int} {hm : 0 < m} :
    realOf (.finite s m e hm) = signed s (m * 2 ^ e) := by
  rw [realOf, FloatGrid.unit_eq]

theorem magnitude_pos {m : Nat} (hm : 0 < m) (e : Int) : 0 < (m : ℝ) * 2 ^ e :=
  mul_pos (Nat.cast_pos.2 hm) (zpow_pos two_pos e)

/-- Of two canonical numbers the one with the greater exponent is the greater. -/
theorem magnitude_lt_of_exponent {m m' : Nat} {e e' : Int} (h : Canonical m e) (h' : Canonical m' e') (hlt : e < e') :
    (m : ℝ) * 2 ^ e < m' * 2 ^ e' := by
  have hnormal : 2 ^ 52 ≤ m' := h'.normal.resolve_right fun heq => by
    have hmin := h.min_le
    omega
  have hm : (m : ℝ) < 2 ^ 53 := by exact_mod_cast h.lt
  have hm' : (2 : ℝ) ^ 52 ≤ m' := by exact_mod_cast hnormal
  have hexponent : (2 : ℝ) ^ (e + 1) ≤ 2 ^ e' := zpow_le_zpow_right₀ one_le_two hlt
  calc (m : ℝ) * 2 ^ e < 2 ^ 53 * 2 ^ e := mul_lt_mul_of_pos_right hm (zpow_pos two_pos e)
    _ = 2 ^ 52 * 2 ^ (e + 1) := by
        rw [zpow_add_one₀ two_ne_zero]
        ring
    _ ≤ 2 ^ 52 * 2 ^ e' := mul_le_mul_of_nonneg_left hexponent (by positivity)
    _ ≤ m' * 2 ^ e' := mul_le_mul_of_nonneg_right hm' (zpow_pos two_pos e').le

theorem compare_magnitude {m m' : Nat} {e e' : Int} (h : Canonical m e) (h' : Canonical m' e') :
    (compare e e').then (compare m m') = .lt ↔ (m : ℝ) * 2 ^ e < m' * 2 ^ e' := by
  rcases lt_trichotomy e e' with hlt | rfl | hgt
  · rw [compare_lt_iff_lt.2 hlt]
    exact iff_of_true rfl (magnitude_lt_of_exponent h h' hlt)
  · rw [compare_eq_iff_eq.2 rfl, Ordering.then, compare_lt_iff_lt,
      mul_lt_mul_iff_left₀ (zpow_pos (two_pos : (0 : ℝ) < 2) e), Nat.cast_lt]
  · rw [compare_gt_iff_gt.2 hgt]
    exact iff_of_false Ordering.noConfusion (magnitude_lt_of_exponent h' h hgt).not_gt

theorem compare_sign_lt {s t : Sign} : compare s t = .lt ↔ s = .negative ∧ t = .positive := by
  cases s <;> cases t <;> simp [compare]

theorem extendedOf_zero {s : Sign} : extendedOf (.zero s) = (0 : ℝ) := rfl

theorem extendedOf_finite {s : Sign} {m : Nat} {e : Int} {hm : 0 < m} :
    extendedOf (.finite s m e hm) = (signed s (m * 2 ^ e) : ℝ) := congrArg Real.toEReal realOf_finite

/-- Of two doubles that are numbers the lesser one compares as such. -/
theorem compare_unpack_lt {x y : Binary64} (hx : ¬x.IsNaN) (hy : ¬y.IsNaN) :
    x.unpack.compare y.unpack = some .lt ↔ extendedOf x.unpack < extendedOf y.unpack := by
  cases hux : x.unpack with
  | notANumber => exact absurd hux hx
  | infinity s =>
      cases huy : y.unpack with
      | notANumber => exact absurd huy hy
      | infinity t => cases s <;> cases t <;> simp [UnpackedFloat.compare, extendedOf, compare_sign_lt]
      | zero t => cases s <;> simp [UnpackedFloat.compare, extendedOf]
      | finite t m e hm => cases s <;> simp [UnpackedFloat.compare, extendedOf]
  | zero s =>
      cases huy : y.unpack with
      | notANumber => exact absurd huy hy
      | infinity t => cases t <;> simp [UnpackedFloat.compare, extendedOf, realOf]
      | zero t => simp [UnpackedFloat.compare, extendedOf, realOf]
      | finite t m e hm =>
          have hpos := magnitude_pos hm e
          rw [extendedOf_zero, extendedOf_finite, EReal.coe_lt_coe_iff]
          cases t with
          | positive => exact iff_of_true rfl hpos
          | negative => exact iff_of_false (by simp [UnpackedFloat.compare]) (neg_neg_of_pos hpos).not_gt
  | finite s m e hm =>
      have hpos := magnitude_pos hm e
      have hcanonical := (canonical_of_unpack hux).1
      cases huy : y.unpack with
      | notANumber => exact absurd huy hy
      | infinity t => cases t <;> simp [UnpackedFloat.compare, extendedOf]
      | zero t =>
          rw [extendedOf_zero, extendedOf_finite, EReal.coe_lt_coe_iff]
          cases s with
          | positive => exact iff_of_false (by simp [UnpackedFloat.compare]) hpos.not_gt
          | negative => exact iff_of_true rfl (neg_neg_of_pos hpos)
      | finite t m' e' hm' =>
          have hpos' := magnitude_pos hm' e'
          have hcanonical' := (canonical_of_unpack huy).1
          rw [extendedOf_finite, extendedOf_finite, EReal.coe_lt_coe_iff]
          cases s with
          | positive =>
              cases t with
              | positive => exact Option.some_inj.trans (compare_magnitude hcanonical hcanonical')
              | negative =>
                  exact iff_of_false (by simp [UnpackedFloat.compare]) ((neg_neg_of_pos hpos').trans hpos).not_gt
          | negative =>
              cases t with
              | positive => exact iff_of_true rfl ((neg_neg_of_pos hpos).trans hpos')
              | negative =>
                  rw [UnpackedFloat.compare, Option.some_inj, Ordering.swap_then, ← Std.OrientedOrd.eq_swap,
                    ← Std.OrientedOrd.eq_swap, compare_magnitude hcanonical' hcanonical]
                  exact neg_lt_neg_iff.symm

theorem lt_iff_value {x y : Binary64} (hx : ¬x.IsNaN) (hy : ¬y.IsNaN) : x < y ↔ x.value < y.value :=
  lt_iff.trans (compare_unpack_lt hx hy)

theorem not_lt_of_le {x y : Binary64} (h : x ≤ y) : ¬y < x := by
  rw [lt_iff, compare_swap]
  rcases le_iff.1 h with hlt | heq
  · rw [hlt]
    decide
  · rw [heq]
    decide

theorem le_iff_value {x y : Binary64} (hx : ¬x.IsNaN) (hy : ¬y.IsNaN) : x ≤ y ↔ x.value ≤ y.value := by
  rw [← not_lt, ← lt_iff_value hy hx]
  exact ⟨not_lt_of_le, le_of_not_lt hy hx⟩

end Binary64

import Mathlib

/-! IEEE 754 binary64 numbers kept as their bit patterns, NaN payloads included. The arithmetic is
that of Lean's own logical model of floating point, run on the unpacked patterns; an operation whose
result is not a number gives the canonical NaN, whose payload IEEE 754 leaves open. The order is the
IEEE one: every comparison with a NaN is false. -/

/-- A double, bit for bit. -/
structure Binary64 where
  bits : BitVec 64
  deriving DecidableEq, Repr

namespace Binary64

open Float.Model Float.Model.UnpackedFloat

def unpack (x : Binary64) : UnpackedFloat := UnpackedFloat.unpack Format.binary64 x.bits

def pack (u : UnpackedFloat) : Binary64 := ⟨UnpackedFloat.pack Format.binary64 u⟩

/-- The double nearest to an integer. -/
def ofInt (n : Int) : Binary64 := pack (UnpackedFloat.ofInt Format.binary64 n)

instance : Add Binary64 := ⟨fun x y => pack (UnpackedFloat.add Format.binary64 x.unpack y.unpack)⟩
instance : Sub Binary64 := ⟨fun x y => pack (UnpackedFloat.sub Format.binary64 x.unpack y.unpack)⟩
instance : Mul Binary64 := ⟨fun x y => pack (UnpackedFloat.mul Format.binary64 x.unpack y.unpack)⟩
instance : Div Binary64 := ⟨fun x y => pack (UnpackedFloat.div Format.binary64 x.unpack y.unpack)⟩

/-- Negation flips the sign bit and touches nothing else. -/
instance : Neg Binary64 := ⟨fun x => ⟨x.bits ^^^ BitVec.intMin 64⟩⟩

instance : LT Binary64 := ⟨fun x y => x.unpack.lt y.unpack = true⟩
instance : LE Binary64 := ⟨fun x y => x.unpack.le y.unpack = true⟩

instance decidableLt (x y : Binary64) : Decidable (x < y) :=
  inferInstanceAs (Decidable (x.unpack.lt y.unpack = true))

instance decidableLe (x y : Binary64) : Decidable (x ≤ y) :=
  inferInstanceAs (Decidable (x.unpack.le y.unpack = true))

/-- Not a number. -/
def IsNaN (x : Binary64) : Prop := x.unpack = .notANumber

/-- A number that is not infinite. -/
def IsFinite (x : Binary64) : Prop := x.unpack.isFinite = true

instance decidableIsFinite (x : Binary64) : Decidable x.IsFinite :=
  inferInstanceAs (Decidable (x.unpack.isFinite = true))

instance decidableIsNaN (x : Binary64) : Decidable x.IsNaN := decidable_of_iff _ UnpackedFloat.isNaN_iff

example : (ofInt 1 / ofInt 10 + ofInt 2 / ofInt 10).bits = 0x3FD3333333333334#64 := by decide

/-! ### Packing keeps the sign and never makes a NaN

Whatever the rounding does to the significand, a packed result reads back with the sign it was
packed with, so it is a NaN only when it was packed from one. -/

/-- The sign of an unpacked number, none for a NaN. -/
def signOf : UnpackedFloat → Option Sign
  | .infinity s => some s
  | .notANumber => none
  | .zero s => some s
  | .finite s _ _ _ => some s

theorem signOf_eq_none {u : UnpackedFloat} : signOf u = none ↔ u = .notANumber := by
  cases u <;> simp [signOf]

theorem signOf_unpack_packComponents (s : Sign) (e : BitVec 11) (m : BitVec 52) (he : e ≠ -1#11) :
    signOf (UnpackedFloat.unpack Format.binary64 (packComponents Format.binary64 s e m)) = some s := by
  unfold UnpackedFloat.unpack
  simp only [unpackMantissa_packComponents, unpackExponent_packComponents,
    unpackSign_packComponents, Sign.ofBitVec_toBitVec]
  split_ifs
  · exact absurd ‹e = _› he
  · exact absurd ‹e = _› he
  · rfl
  · rfl
  · rfl

theorem signOf_unpack_pack (u : UnpackedFloat) : signOf (pack u).unpack = signOf u := by
  cases u with
  | notANumber => rfl
  | infinity s => cases s <;> rfl
  | zero s => cases s <;> rfl
  | finite s m e hm =>
      simp only [pack, unpack, UnpackedFloat.pack]
      split_ifs with hover hnormal
      · cases s <;> rfl
      · refine signOf_unpack_packComponents s _ _ fun heq => ?_
        have hnat := congrArg BitVec.toNat heq
        rw [BitVec.toNat_ofNat, Nat.mod_eq_of_lt (by omega)] at hnat
        have hones : (-1#11 : BitVec 11).toNat = 2047 := by decide
        omega
      · exact signOf_unpack_packComponents s _ _ (by decide)

theorem isNaN_pack {u : UnpackedFloat} : (pack u).IsNaN ↔ u = .notANumber := by
  rw [IsNaN, ← signOf_eq_none, signOf_unpack_pack, signOf_eq_none]

/-! ### Negation -/

theorem getLsbD_signBit (i : Nat) : (BitVec.intMin 64).getLsbD i = decide (i = 63) := by
  rw [BitVec.getLsbD_intMin]
  simp

theorem unpackMantissa_flip (b : BitVec 64) :
    @unpackMantissa Format.binary64 (b ^^^ BitVec.intMin 64)
      = @unpackMantissa Format.binary64 b := by
  ext i hi
  have hlow : i ≠ 63 := by
    change i < 52 at hi
    omega
  simp [unpackMantissa, getLsbD_signBit, hlow]

theorem unpackExponent_flip (b : BitVec 64) :
    @unpackExponent Format.binary64 (b ^^^ BitVec.intMin 64)
      = @unpackExponent Format.binary64 b := by
  ext i hi
  have hlow : 52 + i ≠ 63 := by
    change i < 11 at hi
    omega
  simp [unpackExponent, getLsbD_signBit, hlow]

theorem unpackSign_flip (b : BitVec 64) :
    @unpackSign Format.binary64 (b ^^^ BitVec.intMin 64)
      = ~~~@unpackSign Format.binary64 b := by
  ext i hi
  have hzero : i = 0 := by omega
  subst hzero
  simp [unpackSign, getLsbD_signBit]

theorem ofBitVec_flip (b : BitVec 1) : Sign.ofBitVec (~~~b) = -Sign.ofBitVec b := by
  rcases BitVec.eq_zero_or_eq_one b with rfl | rfl <;> rfl

/-- Flipping the sign bit is the negation of the number it stands for. -/
theorem unpack_neg (x : Binary64) : (-x).unpack = x.unpack.neg := by
  change UnpackedFloat.unpack Format.binary64 (x.bits ^^^ BitVec.intMin 64) = _
  unfold unpack UnpackedFloat.unpack
  simp only [unpackMantissa_flip, unpackExponent_flip, unpackSign_flip, ofBitVec_flip]
  split_ifs <;> rfl

/-! ### The order of numbers

Two doubles that are numbers are comparable one way or the other; a NaN is comparable with nothing. -/

theorem compare_swap (a b : UnpackedFloat) : b.compare a = (a.compare b).map Ordering.swap := by
  cases a with
  | infinity s =>
      cases b with
      | infinity t => cases s <;> cases t <;> rfl
      | notANumber => cases s <;> rfl
      | zero t => cases s <;> rfl
      | finite t m e hm => cases s <;> cases t <;> rfl
  | notANumber => cases b <;> rfl
  | zero s =>
      cases b with
      | infinity t => cases t <;> rfl
      | notANumber => rfl
      | zero t => rfl
      | finite t m e hm => cases t <;> rfl
  | finite s m e hm =>
      cases b with
      | infinity t => cases s <;> cases t <;> rfl
      | notANumber => rfl
      | zero t => cases s <;> rfl
      | finite t m' e' hm' =>
          cases s <;> cases t <;>
            simp [UnpackedFloat.compare, Std.OrientedOrd.eq_swap (a := e') (b := e),
              Std.OrientedOrd.eq_swap (a := m') (b := m), Ordering.swap_then]

theorem compare_eq_none {a b : UnpackedFloat} :
    a.compare b = none ↔ a = .notANumber ∨ b = .notANumber := by
  cases a with
  | infinity s => cases b <;> cases s <;> simp [UnpackedFloat.compare]
  | notANumber => simp [UnpackedFloat.compare]
  | zero s =>
      cases b with
      | infinity t => cases t <;> simp [UnpackedFloat.compare]
      | notANumber => simp [UnpackedFloat.compare]
      | zero t => simp [UnpackedFloat.compare]
      | finite t m e hm => cases t <;> simp [UnpackedFloat.compare]
  | finite s m e hm =>
      cases b with
      | infinity t => cases s <;> cases t <;> simp [UnpackedFloat.compare]
      | notANumber => cases s <;> simp [UnpackedFloat.compare]
      | zero t => cases s <;> simp [UnpackedFloat.compare]
      | finite t m' e' hm' => cases s <;> cases t <;> simp [UnpackedFloat.compare]

theorem lt_iff {x y : Binary64} : x < y ↔ x.unpack.compare y.unpack = some .lt := by
  change (x.unpack.compare y.unpack == some .lt) = true ↔ _
  exact beq_iff_eq

theorem le_iff {x y : Binary64} :
    x ≤ y ↔ x.unpack.compare y.unpack = some .lt ∨ x.unpack.compare y.unpack = some .eq := by
  change (x.unpack.compare y.unpack).any (·.isLE) = true ↔ _
  cases x.unpack.compare y.unpack with
  | none => simp
  | some o => cases o <;> simp

theorem le_of_lt {x y : Binary64} (h : x < y) : x ≤ y := le_iff.2 (.inl (lt_iff.1 h))

theorem not_isNaN_of_le {x y : Binary64} (h : x ≤ y) : ¬x.IsNaN ∧ ¬y.IsNaN := by
  have hsome : x.unpack.compare y.unpack ≠ none := by
    intro hnone
    rw [le_iff, hnone] at h
    simp at h
  rw [Ne, compare_eq_none] at hsome
  exact not_or.1 hsome

theorem le_of_not_lt {x y : Binary64} (hx : ¬x.IsNaN) (hy : ¬y.IsNaN) (h : ¬x < y) : y ≤ x := by
  have hsome : x.unpack.compare y.unpack ≠ none := by
    rw [Ne, compare_eq_none]
    exact not_or.2 ⟨hx, hy⟩
  rw [lt_iff] at h
  rw [le_iff, compare_swap]
  cases hord : x.unpack.compare y.unpack with
  | none => exact absurd hord hsome
  | some o =>
      cases o with
      | lt => exact absurd hord h
      | eq => exact .inr rfl
      | gt => exact .inl rfl

theorem lt_of_not_le {x y : Binary64} (hx : ¬x.IsNaN) (hy : ¬y.IsNaN) (h : ¬x ≤ y) : y < x := by
  have hsome : x.unpack.compare y.unpack ≠ none := by
    rw [Ne, compare_eq_none]
    exact not_or.2 ⟨hx, hy⟩
  rw [le_iff, not_or] at h
  rw [lt_iff, compare_swap]
  cases hord : x.unpack.compare y.unpack with
  | none => exact absurd hord hsome
  | some o =>
      cases o with
      | lt => exact absurd hord h.1
      | eq => exact absurd hord h.2
      | gt => rfl

theorem not_lt_self (x : Binary64) : ¬x < x := by
  intro h
  have hswap := compare_swap x.unpack x.unpack
  rw [lt_iff.1 h] at hswap
  simp at hswap

theorem le_self {x : Binary64} (h : ¬x.IsNaN) : x ≤ x := le_of_not_lt h h (not_lt_self x)

/-! ### Finite numbers and the operations that stay clear of NaN -/

theorem IsFinite.not_isNaN {x : Binary64} (h : x.IsFinite) : ¬x.IsNaN := by
  intro hnan
  rw [IsFinite, hnan] at h
  exact Bool.false_ne_true h

/-- Between two finite numbers there are only finite numbers. -/
theorem isFinite_of_le_of_le {lo x hi : Binary64} (hlo : lo.IsFinite) (hhi : hi.IsFinite)
    (hlox : lo ≤ x) (hxhi : x ≤ hi) : x.IsFinite := by
  rw [le_iff] at hlox hxhi
  unfold IsFinite at *
  cases hx : x.unpack with
  | zero s => rfl
  | finite s m e hm => rfl
  | notANumber => simp [hx, compare_eq_none.2] at hlox
  | infinity s =>
      rw [hx] at hlox hxhi
      cases s with
      | positive => cases hhi' : hi.unpack <;> simp_all [UnpackedFloat.compare, UnpackedFloat.isFinite]
      | negative => cases hlo' : lo.unpack <;> simp_all [UnpackedFloat.compare, UnpackedFloat.isFinite]

theorem round_ne_notANumber (f : Format) (s : Sign) (m : Nat) (e : Int) (a : Accuracy) :
    roundWithAccuracy f s m e a ≠ .notANumber := by
  simp only [roundWithAccuracy]
  split_ifs <;> simp

theorem normalize_ne_notANumber (f : Format) (m e : Int) (s : Sign) :
    UnpackedFloat.normalize f m e s ≠ .notANumber := by
  unfold UnpackedFloat.normalize
  split
  · exact round_ne_notANumber f _ _ _ _
  · simp
  · exact round_ne_notANumber f _ _ _ _

theorem not_isNaN_add {x y : Binary64} (hx : x.IsFinite) (hy : ¬y.IsNaN) : ¬(x + y).IsNaN := by
  change ¬(pack _).IsNaN
  rw [isNaN_pack]
  unfold IsFinite at hx
  unfold IsNaN at hy
  cases hux : x.unpack with
  | infinity s => simp [hux, UnpackedFloat.isFinite] at hx
  | notANumber => simp [hux, UnpackedFloat.isFinite] at hx
  | zero s =>
      cases huy : y.unpack with
      | notANumber => exact absurd huy hy
      | infinity t => simp [UnpackedFloat.add]
      | zero t =>
          simp only [UnpackedFloat.add]
          split_ifs <;> simp
      | finite t m e hm => simp [UnpackedFloat.add]
  | finite s m e hm =>
      cases huy : y.unpack with
      | notANumber => exact absurd huy hy
      | infinity t => simp [UnpackedFloat.add]
      | zero t => simp [UnpackedFloat.add]
      | finite t m' e' hm' => exact normalize_ne_notANumber _ _ _ _

theorem not_isNaN_sub {x y : Binary64} (hx : ¬x.IsNaN) (hy : y.IsFinite) : ¬(x - y).IsNaN := by
  change ¬(pack _).IsNaN
  rw [isNaN_pack]
  unfold IsFinite at hy
  unfold IsNaN at hx
  cases huy : y.unpack with
  | infinity s => simp [huy, UnpackedFloat.isFinite] at hy
  | notANumber => simp [huy, UnpackedFloat.isFinite] at hy
  | zero s =>
      cases hux : x.unpack with
      | notANumber => exact absurd hux hx
      | infinity t => simp [UnpackedFloat.sub]
      | zero t =>
          simp only [UnpackedFloat.sub]
          split_ifs <;> simp
      | finite t m e hm => simp [UnpackedFloat.sub]
  | finite s m e hm =>
      cases hux : x.unpack with
      | notANumber => exact absurd hux hx
      | infinity t => simp [UnpackedFloat.sub]
      | zero t => simp [UnpackedFloat.sub]
      | finite t m' e' hm' => exact normalize_ne_notANumber _ _ _ _

/-- A finite number above zero. -/
def IsPositiveFinite (x : Binary64) : Prop := x.IsFinite ∧ ofInt 0 < x

instance decidableIsPositiveFinite (x : Binary64) : Decidable x.IsPositiveFinite :=
  inferInstanceAs (Decidable (_ ∧ _))

theorem unpack_zero : (ofInt 0).unpack = .zero .positive := rfl

theorem isPositiveFinite_iff {x : Binary64} :
    x.IsPositiveFinite ↔ ∃ m e hm, x.unpack = .finite .positive m e hm := by
  rw [IsPositiveFinite, lt_iff, unpack_zero, IsFinite]
  cases hx : x.unpack with
  | infinity s => simp [UnpackedFloat.isFinite]
  | notANumber => simp [UnpackedFloat.isFinite]
  | zero s => simp [UnpackedFloat.compare]
  | finite s m e hm => cases s <;> simp [UnpackedFloat.compare, UnpackedFloat.isFinite, hm]

theorem not_isNaN_mul {x y : Binary64} (hx : x.IsPositiveFinite) (hy : ¬y.IsNaN) :
    ¬(x * y).IsNaN ∧ ¬(y * x).IsNaN := by
  obtain ⟨m, e, hm, hux⟩ := isPositiveFinite_iff.1 hx
  change ¬(pack (UnpackedFloat.mul _ x.unpack y.unpack)).IsNaN
    ∧ ¬(pack (UnpackedFloat.mul _ y.unpack x.unpack)).IsNaN
  rw [isNaN_pack, isNaN_pack, hux]
  cases huy : y.unpack with
  | notANumber => exact absurd huy hy
  | infinity t => simp [UnpackedFloat.mul]
  | zero t => simp [UnpackedFloat.mul]
  | finite t m' e' hm' => exact ⟨round_ne_notANumber _ _ _ _ _, round_ne_notANumber _ _ _ _ _⟩

theorem unpack_pack_infinity (s : Sign) : (pack (.infinity s)).unpack = .infinity s := by
  cases s <;> rfl

/-- An infinite speed carries a finite place to its own infinity in any positive time. -/
theorem unpack_add_mul_infinity {x v t : Binary64} {s : Sign} (hx : x.IsFinite)
    (hv : v.unpack = .infinity s) (ht : t.IsPositiveFinite) :
    (x + v * t).unpack = .infinity s := by
  obtain ⟨m, e, hm, hut⟩ := isPositiveFinite_iff.1 ht
  have hprod : (v * t).unpack = .infinity s := by
    change (pack (UnpackedFloat.mul _ v.unpack t.unpack)).unpack = _
    rw [hv, hut]
    have hsign : s * .positive = s := by cases s <;> rfl
    simp only [UnpackedFloat.mul, hsign, unpack_pack_infinity]
  change (pack (UnpackedFloat.add _ x.unpack (v * t).unpack)).unpack = _
  rw [hprod]
  unfold IsFinite at hx
  cases hux : x.unpack with
  | infinity u => simp [hux, UnpackedFloat.isFinite] at hx
  | notANumber => simp [hux, UnpackedFloat.isFinite] at hx
  | zero u => exact unpack_pack_infinity s
  | finite u m' e' hm' => exact unpack_pack_infinity s

/-- Below a positive number stands its negation, with zero in between. -/
theorem neg_le_zero_le {x : Binary64} (h : ofInt 0 < x) : -x ≤ ofInt 0 ∧ ofInt 0 ≤ x ∧ -x ≤ x := by
  rw [lt_iff, unpack_zero] at h
  simp only [le_iff, unpack_neg, unpack_zero]
  cases hx : x.unpack with
  | notANumber => simp [hx, compare_eq_none.2] at h
  | infinity s =>
      cases s with
      | negative => simp [hx, UnpackedFloat.compare] at h
      | positive => exact ⟨.inl rfl, .inl rfl, .inl rfl⟩
  | zero s => simp [hx, UnpackedFloat.compare] at h
  | finite s m e hm =>
      cases s with
      | negative => simp [hx, UnpackedFloat.compare] at h
      | positive => exact ⟨.inl rfl, .inl rfl, .inl rfl⟩

/-! ### Infinities -/

theorem exists_infinity {x : Binary64} (hnan : ¬x.IsNaN) (hfinite : ¬x.IsFinite) :
    ∃ s, x.unpack = .infinity s := by
  unfold IsNaN at hnan
  unfold IsFinite at hfinite
  cases hx : x.unpack with
  | infinity s => exact ⟨s, rfl⟩
  | notANumber => exact absurd hx hnan
  | zero s => simp [hx, UnpackedFloat.isFinite] at hfinite
  | finite s m e hm => simp [hx, UnpackedFloat.isFinite] at hfinite

theorem lt_infinity {x y : Binary64} (hx : x.IsFinite) (hy : y.unpack = .infinity .positive) :
    x < y ∧ ¬y < x := by
  unfold IsFinite at hx
  rw [lt_iff, lt_iff, hy]
  cases hux : x.unpack with
  | infinity s => simp [hux, UnpackedFloat.isFinite] at hx
  | notANumber => simp [hux, UnpackedFloat.isFinite] at hx
  | zero s => exact ⟨rfl, nofun⟩
  | finite s m e hm => cases s <;> exact ⟨rfl, nofun⟩

theorem infinity_lt {x y : Binary64} (hx : x.IsFinite) (hy : y.unpack = .infinity .negative) :
    y < x ∧ ¬x < y := by
  unfold IsFinite at hx
  rw [lt_iff, lt_iff, hy]
  cases hux : x.unpack with
  | infinity s => simp [hux, UnpackedFloat.isFinite] at hx
  | notANumber => simp [hux, UnpackedFloat.isFinite] at hx
  | zero s => exact ⟨rfl, nofun⟩
  | finite s m e hm => cases s <;> exact ⟨rfl, nofun⟩

end Binary64

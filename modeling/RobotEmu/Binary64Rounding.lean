import RobotEmu.Binary64Value

/-! The arithmetic of doubles is exact arithmetic rounded. The mantissa that the model shifts keeps two bits
of what it drops; they say where the exact number lies, which is all that rounding needs to know. -/

namespace Binary64

open Float.Model Float.Model.UnpackedFloat

/-! ### What an extended mantissa says of a number -/

/-- The mantissa is the whole part of the number, the round bit tells whether the rest is a half or more, and
the sticky bit whether it is neither nothing nor a half. -/
structure Describes (em : ExtendedMantissa) (r : ℝ) : Prop where
  floor : ⌊r⌋ = em.mantissa
  roundBit : em.roundBit = true ↔ 1 - Int.fract r ≤ Int.fract r
  stickyBit : em.stickyBit = true ↔ Int.fract r ≠ 0 ∧ Int.fract r ≠ 1 - Int.fract r

theorem Describes.rounded {em : ExtendedMantissa} {r : ℝ} (h : Describes em r) :
    HalfEven.round r = em.roundedMantissa := by
  obtain ⟨m, roundBit, stickyBit⟩ := em
  obtain ⟨hfloor, hround, hsticky⟩ := h
  dsimp only at hfloor hround hsticky
  rw [HalfEven.round, hfloor]
  cases roundBit with
  | false =>
      have hbelow : Int.fract r < 1 - Int.fract r := not_le.1 (hround.not.1 Bool.false_ne_true)
      rw [if_pos hbelow]
      cases stickyBit <;> rfl
  | true =>
      have habove := hround.1 rfl
      rw [if_neg (not_lt.2 habove)]
      cases stickyBit with
      | false =>
          have hhalf : Int.fract r = 1 - Int.fract r := by
            by_contra hne
            refine absurd (hsticky.2 ⟨fun hzero => ?_, hne⟩) Bool.false_ne_true
            rw [hzero] at habove
            linarith
          rw [if_neg (not_lt.2 hhalf.le)]
          exact (Nat.cast_add ..).symm
      | true =>
          rw [if_pos (lt_of_le_of_ne habove (hsticky.1 rfl).2.symm)]
          exact (Nat.cast_succ m).symm

/-- Half of a number, in its parts: the last bit of the whole part is the first of the rest. -/
theorem floor_fract_half {m : Nat} {r : ℝ} (h : ⌊r⌋ = m) :
    ⌊r / 2⌋ = (m / 2 : Nat) ∧ Int.fract (r / 2) = ((m % 2 : Nat) + Int.fract r) / 2 := by
  have hr : (m : ℝ) + Int.fract r = r := by
    have hparts := Int.floor_add_fract r
    rwa [h, Int.cast_natCast] at hparts
  have hm : 2 * ((m / 2 : Nat) : ℝ) + ((m % 2 : Nat) : ℝ) = m := by
    exact_mod_cast Nat.div_add_mod m 2
  have hbit : ((m % 2 : Nat) : ℝ) ≤ 1 := by
    exact_mod_cast Nat.le_of_lt_succ (Nat.mod_lt m two_pos)
  have hbit' : (0 : ℝ) ≤ ((m % 2 : Nat) : ℝ) := Nat.cast_nonneg _
  have hfract := Int.fract_nonneg r
  have hfract' := Int.fract_lt_one r
  have hfloor : ⌊r / 2⌋ = (m / 2 : Nat) := by
    rw [Int.floor_eq_iff, Int.cast_natCast]
    constructor <;> linarith
  refine ⟨hfloor, ?_⟩
  rw [Int.fract, hfloor, Int.cast_natCast]
  linarith

/-- A shift by one bit halves the number. -/
theorem Describes.shiftRightOne {em : ExtendedMantissa} {r : ℝ} (h : Describes em r) :
    Describes em.shiftRightOne (r / 2) := by
  obtain ⟨hfloor, hpart⟩ := floor_fract_half h.floor
  have hfract := Int.fract_nonneg r
  have hfract' := Int.fract_lt_one r
  have hdropped : (em.roundBit || em.stickyBit) = true ↔ Int.fract r ≠ 0 := by
    rw [Bool.or_eq_true, h.roundBit, h.stickyBit]
    constructor
    · rintro (hhalf | ⟨hzero, -⟩) heq
      · rw [heq] at hhalf
        linarith
      · exact hzero heq
    · intro hzero
      by_cases heq : Int.fract r = 1 - Int.fract r
      · exact .inl heq.symm.le
      · exact .inr ⟨hzero, heq⟩
  rcases Nat.mod_two_eq_zero_or_one em.mantissa with hbit | hbit
  · rw [hbit, Nat.cast_zero, zero_add] at hpart
    refine ⟨hfloor, ?_, hdropped.trans ?_⟩
    · rw [hpart]
      exact iff_of_false (by simp [ExtendedMantissa.shiftRightOne, hbit]) (by linarith)
    · rw [hpart]
      refine ⟨fun hne => ⟨fun heq => hne (by linarith), fun heq => ?_⟩, fun hne heq => hne.1 (by linarith)⟩
      linarith
  · rw [hbit, Nat.cast_one] at hpart
    refine ⟨hfloor, ?_, hdropped.trans ?_⟩
    · rw [hpart]
      exact iff_of_true (by simp [ExtendedMantissa.shiftRightOne, hbit]) (by linarith)
    · rw [hpart]
      refine ⟨fun hne => ⟨fun heq => ?_, fun heq => hne (by linarith)⟩, fun hne heq => hne.2 (by linarith)⟩
      linarith

theorem Describes.shiftRight {em : ExtendedMantissa} {r : ℝ} (h : Describes em r) (n : Nat) :
    Describes (em >>> n) (r / 2 ^ n) := by
  change Describes (n.repeat ExtendedMantissa.shiftRightOne em) _
  induction n with
  | zero =>
      rw [pow_zero, div_one]
      exact h
  | succ n ih =>
      rw [Nat.repeat, pow_succ, ← div_div]
      exact ih.shiftRightOne

theorem describes_exact (m : Nat) : Describes (ExtendedMantissa.ofMantissaAndAccuracy m .exact) m := by
  refine ⟨Int.floor_natCast m, ?_, ?_⟩
  · rw [Int.fract_natCast]
    exact iff_of_false Bool.false_ne_true (by norm_num)
  · rw [Int.fract_natCast]
    exact iff_of_false Bool.false_ne_true fun h => h.1 rfl

/-! ### Rounding -/

theorem targetExponent_totalExponent (m : Nat) (e : Int) :
    Format.binary64.targetExponent (totalExponent m e) = max (m.log2 + 1 + e - 53) (-1074) := rfl

theorem log_magnitude {m : Nat} {r : ℝ} (hm : 0 < m) (hfloor : ⌊r⌋ = m) (e : Int) :
    Int.log 2 (r * 2 ^ e) = m.log2 + e := by
  have hle : ((2 ^ m.log2 : Nat) : ℝ) ≤ r :=
    calc ((2 ^ m.log2 : Nat) : ℝ) ≤ m := Nat.cast_le.2 (Nat.log2_self_le hm.ne')
      _ = ⌊r⌋ := by rw [hfloor, Int.cast_natCast]
      _ ≤ r := Int.floor_le r
  have hlt : r < ((2 ^ (m.log2 + 1) : Nat) : ℝ) :=
    calc r < ⌊r⌋ + 1 := Int.lt_floor_add_one r
      _ = ((m + 1 : Nat) : ℝ) := by rw [hfloor, Int.cast_natCast, Nat.cast_succ]
      _ ≤ ((2 ^ (m.log2 + 1) : Nat) : ℝ) := Nat.cast_le.2 Nat.lt_log2_self
  rw [Nat.cast_pow, Nat.cast_ofNat, ← zpow_natCast] at hle hlt
  have hpos : 0 < r * 2 ^ e := mul_pos ((zpow_pos two_pos _).trans_le hle) (zpow_pos two_pos e)
  apply le_antisymm
  · apply Int.le_of_lt_add_one
    rw [← Int.lt_zpow_iff_log_lt Nat.one_lt_two hpos, Nat.cast_ofNat, add_right_comm, zpow_add₀ two_ne_zero]
    exact mul_lt_mul_of_pos_right (by exact_mod_cast hlt) (zpow_pos two_pos e)
  · rw [← Int.zpow_le_iff_le_log Nat.one_lt_two hpos, Nat.cast_ofNat, zpow_add₀ two_ne_zero]
    exact mul_le_mul_of_nonneg_right hle (zpow_pos two_pos e).le

theorem log_lt_of_floor_zero {r : ℝ} (hr : 0 < r) (hfloor : ⌊r⌋ = (0 : Nat)) (e : Int) :
    Int.log 2 (r * 2 ^ e) < e := by
  have hone := Int.lt_floor_add_one r
  rw [hfloor, Nat.cast_zero, Int.cast_zero, zero_add] at hone
  rw [← Int.lt_zpow_iff_log_lt Nat.one_lt_two (mul_pos hr (zpow_pos two_pos e)), Nat.cast_ofNat]
  exact mul_lt_of_lt_one_left (zpow_pos two_pos e) hone

/-- The exponent that the model shifts to is the quantum of the number. -/
theorem targetExponent_eq {m : Nat} {e : Int} {r : ℝ} (hr : 0 < r) (hfloor : ⌊r⌋ = m)
    (he : e ≤ Format.binary64.targetExponent (totalExponent m e)) :
    Format.binary64.targetExponent (totalExponent m e) = FloatGrid.quantum 53 (-1074) (r * 2 ^ e) := by
  have hpos : 0 < r * 2 ^ e := mul_pos hr (zpow_pos two_pos e)
  rw [targetExponent_totalExponent] at he ⊢
  rw [FloatGrid.quantum, abs_of_pos hpos]
  rcases Nat.eq_zero_or_pos m with rfl | hm
  · have hlog := log_lt_of_floor_zero hr hfloor e
    have hzero : Nat.log2 0 = 0 := rfl
    rw [hzero] at he ⊢
    omega
  · rw [log_magnitude hm hfloor]
    push_cast
    ring_nf

/-! The second shift of the model undoes the carry that rounding can leave. -/

theorem shiftToTargetExponent_of_lt {m : Nat} {e : Int} (hm : m < 2 ^ 53) (he : -1074 ≤ e) :
    shiftToTargetExponent Format.binary64 m e .exact = (ExtendedMantissa.ofMantissaAndAccuracy m .exact, e) := by
  have hlog : m.log2 < 53 := by
    rcases Nat.eq_zero_or_pos m with rfl | hpos
    · decide
    · exact (Nat.log2_lt hpos.ne').2 hm
  have hshift : (Format.binary64.targetExponent (totalExponent m e) - e).toNat = 0 := by
    rw [targetExponent_totalExponent]
    omega
  rw [shiftToTargetExponent, shiftToExponent, hshift]
  exact Prod.ext rfl (add_zero e)

theorem shiftToTargetExponent_carry {e : Int} (he : -1074 ≤ e) :
    shiftToTargetExponent Format.binary64 (2 ^ 53) e .exact = (⟨2 ^ 52, false, false⟩, e + 1) := by
  have hlog : (2 ^ 53 : Nat).log2 = 53 := Nat.log2_two_pow
  have hshift : (Format.binary64.targetExponent (totalExponent (2 ^ 53) e) - e).toNat = 1 := by
    rw [targetExponent_totalExponent, hlog]
    omega
  rw [shiftToTargetExponent, shiftToExponent, hshift]
  rfl

/-! ### The value of a result -/

/-- A number on the grid as a double, which is infinite from `2 ^ 1024` on. -/
noncomputable def overflow (r : ℝ) : EReal :=
  if FloatGrid.unit 1024 ≤ r then ⊤ else if r ≤ -FloatGrid.unit 1024 then ⊥ else r

/-- The value of the double nearest to a real number. -/
noncomputable def nearest (r : ℝ) : EReal := overflow (FloatGrid.round 53 (-1074) r)

theorem overflow_eq (r : ℝ) :
    overflow r = if 2 ^ (1024 : Int) ≤ r then ⊤ else if r ≤ -2 ^ (1024 : Int) then ⊥ else (r : EReal) := by
  rw [overflow, FloatGrid.unit_eq]

theorem overflow_of_abs_lt {r : ℝ} (h : |r| < 2 ^ (1024 : Int)) : overflow r = r := by
  obtain ⟨hlo, hhi⟩ := abs_lt.1 h
  rw [overflow_eq, if_neg (not_le.2 hhi), if_neg (not_le.2 hlo)]

theorem overflow_zero : overflow 0 = (0 : ℝ) := by
  apply overflow_of_abs_lt
  rw [abs_zero]
  exact zpow_pos two_pos _

theorem overflow_mono {r r' : ℝ} (h : r ≤ r') : overflow r ≤ overflow r' := by
  by_cases htop : 2 ^ (1024 : Int) ≤ r'
  · have hr' : overflow r' = ⊤ := by rw [overflow_eq, if_pos htop]
    rw [hr']
    exact le_top
  have htop' : ¬2 ^ (1024 : Int) ≤ r := fun hle => htop (hle.trans h)
  by_cases hbot : r ≤ -2 ^ (1024 : Int)
  · have hr : overflow r = ⊥ := by rw [overflow_eq, if_neg htop', if_pos hbot]
    rw [hr]
    exact bot_le
  · have hbot' : ¬r' ≤ -2 ^ (1024 : Int) := fun hle => hbot (h.trans hle)
    rw [overflow_eq, overflow_eq, if_neg htop, if_neg htop', if_neg hbot, if_neg hbot']
    exact EReal.coe_le_coe_iff.2 h

theorem nearest_mono {r r' : ℝ} (h : r ≤ r') : nearest r ≤ nearest r' :=
  overflow_mono (FloatGrid.round_mono (by decide) h)

theorem signed_zero (s : Sign) : signed s 0 = 0 := by
  cases s with
  | positive => rfl
  | negative => exact neg_zero

theorem round_signed (s : Sign) (r : ℝ) :
    FloatGrid.round 53 (-1074) (signed s r) = signed s (FloatGrid.round 53 (-1074) r) := by
  cases s with
  | positive => rfl
  | negative => exact FloatGrid.round_neg

theorem abs_signed (s : Sign) {r : ℝ} (hr : 0 ≤ r) : |signed s r| = r := by
  cases s with
  | positive => exact abs_of_nonneg hr
  | negative => exact (abs_neg r).trans (abs_of_nonneg hr)

theorem magnitude_lt {m : Nat} {e : Int} (h : Canonical m e) (he : e ≤ 971) : (m : ℝ) * 2 ^ e < 2 ^ (1024 : Int) := by
  have hm : (m : ℝ) < 2 ^ (53 : Int) := by exact_mod_cast h.lt
  calc (m : ℝ) * 2 ^ e < 2 ^ (53 : Int) * 2 ^ e := mul_lt_mul_of_pos_right hm (zpow_pos two_pos e)
    _ = 2 ^ (53 + e) := (zpow_add₀ two_ne_zero _ _).symm
    _ ≤ 2 ^ (1024 : Int) := zpow_le_zpow_right₀ one_le_two (by omega)

theorem le_magnitude {m : Nat} {e : Int} (h : Canonical m e) (he : 972 ≤ e) : 2 ^ (1024 : Int) ≤ (m : ℝ) * 2 ^ e := by
  have hm : (2 : ℝ) ^ (52 : Int) ≤ m := by
    exact_mod_cast h.normal.resolve_right (by omega)
  calc (2 : ℝ) ^ (1024 : Int) ≤ 2 ^ (52 + e) := zpow_le_zpow_right₀ one_le_two (by omega)
    _ = 2 ^ (52 : Int) * 2 ^ e := zpow_add₀ two_ne_zero _ _
    _ ≤ m * 2 ^ e := mul_le_mul_of_nonneg_right hm (zpow_pos two_pos e).le

theorem value_pack_zero (s : Sign) : (pack (.zero s)).value = (0 : ℝ) := by
  have hunpack : (pack (.zero s)).unpack = .zero s := by cases s <;> rfl
  rw [value, hunpack, extendedOf_zero]

theorem value_pack_finite (s : Sign) {m : Nat} {e : Int} {hm : 0 < m} (h : Canonical m e) :
    (pack (.finite s m e hm)).value = overflow (signed s (m * 2 ^ e)) := by
  rw [value]
  rcases le_or_gt e 971 with he | he
  · rw [unpack_pack_finite h he, extendedOf_finite, overflow_of_abs_lt]
    rw [abs_signed s (magnitude_pos hm e).le]
    exact magnitude_lt h he
  · have hle := le_magnitude h he
    have hpos : (0 : ℝ) < 2 ^ (1024 : Int) := zpow_pos two_pos _
    rw [unpack_pack_of_overflow he]
    cases s with
    | positive =>
        rw [overflow_eq, signed, if_pos hle]
        rfl
    | negative =>
        rw [overflow_eq, signed, if_neg (not_le.2 ((neg_nonpos.2 (hpos.le.trans hle)).trans_lt hpos)),
          if_pos (neg_le_neg hle)]
        rfl

/-- The exponent after the first shift is the quantum, and the mantissa the number of quanta. -/
theorem shiftToTargetExponent_eq {m : Nat} {e : Int} {a : Accuracy} {r : ℝ} (hr : 0 < r)
    (h : Describes (ExtendedMantissa.ofMantissaAndAccuracy m a) r) (hfloor : ⌊r⌋ = m)
    (he : e ≤ Format.binary64.targetExponent (totalExponent m e)) :
    ∃ em, shiftToTargetExponent Format.binary64 m e a = (em, FloatGrid.quantum 53 (-1074) (r * 2 ^ e)) ∧
      HalfEven.round (r * 2 ^ e / 2 ^ FloatGrid.quantum 53 (-1074) (r * 2 ^ e)) = em.roundedMantissa := by
  rw [shiftToTargetExponent, shiftToExponent, targetExponent_eq hr hfloor he]
  rw [targetExponent_eq hr hfloor he] at he
  generalize FloatGrid.quantum 53 (-1074) (r * 2 ^ e) = q at he ⊢
  have hshift : e + ((q - e).toNat : Int) = q := by
    rw [Int.toNat_of_nonneg (sub_nonneg.2 he)]
    omega
  have hquanta : r * 2 ^ e / 2 ^ q = r / 2 ^ (q - e).toNat := by
    rw [div_eq_div_iff (by positivity) (by positivity), mul_assoc, ← zpow_natCast, ← zpow_add₀ two_ne_zero, hshift]
  refine ⟨_, Prod.ext rfl hshift, ?_⟩
  rw [hquanta]
  exact (h.shiftRight _).rounded

/-- What the model makes of a number that it has as a mantissa with an accuracy is the nearest double. -/
theorem value_pack_roundWithAccuracy (s : Sign) {m : Nat} {e : Int} {a : Accuracy} {r : ℝ} (hr : 0 < r)
    (h : Describes (ExtendedMantissa.ofMantissaAndAccuracy m a) r) (hfloor : ⌊r⌋ = m)
    (he : e ≤ Format.binary64.targetExponent (totalExponent m e)) :
    (pack (roundWithAccuracy Format.binary64 s m e a)).value = nearest (signed s (r * 2 ^ e)) := by
  obtain ⟨em, hfirst, hquanta⟩ := shiftToTargetExponent_eq hr h hfloor he
  have hpos : 0 < r * 2 ^ e := mul_pos hr (zpow_pos two_pos e)
  have hmin : -1074 ≤ FloatGrid.quantum 53 (-1074) (r * 2 ^ e) := le_max_right _ _
  have hle : em.roundedMantissa ≤ 2 ^ 53 := by
    have hround := @FloatGrid.round_quanta_le 53 (-1074) (r * 2 ^ e)
    rw [hquanta] at hround
    exact_mod_cast hround
  have hnormal : 2 ^ 52 ≤ em.roundedMantissa ∨ FloatGrid.quantum 53 (-1074) (r * 2 ^ e) = -1074 := by
    rcases lt_or_eq_of_le hmin with hlt | heq
    · have hround := FloatGrid.le_round_quanta (by decide) hpos hlt
      rw [hquanta] at hround
      exact .inl (by exact_mod_cast hround)
    · exact .inr heq.symm
  rw [nearest, round_signed, FloatGrid.round_eq, hquanta, Int.cast_natCast, roundWithAccuracy, hfirst]
  dsimp only
  generalize FloatGrid.quantum 53 (-1074) (r * 2 ^ e) = q at hmin hnormal ⊢
  generalize em.roundedMantissa = n at hle hnormal ⊢
  rcases Nat.lt_or_eq_of_le hle with hlt | rfl
  · rw [shiftToTargetExponent_of_lt hlt hmin]
    by_cases hzero : n = 0
    · subst hzero
      rw [Nat.cast_zero, zero_mul, signed_zero, overflow_zero]
      exact (congrArg (fun u => (pack u).value) (dif_pos rfl)).trans (value_pack_zero s)
    · have hn := Nat.pos_of_ne_zero hzero
      exact (congrArg (fun u => (pack u).value) (dif_neg hzero)).trans (value_pack_finite s ⟨hn, hlt, hmin, hnormal⟩)
  · rw [shiftToTargetExponent_carry hmin]
    have hcanonical : Canonical (2 ^ 52) (q + 1) := ⟨by decide, by decide, by omega, .inl (le_refl _)⟩
    have hcarry : ((2 ^ 52 : Nat) : ℝ) * 2 ^ (q + 1) = ((2 ^ 53 : Nat) : ℝ) * 2 ^ q := by
      rw [zpow_add_one₀ two_ne_zero]
      push_cast
      ring
    rw [← hcarry]
    exact value_pack_finite s hcanonical

/-- A smaller exponent makes the mantissa greater and leaves the number as it is. -/
theorem decreaseExponent_magnitude (m : Nat) (e t : Int) :
    ((decreaseExponent m e t).1 : ℝ) * 2 ^ (decreaseExponent m e t).2 = m * 2 ^ e := by
  rw [decreaseExponent]
  dsimp only
  rw [Nat.shiftLeft_eq, Nat.cast_mul, Nat.cast_pow, Nat.cast_ofNat, mul_assoc, ← zpow_natCast,
    ← zpow_add₀ two_ne_zero, add_sub_cancel]

theorem decreaseExponent_snd (m : Nat) (e t : Int) : (decreaseExponent m e t).2 = min e t := by
  rw [decreaseExponent]
  dsimp only
  omega

/-- Rounding a mantissa and an exponent, however they are scaled. -/
theorem value_pack_round (s : Sign) {m : Nat} (hm : 0 < m) (e : Int) :
    (pack (UnpackedFloat.round Format.binary64 s m e)).value = nearest (signed s (m * 2 ^ e)) := by
  generalize htarget : Format.binary64.targetExponent (totalExponent m e) = t
  have hmagnitude := decreaseExponent_magnitude m e t
  have hexponent := decreaseExponent_snd m e t
  rw [UnpackedFloat.round]
  dsimp only
  rw [htarget, ← hmagnitude]
  generalize decreaseExponent m e t = decreased at hmagnitude hexponent ⊢
  obtain ⟨m', e'⟩ := decreased
  dsimp only at hmagnitude hexponent ⊢
  have hpos' : (0 : ℝ) < m' := by
    have hpos := magnitude_pos hm e
    rw [← hmagnitude] at hpos
    exact pos_of_mul_pos_left hpos (zpow_pos two_pos e').le
  have hlog := log_magnitude hm (Int.floor_natCast m) e
  rw [← hmagnitude, log_magnitude (Nat.cast_pos.1 hpos') (Int.floor_natCast m')] at hlog
  apply value_pack_roundWithAccuracy s hpos' (describes_exact m') (Int.floor_natCast m')
  rw [targetExponent_totalExponent] at htarget ⊢
  omega

theorem value_pack_normalize (m e : Int) (zeroSign : Sign) :
    (pack (UnpackedFloat.normalize Format.binary64 m e zeroSign)).value = nearest (m * 2 ^ e) := by
  rw [UnpackedFloat.normalize]
  rcases lt_trichotomy m 0 with hneg | rfl | hpos
  · have hcast : (((-m).toNat : Nat) : ℝ) = -m := by
      rw [← Int.cast_natCast, Int.toNat_of_nonneg (neg_nonneg.2 hneg.le), Int.cast_neg]
    rw [compare_lt_iff_lt.2 hneg]
    dsimp only
    rw [value_pack_round _ (by omega), hcast, signed, neg_mul, neg_neg]
  · rw [Int.cast_zero, zero_mul, nearest, FloatGrid.round_zero, overflow_zero]
    exact value_pack_zero zeroSign
  · have hcast : ((m.toNat : Nat) : ℝ) = m := by
      rw [← Int.cast_natCast, Int.toNat_of_nonneg hpos.le]
    rw [compare_gt_iff_gt.2 hpos]
    dsimp only
    rw [value_pack_round _ (by omega), hcast, signed]

/-- A whole number becomes the double nearest to it. -/
theorem value_ofInt (n : Int) : (ofInt n).value = nearest n := by
  have hvalue := value_pack_normalize n 0 .positive
  rwa [zpow_zero, mul_one] at hvalue

/-! ### Finite doubles -/

theorem round_magnitude (s : Sign) {m : Nat} {e : Int} (h : Canonical m e) :
    FloatGrid.round 53 (-1074) (signed s (m * 2 ^ e)) = signed s (m * 2 ^ e) := by
  have hlog : m.log2 < 53 := (Nat.log2_lt h.pos.ne').2 h.lt
  have hmin := h.min_le
  have hquantum : FloatGrid.quantum 53 (-1074) ((m : ℝ) * 2 ^ e) ≤ e := by
    rw [FloatGrid.quantum, abs_of_pos (magnitude_pos h.pos e), log_magnitude h.pos (Int.floor_natCast m)]
    omega
  rw [round_signed, FloatGrid.round_of_multiple (k := m) (by rw [Int.cast_natCast]) hquantum]

theorem nearest_magnitude (s : Sign) {m : Nat} {e : Int} (hm : 0 < m) (h : Canonical m e) :
    nearest (signed s (m * 2 ^ e)) = (pack (.finite s m e hm)).value := by
  rw [nearest, round_magnitude s h, value_pack_finite s h]

theorem nearest_zero : nearest 0 = (0 : ℝ) := by rw [nearest, FloatGrid.round_zero, overflow_zero]

theorem value_of_isFinite {x : Binary64} (h : x.IsFinite) : x.value = x.toReal := by
  rw [value, toReal]
  rcases h.cases with ⟨s, hx⟩ | ⟨s, m, e, hm, hx, -⟩ <;> rw [hx] <;> rfl

/-- A finite double is the nearest to the number that it stands for. -/
theorem nearest_toReal {x : Binary64} (h : x.IsFinite) : nearest x.toReal = x.value := by
  rw [value, toReal]
  rcases h.cases with ⟨s, hx⟩ | ⟨s, m, e, hm, hx, hcanonical, he⟩
  · rw [hx, realOf_zero, nearest_zero, extendedOf_zero]
  · rw [hx, realOf_finite, nearest_magnitude s hm hcanonical, value, unpack_pack_finite hcanonical he]

/-! ### The operations -/

theorem signed_neg (s : Sign) (r : ℝ) : signed (-s) r = -signed s r := by
  cases s with
  | positive => rfl
  | negative => exact (neg_neg r).symm

/-- A mantissa brought to a smaller exponent, with its sign. -/
theorem apply_decreaseExponent (s : Sign) (m : Nat) {e t : Int} (h : t ≤ e) :
    ((s.apply (decreaseExponent m e t).1 : Int) : ℝ) * 2 ^ t = signed s (m * 2 ^ e) := by
  have hmagnitude := decreaseExponent_magnitude m e t
  rw [decreaseExponent_snd, min_eq_right h] at hmagnitude
  rw [← hmagnitude]
  cases s with
  | positive => rfl
  | negative =>
      rw [Sign.apply, Int.cast_neg, neg_mul]
      rfl

/-- The sum of two finite doubles is the double nearest to the sum of their numbers. -/
theorem value_add {x y : Binary64} (hx : x.IsFinite) (hy : y.IsFinite) :
    (x + y).value = nearest (x.toReal + y.toReal) := by
  rw [toReal, toReal]
  change (pack (UnpackedFloat.add Format.binary64 x.unpack y.unpack)).value = _
  rcases hx.cases with ⟨s, hux⟩ | ⟨s, m, e, hm, hux, hcanonical, -⟩
  · rcases hy.cases with ⟨t, huy⟩ | ⟨t, m, e, hm, huy, hcanonical, -⟩
    · rw [hux, huy, realOf_zero, realOf_zero, add_zero, nearest_zero, UnpackedFloat.add]
      split_ifs <;> exact value_pack_zero _
    · rw [hux, huy, realOf_zero, zero_add, realOf_finite, nearest_magnitude t hm hcanonical]
      rfl
  · rcases hy.cases with ⟨t, huy⟩ | ⟨t, m', e', hm', huy, -⟩
    · rw [hux, huy, realOf_zero, add_zero, realOf_finite, nearest_magnitude s hm hcanonical]
      rfl
    · rw [hux, huy, UnpackedFloat.add]
      dsimp only
      rw [value_pack_normalize, Int.cast_add, add_mul, apply_decreaseExponent s m (min_le_left e e'),
        apply_decreaseExponent t m' (min_le_right e e')]
      rfl

theorem value_sub {x y : Binary64} (hx : x.IsFinite) (hy : y.IsFinite) :
    (x - y).value = nearest (x.toReal - y.toReal) := by
  rw [toReal, toReal]
  change (pack (UnpackedFloat.sub Format.binary64 x.unpack y.unpack)).value = _
  rcases hx.cases with ⟨s, hux⟩ | ⟨s, m, e, hm, hux, hcanonical, -⟩
  · rcases hy.cases with ⟨t, huy⟩ | ⟨t, m, e, hm, huy, hcanonical, -⟩
    · rw [hux, huy, realOf_zero, realOf_zero, sub_zero, nearest_zero, UnpackedFloat.sub]
      split_ifs <;> exact value_pack_zero _
    · rw [hux, huy, realOf_zero, zero_sub, realOf_finite, ← signed_neg, nearest_magnitude (-t) hm hcanonical]
      rfl
  · rcases hy.cases with ⟨t, huy⟩ | ⟨t, m', e', hm', huy, -⟩
    · rw [hux, huy, realOf_zero, sub_zero, realOf_finite, nearest_magnitude s hm hcanonical]
      rfl
    · rw [hux, huy, UnpackedFloat.sub]
      dsimp only
      rw [value_pack_normalize, Int.cast_sub, sub_mul, apply_decreaseExponent s m (min_le_left e e'),
        apply_decreaseExponent t m' (min_le_right e e')]
      rfl

theorem signed_signed_mul (s t : Sign) (r q : ℝ) : signed (s * t) (r * q) = signed s r * signed t q := by
  cases s with
  | positive =>
      cases t with
      | positive => rfl
      | negative => exact neg_mul_eq_mul_neg r q
  | negative =>
      cases t with
      | positive => exact neg_mul_eq_neg_mul r q
      | negative => exact (neg_mul_neg r q).symm

/-- A product of significands is long enough, or its exponent small enough, for one shift to the right. -/
theorem mul_exponent_le {m m' : Nat} {e e' : Int} (h : Canonical m e) (h' : Canonical m' e') :
    e + e' ≤ Format.binary64.targetExponent (totalExponent (m * m') (e + e')) := by
  have hlog : 2 ^ 52 ≤ m ∨ 2 ^ 52 ≤ m' → 52 ≤ (m * m').log2 := by
    intro hnormal
    rw [Nat.le_log2 (Nat.mul_pos h.pos h'.pos).ne']
    rcases hnormal with hle | hle
    · exact hle.trans (Nat.le_mul_of_pos_right m h'.pos)
    · exact hle.trans (Nat.le_mul_of_pos_left m' h.pos)
  rw [targetExponent_totalExponent]
  rcases h.normal with hnormal | hsubnormal
  · have hle := hlog (.inl hnormal)
    omega
  · rcases h'.normal with hnormal | hsubnormal'
    · have hle := hlog (.inr hnormal)
      omega
    · omega

theorem value_mul {x y : Binary64} (hx : x.IsFinite) (hy : y.IsFinite) :
    (x * y).value = nearest (x.toReal * y.toReal) := by
  rw [toReal, toReal]
  change (pack (UnpackedFloat.mul Format.binary64 x.unpack y.unpack)).value = _
  rcases hx.cases with ⟨s, hux⟩ | ⟨s, m, e, hm, hux, hcanonical, -⟩
  · rw [hux, realOf_zero, zero_mul, nearest_zero]
    rcases hy.cases with ⟨t, huy⟩ | ⟨t, m, e, hm, huy, -⟩ <;> rw [huy] <;> exact value_pack_zero _
  · rcases hy.cases with ⟨t, huy⟩ | ⟨t, m', e', hm', huy, hcanonical', -⟩
    · rw [hux, huy, realOf_zero, mul_zero, nearest_zero]
      exact value_pack_zero _
    · have hproduct : ((m * m' : Nat) : ℝ) * 2 ^ (e + e') = m * 2 ^ e * (m' * 2 ^ e') := by
        rw [Nat.cast_mul, zpow_add₀ two_ne_zero, mul_mul_mul_comm]
      rw [hux, huy, UnpackedFloat.mul, realOf_finite, realOf_finite, ← signed_signed_mul, ← hproduct]
      exact value_pack_roundWithAccuracy _ (Nat.cast_pos.2 (Nat.mul_pos hm hm')) (describes_exact _)
        (Int.floor_natCast _) (mul_exponent_le hcanonical hcanonical')

/-- The accuracy of a quotient says what its remainder is of the divisor. -/
theorem describes_div (n : Nat) {d : Nat} (hd : 0 < d) :
    ⌊(n : ℝ) / d⌋ = (n / d : Nat) ∧
      Describes (ExtendedMantissa.ofMantissaAndAccuracy (n / d) (accuracyOfFraction (n % d) d)) ((n : ℝ) / d) := by
  have hd' : (0 : ℝ) < d := Nat.cast_pos.2 hd
  have hn : (d : ℝ) * ((n / d : Nat) : ℝ) + ((n % d : Nat) : ℝ) = n := by
    exact_mod_cast Nat.div_add_mod n d
  have hrest : ((n % d : Nat) : ℝ) < d := Nat.cast_lt.2 (Nat.mod_lt n hd)
  have hrest' : (0 : ℝ) ≤ ((n % d : Nat) : ℝ) := Nat.cast_nonneg _
  have hfloor : ⌊(n : ℝ) / d⌋ = (n / d : Nat) := by
    rw [Int.floor_eq_iff, Int.cast_natCast, le_div_iff₀ hd', div_lt_iff₀ hd']
    constructor <;> linarith
  have hfract : Int.fract ((n : ℝ) / d) = ((n % d : Nat) : ℝ) / d := by
    rw [Int.fract, hfloor, Int.cast_natCast, eq_div_iff hd'.ne', sub_mul, div_mul_cancel₀ _ hd'.ne']
    linarith
  have hhalf : 1 - Int.fract ((n : ℝ) / d) ≤ Int.fract ((n : ℝ) / d) ↔ d ≤ 2 * (n % d) := by
    rw [hfract, sub_le_iff_le_add, ← add_div, one_le_div₀ hd', ← two_mul]
    exact_mod_cast Iff.rfl
  have heven : Int.fract ((n : ℝ) / d) = 1 - Int.fract ((n : ℝ) / d) ↔ 2 * (n % d) = d := by
    rw [hfract, eq_sub_iff_add_eq, ← add_div, div_eq_one_iff_eq hd'.ne', ← two_mul]
    exact_mod_cast Iff.rfl
  have hzero : Int.fract ((n : ℝ) / d) = 0 ↔ n % d = 0 := by
    rw [hfract, div_eq_zero_iff, or_iff_left hd'.ne', Nat.cast_eq_zero]
  have hbits : ∀ roundBit stickyBit : Bool, (roundBit = true ↔ d ≤ 2 * (n % d)) →
      (stickyBit = true ↔ n % d ≠ 0 ∧ 2 * (n % d) ≠ d) → Describes ⟨n / d, roundBit, stickyBit⟩ ((n : ℝ) / d) :=
    fun _ _ hround hsticky =>
      ⟨hfloor, hround.trans hhalf.symm, hsticky.trans (and_congr hzero.not.symm heven.not.symm)⟩
  refine ⟨hfloor, ?_⟩
  rw [accuracyOfFraction]
  split_ifs with hexact
  · exact hbits false false (by simp; omega) (by simp [hexact])
  · rcases lt_trichotomy (2 * (n % d)) d with hlt | heq | hgt
    · rw [compare_lt_iff_lt.2 hlt]
      exact hbits false true (by simp; omega) (by simp; omega)
    · rw [compare_eq_iff_eq.2 heq]
      exact hbits true false (by simp; omega) (by simp [heq])
    · rw [compare_gt_iff_gt.2 hgt]
      exact hbits true true (by simp; omega) (by simp; omega)

/-- A quotient is at most one place below the difference of the places of its parts. -/
theorem log_div_le {m m' : Nat} {e e' : Int} (hm : 0 < m) (hm' : 0 < m') :
    m.log2 + e - (m'.log2 + e') - 1 ≤ Int.log 2 ((m : ℝ) * 2 ^ e / (m' * 2 ^ e')) := by
  have hpos := magnitude_pos hm e
  have hpos' := magnitude_pos hm' e'
  have hle := Int.zpow_log_le_self Nat.one_lt_two hpos
  have hlt := Int.lt_zpow_succ_log_self Nat.one_lt_two ((m' : ℝ) * 2 ^ e')
  rw [log_magnitude hm (Int.floor_natCast m), Nat.cast_ofNat] at hle
  rw [log_magnitude hm' (Int.floor_natCast m'), Nat.cast_ofNat] at hlt
  rw [← Int.zpow_le_iff_le_log Nat.one_lt_two (div_pos hpos hpos'), Nat.cast_ofNat, le_div_iff₀ hpos']
  calc (2 : ℝ) ^ ((m.log2 : Int) + e - (m'.log2 + e') - 1) * (m' * 2 ^ e')
      ≤ 2 ^ ((m.log2 : Int) + e - (m'.log2 + e') - 1) * 2 ^ ((m'.log2 : Int) + e' + 1) :=
        mul_le_mul_of_nonneg_left hlt.le (zpow_pos two_pos _).le
    _ = 2 ^ ((m.log2 : Int) + e) := by
        rw [← zpow_add₀ two_ne_zero]
        congr 1
        omega
    _ ≤ m * 2 ^ e := hle

/-- What `divCore` gives of two canonical numbers describes their quotient, and is ready to be rounded. -/
theorem divCore_describes {m m' : Nat} {e e' : Int} (hm : 0 < m) (hm' : 0 < m') :
    ∃ n q a r, divCore Format.binary64 m e m' e' = (n, q, a) ∧ 0 < r ∧ ⌊r⌋ = (n : Int) ∧
      Describes (ExtendedMantissa.ofMantissaAndAccuracy n a) r ∧
      r * 2 ^ q = (m : ℝ) * 2 ^ e / (m' * 2 ^ e') ∧ q ≤ Format.binary64.targetExponent (totalExponent n q) := by
  have hlog := @log_div_le m m' e e' hm hm'
  generalize htarget : Format.binary64.targetExponent (totalExponent m e - totalExponent m' e') = t
  generalize hq : min (e - e') t = q
  generalize hn : m <<< (e - e' - q).toNat = n
  obtain ⟨hfloor, hdescribes⟩ := describes_div n hm'
  have hshift : ((e - e' - q).toNat : Int) = e - e' - q := by omega
  have hquotient : (n : ℝ) / m' * 2 ^ q = m * 2 ^ e / (m' * 2 ^ e') := by
    rw [← hn, Nat.shiftLeft_eq, Nat.cast_mul, Nat.cast_pow, Nat.cast_ofNat, ← zpow_natCast, hshift]
    rw [div_mul_eq_mul_div, mul_assoc, ← zpow_add₀ two_ne_zero, sub_add_cancel, zpow_sub₀ two_ne_zero]
    field_simp
  have hpos : 0 < (n : ℝ) / m' := by
    have hpos := div_pos (magnitude_pos hm e) (magnitude_pos hm' e')
    rw [← hquotient] at hpos
    exact pos_of_mul_pos_left hpos (zpow_pos two_pos q).le
  refine ⟨n / m', q, _, (n : ℝ) / m', ?_, hpos, hfloor, hdescribes, hquotient, ?_⟩
  · rw [divCore, htarget, hq, hn]
  · rw [← hquotient] at hlog
    rw [targetExponent_totalExponent]
    change max (totalExponent m e - totalExponent m' e' - 53) (-1074) = t at htarget
    rw [totalExponent, totalExponent] at htarget
    rcases Nat.eq_zero_or_pos (n / m') with hzero | hquanta
    · have hlt := log_lt_of_floor_zero hpos (hfloor.trans (congrArg Nat.cast hzero)) q
      have hlog2 : Nat.log2 0 = 0 := rfl
      rw [hzero, hlog2]
      omega
    · rw [log_magnitude hquanta hfloor] at hlog
      omega

theorem sign_div (s t : Sign) : s / t = s * t := by
  cases s <;> cases t <;> rfl

theorem inv_signed (s : Sign) (r : ℝ) : (signed s r)⁻¹ = signed s r⁻¹ := by
  cases s with
  | positive => rfl
  | negative => exact inv_neg

theorem value_div {x y : Binary64} (hx : x.IsFinite) (hy : y.IsFinite) (hne : y.toReal ≠ 0) :
    (x / y).value = nearest (x.toReal / y.toReal) := by
  rw [toReal] at hne
  rw [toReal, toReal]
  change (pack (UnpackedFloat.div Format.binary64 x.unpack y.unpack)).value = _
  rcases hy.cases with ⟨t, huy⟩ | ⟨t, m', e', hm', huy, -⟩
  · rw [huy] at hne
    exact absurd realOf_zero hne
  · rcases hx.cases with ⟨s, hux⟩ | ⟨s, m, e, hm, hux, -⟩
    · rw [hux, huy, realOf_zero, zero_div, nearest_zero]
      exact value_pack_zero _
    · obtain ⟨n, q, a, r, hcore, hr, hfloor, hdescribes, hquotient, hle⟩ := @divCore_describes m m' e e' hm hm'
      rw [hux, huy, UnpackedFloat.div, hcore, realOf_finite, realOf_finite, div_eq_mul_inv, inv_signed,
        ← signed_signed_mul, ← div_eq_mul_inv, ← hquotient, ← sign_div]
      exact value_pack_roundWithAccuracy _ hr hdescribes hfloor hle

end Binary64

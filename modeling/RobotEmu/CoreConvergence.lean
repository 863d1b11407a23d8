import RobotEmu.CoreLimits
import RobotEmu.CoreSettling
import RobotEmu.Pursuit

/-! The way to the target in exact arithmetic, from anywhere. A joint update is a step of a pursuit whose position
may be clamped, which only takes energy away; so the joint is caught by the capture region after a number of
updates that its energy bounds, and approaches the target from there. -/

namespace RobotEmu

open Arith

namespace Joint

variable {K : Type*} [Field K] [LinearOrder K]

/-- Twice the energy of the motion, the way to the target braked at the acceleration limit. -/
def energy (joint : Joint K) : K :=
  Pursuit.energy joint.limits.maxAcceleration joint.error joint.state.velocity

/-- What an update over `t` seconds takes off the energy, away from the target. -/
def quantum (joint : Joint K) (t : K) : K :=
  Pursuit.quantum joint.limits.maxVelocity joint.limits.maxAcceleration t

/-- A joint on its way to a target that it can reach. -/
structure Pursuing (joint : Joint K) : Prop where
  valid : joint.limits.validate = .ok ()
  enabled : joint.enabled = true
  faulted : joint.faulted = false
  inLimits : joint.InLimits
  rated : Rated joint.limits joint

theorem captured_iff {joint : Joint K} {t : K} :
    joint.Captured t ↔ Pursuit.Captured kPositionGain joint.limits.maxVelocity joint.limits.maxAcceleration t
      joint.error joint.state.velocity := by
  have hgain : (kPositionGain : K) = 8 := Int.cast_ofNat 8
  have hsquare : (8 : K) * 8 = 64 := by norm_num
  constructor
  · rintro ⟨hvelocity, hacceleration, hramp⟩
    refine ⟨?_, ?_, ?_⟩
    · rwa [hgain]
    · rwa [hgain, hsquare]
    · rwa [hgain]
  · rintro ⟨hvelocity, hacceleration, hramp⟩
    rw [hgain] at hvelocity hramp
    rw [hgain, hsquare] at hacceleration
    exact ⟨hvelocity, hacceleration, hramp⟩

theorem limits_iterate (joint : Joint K) (dt : Int) (n : ℕ) :
    ((·.update dt)^[n] joint).limits = joint.limits := by
  induction n with
  | zero => rfl
  | succ n ih => rw [Function.iterate_succ_apply', limits_update, ih]

variable [IsStrictOrderedRing K] {joint : Joint K}

/-- The update before the position is clamped is a step of the pursuit. -/
theorem integrate_eq_ramped (h : joint.Pursuing) {t : K} (ht : 0 < t) :
    (joint.integrate t).state.velocity = Pursuit.ramped kPositionGain joint.limits.maxVelocity
        joint.limits.maxAcceleration t joint.error joint.state.velocity ∧
      (joint.integrate t).error = joint.error - (joint.integrate t).state.velocity * t := by
  have hacceleration := (JointLimits.pos_of_validate h.valid).2
  refine ⟨nextVelocity_eq h.rated.rates.1 (mul_pos hacceleration ht).le, ?_⟩
  rw [error, error, integrate]
  ring

/-- A clamp of the position brings the joint no farther from its target, and no faster. -/
theorem energy_clampToLimits_le (hacceleration : 0 ≤ joint.limits.maxAcceleration)
    (htarget : joint.limits.minPosition ≤ joint.targetPosition ∧
      joint.targetPosition ≤ joint.limits.maxPosition) : joint.clampToLimits.energy ≤ joint.energy := by
  have hless : ∀ {e v : K}, |e| ≤ |joint.error| → |v| ≤ |joint.state.velocity| →
      Pursuit.energy joint.limits.maxAcceleration e v ≤ joint.energy := by
    intro e v he hv
    have hkinetic := mul_self_le_mul_self (abs_nonneg v) hv
    rw [abs_mul_abs_self, abs_mul_abs_self] at hkinetic
    have hpotential := mul_le_mul_of_nonneg_left he (add_nonneg hacceleration hacceleration)
    unfold energy Pursuit.energy
    linarith
  unfold clampToLimits
  split_ifs with habove hbelow
  · refine hless ?_ (stdMin_zero _).2
    rw [error, error, abs_of_nonpos (sub_nonpos.2 htarget.2), abs_of_nonpos (by linarith)]
    linarith
  · refine hless ?_ (stdMax_zero _).2
    rw [error, error, abs_of_nonneg (sub_nonneg.2 htarget.1), abs_of_nonneg (by linarith)]
    linarith
  · exact le_refl _

theorem Pursuing.update (h : joint.Pursuing) (dt : Int) : (joint.update dt).Pursuing where
  valid := by
    rw [limits_update]
    exact h.valid
  enabled := by
    rw [enabled_update]
    exact h.enabled
  faulted := by
    obtain ⟨state, hstate⟩ := (joint.update_eq dt).1
    rw [hstate]
    exact h.faulted
  inLimits := inLimits_update h.valid h.inLimits dt
  rated := by
    rw [limits_update]
    exact (h.rated.update h.valid dt).1

/-- One update away from the target. -/
theorem Pursuing.energy_update (h : joint.Pursuing) {dt : Int} (hpos : 0 < dt) (hle : dt ≤ 125000000) :
    (joint.update dt).energy ≤ joint.energy ∧
      (¬joint.Captured (seconds dt) →
        (joint.update dt).energy + joint.quantum (seconds dt) ≤ joint.energy) := by
  obtain ⟨hvelocity, hacceleration⟩ := JointLimits.pos_of_validate h.valid
  have ht := seconds_pos (K := K) hpos
  have hgain : (kPositionGain : K) = 8 := Int.cast_ofNat 8
  have hgt : (kPositionGain : K) * seconds dt ≤ 1 := by
    rw [hgain]
    exact seconds_le_eighth hle
  have hgain' : (0 : K) < kPositionGain := by
    rw [hgain]
    norm_num
  obtain ⟨hramped, hmoved⟩ := integrate_eq_ramped h ht
  have hclamp : (joint.update dt).energy ≤ (joint.integrate (seconds dt)).energy := by
    rw [update_of_pos h.enabled h.faulted hpos]
    apply energy_clampToLimits_le
    · exact hacceleration.le
    · exact h.inLimits.2
  have henergy : (joint.integrate (seconds dt)).energy = Pursuit.energy joint.limits.maxAcceleration
      (joint.error - (joint.integrate (seconds dt)).state.velocity * seconds dt)
      (joint.integrate (seconds dt)).state.velocity := by
    rw [energy, hmoved]
    rfl
  rw [hramped] at henergy
  rw [henergy] at hclamp
  refine ⟨hclamp.trans (Pursuit.energy_step_le hacceleration.le ht.le hgt hgain' hvelocity.le), ?_⟩
  intro hcaptured
  have hstep := Pursuit.energy_step hacceleration.le ht.le hgt hgain' hvelocity.le
    (fun hpursuit => hcaptured (captured_iff.2 hpursuit))
  exact (add_le_add_left hclamp _).trans hstep

theorem Pursuing.iterate (h : joint.Pursuing) (dt : Int) (n : ℕ) : ((·.update dt)^[n] joint).Pursuing := by
  induction n with
  | zero => exact h
  | succ n ih =>
      rw [Function.iterate_succ_apply']
      exact ih.update dt

theorem Pursuing.energy_iterate_le (h : joint.Pursuing) {dt : Int} (hpos : 0 < dt) (hle : dt ≤ 125000000) (n : ℕ) :
    ((·.update dt)^[n] joint).energy ≤ joint.energy := by
  induction n with
  | zero => exact le_refl _
  | succ n ih =>
      rw [Function.iterate_succ_apply']
      exact ((h.iterate dt n).energy_update hpos hle).1.trans ih

theorem energy_nonneg (h : joint.Pursuing) : 0 ≤ joint.energy := by
  have hacceleration := (JointLimits.pos_of_validate h.valid).2
  exact add_nonneg (mul_self_nonneg _) (mul_nonneg (add_pos hacceleration hacceleration).le (abs_nonneg _))

/-- The capture region is reached before the updates have taken off more energy than there was. -/
theorem Pursuing.exists_captured (h : joint.Pursuing) {dt : Int} (hpos : 0 < dt) (hle : dt ≤ 125000000) {n : ℕ}
    (hn : joint.energy < n * joint.quantum (seconds dt)) :
    ∃ k < n, ((·.update dt)^[k] joint).Captured (seconds dt) := by
  refine Pursuit.exists_of_descent (I := fun joint' => joint'.Pursuing ∧ joint'.limits = joint.limits)
    (p := fun joint' => joint'.Captured (seconds dt)) (w := energy) ?_ ?_ ?_ ⟨h, rfl⟩ n hn
  · rintro joint' ⟨hpursuing, hlimits⟩
    exact ⟨hpursuing.update dt, (joint'.limits_update dt).trans hlimits⟩
  · rintro joint' ⟨hpursuing, -⟩
    exact energy_nonneg hpursuing
  · rintro joint' ⟨hpursuing, hlimits⟩ hfar
    have hstep := (hpursuing.energy_update hpos hle).2 hfar
    rwa [quantum, hlimits] at hstep

/-- Once the updates could have taken off all of the energy, the joint is on its approach. -/
theorem Pursuing.approaches (h : joint.Pursuing) {dt : Int} (hpos : 0 < dt) (hle : dt ≤ 125000000) {n : ℕ}
    (hn : joint.energy < n * joint.quantum (seconds dt)) (m : ℕ) :
    ((·.update dt)^[n + m] joint).Captured (seconds dt) ∧
      8 * |((·.update dt)^[n + m] joint).error| ≤ (1 - 8 * seconds dt) ^ m * joint.limits.maxVelocity := by
  have hshare : 0 ≤ 1 - 8 * (seconds dt : K) := by linarith [seconds_le_eighth (K := K) hle]
  have hshare' : 1 - 8 * (seconds dt : K) ≤ 1 := by linarith [seconds_pos (K := K) hpos]
  obtain ⟨k, hk, hcaptured⟩ := h.exists_captured hpos hle hn
  have hpursuing := h.iterate dt k
  have hsettling : ((·.update dt)^[k] joint).Settling dt :=
    ⟨hpursuing.enabled, hpursuing.faulted, hpursuing.inLimits, hcaptured⟩
  have hsplit : n + m = (n + m - k) + k := by omega
  rw [hsplit, Function.iterate_add_apply]
  obtain ⟨hsettled, herror⟩ := hsettling.iterate hpos hle (n + m - k)
  refine ⟨hsettled.captured, ?_⟩
  have hvelocity : 8 * |((·.update dt)^[k] joint).error| ≤ joint.limits.maxVelocity := by
    rw [← limits_iterate joint dt k]
    exact hcaptured.velocity
  calc 8 * |((·.update dt)^[n + m - k] ((·.update dt)^[k] joint)).error|
      = (1 - 8 * seconds dt) ^ (n + m - k) * (8 * |((·.update dt)^[k] joint).error|) := by
        rw [herror, abs_mul, abs_of_nonneg (pow_nonneg hshare _)]
        ring
    _ ≤ (1 - 8 * seconds dt) ^ (n + m - k) * joint.limits.maxVelocity :=
        mul_le_mul_of_nonneg_left hvelocity (pow_nonneg hshare _)
    _ ≤ (1 - 8 * seconds dt) ^ m * joint.limits.maxVelocity := by
        refine mul_le_mul_of_nonneg_right ?_ (JointLimits.pos_of_validate h.valid).1.le
        exact pow_le_pow_of_le_one hshare hshare' (by omega)

/-- **The joint converges.** From any state within its limits an enabled joint that is updated over at most an
eighth of a second at a time never gets farther from its target than its energy allows; once the updates could
have taken off all of it, the joint is in the capture region, and within a share of the velocity limit that every
update lowers by the same factor. -/
theorem converges (joint : Joint K) (dt : Int) (h : joint.Pursuing) (hpos : 0 < dt) (hle : dt ≤ 125000000) :
    (∀ n, 2 * joint.limits.maxAcceleration * |((·.update dt)^[n] joint).error| ≤ joint.energy) ∧
      ∀ n m : ℕ, joint.energy < n * joint.quantum (seconds dt) →
        ((·.update dt)^[n + m] joint).Captured (seconds dt) ∧
          8 * |((·.update dt)^[n + m] joint).error| ≤ (1 - 8 * seconds dt) ^ m * joint.limits.maxVelocity := by
  refine ⟨?_, fun n m hn => h.approaches hpos hle hn m⟩
  intro n
  have henergy := h.energy_iterate_le hpos hle n
  rw [energy, Pursuit.energy, limits_iterate] at henergy
  linarith [mul_self_nonneg ((·.update dt)^[n] joint).state.velocity]

/-- Away from its target at full speed. -/
def fleeing : Joint ℚ :=
  { Joint.ofLimits ⟨-1, 1, 2, 5⟩ with
    state := ⟨1 / 2, 2, 0, 0⟩
    targetPosition := -1 / 2
    enabled := true }

theorem converges_fleeing :
    (∀ n, 2 * fleeing.limits.maxAcceleration * |((·.update 100000000)^[n] fleeing).error| ≤ fleeing.energy) ∧
      ∀ n m : ℕ, fleeing.energy < n * fleeing.quantum (seconds 100000000) →
        ((·.update 100000000)^[n + m] fleeing).Captured (seconds 100000000) ∧
          8 * |((·.update 100000000)^[n + m] fleeing).error| ≤
            (1 - 8 * seconds 100000000) ^ m * fleeing.limits.maxVelocity :=
  converges fleeing 100000000
    ⟨by decide, rfl, rfl, ⟨by decide +kernel, by decide +kernel⟩, ⟨rfl, by decide +kernel, by decide +kernel⟩⟩
    (by decide) (by decide)

end Joint
end RobotEmu

import RobotEmu.Arithmetic

/-! Ramps in exact arithmetic: a value is moved towards a setpoint by no more than a given amount, which is
what adding a clamped difference does. Each move takes its amount off the distance, until none is left. -/

namespace Ramp

open Arith

variable {K : Type*} [Field K] [LinearOrder K] [IsStrictOrderedRing K] {v v' w d m bound : K}

theorem stdClamp_of_abs_le (h : |v| ≤ bound) : stdClamp v (-bound) bound = v := by
  obtain ⟨hlo, hhi⟩ := abs_le.1 h
  rw [stdClamp, if_neg (not_lt.2 hlo), if_neg (not_lt.2 hhi)]

/-- The value is between the old one and the setpoint, at the given distance from the old one or at the
setpoint. -/
structure MovesTowards (v w m v' : K) : Prop where
  between : v ≤ v' ∧ v' ≤ w ∨ w ≤ v' ∧ v' ≤ v
  length : |v' - v| = min |w - v| m

theorem movesTowards_add_stdClamp (hm : 0 ≤ m) : MovesTowards v w m (v + stdClamp (w - v) (-m) m) := by
  unfold stdClamp
  split_ifs with hlo hhi
  · refine ⟨.inr ⟨by linarith, by linarith⟩, ?_⟩
    rw [add_sub_cancel_left, abs_neg, abs_of_nonneg hm, abs_of_nonpos (by linarith), min_eq_right (by linarith)]
  · refine ⟨.inl ⟨by linarith, by linarith⟩, ?_⟩
    rw [add_sub_cancel_left, abs_of_nonneg hm, abs_of_nonneg (by linarith), min_eq_right hhi.le]
  · rw [add_sub_cancel]
    refine ⟨?_, (min_eq_left (abs_le.2 ⟨not_lt.1 hlo, not_lt.1 hhi⟩)).symm⟩
    rcases le_total v w with hle | hle
    · exact .inl ⟨hle, le_refl w⟩
    · exact .inr ⟨le_refl w, hle⟩

/-- Only one value is reached. -/
theorem MovesTowards.eq {v'' : K} (h : MovesTowards v w m v') (h' : MovesTowards v w m v'') : v' = v'' := by
  have hlength := h.length.trans h'.length.symm
  rcases h.between with ⟨hle, hw⟩ | ⟨hw, hle⟩ <;> rcases h'.between with ⟨hle', hw'⟩ | ⟨hw', hle'⟩
  · rw [abs_of_nonneg (by linarith), abs_of_nonneg (by linarith)] at hlength
    linarith
  · linarith
  · linarith
  · rw [abs_of_nonpos (by linarith), abs_of_nonpos (by linarith)] at hlength
    linarith

theorem movesTowards_iff (hm : 0 ≤ m) : MovesTowards v w m v' ↔ v' = v + stdClamp (w - v) (-m) m := by
  constructor
  · exact fun h => h.eq (movesTowards_add_stdClamp hm)
  · rintro rfl
    exact movesTowards_add_stdClamp hm

/-- What is left of the way. -/
theorem MovesTowards.abs_sub (h : MovesTowards v w m v') : |w - v'| = max (|w - v| - m) 0 := by
  have hleft : |w - v'| = |w - v| - |v' - v| := by
    rcases h.between with ⟨hle, hw⟩ | ⟨hw, hle⟩
    · rw [abs_of_nonneg (by linarith), abs_of_nonneg (by linarith), abs_of_nonneg (by linarith)]
      ring
    · rw [abs_of_nonpos (by linarith), abs_of_nonpos (by linarith), abs_of_nonpos (by linarith)]
      ring
  rw [hleft, h.length]
  rcases le_total |w - v| m with hle | hle
  · rw [min_eq_left hle, max_eq_right (by linarith), sub_self]
  · rw [min_eq_right hle, max_eq_left (by linarith)]

/-- A move between bounds stays within them. -/
theorem abs_add_stdClamp_le (hv : |v| ≤ bound) (hw : |w| ≤ bound) (hm : 0 ≤ m) :
    |v + stdClamp (w - v) (-m) m| ≤ bound := by
  obtain ⟨hv, hv'⟩ := abs_le.1 hv
  obtain ⟨hw, hw'⟩ := abs_le.1 hw
  rcases (movesTowards_add_stdClamp (v := v) (w := w) hm).between with ⟨hle, hle'⟩ | ⟨hle, hle'⟩
  · exact abs_le.2 ⟨hv.trans hle, hle'.trans hw'⟩
  · exact abs_le.2 ⟨hw.trans hle, hle'.trans hv'⟩

/-- Two setpoints ask for the same move exactly if they are the same, or both lie beyond the move on the same
side. -/
theorem stdClamp_sub_eq_iff (hm : 0 < m) :
    stdClamp (d - v) (-m) m = stdClamp (w - v) (-m) m ↔
      d = w ∨ (v + m ≤ d ∧ v + m ≤ w) ∨ (d ≤ v - m ∧ w ≤ v - m) := by
  constructor
  · intro h
    unfold stdClamp at h
    split_ifs at h with hd hw hw hd' hw hw hw hw
    · exact .inr (.inr ⟨by linarith, by linarith⟩)
    · linarith
    · exact .inr (.inr ⟨by linarith, by linarith⟩)
    · linarith
    · exact .inr (.inl ⟨by linarith, by linarith⟩)
    · exact .inr (.inl ⟨by linarith, by linarith⟩)
    · exact .inr (.inr ⟨by linarith, by linarith⟩)
    · exact .inr (.inl ⟨by linarith, by linarith⟩)
    · exact .inl (by linarith)
  · rintro (rfl | ⟨hd, hw⟩ | ⟨hd, hw⟩)
    · rfl
    · rw [stdClamp_eq_max_min (neg_le_self hm.le), stdClamp_eq_max_min (neg_le_self hm.le), min_eq_right (by linarith),
        min_eq_right (by linarith)]
    · rw [stdClamp_eq_max_min (neg_le_self hm.le), stdClamp_eq_max_min (neg_le_self hm.le), max_eq_left, max_eq_left]
      · exact (min_le_left _ _).trans (by linarith)
      · exact (min_le_left _ _).trans (by linarith)

end Ramp

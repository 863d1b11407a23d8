import RobotEmu.Binary64Difference
import RobotEmu.CoreEnvelope

/-! `limit_monitor.cpp`: the joints within a margin of a position limit, in order. The check compares a
difference of doubles with the margin. Where the difference is a number, rounding never hides a joint; where it is
not, the joint is left out whatever the margin. -/

namespace RobotEmu

open Arith Machine
open Binary64 hiding ofInt

section
variable {F : Type*}

structure LimitViolation (F : Type*) where
  jointIndex : Nat
  position : F
  distanceToNearestLimit : F

structure LimitMonitor (F : Type*) where
  marginRadians : F

variable [Arith F]

namespace LimitMonitor

def distanceToNearest (joint : Joint F) : F :=
  stdMin (joint.state.position - joint.limits.minPosition) (joint.limits.maxPosition - joint.state.position)

/-- What the loop of `check` does with the joint at an index. -/
def examine (monitor : LimitMonitor F) (joint : Joint F) (index : Nat) : Option (LimitViolation F) :=
  if distanceToNearest joint ≤ monitor.marginRadians then
    some ⟨index, joint.state.position, stdMax (distanceToNearest joint) (ofInt 0)⟩
  else none

def check (monitor : LimitMonitor F) (robot : Robot F) : List (LimitViolation F) :=
  robot.joints.zipIdx.filterMap fun entry => monitor.examine entry.1 entry.2

theorem examine_eq_some_iff {monitor : LimitMonitor F} {joint : Joint F} {index : Nat}
    {violation : LimitViolation F} : monitor.examine joint index = some violation ↔
      distanceToNearest joint ≤ monitor.marginRadians ∧
        violation = ⟨index, joint.state.position, stdMax (distanceToNearest joint) (ofInt 0)⟩ := by
  rw [examine]
  split_ifs with hle
  · rw [Option.some_inj, and_iff_right hle, eq_comm]
  · exact iff_of_false not_false fun h => hle h.1

theorem mem_check_iff {monitor : LimitMonitor F} {robot : Robot F} {violation : LimitViolation F} :
    violation ∈ monitor.check robot ↔ ∃ index, ∃ h : index < robot.jointCount,
      monitor.examine (robot.joint index h) index = some violation := by
  rw [check, List.mem_filterMap]
  constructor
  · rintro ⟨entry, hentry, hexamine⟩
    obtain ⟨hindex, hjoint⟩ := List.getElem?_eq_some_iff.1 (List.mem_zipIdx_iff_getElem?.1 hentry)
    refine ⟨entry.2, hindex, ?_⟩
    change monitor.examine robot.joints[entry.2] entry.2 = some violation
    rw [hjoint]
    exact hexamine
  · rintro ⟨index, h, hexamine⟩
    exact ⟨(robot.joint index h, index), List.mem_zipIdx_iff_getElem?.2 (List.getElem?_eq_getElem h), hexamine⟩

/-- A joint is listed exactly if its distance from the nearest limit compares as within the margin. -/
theorem listed_iff {monitor : LimitMonitor F} {robot : Robot F} {index : Nat} (h : index < robot.jointCount) :
    (∃ violation ∈ monitor.check robot, violation.jointIndex = index) ↔
      distanceToNearest (robot.joint index h) ≤ monitor.marginRadians := by
  constructor
  · rintro ⟨violation, hmem, rfl⟩
    obtain ⟨index, h', hexamine⟩ := mem_check_iff.1 hmem
    obtain ⟨hle, rfl⟩ := examine_eq_some_iff.1 hexamine
    exact hle
  · intro hle
    exact ⟨_, mem_check_iff.2 ⟨index, h, examine_eq_some_iff.2 ⟨hle, rfl⟩⟩, rfl⟩

theorem pairwise_check (monitor : LimitMonitor F) (robot : Robot F) :
    ((monitor.check robot).map LimitViolation.jointIndex).Pairwise (· < ·) := by
  have hindices : (robot.joints.zipIdx.map Prod.snd).Pairwise (· < ·) := by
    rw [List.zipIdx_map_snd]
    exact List.pairwise_lt_range'
  rw [List.pairwise_map] at hindices
  rw [List.pairwise_map, check, List.pairwise_filterMap]
  apply hindices.imp
  intro entry entry' hlt violation hexamine violation' hexamine'
  obtain ⟨-, rfl⟩ := examine_eq_some_iff.1 hexamine
  obtain ⟨-, rfl⟩ := examine_eq_some_iff.1 hexamine'
  exact hlt

end LimitMonitor
end

namespace LimitMonitor

variable {monitor : LimitMonitor Binary64} {robot : Robot Binary64}

/-- A wider margin only adds entries. -/
theorem check_sublist {margin wider : Binary64} (hle : margin ≤ wider) (robot : Robot Binary64) :
    (check ⟨margin⟩ robot).Sublist (check ⟨wider⟩ robot) := by
  have hexamine : ∀ entry : Joint Binary64 × Nat, examine ⟨margin⟩ entry.1 entry.2 =
      if distanceToNearest entry.1 ≤ margin then examine ⟨wider⟩ entry.1 entry.2 else none := by
    intro entry
    rw [examine, examine]
    split_ifs with hnear hwide
    · rfl
    · exact absurd (Binary64.le_trans hnear hle) hwide
    · rfl
  have hcheck : check ⟨margin⟩ robot =
      (robot.joints.zipIdx.filter fun entry => decide (distanceToNearest entry.1 ≤ margin)).filterMap
        fun entry => examine ⟨wider⟩ entry.1 entry.2 := by
    rw [List.filterMap_filter, check]
    simp only [hexamine, decide_eq_true_eq]
  rw [hcheck]
  exact List.filter_sublist.filterMap _

theorem distance_mem (hmargin : ofInt 0 ≤ monitor.marginRadians) {violation : LimitViolation Binary64}
    (h : violation ∈ monitor.check robot) :
    ofInt 0 ≤ violation.distanceToNearestLimit ∧ violation.distanceToNearestLimit ≤ monitor.marginRadians := by
  obtain ⟨index, hindex, hexamine⟩ := mem_check_iff.1 h
  obtain ⟨hle, rfl⟩ := examine_eq_some_iff.1 hexamine
  have hnumber := (not_isNaN_of_le hle).1
  unfold stdMax
  split_ifs with hnegative
  · exact ⟨le_self (not_isNaN_ofInt 0), hmargin⟩
  · exact ⟨le_of_not_lt hnumber (not_isNaN_ofInt 0) hnegative, hle⟩

end LimitMonitor

/-! ### Joints that are left out -/

namespace Joint

/-- The position is a number farther than the margin from both limits, exactly and not only after rounding. -/
structure Clear (margin : Binary64) (joint : Joint Binary64) : Prop where
  position_number : ¬joint.state.position.IsNaN
  min_number : ¬joint.limits.minPosition.IsNaN
  max_number : ¬joint.limits.maxPosition.IsNaN
  above_min : joint.limits.minPosition.value + margin.value < joint.state.position.value
  below_max : joint.state.position.value < joint.limits.maxPosition.value - margin.value

/-- The position has a distance from the lower limit, and from the upper one unless it is not above the lower. -/
def Measured (joint : Joint Binary64) : Prop :=
  HaveDistance joint.state.position joint.limits.minPosition ∧
    (HaveDistance joint.limits.maxPosition joint.state.position ∨ joint.state.position ≤ joint.limits.minPosition)

instance : DecidablePred Measured := fun _ => inferInstanceAs (Decidable (_ ∧ (_ ∨ _)))

end Joint

namespace LimitMonitor

/-- A measured joint that is left out is farther than the margin from both limits, as computed. -/
theorem lt_sub_of_far {joint : Joint Binary64} (h : joint.Measured) {margin : Binary64}
    (hmargin : ofInt 0 ≤ margin) (hfar : ¬distanceToNearest joint ≤ margin) :
    margin < joint.state.position - joint.limits.minPosition ∧
      margin < joint.limits.maxPosition - joint.state.position := by
  obtain ⟨-, hnumber⟩ := not_isNaN_of_le hmargin
  have hmin := not_isNaN_sub_iff.2 h.1
  rw [distanceToNearest, stdMin] at hfar
  by_cases hmax : (joint.limits.maxPosition - joint.state.position).IsNaN
  · have hbelow := h.2.resolve_left fun hdistance => not_isNaN_sub_iff.2 hdistance hmax
    rw [if_neg fun hlt => (not_isNaN_of_le (le_of_lt hlt)).1 hmax] at hfar
    have hpos := Binary64.lt_of_le_of_lt hmargin (lt_of_not_le hmin hnumber hfar)
    exact absurd (zero_lt_sub_iff.1 hpos) (not_lt_of_le hbelow)
  · split_ifs at hfar with hlt
    · have hfar' := lt_of_not_le hmax hnumber hfar
      exact ⟨Binary64.lt_of_lt_of_le hfar' (le_of_lt hlt), hfar'⟩
    · have hfar' := lt_of_not_le hmin hnumber hfar
      exact ⟨hfar', Binary64.lt_of_lt_of_le hfar' (le_of_not_lt hmax hmin hlt)⟩

theorem clear_of_far {joint : Joint Binary64} (h : joint.Measured) {margin : Binary64}
    (hmargin : ofInt 0 ≤ margin) (hfar : ¬distanceToNearest joint ≤ margin) : joint.Clear margin := by
  obtain ⟨hmin, hmax⟩ := lt_sub_of_far h hmargin hfar
  have hfinite := isFinite_of_nonneg_of_lt hmargin hmin
  obtain ⟨hposition, hlo, -⟩ := h.1
  obtain ⟨hhi, -, -⟩ := not_isNaN_sub_iff.1 (not_isNaN_of_le (le_of_lt hmax)).2
  have hbelow := add_lt_of_lt_sub hfinite hmax
  refine ⟨hposition, hlo, hhi, add_lt_of_lt_sub hfinite hmin, ?_⟩
  rw [value_of_isFinite hfinite] at hbelow ⊢
  exact (EReal.lt_sub_iff_add_lt (.inl (EReal.coe_ne_bot _)) (.inl (EReal.coe_ne_top _))).2 hbelow

/-- Already without a margin only measured joints are told from unsafe ones. -/
theorem measured_of_clear {joint : Joint Binary64}
    (h : ¬distanceToNearest joint ≤ ofInt 0 → joint.Clear (ofInt 0)) : joint.Measured := by
  by_cases hfar : distanceToNearest joint ≤ ofInt 0
  · have hnear := (not_isNaN_of_le hfar).1
    rw [distanceToNearest, stdMin] at hfar hnear
    split_ifs at hfar hnear with hlt
    · obtain ⟨hmax, hmin⟩ := not_isNaN_of_le (le_of_lt hlt)
      exact ⟨not_isNaN_sub_iff.1 hmin, .inl (not_isNaN_sub_iff.1 hmax)⟩
    · have hdistance := not_isNaN_sub_iff.1 hnear
      have hbelow := le_of_not_lt hdistance.2.1 hdistance.1 fun h => not_lt_of_le hfar (zero_lt_sub_iff.2 h)
      exact ⟨hdistance, .inr hbelow⟩
  · obtain ⟨hposition, hlo, hhi, habove, hbelow⟩ := h hfar
    have hzero : (ofInt 0 : Binary64).value = 0 := value_zero
    rw [hzero, add_zero, ← lt_iff_value hlo hposition] at habove
    rw [hzero, sub_zero, ← lt_iff_value hposition hhi] at hbelow
    exact ⟨⟨hposition, hlo, .inr (.inr habove)⟩, .inl ⟨hhi, hposition, .inr (.inr hbelow)⟩⟩

/-- The joints that the check does not list are clear of their limits by the margin. -/
def Complete (monitor : LimitMonitor Binary64) (robot : Robot Binary64) : Prop :=
  ∀ index, ∀ h : index < robot.jointCount, (∀ violation ∈ monitor.check robot, violation.jointIndex ≠ index) →
    (robot.joint index h).Clear monitor.marginRadians

variable {monitor : LimitMonitor Binary64} {robot : Robot Binary64}

theorem complete_of_measured (hmargin : ofInt 0 ≤ monitor.marginRadians)
    (h : ∀ joint ∈ robot.joints, joint.Measured) : monitor.Complete robot := by
  intro index hindex hout
  apply clear_of_far (h _ (robot.joint_mem index hindex)) hmargin
  rw [← listed_iff hindex]
  rintro ⟨violation, hmem, heq⟩
  exact hout violation hmem heq

theorem measured_of_complete (h : Complete ⟨ofInt 0⟩ robot) : ∀ joint ∈ robot.joints, joint.Measured := by
  intro joint hjoint
  obtain ⟨index, hindex, rfl⟩ := List.getElem_of_mem hjoint
  apply measured_of_clear
  intro hfar
  apply h index hindex
  intro violation hmem heq
  exact hfar ((listed_iff hindex).1 ⟨violation, hmem, heq⟩)

/-- What a list of violations promises: indices in order, and distances from zero to the margin. -/
structure Lists (monitor : LimitMonitor Binary64) (robot : Robot Binary64) : Prop where
  in_order : ((monitor.check robot).map LimitViolation.jointIndex).Pairwise (· < ·)
  distance_mem : ∀ violation ∈ monitor.check robot,
    ofInt 0 ≤ violation.distanceToNearestLimit ∧ violation.distanceToNearestLimit ≤ monitor.marginRadians

/-- Whatever the margin, no unsafe joint is left out. -/
def Monitored (robot : Robot Binary64) : Prop := ∀ margin, ofInt 0 ≤ margin → Complete ⟨margin⟩ robot

theorem monitored_iff : Monitored robot ↔ ∀ joint ∈ robot.joints, joint.Measured := by
  constructor
  · intro h
    exact measured_of_complete (h (ofInt 0) (by decide))
  · intro h margin hmargin
    exact complete_of_measured hmargin h

theorem measured_of_inEnvelope {joint : Joint Binary64} (h : joint.Sane ∧ joint.InEnvelope) : joint.Measured := by
  obtain ⟨hsane, ⟨hposition, -⟩, -⟩ := h
  have hfinite := isFinite_of_le_of_le hsane.bounded.min_finite hsane.bounded.max_finite hposition.1 hposition.2
  exact ⟨⟨hfinite.not_isNaN, hsane.bounded.min_finite.not_isNaN, .inl hfinite⟩,
    .inl ⟨hsane.bounded.max_finite.not_isNaN, hfinite.not_isNaN, .inl hsane.bounded.max_finite⟩⟩

end LimitMonitor

/-- **Limits monitored.** On every robot that commands lead to, a check lists joints in order and within the margin,
and a wider margin only adds to the list. No unsafe joint is left out, whatever the margin, exactly if all positions
have distances from their limits. With bounded limits they have throughout a run that sets no NaN. -/
theorem limits_monitored (config : RobotConfig Binary64) (h : config.validate = .ok ()) :
    (∀ robot, Reachable Robot.command (Robot.ofConfig config h) robot →
      (∀ margin, ofInt 0 ≤ margin → LimitMonitor.Lists ⟨margin⟩ robot ∧
        ∀ wider, margin ≤ wider → (LimitMonitor.check ⟨margin⟩ robot).Sublist (LimitMonitor.check ⟨wider⟩ robot)) ∧
      (LimitMonitor.Monitored robot ↔ ∀ joint ∈ robot.joints, joint.Measured)) ∧
    ((∀ limits ∈ config.joints, limits.Bounded) → ∀ commands, (∀ command ∈ commands, command.Numeric) →
      Throughout Robot.command LimitMonitor.Monitored (Robot.ofConfig config h) commands) := by
  refine ⟨fun robot _ => ⟨fun margin hmargin => ⟨⟨?_, ?_⟩, ?_⟩, LimitMonitor.monitored_iff⟩, ?_⟩
  · exact LimitMonitor.pairwise_check ⟨margin⟩ robot
  · intro violation hmem
    exact LimitMonitor.distance_mem hmargin hmem
  · intro wider hle
    exact LimitMonitor.check_sublist hle robot
  · intro hbounded commands hcommands
    apply (Robot.sane_throughout config h hbounded hcommands).mono
    intro robot hrobot
    rw [LimitMonitor.monitored_iff]
    exact fun joint hmem => LimitMonitor.measured_of_inEnvelope (hrobot joint hmem)

/-- The robot with one joint that the tests of the source monitor. -/
def LimitMonitor.sampleConfig : RobotConfig Binary64 :=
  ⟨"test", [⟨ofInt (-10), ofInt 10, ofInt 2, ofInt 5⟩]⟩

theorem limits_monitored_sample :
    Throughout Robot.command LimitMonitor.Monitored (Robot.ofConfig LimitMonitor.sampleConfig (by decide))
      [.enable 0, .setTargetPosition 0 (ofInt 9), .update 1000000] := by
  apply (limits_monitored LimitMonitor.sampleConfig (by decide)).2
  · intro limits hlimits
    obtain rfl := List.mem_singleton.1 hlimits
    exact ⟨⟨by decide, by decide⟩, by decide, by decide, by decide⟩
  · refine List.forall_mem_cons.2 ⟨trivial, List.forall_mem_cons.2 ⟨?_, List.forall_mem_singleton.2 ?_⟩⟩
    · exact not_isNaN_ofInt 9
    · exact ⟨by decide, by decide⟩

/-- A NaN passes the range check of a target, and one step makes it the position. -/
theorem not_limits_monitored :
    ¬∀ (config : RobotConfig Binary64) (h : config.validate = .ok ()) (robot : Robot Binary64),
      Reachable Robot.command (Robot.ofConfig config h) robot → LimitMonitor.Monitored robot := by
  intro hall
  have hrobot := hall LimitMonitor.sampleConfig (by decide) _
    ⟨[.enable 0, .setTargetPosition 0 (ofInt 0 / ofInt 0), .update 1000000], rfl⟩
  have hclear := hrobot (ofInt 1) (by decide) 0 (by decide +kernel) (by decide +kernel)
  exact hclear.position_number (by decide +kernel)

end RobotEmu

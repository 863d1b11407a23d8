import RobotEmu.CoreEnvelope
import RobotEmu.ServerRun

/-! The envelope of the joints along a run of the server. Only a target that is not a number leads out of it,
and such a target passes the range check of `MoveJoint`. -/

namespace RobotEmu

open Arith Machine
open Binary64 hiding ofInt

namespace Server

/-- A `MoveJoint` request for an enabled joint whose payload decodes to a target that is not a number. -/
def MovesToNaN (server : Server) : Item → Prop
  | .request frame => frame.type = .moveJoint ∧
      ∃ payload, decodeMoveJointPayload frame.payload = .ok payload ∧ payload.targetRadians.IsNaN ∧
        ∃ h : payload.jointIndex.toNat < server.robot.jointCount,
          (server.robot.joint payload.jointIndex.toNat h).enabled = true
  | _ => False

theorem not_movesToNaN_moveRequest {server : Server} {index : BitVec 8} {target : Binary64}
    (h : ¬target.IsNaN) : ¬server.MovesToNaN (moveRequest index target) := by
  rintro ⟨-, payload, hdecode, hnan, -⟩
  rw [decodeMoveJointPayload_encoded] at hdecode
  obtain rfl := Except.ok.inj hdecode
  exact h hnan

def InEnvelope (server : Server) : Prop := ∀ joint ∈ server.robot.joints, joint.InEnvelope

instance : DecidablePred InEnvelope := fun _ => inferInstanceAs (Decidable (∀ joint ∈ _, _))

/-- What a run keeps besides the envelope. -/
structure Sane (server : Server) : Prop where
  period : server.controlLoop.period = 1000000
  joints : ∀ joint ∈ server.robot.joints, joint.Sane

/-- A target that is not a number compares as neither below nor above the limits. -/
theorem MovesToNaN.accepts {server : Server} {frame : Frame} (h : server.MovesToNaN (.request frame)) :
    ∃ payload, server.Accepts frame payload ∧ payload.targetRadians.IsNaN := by
  obtain ⟨-, payload, hdecode, hnan, hindex, henabled⟩ := h
  refine ⟨payload, ⟨hdecode, hindex, henabled, fun hlt => ?_, fun hlt => ?_⟩, hnan⟩
  · exact (not_isNaN_of_le (le_of_lt hlt)).1 hnan
  · exact (not_isNaN_of_le (le_of_lt hlt)).2 hnan

theorem not_inEnvelope_of_movesToNaN {server : Server} {item : Item} (h : server.MovesToNaN item) :
    ¬(server.next item).InEnvelope := by
  cases item with
  | control => exact h.elim
  | watchdog => exact h.elim
  | request frame =>
      obtain ⟨payload, haccepts, hnan⟩ := h.accepts
      rw [next_of_accepts h.1 haccepts]
      intro henv
      have hmem : { server.robot.joint payload.jointIndex.toNat haccepts.index_lt with
          targetPosition := payload.targetRadians } ∈
          (server.moved payload haccepts.index_lt).robot.joints :=
        List.mem_set haccepts.index_lt _
      exact (not_isNaN_of_le (henv _ hmem).1.2.1).2 hnan

theorem sane_next {server : Server} (hsane : server.Sane) (henv : server.InEnvelope) (item : Item) :
    (server.next item).Sane := by
  refine ⟨(server.controlLoop_period_next item).trans hsane.period, fun joint hjoint => ?_⟩
  rcases server.joints_next item with hsame | ⟨command, hcommand, hmap⟩ |
    ⟨frame, payload, haccepts, -, -, hset⟩
  · exact hsane.joints joint (hsame ▸ hjoint)
  · rw [hmap] at hjoint
    obtain ⟨joint, hmem, rfl⟩ := List.mem_map.1 hjoint
    have h := hsane.joints joint hmem
    cases hcommand with
    | step =>
        have hdt : (Joint.seconds server.controlLoop.period : Binary64).IsPositiveFinite := by
          rw [hsane.period]
          decide
        exact (Joint.inEnvelope_update h (henv joint hmem) hdt).2
    | enable | disable => exact ⟨h.valid, h.bounded, h.velocity_finite⟩
    | home => exact (Joint.inEnvelope_home h).2
  · rw [hset] at hjoint
    rcases List.mem_or_eq_of_mem_set hjoint with hmem | rfl
    · exact hsane.joints joint hmem
    · have h := hsane.joints _ (server.robot.joint_mem _ haccepts.index_lt)
      exact ⟨h.valid, h.bounded, h.velocity_finite⟩

theorem inEnvelope_next {server : Server} (hsane : server.Sane) (henv : server.InEnvelope) {item : Item}
    (hitem : ¬server.MovesToNaN item) : (server.next item).InEnvelope := by
  intro joint hjoint
  rcases server.joints_next item with hsame | ⟨command, hcommand, hmap⟩ |
    ⟨frame, payload, haccepts, rfl, htype, hset⟩
  · exact henv joint (hsame ▸ hjoint)
  · rw [hmap] at hjoint
    obtain ⟨joint, hmem, rfl⟩ := List.mem_map.1 hjoint
    cases hcommand with
    | step =>
        have hdt : (Joint.seconds server.controlLoop.period : Binary64).IsPositiveFinite := by
          rw [hsane.period]
          decide
        exact (Joint.inEnvelope_update (hsane.joints joint hmem) (henv joint hmem) hdt).1
    | enable | disable => exact henv joint hmem
    | home => exact (Joint.inEnvelope_home (hsane.joints joint hmem)).1
  · rw [hset] at hjoint
    rcases List.mem_or_eq_of_mem_set hjoint with hmem | rfl
    · exact henv joint hmem
    · have hjoint := server.robot.joint_mem _ haccepts.index_lt
      have hbounded := (hsane.joints _ hjoint).bounded
      have hnumber : ¬payload.targetRadians.IsNaN := fun hnan =>
        hitem ⟨htype, payload, haccepts.decodes, hnan, haccepts.index_lt, haccepts.enabled⟩
      exact ⟨⟨(henv _ hjoint).1.1,
        le_of_not_lt hnumber hbounded.min_finite.not_isNaN haccepts.not_below,
        le_of_not_lt hbounded.max_finite.not_isNaN hnumber haccepts.not_above⟩, (henv _ hjoint).2⟩

/-- From a server with all joints in their envelopes, one item keeps them there exactly if it does not
move a joint to a target that is not a number. -/
theorem inEnvelope_next_iff {server : Server} (hsane : server.Sane) (henv : server.InEnvelope)
    (item : Item) : (server.next item).InEnvelope ↔ ¬server.MovesToNaN item :=
  ⟨fun hnext hnan => not_inEnvelope_of_movesToNaN hnan hnext, inEnvelope_next hsane henv⟩

theorem sane_of_mem_boot {config : RobotConfig Binary64} (h : config.validate = .ok ())
    (hbounded : ∀ limits ∈ config.joints, limits.Bounded) (brakes : List VirtualBrake) :
    ∀ joint ∈ (boot config h brakes).robot.joints, joint.Sane ∧ joint.InEnvelope := by
  intro joint hjoint
  obtain ⟨limits, hlimits, rfl⟩ := List.mem_map.1 hjoint
  exact Joint.sane_ofLimits ((RobotConfig.validate_eq_ok_iff.1 h).2 limits hlimits) (hbounded limits hlimits)

/-- On a robot whose limits are bounded, the joints are in their envelopes throughout a run from boot
exactly when no item of it moves a joint to a target that is not a number. -/
theorem inEnvelope_throughout_iff (config : RobotConfig Binary64) (h : config.validate = .ok ())
    (hbounded : ∀ limits ∈ config.joints, limits.Bounded) (brakes : List VirtualBrake)
    (items : List Item) :
    Throughout next InEnvelope (boot config h brakes) items ↔
      Along next (fun server item => ¬server.MovesToNaN item) (boot config h brakes) items := by
  have hstart := sane_of_mem_boot h hbounded brakes
  exact throughout_iff_along (A := Sane)
    (fun server item hsane henv => ⟨sane_next hsane henv item, inEnvelope_next_iff hsane henv item⟩)
    ⟨rfl, fun joint hmem => (hstart joint hmem).1⟩ fun joint hmem => (hstart joint hmem).2

theorem bounded_defaultLimits : defaultLimits.Bounded :=
  ⟨⟨by decide, by decide⟩, by decide, by decide, by decide⟩

theorem bounded_scenario (jointCount : Nat) : ∀ limits ∈ (scenario jointCount).joints, limits.Bounded := by
  intro limits hlimits
  obtain rfl := List.eq_of_mem_replicate hlimits
  exact bounded_defaultLimits

/-- The scenario of `main`, with a move and a step of the control loop. -/
theorem inEnvelope_throughout_scenario :
    Throughout next InEnvelope (boot (scenario 1) (by decide) [])
      [plainRequest .enable, moveRequest 0 (ofInt 1), .control] :=
  (inEnvelope_throughout_iff _ _ (bounded_scenario 1) _ _).2
    (And.intro (fun h => nomatch h.1)
      (And.intro (not_movesToNaN_moveRequest (by decide)) (And.intro (fun h => h) trivial)))

/-- A NaN passes the range check and is stored as a joint's target. -/
theorem not_inEnvelope_throughout :
    ¬∀ config h brakes items, (∀ limits ∈ config.joints, limits.SpanZero) →
      Throughout next InEnvelope (boot config h brakes) items := by
  intro hall
  have hrun := hall (scenario 1) (by decide) []
    [plainRequest .enable, moveRequest 0 ⟨0x7FF8000000000000#64⟩]
    fun limits hlimits => (bounded_scenario 1 limits hlimits).spanZero
  revert hrun
  decide +kernel

/-! ### Runs without a move to what is not a number -/

def limits (server : Server) : List (JointLimits Binary64) := server.robot.joints.map (·.limits)

theorem limits_next (server : Server) (item : Item) : (server.next item).limits = server.limits := by
  rcases server.joints_next item with hsame | ⟨command, hcommand, hmap⟩ | ⟨frame, payload, haccepts, -, -, hset⟩
  · rw [limits, hsame, limits]
  · rw [limits, hmap, List.map_map, limits]
    apply List.map_congr_left
    intro joint hmem
    cases hcommand with
    | step => exact joint.limits_update _
    | enable | disable | home => rfl
  · have hindex : payload.jointIndex.toNat < (server.robot.joints.map (·.limits)).length := by
      rw [List.length_map]
      exact haccepts.index_lt
    have hsame : (server.robot.joint payload.jointIndex.toNat haccepts.index_lt).limits =
        (server.robot.joints.map (·.limits))[payload.jointIndex.toNat] := (List.getElem_map _).symm
    rw [limits, hset, List.map_set]
    dsimp only
    rw [hsame, List.set_getElem_self, limits]

/-- What a server keeps as long as no target that is not a number is asked for. -/
structure Tame (limits : List (JointLimits Binary64)) (server : Server) : Prop where
  sane : server.Sane
  inEnvelope : server.InEnvelope
  limits_eq : server.limits = limits

theorem Tame.next {limits : List (JointLimits Binary64)} {server : Server} (h : Tame limits server) {item : Item}
    (hitem : ¬server.MovesToNaN item) : Tame limits (server.next item) :=
  ⟨sane_next h.sane h.inEnvelope item, inEnvelope_next h.sane h.inEnvelope hitem,
    (server.limits_next item).trans h.limits_eq⟩

theorem Tame.length_joints {jointCount : Nat} {bound : JointLimits Binary64} {server : Server}
    (h : Tame (List.replicate jointCount bound) server) : server.robot.joints.length = jointCount := by
  have hlimits := congrArg List.length h.limits_eq
  rwa [limits, List.length_map, List.length_replicate] at hlimits

theorem Tame.limits_of_mem {jointCount : Nat} {bound : JointLimits Binary64} {server : Server}
    (h : Tame (List.replicate jointCount bound) server) {joint : Joint Binary64} (hmem : joint ∈ server.robot.joints) :
    joint.limits = bound := by
  have hall : joint.limits ∈ server.limits := List.mem_map_of_mem hmem
  rw [h.limits_eq] at hall
  exact List.eq_of_mem_replicate hall

/-- The server as earlier clients leave it that send no move to a target that is not a number. -/
theorem tame_run {config : RobotConfig Binary64} (h : config.validate = .ok ())
    (hbounded : ∀ limits ∈ config.joints, limits.Bounded) (brakes : List VirtualBrake) {items : List Item}
    (hitems : Along next (fun server item => ¬server.MovesToNaN item) (boot config h brakes) items) :
    Tame config.joints (run next (boot config h brakes) items) := by
  have hstart := sane_of_mem_boot h hbounded brakes
  have hboot : Tame config.joints (boot config h brakes) := by
    refine ⟨⟨rfl, fun joint hmem => (hstart joint hmem).1⟩, fun joint hmem => (hstart joint hmem).2, ?_⟩
    exact (List.map_map ..).trans (List.map_id' _)
  exact (hitems.throughout (fun server item htame hitem => htame.next hitem) hboot).last

end Server
end RobotEmu

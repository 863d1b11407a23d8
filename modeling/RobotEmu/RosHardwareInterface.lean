import RobotEmu.CliAngles
import RobotEmu.ServerEnvelope

/-! `hardware_interface.cpp`: the bridge through which ROS 2 sees the robot. Its buffers hold a position, a velocity
and a commanded position for each joint; `read` fills the first two from a status report, and `write` sends the last
as one `MoveJoint` after the other. The server runs on in between, and the connection may fail at any byte. -/

namespace RobotEmu

/-- `hardware_interface::CallbackReturn`, as far as the bridge goes. -/
inductive CallbackReturn where
  | success
  | error
  deriving DecidableEq, Repr

/-- `hardware_interface::return_type`. -/
inductive ReturnType where
  | ok
  | error
  deriving DecidableEq, Repr

/-! ### A call of the client -/

/-- A thread of the server beside the one that serves the connection. -/
inductive OtherThread where
  | control
  | watchdog
  deriving DecidableEq

def OtherThread.item : OtherThread → Item
  | control => .control
  | watchdog => .watchdog

/-- What becomes of a call of `execute`: the turns of other threads before the request is dispatched, whether it is
sent and gets there, and how many bytes each receive hands over until the connection fails. -/
structure Delivery where
  others : List OtherThread
  sent : Bool
  arrives : Bool
  receives : List Nat

/-- The front of a stream, in pieces of these sizes. -/
def pieces : List Nat → List Byte → List (List Byte)
  | [], _ => []
  | size :: sizes, bytes => bytes.take size :: pieces sizes (bytes.drop size)

theorem flatten_pieces (sizes : List Nat) (bytes : List Byte) :
    (pieces sizes bytes).flatten = bytes.take sizes.sum := by
  induction sizes generalizing bytes with
  | nil => rfl
  | cons size sizes ih => rw [pieces, List.flatten_cons, ih, List.sum_cons, List.take_add]

/-- What arrives of an answer decides the call: all of it is read, and less is a failure of the transport. -/
theorem execute_part {command : Command} {response : Frame} (hwell : FrameCodec.WellFormed response)
    (sizes : List Nat) : execute command true (pieces sizes (FrameCodec.encode response)) =
      if (FrameCodec.encode response).length ≤ sizes.sum then interpretResponse command response
      else .error .transportFailure := by
  rw [execute, Bool.not_true, if_neg Bool.false_ne_true, receiveResponse_eq, List.nil_append, flatten_pieces,
    firstResponse]
  rcases FrameCodec.decode_part_of_encode hwell (List.take_append_drop sizes.sum _) with ⟨hrest, hdecode⟩ |
    ⟨hrest, hdecode⟩
  · rw [hdecode, if_pos (List.drop_eq_nil_iff.1 hrest)]
    rfl
  · rw [hdecode, if_neg fun hle => hrest (List.drop_eq_nil_iff.2 hle)]
    rfl

namespace Server

/-- What the other threads make of the server. -/
def others (server : Server) (threads : List OtherThread) : Server :=
  Machine.run next server (threads.map OtherThread.item)

/-- `Client::execute` against this server: the server it leaves behind, and what it returns. -/
def exchange (server : Server) (command : Command) (delivery : Delivery) : Server × Except CliError Outcome :=
  let server := server.others delivery.others
  match delivery.arrives && delivery.sent, server.serve command with
  | true, some (after, response) =>
      (after, execute command true (pieces delivery.receives (FrameCodec.encode response)))
  | _, _ => (server, execute command delivery.sent [])

end Server

/-! ### The bridge -/

/-- `RobotEmulatorHardwareInterface`; `client` tells whether `client_` has a value. -/
structure RobotEmulatorHardwareInterface where
  client : Bool := false
  hwPositions : List Binary64 := []
  hwVelocities : List Binary64 := []
  hwCommandsPosition : List Binary64 := []

/-- Values from the front of a list overwrite those of a buffer, as far as both go. -/
def copyInto : List Binary64 → List Binary64 → List Binary64
  | _ :: buffer, value :: values => value :: copyInto buffer values
  | buffer, _ => buffer

/-- The command that `write` sends for a joint. -/
def moveCommand (index : Nat) (commanded : Binary64) : Command where
  kind := .moveJoint
  jointIndex := BitVec.ofNat 8 index
  targetDegrees := commanded * Binary64.ofInt 180 / Numbers.pi

/-- The loop of `write`, from the joint of this index on. -/
def writeFrom (server : Server) (deliveries : Nat → Delivery) (index : Nat) : List Binary64 → Server × ReturnType
  | [] => (server, .ok)
  | commanded :: commands =>
      match server.exchange (moveCommand index commanded) (deliveries index) with
      | (server, .error _) => (server, .error)
      | (server, .ok _) => writeFrom server deliveries (index + 1) commands

namespace RobotEmulatorHardwareInterface

/-- `on_init`, after the base class has succeeded or not, for a robot description with this many joints. -/
def onInit (interface : RobotEmulatorHardwareInterface) (base : CallbackReturn) (jointCount : Nat) :
    RobotEmulatorHardwareInterface × CallbackReturn :=
  if base ≠ .success then (interface, .error)
  else if jointCount > 255 then (interface, .error)
  else ({ interface with
    hwPositions := List.replicate jointCount (Binary64.ofInt 0)
    hwVelocities := List.replicate jointCount (Binary64.ofInt 0)
    hwCommandsPosition := List.replicate jointCount (Binary64.ofInt 0) }, .success)

def onActivate (interface : RobotEmulatorHardwareInterface) (connected : Bool) :
    RobotEmulatorHardwareInterface × CallbackReturn :=
  if !connected then (interface, .error) else ({ interface with client := true }, .success)

def onDeactivate (interface : RobotEmulatorHardwareInterface) : RobotEmulatorHardwareInterface × CallbackReturn :=
  ({ interface with client := false }, .success)

/-- The buffers that a report overwrites. -/
def fill (interface : RobotEmulatorHardwareInterface) (joints : List JointStatus) : RobotEmulatorHardwareInterface :=
  { interface with
    hwPositions := copyInto interface.hwPositions (joints.map (·.positionRadians))
    hwVelocities := copyInto interface.hwVelocities (joints.map (·.velocityRadiansPerSecond)) }

def read (interface : RobotEmulatorHardwareInterface) (server : Server) (delivery : Delivery) :
    RobotEmulatorHardwareInterface × Server × ReturnType :=
  if !interface.client then (interface, server, .error)
  else
    let answered := server.exchange { kind := .status } delivery
    match answered.2 with
    | .ok ⟨_, some statusPayload⟩ => (interface.fill statusPayload.joints, answered.1, .ok)
    | _ => (interface, answered.1, .error)

def write (interface : RobotEmulatorHardwareInterface) (server : Server) (deliveries : Nat → Delivery) :
    Server × ReturnType :=
  if !interface.client then (server, .error) else writeFrom server deliveries 0 interface.hwCommandsPosition

end RobotEmulatorHardwareInterface

/-! ### What a joint goes by when it is asked for a target -/

/-- Only requests change it. -/
structure Setting where
  limits : JointLimits Binary64
  enabled : Bool
  targetPosition : Binary64

def Joint.setting (joint : Joint Binary64) : Setting := ⟨joint.limits, joint.enabled, joint.targetPosition⟩

namespace Setting

/-- The joint is enabled and the position does not compare as out of its range. -/
def Takes (setting : Setting) (position : Binary64) : Prop :=
  setting.enabled = true ∧ ¬position < setting.limits.minPosition ∧ ¬position > setting.limits.maxPosition

instance (setting : Setting) (position : Binary64) : Decidable (setting.Takes position) :=
  inferInstanceAs (Decidable (_ ∧ _ ∧ _))

def take (setting : Setting) (position : Binary64) : Setting :=
  if setting.Takes position then { setting with targetPosition := position } else setting

/-- One position each, as far as both lists go. -/
def assign : List Setting → List Binary64 → List Setting
  | setting :: settings, position :: positions => setting.take position :: assign settings positions
  | settings, _ => settings

theorem assign_nil (settings : List Setting) : assign settings [] = settings := by
  cases settings <;> rfl

end Setting

theorem Joint.setting_setTargetPosition (joint : Joint Binary64) (position : Binary64) :
    (joint.setTargetPosition position).2.setting = joint.setting.take position := by
  rcases joint.setTargetPosition_cases position with ⟨hset, htakes⟩ | ⟨e, hset, hnot⟩
  · rw [hset, Setting.take, if_pos (show joint.setting.Takes position from htakes)]
    rfl
  · rw [hset, Setting.take, if_neg]
    rintro ⟨henabled, hmin, hmax⟩
    rcases hnot with hdisabled | hlow | hhigh
    · exact Bool.false_ne_true (hdisabled.symm.trans henabled)
    · exact hmin hlow
    · exact hmax hhigh

namespace Server

def settings (server : Server) : List Setting := server.robot.joints.map Joint.setting

theorem length_settings (server : Server) : server.settings.length = server.robot.jointCount := List.length_map _

theorem settings_next_other (server : Server) (thread : OtherThread) :
    (server.next thread.item).settings = server.settings := by
  cases thread with
  | watchdog => rfl
  | control =>
      have hupdate : ∀ joint : Joint Binary64,
          (joint.update server.controlLoop.period).setting = joint.setting := by
        intro joint
        obtain ⟨state, h⟩ := (joint.update_eq server.controlLoop.period).1
        rw [h]
        rfl
      rw [settings, OtherThread.item, next, step]
      split_ifs
      · rw [Robot.joints_update, List.map_map]
        exact List.map_congr_left fun joint _ => hupdate joint
      · rfl

/-- The other threads do not touch the settings. -/
theorem settings_others (server : Server) (threads : List OtherThread) :
    (server.others threads).settings = server.settings := by
  induction threads generalizing server with
  | nil => rfl
  | cons thread threads ih => exact (ih (server.next thread.item)).trans (server.settings_next_other thread)

theorem settings_dispatch_moveJoint (server : Server) (jointIndex : BitVec 8) (targetDegrees : Binary64) :
    (server.dispatch (buildRequestFrame ⟨.moveJoint, jointIndex, targetDegrees⟩)).1.settings =
      server.settings.modify jointIndex.toNat (·.take (radians targetDegrees)) := by
  rw [settings, joints_dispatch_moveJoint, settings]
  apply List.ext_getElem?
  intro i
  rw [List.getElem?_map, List.getElem?_modify, List.getElem?_modify, List.getElem?_map]
  cases server.robot.joints[i]? with
  | none => rfl
  | some joint =>
      simp only [Option.map_eq_map, Option.map_some]
      split_ifs
      · rw [joint.setting_setTargetPosition]
      · rfl

/-- A move is answered with `Ok` exactly if there is a joint of its index and it takes the target. -/
theorem response_moveJoint (server : Server) (jointIndex : BitVec 8) (targetDegrees : Binary64) :
    (server.dispatch (buildRequestFrame ⟨.moveJoint, jointIndex, targetDegrees⟩)).2 =
      if ∃ setting ∈ server.settings[jointIndex.toNat]?, setting.Takes (radians targetDegrees)
      then okResponse .moveJoint [] else errorResponse .moveJoint := by
  generalize hpayload : (⟨jointIndex, radians targetDegrees⟩ : MoveJointPayload) = payload
  have hdecode := decodeMoveJointPayload_encoded payload
  have hsettings : ∀ h : jointIndex.toNat < server.robot.jointCount,
      server.settings[jointIndex.toNat]? = some (server.robot.joint jointIndex.toNat h).setting := by
    intro h
    rw [settings, List.getElem?_map,
      List.getElem?_eq_getElem (show jointIndex.toNat < server.robot.joints.length from h)]
    rfl
  rw [dispatch_moveJoint, hpayload]
  rcases server.exists_accepts_or_not ⟨0, .moveJoint, encodeMoveJointPayload payload⟩ with ⟨decoded, h⟩ | h
  · obtain rfl := Except.ok.inj (hdecode.symm.trans h.decodes)
    subst hpayload
    rw [handleMoveJoint_of_accepts h, if_pos]
    exact ⟨_, hsettings h.index_lt, h.enabled, h.not_below, h.not_above⟩
  · rw [handleMoveJoint_of_not_accepts h, if_neg]
    rintro ⟨setting, hsetting, htakes⟩
    have hindex : jointIndex.toNat < server.robot.jointCount := by
      rw [← length_settings]
      exact (List.getElem?_eq_some_iff.1 hsetting).1
    obtain rfl := Option.some.inj ((hsettings hindex).symm.trans hsetting)
    subst hpayload
    exact h _ ⟨hdecode, hindex, htakes.1, htakes.2.1, htakes.2.2⟩

theorem wellFormed_response_moveJoint (server : Server) (jointIndex : BitVec 8) (targetDegrees : Binary64) :
    FrameCodec.WellFormed (server.dispatch (buildRequestFrame ⟨.moveJoint, jointIndex, targetDegrees⟩)).2 ∧
      (FrameCodec.encode (server.dispatch (buildRequestFrame ⟨.moveJoint, jointIndex, targetDegrees⟩)).2).length =
        FrameCodec.headerSize + 1 := by
  rw [FrameCodec.WellFormed, FrameCodec.length_encode, response_moveJoint]
  split_ifs
  · exact ⟨by decide, rfl⟩
  · exact ⟨by decide, rfl⟩

/-! ### The client's calls -/

theorem exchange_of_lost (server : Server) (command : Command) {delivery : Delivery}
    (h : (delivery.arrives && delivery.sent) = false) :
    server.exchange command delivery = (server.others delivery.others, .error .transportFailure) := by
  rw [exchange, h]
  refine congrArg (Prod.mk _) ?_
  cases delivery.sent <;> rfl

theorem exchange_of_arrives (server : Server) (command : Command) {delivery : Delivery}
    (h : (delivery.arrives && delivery.sent) = true)
    (hwell : FrameCodec.WellFormed ((server.others delivery.others).dispatch (buildRequestFrame command)).2) :
    server.exchange command delivery = (((server.others delivery.others).dispatch (buildRequestFrame command)).1,
      if (FrameCodec.encode ((server.others delivery.others).dispatch (buildRequestFrame command)).2).length ≤
          delivery.receives.sum
      then interpretResponse command ((server.others delivery.others).dispatch (buildRequestFrame command)).2
      else .error .transportFailure) := by
  rw [exchange, h, serve_eq]
  exact congrArg (Prod.mk _) (execute_part hwell delivery.receives)

/-- A call that moves a joint: its request is lost, or it is carried out, and the answer says whether the joint took
the target, or is lost. -/
theorem exchange_moveJoint (server : Server) (jointIndex : BitVec 8) (targetDegrees : Binary64) (delivery : Delivery) :
    (server.exchange ⟨.moveJoint, jointIndex, targetDegrees⟩ delivery).1.settings =
        (if delivery.arrives && delivery.sent
          then server.settings.modify jointIndex.toNat (·.take (radians targetDegrees)) else server.settings) ∧
      (server.exchange ⟨.moveJoint, jointIndex, targetDegrees⟩ delivery).2 =
        if ¬(delivery.arrives && delivery.sent) ∨ delivery.receives.sum ≤ FrameCodec.headerSize
        then .error .transportFailure
        else if ∃ setting ∈ server.settings[jointIndex.toNat]?, setting.Takes (radians targetDegrees)
        then .ok ⟨.ok, none⟩ else .error .serverReportedError := by
  cases harrives : delivery.arrives && delivery.sent with
  | false =>
      rw [exchange_of_lost server _ harrives, if_neg Bool.false_ne_true, if_pos (.inl Bool.false_ne_true)]
      exact ⟨server.settings_others delivery.others, rfl⟩
  | true =>
      obtain ⟨hwell, hlength⟩ :=
        (server.others delivery.others).wellFormed_response_moveJoint jointIndex targetDegrees
      rw [exchange_of_arrives server _ harrives hwell, if_pos rfl, hlength]
      refine ⟨?_, ?_⟩
      · rw [settings_dispatch_moveJoint, settings_others]
      · dsimp only
        by_cases hsum : delivery.receives.sum ≤ FrameCodec.headerSize
        · rw [if_neg (by omega), if_pos (.inr hsum)]
        · rw [if_pos (by omega), if_neg (not_or.2 ⟨not_not.2 rfl, hsum⟩), response_moveJoint, settings_others]
          split_ifs
          · rfl
          · rfl

end Server

/-! ### `write` -/

/-- The request gets there and as many bytes of the answer come back. -/
def Delivery.Completes (delivery : Delivery) (bytes : Nat) : Prop :=
  (delivery.arrives && delivery.sent) = true ∧ bytes ≤ delivery.receives.sum

instance (delivery : Delivery) (bytes : Nat) : Decidable (delivery.Completes bytes) :=
  inferInstanceAs (Decidable (_ ∧ _))

/-- A prefix of the targets is acknowledged, and it is what is carried out, or that and one more, whose
acknowledgement is lost. -/
structure Written (settings : List Setting) (targets : List Binary64) (after : List Setting) (result : ReturnType)
    (complete : Prop) (acknowledged carried : Nat) : Prop where
  acknowledged_le : acknowledged ≤ carried
  carried_le : carried ≤ acknowledged + 1
  carried_le_length : carried ≤ targets.length
  takes : List.Forall₂ Setting.Takes (settings.take acknowledged) (targets.take acknowledged)
  settings_eq : after = Setting.assign settings (targets.take carried)
  ok_iff : result = .ok ↔ acknowledged = targets.length
  of_complete : complete → after = Setting.assign settings (targets.take acknowledged) ∧
    (List.Forall₂ Setting.Takes (settings.take targets.length) targets → result = .ok)

section
variable {settings after : List Setting} {targets : List Binary64} {target : Binary64} {complete : Prop}

theorem Written.nil (settings : List Setting) (complete : Prop) :
    Written settings [] settings .ok complete 0 0 where
  acknowledged_le := Nat.le_refl _
  carried_le := Nat.zero_le _
  carried_le_length := Nat.zero_le _
  takes := .nil
  settings_eq := (Setting.assign_nil settings).symm
  ok_iff := iff_of_true rfl rfl
  of_complete _ := ⟨(Setting.assign_nil settings).symm, fun _ => rfl⟩

/-- A request that is lost, or refused, is the last. -/
theorem Written.stop (h : complete → ∀ setting ∈ settings.head?, ¬setting.Takes target) :
    Written settings (target :: targets) settings .error complete 0 0 where
  acknowledged_le := Nat.le_refl _
  carried_le := Nat.zero_le _
  carried_le_length := Nat.zero_le _
  takes := .nil
  settings_eq := (Setting.assign_nil settings).symm
  ok_iff := iff_of_false (by decide) (Nat.succ_ne_zero _).symm
  of_complete hcomplete := by
    refine ⟨(Setting.assign_nil settings).symm, fun hall => ?_⟩
    cases settings with
    | nil => cases hall
    | cons setting settings =>
        cases hall with
        | cons htakes _ => exact absurd htakes (h hcomplete setting rfl)

/-- A request whose answer is lost is the last. -/
theorem Written.lost (h : ¬complete) :
    Written settings (target :: targets) (Setting.assign settings [target]) .error complete 0 1 where
  acknowledged_le := Nat.zero_le _
  carried_le := Nat.le_refl _
  carried_le_length := Nat.succ_le_succ (Nat.zero_le _)
  takes := .nil
  settings_eq := rfl
  ok_iff := iff_of_false (by decide) (Nat.succ_ne_zero _).symm
  of_complete hcomplete := absurd hcomplete h

theorem Written.cons {setting : Setting} {result : ReturnType} {acknowledged carried : Nat}
    (htakes : setting.Takes target) (h : Written settings targets after result complete acknowledged carried) :
    Written (setting :: settings) (target :: targets) (setting.take target :: after) result complete
      (acknowledged + 1) (carried + 1) where
  acknowledged_le := Nat.succ_le_succ h.acknowledged_le
  carried_le := Nat.succ_le_succ h.carried_le
  carried_le_length := Nat.succ_le_succ h.carried_le_length
  takes := .cons htakes h.takes
  settings_eq := congrArg (List.cons _) h.settings_eq
  ok_iff := h.ok_iff.trans Nat.succ_inj.symm
  of_complete hcomplete := by
    obtain ⟨hafter, hall⟩ := h.of_complete hcomplete
    refine ⟨congrArg (List.cons _) hafter, fun hevery => ?_⟩
    cases hevery with
    | cons _ hrest => exact hall hrest

end

theorem getElem?_length_append {α : Type*} (done rest : List α) : (done ++ rest)[done.length]? = rest.head? := by
  rw [List.getElem?_append_right (Nat.le_refl _), Nat.sub_self, List.head?_eq_getElem?]

theorem modify_length_append (done : List Setting) (rest : List Setting) (target : Binary64) :
    (done ++ rest).modify done.length (·.take target) = done ++ Setting.assign rest [target] := by
  induction done with
  | nil =>
      cases rest with
      | nil => rfl
      | cons setting rest =>
          rw [Setting.assign, Setting.assign_nil]
          rfl
  | cons setting done ih => exact congrArg (List.cons setting) ih

/-- The target that a commanded position comes to. -/
def commandedTarget (commanded : Binary64) : Binary64 := Server.radians (toDegrees commanded)

/-- One turn of the loop, with the joints before it done: it stops with nothing changed, or with the answer lost, or
goes on. -/
theorem exchange_moveCommand {server : Server} {done rest : List Setting} (h : server.settings = done ++ rest)
    (hfit : done.length < 256) (commanded : Binary64) (delivery : Delivery) :
    ∃ after result, server.exchange (moveCommand done.length commanded) delivery = (after, result) ∧
      ((after.settings = done ++ rest ∧ (∃ e, result = .error e) ∧ (delivery.Completes (FrameCodec.headerSize + 1) →
          ∀ setting ∈ rest.head?, ¬setting.Takes (commandedTarget commanded))) ∨
        (after.settings = done ++ Setting.assign rest [commandedTarget commanded] ∧ (∃ e, result = .error e) ∧
          ¬delivery.Completes (FrameCodec.headerSize + 1)) ∨
        ∃ setting later, rest = setting :: later ∧ setting.Takes (commandedTarget commanded) ∧
          after.settings = done ++ [setting.take (commandedTarget commanded)] ++ later ∧ result = .ok ⟨.ok, none⟩) := by
  have hindex : (BitVec.ofNat 8 done.length).toNat = done.length := by
    rw [BitVec.toNat_ofNat]
    exact Nat.mod_eq_of_lt hfit
  obtain ⟨hsettings, hresult⟩ :=
    server.exchange_moveJoint (BitVec.ofNat 8 done.length) (toDegrees commanded) delivery
  rw [hindex, h, modify_length_append] at hsettings
  rw [hindex, h, getElem?_length_append] at hresult
  change (server.exchange (moveCommand done.length commanded) delivery).1.settings =
    (if _ then done ++ Setting.assign rest [commandedTarget commanded] else _) at hsettings
  change (server.exchange (moveCommand done.length commanded) delivery).2 = _ at hresult
  generalize server.exchange (moveCommand done.length commanded) delivery = exchanged at hsettings hresult
  refine ⟨exchanged.1, exchanged.2, rfl, ?_⟩
  rw [hsettings, hresult]
  by_cases harrives : (delivery.arrives && delivery.sent) = true
  swap
  · rw [if_neg harrives, if_pos (.inl harrives)]
    exact .inl ⟨rfl, ⟨_, rfl⟩, fun hall => absurd hall.1 harrives⟩
  rw [if_pos harrives]
  by_cases hsum : delivery.receives.sum ≤ FrameCodec.headerSize
  · rw [if_pos (.inr hsum)]
    refine .inr (.inl ⟨rfl, ⟨_, rfl⟩, fun hall => ?_⟩)
    exact absurd hall.2 (by omega)
  rw [if_neg (not_or.2 ⟨not_not.2 harrives, hsum⟩)]
  cases rest with
  | nil => exact .inl ⟨rfl, ⟨_, if_neg fun htakes => Option.not_mem_none _ htakes.choose_spec.1⟩,
      fun _ setting hsetting => absurd hsetting (Option.not_mem_none _)⟩
  | cons setting later =>
      by_cases htakes : setting.Takes (commandedTarget commanded)
      · rw [if_pos ⟨setting, rfl, htakes⟩, Setting.assign, Setting.assign_nil, List.append_cons]
        exact .inr (.inr ⟨setting, later, rfl, htakes, rfl, rfl⟩)
      · have hnone : ∀ setting' ∈ (setting :: later).head?, ¬setting'.Takes (commandedTarget commanded) := by
          intro setting' hsetting
          obtain rfl := Option.some.inj hsetting
          exact htakes
        rw [if_neg fun ⟨setting', hsetting, htakes'⟩ => hnone setting' hsetting htakes', Setting.assign,
          Setting.assign_nil, Setting.take, if_neg htakes]
        exact .inl ⟨rfl, ⟨_, rfl⟩, fun _ => hnone⟩

/-- The loop of `write`, from the joint after those done. -/
theorem written_writeFrom (deliveries : Nat → Delivery) {complete : Prop} (commands : List Binary64) {server : Server}
    {done rest : List Setting} (h : server.settings = done ++ rest) (hfit : done.length + commands.length ≤ 256)
    (hcomplete : complete → ∀ i < done.length + commands.length,
      (deliveries i).Completes (FrameCodec.headerSize + 1)) :
    ∃ after acknowledged carried, (writeFrom server deliveries done.length commands).1.settings = done ++ after ∧
      Written rest (commands.map commandedTarget) after (writeFrom server deliveries done.length commands).2 complete
        acknowledged carried := by
  induction commands generalizing server done rest with
  | nil => exact ⟨rest, 0, 0, h, .nil rest complete⟩
  | cons commanded commands ih =>
      rw [List.length_cons] at hfit hcomplete
      obtain ⟨after, result, hexchange, hcases⟩ :=
        exchange_moveCommand h (by omega) commanded (deliveries done.length)
      rw [writeFrom, hexchange]
      rcases hcases with ⟨hafter, ⟨e, rfl⟩, hstop⟩ | ⟨hafter, ⟨e, rfl⟩, hlost⟩ |
        ⟨setting, later, rfl, htakes, hafter, rfl⟩
      · exact ⟨rest, 0, 0, hafter, .stop fun hall => hstop (hcomplete hall _ (by omega))⟩
      · exact ⟨_, 0, 1, hafter, .lost fun hall => hlost (hcomplete hall _ (by omega))⟩
      · have hlength : (done ++ [setting.take (commandedTarget commanded)]).length = done.length + 1 := by
          rw [List.length_append, List.length_singleton]
        obtain ⟨later', acknowledged, carried, hlater, hwritten⟩ := ih hafter (by rw [hlength]; omega)
          (by rw [hlength]; exact fun hall i hi => hcomplete hall i (by omega))
        rw [hlength, List.append_assoc] at hlater
        rw [hlength] at hwritten
        exact ⟨_, _, _, hlater, hwritten.cons htakes⟩

namespace RobotEmulatorHardwareInterface

/-- **A write is a prefix.** Wherever the connection fails, and whatever the other threads do in between, the joints
before some place have been given their targets, and have taken them; those after it keep theirs, and `write` says so:
it succeeds exactly if every request was acknowledged. One request at most is carried out without being acknowledged,
and if the connection does not fail, none: then `write` succeeds exactly if every joint takes its target. -/
theorem write_prefix (interface : RobotEmulatorHardwareInterface) (server : Server) (deliveries : Nat → Delivery)
    (hclient : interface.client = true) (hcount : interface.hwCommandsPosition.length ≤ 255) :
    ∃ acknowledged carried, Written server.settings (interface.hwCommandsPosition.map commandedTarget)
      (interface.write server deliveries).1.settings (interface.write server deliveries).2
      (∀ i < interface.hwCommandsPosition.length, (deliveries i).Completes (FrameCodec.headerSize + 1))
      acknowledged carried := by
  have hnone : server.settings = [] ++ server.settings := rfl
  obtain ⟨after, acknowledged, carried, hafter, hwritten⟩ := written_writeFrom deliveries interface.hwCommandsPosition
    hnone (by rw [List.length_nil]; omega) (by rw [List.length_nil, Nat.zero_add]; exact id)
  have hwrite : interface.write server deliveries = writeFrom server deliveries 0 interface.hwCommandsPosition := by
    rw [write, hclient]
    rfl
  rw [hwrite]
  exact ⟨acknowledged, carried, hafter ▸ hwritten⟩

/-- Two joints commanded; the acknowledgement of the second is cut short. -/
theorem write_prefix_cut :
    ∃ acknowledged carried, Written Server.enabledScenario.settings
      ([Binary64.ofInt 1, Binary64.ofInt 1].map commandedTarget)
      (write ⟨true, [], [], [Binary64.ofInt 1, Binary64.ofInt 1]⟩ Server.enabledScenario
        fun index => ⟨[.control], true, true, [13 - index]⟩).1.settings
      (write ⟨true, [], [], [Binary64.ofInt 1, Binary64.ofInt 1]⟩ Server.enabledScenario
        fun index => ⟨[.control], true, true, [13 - index]⟩).2
      (∀ i < 2, Delivery.Completes ⟨[.control], true, true, [13 - i]⟩ (FrameCodec.headerSize + 1))
      acknowledged carried :=
  write_prefix ⟨true, [], [], [Binary64.ofInt 1, Binary64.ofInt 1]⟩ Server.enabledScenario
    (fun index => ⟨[.control], true, true, [13 - index]⟩) rfl (by decide)

end RobotEmulatorHardwareInterface
end RobotEmu

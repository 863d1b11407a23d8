import RobotEmu.ServerRun

/-! What of the server moves: the joints and the controller that gates them, over any arithmetic. Over
doubles it is the server with its bytes left out, item by item; over exact numbers it is what the server
would do without rounding. -/

namespace RobotEmu

structure Plant (F : Type*) [Arith F] where
  robot : Robot F
  controller : ControllerStateMachine

/-- A control step over some period, a request as its handler understands it, a triggered emergency stop, or
something that moves nothing. -/
inductive PlantEvent (F : Type*) where
  | control (period : Int)
  | enable
  | disable
  | home
  | moveJoint (index : Nat) (target : F)
  | stop
  | trigger
  | other

namespace Plant

variable {F : Type*} [Arith F]

def boot (config : RobotConfig F) (h : config.validate = .ok ()) : Plant F := ⟨.ofConfig config h, .booted⟩

/-- A joint takes its target, and the motion begins if the controller is ready. -/
def moveJoint (plant : Plant F) (index : Nat) (target : F) : Plant F :=
  if h : index < plant.robot.jointCount then
    let joint := plant.robot.joint index h
    let set := joint.setTargetPosition target
    let plant := { plant with
      robot := plant.robot.setJoint index h set.2 (joint.limits_setTargetPosition target) }
    match set.1 with
    | .error _ => plant
    | .ok () =>
        if plant.controller.state = .ready then
          { plant with controller := plant.controller.after .commandMove }
        else plant
  else plant

def next (plant : Plant F) : PlantEvent F → Plant F
  | .control period =>
      { plant with robot := if plant.controller.state = .moving then plant.robot.update period else plant.robot }
  | .enable =>
      { robot := plant.robot.forJoints Joint.enable Joint.limits_enable
        controller := (plant.controller.after .servoEnable).after .controllerReady }
  | .disable =>
      { robot := plant.robot.forJoints Joint.disable Joint.limits_disable
        controller := plant.controller.after .servoDisable }
  | .home => { plant with robot := plant.robot.forJoints Joint.home Joint.limits_home }
  | .moveJoint index target => plant.moveJoint index target
  | .stop => { plant with controller := (plant.controller.after .commandStop).after .stopComplete }
  | .trigger => { plant with controller := plant.controller.after .eStopTriggered }
  | .other => plant

end Plant

namespace Server

def plant (server : Server) : Plant Binary64 := ⟨server.robot, server.controller⟩

/-- What an item is to the plant. -/
def event (server : Server) : Item → PlantEvent Binary64
  | .control => .control server.controlLoop.period
  | .watchdog => .trigger
  | .request frame =>
      match frame.type with
      | .enable => .enable
      | .disable => .disable
      | .home => .home
      | .stop => .stop
      | .emergencyStop => .trigger
      | .moveJoint =>
          match decodeMoveJointPayload frame.payload with
          | .error _ => .other
          | .ok payload => .moveJoint payload.jointIndex.toNat payload.targetRadians
      | _ => .other

/-- Each item takes the server's plant where its event takes it. -/
theorem plant_next (server : Server) (item : Item) :
    (server.next item).plant = server.plant.next (server.event item) := by
  cases item with
  | control => rfl
  | watchdog => rfl
  | request frame =>
      obtain ⟨flags, type, payload⟩ := frame
      cases type with
      | moveJoint =>
          simp only [next, dispatch, handleMoveJoint, event]
          cases decodeMoveJointPayload payload with
          | error e => rfl
          | ok decoded =>
              dsimp only
              rw [Plant.next, Plant.moveJoint]
              by_cases hindex : decoded.jointIndex.toNat < server.robot.jointCount
              · rw [dif_pos hindex, dif_pos (show _ < server.plant.robot.jointCount from hindex)]
                dsimp only [plant]
                cases ((server.robot.joint _ hindex).setTargetPosition decoded.targetRadians).1 with
                | error e => rfl
                | ok done =>
                    dsimp only
                    by_cases hready : server.controller.state = .ready
                    · rw [if_pos hready, if_pos hready]
                    · rw [if_neg hready, if_neg hready]
              · rw [dif_neg hindex, dif_neg (show ¬_ < server.plant.robot.jointCount from hindex)]
      | _ => rfl

/-- The events of a run, each as the server it is taken from understands it. -/
def events : Server → List Item → List (PlantEvent Binary64)
  | _, [] => []
  | server, item :: items => server.event item :: (server.next item).events items

theorem plant_run (server : Server) (items : List Item) :
    (Machine.run next server items).plant = Machine.run Plant.next server.plant (server.events items) := by
  induction items generalizing server with
  | nil => rfl
  | cons item items ih => rw [Machine.run_cons, ih, events, Machine.run_cons, plant_next]

end Server
end RobotEmu

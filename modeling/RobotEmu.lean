import RobotEmu.Binary64Difference
import RobotEmu.Binary64Error
import RobotEmu.CliNumbering
import RobotEmu.CliReplay
import RobotEmu.ClientSession
import RobotEmu.ControllerHistory
import RobotEmu.CoreRates
import RobotEmu.CoreVelocityTarget
import RobotEmu.FaultInjector
import RobotEmu.HardwareSetpoints
import RobotEmu.MotionDuration
import RobotEmu.MotionEnvelope
import RobotEmu.MotionTrajectory
import RobotEmu.RosBridge
import RobotEmu.RuntimeControlLoop
import RobotEmu.SafetyInterleaving
import RobotEmu.SafetyLimitMonitor
import RobotEmu.SensorsEncoder
import RobotEmu.SensorsLag
import RobotEmu.ServerEnvelope
import RobotEmu.ServerJoints
import RobotEmu.ServerReport
import RobotEmu.ServerSupervision
import RobotEmu.ServerThreads
import RobotEmu.ServerVelocity
import RobotEmu.WebSocketDigest
import RobotEmu.WebSocketEncoding
import RobotEmu.WebSocketFrames
import RobotEmu.WebSocketHandshake
import RobotEmu.WebSocketSession

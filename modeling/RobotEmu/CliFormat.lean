import RobotEmu.CliPayload
import RobotEmu.StdFormat

/-! `format.cpp`: a status report as a table with a row for each joint. -/

namespace RobotEmu

open StdFormat

def toDegrees (radians : Binary64) : Binary64 := radians * Binary64.ofInt 180 / Numbers.pi

def newline : List Byte := [0x0A]

/-- The degree sign in UTF-8. -/
def degreeSign : List Byte := [0xC2, 0xB0]

/-- The row printed for the joint of index `i`. -/
def statusRow (i : Nat) (joint : JointStatus) : List Byte :=
  0x4A :: left 6 (digits (i + 1)) ++ bytesOf " " ++
    right 7 (fixed 2 (toDegrees joint.positionRadians)) ++ degreeSign ++ bytesOf "  " ++
    right 7 (fixed 2 (toDegrees joint.velocityRadiansPerSecond)) ++ newline

def statusRows (status : StatusPayload) : List (List Byte) := status.joints.mapIdx statusRow

/-- A row that starts with the label `Jk`. -/
def Labelled (k : Nat) (row : List Byte) : Prop := 0x4A :: digits k ++ bytesOf " " <+: row

theorem replicate_append_comm {α : Type*} (n : Nat) (a : α) : List.replicate n a ++ [a] = a :: List.replicate n a :=
  (List.replicate_succ' ..).symm.trans List.replicate_succ

/-- After its label a row goes on with a space. -/
theorem exists_statusRow_eq (i : Nat) (joint : JointStatus) :
    ∃ rest, statusRow i joint = 0x4A :: digits (i + 1) ++ bytesOf " " ++ rest := by
  have hspace : bytesOf " " = [0x20] := by decide
  refine ⟨List.replicate (6 - (digits (i + 1)).length) 0x20 ++ (right 7 (fixed 2 (toDegrees joint.positionRadians)) ++
    (degreeSign ++ (bytesOf "  " ++ (right 7 (fixed 2 (toDegrees joint.velocityRadiansPerSecond)) ++ newline)))), ?_⟩
  rw [statusRow, left, hspace]
  simp only [List.cons_append, List.append_assoc, List.nil_append]
  rw [← List.singleton_append (x := (0x20 : Byte)), ← List.append_assoc (List.replicate _ _), replicate_append_comm]
  rfl

/-- The row of the joint of index `i` has the label of the number above. -/
theorem labelled_statusRow_iff {k i : Nat} {joint : JointStatus} : Labelled k (statusRow i joint) ↔ i + 1 = k := by
  obtain ⟨rest, hrow⟩ := exists_statusRow_eq i joint
  have hstop : ∀ tail : List Byte, ∀ c ∈ (bytesOf " " ++ tail).head?, FromChars.isDigit c = false := by
    intro tail c hc
    obtain rfl := Option.some.inj hc
    decide
  rw [Labelled, hrow]
  constructor
  · rintro ⟨tail, htail⟩
    rw [List.cons_append, List.cons_append, List.cons_append, List.cons_append, List.append_assoc,
      List.append_assoc] at htail
    exact (digits_append_inj (hstop tail) (hstop rest) (List.cons.inj htail).2).1.symm
  · rintro rfl
    exact ⟨rest, rfl⟩

end RobotEmu

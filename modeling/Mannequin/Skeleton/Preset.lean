import Mannequin.Skeleton
import Mannequin.Skeleton.Side

/-!
# Preset skeletons

Built-in skeletons of a human figure that stands upright, one unit to the meter
and the left side at positive `X`. All share a trunk and differ in their limbs.
A limb is listed for the left side; the right one is its mirror image.
-/

namespace Mannequin.Preset

/-- A bone of a table. Coordinates are in hundredths. -/
structure Row where
  name : String
  parent : Option String
  head : Int × Int × Int
  tail : Int × Int × Int
  deriving DecidableEq, Repr

/-- A number of hundredths. -/
def hundredths {α : Type} [Scalar α] (n : Int) : α :=
  if n < 0 then -Scalar.ofDecimal n.natAbs (-2) else Scalar.ofDecimal n.natAbs (-2)

namespace Row

/-- The point with coordinates in hundredths. -/
def point {α : Type} [Scalar α] (p : Int × Int × Int) : Vec3 α :=
  ⟨hundredths p.1, hundredths p.2.1, hundredths p.2.2⟩

def bone {α : Type} [Scalar α] (row : Row) : Bone α :=
  ⟨row.name, row.parent, point row.head, point row.tail⟩

/-- The mirror image on the other side. -/
def opposite (row : Row) : Row :=
  { name := Side.mirrorName row.name
    parent := row.parent.map Side.mirrorName
    head := (-row.head.1, row.head.2)
    tail := (-row.tail.1, row.tail.2) }

end Row

/-- The bones from the ground to the head. -/
def trunk : List Row :=
  [⟨"root", none, (0, 0, 0), (0, 0, 10)⟩,
   ⟨"hips", "root", (0, 0, 90), (0, 0, 100)⟩,
   ⟨"spine", "hips", (0, 0, 100), (0, 0, 120)⟩,
   ⟨"chest", "spine", (0, 0, 120), (0, 0, 140)⟩,
   ⟨"neck", "chest", (0, 0, 140), (0, 0, 150)⟩,
   ⟨"head", "neck", (0, 0, 150), (0, 0, 170)⟩]

/-- A trunk with two arms and two legs. -/
def body (arm leg : List Row) : List Row :=
  trunk ++ arm ++ arm.map Row.opposite ++ leg ++ leg.map Row.opposite

/-- The bones that every animated figure needs. -/
def basic : List Row :=
  body
    [⟨"shoulder_l", "chest", (10, 0, 135), (20, 0, 135)⟩,
     ⟨"upper_arm_l", "shoulder_l", (20, 0, 135), (45, 0, 135)⟩,
     ⟨"lower_arm_l", "upper_arm_l", (45, 0, 135), (70, 0, 135)⟩,
     ⟨"hand_l", "lower_arm_l", (70, 0, 135), (80, 0, 135)⟩]
    [⟨"upper_leg_l", "hips", (10, 0, 90), (10, 0, 50)⟩,
     ⟨"lower_leg_l", "upper_leg_l", (10, 0, 50), (10, 0, 10)⟩,
     ⟨"foot_l", "lower_leg_l", (10, 0, 10), (10, 15, 0)⟩]

/-- Hands with all finger joints, and toes. -/
def detailed : List Row :=
  body
    [⟨"shoulder_l", "chest", (10, 0, 135), (20, 0, 135)⟩,
     ⟨"upper_arm_l", "shoulder_l", (20, 0, 135), (45, 0, 135)⟩,
     ⟨"lower_arm_l", "upper_arm_l", (45, 0, 135), (70, 0, 135)⟩,
     ⟨"hand_l", "lower_arm_l", (70, 0, 135), (78, 0, 135)⟩,
     ⟨"thumb_01_l", "hand_l", (72, 2, 134), (75, 4, 132)⟩,
     ⟨"thumb_02_l", "thumb_01_l", (75, 4, 132), (78, 5, 130)⟩,
     ⟨"thumb_03_l", "thumb_02_l", (78, 5, 130), (80, 6, 129)⟩,
     ⟨"index_01_l", "hand_l", (78, 2, 136), (82, 2, 136)⟩,
     ⟨"index_02_l", "index_01_l", (82, 2, 136), (85, 2, 136)⟩,
     ⟨"index_03_l", "index_02_l", (85, 2, 136), (87, 2, 136)⟩,
     ⟨"middle_01_l", "hand_l", (78, 0, 135), (83, 0, 135)⟩,
     ⟨"middle_02_l", "middle_01_l", (83, 0, 135), (87, 0, 135)⟩,
     ⟨"middle_03_l", "middle_02_l", (87, 0, 135), (89, 0, 135)⟩,
     ⟨"ring_01_l", "hand_l", (78, -2, 134), (82, -2, 134)⟩,
     ⟨"ring_02_l", "ring_01_l", (82, -2, 134), (85, -2, 134)⟩,
     ⟨"ring_03_l", "ring_02_l", (85, -2, 134), (87, -2, 134)⟩,
     ⟨"pinky_01_l", "hand_l", (78, -4, 133), (81, -4, 133)⟩,
     ⟨"pinky_02_l", "pinky_01_l", (81, -4, 133), (83, -4, 133)⟩,
     ⟨"pinky_03_l", "pinky_02_l", (83, -4, 133), (85, -4, 133)⟩]
    [⟨"upper_leg_l", "hips", (10, 0, 90), (10, 0, 50)⟩,
     ⟨"lower_leg_l", "upper_leg_l", (10, 0, 50), (10, 0, 10)⟩,
     ⟨"foot_l", "lower_leg_l", (10, 0, 10), (10, 12, 2)⟩,
     ⟨"toe_l", "foot_l", (10, 12, 2), (10, 18, 0)⟩]

/-- One bone to a finger, and twist bones along the limbs. -/
def game : List Row :=
  body
    [⟨"shoulder_l", "chest", (10, 0, 135), (20, 0, 135)⟩,
     ⟨"upper_arm_l", "shoulder_l", (20, 0, 135), (45, 0, 135)⟩,
     ⟨"upper_arm_twist_l", "upper_arm_l", (35, 0, 135), (45, 0, 135)⟩,
     ⟨"lower_arm_l", "upper_arm_l", (45, 0, 135), (70, 0, 135)⟩,
     ⟨"lower_arm_twist_l", "lower_arm_l", (60, 0, 135), (70, 0, 135)⟩,
     ⟨"hand_l", "lower_arm_l", (70, 0, 135), (78, 0, 135)⟩,
     ⟨"thumb_l", "hand_l", (72, 2, 134), (78, 5, 130)⟩,
     ⟨"index_l", "hand_l", (78, 2, 136), (86, 2, 136)⟩,
     ⟨"middle_l", "hand_l", (78, 0, 135), (88, 0, 135)⟩,
     ⟨"ring_l", "hand_l", (78, -2, 134), (86, -2, 134)⟩,
     ⟨"pinky_l", "hand_l", (78, -4, 133), (84, -4, 133)⟩]
    [⟨"upper_leg_l", "hips", (10, 0, 90), (10, 0, 50)⟩,
     ⟨"upper_leg_twist_l", "upper_leg_l", (10, 0, 65), (10, 0, 50)⟩,
     ⟨"lower_leg_l", "upper_leg_l", (10, 0, 50), (10, 0, 10)⟩,
     ⟨"lower_leg_twist_l", "lower_leg_l", (10, 0, 25), (10, 0, 10)⟩,
     ⟨"foot_l", "lower_leg_l", (10, 0, 10), (10, 12, 2)⟩,
     ⟨"toe_l", "foot_l", (10, 12, 2), (10, 18, 0)⟩]

/-- The presets by name. -/
def all : List (String × List Row) :=
  [("humanoid_basic_v1", basic), ("humanoid_detailed_v1", detailed), ("humanoid_game_v1", game)]

/-- The names of the presets. -/
def names : List String := all.map Prod.fst

/-- The preset of a character that names none. -/
def standard : String := "humanoid_basic_v1"

/-- The bones of a preset, parents before children. -/
def bones? {α : Type} [Scalar α] (name : String) : Option (List (Bone α)) :=
  (all.lookup name).map (·.map Row.bone)

end Mannequin.Preset

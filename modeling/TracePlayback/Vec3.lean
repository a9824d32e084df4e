/-!
# Vectors of three singles

Every operation works component by component and rounds each step by itself, from left to right.
-/
namespace TracePlayback

/-- A point or a displacement in space. -/
structure Vec3 where
  x : Float32
  y : Float32
  z : Float32
  deriving DecidableEq

namespace Vec3

def zero : Vec3 := ⟨0, 0, 0⟩

instance : Inhabited Vec3 := ⟨zero⟩

instance : Add Vec3 := ⟨fun a b => ⟨a.x + b.x, a.y + b.y, a.z + b.z⟩⟩
instance : Sub Vec3 := ⟨fun a b => ⟨a.x - b.x, a.y - b.y, a.z - b.z⟩⟩
instance : Neg Vec3 := ⟨fun a => ⟨-a.x, -a.y, -a.z⟩⟩
instance : HMul Vec3 Float32 Vec3 := ⟨fun a s => ⟨a.x * s, a.y * s, a.z * s⟩⟩

def dot (a b : Vec3) : Float32 := a.x * b.x + a.y * b.y + a.z * b.z

def lengthSquared (a : Vec3) : Float32 := a.dot a

def length (a : Vec3) : Float32 := a.lengthSquared.sqrt

def isFinite (a : Vec3) : Bool := a.x.isFinite && a.y.isFinite && a.z.isFinite

/-- The vector of length one in the same direction; zero where there is none. -/
def normalizeOrZero (a : Vec3) : Vec3 :=
  let r := 1 / a.length
  if r.isFinite ∧ 0 < r then a * r else zero

/-- The point at the fraction `s` of the way from `a` to `b`. -/
def lerp (a b : Vec3) (s : Float32) : Vec3 := a + (b - a) * s

end Vec3
end TracePlayback

import TracePlayback.Text.Utf8

/-!
# Paths

A path is the bytes that name a file or directory: parts with slashes between them. From left to
right the parts are moves from directory to directory, beginning in the root if the path begins with
a slash, and else in the directory that a program works in.
-/
namespace TracePlayback

abbrev Bytes := List UInt8

/-- The name of a file or directory, and the way to it. -/
structure Path where
  bytes : Bytes
  deriving DecidableEq, Repr

namespace Path

def ofString (s : String) : Path := ⟨s.toUTF8.toList⟩

/-- The path as messages show it. -/
def display (p : Path) : String := String.ofList (Text.Utf8.decodeLossy p.bytes)

def maxLength : Nat := 4095

def maxNameLength : Nat := 255

/-- Whether a path can be used at all: it is not too long, and no byte of it is zero. -/
def isUsable (p : Path) : Bool := p.bytes.length ≤ maxLength && !p.bytes.contains 0

/-! ## Parts -/

/-- The byte between the parts of a path. -/
def separator : UInt8 := '/'.toUInt8

/-- The part that stands for the directory it is in. -/
def here : Bytes := ['.'.toUInt8]

/-- The part that stands for the directory above. -/
def above : Bytes := ['.'.toUInt8, '.'.toUInt8]

/-- The parts of a path, from left to right. -/
def parts (p : Path) : List Bytes := p.bytes.splitOn separator

/-- Whether a part leads nowhere: it is empty, or a single point. -/
def isIdle (part : Bytes) : Bool := part = [] ∨ part = here

def isAbsolute (p : Path) : Bool := p.bytes.head? = some separator

/-- A step from one directory to another. -/
inductive Move where
  | up
  | down (name : Bytes)
  deriving DecidableEq, Repr

def moves (p : Path) : List Move :=
  (p.parts.filter fun part => !isIdle part).map fun part =>
    if part = above then .up else .down part

/-- The name of the file that a path leads to; none if its last part names nothing. -/
def fileName? (p : Path) : Option Bytes :=
  p.parts.getLast?.filter fun part => !isIdle part && part ≠ above

/-! ## The path around a path -/

/-- Parts without the idle ones at their end. The first stays: it tells where the path begins. -/
def trimEnd : List Bytes → List Bytes
  | [] => []
  | first :: rest => first :: (rest.reverse.dropWhile isIdle).reverse

/-- The path of parts. -/
def ofParts : List Bytes → Path
  | [[]] => ⟨[separator]⟩
  | parts => ⟨List.intercalate [separator] parts⟩

/-- The path without the last part that is not idle; none if that leaves nothing to take away. -/
def parent? (p : Path) : Option Path :=
  match trimEnd p.parts with
  | [] => none
  | [first] => if first = [] then none else some ⟨[]⟩
  | parts => some (ofParts (trimEnd parts.dropLast))

end Path
end TracePlayback

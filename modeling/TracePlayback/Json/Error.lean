import TracePlayback.Json.Token
import TracePlayback.Decimal.Notation
import TracePlayback.Text.Quoted

/-!
# Why a text does not decode

Either the text is no JSON, or it is JSON that does not fit the type asked for. The second kind
carries its cause; `Mismatch.message` words it.
-/
namespace TracePlayback.Json

/-- What stands where something else was expected. -/
inductive Found where
  | null
  | bool (b : Bool)
  | integer (n : Int)
  | float (x : Float)
  | text (s : String)
  | list
  | object

/-- Why a JSON text does not fit the type asked for. -/
inductive Mismatch where
  /-- A member without a default is not there. -/
  | missing (field : String)
  /-- A known member is given twice, by whichever of its names. -/
  | duplicate (field : String)
  /-- A value of another kind. -/
  | kind (found : Found) (expected : String)
  /-- An integer outside the range of the type. -/
  | range (n : Int) (expected : String)
  /-- A name that is none of the known ones. -/
  | variant (name : String) (known : List String)
  /-- A value that fits none of the shapes it may have. -/
  | alternatives (type : String)
  /-- A list in place of an object that is too short. -/
  | short (count : Nat) (expected : String)
  /-- A list in place of an object that is too long. -/
  | long (count limit : Nat)
  /-- An object in place of a name that does not have exactly one member. -/
  | severalKeys

inductive DecodeError where
  | fault (f : Fault)
  | mismatch (m : Mismatch)

abbrev Result (α : Type) := Except DecodeError α

/-- A name between grave accents. -/
def accented (s : String) : String :=
  let mark := String.singleton '\x60'
  mark ++ s ++ mark

namespace Found

/-- Numbers have all their places from 0.00001 up to below 10^16, and a signed power of ten beyond;
a tie goes to the even digit. -/
def format : Decimal.Format := ⟨.even, fun power => -5 ≤ power ∧ power ≤ 15, true, "NaN"⟩

def message : Found → String
  | .null => "null"
  | .bool b => "boolean " ++ accented (if b then "true" else "false")
  | .integer n => "integer " ++ accented (toString n)
  | .float x => "floating point " ++ accented (Decimal.write format x)
  | .text s => "string " ++ Text.quote s.toList
  | .list => "sequence"
  | .object => "map"

end Found

namespace Mismatch

/-- A choice of names, worded. -/
def choice : List String → String
  | [] => "nothing"
  | [a] => accented a
  | [a, b] => accented a ++ " or " ++ accented b
  | names => "one of " ++ ", ".intercalate (names.map accented)

def message : Mismatch → String
  | .missing field => "missing field " ++ accented field
  | .duplicate field => "duplicate field " ++ accented field
  | .kind found expected => "invalid type: " ++ found.message ++ ", expected " ++ expected
  | .range n expected => "invalid value: integer " ++ accented (toString n) ++ ", expected " ++ expected
  | .variant name known => "unknown variant " ++ accented name ++ ", expected " ++ choice known
  | .alternatives type => "data did not match any variant of untagged enum " ++ type
  | .short count expected => "invalid length " ++ toString count ++ ", expected " ++ expected
  | .long count limit =>
    "invalid length " ++ toString count ++ ", expected " ++
      (if limit = 1 then "1 element in sequence" else toString limit ++ " elements in sequence")
  | .severalKeys => "invalid value: map, expected map with a single key"

end Mismatch
end TracePlayback.Json

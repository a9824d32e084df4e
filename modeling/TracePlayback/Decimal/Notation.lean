import TracePlayback.Decimal.Shortest

/-!
# Notations of floats

A double is written as the shortest decimal that reads back, either with all its places or with one
digit before the point and a power of ten. A `Format` says when it is which, and the few spellings
that differ from one kind of text to another. A whole number always shows `.0`, unless it has a
power of ten.
-/
namespace TracePlayback.Decimal

/-- How doubles are written in one kind of text. -/
structure Format where
  /-- Which of two equally near decimals is written. -/
  tie : Tie
  /-- Whether all places are written, given the power of ten that the first digit counts. -/
  positional : Int → Bool
  /-- Whether a power of ten that is not negative has a plus sign. -/
  plus : Bool
  /-- The text of the value that is no number. -/
  nan : String

/-- The digits of the number, most significant first. -/
def digitChars (d : Decimal) : List Char := Nat.toDigits 10 d.digits

def signChars (d : Decimal) : List Char := if d.negative then ['-'] else []

/-- All places, with a point among or around the digits. -/
def positional (d : Decimal) : List Char :=
  let digits := d.digitChars
  let point : Int := digits.length + d.exponent
  if 0 ≤ d.exponent then digits ++ List.replicate d.exponent.toNat '0' ++ ['.', '0']
  else if 0 < point then digits.take point.toNat ++ ['.'] ++ digits.drop point.toNat
  else ['0', '.'] ++ List.replicate (-point).toNat '0' ++ digits

/-- The power of ten that the first digit counts. -/
def power (d : Decimal) : Int := d.digitChars.length + d.exponent - 1

/-- One digit before the point and the rest after it, with a power of ten. -/
def scientific (plus : Bool) (d : Decimal) : List Char :=
  let sign := if plus ∧ 0 ≤ d.power then ['+'] else []
  let power := ['e'] ++ sign ++ (toString d.power).toList
  match d.digitChars with
  | [] => []
  | [c] => c :: power
  | c :: rest => [c, '.'] ++ rest ++ power

def magnitudeChars (f : Format) (d : Decimal) : List Char :=
  if d.digits = 0 ∨ f.positional d.power then d.positional else d.scientific f.plus

/-- A double as a text. Infinities and the value that is no number are named, the latter without a
sign. -/
def write (f : Format) (x : Float) : String :=
  match shortest? f.tie x with
  | some d => String.ofList (d.signChars ++ d.magnitudeChars f)
  | none => if x.isNaN then f.nan else if x < 0 then "-inf" else "inf"

end TracePlayback.Decimal

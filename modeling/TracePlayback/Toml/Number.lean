import TracePlayback.Decimal.Basic
import TracePlayback.Toml.Text

/-!
# Values of TOML, their numbers and times

A table keeps its keys in the order in which they were first given. An integer has 64 bits with sign; one out of that range is an error. A float is the nearest double,
and an error if that is the positive infinity. Dates and times are only checked for their form.
-/
namespace TracePlayback.Toml

/-- A value. Of a date or time only its presence is kept. -/
inductive Value where
  | text (s : String)
  | integer (n : Int)
  | float (x : Float)
  | bool (b : Bool)
  | moment
  | list (items : List Value)
  | table (entries : List (String × Value))

/-! ## Digits -/

def digit? (base : Nat) (c : Char) : Option Nat := (hexValue? c).filter (· < base)

/-- Reads the digits after a first one: single underscores may stand between digits. -/
def readMoreDigits (base : Nat) : Reader (List Nat)
  | '_' :: c :: rest => do
    let d ← digit? base c
    let (ds, rest) ← readMoreDigits base rest
    some (d :: ds, rest)
  | ['_'] => none
  | c :: rest =>
    match digit? base c with
    | some d => do
      let (ds, rest) ← readMoreDigits base rest
      some (d :: ds, rest)
    | none => some ([], c :: rest)
  | [] => some ([], [])

/-- Reads one or more digits. -/
def readDigits (base : Nat) : Reader (List Nat)
  | [] => none
  | c :: rest => do
    let d ← digit? base c
    let (ds, rest) ← readMoreDigits base rest
    some (d :: ds, rest)

/-- Reads the digits of a decimal whole number. A leading zero stands alone. -/
def readWhole : Reader (List Nat)
  | '0' :: rest => some ([0], rest)
  | cs => readDigits 10 cs

def ofDigits (base : Nat) (ds : List Nat) : Nat := ds.foldl (fun n d => n * base + d) 0

/-! ## Numbers -/

/-- An integer in the range of 64 bits with sign. -/
def integer? (n : Int) : Option Value :=
  if -0x8000000000000000 ≤ n ∧ n < 0x8000000000000000 then some (.integer n) else none

/-- A float that is not the positive infinity. -/
def finite? (d : Decimal) : Option Value :=
  let x := d.toFloat
  if x == 1 / 0 then none else some (.float x)

/-- Reads the exponent of a number, if it has one. -/
def readExponent (cs : List Char) : Option (Option Int × List Char) :=
  let read (negative : Bool) (cs : List Char) := do
    let (ds, rest) ← readDigits 10 cs
    let n : Int := ofDigits 10 ds
    some (some (if negative then -n else n), rest)
  let signed : List Char → Option (Option Int × List Char)
    | '-' :: rest => read true rest
    | '+' :: rest => read false rest
    | rest => read false rest
  match cs with
  | 'e' :: rest => signed rest
  | 'E' :: rest => signed rest
  | _ => some (none, cs)

/-- Reads a decimal number after its sign. -/
def readDecimal (negative : Bool) : Reader Value := fun cs => do
  let (whole, rest) ← readWhole cs
  let (fraction, rest) ←
    match rest with
    | '.' :: rest => do
      let (ds, rest) ← readDigits 10 rest
      some (ds, rest)
    | rest => some ([], rest)
  let (exponent, rest) ← readExponent rest
  let digits := ofDigits 10 (whole ++ fraction)
  if fraction.isEmpty ∧ exponent.isNone then
    return (← integer? (if negative then -digits else digits), rest)
  else
    return (← finite? ⟨negative, digits, exponent.getD 0 - fraction.length⟩, rest)

/-- Reads a whole number to another base after the letter that names it. -/
def readBased (base : Nat) : Reader Value := fun cs => do
  let (ds, rest) ← readDigits base cs
  return (← integer? (ofDigits base ds), rest)

/-- Reads a number or a word for a float after its sign. -/
def readSigned (negative : Bool) : Reader Value
  | 'i' :: 'n' :: 'f' :: rest => some (.float (if negative then -(1 / 0) else 1 / 0), rest)
  | 'n' :: 'a' :: 'n' :: rest => some (.float (0 / 0), rest)
  | cs => readDecimal negative cs

/-! ## Dates and times -/

/-- Reads exactly `count` digits. -/
def readFixed : Nat → Reader (List Nat)
  | 0, cs => some ([], cs)
  | _ + 1, [] => none
  | count + 1, c :: rest => do
    let d ← digit? 10 c
    let (ds, rest) ← readFixed count rest
    some (d :: ds, rest)

/-- Reads two digits of a number within a range. -/
def readPart (low high : Nat) : Reader Nat := fun cs => do
  let (ds, rest) ← readFixed 2 cs
  let n := ofDigits 10 ds
  if low ≤ n ∧ n ≤ high then some (n, rest) else none

def readChar (c : Char) : List Char → Option (List Char)
  | d :: rest => if d = c then some rest else none
  | [] => none

def daysOf (year month : Nat) : Nat :=
  if month = 2 then if year % 4 = 0 ∧ (year % 100 ≠ 0 ∨ year % 400 = 0) then 29 else 28
  else if month = 4 ∨ month = 6 ∨ month = 9 ∨ month = 11 then 30
  else 31

/-- Reads a time of day. -/
def readTime (cs : List Char) : Option (List Char) := do
  let (_, rest) ← readPart 0 23 cs
  let (_, rest) ← readPart 0 59 (← readChar ':' rest)
  let (_, rest) ← readPart 0 60 (← readChar ':' rest)
  match rest with
  | '.' :: c :: rest => if c.isDigit then some (rest.dropWhile Char.isDigit) else none
  | rest => some rest

/-- Reads the distance from universal time, if it is given. -/
def readOffset : List Char → Option (List Char)
  | 'Z' :: rest => some rest
  | 'z' :: rest => some rest
  | c :: rest =>
    if c = '+' ∨ c = '-' then do
      let (_, rest) ← readPart 0 23 rest
      let (_, rest) ← readPart 0 59 (← readChar ':' rest)
      some rest
    else some (c :: rest)
  | [] => some []

/-- Whether a time of day comes next. -/
def startsTime : List Char → Bool
  | a :: b :: ':' :: _ => a.isDigit && b.isDigit
  | _ => false

/-- Whether a date comes next. -/
def startsDate : List Char → Bool
  | a :: b :: c :: d :: '-' :: _ => a.isDigit && b.isDigit && c.isDigit && d.isDigit
  | _ => false

/-- Reads a date, and the time of day after it if there is one. -/
def readDate (cs : List Char) : Option (List Char) := do
  let (year, rest) ← readFixed 4 cs
  let (month, rest) ← readPart 1 12 (← readChar '-' rest)
  let (day, rest) ← readPart 1 31 (← readChar '-' rest)
  if daysOf (ofDigits 10 year) month < day then none
  else
    match rest with
    | c :: after =>
      if (c = 'T' ∨ c = 't' ∨ c = ' ') ∧ startsTime after then readOffset (← readTime after)
      else some rest
    | [] => some []

/-! ## All of them -/

/-- Reads a number, a date or a time. -/
def readNumber : Reader Value := fun cs =>
  if startsDate cs then do return (.moment, ← readDate cs)
  else if startsTime cs then do return (.moment, ← readTime cs)
  else
    match cs with
    | '0' :: 'x' :: rest => readBased 16 rest
    | '0' :: 'o' :: rest => readBased 8 rest
    | '0' :: 'b' :: rest => readBased 2 rest
    | '+' :: rest => readSigned false rest
    | '-' :: rest => readSigned true rest
    | _ => readSigned false cs

end TracePlayback.Toml

import TracePlayback.Text.Visible
import TracePlayback.Text.Utf8

/-!
# Quoted text in messages

A message shows the text it speaks of between double quotes, with everything a reader could misread
written as an escape: quotes and backslashes, controls, characters that are not visible. Bytes that
form no character are shown in hexadecimal.
-/
namespace TracePlayback.Text

/-- The hexadecimal digits of a number, no leading zeros, with the given digit alphabet. -/
def hexDigits (capital : Bool) (n : Nat) : List Char :=
  let digits := Nat.toDigits 16 n
  if capital then digits.map Char.toUpper else digits

/-- One character inside quotes. -/
def escapeVisible (c : Char) : List Char :=
  if c = '"' then ['\\', '"']
  else if c = '\\' then ['\\', '\\']
  else if c = '\n' then ['\\', 'n']
  else if c = '\r' then ['\\', 'r']
  else if c = '\t' then ['\\', 't']
  else if c.toNat = 0 then ['\\', '0']
  else if isVisible c then [c]
  else ['\\', 'u', '\x7b'] ++ hexDigits false c.toNat ++ ['\x7d']

/-- A text between double quotes. -/
def quote (cs : List Char) : String :=
  String.ofList (['"'] ++ cs.flatMap escapeVisible ++ ['"'])

/-- One unit of a byte text inside quotes. -/
def escapeUnit : Utf8Unit → List Char
  | .char c => escapeVisible c
  | .invalid bytes => bytes.flatMap fun b =>
      let digits := hexDigits true b.toNat
      ['\\', 'x'] ++ List.replicate (2 - digits.length) '0' ++ digits

/-- A byte text between double quotes. -/
def quoteBytes (bytes : List UInt8) : String :=
  String.ofList (['"'] ++ (Utf8.units bytes).flatMap escapeUnit ++ ['"'])

end TracePlayback.Text

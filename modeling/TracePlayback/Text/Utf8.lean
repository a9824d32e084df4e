/-!
# Reading bytes as UTF-8

File contents and command-line arguments are bytes. Reading them gives a list of units: a character,
or a run of bytes that no character begins with. Such a run is as long as the longest beginning of
some well-formed character at that place, so a cut character counts as one fault and the bytes after
it are read afresh.
-/
namespace TracePlayback.Text

/-- One unit of a byte text: a character, or bytes that do not form one. -/
inductive Utf8Unit where
  | char (c : Char)
  | invalid (bytes : List UInt8)
  deriving DecidableEq, Repr

namespace Utf8

/-- A character whose last bytes are still to come: the bytes seen (newest first), the bits they
carry, how many bytes are missing and the closed range that the next one must lie in. -/
structure Pending where
  seen : List UInt8
  bits : Nat
  missing : Nat
  low : Nat
  high : Nat
  deriving DecidableEq, Repr

/-- Reads a byte that does not continue a character: the units that are complete with it, and what
it begins. The narrowed ranges exclude overlong forms, surrogates and numbers above U+10FFFF. -/
def first (b : UInt8) : List Utf8Unit × Option Pending :=
  let n := b.toNat
  if n < 0x80 then ([.char (Char.ofNat n)], none)
  else if 0xC2 ≤ n && n ≤ 0xDF then ([], some ⟨[b], n - 0xC0, 1, 0x80, 0xBF⟩)
  else if 0xE0 ≤ n && n ≤ 0xEF then
    ([], some ⟨[b], n - 0xE0, 2, if n = 0xE0 then 0xA0 else 0x80, if n = 0xED then 0x9F else 0xBF⟩)
  else if 0xF0 ≤ n && n ≤ 0xF4 then
    ([], some ⟨[b], n - 0xF0, 3, if n = 0xF0 then 0x90 else 0x80, if n = 0xF4 then 0x8F else 0xBF⟩)
  else ([.invalid [b]], none)

/-- Reads one byte after a pending character, or after none. -/
def next : Option Pending → UInt8 → List Utf8Unit × Option Pending
  | none, b => first b
  | some p, b =>
    if p.low ≤ b.toNat && b.toNat ≤ p.high then
      let bits := p.bits * 64 + (b.toNat - 0x80)
      if p.missing ≤ 1 then ([.char (Char.ofNat bits)], none)
      else ([], some ⟨b :: p.seen, bits, p.missing - 1, 0x80, 0xBF⟩)
    else
      let (units, pending) := first b
      (.invalid p.seen.reverse :: units, pending)

/-- The units of the bytes that follow a pending character. -/
def unitsAfter : Option Pending → List UInt8 → List Utf8Unit
  | none, [] => []
  | some p, [] => [.invalid p.seen.reverse]
  | pending, b :: rest =>
    let (units, pending) := next pending b
    units ++ unitsAfter pending rest

def units (bytes : List UInt8) : List Utf8Unit := unitsAfter none bytes

/-- The characters of a byte text, or none if some byte belongs to no character. -/
def decode? (bytes : List UInt8) : Option (List Char) :=
  (units bytes).mapM fun
    | .char c => some c
    | .invalid _ => none

/-- The characters of a byte text, each fault shown as U+FFFD. -/
def decodeLossy (bytes : List UInt8) : List Char :=
  (units bytes).map fun
    | .char c => c
    | .invalid _ => Char.ofNat 0xFFFD

end Utf8
end TracePlayback.Text

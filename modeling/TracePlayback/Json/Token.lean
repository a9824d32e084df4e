import TracePlayback.Json.Numeral

/-!
# Tokens of a JSON text

The scanner cuts a text into tokens and stops at the first place where no token can be read. That
place becomes a token too, `broken`, so that whatever reads the tokens from the left meets the fault
exactly when it gets there. A reader that wants a value and one that only skips it do not always
call the same fault by the same name, hence a `Break` holds both.
-/
namespace TracePlayback.Json

/-- What is wrong with a text: it is no JSON, or it ends too early. -/
inductive Fault where
  | malformed
  | truncated
  deriving DecidableEq, Repr

/-- The fault at one place, for a reader that reads there and for one that skips. -/
structure Break where
  read : Fault
  skip : Fault
  deriving DecidableEq, Repr

namespace Break

def malformed : Break := ⟨.malformed, .malformed⟩
def truncated : Break := ⟨.truncated, .truncated⟩

end Break

/-- What a broken token began as: nothing (the text ended), a text in quotes, a number or word, or
something that begins no token. -/
inductive Lead where
  | absent
  | quoted
  | plain
  | stray
  deriving DecidableEq, Repr

/-- The content of a closed text in quotes. A text with half a surrogate pair has none, yet may be
skipped. -/
inductive Quoted where
  | text (s : String)
  | unpaired
  deriving DecidableEq, Repr

inductive Token where
  | openList | closeList | openObject | closeObject | comma | colon
  | null
  | bool (b : Bool)
  | number (n : Numeral)
  | quoted (q : Quoted)
  | broken (lead : Lead) (b : Break)
  deriving DecidableEq, Repr

/-! ## Texts in quotes -/

/-- A piece of a quoted text: a character, or one half of a surrogate pair. -/
inductive Piece where
  | char (c : Char)
  | half (n : Nat)
  deriving DecidableEq, Repr

namespace Piece

/-- The piece that `\u` and four digits stand for. -/
def ofCode (n : Nat) : Piece :=
  if 0xD800 ≤ n ∧ n ≤ 0xDFFF then .half n else .char (Char.ofNat n)

/-- The characters of the pieces; none if a half has no partner. -/
def join? : List Piece → Option (List Char)
  | [] => some []
  | .char c :: rest => (join? rest).map (c :: ·)
  | .half a :: .half b :: rest =>
    if a < 0xDC00 ∧ 0xDC00 ≤ b then
      (join? rest).map (Char.ofNat (0x10000 + (a - 0xD800) * 0x400 + (b - 0xDC00)) :: ·)
    else none
  | .half _ :: _ => none

/-- Whether pieces that are still to be continued hold a half that can find no partner. -/
def unpaired : List Piece → Bool
  | [] => false
  | .char _ :: rest => unpaired rest
  | [.half a] => 0xDC00 ≤ a
  | .half a :: .half b :: rest => !(a < 0xDC00 ∧ 0xDC00 ≤ b) || unpaired rest
  | .half _ :: .char _ :: _ => true

end Piece

def hexValue? (c : Char) : Option Nat :=
  if '0' ≤ c ∧ c ≤ '9' then some (c.toNat - 48)
  else if 'a' ≤ c ∧ c ≤ 'f' then some (c.toNat - 87)
  else if 'A' ≤ c ∧ c ≤ 'F' then some (c.toNat - 55)
  else none

def hexCode? (a b c d : Char) : Option Nat := do
  return (((← hexValue? a) * 16 + (← hexValue? b)) * 16 + (← hexValue? c)) * 16 + (← hexValue? d)

/-- The character that a backslash and this character stand for. -/
def simpleEscape? : Char → Option Char
  | '"' => some '"'
  | '\\' => some '\\'
  | '/' => some '/'
  | 'b' => some '\x08'
  | 'f' => some '\x0c'
  | 'n' => some '\n'
  | 'r' => some '\r'
  | 't' => some '\t'
  | _ => none

/-- The outcome of scanning one token's characters: the result and the text after it, or a fault. -/
inductive Scan (α : Type) where
  | done (a : α) (rest : List Char)
  | broken (b : Break)

/-- The fault of a quoted text that breaks off after the given pieces. A reader would already have
stopped at a half without a partner. -/
def quotedBreak (pieces : List Piece) (fault : Fault) : Break :=
  ⟨if Piece.unpaired pieces then .malformed else fault, fault⟩

/-- Scans a quoted text after its opening quote; the pieces so far are given newest first. -/
def scanQuoted (pieces : List Piece) : List Char → Scan Quoted
  | [] => .broken (quotedBreak pieces.reverse .truncated)
  | '"' :: rest =>
    match Piece.join? pieces.reverse with
    | some cs => .done (.text (String.ofList cs)) rest
    | none => .done .unpaired rest
  | ['\\'] => .broken (quotedBreak pieces.reverse .truncated)
  | '\\' :: 'u' :: a :: b :: c :: d :: rest =>
    match hexCode? a b c d with
    | some n => scanQuoted (Piece.ofCode n :: pieces) rest
    | none => .broken (quotedBreak pieces.reverse .malformed)
  | '\\' :: 'u' :: rest =>
    .broken (quotedBreak pieces.reverse
      (if (String.ofList rest).utf8ByteSize < 4 then .truncated else .malformed))
  | '\\' :: c :: rest =>
    match simpleEscape? c with
    | some e => scanQuoted (.char e :: pieces) rest
    | none => .broken (quotedBreak pieces.reverse .malformed)
  | c :: rest =>
    if c.toNat < 0x20 then .broken (quotedBreak pieces.reverse .malformed)
    else scanQuoted (.char c :: pieces) rest

/-! ## Numbers and words -/

/-- The digits at the front of a text, as numbers, and what follows them. -/
def spanDigits (cs : List Char) : List Nat × List Char :=
  ((cs.takeWhile Char.isDigit).map (fun c => c.toNat - 48), cs.dropWhile Char.isDigit)

/-- A digit is missing here. A reader notices the end of the text, one who skips does not. -/
def missingDigit : List Char → Break
  | [] => ⟨.truncated, .malformed⟩
  | _ => .malformed

/-- Scans the exponent of a number, if it has one. -/
def scanExponent (cs : List Char) : Scan (Option (Bool × List Nat)) :=
  let digits (minus : Bool) (cs : List Char) :=
    match spanDigits cs with
    | ([], _) => .broken (missingDigit cs)
    | (ds, rest) => .done (some (minus, ds)) rest
  let signed : List Char → Scan (Option (Bool × List Nat))
    | '-' :: rest => digits true rest
    | '+' :: rest => digits false rest
    | rest => digits false rest
  match cs with
  | 'e' :: rest => signed rest
  | 'E' :: rest => signed rest
  | _ => .done none cs

/-- Scans the part of a number after its point, if it has one. -/
def scanFraction (cs : List Char) : Scan (List Nat) :=
  match cs with
  | '.' :: rest =>
    match spanDigits rest with
    | ([], _) => .broken (missingDigit rest)
    | (ds, after) => .done ds after
  | _ => .done [] cs

/-- Scans a number after its sign. A zero in front of further digits is a fault. -/
def scanNumeral (negative : Bool) (cs : List Char) : Scan Numeral :=
  match spanDigits cs with
  | ([], _) => .broken (missingDigit cs)
  | (0 :: _ :: _, _) => .broken .malformed
  | (whole, rest) =>
    match scanFraction rest with
    | .broken b => .broken b
    | .done fraction rest =>
      match scanExponent rest with
      | .broken b => .broken b
      | .done exponent rest => .done ⟨negative, whole, fraction, exponent⟩ rest

def scanWord : List Char → List Char → Scan Unit
  | [], rest => .done () rest
  | _ :: _, [] => .broken .truncated
  | w :: ws, c :: rest => if w = c then scanWord ws rest else .broken .malformed

/-! ## The whole text -/

def isSpace (c : Char) : Bool := c = ' ' || c = '\n' || c = '\t' || c = '\r'

/-- The token that begins with a character, given the text after that character. -/
def scanToken (c : Char) (rest : List Char) : Token × List Char :=
  let finish {α : Type} (lead : Lead) (token : α → Token) : Scan α → Token × List Char
    | .done a rest => (token a, rest)
    | .broken b => (.broken lead b, [])
  match c with
  | '[' => (.openList, rest)
  | ']' => (.closeList, rest)
  | '\x7b' => (.openObject, rest)
  | '\x7d' => (.closeObject, rest)
  | ',' => (.comma, rest)
  | ':' => (.colon, rest)
  | '"' => finish .quoted .quoted (scanQuoted [] rest)
  | '-' => finish .plain .number (scanNumeral true rest)
  | 'n' => finish .plain (fun _ => .null) (scanWord ['u', 'l', 'l'] rest)
  | 't' => finish .plain (fun _ => .bool true) (scanWord ['r', 'u', 'e'] rest)
  | 'f' => finish .plain (fun _ => .bool false) (scanWord ['a', 'l', 's', 'e'] rest)
  | c =>
    if c.isDigit then finish .plain .number (scanNumeral false (c :: rest))
    else (.broken .stray .malformed, [])

/-- The tokens of a text, scanning at most `fuel` characters or tokens. -/
def scanAux : Nat → List Char → List Token
  | 0, _ => []
  | _ + 1, [] => []
  | fuel + 1, c :: rest =>
    if isSpace c then scanAux fuel rest
    else
      let (token, rest) := scanToken c rest
      token :: scanAux fuel rest

/-- The tokens of a text. Every token takes at least one character. -/
def scan (cs : List Char) : List Token := scanAux cs.length cs

end TracePlayback.Json

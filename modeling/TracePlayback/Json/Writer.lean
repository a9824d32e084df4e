import TracePlayback.Json.Doc

/-!
# Writing JSON

The compact text of a document: no white space, and in quoted texts only what must be escaped is
escaped, the five controls that have a letter by it and the others by their code.
-/
namespace TracePlayback.Json

def hexDigit (n : Nat) : Char := if n < 10 then Char.ofNat (n + 48) else Char.ofNat (n + 87)

/-- One character inside quotes. -/
def writeChar (c : Char) : List Char :=
  if c = '"' then ['\\', '"']
  else if c = '\\' then ['\\', '\\']
  else if c = '\x08' then ['\\', 'b']
  else if c = '\x0c' then ['\\', 'f']
  else if c = '\n' then ['\\', 'n']
  else if c = '\r' then ['\\', 'r']
  else if c = '\t' then ['\\', 't']
  else if c.toNat < 0x20 then ['\\', 'u', '0', '0', hexDigit (c.toNat / 16), hexDigit (c.toNat % 16)]
  else [c]

def Token.write : Token → List Char
  | .openList => ['[']
  | .closeList => [']']
  | .openObject => ['\x7b']
  | .closeObject => ['\x7d']
  | .comma => [',']
  | .colon => [':']
  | .null => ['n', 'u', 'l', 'l']
  | .bool true => ['t', 'r', 'u', 'e']
  | .bool false => ['f', 'a', 'l', 's', 'e']
  | .number n => n.write
  | .quoted (.text s) => '"' :: s.toList.flatMap writeChar ++ ['"']
  | .quoted .unpaired => []
  | .broken _ _ => []

namespace Doc

def ofString (s : String) : Doc := .quoted (.text s)

def ofInt (n : Int) : Doc := .number (.ofInt n)

def ofList (items : List Doc) : Doc := .list items .closed

def ofMembers (members : List (String × Doc)) : Doc :=
  .object (members.map fun m => (ofString m.1, m.2)) .closed

/-- The compact text of a document. -/
def write (d : Doc) : List Char := d.tokens.flatMap Token.write

end Doc
end TracePlayback.Json

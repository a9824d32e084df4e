/-!
# Characters, gaps and texts of TOML

A reader takes characters from the front of a text and gives back what it read and the rest, or
nothing if the text is not of its form. Which form comes next is always decided by the next few
characters, so no reader is ever tried a second time.
-/
namespace TracePlayback.Toml

/-- What is read from the front of a text, and the rest of the text. -/
abbrev Reader (α : Type) := List Char → Option (α × List Char)

/-! ## Gaps -/

/-- A blank inside a line. -/
def isBlank (c : Char) : Bool := c = ' ' || c = '\t'

/-- A character that may stand in a line: no control except the tab. -/
def isPlain (c : Char) : Bool := c = '\t' || (0x20 ≤ c.toNat && c.toNat ≠ 0x7F)

def skipBlanks (cs : List Char) : List Char := cs.dropWhile isBlank

/-- Skips the rest of a line: blanks, a comment, and the line's end or the end of the text. -/
def skipLineEnd (cs : List Char) : Option (List Char) :=
  let rest :=
    match skipBlanks cs with
    | '#' :: rest => rest.dropWhile isPlain
    | rest => rest
  match rest with
  | [] => some []
  | '\n' :: rest => some rest
  | '\r' :: '\n' :: rest => some rest
  | _ => none

/-- Skips blanks, line ends and comments between the items of a list. A comment goes to the end of
its line. -/
def skipGap (inComment : Bool) : List Char → Option (List Char)
  | [] => if inComment then none else some []
  | '\n' :: rest => skipGap false rest
  | '\r' :: '\n' :: rest => skipGap false rest
  | c :: rest =>
    if inComment then if isPlain c then skipGap true rest else none
    else if isBlank c then skipGap false rest
    else if c = '#' then skipGap true rest
    else if c = '\r' then none
    else some (c :: rest)

/-! ## Texts -/

def hexValue? (c : Char) : Option Nat :=
  if '0' ≤ c ∧ c ≤ '9' then some (c.toNat - 48)
  else if 'a' ≤ c ∧ c ≤ 'f' then some (c.toNat - 87)
  else if 'A' ≤ c ∧ c ≤ 'F' then some (c.toNat - 55)
  else none

/-- The character whose code the hexadecimal digits spell. -/
def codePoint? (digits : List Char) : Option Char := do
  let n := (← digits.mapM hexValue?).foldl (fun n v => n * 16 + v) 0
  if n.isValidChar then some (Char.ofNat n) else none

/-- The character that a backslash and this character stand for. -/
def simpleEscape? : Char → Option Char
  | 'b' => some '\x08'
  | 't' => some '\t'
  | 'n' => some '\n'
  | 'f' => some '\x0c'
  | 'r' => some '\r'
  | '"' => some '"'
  | '\\' => some '\\'
  | _ => none

/-- Reads a text on one line after its opening quote; the characters so far come newest first. -/
def readBasic (done : List Char) : Reader (List Char)
  | [] => none
  | '"' :: rest => some (done.reverse, rest)
  | '\\' :: 'u' :: a :: b :: c :: d :: rest => do
    readBasic ((← codePoint? [a, b, c, d]) :: done) rest
  | '\\' :: 'U' :: a :: b :: c :: d :: e :: f :: g :: h :: rest => do
    readBasic ((← codePoint? [a, b, c, d, e, f, g, h]) :: done) rest
  | '\\' :: c :: rest => do readBasic ((← simpleEscape? c) :: done) rest
  | c :: rest => if isPlain c ∧ c ≠ '\\' then readBasic (c :: done) rest else none

/-- Reads a text on one line without escapes, after its opening apostrophe. -/
def readLiteral (done : List Char) : Reader (List Char)
  | [] => none
  | '\'' :: rest => some (done.reverse, rest)
  | c :: rest => if isPlain c then readLiteral (c :: done) rest else none

/-- Takes a text of several lines after its opening marks, up to its closing ones. `marks` counts the
marks just seen: the text ends at three, to which up to two of its own may be added. If `escaping`,
a character after a backslash is never a mark. -/
def takeLines (mark : Char) (escaping : Bool) (done : List Char) (marks : Nat) : Reader (List Char)
  | [] => if 3 ≤ marks then some ((done.drop 3).reverse, []) else none
  | c :: rest =>
    if c = mark then
      if marks = 4 then some (((c :: done).drop 3).reverse, rest)
      else takeLines mark escaping (c :: done) (marks + 1) rest
    else if 3 ≤ marks then some ((done.drop 3).reverse, c :: rest)
    else if escaping ∧ c = '\\' then
      match rest with
      | [] => none
      | d :: rest => takeLines mark escaping (d :: c :: done) 0 rest
    else takeLines mark escaping (c :: done) 0 rest

/-- Whether a line ends here but for blanks. -/
def endsLine (cs : List Char) : Bool :=
  match skipBlanks cs with
  | '\n' :: _ => true
  | '\r' :: '\n' :: _ => true
  | _ => false

/-- The characters that the body of a text of several lines stands for. A backslash at the end of a
line takes away the white space up to the next other character; `folding` says that this is being
done. -/
def decodeLines (folding : Bool) : List Char → Option (List Char)
  | [] => some []
  | '\\' :: 'u' :: a :: b :: c :: d :: rest => do
    return (← codePoint? [a, b, c, d]) :: (← decodeLines false rest)
  | '\\' :: 'U' :: a :: b :: c :: d :: e :: f :: g :: h :: rest => do
    return (← codePoint? [a, b, c, d, e, f, g, h]) :: (← decodeLines false rest)
  | '\\' :: c :: rest =>
    match simpleEscape? c with
    | some e => (decodeLines false rest).map (e :: ·)
    | none => if endsLine (c :: rest) then decodeLines true (c :: rest) else none
  | '\r' :: '\n' :: rest =>
    if folding then decodeLines true rest else (decodeLines false rest).map ('\n' :: ·)
  | c :: rest =>
    if folding ∧ (isBlank c ∨ c = '\n') then decodeLines true rest
    else if (isPlain c ∨ c = '\n') ∧ c ≠ '\\' then (decodeLines false rest).map (c :: ·)
    else none

/-- The body of a text of several lines without escapes, line ends made uniform. -/
def decodeLiteralLines : List Char → Option (List Char)
  | [] => some []
  | '\r' :: '\n' :: rest => (decodeLiteralLines rest).map ('\n' :: ·)
  | c :: rest =>
    if isPlain c ∨ c = '\n' then (decodeLiteralLines rest).map (c :: ·) else none

/-- The text after a line end at its front, if there is one. -/
def skipFirstLineEnd : List Char → List Char
  | '\n' :: rest => rest
  | '\r' :: '\n' :: rest => rest
  | rest => rest

/-- Reads a text of any of the four forms. -/
def readText : Reader (List Char)
  | '"' :: '"' :: '"' :: rest => do
    let (body, rest) ← takeLines '"' true [] 0 (skipFirstLineEnd rest)
    return (← decodeLines false body, rest)
  | '"' :: rest => readBasic [] rest
  | '\'' :: '\'' :: '\'' :: rest => do
    let (body, rest) ← takeLines '\'' false [] 0 (skipFirstLineEnd rest)
    return (← decodeLiteralLines body, rest)
  | '\'' :: rest => readLiteral [] rest
  | _ => none

/-! ## Keys -/

/-- A character of a key without quotes. -/
def isBare (c : Char) : Bool := c.isAlphanum || c = '_' || c = '-'

/-- Reads one part of a key. -/
def readSimpleKey : Reader String
  | '"' :: rest => (readBasic [] rest).map fun (cs, rest) => (String.ofList cs, rest)
  | '\'' :: rest => (readLiteral [] rest).map fun (cs, rest) => (String.ofList cs, rest)
  | cs =>
    match cs.takeWhile isBare with
    | [] => none
    | key => some (String.ofList key, cs.dropWhile isBare)

/-- Reads the parts of a key, with points and blanks between them; at most `limit` parts. -/
def readKeyParts : Nat → Reader (List String)
  | 0, _ => none
  | limit + 1, cs => do
    let (key, rest) ← readSimpleKey (skipBlanks cs)
    match skipBlanks rest with
    | '.' :: rest =>
      let (keys, rest) ← readKeyParts limit rest
      some (key :: keys, rest)
    | rest => some ([key], rest)

/-- How deep lists, inline tables and keys may nest. -/
def maxDepth : Nat := 79

def readKey : Reader (List String) := readKeyParts maxDepth

end TracePlayback.Toml

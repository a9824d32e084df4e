import TracePlayback.Toml.Number

/-!
# TOML documents

A document is a list of sections, each a header and keys with values. While it is read, every table
remembers how it came about, for that decides who may still add to it: a table with a header of its
own is complete, one that only lies on the way of other headers may still get its header, and one
made by a key with points grows with further such keys.
-/
namespace TracePlayback.Toml

/-! ## Tables under construction -/

inductive Origin where
  | header
  | way
  | points
  deriving DecidableEq

/-- What a key of a table under construction holds. -/
inductive Item where
  | value (v : Value)
  | table (origin : Origin) (entries : List (String × Item))
  | tables (elements : List (List (String × Item)))

/-- The entries of a table under construction. -/
abbrev Entries := List (String × Item)

namespace Entries

/-- Replaces the item of a key, or adds it at the end. -/
def put (key : String) (item : Item) : Entries → Entries
  | [] => [(key, item)]
  | (k, old) :: rest => if k = key then (k, item) :: rest else (k, old) :: put key item rest

/-- Changes the last table of a list of tables. -/
def changeLast (f : Entries → Option Entries) : List Entries → Option (List Entries)
  | [] => none
  | [last] => do return [← f last]
  | es :: rest => do return es :: (← changeLast f rest)

/-- Sets a key with points, whose parts but the last are `path`, in a table of an origin. Only tables
without a header of their own may be entered, and the last must have come about the same way. -/
def setKey (key : String) (value : Value) : Origin → List String → Entries → Option Entries
  | origin, [], es =>
    if origin ≠ .header ∧ origin ≠ .points then none
    else if (es.lookup key).isSome then none
    else some (es.put key (.value value))
  | _, p :: path, es =>
    match es.lookup p with
    | none => do return es.put p (.table .points (← setKey key value .points path []))
    | some (.table origin inner) =>
      if origin = .header then none
      else do return es.put p (.table origin (← setKey key value origin path inner))
    | some (.tables elements) =>
      if path.isEmpty then none
      else do return es.put p (.tables (← changeLast (setKey key value .way path) elements))
    | some (.value _) => none

/-- Changes what a header names, creating the tables on the way there. -/
def changeAt (key : String) (f : Option Item → Option Item) : List String → Entries → Option Entries
  | [], es => do return es.put key (← f (es.lookup key))
  | p :: path, es =>
    match es.lookup p with
    | none => do return es.put p (.table .way (← changeAt key f path []))
    | some (.table origin inner) => do return es.put p (.table origin (← changeAt key f path inner))
    | some (.tables elements) => do
      return es.put p (.tables (← changeLast (changeAt key f path) elements))
    | some (.value _) => none

end Entries

/-- A key with points, as the parts before the last and the last, with a value. -/
structure Assignment where
  path : List String
  key : String
  value : Value

namespace Assignment

/-- The assignment of a value to a key given by its parts. -/
def ofParts (parts : List String) (value : Value) : Assignment :=
  ⟨parts.dropLast, parts.getLast?.getD "", value⟩

end Assignment

/-- Adds assignments to the entries of a table with a header. -/
def fill (es : Entries) : List Assignment → Option Entries
  | [] => some es
  | a :: rest => do fill (← es.setKey a.key a.value .header a.path) rest

mutual

def Item.toValue : Item → Value
  | .value v => v
  | .table _ entries => .table (entriesToValues entries)
  | .tables elements => .list (tablesToValues elements)

def entriesToValues : List (String × Item) → List (String × Value)
  | [] => []
  | (k, item) :: rest => (k, item.toValue) :: entriesToValues rest

def tablesToValues : List (List (String × Item)) → List Value
  | [] => []
  | es :: rest => .table (entriesToValues es) :: tablesToValues rest

end

/-! ## Values -/

mutual

/-- Reads a value. `fuel` bounds the calls, `depth` the nesting that is still allowed. -/
def readValue (fuel depth : Nat) : Reader Value := fun cs =>
  match fuel with
  | 0 => none
  | fuel + 1 =>
    match cs with
    | '"' :: _ => (readText cs).map fun (cs, rest) => (.text (String.ofList cs), rest)
    | '\'' :: _ => (readText cs).map fun (cs, rest) => (.text (String.ofList cs), rest)
    | 't' :: 'r' :: 'u' :: 'e' :: rest => some (.bool true, rest)
    | 'f' :: 'a' :: 'l' :: 's' :: 'e' :: rest => some (.bool false, rest)
    | '[' :: rest =>
      match depth with
      | 0 => none
      | depth + 1 => (readItems fuel depth rest).map fun (items, rest) => (.list items, rest)
    | '\x7b' :: rest =>
      match depth with
      | 0 => none
      | depth + 1 =>
        match skipBlanks rest with
        | '\x7d' :: rest => some (.table [], rest)
        | rest => do
          let (assignments, rest) ← readAssignments fuel depth rest
          return (.table (entriesToValues (← fill [] assignments)), rest)
    | cs => readNumber cs

/-- Reads the items of a list up to its closing bracket. A comma may stand behind the last. -/
def readItems (fuel depth : Nat) : Reader (List Value) := fun cs =>
  match fuel with
  | 0 => none
  | fuel + 1 => do
    match ← skipGap false cs with
    | ']' :: rest => some ([], rest)
    | cs =>
      let (item, rest) ← readValue fuel depth cs
      match ← skipGap false rest with
      | ',' :: rest =>
        let (items, rest) ← readItems fuel depth rest
        some (item :: items, rest)
      | ']' :: rest => some ([item], rest)
      | _ => none

/-- Reads the assignments of an inline table, at least one, up to its closing brace. -/
def readAssignments (fuel depth : Nat) : Reader (List Assignment) := fun cs =>
  match fuel with
  | 0 => none
  | fuel + 1 => do
    let (key, rest) ← readKey cs
    let (value, rest) ← readValue fuel depth (skipBlanks (← readChar '=' rest))
    match skipBlanks rest with
    | ',' :: rest =>
      let (assignments, rest) ← readAssignments fuel depth rest
      some (.ofParts key value :: assignments, rest)
    | '\x7d' :: rest => some ([.ofParts key value], rest)
    | _ => none

end

/-! ## Sections -/

inductive Line where
  /-- The header of a table. -/
  | table (key : List String)
  /-- The header of one more table of a list of tables. -/
  | element (key : List String)
  | assign (a : Assignment)

/-- Reads one line; none if it is empty but for blanks and a comment. -/
def readLine (fuel : Nat) (cs : List Char) : Option (Option Line × List Char) :=
  match skipBlanks cs with
  | [] => some (none, [])
  | '[' :: '[' :: rest => do
    let (key, rest) ← readKey rest
    let rest ← skipLineEnd (← readChar ']' (← readChar ']' rest))
    some (some (.element key), rest)
  | '[' :: rest => do
    let (key, rest) ← readKey rest
    let rest ← skipLineEnd (← readChar ']' rest)
    some (some (.table key), rest)
  | c :: rest =>
    if c = '#' ∨ c = '\n' ∨ c = '\r' then do return (none, ← skipLineEnd (c :: rest))
    else do
      let (key, rest) ← readKey (c :: rest)
      let (value, rest) ← readValue fuel maxDepth (skipBlanks (← readChar '=' rest))
      some (some (.assign (.ofParts key value)), ← skipLineEnd rest)

/-- Reads all lines, at most `fuel` of them. -/
def readLines : Nat → List Char → Option (List Line)
  | _, [] => some []
  | 0, _ => none
  | fuel + 1, cs => do
    let (line, rest) ← readLine (2 * cs.length + 2) cs
    let lines ← readLines fuel rest
    return line.toList ++ lines

/-- The assignments before the next header, and the lines from there on. -/
def splitSection : List Line → List Assignment × List Line
  | .assign a :: rest =>
    let (assignments, rest) := splitSection rest
    (a :: assignments, rest)
  | lines => ([], lines)

/-- What the header of a table does to what is there: only a table on the way of other headers may
be there already. -/
def openTable (body : List Assignment) : Option Item → Option Item
  | none => do return .table .header (← fill [] body)
  | some (.table .way es) => do return .table .header (← fill es body)
  | some _ => none

/-- What the header of an element does to what is there: only such elements may be there already. -/
def openElement (body : List Assignment) : Option Item → Option Item
  | none => do return .tables [← fill [] body]
  | some (.tables elements) => do return .tables (elements ++ [← fill [] body])
  | some _ => none

/-- Adds sections to the entries of a document, at most `fuel` of them. -/
def addSections : Nat → Entries → List Line → Option Entries
  | _, es, [] => some es
  | 0, _, _ => none
  | fuel + 1, es, line :: lines =>
    let (body, rest) := splitSection lines
    match line with
    | .table key => do
      addSections fuel (← es.changeAt (key.getLast?.getD "") (openTable body) key.dropLast) rest
    | .element key => do
      addSections fuel (← es.changeAt (key.getLast?.getD "") (openElement body) key.dropLast) rest
    | .assign _ => none

/-- Drops a byte-order mark. -/
def dropMark : List Char → List Char
  | '\uFEFF' :: rest => rest
  | cs => cs

/-- Reads a document; none if it is not TOML. -/
def parse? (cs : List Char) : Option (List (String × Value)) := do
  let cs := dropMark cs
  let lines ← readLines (cs.length + 1) cs
  let (body, rest) := splitSection lines
  return entriesToValues (← addSections lines.length (← fill [] body) rest)

end TracePlayback.Toml

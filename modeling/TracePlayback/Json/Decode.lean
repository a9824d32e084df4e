import TracePlayback.Json.Doc
import TracePlayback.Json.Error

/-!
# Reading values from documents

A reader walks a document from left to right and reports the first problem it meets: a broken part
it reaches, or a value that does not fit. Containers may nest to a fixed depth where they are read,
and to any depth where they are skipped.

A part of a document can also be *buffered*: checked as a whole first and fitted to a type
afterwards. Then only mismatches can follow, and some of them are worded differently.
-/
namespace TracePlayback.Json

/-- How a document is being read: the number of containers that may still be entered, and whether
it has been buffered. -/
structure Reading where
  depth : Nat
  buffered : Bool

namespace Reading

def start : Reading := ⟨127, false⟩

def enter (r : Reading) : Result Reading :=
  if r.depth = 0 then throw (.fault .malformed) else pure { r with depth := r.depth - 1 }

end Reading

/-- The end of a container that is read. -/
def Ending.read : Ending → Result Unit
  | .closed => pure ()
  | .broken b => throw (.fault b.read)

/-- The end of a container that is skipped. -/
def Ending.skip : Ending → Result Unit
  | .closed => pure ()
  | .broken b => throw (.fault b.skip)

namespace Doc

/-! ## Skipping and buffering -/

mutual

/-- Passes over a document. Its texts and numbers need not have a value. -/
def skip : Doc → Result Unit
  | .list items ending => do skipItems items; ending.skip
  | .object members ending => do skipMembers members; ending.skip
  | .broken _ b => throw (.fault b.skip)
  | _ => pure ()

def skipItems : List Doc → Result Unit
  | [] => pure ()
  | d :: rest => do d.skip; skipItems rest

def skipMembers : List (Doc × Doc) → Result Unit
  | [] => pure ()
  | (k, v) :: rest => do
    match k with
    | .quoted _ => pure ()
    | .broken .absent b => throw (.fault b.skip)
    | .broken .quoted b => throw (.fault b.skip)
    | _ => throw (.fault .malformed)
    v.skip
    skipMembers rest

end

def readKey : Doc → Result String
  | .quoted (.text s) => pure s
  | .broken .absent b => throw (.fault b.read)
  | .broken .quoted b => throw (.fault b.read)
  | _ => throw (.fault .malformed)

mutual

/-- Checks that a document can be read as a whole. -/
def buffer (r : Reading) : Doc → Result Unit
  | .number n => if n.value?.isSome then pure () else throw (.fault .malformed)
  | .quoted .unpaired => throw (.fault .malformed)
  | .list items ending => do bufferItems (← r.enter) items; ending.read
  | .object members ending => do bufferMembers (← r.enter) members; ending.read
  | .broken _ b => throw (.fault b.read)
  | _ => pure ()

def bufferItems (r : Reading) : List Doc → Result Unit
  | [] => pure ()
  | d :: rest => do d.buffer r; bufferItems r rest

def bufferMembers (r : Reading) : List (Doc × Doc) → Result Unit
  | [] => pure ()
  | (k, v) :: rest => do
    let _ ← k.readKey
    v.buffer r
    bufferMembers r rest

end

/-! ## Single values -/

/-- What a reader that expected another kind of value finds. A number or text must be sound for
that, a container only has to begin. -/
def found : Doc → Result Found
  | .null => pure .null
  | .bool b => pure (.bool b)
  | .number n =>
    match n.value? with
    | none => throw (.fault .malformed)
    | some (.integer i) => pure (.integer i)
    | some (.float x) => pure (.float x)
  | .quoted (.text s) => pure (.text s)
  | .quoted .unpaired => throw (.fault .malformed)
  | .list _ _ => pure .list
  | .object _ _ => pure .object
  | .broken _ b => throw (.fault b.read)

/-- The failure of a reader that expected something else. -/
def unexpected {α : Type} (expected : String) (d : Doc) : Result α := do
  throw (.mismatch (.kind (← d.found) expected))

def readText : Doc → Result String
  | .quoted (.text s) => pure s
  | d => d.unexpected "a string"

/-- Reads a signed integer of 64 bits. -/
def readInt64 (d : Doc) : Result Int64 := do
  match ← d.found with
  | .integer n =>
    if -0x8000000000000000 ≤ n ∧ n < 0x8000000000000000 then pure (Int64.ofInt n)
    else throw (.mismatch (.range n "i64"))
  | found => throw (.mismatch (.kind found "i64"))

/-- Reads a value that may be null. -/
def readOption {α : Type} (read : Doc → Result α) : Doc → Result (Option α)
  | .null => pure none
  | d => return some (← read d)

/-- Reads a list, each item by `read`. -/
def readList {α : Type} (read : Reading → Doc → Result α) (r : Reading) : Doc → Result (List α)
  | .list items ending => do
    let r ← r.enter
    let values ← items.mapM (read r)
    ending.read
    pure values
  | d => d.unexpected "a sequence"

/-! ## Names out of a fixed set -/

def lookUp {α : Type} (known : List (String × α)) (name : String) : Result α :=
  match known.lookup name with
  | some a => pure a
  | none => throw (.mismatch (.variant name (known.map (·.1))))

/-- Reads a name out of a fixed set that must be a text. -/
def readBareName {α : Type} (known : List (String × α)) : Doc → Result α
  | .quoted (.text s) => lookUp known s
  | d => d.unexpected "variant identifier"

/-- Reads what may follow a name that is spelled as an object: null. -/
def readNull : Doc → Result Unit
  | .null => pure ()
  | d => d.unexpected "unit"

/-- Reads a name out of a fixed set: a text, or an object whose only member has that name and is
null. In a buffered document the member may also be an empty object. -/
def readName {α : Type} (known : List (String × α)) (r : Reading) : Doc → Result α
  | .quoted (.text s) => lookUp known s
  | .object members ending =>
    if r.buffered then
      match members with
      | [(k, v)] => do
        let a ← lookUp known (← k.readKey)
        match v with
        | .object [] _ => pure ()
        | v => v.readNull
        pure a
      | _ => throw (.mismatch .severalKeys)
    else do
      let _ ← r.enter
      match members with
      | [] => do
        ending.read
        throw (.fault .malformed)
      | (k, v) :: rest => do
        let a ← lookUp known (← k.readKey)
        v.readNull
        if rest.isEmpty then ending.read else throw (.fault .malformed)
        pure a
  | d =>
    if r.buffered then d.unexpected "string or map"
    else
      match d with
      | .broken .absent b => throw (.fault b.read)
      | .broken .quoted b => throw (.fault b.read)
      | _ => throw (.fault .malformed)

end Doc

/-! ## Records -/

/-- A field of a record, over the type of partly filled records. -/
structure Field (σ : Type) where
  /-- The name that messages use. -/
  name : String
  /-- Other names that are accepted. -/
  aliases : List String
  /-- Whether the field has been given. -/
  given : σ → Bool
  /-- Reads the field's value. -/
  read : Reading → Doc → σ → Result σ

namespace Field

/-- Whether a member of this name is the field. -/
def answers {σ : Type} (f : Field σ) (name : String) : Bool := f.name == name || f.aliases.contains name

end Field

/-- A record of type `α`, filled field by field in `σ`. -/
structure Record (σ α : Type) where
  /-- What messages call the record. -/
  title : String
  /-- The fields in the order of a list in place of an object. -/
  fields : List (Field σ)
  /-- Nothing given yet. -/
  empty : σ
  /-- The finished record, or the name of the first field that is missing. -/
  finish : σ → Except String α

namespace Record

variable {σ α : Type}

/-- Reads one member into the record. Members of unknown names are skipped. -/
def readMember (rec : Record σ α) (r : Reading) (s : σ) (name : String) (value : Doc) : Result σ :=
  match rec.fields.find? (·.answers name) with
  | none => do
    value.skip
    pure s
  | some f => if f.given s then throw (.mismatch (.duplicate f.name)) else f.read r value s

/-- Reads members into the record. -/
def readMembers (rec : Record σ α) (r : Reading) : σ → List (Doc × Doc) → Result σ
  | s, [] => pure s
  | s, (k, v) :: rest => do
    let name ← k.readKey
    let s ← rec.readMember r s name v
    rec.readMembers r s rest

/-- Reads a record from the members of an object. -/
def readObject (rec : Record σ α) (r : Reading) (members : List (Doc × Doc)) (ending : Ending) :
    Result α := do
  let r ← r.enter
  let s ← rec.readMembers r rec.empty members
  ending.read
  match rec.finish s with
  | .ok a => pure a
  | .error field => throw (.mismatch (.missing field))

/-- Reads items into the fields in order; the items left over. -/
def readItems (r : Reading) : List (Field σ) → σ → List Doc → Result (σ × List Doc)
  | [], s, items => pure (s, items)
  | _, s, [] => pure (s, [])
  | f :: fields, s, d :: rest => do
    let s ← f.read r d s
    readItems r fields s rest

/-- The message's name for a record of this many fields. -/
def sized (rec : Record σ α) : String := rec.title ++ " with " ++ toString rec.fields.length ++ " elements"

/-- Reads a record from a list of its fields in order. Fields that the list does not reach count as
absent. -/
def readSequence (rec : Record σ α) (r : Reading) (items : List Doc) (ending : Ending) :
    Result α := do
  let r ← r.enter
  let (s, rest) ← readItems r rec.fields rec.empty items
  if items.length < rec.fields.length then ending.read
  let a ←
    match rec.finish s with
    | .ok a => pure a
    | .error field => throw (.mismatch (.short (rec.fields.findIdx (·.name == field)) rec.sized))
  if rest.isEmpty then ending.read
  else if r.buffered then throw (.mismatch (.long items.length rec.fields.length))
  else throw (.fault .malformed)
  pure a

def read (rec : Record σ α) (r : Reading) : Doc → Result α
  | .object members ending => rec.readObject r members ending
  | .list items ending => rec.readSequence r items ending
  | d => d.unexpected rec.title

end Record

/-! ## Texts -/

/-- Reads a whole text: one document, and nothing but white space after it. -/
def decode {α : Type} (read : Reading → Doc → Result α) (text : List Char) : Result α := do
  let (d, rest) := Doc.ofTokens (scan text)
  let a ← read .start d
  if rest.isEmpty then pure a else throw (.fault .malformed)

end TracePlayback.Json

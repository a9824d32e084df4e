import TracePlayback.Json.Token

/-!
# Documents

A `Doc` is what a JSON text says, as far as it can be read: a tree whose parts may be `broken` and
whose containers may lack their end. Reading a text never fails; whether a fault matters, and which
of several problems is reported, is decided by whoever walks the tree from left to right.
-/
namespace TracePlayback.Json

/-- How a container ends: with its bracket, or at a fault. -/
inductive Ending where
  | closed
  | broken (b : Break)
  deriving DecidableEq, Repr

/-- A JSON text as a tree. The key of a member is kept as the document found in its place, for a
text that is no JSON may have anything there. -/
inductive Doc where
  | null
  | bool (b : Bool)
  | number (n : Numeral)
  | quoted (q : Quoted)
  | list (items : List Doc) (ending : Ending)
  | object (members : List (Doc × Doc)) (ending : Ending)
  | broken (lead : Lead) (b : Break)

namespace Doc

/-- The place where a text has ended. -/
def absent : Doc := .broken .absent .truncated

/-- A place that holds something else than what must stand there. -/
def stray : Doc := .broken .stray .malformed

/-! ## Building the tree -/

mutual

/-- Reads one document. `fuel` bounds the depth of calls. -/
def take : Nat → List Token → Doc × List Token
  | 0, ts => (stray, ts)
  | _ + 1, [] => (absent, [])
  | fuel + 1, t :: ts =>
    match t with
    | .null => (.null, ts)
    | .bool b => (.bool b, ts)
    | .number n => (.number n, ts)
    | .quoted q => (.quoted q, ts)
    | .broken lead b => (.broken lead b, ts)
    | .openList =>
      match ts with
      | .closeList :: rest => (.list [] .closed, rest)
      | [] => (.list [] (.broken .truncated), [])
      | _ =>
        let (items, ending, rest) := takeItems fuel ts
        (.list items ending, rest)
    | .openObject =>
      match ts with
      | .closeObject :: rest => (.object [] .closed, rest)
      | [] => (.object [] (.broken .truncated), [])
      | _ =>
        let (members, ending, rest) := takeMembers fuel ts
        (.object members ending, rest)
    | _ => (stray, ts)

/-- Reads the items of a list from the next one on. -/
def takeItems : Nat → List Token → List Doc × Ending × List Token
  | 0, ts => ([], .broken .malformed, ts)
  | fuel + 1, ts =>
    let (item, rest) := take fuel ts
    match rest with
    | .closeList :: rest => ([item], .closed, rest)
    | .comma :: rest =>
      let (items, ending, rest) := takeItems fuel rest
      (item :: items, ending, rest)
    | [] => ([item], .broken .truncated, [])
    | rest => ([item], .broken .malformed, rest)

/-- Reads the members of an object from the next one on. -/
def takeMembers : Nat → List Token → List (Doc × Doc) × Ending × List Token
  | 0, ts => ([], .broken .malformed, ts)
  | fuel + 1, ts =>
    let (key, rest) := take fuel ts
    match rest with
    | .colon :: rest =>
      let (value, rest) := take fuel rest
      match rest with
      | .closeObject :: rest => ([(key, value)], .closed, rest)
      | .comma :: rest =>
        let (members, ending, rest) := takeMembers fuel rest
        ((key, value) :: members, ending, rest)
      | [] => ([(key, value)], .broken .truncated, [])
      | rest => ([(key, value)], .broken .malformed, rest)
    | [] => ([(key, absent)], .broken .truncated, [])
    | rest => ([(key, stray)], .broken .malformed, rest)

end

/-- The first document of a text, and the tokens after it. Every second call at least uses up a
token, which gives the fuel. -/
def ofTokens (ts : List Token) : Doc × List Token := take (2 * ts.length + 2) ts

/-! ## Writing -/

mutual

/-- The tokens of a document. A broken part has none. -/
def tokens : Doc → List Token
  | .null => [.null]
  | .bool b => [.bool b]
  | .number n => [.number n]
  | .quoted q => [.quoted q]
  | .list items _ => .openList :: itemTokens items ++ [.closeList]
  | .object members _ => .openObject :: memberTokens members ++ [.closeObject]
  | .broken _ _ => []

def itemTokens : List Doc → List Token
  | [] => []
  | [d] => d.tokens
  | d :: rest => d.tokens ++ .comma :: itemTokens rest

def memberTokens : List (Doc × Doc) → List Token
  | [] => []
  | [(k, v)] => k.tokens ++ .colon :: v.tokens
  | (k, v) :: rest => k.tokens ++ .colon :: v.tokens ++ .comma :: memberTokens rest

end

end Doc
end TracePlayback.Json

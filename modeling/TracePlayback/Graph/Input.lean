/-!
# Graphs as they arrive

The analysis of a program delivers a graph: nodes for its functions, loops, decisions and
statements, links between them, or an error in place of both. Nothing is checked yet: ids may repeat
and links may point nowhere.

The text that names a node's kind is read without regard to letter case and to blanks around it.
White space is the Unicode property White_Space, so that a label pasted from a rich text editor
(no-break spaces, ideographic spaces) is trimmed like plain text. Letter case is ASCII only: the
names compared with it are ASCII, and other letters pass through unchanged.
-/
namespace TracePlayback

namespace Text

/-- A character with the Unicode property White_Space. -/
def isBlank (c : Char) : Bool :=
  let n := c.toNat
  (0x09 ≤ n && n ≤ 0x0D) || n == 0x20 || n == 0x85 || n == 0xA0 || n == 0x1680 ||
    (0x2000 ≤ n && n ≤ 0x200A) || n == 0x2028 || n == 0x2029 || n == 0x202F || n == 0x205F ||
    n == 0x3000

/-- The text without the blank characters at its two ends. -/
def trim (cs : List Char) : List Char :=
  ((cs.dropWhile isBlank).reverse.dropWhile isBlank).reverse

/-- The text with the capital letters A to Z made small. -/
def lower (cs : List Char) : List Char := cs.map Char.toLower

end Text

/-- What a node of the graph stands for. -/
inductive NodeKind where
  | function
  | loop
  | decision
  | statement
  | operation
  | unknown
  deriving DecidableEq, Repr

namespace NodeKind

def name : NodeKind → String
  | .function => "function"
  | .loop => "loop"
  | .decision => "decision"
  | .statement => "statement"
  | .operation => "operation"
  | .unknown => "unknown"

/-- The kinds that a text can name; any other text stands for the unknown kind. -/
def named : List NodeKind := [.function, .loop, .decision, .statement, .operation]

/-- The kind that a text names, without regard to letter case and to blanks around it. -/
def ofText (text : String) : NodeKind :=
  let key := Text.lower (Text.trim text.toList)
  (named.find? fun kind => kind.name.toList == key).getD .unknown

end NodeKind

structure NodeId where
  text : String
  deriving DecidableEq, Repr

/-- An id as it is written in the input: an integer or a text. -/
inductive RawId where
  | number (n : Int64)
  | text (s : String)
  deriving DecidableEq

namespace RawId

/-- The identity that a written id stands for: an integer and its decimal text are the same id. -/
def toNodeId : RawId → NodeId
  | .number n => ⟨toString n.toInt⟩
  | .text s => ⟨s⟩

end RawId

structure NodeInput where
  id : RawId
  kind : NodeKind
  label : String
  line : Option Int64
  deriving DecidableEq

structure LinkInput where
  source : RawId
  target : RawId
  deriving DecidableEq

/-- The result of one analysis. -/
structure GraphInput where
  nodes : List NodeInput
  links : List LinkInput
  error : Option String
  deriving DecidableEq

end TracePlayback

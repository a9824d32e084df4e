import TracePlayback.Graph.Input
import TracePlayback.Json.Decode
import TracePlayback.Json.Writer

/-!
# Graphs in JSON

A graph is an object with `nodes`, `links` and `error`; each part may be left out. A node has `id`,
`type`, `label` and `lineno` (or `lineNumber`), of which only the id is required; a link has
`source` and `target`.
-/
namespace TracePlayback

open Json

namespace NodeKind

/-- Reads a kind; every text is one. -/
def read (d : Doc) : Result NodeKind := return ofText (← d.readText)

end NodeKind

namespace RawId

/-- The id that a buffered document spells. -/
def ofDoc? : Doc → Option RawId
  | .quoted (.text s) => some (.text s)
  | .number n => (Doc.number n).readInt64.toOption.map .number
  | _ => none

/-- Reads an id. The document is buffered first. -/
def read (r : Reading) (d : Doc) : Result RawId := do
  d.buffer r
  match ofDoc? d with
  | some id => pure id
  | none => throw (.mismatch (.alternatives "RawId"))

def toDoc : RawId → Doc
  | .number n => .ofInt n.toInt
  | .text s => .ofString s

end RawId

namespace NodeInput

/-- A node whose members are still being read. -/
structure Partial where
  id : Option RawId := none
  kind : Option NodeKind := none
  label : Option String := none
  line : Option (Option Int64) := none

def record : Record Partial NodeInput where
  title := "struct NodeInput"
  fields := [
    ⟨"id", [], (·.id.isSome), fun r d s => return { s with id := some (← RawId.read r d) }⟩,
    ⟨"type", [], (·.kind.isSome), fun _ d s => return { s with kind := some (← NodeKind.read d) }⟩,
    ⟨"label", [], (·.label.isSome), fun _ d s => return { s with label := some (← d.readText) }⟩,
    ⟨"lineno", ["lineNumber"], (·.line.isSome),
      fun _ d s => return { s with line := some (← d.readOption Doc.readInt64) }⟩]
  empty := {}
  finish s :=
    match s.id with
    | none => .error "id"
    | some id => .ok ⟨id, s.kind.getD .unknown, s.label.getD "", s.line.getD none⟩

def read : Reading → Doc → Result NodeInput := record.read

/-- The node in JSON. A node without a line has no such member. -/
def toDoc (n : NodeInput) : Doc :=
  .ofMembers ([("id", n.id.toDoc), ("type", .ofString n.kind.name), ("label", .ofString n.label)] ++
    n.line.toList.map fun line => ("lineno", .ofInt line.toInt))

end NodeInput

namespace LinkInput

structure Partial where
  source : Option RawId := none
  target : Option RawId := none

def record : Record Partial LinkInput where
  title := "struct LinkInput"
  fields := [
    ⟨"source", [], (·.source.isSome),
      fun r d s => return { s with source := some (← RawId.read r d) }⟩,
    ⟨"target", [], (·.target.isSome),
      fun r d s => return { s with target := some (← RawId.read r d) }⟩]
  empty := {}
  finish s :=
    match s.source, s.target with
    | none, _ => .error "source"
    | some _, none => .error "target"
    | some source, some target => .ok ⟨source, target⟩

def read : Reading → Doc → Result LinkInput := record.read

def toDoc (l : LinkInput) : Doc :=
  .ofMembers [("source", l.source.toDoc), ("target", l.target.toDoc)]

end LinkInput

namespace GraphInput

structure Partial where
  nodes : Option (List NodeInput) := none
  links : Option (List LinkInput) := none
  error : Option (Option String) := none

def record : Record Partial GraphInput where
  title := "struct GraphInput"
  fields := [
    ⟨"nodes", [], (·.nodes.isSome),
      fun r d s => return { s with nodes := some (← Doc.readList NodeInput.read r d) }⟩,
    ⟨"links", [], (·.links.isSome),
      fun r d s => return { s with links := some (← Doc.readList LinkInput.read r d) }⟩,
    ⟨"error", [], (·.error.isSome),
      fun _ d s => return { s with error := some (← d.readOption Doc.readText) }⟩]
  empty := {}
  finish s := .ok ⟨s.nodes.getD [], s.links.getD [], s.error.getD none⟩

def read : Reading → Doc → Result GraphInput := record.read

/-- The graph in JSON. A graph without an error has no such member. -/
def toDoc (g : GraphInput) : Doc :=
  .ofMembers ([("nodes", .ofList (g.nodes.map NodeInput.toDoc)),
    ("links", .ofList (g.links.map LinkInput.toDoc))] ++
    g.error.toList.map fun error => ("error", .ofString error))

def ofJson (text : List Char) : Result GraphInput := decode read text

end GraphInput
end TracePlayback

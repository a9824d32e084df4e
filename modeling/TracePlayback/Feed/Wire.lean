import TracePlayback.Graph.Wire
import TracePlayback.Trace.Wire

/-!
# Feeds in JSON

A feed is an object with a `type` that names its kind and a `data` object with the content, in any
order, or a list of the two. When `data` comes first it is buffered until the type is known. In an
object the kind may be spelled in all the ways of a name; in a list it must be a text.
-/
namespace TracePlayback

open Json

namespace Feed

inductive Kind where
  | graph
  | liveTrace
  | ghostTrace
  | clear
  deriving DecidableEq, Repr

namespace Kind

def name : Kind → String
  | .graph => "Graph"
  | .liveTrace => "LiveTrace"
  | .ghostTrace => "GhostTrace"
  | .clear => "Clear"

def known : List (String × Kind) :=
  [.graph, .liveTrace, .ghostTrace, .clear].map fun k => (k.name, k)

/-- Reads the kind's name in an object. -/
def read : Reading → Doc → Result Kind := Doc.readName known

/-- Reads the kind's name in a list. -/
def readBare : Doc → Result Kind := Doc.readBareName known

/-- The only member of the content, and how a feed is read from it. -/
def content : Kind → String × (Reading → Doc → Result Feed)
  | .graph => ("graph", fun r d => return .graph (← GraphInput.read r d))
  | .liveTrace => ("trace", fun r d => return .liveTrace (← LiveTrace.read r d))
  | .ghostTrace => ("trace", fun r d => return .ghostTrace (← GhostTrace.read r d))
  | .clear => ("channel", fun r d => return .clear (← ChannelName.read r d))

def record (k : Kind) : Record (Option Feed) Feed where
  title := "struct variant Feed::" ++ k.name
  fields := [⟨k.content.1, [], Option.isSome, fun r d _ => return some (← k.content.2 r d)⟩]
  empty := none
  finish
    | none => .error k.content.1
    | some feed => .ok feed

/-- Reads the content, which must be an object. -/
def readContent (k : Kind) (r : Reading) : Doc → Result Feed
  | .object members ending => k.record.readObject r members ending
  | d => d.unexpected k.record.title

end Kind

/-- The members after both `type` and `data`: neither may come again. -/
def readRest : List (Doc × Doc) → Result Unit
  | [] => pure ()
  | (key, value) :: rest => do
    let name ← key.readKey
    if name = "type" ∨ name = "data" then throw (.mismatch (.duplicate name))
    value.skip
    readRest rest

/-- The members after `type`, which has named a kind. -/
def readAfterType (r : Reading) (kind : Kind) (ending : Ending) : List (Doc × Doc) → Result Feed
  | [] => do
    ending.read
    throw (.mismatch (.missing "data"))
  | (key, value) :: rest => do
    match ← key.readKey with
    | "type" => throw (.mismatch (.duplicate "type"))
    | "data" =>
      let feed ← kind.readContent r value
      readRest rest
      ending.read
      pure feed
    | _ =>
      value.skip
      readAfterType r kind ending rest

/-- The members after `data`, which has been buffered. -/
def readAfterData (r : Reading) (data : Doc) (ending : Ending) : List (Doc × Doc) → Result Feed
  | [] => do
    ending.read
    throw (.mismatch (.missing "type"))
  | (key, value) :: rest => do
    match ← key.readKey with
    | "data" => throw (.mismatch (.duplicate "data"))
    | "type" =>
      let kind ← Kind.read r value
      let feed ← kind.readContent { r with buffered := true } data
      readRest rest
      ending.read
      pure feed
    | _ =>
      value.skip
      readAfterData r data ending rest

def readMembers (r : Reading) (ending : Ending) : List (Doc × Doc) → Result Feed
  | [] => do
    ending.read
    throw (.mismatch (.missing "type"))
  | (key, value) :: rest => do
    match ← key.readKey with
    | "type" => readAfterType r (← Kind.read r value) ending rest
    | "data" =>
      value.buffer r
      readAfterData r value ending rest
    | _ =>
      value.skip
      readMembers r ending rest

def title : String := "adjacently tagged enum Feed"

def read (r : Reading) : Doc → Result Feed
  | .object members ending => do
    readMembers (← r.enter) ending members
  | .list items ending => do
    let r ← r.enter
    match items with
    | [] =>
      ending.read
      throw (.mismatch (.short 0 title))
    | [kind] =>
      let _ ← Kind.readBare kind
      ending.read
      throw (.mismatch (.short 1 title))
    | kind :: data :: rest =>
      let feed ← (← Kind.readBare kind).readContent r data
      if rest.isEmpty then ending.read else throw (.fault .malformed)
      pure feed
  | d => d.unexpected title

/-- The kind of a feed and its content in JSON. -/
def parts : Feed → Kind × Doc
  | .graph input => (.graph, input.toDoc)
  | .liveTrace trace => (.liveTrace, trace.toDoc)
  | .ghostTrace trace => (.ghostTrace, trace.toDoc)
  | .clear channel => (.clear, channel.toDoc)

def contentDoc (f : Feed) : Doc := .ofMembers [(f.parts.1.content.1, f.parts.2)]

def toDoc (f : Feed) : Doc :=
  .ofMembers [("type", .ofString f.parts.1.name), ("data", f.contentDoc)]

def ofJson (text : List Char) : Result Feed := decode read text

end Feed
end TracePlayback

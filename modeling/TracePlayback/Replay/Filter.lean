import TracePlayback.Replay.Note

/-!
# Log filters

A filter says which notes a log shows. It is a list of rules between commas: a level alone is a rule
for all notes, `origin=level` one for the notes whose origin starts with that name, and an origin
alone lets everything of it pass. The rule with the longest name decides, the last one if there are
several; a note without a rule is not shown. Where there is no rule at all, only errors are shown.
-/
namespace TracePlayback

/-- A rule of a filter: notes whose origin starts with `scope` pass if their level is at most
`threshold`, none if that is zero. -/
structure FilterRule where
  scope : List Char
  threshold : Nat
  deriving DecidableEq

structure NoteFilter where
  rules : List FilterRule

namespace FilterRule

/-- The levels by name, from nothing to everything. -/
def levelNames : List String := ["off", "error", "warn", "info", "debug", "trace"]

/-- The threshold that a text names, or gives as a digit. -/
def threshold? (text : List Char) : Option Nat :=
  let lower := String.ofList (text.map Char.toLower)
  match levelNames.findIdx? (· = lower) with
  | some n => some n
  | none => (List.range levelNames.length).find? fun n => toString n = lower

/-- Whether a character may stand in the name of an origin. -/
def isScopeChar (c : Char) : Bool := c.isAlphanum || c = '_' || c = ':' || c = '-'

/-- The rule that a text spells. -/
def ofText? (text : List Char) : Option FilterRule :=
  match threshold? text with
  | some n => some ⟨[], n⟩
  | none =>
    let scope := text.takeWhile (· ≠ '=')
    let level := (text.dropWhile (· ≠ '=')).drop 1
    if scope ≠ [] ∧ scope.all isScopeChar then
      if level = [] then some ⟨scope, Level.trace.rank⟩ else (threshold? level).map (⟨scope, ·⟩)
    else none

end FilterRule

namespace NoteFilter

def errorsOnly : NoteFilter := ⟨[⟨[], Level.error.rank⟩]⟩

/-- The filter that a text spells. What is no rule is passed over. -/
def ofText (text : String) : NoteFilter :=
  match (text.toList.splitOn ',').filterMap FilterRule.ofText? with
  | [] => errorsOnly
  | rules => ⟨rules⟩

def ofText? (text : Option String) : NoteFilter := text.elim errorsOnly ofText

/-- The rule that decides about an origin. -/
def ruleFor? (f : NoteFilter) (origin : Origin) : Option FilterRule :=
  f.rules.foldl (fun best rule =>
    if rule.scope.isPrefixOf origin.name.toList ∧
        best.all (fun b => b.scope.length ≤ rule.scope.length) then some rule
    else best) none

/-- Whether a note is shown. -/
def admits (f : NoteFilter) (n : Note) : Bool :=
  (f.ruleFor? n.origin).any fun rule => n.level.rank ≤ rule.threshold

end NoteFilter
end TracePlayback

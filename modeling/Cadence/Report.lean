import Cadence.Expression.Grammar
import Cadence.Zone.Basic

/-!
# Reports

A report is what a user is told about an error: a message, and for errors in an
expression the text concerned with carets beneath the place, followed by what to
write instead where there is a likely candidate.

Carets are placed by characters, spans are counted in bytes.  A span that does
not fall between characters is placed by its bytes instead.
-/

namespace Cadence

/-- The place of an error in a text. -/
structure Excerpt where
  span : Span
  input : String
  suggestion : Option String
  deriving DecidableEq, Repr

namespace Excerpt

/-- The number of characters before the span. -/
def column (excerpt : Excerpt) : Nat :=
  (charsBefore? excerpt.span.start excerpt.input.toList).getD excerpt.span.start

/-- The number of characters under the span. -/
def width (excerpt : Excerpt) : Nat :=
  match charsBefore? excerpt.span.start excerpt.input.toList,
      charsBefore? excerpt.span.stop excerpt.input.toList with
  | some before, some through =>
    if excerpt.span.start ≤ excerpt.span.stop then through - before else excerpt.span.length
  | _, _ => excerpt.span.length

/-- The line of carets, set off by two blanks like the text above it.  An empty
span gets one caret. -/
def caretLine (excerpt : Excerpt) : String :=
  String.ofList (List.replicate (excerpt.column + 2) ' ') ++
    String.ofList (List.replicate (max excerpt.width 1) '^') ++
    (match excerpt.suggestion with
      | some fix => " try: \"" ++ fix ++ "\""
      | none => "")

end Excerpt

/-- What a user is told about an error. -/
inductive Report where
  | lexical (message : String) (excerpt : Excerpt)
  | grammatical (message : String) (excerpt : Excerpt)
  | evaluation (message : String)
  | cron (message : String)
  deriving DecidableEq, Repr

namespace Report

def message : Report → String
  | lexical message _ => message
  | grammatical message _ => message
  | evaluation message => message
  | cron message => message

/-- The place of the error, where it has one. -/
def excerpt? : Report → Option Excerpt
  | lexical _ excerpt => some excerpt
  | grammatical _ excerpt => some excerpt
  | evaluation _ => none
  | cron _ => none

/-- The full text of a report. -/
def text (report : Report) : String :=
  match report.excerpt? with
  | some excerpt =>
    "error: " ++ report.message ++ "\n  " ++ excerpt.input ++ "\n" ++ excerpt.caretLine
  | none => "error: " ++ report.message

/-- The report on a text that is no expression. -/
def ofExpressionError (input : String) : ExpressionError → Report
  | .lexical cause span => lexical cause.message ⟨span, input, cause.suggestion⟩
  | .grammatical cause span => grammatical cause.message ⟨span, input, cause.suggestion⟩

/-- The report on a zone that is not in the table. -/
def ofUnknownZone (zone : Zone.Unknown) : Report := evaluation zone.message

end Report

end Cadence

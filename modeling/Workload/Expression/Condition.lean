import Workload.Duration
import Workload.Fault
import Workload.Text

/-!
# Conditions and counts

What a directive needs is read from the text its expression evaluates to.  A condition on one line
may compare two texts; blanks around them do not count.
-/

namespace Workload.Expression

/-- The marker of a condition that stands for the alias of the task itself. -/
def selfMarker : String := "__self__"

/-- A condition with the marker replaced by an alias. -/
def bindSelf (condition alias_ : String) : String := Text.replaceAll selfMarker alias_ condition

def parseBool (value : String) : Except ExpressionFault Bool :=
  let v := Text.trimmed value
  if v ∈ ["1", "t", "T", "TRUE", "true", "True"] then .ok true
  else if v ∈ ["0", "f", "F", "FALSE", "false", "False"] then .ok false
  else .error (.coercion v .boolean)

def parseInt (value : String) : Except ExpressionFault Int :=
  let v := Text.trim value.toList
  match Text.int64Of? v with
  | some n => .ok n
  | none => .error (.coercion (String.ofList v) .integer)

/-- Reads a duration; without a result the text is one that is out of range. -/
def parseDuration? (value : String) : Option (Except ExpressionFault Duration) :=
  match Duration.parse value with
  | .ok d => some (.ok d)
  | .error .malformed => some (.error (.coercion (Text.trimmed value) .duration))
  | .error .outOfRange => none

/-- How a truth value is written. -/
def boolText (b : Bool) : String := if b then "true" else "false"

/-- Decides a comparison on one line, `!=` before `==`; any other text is left as it is. -/
def compare (input : String) : String :=
  let s := input.toList
  if s.contains '\n' then input
  else
    match Text.cutAt ['!', '='] s with
    | some (l, r) => boolText (Text.trim l != Text.trim r)
    | none =>
      match Text.cutAt ['=', '='] s with
      | some (l, r) => boolText (Text.trim l == Text.trim r)
      | none => input

/-- What a condition that evaluated to `value` says. -/
def decideCondition (value : String) : Except ExpressionFault Bool := parseBool (compare value)

end Workload.Expression

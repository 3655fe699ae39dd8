import Workload.Expression.Range
import Workload.Fault
import Workload.Text

/-!
# Interpolation

A variable is named between braces after a dollar sign.  Every variable that has a value is replaced
by it wherever it occurs, pass after pass, until a pass replaces nothing; what has no value stays.
Values that keep bringing in new variables are given up after sixteen passes.
-/

namespace Workload.Expression

/-- How many passes may replace something. -/
def maxPasses : Nat := 16

/-- The variable named here, if a name starts and ends. -/
def variableAt? (s : List Char) : Option (List Char) := do
  let s ← Text.dropStart? ['$', '{'] s
  let name := s.takeWhile (· ≠ '}')
  if name.isEmpty || name.length = s.length then none else pure name

/-- The variables named after the next `skip` characters, in order and as often as they occur. -/
def variablesFrom : Nat → List Char → List (List Char)
  | _, [] => []
  | skip + 1, _ :: cs => variablesFrom skip cs
  | 0, c :: cs =>
    match variableAt? (c :: cs) with
    | some name => name :: variablesFrom (name.length + 2) cs
    | none => variablesFrom 0 cs

/-- The variables named in a text. -/
def vars (text : String) : List String := (variablesFrom 0 text.toList).map String.ofList

/-- How a variable is written. -/
def token (name : String) : String := "$\x7b" ++ name ++ "\x7d"

variable {σ : Type}

/-- Replaces the variables `names` one after the other, and says whether one was replaced. -/
def replaceEach (lookup : String → σ → Option String × σ) :
    List String → String → Bool → σ → (String × Bool) × σ
  | [], text, changed, w => ((text, changed), w)
  | name :: names, text, changed, w =>
    let (value, w) := lookup name w
    match value with
    | some v =>
      if v = token name then replaceEach lookup names text changed w
      else replaceEach lookup names (Text.replaceAll (token name) v text) true w
    | none => replaceEach lookup names text changed w

/-- Runs at most `passes` passes. -/
def interpolatePasses (lookup : String → σ → Option String × σ) :
    Nat → String → σ → Except ExpressionFault String × σ
  | 0, _, w => (.error .recursiveInterpolation, w)
  | passes + 1, text, w =>
    let ((text, changed), w) := replaceEach lookup (vars text) text false w
    if changed then interpolatePasses lookup passes text w else (.ok text, w)

/-- Replaces the variables of a text until nothing changes. -/
def interpolate (lookup : String → σ → Option String × σ) (text : String) (w : σ) :
    Except ExpressionFault String × σ :=
  interpolatePasses lookup maxPasses text w

/-- The value of an expression: its range blocks expanded, then its variables replaced. -/
def evaluate (lookup : String → σ → Option String × σ) (text : String) (w : σ) :
    Except ExpressionFault String × σ :=
  match Range.expand text with
  | .error e => (.error e, w)
  | .ok expanded => interpolate lookup expanded w

end Workload.Expression

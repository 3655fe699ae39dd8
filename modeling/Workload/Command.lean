import Workload.Fault
import Workload.Text

/-!
# Command lines

A command line is split at blanks into arguments.  Single and double quotes keep blanks, and are
dropped; outside single quotes a backslash protects the character after it, between double quotes
only a backslash or a double quote.
-/

namespace Workload.Command

/-- Where the splitter stands. -/
inductive Mode where
  /-- Between arguments. -/
  | gap
  /-- In an argument, outside quotes. -/
  | bare
  | single
  | double
  deriving DecidableEq, Repr

/-- Splits the rest of a command line; `word` is the argument read so far, backwards.  Without a
result a quote is still open at the end. -/
def splitFrom : Mode → List Char → List Char → Option (List (List Char))
  | .gap, _, [] => some []
  | .bare, word, [] => some [word.reverse]
  | .single, _, [] => none
  | .double, _, [] => none
  | .single, word, c :: cs =>
    if c = '\'' then splitFrom .bare word cs else splitFrom .single (c :: word) cs
  | .double, word, '\\' :: c :: cs =>
    if c = '"' ∨ c = '\\' then splitFrom .double (c :: word) cs
    else splitFrom .double (c :: '\\' :: word) cs
  | .double, word, c :: cs =>
    if c = '"' then splitFrom .bare word cs else splitFrom .double (c :: word) cs
  | .gap, word, '\\' :: c :: cs => splitFrom .bare (c :: word) cs
  | .bare, word, '\\' :: c :: cs => splitFrom .bare (c :: word) cs
  | .gap, word, c :: cs =>
    if c = '\'' then splitFrom .single word cs
    else if c = '"' then splitFrom .double word cs
    else if c = '\\' then splitFrom .bare word cs
    else if Text.isBlank c then splitFrom .gap [] cs
    else splitFrom .bare (c :: word) cs
  | .bare, word, c :: cs =>
    if c = '\'' then splitFrom .single word cs
    else if c = '"' then splitFrom .double word cs
    else if c = '\\' then splitFrom .bare word cs
    else if Text.isBlank c then (splitFrom .gap [] cs).map (word.reverse :: ·)
    else splitFrom .bare (c :: word) cs

/-- The arguments of a command line. -/
def split (input : String) : Except ExpressionFault (List String) :=
  match splitFrom .gap [] input.toList with
  | some args => .ok (args.map String.ofList)
  | none => .error (.unterminatedQuote input)

end Workload.Command

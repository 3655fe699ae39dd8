import Workload.Shell.Word

/-!
# Shell commands

Commands follow one another, depend on how others end, are repeated, or have their streams redirected.
-/

namespace Workload.Shell

/-- A condition between double brackets. -/
inductive Condition where
  | word (w : Word)
  | unary (operator : String) (w : Word)
  | binary (operator : String) (left right : Word)
  | negated (c : Condition)
  | both (first second : Condition)
  | either (first second : Condition)
  deriving DecidableEq, Repr

/-- What follows the commands of a clause. -/
inductive Onward where
  | leave
  /-- The commands of the next clause. -/
  | enter
  /-- The patterns of the next clause. -/
  | search
  deriving DecidableEq, Repr

inductive Command where
  | nothing
  /-- A command in a line. -/
  | simple (line : Nat) (words : List Word) (redirects : List Redirect)
  | sequence (first second : Command)
  | background (c : Command)
  /-- The second one if the first one succeeds. -/
  | both (first second : Command)
  /-- The second one if the first one fails. -/
  | either (first second : Command)
  | negated (c : Command)
  /-- The output of the first one is the input of the second one. -/
  | piped (first second : Command)
  | conditional (test yes no : Command)
  /-- Repeats a body as long as a test succeeds, or as long as it fails. -/
  | loop (stopOn : Bool) (test body : Command)
  /-- Repeats a body for each word, or for each argument. -/
  | each (line : Nat) (name : String) (words : Option (List Word)) (body : Command)
  /-- Repeats a body as long as a number is not zero. -/
  | counted (start test step : String) (body : Command)
  | choice (line : Nat) (subject : Word) (clauses : Command)
  /-- The body for the subjects that match a pattern, and the clauses behind it. -/
  | clause (patterns : List Word) (body : Command) (onward : Onward) (rest : Command)
  /-- Gives a body a name to be called by. -/
  | define (name : String) (body : Command)
  | subshell (c : Command)
  | redirected (line : Nat) (c : Command) (redirects : List Redirect)
  | formula (line : Nat) (source : String)
  | condition (line : Nat) (c : Condition)
  deriving Repr

/-- Puts its document into a redirection. -/
def Redirect.fill (documents : List Word) (r : Redirect) : Redirect :=
  match r.document with
  | some n => { r with target := documents.getD n [], document := none }
  | none => r

/-- Puts the documents into the redirections that read them. -/
def Command.fill (documents : List Word) : Command → Command
  | .simple line ws rs => .simple line ws (rs.map (·.fill documents))
  | .sequence a b => .sequence (a.fill documents) (b.fill documents)
  | .background c => .background (c.fill documents)
  | .both a b => .both (a.fill documents) (b.fill documents)
  | .either a b => .either (a.fill documents) (b.fill documents)
  | .negated c => .negated (c.fill documents)
  | .piped a b => .piped (a.fill documents) (b.fill documents)
  | .conditional a b c => .conditional (a.fill documents) (b.fill documents) (c.fill documents)
  | .loop stop a b => .loop stop (a.fill documents) (b.fill documents)
  | .each line name ws b => .each line name ws (b.fill documents)
  | .counted i t s b => .counted i t s (b.fill documents)
  | .choice line w cs => .choice line w (cs.fill documents)
  | .clause ps b o r => .clause ps (b.fill documents) o (r.fill documents)
  | .define name b => .define name (b.fill documents)
  | .subshell c => .subshell (c.fill documents)
  | .redirected line c rs => .redirected line (c.fill documents) (rs.map (·.fill documents))
  | .nothing => .nothing
  | .formula line s => .formula line s
  | .condition line c => .condition line c

end Workload.Shell

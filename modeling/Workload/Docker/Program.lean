import Workload.Fault
import Workload.Text

/-!
# The docker program

Containers are driven by calling a program with arguments.  The program is a state of any type and an
answer to every call; what is said about its use holds whatever it answers.
-/

namespace Workload.Docker

/-- How a call of the program ends. -/
inductive Answer where
  | ended (out err : String) (code : Int)
  /-- It does not end by itself. -/
  | hangs
  /-- The program cannot be started. -/
  | unavailable
  deriving DecidableEq, Repr

/-- What the program answers when it is called with arguments. -/
abbrev Program (π : Type) := List String → π → Answer × π

/-- The fault of a program that cannot be started. -/
def notInvoked : RuntimeFault := .command "failed to invoke docker"

/-- The fault that an error output stands for. -/
def faultOf (err : String) : RuntimeFault :=
  let text := Text.trimmed err
  if Text.contains "No such container" text || Text.contains "No such object" text then
    .notFound text
  else .command text

/-- What a call yields: its output without the blanks around it, or a fault.  Nobody waits for a call
that hangs. -/
def Answer.result : Answer → Except RuntimeFault String
  | .ended out err code => if code = 0 then .ok (Text.trimmed out) else .error (faultOf err)
  | .hangs | .unavailable => .error notInvoked

/-- Both outputs of a call, whether it went well or not. -/
def Answer.outputs : Answer → Except RuntimeFault String
  | .ended out err _ => .ok (out ++ err)
  | .hangs | .unavailable => .error notInvoked

/-! ### Scripted programs -/

/-- What the program answers to calls that begin with some arguments; the last answer is repeated. -/
structure Rule where
  args : List String
  answers : List Answer
  deriving Repr

/-- A program that follows rules, and the calls made so far, the latest first. -/
structure Script where
  rules : List Rule
  calls : List (List String) := []
  deriving Repr

namespace Script

/-- The answer of the first rule that applies, and the rules that are left. -/
def answer (args : List String) : List Rule → Answer × List Rule
  | [] => (.ended "" "" 0, [])
  | r :: rs =>
    if r.args.isPrefixOf args then
      match r.answers with
      | [] => (.ended "" "" 0, r :: rs)
      | [a] => (a, r :: rs)
      | a :: as => (a, { r with answers := as } :: rs)
    else
      let (a, rs) := answer args rs
      (a, r :: rs)

/-- A program that is called with arguments and follows the rules. -/
def respond : Program Script := fun args s =>
  let (a, rules) := answer args s.rules
  (a, { rules, calls := args :: s.calls })

end Script

/-- A program that is not there. -/
def missing {π : Type} : Program π := fun _ s => (.unavailable, s)

end Workload.Docker

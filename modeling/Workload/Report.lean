/-!
# The report

A report lists the outcome of every task in the order in which the outcomes arrived.  It is printed
with one numbered status line per entry, a detail line below an entry that has one, and a plan line
at the end.
-/

namespace Workload

/-- The outcome of one container of a task. -/
structure ReportEntry where
  ok : Bool
  describe : String
  detail : Option String
  deriving DecidableEq, Repr

/-- The outcomes so far, and whether they are printed in color. -/
structure Report where
  entries : List ReportEntry := []
  color : Bool := false
  deriving DecidableEq, Repr

namespace Report

def plain : Report := {}

def colored : Report := { color := true }

def record (r : Report) (ok : Bool) (describe : String) (detail : Option String) : Report :=
  { r with entries := r.entries ++ [⟨ok, describe, detail⟩] }

def pass (r : Report) (describe : String) : Report := r.record true describe none

def fail (r : Report) (describe detail : String) : Report := r.record false describe (some detail)

def failed (r : Report) : Nat := r.entries.countP fun e => !e.ok

/-- The status word; in color it stands between escape sequences. -/
def status (color ok : Bool) : String :=
  match ok, color with
  | true, false => "ok"
  | false, false => "not ok"
  | true, true => "\x1b[32mok\x1b[0m"
  | false, true => "\x1b[1;31mnot ok\x1b[0m"

/-- The lines of the entry with the number `n`. -/
def entryText (color : Bool) (n : Nat) (e : ReportEntry) : String :=
  status color e.ok ++ " " ++ toString n ++ " - " ++ e.describe ++ "\n" ++
    match e.detail with
    | some d => "  # " ++ d ++ "\n"
    | none => ""

/-- The entries numbered from `n` on. -/
def entriesText (color : Bool) : Nat → List ReportEntry → String
  | _, [] => ""
  | n, e :: es => entryText color n e ++ entriesText color (n + 1) es

def render (r : Report) : String :=
  entriesText r.color 1 r.entries ++ "1.." ++ toString r.entries.length ++ "\n"

end Report

end Workload

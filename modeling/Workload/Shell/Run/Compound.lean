import Workload.Shell.Run.Program

/-!
# Loops, choices and pipelines

How often and in which copies of the shell the parts of a command are carried out.
-/

namespace Workload.Shell

/-- How often a loop can go round. -/
def maxRounds : Nat := 10000000

section

variable (exec : Exec)

/-- What a loop does after its body: goes on, or ends. -/
def loopFlow (s : State) : State × Bool :=
  match s.flow with
  | none => (s, true)
  | some (.broken n) => ({ s with flow := if n ≤ 1 then none else some (.broken (n - 1)) }, false)
  | some (.continued n) =>
    if n ≤ 1 then ({ s with flow := none }, true)
    else ({ s with flow := some (.continued (n - 1)) }, false)
  | some _ => (s, false)

/-- Repeats a body as long as a test succeeds or fails. -/
def runLoop (tested stopOn : Bool) (test body : Command) : (fuel : Nat) → (status : Nat) → State → State
  | 0, status, s => s.finish status
  | fuel + 1, status, s =>
    let (s, goesOn) := loopFlow (exec true test s)
    if !goesOn then s
    else if s.flow.isSome then s
    else if (s.status = 0) = stopOn then s.finish status
    else
      let (s, goesOn) := loopFlow (exec tested body s)
      if goesOn then runLoop tested stopOn test body fuel s.status s else s

/-- Repeats a body for every word. -/
def runEach (tested : Bool) (header name : String) (body : Command) : List String → State → State
  | [], s => s
  | v :: vs, s =>
    let s := beforeCommand exec header (if s.isBash then traceLine header s else s)
    let s := s.assign name v
    if s.flow.isSome then s
    else
      let (s, goesOn) := loopFlow (exec tested body s)
      if goesOn then runEach tested header name body vs s else s

/-- Repeats a body as long as a number is not zero. -/
def runCounted (tested : Bool) (test step : String) (body : Command) : (fuel : Nat) → (status : Nat) →
    State → State
  | 0, status, s => s.finish status
  | fuel + 1, status, s =>
    let number := fun (t : String) (s : State) =>
      if t.toList.all (· = ' ') then (some 1, s)
      else Expansion.number (expansion (capture exec)) t s
    let (n, s) := number test s
    match n with
    | none => s
    | some n =>
      if n = 0 then s.finish status
      else
        let (s, goesOn) := loopFlow (exec tested body s)
        if goesOn then
          let status := s.status
          let (_, s) := number step s
          if s.flow.isSome then s else runCounted tested test step body fuel status s
        else s

/-- Whether a text matches one of some patterns. -/
def matchesAny (text : String) : List Word → State → Bool × State
  | [], s => (false, s)
  | w :: ws, s =>
    let (cells, s) := expandPattern (capture exec) w s
    if s.flow.isSome then (false, s)
    else
      let fold := fun (c : Char) => if s.has "nocasematch" then c.toLower else c
      if fits (marksOf s.isBash (cells.map fun c => (fold c.1, c.2))) (text.toList.map fold) then (true, s)
      else matchesAny text ws s

/-- Carries out the clauses whose patterns match; `enters` tells that the next one is carried out whatever
its patterns are. -/
def runClauses (tested : Bool) (text : String) : (enters : Bool) → Command → State → State
  | enters, .clause patterns body onward rest, s =>
    let (found, s) := if enters then (true, s) else matchesAny exec text patterns s
    if s.flow.isSome then s
    else if found then
      let s := exec tested body (s.finish 0)
      match onward with
      | .leave => s
      | .enter => if s.flow.isSome then s else runClauses tested text true rest s
      | .search => if s.flow.isSome then s else runClauses tested text false rest s
    else runClauses tested text false rest s
  | _, _, s => s

/-- The commands of a pipeline. -/
def pipelineOf : Command → List Command
  | .piped a b => pipelineOf a ++ [b]
  | c => [c]

/-- Carries out a command in a process of its own.  A command of words is not carried out in a copy of
the shell, and ends with the code that the shell itself would end with. -/
def apart (tested : Bool) (c : Command) (s : State) : State :=
  match c with
  | .simple .. => exec tested c { s with lackCode := 127 }
  | c => exec tested c s

/-- Carries out the commands of a pipeline, each of which reads what the one before it has written. -/
def runPipeline (tested : Bool) : List Command → (input : Option String) → List Nat → State →
    List Nat × State
  | [], _, codes, s => (codes, s)
  | c :: cs, input, codes, s =>
    let connected := fun (t : State) => match input with
      | some text => t.openStream 0 (.input text.toList)
      | none => t
    if cs.isEmpty then
      if s.isBash && s.has "lastpipe" then
        let t := exec tested c (connected s)
        (codes ++ [t.status], { t with streams := s.streams })
      else
        let t := inCopy exec (fun t => apart exec tested c (connected t)) s
        (codes ++ [t.status], t)
    else
      let (n, sys) := s.sys.open (.written [])
      let s := { s with sys }
      let t := inCopy exec (fun t => apart exec tested c ((connected t).connect 1 n)) s
      let text := t.sys.writtenTo n
      runPipeline tested cs (some text) (codes ++ [t.status]) { t with sys := t.sys.drop n }

/-- Carries out a command while the shell goes on. -/
def runBackground (c : Command) (s : State) : State :=
  let pid := s.sys.processes
  let start := s.sys.clock
  let s := { s with sys := { s.sys with processes := pid + 1 } }
  let t := inCopy exec (fun t => apart exec false c (t.openStream 0 .nothing)) s
  let sys :=
    { t.sys with
      clock := start
      running := s.sys.running ++ [(pid, t.sys.clock, t.status)] }
  { s with sys, lastProcess := some pid, status := 0 }

end

end Workload.Shell

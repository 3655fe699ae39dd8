import Workload.Hooks
import Workload.Shell.Run.Compound
import Workload.Shell.Run.Condition
import Workload.Shell.Run.Simple

/-!
# Running shell commands

A command changes the state of its shell.  What is carried out in a copy of the shell changes only what
the shell shares with other processes.
-/

namespace Workload.Shell

/-- How many bytes a command can write to a pipe while nobody reads from it. -/
def maxUnread : Nat := 262144

/-- Whether a pipe has been written to more than can be read. -/
def overflows (s : State) : Bool :=
  match (s.channelOf? 1).bind s.sys.channel? with
  | some (.written chunks) =>
    s.isCopy && maxUnread < (chunks.foldl (fun n c => n + c.2.length) 0)
  | _ => false

/-- Carries out a command that has others within it to some depth. -/
def run : (fuel : Nat) → Exec
  | 0, _, _, s => s.ends (.killed 11)
  | fuel + 1, tested, c, s =>
    let exec := run fuel
    if s.flow.isSome || s.has "noexec" then s
    else if overflows s then s.ends (.killed 13)
    else
      match c with
      | .nothing => s
      | .sequence a b => exec tested b (exec tested a s)
      | .background c => runBackground exec c s
      | .both a b =>
        let s := exec true a s
        if s.status = 0 then exec tested b s else s
      | .either a b =>
        let s := exec true a s
        if s.status = 0 then s else exec tested b s
      | .negated a =>
        let s := exec true a s
        if s.flow.isSome then s else s.finish (if s.status = 0 then 1 else 0)
      | .piped .. =>
        let (codes, s) := runPipeline exec tested (pipelineOf c) none [] s
        let failed := (codes.filter (· ≠ 0)).getLast?.getD 0
        let s := if s.has "pipefail" then s.finish failed else s
        let s := if s.isBash then
          s.put "PIPESTATUS" { content := .list (codes.zipIdx.map fun c => (c.2, toString c.1)) } else s
        settle exec (checked exec tested s)
      | .conditional test yes no =>
        let s := exec true test s
        if s.flow.isSome then s
        else if s.status = 0 then exec tested yes s
        else exec tested no (s.finish 0)
      | .loop stopOn test body =>
        let t := runLoop exec tested stopOn test body maxRounds 0 { s with loops := s.loops + 1 }
        { t with loops := s.loops }
      | .each line name words body =>
        let s := { s with line }
        let (vs, s) := match words with
          | some ws => expandArguments (capture exec) ws s
          | none => (s.arguments, s)
        if s.flow.isSome then s
        else if !isName name then (s.warn ("\x60" ++ name ++ "': not a valid identifier")).finish 1
        else
          let header := "for " ++ name ++ " in " ++ match words with
            | some ws => String.intercalate " " (ws.map Word.written)
            | none => "\"$@\""
          let t := runEach exec tested header name body vs { s.finish 0 with loops := s.loops + 1 }
          { t with loops := s.loops }
      | .counted start test step body =>
        let (n, s) := if start.toList.all (· = ' ') then (some 1, s)
          else Expansion.number (expansion (capture exec)) start s
        if n.isNone then s
        else
          let t := runCounted exec tested test step body maxRounds 0 { s with loops := s.loops + 1 }
          { t with loops := s.loops }
      | .choice line subject clauses =>
        let header := "case " ++ subject.written ++ " in"
        let s := if s.isBash then traceLine header { s with line } else { s with line }
        let (text, s) := expandText (capture exec) subject (beforeCommand exec header s)
        if s.flow.isSome then s else runClauses exec tested text false clauses (s.finish 0)
      | .clause .. => s
      | .define name body => { s with functions := s.functions.put name body }.finish 0
      | .subshell c => settle exec (checked exec tested (inCopy exec (exec tested c) s))
      | .redirected line c rs =>
        match c with
        | .subshell inner =>
          let t := inCopy exec (fun t =>
            let (t, good) := redirectAll exec rs { t with line }
            if good then exec tested inner t else t) s
          settle exec (checked exec tested t)
        | c =>
          let streams := s.streams
          let (s, good) := redirectAll exec rs { s with line }
          if good then { exec tested c s with streams }
          else checked exec tested { s with streams }
      | .formula line source =>
        let header := "((" ++ source ++ "))"
        let s := beforeCommand exec header (traceLine ("(( " ++ source ++ " ))") { s with line })
        let e := expansion (capture exec)
        let (ps, s) := e.text .formula .single source s
        let text := joined " " ps
        let s := match s.calculate text with
          | .ok (n, s) => s.finish (if n = 0 then 1 else 0)
          | .error f => { s.arithmeticFault "((: " text f with flow := none, status := 1 }
        checked exec tested s
      | .condition line c =>
        let (r, s) := holds exec "[[" c (beforeCommand exec "[[" { s with line })
        let s := match r with
          | .ok true => s.finish 0
          | .ok false => s.finish 1
          | .error m =>
            if s.flow.isSome then { s with flow := none, status := 1 }
            else if m.isEmpty then s.finish 2 else (s.warn ("[[: " ++ m)).finish 2
        checked exec tested s
      | .simple line words rs => settle exec (runSimple exec tested line words rs s)

/-- How deep commands can be within others. -/
def maxDepth : Nat := 20000

/-- The variables of the environment that are always there. -/
def baseVariables : Named String :=
  [("HOME", "/root"), ("PATH", "/usr/local/sbin:/usr/local/bin:/usr/sbin:/usr/bin:/sbin:/bin")]

/-- Starts a program with arguments; none if there is no such program. -/
def start : Hooks.Starter := fun vars files name args =>
  let environment := vars.foldl (fun e v => Named.put e (bytesOf v.1) (bytesOf v.2)) baseVariables
  let sys : System :=
    { files
      channels := [(0, .nothing), (1, .written []), (2, .written [])] }
  let s : State :=
    { dialect := .bash
      sys
      vars := environment.map fun v => (v.1, { content := .one v.2, exported := true }) }
  let name := bytesOf name
  let args := args.map bytesOf
  match findProgram name s with
  | .error _ => none
  | .ok place =>
    let exec := run maxDepth
    let base := place.getLast?.getD ""
    let t? : Option State :=
      if base = "sh" || base = "dash" then some (runShell exec .dash name args s)
      else if base = "bash" then some (runShell exec .bash name args s)
      else program? (spawn exec s) base args s
    t?.map fun t =>
      { code := match t.flow with
          | some (.killed _) => none
          | _ => some (t.code : Int)
        output := textOf (t.sys.writtenTo 1)
        files := t.sys.files }

end Workload.Shell

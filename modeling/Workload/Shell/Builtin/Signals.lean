import Workload.Shell.Builtin.Basic

/-!
# Signals and processes

What a shell does about signals, whom it sends them to, and for whom it waits.
-/

namespace Workload.Shell

namespace State

/-- The signals, in the order of their numbers. -/
def signalNames : List String :=
  ["EXIT", "HUP", "INT", "QUIT", "ILL", "TRAP", "ABRT", "BUS", "FPE", "KILL", "USR1", "SEGV", "USR2", "PIPE",
    "ALRM", "TERM", "STKFLT", "CHLD", "CONT", "STOP", "TSTP", "TTIN", "TTOU", "URG", "XCPU", "XFSZ",
    "VTALRM", "PROF", "WINCH", "IO", "PWR", "SYS"]

/-- The name of a signal that is given by its name or its number. -/
def signalName? (s : State) (a : String) : Option String :=
  match Text.natOf? 10 a.toList with
  | some n => signalNames[n]?
  | none =>
    let upper := if s.isBash then String.ofList (a.toList.map Char.toUpper) else a
    let bare := if upper.startsWith "SIG" then String.ofList (upper.toList.drop 3) else upper
    if signalNames.contains bare || (s.isBash && ["ERR", "DEBUG", "RETURN"].contains bare) then some bare
    else
      let upper := String.ofList (bare.toList.map Char.toUpper)
      if signalNames.contains upper then some upper else none

def trap (args : List String) (s : State) : State :=
  let s := s.finish 0
  let shownName := fun (n : String) =>
    if s.isBash && n ≠ "EXIT" && signalNames.contains n then "SIG" ++ n else n
  let quote := if s.isBash then quotedText else dashQuoted
  let list := fun (names : List String) (s : State) =>
    (signalNames ++ ["DEBUG", "ERR", "RETURN"]).foldl
      (fun s n => match s.traps.get? n with
        | some action =>
          if names.isEmpty || names.contains n then
            s.print ("trap -- " ++ quote action ++ " " ++ shownName n ++ "\n")
          else s
        | none => s)
      s
  match args with
  | [] => list [] s
  | "-p" :: names => list (names.filterMap s.signalName?) s
  | "-l" :: _ => s
  | "--" :: [] => list [] s
  | first :: rest =>
    let (first, rest) := if first = "--" then (rest.headD "", rest.tail) else (first, rest)
    let resets := first = "-" || rest.isEmpty || (Text.natOf? 10 first.toList).isSome
    let names := if first = "-" || !(rest.isEmpty || (Text.natOf? 10 first.toList).isSome) then rest
      else first :: rest
    names.foldl
      (fun s n => match s.signalName? n with
        | some name =>
          let others := s.traps.filter fun t => t.1 ≠ name
          { s with traps := if resets then others else others ++ [(name, first)] }
        | none =>
          if s.isBash then (s.warn ("trap: " ++ n ++ ": invalid signal specification")).finish 1
          else (s.complain ("trap: " ++ n ++ ": bad trap")).finish 1)
      s

/-- The signals that end nothing by themselves. -/
def harmless : List String := ["EXIT", "CHLD", "CONT", "URG", "WINCH"]

/-- Gets a signal. -/
def receive (name : String) (s : State) : State :=
  match s.traps.get? name with
  | some action =>
    if name = "KILL" then s.ends (.killed 9)
    else if action.isEmpty then s else { s with pending := s.pending ++ [name] }
  | none =>
    if harmless.contains name || name = "STOP" then s
    else s.ends (.killed (signalNames.idxOf name))

/-- Gets the signals that its copies have sent to a shell. -/
def receiveAll (s : State) : State :=
  if s.isCopy then s
  else s.sys.signals.foldl (fun s n => s.receive n) { s with sys := { s.sys with signals := [] } }

/-- Ends a process that has been started. -/
def endProcess (n signal : Nat) (s : State) : State :=
  let sys := s.sys
  let running := sys.running.map fun r =>
    if r.1 = n && sys.clock < r.2.1 then (r.1, sys.clock, 128 + signal) else r
  { s with sys := { sys with running } }

def kill (args : List String) (s : State) : State :=
  let (signal, targets) : Option String × List String :=
    match args with
    | "-s" :: n :: rest | "-n" :: n :: rest => (s.signalName? n, rest)
    | "--" :: rest => (some "TERM", rest)
    | a :: rest =>
      match a.toList with
      | '-' :: n => (s.signalName? (String.ofList n), if rest.head? = some "--" then rest.tail else rest)
      | _ => (some "TERM", args)
    | [] => (some "TERM", [])
  match args with
  | ["-l"] => s.finish 0
  | ["-l", a] =>
    match Text.natOf? 10 a.toList with
    | some n =>
      match signalNames[(if 128 < n then n - 128 else n)]? with
      | some name => (s.print ((if n = 0 then "0" else name) ++ "\n")).finish 0
      | none => s.refuse "kill" (a ++ ": invalid signal specification") 1
    | none =>
      match s.signalName? a with
      | some name => (s.print (toString (signalNames.idxOf name) ++ "\n")).finish 0
      | none => s.refuse "kill" (a ++ ": invalid signal specification") 1
  | _ =>
    match signal with
    | none =>
      let name := String.ofList ((args.headD "").toList.drop 1)
      if s.isBash then (s.warn ("kill: " ++ name ++ ": invalid signal specification")).finish 1
      else s.refuse "kill" ("Illegal option -" ++ String.ofList (name.toList.take 1)) 2
    | some name =>
      if targets.isEmpty then
        if s.isBash then
          (s.complain "kill: usage: kill [-s sigspec | -n signum | -sigspec] pid | jobspec ... or kill -l [sigspec]").finish 2
        else
          s.refuse "kill" "Usage: kill [-s sigspec | -signum | -sigspec] [pid | job]... or\nkill -l [exitstatus]" 2
      else
        targets.foldl
          (fun s t =>
            match Text.natOf? 10 (if t.startsWith "-" then t.toList.drop 1 else t.toList) with
            | some n =>
              if n = ownProcess || n = 0 then
                if s.isCopy then { s with sys := { s.sys with signals := s.sys.signals ++ [name] } }
                else s.receive name
              else if s.sys.running.any fun r => r.1 = n then
                if harmless.contains name then s else s.endProcess n (signalNames.idxOf name)
              else if s.isBash then (s.warn ("kill: (" ++ t ++ ") - No such process")).finish 1
              else (s.complain (s.speaker ++ "kill: No such process\n")).finish 1
            | none =>
              if t.startsWith "%" then
                match s.sys.running.getLast? with
                | some r => s.endProcess r.1 (signalNames.idxOf name)
                | none => s.refuse "kill" ("No such job: " ++ t) 1
              else if s.isBash then
                (s.warn ("kill: " ++ t ++ ": arguments must be process or job IDs")).finish 1
              else s.refuse "kill" ("Illegal number: " ++ t) 2)
          (s.finish 0)

/-- Waits for processes. -/
def wait (args : List String) (s : State) : State :=
  let until_ := fun (t : Nat) (s : State) => { s with sys := { s.sys with clock := max s.sys.clock t } }
  match args.filter fun a => a ≠ "-n" with
  | [] =>
    let s := s.sys.running.foldl (fun s r => until_ r.2.1 s) s
    { s with sys := { s.sys with running := [] } }.finish 0
  | targets =>
    targets.foldl
      (fun s t =>
        let found := if t.startsWith "%" then
          (match Text.natOf? 10 (t.toList.drop 1) with
            | some n => s.sys.running[n - 1]?
            | none => s.sys.running.getLast?)
          else s.sys.running.find? fun r => toString r.1 = t
        match found with
        | some r => (until_ r.2.1 s).finish r.2.2
        | none =>
          if s.isBash then
            (s.warn ("wait: pid " ++ t ++ " is not a child of this shell")).finish 127
          else s.finish 127)
      (s.finish 0)

end State

end Workload.Shell

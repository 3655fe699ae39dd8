import Workload.Shell.Programs.Characters
import Workload.Shell.Programs.Difference
import Workload.Shell.Programs.Edit
import Workload.Shell.Programs.Encode
import Workload.Shell.Programs.Evaluate
import Workload.Shell.Programs.Lines
import Workload.Shell.Programs.Order
import Workload.Shell.Programs.Search
import Workload.Shell.Programs.Select
import Workload.Shell.Programs.Sequence

/-!
# Programs by their names

The programs that call others, those that say something about the machine, and all programs by their
names.
-/

namespace Workload.Shell.Programs

/-- The time that an argument of `sleep` is, in milliseconds. -/
def duration? (t : String) : Option Nat :=
  let cs := t.toList
  let (ds, unit) := match cs.getLast? with
    | some 's' => (cs.dropLast, 1000)
    | some 'm' => (cs.dropLast, 60000)
    | some 'h' => (cs.dropLast, 3600000)
    | some 'd' => (cs.dropLast, 86400000)
    | _ => (cs, 1000)
  let whole := ds.takeWhile Char.isDigit
  match ds.drop whole.length with
  | [] => (Text.natOf? 10 whole).map (· * unit)
  | '.' :: part =>
    if part.all Char.isDigit && !(whole.isEmpty && part.isEmpty) then
      let n := (whole ++ part).foldl (fun n c => 10 * n + digit c) 0
      some (n * unit / Nat.pow 10 part.length)
    else none
  | _ => if ds = "infinity".toList || ds = "inf".toList then some 1000000000000 else none

def sleep (args : List String) (s : State) : State :=
  if args.isEmpty then
    ((s.complain "sleep: missing operand").complain "Try 'sleep --help' for more information.").finish 1
  else
    match args.find? fun a => (duration? a).isNone with
    | some a =>
      ((s.complain ("sleep: invalid time interval '" ++ a ++ "'")).complain
        "Try 'sleep --help' for more information.").finish 1
    | none =>
      let n := args.foldl (fun n a => n + (duration? a).getD 0) 0
      { s with sys := { s.sys with clock := s.sys.clock + n } }.finish 0

/-- Gives up a program after some time. -/
def timeout (spawn : Spawn) (args : List String) (s : State) : State :=
  withOptions "timeout" { letters := "s:k:vpf", long := [("signal", 's'), ("kill-after", 'k'),
      ("preserve-status", 'p'), ("foreground", 'f')], mixed := false } 125 args s
    fun o s =>
      match o.operands with
      | t :: command =>
        match duration? t with
        | none => (s.complain ("timeout: invalid time interval '" ++ t ++ "'")).finish 125
        | some limit =>
          if command.isEmpty then (s.complain "timeout: missing operand").finish 125
          else
            let start := s.sys.clock
            let t := spawn command s
            if limit ≠ 0 && start + limit < t.sys.clock then
              { t with sys := { t.sys with clock := start + limit } }.finish (if o.has 'p' then 143 else 124)
            else t
      | [] => (s.complain "timeout: missing operand").finish 125

/-- Calls a program with other variables, or shows them. -/
def env (spawn : Spawn) : (fuel : Nat) → List String → State → State
  | 0, _, s => s
  | fuel + 1, args, s =>
    match args with
    | "-i" :: rest | "-" :: rest | "--ignore-environment" :: rest =>
      env spawn fuel rest { s with vars := s.vars.filter fun v => !v.2.exported }
    | "-u" :: n :: rest => env spawn fuel rest (s.remove n)
    | "-C" :: d :: rest => env spawn fuel rest (s.changeDirectory d false)
    | "--" :: rest => env spawn fuel rest s
    | "-0" :: rest => env spawn fuel rest s
    | "-S" :: t :: rest => env spawn fuel (Text.words t ++ rest) s
    | [] => (s.environment.foldl (fun s v => s.print (v.1 ++ "=" ++ v.2 ++ "\n")) s).finish 0
    | a :: rest =>
      match Text.cut? "=" a with
      | some (n, v) =>
        if n.isEmpty then (s.complain ("env: cannot set '': Invalid argument")).finish 125
        else env spawn fuel rest (s.put n { content := .one v, exported := true })
      | none =>
        if a.startsWith "-u" then env spawn fuel rest (s.remove (String.ofList (a.toList.drop 2)))
        else if a.startsWith "-" then
          ((s.complain ("env: invalid option -- '" ++ String.ofList ((a.toList.drop 1).take 1) ++ "'")).complain
            "Try 'env --help' for more information.").finish 125
        else
          match s.programPath? a with
          | some _ => spawn (a :: rest) s
          | none =>
            let there := a.toList.contains '/' && (s.entry? a).isSome
            (s.complain ("env: '" ++ a ++ "': " ++
              if there then "Permission denied" else "No such file or directory")).finish (if there then 126 else 127)

def printenv (args : List String) (s : State) : State :=
  match args.filter fun a => a ≠ "-0" with
  | [] => (s.environment.foldl (fun s v => s.print (v.1 ++ "=" ++ v.2 ++ "\n")) s).finish 0
  | names =>
    names.foldl
      (fun s n => match s.environment.get? n with
        | some v => s.print (v ++ "\n")
        | none => s.finish 1)
      (s.finish 0)

/-- The arguments that a text holds, with quotes and backslashes. -/
def quotedWords : (fuel : Nat) → (word : Option (List Char)) → List Char → List String
  | 0, _, _ => []
  | _, word, [] => (word.map fun w => String.ofList w.reverse).toList
  | fuel + 1, word, c :: cs =>
    if c = ' ' || c = '\t' || c = '\n' then
      (word.map fun w => String.ofList w.reverse).toList ++ quotedWords fuel none cs
    else if c = '\'' || c = '"' then
      let inner := cs.takeWhile (· ≠ c)
      quotedWords fuel (some (inner.reverse ++ word.getD [])) (cs.drop (inner.length + 1))
    else if c = '\\' then quotedWords fuel (some (cs.headD '\\' :: word.getD [])) cs.tail
    else quotedWords fuel (some (c :: word.getD [])) cs

/-- Splits a list into lists of some length. -/
def chunksOf {α : Type} (n : Nat) : (fuel : Nat) → List α → List (List α)
  | 0, _ => []
  | _, [] => []
  | fuel + 1, l => l.take n :: chunksOf n fuel (l.drop n)

def xargs (spawn : Spawn) (args : List String) (s : State) : State :=
  withOptions "xargs" { letters := "n:I:i0d:rL:tP:s:a:E:px", long := [("max-args", 'n'), ("null", '0'),
      ("delimiter", 'd'), ("no-run-if-empty", 'r'), ("replace", 'I'), ("max-lines", 'L'), ("max-procs", 'P')], mixed := false }
    1 args s
    fun o s =>
      let command := if o.operands.isEmpty then ["echo"] else o.operands
      let (text, s) := s.readAll 0
      let delimiter : Option Char :=
        if o.has '0' then some '\x00'
        else (o.value? 'd').bind fun t => (unescape .program false true 100 [] t.toList).1.head?
      let pieces := fun (c : Char) =>
        let ps := Text.pieces c text
        if ps.getLast? = some "" then ps.dropLast else ps
      let words := match delimiter with
        | some c => pieces c
        | none =>
          if o.has 'I' then ((linesOf text).map fun l =>
            String.ofList (l.toList.dropWhile fun c => c = ' ' || c = '\t')).filter fun l => !l.isEmpty
          else quotedWords (text.length + 1) none text.toList
      let calls :=
        match o.value? 'I' with
        | some mark => words.map fun w => command.map (Text.replaceAll mark w)
        | none =>
          match (o.value? 'L').bind natural? with
          | some n =>
            (chunksOf (max n 1) (text.length + 1) ((linesOf text).filter fun l => !l.isEmpty)).map fun ls =>
              command ++ ls.flatMap fun l => quotedWords (l.length + 1) none l.toList
          | none =>
            match (o.value? 'n').bind natural? with
            | some n => (chunksOf (max n 1) (words.length + 1) words).map fun ws => command ++ ws
            | none => [command ++ words]
      let calls := if words.isEmpty && (o.has 'r' || o.has 'I') then [] else calls
      let inner := s.openStream 0 .nothing
      let t := calls.foldl
        (fun (t : State × Nat) call =>
          if t.2 = 124 || t.2 = 126 || t.2 = 127 then t
          else
            let u := if o.has 't' then t.1.complain (String.intercalate " " call) else t.1
            let u := match u.programPath? (call.headD "") with
              | some _ => spawn call u
              | none => (u.complain ("xargs: " ++ call.headD "" ++ ": No such file or directory")).finish 127
            (u, if u.status = 0 then t.2 else if u.status = 255 then 124 else if u.status = 127 then 127
              else if u.status = 126 then 126 else 123))
        (inner, 0)
      { t.1 with streams := s.streams }.finish t.2

/-- Says which programs names stand for. -/
def which (args : List String) (s : State) : State :=
  (args.filter fun a => a ≠ "-a").foldl
    (fun s n => match s.programPath? n with
      | some p => s.print (p ++ "\n")
      | none => s.finish 1)
    (s.finish 0)

def uname (args : List String) (s : State) : State :=
  let letters := args.flatMap fun a => a.toList.drop 1
  let all := letters.contains 'a'
  let parts := [('s', "Linux"), ('n', "localhost"), ('r', "6.1.0"), ('v', "#1 SMP"), ('m', "x86_64"),
    ('o', "GNU/Linux")]
  let shown := if letters.isEmpty then ["Linux"]
    else (parts.filter fun p => all || letters.contains p.1).map Prod.snd
  (s.print (String.intercalate " " shown ++ "\n")).finish 0

def identity (args : List String) (s : State) : State :=
  let letters := args.flatMap fun a => if a.startsWith "-" then a.toList.drop 1 else []
  let name := letters.contains 'n'
  (s.print ((if letters.contains 'u' || letters.contains 'g' || letters.contains 'G' then (if name then "root" else "0")
    else "uid=0(root) gid=0(root) groups=0(root)") ++ "\n")).finish 0

/-- Prints a line again and again, as often as anybody will read it. -/
def yes (args : List String) (s : State) : State :=
  let line := (if args.isEmpty then "y" else String.intercalate " " args) ++ "\n"
  (s.print (String.join (List.replicate (min 20000 (65536 / line.length + 1)) line))).finish 141

/-- Moves the arguments of a program that calls another one. -/
def prefixed (spawn : Spawn) (args : List String) (s : State) : State :=
  match args.dropWhile fun a => a.startsWith "-" with
  | [] => s.finish 0
  | command => spawn command s

end Programs

open Programs in
/-- Runs a program; none if there is none of that name. -/
def program? (spawn : Spawn) (name : String) (args : List String) (s : State) : Option State :=
  match name with
  | "true" | "sync" => some (s.finish 0)
  | "false" => some (s.finish 1)
  | "echo" => some ((s.print (echoText .program args)).finish 0)
  | "printf" => some (s.printf .program args)
  | "test" | "[" =>
    some (({ s with dialect := .bash, title := name }.test name args) |> fun t => { t with dialect := s.dialect })
  | "pwd" => some ((s.print (absolutePath s.here ++ "\n")).finish 0)
  | "kill" => some ({ s with dialect := .bash }.kill args)
  | "cat" => some (cat args s)
  | "head" => some (head args s)
  | "tail" => some (tail args s)
  | "sort" => some (sort args s)
  | "uniq" => some (uniq args s)
  | "comm" => some (comm args s)
  | "wc" => some (wc args s)
  | "nl" => some (nl args s)
  | "tac" => some (tac args s)
  | "rev" => some (rev args s)
  | "fold" => some (fold args s)
  | "paste" => some (paste args s)
  | "tr" => some (tr args s)
  | "cut" => some (cut args s)
  | "seq" => some (seq args s)
  | "cmp" => some (cmp args s)
  | "diff" => some (diff args s)
  | "od" => some (od args s)
  | "base64" => some (base64 args s)
  | "grep" => some (grep 'G' args s)
  | "egrep" => some (grep 'E' args s)
  | "fgrep" => some (grep 'F' args s)
  | "expr" => some (expr args s)
  | "sed" => some (sed args s)
  | "basename" => some (basename args s)
  | "dirname" => some (dirname args s)
  | "mkdir" => some (mkdir args s)
  | "rmdir" => some (rmdir args s)
  | "rm" => some (rm args s)
  | "touch" => some (touch args s)
  | "cp" => some (transfer "cp" false args s)
  | "mv" => some (transfer "mv" true args s)
  | "ln" => some (ln args s)
  | "chmod" => some (chmod args s)
  | "chown" => some (s.finish 0)
  | "ls" => some (ls args s)
  | "realpath" => some (realpath "realpath" args s)
  | "readlink" => some (realpath "readlink" args s)
  | "mktemp" => some (mktemp args s)
  | "stat" => some (stat args s)
  | "truncate" => some (truncate args s)
  | "tee" => some (tee args s)
  | "find" => some (find spawn args s)
  | "sleep" => some (sleep args s)
  | "timeout" => some (timeout spawn args s)
  | "env" => some (env spawn (args.length + 2) args s)
  | "printenv" => some (printenv args s)
  | "xargs" => some (xargs spawn args s)
  | "which" => some (which args s)
  | "uname" => some (uname args s)
  | "id" => some (identity args s)
  | "whoami" => some ((s.print "root\n").finish 0)
  | "hostname" => some ((s.print "localhost\n").finish 0)
  | "nproc" => some ((s.print "1\n").finish 0)
  | "tty" => some ((s.print "not a tty\n").finish 1)
  | "date" => some ((s.print "Thu Jan  1 00:00:00 UTC 1970\n").finish 0)
  | "yes" => some (yes args s)
  | "nice" | "nohup" | "stdbuf" => some (prefixed spawn args s)
  | _ => none

end Workload.Shell

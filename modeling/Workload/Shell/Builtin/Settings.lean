import Workload.Shell.Builtin.Basic

/-!
# Arguments and options of a shell

The commands that change the arguments and the options of their shell.
-/

namespace Workload.Shell

namespace State

def shift (args : List String) (s : State) : State :=
  let count : Option Nat := match args with
    | [] => some 1
    | a :: _ => number? a
  match count with
  | none =>
    if s.isBash then
      (s.warn ("shift: " ++ args.headD "" ++ ": numeric argument required")).finish 1
    else s.refuse "shift" ("Illegal number: " ++ args.headD "") 1
  | some n =>
    if s.arguments.length < n then
      if s.isBash then s.finish 1 else s.refuse "shift" "can't shift that many" 1
    else { s with arguments := s.arguments.drop n }.finish 0

/-- The options by their letters. -/
def optionName? (s : State) (c : Char) : Option String :=
  match c with
  | 'a' => some "allexport"
  | 'b' => some "notify"
  | 'C' => some "noclobber"
  | 'e' => some "errexit"
  | 'f' => some "noglob"
  | 'm' => some "monitor"
  | 'n' => some "noexec"
  | 'u' => some "nounset"
  | 'v' => some "verbose"
  | 'x' => some "xtrace"
  | _ =>
    if s.isBash then
      match c with
      | 'h' => some "hashall"
      | 'k' => some "keyword"
      | 'p' => some "privileged"
      | 't' => some "onecmd"
      | 'B' => some "braceexpand"
      | 'E' => some "errtrace"
      | 'H' => some "histexpand"
      | 'P' => some "physical"
      | 'T' => some "functrace"
      | _ => none
    else
      match c with
      | 'i' => some "interactive"
      | 's' => some "stdin"
      | 'I' => some "ignoreeof"
      | 'V' => some "vi"
      | 'E' => some "emacs"
      | _ => none

/-- The options that have names. -/
def optionNames (s : State) : List String :=
  if s.isBash then
    ["allexport", "braceexpand", "emacs", "errexit", "errtrace", "functrace", "hashall", "histexpand",
      "history", "ignoreeof", "interactive-comments", "keyword", "monitor", "noclobber", "noexec",
      "noglob", "nolog", "notify", "nounset", "onecmd", "physical", "pipefail", "posix", "privileged",
      "verbose", "vi", "xtrace"]
  else
    ["errexit", "noglob", "ignoreeof", "interactive", "monitor", "noexec", "stdin", "xtrace", "verbose",
      "vi", "emacs", "noclobber", "allexport", "notify", "nounset", "nolog", "debug"]

def setOption (name : String) (on : Bool) (s : State) : State :=
  { s with options := (if on then [name] else []) ++ s.options.filter (· ≠ name) }

/-- Sets the options of the letters of an argument. -/
def setLetters (on : Bool) (letters : List Char) (s : State) : Except Char State :=
  letters.foldlM
    (fun s c => match s.optionName? c with
      | some n => .ok (s.setOption n on)
      | none => .error c)
    s

/-- A variable as a shell shows it. -/
def shown (s : State) (name : String) (v : Variable) : String :=
  let quote := if s.isBash then bashQuoted else dashQuoted
  match v.content with
  | .one t =>
    if s.isBash && !(needsEscapes t) && t.toList.all (fun c => c.isAlphanum || "_-./:,+@%^=".toList.contains c) then
      name ++ "=" ++ t
    else name ++ "=" ++ quote t
  | _ => name

/-- Reads options, and takes what follows them for the arguments. -/
def setOptions : (fuel : Nat) → List String → State → State
  | 0, _, s => s
  | _, [], s => s
  | fuel + 1, a :: rest, s =>
    match a.toList with
    | ['-', '-'] => { s with arguments := rest }
    | ['-'] =>
      let s := (s.setOption "xtrace" false).setOption "verbose" false
      if rest.isEmpty then s else { s with arguments := rest }
    | ['-', 'o'] | ['+', 'o'] =>
      match rest with
      | [] =>
        s.optionNames.foldl
          (fun s n =>
            let pad := String.ofList (List.replicate (15 - n.length) ' ')
            s.print (n ++ pad ++ (if s.isBash then "\t" else " ") ++ (if s.has n then "on" else "off") ++ "\n"))
          (if s.isBash then s else s.print "Current option settings\n")
      | n :: rest =>
        if s.optionNames.contains n then setOptions fuel rest (s.setOption n (a = "-o"))
        else if s.isBash then (s.warn ("set: " ++ n ++ ": invalid option name")).finish 2
        else s.refuse "set" ("Illegal option " ++ a ++ " " ++ n) 2
    | sign :: c :: letters =>
      if sign = '-' || sign = '+' then
        let (named, letters) := if (c :: letters).getLast? = some 'o' && letters ≠ [] then
          (true, (c :: letters).dropLast) else (false, c :: letters)
        match s.setLetters (sign = '-') letters with
        | .error c =>
          let o := String.ofList [sign, c]
          if s.isBash then
            ((s.warn ("set: " ++ o ++ ": invalid option")).complain
              "set: usage: set [-abefhkmnptuvxBCEHPT] [-o option-name] [--] [-] [arg ...]").finish 2
          else s.refuse "set" ("Illegal option " ++ o) 2
        | .ok s =>
          if named then setOptions fuel (String.ofList [sign, 'o'] :: rest) s
          else setOptions fuel rest s
      else { s with arguments := a :: rest }
    | _ => { s with arguments := a :: rest }

def set (args : List String) (s : State) : State :=
  let s := s.finish 0
  if args.isEmpty then
    (s.vars.mergeSort fun a b => a.1 ≤ b.1).foldl
      (fun s v => if v.2.content = .nothing then s else s.print (s.shown v.1 v.2 ++ "\n")) s
  else setOptions (args.length + 1) args s

end State

end Workload.Shell

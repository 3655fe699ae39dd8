import Workload.Shell.Builtin.Basic

/-!
# Options of arguments

Options are taken off the arguments one by one.
-/

namespace Workload.Shell

namespace State

/-- Takes the next option off the arguments. -/
def getopts (args : List String) (s : State) : State :=
  match args with
  | spec :: name :: rest =>
    let words := if rest.isEmpty then s.arguments else rest
    let silent := spec.startsWith ":"
    let at_ := (((s.text? "OPTIND").bind fun t => Text.natOf? 10 t.toList).getD 1)
    let move := fun (i letters : Nat) (s : State) =>
      { s.force "OPTIND" (toString i) with letters }
    let done := fun (i : Nat) (s : State) =>
      ((move i 0 s).assign name "?").remove "OPTARG" |>.finish 1
    match words[at_ - 1]? with
    | none => done at_ s
    | some word =>
      let cs := word.toList
      let offset := if s.letters = 0 || cs.length ≤ s.letters then 1 else s.letters
      if (s.letters = 0 || cs.length ≤ s.letters) && (cs.head? ≠ some '-' || cs.length = 1) then done at_ s
      else if word = "--" then done (at_ + 1) s
      else
        let c := cs.getD offset '?'
        let behind := cs.drop (offset + 1)
        let known := spec.toList.dropWhile (· ≠ c)
        let advance := fun (s : State) =>
          if behind.isEmpty then move (at_ + 1) 0 s else move at_ (offset + 1) s
        let title := s.title
        if known.isEmpty || c = ':' then
          let s := (advance s).assign name "?"
          if silent then (s.force "OPTARG" c.toString).finish 0
          else
            ((if s.isBash then s.complain (title ++ ": illegal option -- " ++ c.toString)
              else s.complain ("Illegal option -" ++ c.toString)).remove "OPTARG").finish 0
        else if known[1]? = some ':' then
          if !behind.isEmpty then
            (((move (at_ + 1) 0 s).force "OPTARG" (String.ofList behind)).assign name c.toString).finish 0
          else
            match words[at_]? with
            | some value =>
              (((move (at_ + 2) 0 s).force "OPTARG" value).assign name c.toString).finish 0
            | none =>
              let s := move (at_ + 1) 0 s
              if silent then ((s.force "OPTARG" c.toString).assign name ":").finish 0
              else
                (((if s.isBash then s.complain (title ++ ": option requires an argument -- " ++ c.toString)
                  else s.complain ("No arg for -" ++ c.toString ++ " option")).remove "OPTARG").assign name "?").finish 0
        else
          let s := (advance s).assign name c.toString
          (if s.isBash then s.remove "OPTARG" else s.force "OPTARG" "").finish 0
  | _ =>
    if s.isBash then (s.complain "getopts: usage: getopts optstring name [arg ...]").finish 2
    else s.refuse "getopts" "Usage: getopts optstring var [arg...]" 2

end State

end Workload.Shell

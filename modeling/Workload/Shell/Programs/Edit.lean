import Workload.Shell.Programs.Edit.Run

/-!
# The stream editor

What the arguments of the editor say, and where its output goes.
-/

namespace Workload.Shell.Programs

open Edit in
def sed (args : List String) (s : State) : State :=
  let inPlace := args.find? fun a => a.startsWith "-i" || a.startsWith "--in-place"
  let suffix := inPlace.map fun a =>
    String.ofList (a.toList.drop (if a.startsWith "--in-place=" then 11 else if a.startsWith "--in-place" then 10 else 2))
  let args := args.filter fun a => !(a.startsWith "-i" || a.startsWith "--in-place")
  withOptions "sed"
    { letters := "ne:f:Ersuzl:", long := [("quiet", 'n'), ("silent", 'n'), ("expression", 'e'), ("file", 'f'),
        ("regexp-extended", 'E'), ("separate", 's')] } 1 args s
    fun o s =>
      let scripts := o.given.filterMap fun g =>
        if g.1 = 'e' then some g.2
        else if g.1 = 'f' then some ((s.content? g.2).toOption.getD "")
        else none
      let (script?, operands) := if scripts.isEmpty then (o.operands.head?, o.operands.tail)
        else (some (String.intercalate "\n" scripts), o.operands)
      match script? with
      | none => (s.complain "Usage: sed [OPTION]... \x7bscript-only-if-no-other-script\x7d [input-file]...").finish 1
      | some script =>
        let (silent, script) := if script.startsWith "#n\n" then (true, script) else (o.has 'n', script)
        match Edit.steps (o.has 'E' || o.has 'r') (script.length + 1) script.toList [] with
        | .error m => (s.complain ("sed: -e expression #1, char 0: " ++ m)).finish 1
        | .ok ss =>
          let run := fun (text : String) => Run.lines silent ss (text.length + 2) { rest := markedLines text }
          let save := fun (r : Run) (s : State) =>
            r.files.foldl (fun s f => match s.store f.1 f.2 with
              | .ok s => s
              | .error _ => s) s
          match suffix with
          | some suffix =>
            operands.foldl
              (fun s p => match s.content? p with
                | .error e => (s.complain ("sed: can't read " ++ p ++ ": " ++ reason e)).finish 4
                | .ok text =>
                  let r := run text
                  let s := if suffix.isEmpty then s
                    else match s.store (p ++ suffix) text with
                      | .ok s => s
                      | .error _ => s
                  match (save r s).store p (withFiles s r.output) with
                  | .ok s => s
                  | .error e => (s.complain ("sed: couldn't open file " ++ p ++ ": " ++ reason e)).finish 4)
              s
          | none =>
            let (texts, s) := (if operands.isEmpty then ["-"] else operands).foldl
              (fun (texts, s) p =>
                if p ≠ "-" && s.isDirectory p then
                  (texts, (s.complain ("sed: couldn't edit " ++ p ++ ": read error on " ++ p ++ ": Is a directory")).finish 4)
                else
                  match p with
                  | "-" =>
                    let (t, s) := s.readAll 0
                    (texts ++ [t], s)
                  | p =>
                    match s.readPath p with
                    | .ok (t, s) => (texts ++ [t], s)
                    | .error e => (texts, (s.complain ("sed: can't read " ++ p ++ ": " ++ reason e)).finish 2))
              (([] : List String), s)
            let whole := texts.foldl
              (fun acc t => if acc.isEmpty || acc.endsWith "\n" then acc ++ t else acc ++ "\n" ++ t) ""
            let r := run whole
            let s := (save r s).print (withFiles s r.output)
            match r.code with
            | some c => if c = 0 then s else s.finish c
            | none => s

end Workload.Shell.Programs

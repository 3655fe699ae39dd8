import Workload.Shell.Run.Call
import Workload.Shell.Run.Program
import Workload.Shell.Run.Redirection

/-!
# Commands of words

Assignments and redirections come before the call, and are taken back after it.
-/

namespace Workload.Shell

section

variable (exec : Exec)

/-- An assignment that a word is: the name, the index, whether it adds, and the value. -/
structure Assignment where
  name : String
  index : Option String := none
  adds : Bool := false
  value : Word
  deriving DecidableEq, Repr

def assignmentOf? (isBash : Bool) (w : Word) : Option Assignment :=
  match w with
  | .target name index adds :: value => some { name, index := some index, adds, value }
  | .text t false :: rest =>
    match Text.cutAt ['='] t.toList with
    | none => none
    | some (name, text) =>
      let (name, adds) := if isBash && name.getLast? = some '+' then (name.dropLast, true) else (name, false)
      if isName (String.ofList name) then
        some
          { name := String.ofList name
            adds
            value := if text.isEmpty then rest else .text (String.ofList text) false :: rest }
      else none
  | _ => none

/-- The elements of an array that words describe, behind those that there are. -/
def arrayItems (capture : Capture) (table : Bool) : List Word → List (String × String) → Nat → State →
    List (String × String) × State
  | [], acc, _, s => (acc, s)
  | w :: ws, acc, next, s =>
    let keyed : Option (String × Word) := match w with
      | .text t false :: rest =>
        match t.toList with
        | '[' :: cs =>
          match Text.cutAt [']', '='] cs with
          | some (key, text) =>
            some (String.ofList key, if text.isEmpty then rest else .text (String.ofList text) false :: rest)
          | none => none
        | _ => none
      | _ => none
    match keyed with
    | some (key, value) =>
      let (text, s) := expandValue capture value s
      let (key, s) :=
        if table then expandText capture (wordOf s.dialect .whole key) s
        else
          let (n, s) := Expansion.number (expansion capture) key s
          (toString ((n.getD 0).toInt), s)
      let next := ((Text.natOf? 10 key.toList).getD next) + 1
      arrayItems capture table ws (acc.filter (fun i => i.1 ≠ key) ++ [(key, text)]) next s
    | none =>
      let (texts, s) := expandArgument capture w s
      let items := texts.zipIdx.map fun t => (toString (next + t.2), t.1)
      arrayItems capture table ws (acc.filter (fun i => !(items.any fun j => j.1 = i.1)) ++ items)
        (next + texts.length) s

/-- Assigns to a variable or to an element of an array. -/
def assignWord (a : Assignment) (s : State) : State :=
  let capture := capture exec
  match a.value with
  | [.items source] =>
    let v := (s.varOf? a.name).getD {}
    if v.fixed then s.assign a.name ""
    else
      let table := match v.content with
        | .table _ => true
        | _ => false
      let old := if a.adds then s.elements a.name else []
      let next := old.foldl (fun n i => max n (((Text.natOf? 10 i.1.toList).getD 0) + 1)) 0
      let (items, s) := arrayItems capture table (wordsOf s.dialect source) old next s
      s.put a.name
        { v with
          content := if table then .table items
            else .list (items.filterMap fun i => i.1.toNat?.map fun n => (n, State.Variable.suit v i.2)) }
  | value =>
    let (text, s) := expandValue capture value s
    if s.flow.isSome then s
    else
      match a.index with
      | none => s.assignOrAdd a.name a.adds text
      | some i =>
        let e := expansion capture
        let old := if a.adds then
          (match (e.value a.name (some i) s).1 with
            | .one t => t.getD ""
            | _ => "") else ""
        e.assign a.name (some i) (old ++ text) s

/-- The commands whose arguments can assign. -/
def declarers (s : State) : List String :=
  if s.isBash then ["export", "readonly", "local", "declare", "typeset"] else ["export", "readonly", "local"]

/-- The arguments of words, some of which may be assignments. -/
def argumentsOf (words : List Word) (s : State) : List String × List Assignment × State :=
  let capture := capture exec
  match words with
  | [] => ([], [], s)
  | w :: ws =>
    let (name, s) := expandArgument capture w s
    if s.flow.isSome then (name, [], s)
    else
      let declares := (declarers s).contains (name.headD "") ||
        (name = ["command"] && (ws.head?.bind Word.plain?).any (declarers s).contains)
      let (args, arrays, s) := ws.foldl
        (fun (args, arrays, s) w =>
          if s.flow.isSome then (args, arrays, s)
          else
            match (if declares then assignmentOf? s.isBash w else none) with
            | some a =>
              match a.value with
              | [.items _] => (args ++ [a.name], arrays ++ [a], s)
              | value =>
                let (text, s) := expandValue capture value s
                let index := match a.index with
                  | some i => "[" ++ i ++ "]"
                  | none => ""
                (args ++ [a.name ++ index ++ (if a.adds then "+=" else "=") ++ text], arrays, s)
            | none =>
              let (more, s) := expandArgument capture w s
              (args ++ more, arrays, s))
        (name, [], s)
      (args, arrays, s)

/-- Gives variables back what they were. -/
def restore (saved : Named (Option Variable)) (s : State) : State :=
  saved.foldl
    (fun s e => match e.2 with
      | some v => s.put e.1 v
      | none => s.remove e.1)
    s

/-- Carries out a command of words. -/
def runSimple (tested : Bool) (line : Nat) (words : List Word) (rs : List Redirect) (s : State) :
    State :=
  let written := fun (ws : List Word) => String.intercalate " " (ws.map Word.written)
  let s := beforeCommand exec (written words) { s with line, substituted := none }
  let assignments := (words.takeWhile fun w => (assignmentOf? s.isBash w).isSome).filterMap
    (assignmentOf? s.isBash)
  let (args, arrays, s) := argumentsOf exec (words.drop assignments.length) s
  if s.flow.isSome then s
  else
    let assigned := fun (a : Assignment) (s : State) =>
      a.name ++ (if a.adds then "+=" else "=") ++ match a.value with
        | [.items source] => "(" ++ source ++ ")"
        | _ =>
          let text := (s.text? a.name).getD ""
          if text.isEmpty then "" else tracedWord s.isBash text
    let assignAll := fun (s : State) =>
      assignments.foldl
        (fun s a =>
          if s.flow.isSome then s
          else
            let t := assignWord exec a s
            if s.isBash && t.flow.isNone then traceLine (assigned a t) t else t)
        s
    match args with
    | [] =>
      let streams := s.streams
      let (s, good) := redirectAll exec rs s
      if good then
        let s := assignAll s
        let s := { s with streams }
        let s := if s.flow.isSome then s else s.finish (s.substituted.getD 0)
        let s := if s.isBash || assignments.isEmpty then s
          else traceLine (String.intercalate " " (assignments.map fun a => assigned a s)) s
        checked exec tested s
      else checked exec tested { s with streams }
    | name :: rest =>
      let special := !s.isBash && State.specialBuiltins.contains name
      let keeps := name = "exec" && rest.isEmpty
      let streams := s.streams
      let (s, good) := redirectAll exec rs s
      if !good then
        let s := { s with streams }
        if special && s.flow.isNone then s.ends .failed else checked exec tested s
      else
        let saved := if special then [] else assignments.map fun a => (a.name, s.varOf? a.name)
        let s := assignAll s
        if s.flow.isSome then { restore saved s with streams }
        else
          let s := if special then s
            else assignments.foldl (fun s a => s.mark (fun v => { v with exported := true }) a.name) s
          let traced := if s.isBash then trace args { s with streams }
            else
              traceLine (String.intercalate " " (assignments.map (fun a => assigned a s) ++ args)) { s with streams }
          let s := { traced with streams := s.streams }
          let before := arrays.foldl
            (fun s a =>
              let s := if rest.contains "-A" then s.mark (State.flagged true 'A') a.name else s
              if s.frames.isEmpty || rest.contains "-g" then s else s)
            s
          let s := call exec tested args before
          let s := arrays.foldl (fun s a => assignWord exec a s) s
          let s := restore saved.reverse s
          let s := if keeps then s else { s with streams }
          checked exec tested s

end

end Workload.Shell

import Workload.Shell.Builtin.Basic

/-!
# Commands for variables

How variables are declared, exported, fixed, kept by functions, and taken away.
-/

namespace Workload.Shell

namespace State

/-- Splits an argument that assigns: the name, whether it adds, and the text. -/
def assignment? (a : String) : Option (String × Bool × String) :=
  match Text.cutAt ['='] a.toList with
  | none => none
  | some (name, text) =>
    let (name, adds) := if name.getLast? = some '+' then (name.dropLast, true) else (name, false)
    if isName (String.ofList name) then some (String.ofList name, adds, String.ofList text) else none

/-- Assigns a text, or adds it to what is there. -/
def assignOrAdd (name : String) (adds : Bool) (text : String) (s : State) : State :=
  let v := (s.varOf? name).getD {}
  if v.integer then
    let sum := if adds then ((s.text? name).getD "0") ++ "+(" ++ text ++ ")" else text
    match s.calculate sum with
    | .ok (n, s) => s.assign name (toString n.toInt)
    | .error f => s.arithmeticFault "" sum f
  else s.assign name (if adds then ((s.text? name).getD "") ++ text else text)

/-- Changes how a variable is kept. -/
def mark (f : Variable → Variable) (name : String) (s : State) : State :=
  s.put name (f ((s.varOf? name).getD {}))

/-- A line that declares a variable. -/
def declaration (s : State) (command name : String) (v : Variable) : String :=
  if s.isBash then
    let flags := attributes s name
    let quoted := fun (t : String) =>
      if needsEscapes t then escapedText t
      else "\"" ++ String.join (t.toList.map fun c =>
        if c = '"' || c = '\\' || c = '$' || c = '\x60' then "\\" ++ c.toString else c.toString) ++ "\""
    "declare -" ++ (if flags.isEmpty then "-" else flags) ++ " " ++ name ++
      match v.content with
      | .one t => "=" ++ quoted t
      | .list _ => "=(" ++ String.intercalate " " ((s.elements name).map fun i =>
        "[" ++ i.1 ++ "]=" ++ quoted i.2) ++ ")"
      | .table items => "=(" ++ String.join (items.map fun i =>
        "[" ++ i.1 ++ "]=" ++ quoted i.2 ++ " ") ++ ")"
      | .nothing => ""
  else
    command ++ " " ++ name ++
      match v.content with
      | .one t => "=" ++ dashQuoted t
      | _ => ""

/-- `export` and `readonly`. -/
def markAll (command : String) (f : Variable → Variable) (has : Variable → Bool) (args : List String)
    (s : State) : State :=
  let isOption := fun (a : String) => a.length = 2 && a.startsWith "-" && a ≠ "--"
  let options := args.takeWhile isOption
  let names := args.drop options.length
  let names := if names.head? = some "--" then names.tail else names
  let s := s.finish 0
  match options.find? fun o => !(if s.isBash then ["-p", "-n", "-f", "-a", "-A"] else ["-p"]).contains o with
  | some o =>
    if s.isBash then
      ((s.warn (command ++ ": " ++ o ++ ": invalid option")).complain
        (command ++ ": usage: " ++ command ++ " [-fn] [name[=value] ...] or " ++ command ++ " -p")).finish 2
    else s.refuse command ("Illegal option " ++ o) 2
  | none =>
    if names.isEmpty then
      (s.vars.mergeSort fun a b => a.1 ≤ b.1).foldl
        (fun s v => if has v.2 then s.print (s.declaration command v.1 v.2 ++ "\n") else s) s
    else
      let f : Variable → Variable := if options.contains "-n" then fun v => { v with exported := false } else f
      names.foldl
        (fun s a =>
          if s.flow.isSome then s
          else
            match assignment? a with
            | some (name, adds, text) =>
              let t := s.assignOrAdd name adds text
              if s.isBash && t.flow = some .abandoned then { t with flow := none, status := 1 }
              else if t.flow.isSome then t
              else t.mark f name
            | none =>
              if isName a then
                if options.contains "-f" then s else s.mark f a
              else if s.isBash then
                (s.warn (command ++ ": \x60" ++ a ++ "': not a valid identifier")).finish 1
              else s.refuse command (String.ofList (a.toList.takeWhile (· ≠ '=')) ++ ": bad variable name") 1)
        s

def unset (args : List String) (s : State) : State :=
  let functions := args.head? = some "-f"
  let bad := args.head?.filter fun a => a.length = 2 && a.startsWith "-" && !(["-f", "-v", "-n", "--"].contains a)
  match bad with
  | some o =>
    if s.isBash then (s.warn ("unset: " ++ o ++ ": invalid option")).finish 2
    else s.refuse "unset" ("Illegal option " ++ o) 2
  | none =>
    let names := if args.head?.any (·.startsWith "-") then args.tail else args
    names.foldl
      (fun s n =>
        if s.flow.isSome then s
        else if functions then { s with functions := s.functions.filter fun f => f.1 ≠ n }
        else
          match s.varOf? n with
          | some { fixed := true, .. } =>
            if s.isBash then (s.warn ("unset: " ++ n ++ ": cannot unset: readonly variable")).finish 1
            else s.refuse "unset" (n ++ ": is read only") 1
          | some _ => s.remove n
          | none =>
            match n.toList.span (· ≠ '[') with
            | (name, '[' :: index) =>
              let name := String.ofList name
              let index := String.ofList index.dropLast
              match s.varOf? name with
              | some v =>
                match v.content with
                | .list _ =>
                  let elements := s.elements name
                  let key := if index.startsWith "-" then
                    ((elements[elements.length - ((index.toList.drop 1 |> Text.natOf? 10).getD 0)]?).map Prod.fst).getD ""
                    else index
                  s.put name { v with content := .list ((elements.filter fun i => i.1 ≠ key).filterMap fun i =>
                    i.1.toNat?.map fun k => (k, i.2)) }
                | .table items => s.put name { v with content := .table (items.filter fun i => i.1 ≠ index) }
                | _ => s
              | none => s
            | _ =>
              if isName n then
                if s.isBash then { s with functions := s.functions.filter fun f => f.1 ≠ n } else s
              else if s.isBash then { s with functions := s.functions.filter fun f => f.1 ≠ n }
              else s.refuse "unset" (n ++ ": bad variable name") 1)
      (s.finish 0)

/-- Lets a function keep a variable for itself. -/
def hide (name : String) (s : State) : State :=
  match s.frames with
  | [] => s
  | frame :: frames =>
    if (frame.any fun e => e.1 = name) then s
    else
      let old := s.varOf? name
      let s := { s with frames := ((name, old) :: frame) :: frames }
      if s.isBash then s.put name { exported := (old.map Variable.exported).getD false } else s

/-- Gives the variables back that a function has kept for itself. -/
def unhide (s : State) : State :=
  match s.frames with
  | [] => s
  | frame :: frames =>
    frame.foldl
      (fun s e => match e.2 with
        | some v => s.put e.1 v
        | none => s.remove e.1)
      { s with frames }

def local_ (args : List String) (s : State) : State :=
  if s.frames.isEmpty then
    s.refuse "local" (if s.isBash then "can only be used in a function" else "not in a function") 1
  else
    args.foldl
      (fun s a =>
        if s.flow.isSome then s
        else
          match assignment? a with
          | some (name, adds, text) =>
            match s.varOf? name with
            | some { fixed := true, .. } =>
              if s.isBash then (s.warn ("local: " ++ name ++ ": readonly variable")).finish 1
              else s.refuse "local" (name ++ ": is read only") 1
            | _ => (s.hide name).assignOrAdd name adds text
          | none =>
            if a = "-" then s
            else if isName a then
              let t := s.hide a
              t
            else if s.isBash then (s.warn ("local: \x60" ++ a ++ "': not a valid identifier")).finish 1
            else s.refuse "local" (a ++ ": bad variable name") 1)
      (s.finish 0)

/-- The flags of a declaration. -/
def flagged (on : Bool) (c : Char) (v : Variable) : Variable :=
  match c with
  | 'x' => { v with exported := on }
  | 'r' => { v with fixed := on }
  | 'i' => { v with integer := on }
  | 'u' => { v with recase := if on then some true else none }
  | 'l' => { v with recase := if on then some false else none }
  | 'a' =>
    match v.content with
    | .list _ => v
    | .one t => { v with content := .list [(0, t)] }
    | _ => { v with content := .list [] }
  | 'A' =>
    match v.content with
    | .table _ => v
    | _ => { v with content := .table [] }
  | _ => v

def declare (command : String) (args : List String) (s : State) : State :=
  let isOption := fun (a : String) => 1 < a.length && (a.startsWith "-" || a.startsWith "+")
  let options := args.takeWhile isOption
  let names := args.drop options.length
  let letters := options.flatMap fun o => o.toList.drop 1
  let s := s.finish 0
  match letters.find? fun c => !"aAfFgiIlnprtux".toList.contains c with
  | some c =>
    ((s.warn (command ++ ": -" ++ c.toString ++ ": invalid option")).complain
      (command ++ ": usage: " ++ command ++ " [-aAfFgiIlnrtux] [name[=value] ...] or " ++ command ++
        " -p [-aAfFilnrtux] [name ...]")).finish 2
  | none =>
    if letters.contains 'f' || letters.contains 'F' then
      if names.isEmpty then
        (s.functions.mergeSort fun a b => a.1 ≤ b.1).foldl (fun s f => s.print ("declare -f " ++ f.1 ++ "\n")) s
      else names.foldl (fun s n => if (s.functions.get? n).isSome then s.print (n ++ "\n") else s.finish 1) s
    else if letters.contains 'p' || names.isEmpty then
      let shown := if names.isEmpty then (s.vars.map Prod.fst).mergeSort fun a b => a ≤ b else names
      shown.foldl
        (fun s n => match s.varOf? n with
          | some v => s.print (s.declaration command n v ++ "\n")
          | none => (s.warn (command ++ ": " ++ n ++ ": not found")).finish 1)
        s
    else
      names.foldl
        (fun s a =>
          if s.flow.isSome then s
          else
            let (name, value) := match assignment? a with
              | some (name, adds, text) => (name, some (adds, text))
              | none => (a, none)
            if !isName name then
              match name.toList.span (· ≠ '[') with
              | (base, '[' :: rest) =>
                match String.ofList rest |> Text.cut? "]=" with
                | some (i, v) => s.putElement (String.ofList base) ((Text.int64Of? i.toList).getD 0) v
                | none => s
              | _ => (s.warn (command ++ ": \x60" ++ a ++ "': not a valid identifier")).finish 1
            else
              let s := if letters.contains 'g' || s.frames.isEmpty then s else s.hide name
              let fixes := letters.filter (· = 'r')
              let apply := fun (cs : List Char) (s : State) =>
                options.foldl
                  (fun s o => (o.toList.drop 1).foldl
                    (fun s c => if cs.contains c then s.mark (flagged (o.startsWith "-") c) name else s) s)
                  s
              let s := apply "xiulaA".toList (s.mark id name)
              let s := match value with
                | some (adds, text) =>
                  let t := s.assignOrAdd name adds text
                  if t.flow = some .abandoned then { t with flow := none, status := 1 } else t
                | none => s
              if fixes.isEmpty then s else apply ['r'] s)
        s

end State

end Workload.Shell

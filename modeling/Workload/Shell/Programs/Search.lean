import Workload.Shell.Programs.Tree

/-!
# Searching directories

A search asks a question about everything below some paths.
-/

namespace Workload.Shell.Programs

/-- What is asked about a file. -/
inductive Query where
  | always
  | named (foldCase : Bool) (pattern : String)
  | path (pattern : String)
  | kind (directory : Bool)
  | empty
  | size (bytes : Nat) (order : Ordering)
  | print (stop : String)
  | delete
  | prune
  | quit
  | exec (words : List String) (plus : Bool)
  | format (text : String)
  | negated (q : Query)
  | both (a b : Query)
  | either (a b : Query)

/-- The arguments of a query, from alternatives to single questions. -/
def readQuery : (fuel level : Nat) → List String → Option (Query × List String)
  | 0, _, _ => none
  | fuel + 1, 0, args => do
    let (a, rest) ← readQuery fuel 1 args
    match rest with
    | "-o" :: rest | "-or" :: rest =>
      let (b, rest) ← readQuery fuel 0 rest
      pure (.either a b, rest)
    | rest => pure (a, rest)
  | fuel + 1, 1, args => do
    let (a, rest) ← readQuery fuel 2 args
    match rest with
    | [] | "-o" :: _ | "-or" :: _ | ")" :: _ => pure (a, rest)
    | "-a" :: rest | "-and" :: rest =>
      let (b, rest) ← readQuery fuel 1 rest
      pure (.both a b, rest)
    | rest =>
      let (b, rest) ← readQuery fuel 1 rest
      pure (.both a b, rest)
  | fuel + 1, _, args =>
    match args with
    | "!" :: rest | "-not" :: rest => do
      let (q, rest) ← readQuery fuel 2 rest
      pure (.negated q, rest)
    | "(" :: rest => do
      let (q, rest) ← readQuery fuel 0 rest
      match rest with
      | ")" :: rest => pure (q, rest)
      | _ => none
    | "-name" :: p :: rest => some (.named false p, rest)
    | "-iname" :: p :: rest => some (.named true p, rest)
    | "-path" :: p :: rest | "-wholename" :: p :: rest => some (.path p, rest)
    | "-type" :: t :: rest => some (.kind (t = "d"), rest)
    | "-empty" :: rest => some (.empty, rest)
    | "-size" :: t :: rest =>
      let (order, cs) := match t.toList with
        | '+' :: cs => (Ordering.gt, cs)
        | '-' :: cs => (Ordering.lt, cs)
        | cs => (Ordering.eq, cs)
      let n := ((Text.natOf? 10 (cs.takeWhile Char.isDigit)).getD 0)
      let unit := match cs.getLast? with
        | some 'c' => 1
        | some 'k' => 1024
        | some 'M' => 1048576
        | _ => 512
      some (.size (n * unit) order, rest)
    | "-print" :: rest => some (.print "\n", rest)
    | "-print0" :: rest => some (.print "\x00", rest)
    | "-printf" :: t :: rest => some (.format t, rest)
    | "-delete" :: rest => some (.delete, rest)
    | "-prune" :: rest => some (.prune, rest)
    | "-quit" :: rest => some (.quit, rest)
    | "-true" :: rest | "-depth" :: rest => some (.always, rest)
    | "-maxdepth" :: _ :: rest | "-mindepth" :: _ :: rest | "-newer" :: _ :: rest | "-mtime" :: _ :: rest =>
      some (.always, rest)
    | "-exec" :: rest =>
      let words := rest.takeWhile fun w => w ≠ ";" && w ≠ "+"
      some (.exec words (rest[words.length]? = some "+"), rest.drop (words.length + 1))
    | _ => none

/-- Whether a query prints or does something by itself. -/
def Query.acts : Query → Bool
  | .print _ | .delete | .exec .. | .format _ | .quit => true
  | .negated q => q.acts
  | .both a b | .either a b => a.acts || b.acts
  | _ => false

/-- Answers a query about a path of a place; the paths that are collected for one call, and whether the
search goes into a directory. -/
structure Answer where
  state : State
  yes : Bool
  later : List String
  pruned : Bool := false
  stopped : Bool := false

def ask (spawn : Spawn) (path : String) (place : List String) : Query → Answer → Answer
  | .always, a => { a with yes := true }
  | .named fold p, a =>
    let lower := fun (s : String) => if fold then String.ofList (s.toList.map Char.toLower) else s
    { a with yes := fits (marksOf true (Cells.of false (lower p))) (lower (lastPart path)).toList }
  | .path p, a => { a with yes := fits (marksOf true (Cells.of false p)) path.toList }
  | .kind d, a => { a with yes := a.state.sys.isDirectoryAt place == d }
  | .empty, a =>
    { a with
      yes := if a.state.sys.isDirectoryAt place then (a.state.sys.names place).isEmpty
        else ((a.state.sys.content? place).toOption.getD "x").isEmpty }
  | .size n order, a =>
    let size := match a.state.sys.content? place with
      | .ok t => t.length
      | .error _ => 4096
    { a with yes := compare size n = order }
  | .print stop, a => { a with state := a.state.print (path ++ stop), yes := true }
  | .format t, a =>
    let size := match a.state.sys.content? place with
      | .ok t => t.length
      | .error _ => 4096
    let text := Text.replaceAll "%f" (lastPart path) (Text.replaceAll "%p" path (Text.replaceAll "%s" (toString size)
      (Text.replaceAll "%h" (firstParts path) (Text.replaceAll "\\n" "\n" (Text.replaceAll "\\t" "\t" t)))))
    { a with state := a.state.print text, yes := true }
  | .delete, a => { a with state := { a.state with sys := a.state.sys.remove place }, yes := true }
  | .prune, a => { a with yes := true, pruned := true }
  | .quit, a => { a with yes := true, stopped := true }
  | .exec words true, a => if words.isEmpty then a else { a with later := a.later ++ [path], yes := true }
  | .exec words false, a =>
    let s := spawn (words.map (Text.replaceAll "\x7b\x7d" path)) a.state
    { a with state := s.finish a.state.status, yes := s.status = 0 }
  | .negated q, a =>
    let a := ask spawn path place q a
    { a with yes := !a.yes }
  | .both p q, a =>
    let a := ask spawn path place p a
    if a.yes then ask spawn path place q a else a
  | .either p q, a =>
    let a := ask spawn path place p a
    if a.yes then a else ask spawn path place q a

/-- Asks about a path and what is below it. -/
def search (spawn : Spawn) (q : Query) (low high : Nat) (deep : Bool) : (fuel depth : Nat) → String → List String →
    Answer → Answer
  | 0, _, _, _, a => a
  | fuel + 1, depth, path, place, a =>
    if a.stopped then a
    else
      let here := fun (a : Answer) => if low ≤ depth then ask spawn path place q { a with pruned := false } else a
      let below := fun (a : Answer) =>
        if depth < high && !a.pruned && a.state.sys.isDirectoryAt place then
          (a.state.sys.names place).foldl
            (fun a n => { search spawn q low high deep fuel (depth + 1) (Path.join path n) (downTo place (textOf n)) a with pruned := false })
            a
        else a
      if deep then here (below a) else below (here a)

/-- The words of a query that is answered for several paths at once. -/
def Query.together : Query → List String
  | .exec words true => words
  | .negated q => q.together
  | .both a b | .either a b => a.together ++ b.together
  | _ => []

def find (spawn : Spawn) (args : List String) (s : State) : State :=
  let isPath := fun (a : String) => !(a.startsWith "-" || a = "(" || a = "!")
  let paths := args.takeWhile isPath
  let tests := args.drop paths.length
  let depthOf := fun (name : String) => (tests.dropWhile (· ≠ name))[1]?.bind natural?
  let q? := if tests.isEmpty then some (.always, []) else readQuery (4 * tests.length + 8) 0 tests
  match q? with
  | some (q, []) =>
    let whole := if q.acts then q else .both q (.print "\n")
    let deep := tests.contains "-depth" || tests.contains "-delete"
    let start : Answer := { state := s.finish 0, yes := false, later := [] }
    let a := (if paths.isEmpty then ["."] else paths).foldl
      (fun a p => match a.state.place? p with
        | .ok place =>
          if (a.state.sys.entry? place).isNone then
            { a with state := (a.state.complain ("find: '" ++ p ++ "': No such file or directory")).finish 1 }
          else search spawn whole ((depthOf "-mindepth").getD 0) ((depthOf "-maxdepth").getD 1000) deep 60 0 p place a
        | .error e => { a with state := (a.state.complain ("find: '" ++ p ++ "': " ++ reason e)).finish 1 })
      start
    if a.later.isEmpty then a.state
    else
      let t := spawn ((q.together.filter (· ≠ "\x7b\x7d")) ++ a.later) a.state
      t.finish (if t.status = 0 then a.state.status else 1)
  | _ => (s.complain ("find: unknown predicate '" ++ tests.headD "" ++ "'")).finish 1

end Workload.Shell.Programs

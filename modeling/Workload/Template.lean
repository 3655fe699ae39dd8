import Workload.Action
import Workload.Text

/-!
# Templates

A template is a named list of actions with numbered placeholders.  An action that refers to it is
replaced by its actions, with the arguments in the places of the placeholders and with what the
referring action says about launching wherever they say nothing.
-/

namespace Workload

structure Template where
  name : String
  actions : List Action := []
  deriving DecidableEq, Repr

/-- The templates known by name; a name has one entry. -/
structure TemplateCache where
  entries : List Template := []
  deriving DecidableEq, Repr

namespace TemplateCache

def empty : TemplateCache := {}

/-- Puts an action list in the place of the one of that name, or adds it. -/
def put (t : Template) : List Template → List Template
  | [] => [t]
  | e :: es => if e.name = t.name then t :: es else e :: put t es

def insert (c : TemplateCache) (t : Template) : TemplateCache := ⟨put t c.entries⟩

/-- Inserts templates in order, so that the last of a name stays. -/
def insertAll (c : TemplateCache) (ts : List Template) : TemplateCache := ts.foldl insert c

def get? (c : TemplateCache) (name : String) : Option (List Action) :=
  (c.entries.find? fun e => e.name = name).map Template.actions

def contains (c : TemplateCache) (name : String) : Bool := (c.get? name).isSome

def size (c : TemplateCache) : Nat := c.entries.length

end TemplateCache

namespace Template

/-- The arguments in the tokens of an argument text; `group` is the grouped argument read so far.  A
token that opens with a parenthesis starts a group, a token that ends with one closes it. -/
def joinGroups : Option (List Char) → List (List Char) → List (List Char)
  | none, [] => []
  | some g, [] => [g]
  | some g, t :: ts =>
    if t.getLast? = some ')' then (g ++ ',' :: t.dropLast) :: joinGroups none ts
    else joinGroups (some (g ++ ',' :: t)) ts
  | none, t :: ts =>
    match t with
    | '(' :: rest =>
      if rest.getLast? = some ')' then rest.dropLast :: joinGroups none ts
      else joinGroups (some rest) ts
    | _ => t :: joinGroups none ts

/-- Splits an argument text at its commas, except within a group in parentheses. -/
def splitArgs (evaluated : String) : List String :=
  (joinGroups none ((Text.splitAt ',' evaluated.toList).map Text.trim)).map String.ofList

/-- The argument that a placeholder with these digits stands for. -/
def argument? (args : List String) (digits : List Char) : Option String :=
  (Text.nat64Of? digits).bind fun i => args[i]?

/-- Replaces the placeholders after the next `skip` characters, which belong to the placeholder just
replaced. -/
def substituteFrom (args : List String) : Nat → List Char → List Char
  | _, [] => []
  | skip + 1, _ :: cs => substituteFrom args skip cs
  | 0, c :: cs =>
    let digits := cs.takeWhile Text.isDecimal
    if c = '$' ∧ digits ≠ [] then
      ((argument? args digits).elim (c :: digits) String.toList) ++
        substituteFrom args digits.length cs
    else c :: substituteFrom args 0 cs

/-- Replaces every placeholder, a dollar sign and a number, by the argument of that number; one
without an argument stays. -/
def substitute (text : String) (args : List String) : String :=
  String.ofList (substituteFrom args 0 text.toList)

/-- Replaces the placeholders in the text fields of an action, except in its loop header. -/
def substituteAction (a : Action) (args : List String) : Action :=
  let sub := fun text => substitute text args
  { a with
    describe := sub a.describe
    image := sub a.image
    command := sub a.command
    before := sub a.before
    entrypoint := sub a.entrypoint
    requires := sub a.requires
    concurrency := sub a.concurrency
    duration := sub a.duration
    alias_ := sub a.alias_
    until_ := sub a.until_
    include_ := sub a.include_
    template := sub a.template
    args := sub a.args
    test := sub a.test
    scope := sub a.scope
    client :=
      { op := sub a.client.op
        container := sub a.client.container
        filename := sub a.client.filename
        frompath := sub a.client.frompath
        topath := sub a.client.topath } }

/-- Fills what an action does not say about its launch from the action that refers to it. -/
def inherit (a parent : Action) : Action :=
  { a with
    wait := a.wait || parent.wait
    before := orText a.before parent.before
    requires := orText a.requires parent.requires
    concurrency := orText a.concurrency parent.concurrency
    duration := orText a.duration parent.duration
    alias_ := orText a.alias_ parent.alias_
    repeats := if a.repeats = 0 then parent.repeats else a.repeats
    until_ := orText a.until_ parent.until_ }

/-- The actions that replace `invoking` when it refers to a template with the given body. -/
def expand (body : List Action) (invoking : Action) (args : List String) : List Action :=
  body.map fun a => inherit (substituteAction a args) invoking

end Template

end Workload

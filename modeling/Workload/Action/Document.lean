import Workload.Action
import Workload.Template
import Workload.Text
import Workload.Yaml.Decode
import Workload.Yaml.Writer

/-!
# Action documents

An action document is a list of records; fields without a meaning are passed over.  The other way
round, an action is written with the fields that are set.
-/

namespace Workload

open Yaml (Decoder Node Tree)

def ClientOp.decode (n : Node) : Decoder ClientOp := do
  let fs ← Yaml.Decode.fields n
  let text := fun name => Yaml.Decode.fieldD fs name Yaml.Decode.text ""
  pure
    { op := ← text "op"
      container := ← text "container"
      filename := ← text "filename"
      frompath := ← text "frompath"
      topath := ← text "topath" }

def Action.decode (n : Node) : Decoder Action := do
  let fs ← Yaml.Decode.fields n
  let text := fun name => Yaml.Decode.fieldD fs name Yaml.Decode.text ""
  pure
    { describe := ← text "describe"
      image := ← text "image"
      command := ← text "command"
      wait := ← Yaml.Decode.fieldD fs "wait" Yaml.Decode.bool false
      before := ← text "before"
      entrypoint := ← text "entrypoint"
      requires := ← text "requires"
      concurrency := ← text "concurrency"
      duration := ← text "duration"
      alias_ := ← text "alias"
      repeats := ← Yaml.Decode.fieldD fs "repeat" Yaml.Decode.int64 0
      until_ := ← text "until"
      include_ := ← text "include"
      template := ← text "template"
      args := ← text "args"
      test := ← text "test"
      scope := ← text "scope"
      foreach := ← text "foreach"
      client := ← Yaml.Decode.fieldD fs "client" ClientOp.decode {} }

def Template.decode (n : Node) : Decoder Template := do
  let fs ← Yaml.Decode.fields n
  pure
    { name := ← Yaml.Decode.field fs "name" Yaml.Decode.text
      actions := ← Yaml.Decode.fieldD fs "actions" (Yaml.Decode.list Action.decode) [] }

namespace Action

/-- The actions of a document. -/
def listOfText? (text : String) : Option (List Action) :=
  Yaml.decode (Yaml.Decode.list Action.decode) (some []) text

/-- The actions of a text, which may also be blank. -/
def listOfBlankOrText? (text : String) : Option (List Action) :=
  if (Text.trim text.toList).isEmpty then some [] else listOfText? text

/-- A text field, unless it is empty. -/
def textField (name text : String) : List (String × Tree) :=
  if text.isEmpty then [] else [(name, .text text)]

end Action

def ClientOp.tree (c : ClientOp) : Tree :=
  .record (Action.textField "op" c.op ++ Action.textField "container" c.container ++
    Action.textField "filename" c.filename ++ Action.textField "frompath" c.frompath ++
    Action.textField "topath" c.topath)

/-- The fields of an action that are set. -/
def Action.tree (a : Action) : Tree :=
  .record (textField "describe" a.describe ++ textField "image" a.image ++
    textField "command" a.command ++ (if a.wait then [("wait", .bare "true")] else []) ++
    textField "before" a.before ++ textField "entrypoint" a.entrypoint ++
    textField "requires" a.requires ++ textField "concurrency" a.concurrency ++
    textField "duration" a.duration ++ textField "alias" a.alias_ ++
    (if a.repeats = 0 then [] else [("repeat", .bare (toString a.repeats))]) ++
    textField "until" a.until_ ++ textField "include" a.include_ ++
    textField "template" a.template ++ textField "args" a.args ++ textField "test" a.test ++
    textField "scope" a.scope ++ textField "foreach" a.foreach ++
    (if a.client.isEmpty then [] else [("client", a.client.tree)]))

namespace Action

/-- The document that holds a list of actions. -/
def renderList (as : List Action) : String := Yaml.render (as.map Action.tree)

/-- The expression of a loop: its header, the document of the action without the loop, and the
closing of the header's block. -/
def loopExpression (a : Action) : String :=
  a.foreach ++ renderList [{ a with foreach := "" }] ++ "\x7b\x7bend\x7d\x7d"

end Action

namespace Template

/-- The templates of a document. -/
def listOfText? (text : String) : Option (List Template) :=
  Yaml.decode (Yaml.Decode.list Template.decode) (some []) text

end Template

end Workload

import Workload.Text

/-!
# What is given on a command line

The words of a command line are read from left to right.  A setting takes its value with its own word
or with the next one.  A word that nothing is known about ends the reading, and with it goes the last
setting if its value came with a word of its own.
-/

/-!
## Words of a command line

A command line is made of settings, which take a value, and switches, which do not.  Both have a name
that follows two dashes, and some a letter that follows one.  Letters can share a dash; the first one
of a setting ends them, and what comes after it is the value.
-/

namespace Workload.CommandLine

inductive Setting where
  | file | test | scope | provider | repeats | duration | logLevel | logDir | containerName
  | image | command
  deriving DecidableEq, Repr

inductive Switch where
  | skipSetup | skipTest | skipTeardown | skipCleanup | softCleanup | collectOnError | stopOnError
  | wait | dryRun | quiet | verbose | help | version
  deriving DecidableEq, Repr

/-- What a name or a letter stands for. -/
inductive Key where
  | setting (s : Setting)
  | switch (w : Switch)
  deriving DecidableEq, Repr

/-- What names stand for. -/
def names : List (String × Key) :=
  [("file", .setting .file), ("test", .setting .test), ("scope", .setting .scope),
    ("provider", .setting .provider), ("repeat", .setting .repeats),
    ("duration", .setting .duration), ("log-level", .setting .logLevel),
    ("log-dir", .setting .logDir), ("container-name", .setting .containerName),
    ("image", .setting .image), ("command", .setting .command),
    ("skip-setup", .switch .skipSetup), ("skip-test", .switch .skipTest),
    ("skip-teardown", .switch .skipTeardown), ("skip-cleanup", .switch .skipCleanup),
    ("soft-cleanup", .switch .softCleanup), ("collect-on-error", .switch .collectOnError),
    ("stop-on-error", .switch .stopOnError), ("wait", .switch .wait),
    ("dry-run", .switch .dryRun), ("quiet", .switch .quiet), ("verbose", .switch .verbose),
    ("help", .switch .help), ("version", .switch .version)]

/-- What letters stand for. -/
def letters : List (Char × Key) :=
  [('f', .setting .file), ('t', .setting .test), ('s', .setting .scope),
    ('p', .setting .provider), ('q', .switch .quiet), ('v', .switch .verbose),
    ('h', .switch .help), ('V', .switch .version)]

/-- A word by its dashes. -/
inductive Word where
  /-- Two dashes alone, after which nothing is a name or a letter. -/
  | separator
  | named (name : String) (value : Option String)
  | lettered (letters : List Char)
  /-- A word without dashes, or a dash alone. -/
  | plain (text : String)
  deriving DecidableEq, Repr

namespace Word

def ofText (text : String) : Word :=
  match text.toList with
  | ['-', '-'] => .separator
  | '-' :: '-' :: cs =>
    match Text.cutAt ['='] cs with
    | some (name, value) => .named (String.ofList name) (some (String.ofList value))
    | none => .named (String.ofList cs) none
  | '-' :: c :: cs => .lettered (c :: cs)
  | _ => .plain text

end Word

/-- How letters that share a dash end. -/
inductive LettersEnd where
  | switches
  | setting (s : Setting) (value : Option String)
  | unknown
  deriving DecidableEq, Repr

/-- The value that follows the letter of a setting, with or without an equals sign. -/
def attached : List Char → Option String
  | [] => none
  | '=' :: cs => some (String.ofList cs)
  | cs => some (String.ofList cs)

/-- The switches of letters that share a dash, and how they end. -/
def readLetters : List Char → List Switch × LettersEnd
  | [] => ([], .switches)
  | c :: cs =>
    match letters.lookup c with
    | some (.switch w) =>
      let (ws, e) := readLetters cs
      (w :: ws, e)
    | some (.setting s) => ([], .setting s (attached cs))
    | none => ([], .unknown)

/-- Whether a text after a dash is a number: digits, a point among them, and an exponent at the end.
`i` characters are read, `point` and `exponent` tell what was among them. -/
def isNumberFrom (i : Nat) (point exponent : Bool) : List Char → Bool
  | [] => true
  | c :: cs =>
    if c.isDigit then isNumberFrom (i + 1) point exponent cs
    else if c = '.' then
      !point && !exponent && 0 < i && isNumberFrom (i + 1) true exponent cs
    else if c = 'e' || c = 'E' then
      !exponent && 0 < i && !cs.isEmpty && isNumberFrom (i + 1) point true cs
    else false

def isNumber (s : List Char) : Bool := isNumberFrom 0 false false s

/-! ## Reading the words -/

/-- Something given on a command line; a setting may lack its value. -/
inductive Given where
  | setting (s : Setting) (value : Option String)
  | switch (w : Switch)
  deriving DecidableEq, Repr

/-- What ends the reading too early. -/
inductive ScanFault where
  /-- Nothing is known about a word. -/
  | unknown
  /-- A switch came with a value. -/
  | valueOfSwitch
  deriving DecidableEq, Repr

/-- A setting whose value comes, or came, with a word of its own. -/
abbrev Pending := Option (Setting × Option String)

def Pending.given : Pending → List Given
  | none => []
  | some (s, value) => [.setting s value]

/-- Whether a word that begins with a dash is a value: a number, where one is waited for that may be
negative. -/
def isNegative (p : Pending) (letters : List Char) : Bool :=
  p = some (.repeats, none) && isNumber letters

/-- Reads words after those that left `pending`. -/
def scan (pending : Pending) : List String → List Given × Option ScanFault
  | [] => (pending.given, none)
  | text :: words =>
    let fail := fun fault => (([] : List Given), some fault)
    let after := fun (found : List Given) (p : Pending) =>
      let (rest, fault) := scan p words
      (pending.given ++ found ++ rest, fault)
    let plain := fun (text : String) =>
      match pending with
      | some (s, none) => scan (some (s, some text)) words
      | _ => fail .unknown
    match Word.ofText text with
    | .separator => if words.isEmpty then (pending.given, none) else fail .unknown
    | .named name value =>
      match names.lookup name, value with
      | some (.setting s), some v => after [.setting s (some v)] none
      | some (.setting s), none => after [] (some (s, none))
      | some (.switch w), none => after [.switch w] none
      | some (.switch _), some _ => fail .valueOfSwitch
      | none, _ => fail .unknown
    | .lettered cs =>
      if isNegative pending cs then plain text
      else
        match readLetters cs with
        | (ws, .switches) => after (ws.map .switch) none
        | (ws, .setting s (some v)) => after (ws.map .switch ++ [.setting s (some v)]) none
        | (ws, .setting s none) => after (ws.map .switch) (some (s, none))
        | (ws, .unknown) =>
          (if ws.isEmpty then [] else pending.given ++ ws.map .switch, some .unknown)
    | .plain text => plain text

end Workload.CommandLine

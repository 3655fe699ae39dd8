/-!
# Faults

Everything that can go wrong, one cause per constructor, with the wording of each in one place.
-/

namespace Workload

/-- Why a file could not be read or written. -/
inductive FileFault where
  | missing
  | isDirectory
  | notDirectory
  | exists
  | notText
  | nameTooLong
  /-- A path with a NUL character. -/
  | badPath
  deriving DecidableEq, Repr

def FileFault.message : FileFault → String
  | .missing => "No such file or directory (os error 2)"
  | .isDirectory => "Is a directory (os error 21)"
  | .notDirectory => "Not a directory (os error 20)"
  | .exists => "File exists (os error 17)"
  | .notText => "stream did not contain valid UTF-8"
  | .nameTooLong => "File name too long (os error 36)"
  | .badPath => "file name contained an unexpected NUL byte"

/-- What makes a configuration or an action document unusable. -/
inductive ConfigFault where
  /-- No configuration file exists at any of the paths. -/
  | notFound (searched : List String)
  /-- The run's repeat count is below -1. -/
  | runRepeat (repeats : Int)
  /-- Neither the configuration nor the command line names a test document. -/
  | noTestDocument
  /-- A configuration without a test document was asked for its actions. -/
  | noTestFile
  | unreadable (path : String) (cause : FileFault)
  /-- An action's repeat count is below -1. -/
  | actionRepeat (index : Nat) (repeats : Int)
  | clientWithoutContainer (index : Nat) (op : String)
  | unknownProvider (spec : String)
  | missingImage
  deriving DecidableEq, Repr

def ConfigFault.message : ConfigFault → String
  | .notFound searched =>
    "Failed to find config file (searched: " ++ String.intercalate ", " searched ++ ")"
  | .runRepeat n => "Invalid configuration: repeat must be -1 or greater, got " ++ toString n
  | .noTestDocument =>
    "Invalid configuration: no test document given (set \x60test\x60 or pass --test)"
  | .noTestFile => "Invalid configuration: no test file configured"
  | .unreadable path cause => "Failed to read '" ++ path ++ "': " ++ cause.message
  | .actionRepeat i n =>
    "Action " ++ toString i ++ ": repeat must be -1 or greater, got " ++ toString n
  | .clientWithoutContainer i op =>
    "Action " ++ toString i ++ ": client op '" ++ op ++ "' names no container alias"
  | .unknownProvider spec =>
    "Unknown provider '" ++ spec ++ "' (expected docker, file[:hosts] or dev[:endpoint])"
  | .missingImage => "Image mode requires an image name"

/-- What an expression can be asked to be read as. -/
inductive Expected where
  | boolean | integer | duration
  deriving DecidableEq, Repr

def Expected.phrase : Expected → String
  | .boolean => "a boolean"
  | .integer => "an integer"
  | .duration => "a duration"

/-- Why an expression has no value of the wanted kind. -/
inductive ExpressionFault where
  | badRange (header : String)
  | unterminatedQuote (input : String)
  | coercion (value : String) (expected : Expected)
  | recursiveInterpolation
  /-- A range with more values than a list can hold. -/
  | rangeTooLong
  deriving DecidableEq, Repr

def ExpressionFault.message : ExpressionFault → String
  | .badRange header => "Invalid expression syntax: range " ++ header
  | .unterminatedQuote input => "Invalid expression syntax: unterminated quote in '" ++ input ++ "'"
  | .coercion value expected => "Cannot interpret '" ++ value ++ "' as " ++ expected.phrase
  | .recursiveInterpolation => "Recursive interpolation detected"
  | .rangeTooLong => "capacity overflow"

/-- Why a container operation failed. -/
inductive RuntimeFault where
  /-- The handle no longer refers to a container. -/
  | notFound (text : String)
  | exited (handle : String) (code : Int)
  | command (text : String)
  deriving DecidableEq, Repr

def RuntimeFault.message : RuntimeFault → String
  | .notFound text => "No such container: " ++ text
  | .exited handle code => "Container " ++ handle ++ " exited with code " ++ toString code
  | .command text => "Runtime command failed: " ++ text

/-- Whether a failure says that the container is gone, and not that nobody could be asked. -/
def RuntimeFault.isNotFound : RuntimeFault → Bool
  | .notFound _ => true
  | _ => false

/-- Why a host file gave no hosts. -/
inductive HostFileCause where
  | file (cause : FileFault)
  | notAString
  deriving DecidableEq, Repr

def HostFileCause.message : HostFileCause → String
  | .file cause => cause.message
  | .notAString => "invalid host list"

/-- Why a provider could not serve its nodes. -/
inductive ProviderFault where
  | hostFile (path : String) (cause : HostFileCause)
  | unknownNode (name : String)
  | runtime (cause : RuntimeFault)
  | io (cause : FileFault)
  deriving DecidableEq, Repr

def ProviderFault.message : ProviderFault → String
  | .hostFile path cause => "Failed to read host file '" ++ path ++ "': " ++ cause.message
  | .unknownNode name => "No address known for node '" ++ name ++ "'"
  | .runtime cause => cause.message
  | .io cause => "I/O error: " ++ cause.message

/-- Why a hook could not be carried out. -/
inductive HookCause where
  | expression (cause : ExpressionFault)
  | emptyInterpreter
  /-- The program of the interpreter cannot be started. -/
  | notStarted
  | other (text : String)
  deriving DecidableEq, Repr

def HookCause.message : HookCause → String
  | .expression cause => cause.message
  | .emptyInterpreter => "empty interpreter"
  | .notStarted => FileFault.missing.message
  | .other text => text

/-- Why a cluster hook failed. -/
inductive ExecutionFault where
  /-- The command ended with an exit code, or with none if a signal ended it. -/
  | commandFailed (code : Option Int)
  | hook (name : String) (cause : HookCause)
  deriving DecidableEq, Repr

def ExecutionFault.message : ExecutionFault → String
  | .commandFailed (some code) => "Command failed with exit code Some(" ++ toString code ++ ")"
  | .commandFailed none => "Command failed with exit code None"
  | .hook name cause => "Hook '" ++ name ++ "' failed: " ++ cause.message

/-- Any fault. -/
inductive Fault where
  | config (cause : ConfigFault)
  | execution (cause : ExecutionFault)
  | expression (cause : ExpressionFault)
  | runtime (cause : RuntimeFault)
  | provider (cause : ProviderFault)
  /-- A document is not well formed, or not of the wanted shape. -/
  | document
  deriving DecidableEq, Repr

def Fault.message : Fault → String
  | .config cause => "Configuration error: " ++ cause.message
  | .execution cause => "Execution error: " ++ cause.message
  | .expression cause => "Expression error: " ++ cause.message
  | .runtime cause => "Runtime error: " ++ cause.message
  | .provider cause => "Provider error: " ++ cause.message
  | .document => "YAML parsing error"

end Workload

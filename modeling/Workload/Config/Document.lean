import Workload.Config
import Workload.Yaml.Decode

/-!
# Configuration documents

Every setting of a configuration document is optional.
-/

namespace Workload

open Yaml (Decoder Node)

open Yaml.Decode

def ImageSpec.decode (n : Node) : Decoder ImageSpec := do
  let fs ← fields n
  pure
    { name := ← fieldD fs "name" text ""
      command := ← fieldD fs "command" text ""
      wait := ← fieldD fs "wait" bool false }

def HookConfig.decode (n : Node) : Decoder HookConfig := do
  let fs ← fields n
  pure
    { setup := ← fieldD fs "setup" (optional text) none
      teardown := ← fieldD fs "teardown" (optional text) none
      initCli := ← fieldD fs "init_cli" (optional text) none }

def CollectSpec.decode (n : Node) : Decoder CollectSpec := do
  let fs ← fields n
  pure { include_ := ← field fs "include" text, template := ← field fs "template" text }

def Timings.decode (n : Node) : Decoder Timings := do
  let fs ← fields n
  let d : Timings := {}
  pure
    { beforePoll := ← fieldD fs "before_poll" nat64 d.beforePoll
      untilPoll := ← fieldD fs "until_poll" nat64 d.untilPoll
      repeatPoll := ← fieldD fs "repeat_poll" nat64 d.repeatPoll
      settle := ← fieldD fs "settle" nat64 d.settle }

/-- The names of the modes. -/
def RunMode.names : List (String × RunMode) := [("default", .document), ("image", .image)]

def RunConfig.decode (n : Node) : Decoder RunConfig := do
  let fs ← fields n
  let d : RunConfig := {}
  let flag := fun name => fieldD fs name bool false
  pure
    { mode := ← fieldD fs "mode" (choice RunMode.names) d.mode
      test := ← fieldD fs "test" (optional text) d.test
      scope := ← fieldD fs "scope" (optional text) d.scope
      provider := ← fieldD fs "provider" text d.provider
      repeats := ← fieldD fs "repeat" int64 d.repeats
      duration := ← fieldD fs "duration" nat64 d.duration
      skipSetup := ← flag "skip_setup"
      skipTest := ← flag "skip_test"
      skipTeardown := ← flag "skip_teardown"
      skipCleanup := ← flag "skip_cleanup"
      softCleanup := ← flag "soft_cleanup"
      collectOnError := ← flag "collect_on_error"
      stopOnError := ← flag "stop_on_error"
      logLevel := ← fieldD fs "log_level" nat8 d.logLevel
      logDir := ← fieldD fs "log_dir" text d.logDir
      containerName := ← fieldD fs "container_name" text d.containerName
      image := ← fieldD fs "image" (optional ImageSpec.decode) d.image
      hooks := ← fieldD fs "hooks" HookConfig.decode d.hooks
      collect := ← fieldD fs "collect" (optional CollectSpec.decode) d.collect
      timings := ← fieldD fs "timings" Timings.decode d.timings }

namespace RunConfig

/-- The configuration of a document. -/
def ofText? (text : String) : Option RunConfig :=
  Yaml.decode RunConfig.decode (some {}) text

/-- The configuration of a text, which may also be blank. -/
def ofBlankOrText? (text : String) : Option RunConfig :=
  if (Text.trim text.toList).isEmpty then some {} else ofText? text

end RunConfig

end Workload

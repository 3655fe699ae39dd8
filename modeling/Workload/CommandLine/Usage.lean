import Workload.CommandLine.Options

/-!
# Usage

What is said about a command line that is not carried out.
-/

namespace Workload.CommandLine

def ScanFault.message : ScanFault → String
  | .unknown => "unexpected argument found"
  | .valueOfSwitch => "unexpected value for a flag found; no more were expected"

def UsageFault.message : UsageFault → String
  | .scan cause => cause.message
  | .noValue => "a value is required but none was supplied"
  | .badValue => "invalid value"
  | .conflict => "an argument cannot be used multiple times or with another one"
  | .withoutImage => "the required argument --image was not provided"
  | .help => "help"
  | .version => "version"

/-- What is said about the options. -/
def helpText : String :=
  String.intercalate "\n"
    ["Declarative container workload orchestration for cluster testing", "",
      "Usage: canopy [OPTIONS]", "", "Options:",
      "  -f, --file <FILE>              Path to canopy.yml config file",
      "  -t, --test <FILE>              Action document to run",
      "  -s, --scope <FILE>             Initial cluster topology",
      "  -p, --provider <SPEC>          docker, file[:hostfile] or dev[:endpoint]",
      "      --repeat <N>               Extra passes over the actions; -1 repeats forever",
      "      --duration <SECONDS>       Stop the run after this many seconds",
      "      --skip-setup               Skip cluster setup",
      "      --skip-test                Stop after setup",
      "      --skip-teardown            Skip cluster teardown",
      "      --skip-cleanup             Leave containers in place after the run",
      "      --soft-cleanup             Stop containers instead of removing them",
      "      --collect-on-error         Collect diagnostics when a task fails",
      "      --stop-on-error            Exit as soon as a task fails",
      "      --log-level <LEVEL>        Save container logs when greater than zero",
      "      --log-dir <DIR>            Directory for saved logs",
      "      --container-name <PREFIX>  Name prefix of task containers",
      "      --image <IMAGE>            Run a single image instead of a test document",
      "      --command <COMMAND>        Command for --image",
      "      --wait                     Wait for the --image container to exit",
      "      --dry-run                  Resolve and report actions without a container runtime",
      "  -q, --quiet                    Only print warnings and the report",
      "  -v, --verbose                  Print debug output",
      "  -h, --help                     Print help",
      "  -V, --version                  Print version", ""]

def versionText : String := "canopy 0.1.0\n"

/-- What is printed about a command line, where it goes well, and the exit code. -/
def UsageFault.reply : UsageFault → Bool × String × UInt32
  | .help => (true, helpText, 0)
  | .version => (true, versionText, 0)
  | fault => (false, "error: " ++ fault.message ++ "\n\nFor more information, try '--help'.\n", 2)

end Workload.CommandLine

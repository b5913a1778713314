import StackCalculator.CommandLine.Request
import StackCalculator.Report

/-! # What the program does

`Request.outcome` is what the program writes about a request and the status it ends with. All it
needs from outside is the content of the file that `Request.path?` names.
-/

namespace StackCalculator

structure Outcome where
  status : UInt8
  output : String
  -- what is written on standard error, if anything is
  complaint : Option String := none
  -- what is reported on standard error before
  transcript : List Message := []

def Options.settings (options : Options) : Settings where
  describe := options.describe
  style := if options.exact then .exact else .truncated
  assignments := options.assignments

/-- What the program writes about a script. The messages for debugging are written if asked for. -/
def Options.outcome (options : Options) (script : String) : Outcome :=
  let transcript :=
    if options.verbose then
      (options.settings.transcript script).filter fun message => message.detail = .debug
    else []
  match options.settings.report script with
  | .ok output => { status := 0, output, transcript }
  | .error error => { status := 1, output := "", complaint := some error.message, transcript }

namespace Request

def versionText : String := "rpnote 0.1.0\n"

def helpText : String :=
  String.intercalate "\n"
    ["A reverse Polish notation calculator that also tells you, in infix form,",
      "what you have entered.",
      "",
      "Usage: rpnote [OPTIONS] <CONTENTS>",
      "",
      "Arguments:",
      "  <CONTENTS>",
      "",
      "Options:",
      "  -f, --file            Reads the script from a file",
      "  -d, --describe        Prints the description of the program along with the result",
      "  -e, --exact           Writes operands in full in the description",
      "  -v, --verbose         Logs every push",
      "      --set NAME=VALUE  Binds a variable before the script runs",
      "  -h, --help            Prints help",
      "  -V, --version         Prints the version",
      ""]

def usageText : String :=
  "Usage: rpnote [OPTIONS] <CONTENTS>\nFor more information, try '--help'."

def unreadable (path : String) : String :=
  "Failed to read the input file '" ++ path ++ "'. Perhaps this file does not exist?"

/-- What the program does about a request. The file is the content of the one that has to be read, if
it can be read. -/
def outcome (request : Request) (file : Option String) : Outcome :=
  match request with
  | version => { status := 0, output := versionText }
  | help => { status := 0, output := helpText }
  | usageError => { status := 2, output := "", complaint := some usageText }
  | run options contents =>
    if options.fromFile then
      match file with
      | some script => options.outcome script
      | none => { status := 1, output := "", complaint := some (unreadable contents) }
    else options.outcome contents

end Request

end StackCalculator

import StackCalculator.Assignment

/-! # What the command line asks for

`Request.ofArguments` reads the arguments of the program from left to right, up to the first thing
that decides: a fault, or an option that asks for the version or for help. An option that is on or
off may be given once, assignments as often as wanted, and exactly one argument is the script or the
path of its file. After `--` no argument is an option.
-/

namespace StackCalculator

structure Options where
  -- the script is in a file
  fromFile : Bool := false
  describe : Bool := false
  exact : Bool := false
  verbose : Bool := false
  -- in the order given
  assignments : List Assignment := []

inductive Flag where
  | file
  | describe
  | exact
  | verbose

namespace Flag

def ofLetter? (letter : Char) : Option Flag :=
  if letter = 'f' then some file
  else if letter = 'd' then some describe
  else if letter = 'e' then some exact
  else if letter = 'v' then some verbose
  else none

def ofWord? (word : String) : Option Flag :=
  if word = "--file" then some file
  else if word = "--describe" then some describe
  else if word = "--exact" then some exact
  else if word = "--verbose" then some verbose
  else none

end Flag

namespace Options

/-- Turns an option on, unless it is on already. -/
def turnOn? (options : Options) : Flag → Option Options
  | .file => if options.fromFile then none else some { options with fromFile := true }
  | .describe => if options.describe then none else some { options with describe := true }
  | .exact => if options.exact then none else some { options with exact := true }
  | .verbose => if options.verbose then none else some { options with verbose := true }

def assign? (options : Options) (setting : String) : Option Options :=
  match Assignment.ofString setting with
  | .ok assignment => some { options with assignments := options.assignments ++ [assignment] }
  | .error _ => none

end Options

inductive Request where
  -- to run a script, given as text or as the path of its file
  | run (options : Options) (contents : String)
  | version
  | help
  -- the arguments make no sense
  | usageError

structure Draft where
  options : Options := {}
  contents : Option String := none

namespace Draft

def request (draft : Draft) : Request :=
  match draft.contents with
  | some contents => .run draft.options contents
  | none => .usageError

/-- Takes an argument that is no option, unless there is one already. -/
def take? (draft : Draft) (argument : String) : Option Draft :=
  match draft.contents with
  | none => some { draft with contents := some argument }
  | some _ => none

def change? (draft : Draft) (change : Options → Option Options) : Option Draft :=
  (change draft.options).map fun options => { draft with options }

end Draft

inductive Reading where
  -- reading goes on
  | further (draft : Draft)
  -- the request is decided
  | decided (request : Request)

namespace Reading

def ofOption : Option Draft → Reading
  | some draft => further draft
  | none => decided .usageError

def letters (draft : Draft) : List Char → Reading
  | [] => further draft
  | 'V' :: _ => decided .version
  | 'h' :: _ => decided .help
  | letter :: rest =>
    match (Flag.ofLetter? letter).bind fun flag => draft.change? (·.turnOn? flag) with
    | some draft => letters draft rest
    | none => decided .usageError

/-- The start of an assignment in the same argument as its option. -/
def attached : List Char := "--set=".toList

def word (draft : Draft) (text : String) : Reading :=
  if text = "--version" then decided .version
  else if text = "--help" then decided .help
  else if attached.isPrefixOf text.toList then
    let setting := String.ofList (text.toList.drop attached.length)
    ofOption (draft.change? (·.assign? setting))
  else ofOption ((Flag.ofWord? text).bind fun flag => draft.change? (·.turnOn? flag))

/-- An argument that is not the value of an option. A single dash is no option. -/
def argument (draft : Draft) (text : String) : Reading :=
  match text.toList with
  | '-' :: '-' :: _ => word draft text
  | '-' :: letter :: rest => letters draft (letter :: rest)
  | _ => ofOption (draft.take? text)

end Reading

namespace Request

def ofPlain (draft : Draft) : List String → Request
  | [] => draft.request
  | text :: rest =>
    match draft.take? text with
    | some draft => ofPlain draft rest
    | none => usageError

/-- The request of the arguments that are left. The value of `--set` may not begin with a dash. -/
def ofArgumentsFrom (draft : Draft) : List String → Request
  | [] => draft.request
  | "--" :: rest => ofPlain draft rest
  | ["--set"] => usageError
  | "--set" :: setting :: rest =>
    if setting.toList.head? = some '-' then usageError
    else match draft.change? (·.assign? setting) with
      | some draft => ofArgumentsFrom draft rest
      | none => usageError
  | text :: rest =>
    match Reading.argument draft text with
    | .further draft => ofArgumentsFrom draft rest
    | .decided request => request

def ofArguments (arguments : List String) : Request :=
  ofArgumentsFrom {} arguments

def path? : Request → Option String
  | run options contents => if options.fromFile then some contents else none
  | _ => none

end Request

end StackCalculator

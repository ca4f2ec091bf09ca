/-
# Command-line options

The program declares three switches and one positional argument, and says that the switch for files
requires the positional one.  The taking apart of a command line is left to the parser clap, which
adds the switches for the version and for help.  What it does is not the program's own: the rules
here are the documented ones of clap 4.5 for these declarations, and they are assumed of it.

Arguments are taken from left to right, and the first that settles the matter does: an argument
the program does not understand is a usage error, and a request for the version or for help is
granted at once, whatever comes behind it.

* **Flags** have a long and a short form; short ones may share a hyphen.  A flag takes no value,
  may not be abbreviated and may not be repeated.
* **At most one positional argument** may stand among them: an expression, or with `--file` a
  path.  A lone hyphen and an empty argument are positional.
* **Two hyphens** end the flags: everything behind them is positional.
-/

namespace Reckoner

/-! ## 1. What can be asked for -/

/-- A switch of the command line. -/
inductive Flag where
  | file
  | tokens
  | verbose
  | version
  | help
  deriving DecidableEq

namespace Flag

/-- The flag with a short form. -/
def ofShort? : Char → Option Flag
  | 'f' => some .file
  | 't' => some .tokens
  | 'v' => some .verbose
  | 'V' => some .version
  | 'h' => some .help
  | _ => none

/-- The flag with a long form, given without its hyphens. -/
def ofLong? : String → Option Flag
  | "file" => some .file
  | "tokens" => some .tokens
  | "verbose" => some .verbose
  | "version" => some .version
  | "help" => some .help
  | _ => none

end Flag

/-- What is wrong with the arguments.  A path is missing when a file is asked for. -/
inductive UsageError where
  | unknownFlag (argument : String)
  | repeatedFlag (flag : Flag)
  | unexpectedArgument (argument : String)
  | missingPath
  deriving DecidableEq

/-- Why no expression is read. -/
inductive Detour where
  | version
  | help
  | usage (error : UsageError)
  deriving DecidableEq

/-- What the arguments ask for.  Under `file` the positional argument, `contents?`, is a path. -/
structure Options where
  file : Bool := false
  tokens : Bool := false
  verbose : Bool := false
  contents? : Option String := none
  deriving DecidableEq

/-- Where expressions come from. -/
inductive Source where
  | expression (text : String)
  | file (path : String)
  | standardInput
  deriving DecidableEq

namespace Options

/-! ## 2. Taking arguments -/

/-- Takes a flag. -/
def takeFlag (options : Options) : Flag → Except Detour Options
  | .file =>
    if options.file then .error (.usage (.repeatedFlag .file))
    else .ok { options with file := true }
  | .tokens =>
    if options.tokens then .error (.usage (.repeatedFlag .tokens))
    else .ok { options with tokens := true }
  | .verbose =>
    if options.verbose then .error (.usage (.repeatedFlag .verbose))
    else .ok { options with verbose := true }
  | .version => .error .version
  | .help => .error .help

/-- Takes a short flag out of an argument. -/
def takeShort (argument : String) (options : Options) (letter : Char) : Except Detour Options :=
  match Flag.ofShort? letter with
  | some flag => options.takeFlag flag
  | none => .error (.usage (.unknownFlag argument))

/-- Takes a positional argument. -/
def takePositional (options : Options) (argument : String) : Except Detour Options :=
  if options.contents?.isSome then .error (.usage (.unexpectedArgument argument))
  else .ok { options with contents? := some argument }

/-- Takes an argument in front of the two hyphens. -/
def takeArgument (options : Options) (argument : String) : Except Detour Options :=
  match argument.toList with
  | '-' :: '-' :: name =>
    match Flag.ofLong? (String.ofList name) with
    | some flag => options.takeFlag flag
    | none => .error (.usage (.unknownFlag argument))
  | '-' :: letter :: letters => (letter :: letters).foldlM (takeShort argument) options
  | _ => options.takePositional argument

/-- Takes all arguments. -/
def takeAll (options : Options) : List String → Except Detour Options
  | [] => .ok options
  | "--" :: positionals => positionals.foldlM takePositional options
  | argument :: rest =>
    match options.takeArgument argument with
    | .ok taken => taken.takeAll rest
    | .error detour => .error detour

/-- The options that the arguments set, unless they lead elsewhere. -/
def ofArguments (arguments : List String) : Except Detour Options :=
  match takeAll {} arguments with
  | .ok options =>
    if options.file && options.contents?.isNone then .error (.usage .missingPath) else .ok options
  | .error detour => .error detour

/-- Where the expressions come from. -/
def source (options : Options) : Source :=
  match options.contents? with
  | none => .standardInput
  | some contents => if options.file then .file contents else .expression contents

end Options

end Reckoner

/-
# Sessions

A session goes through lines and answers each by itself, with the standard ranks.

* **Entries.**  A line comes as text or, from standard input, as bytes that are no text; the
  latter is an entry too and is reported by its number.
* **Answers.**  Blanks at the ends of a line do not count, and a line of nothing else is passed
  over.  Any other line gets exactly one line of output: its value or its tokens, or what the
  screen shows for its fault.  The fault's message goes to the other channel.
* **Exit code.**  It is 1 when something was complained of, 2 when the arguments were not
  understood, and 0 otherwise.

Three things are left out.  Help and the complaints about arguments are worded by the argument
parser clap, so a response to them has no lines here.  The logger puts the time, the level and the
place in front of each note; only the note itself is kept.  And it also obeys an environment
variable, which is taken to be unset.
-/
import Reckoner.Calculator
import Reckoner.Options
import Reckoner.Text.Blank
import Reckoner.Text.Lines

namespace Reckoner

/-! ## 1. Entries -/

/-- A line to be answered, or the number of one that is not well-formed UTF-8, counted from one. -/
inductive Entry where
  | line (text : String)
  | undecodable (number : Nat)
  deriving DecidableEq

namespace Entry

/-- A piece of input, with the number of its line. -/
def ofPiece (piece : List UInt8) (number : Nat) : Entry :=
  match Text.decode? piece with
  | some text => .line text
  | none => .undecodable number

/-- The entries of a text. -/
def ofText (text : String) : List Entry := (Text.lines text).map .line

/-- The entries of the bytes of standard input. -/
def ofInput (bytes : List UInt8) : List Entry :=
  ((Text.bytePieces bytes).zipIdx 1).map fun (piece, number) => ofPiece piece number

end Entry

/-! ## 2. Events -/

/-- A line that is written: to standard output, or to standard error about something that failed or
about what is being done. -/
inductive Event where
  | output (line : String)
  | complaint (line : String)
  | note (line : String)
  deriving DecidableEq

namespace Event

/-- Whether something failed. -/
def isComplaint : Event → Bool
  | .complaint _ => true
  | _ => false

/-- Whether this is about what is being done. -/
def isNote : Event → Bool
  | .note _ => true
  | _ => false

/-- What reaches standard output. -/
def outputText : Event → String
  | .output line => line ++ "\n"
  | _ => ""

/-- What reaches standard error. -/
def errorText : Event → String
  | .complaint line | .note line => line ++ "\n"
  | .output _ => ""

end Event

/-! ## 3. Answers -/

/-- The text that answers a line: its tokens or its value. -/
def answer (tokens : Bool) (line : String) : Except Fault String :=
  if tokens then ((Calculator.tokens line).mapError .form).map Token.streamText
  else (({} : Calculator).evaluate line).map (Binary64.write .screen)

/-- What is written for an answer. -/
def answerEvents : Except Fault String → List Event
  | .ok text => [.output text]
  | .error fault => [.output fault.kind.label, .complaint fault.message]

/-- What is said about the stages that a line goes through: each stage speaks once it has
succeeded. -/
def stageNotes (tokens : Bool) (line : String) : List Event :=
  let lexemes := Lexeme.scan line
  -- what the note calls characters are bytes
  let scanned := s!"tokenized {line.utf8ByteSize} characters into {lexemes.length} tokens"
  match Token.read lexemes with
  | .error _ => [.note scanned]
  | .ok stream =>
    let read := s!"validated {lexemes.length} raw tokens into {stream.length} tokens"
    if tokens then [.note scanned, .note read]
    else
      match Token.value .standard stream with
      | .error _ => [.note scanned, .note read]
      | .ok value =>
        let worked := s!"evaluated {stream.length} tokens to {value.write .stream}"
        [.note scanned, .note read, .note worked]

/-- What is written for an entry. -/
def Entry.events (options : Options) : Entry → List Event
  | .undecodable number =>
    [.complaint s!"Line {number} of standard input is not valid UTF-8."]
  | .line text =>
    let line := Text.trim text
    if line = "" then []
    else
      (if options.verbose then stageNotes options.tokens line else [])
        ++ answerEvents (answer options.tokens line)

/-! ## 4. Responses -/

/-- What a run of the program leaves behind: the lines it wrote, in order, and its exit code. -/
structure Response where
  events : List Event
  exitCode : Nat
  deriving DecidableEq

namespace Response

/-- All of standard output. -/
def standardOutput (response : Response) : String :=
  String.join (response.events.map Event.outputText)

/-- All of standard error. -/
def standardError (response : Response) : String :=
  String.join (response.events.map Event.errorText)

/-- The response with these lines: it fails when one of them is a complaint. -/
def ofEvents (events : List Event) : Response :=
  ⟨events, if events.any Event.isComplaint then 1 else 0⟩

/-- The response to a number of entries. -/
def ofEntries (options : Options) (entries : List Entry) : Response :=
  ofEvents (entries.flatMap (Entry.events options))

/-- The response to a file; `contents?` is what it holds, if it can be read. -/
def ofFile (options : Options) (path : String) (contents? : Option (List UInt8)) : Response :=
  match contents?.bind Text.decode? with
  | some text => ofEntries options (Entry.ofText text)
  | none =>
    ofEvents [.complaint
      s!"Failed to read the input file '{path}'. Perhaps this file does not exist?"]

/-- The response to options, given what the file they name holds, if there is one and it can be
read, and what standard input holds. -/
def ofOptions (options : Options) (contents? : Option (List UInt8)) (input : List UInt8) :
    Response :=
  match options.source with
  | .expression text => ofEntries options [.line text]
  | .file path => ofFile options path contents?
  | .standardInput => ofEntries options (Entry.ofInput input)

/-- The response where standard input cannot be read, for a reason that the system words. -/
def ofUnreadableInput (reason : String) : Response :=
  ofEvents [.complaint s!"Failed to read standard input: {reason}"]

/-! ## 5. Detours -/

/-- The name and version of the program. -/
def versionText : String := "infix-eval 0.1.0"

/-- The response to arguments that start no session, without the lines that clap makes. -/
def ofDetour : Detour → Response
  | .version => ofEvents [.output versionText]
  | .help => ofEvents []
  | .usage _ => ⟨[], 2⟩

/-- The response to arguments, where standard input can be read. -/
def ofArguments (arguments : List String) (contents? : Option (List UInt8)) (input : List UInt8) :
    Response :=
  match Options.ofArguments arguments with
  | .ok options => ofOptions options contents? input
  | .error detour => ofDetour detour

end Response

end Reckoner

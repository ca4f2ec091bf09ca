/-
# Three routes to one answer

Expressions come from a file, from standard input or from the command line, and each route has its
own way to lines.  A text is answered alike on all of them (`Response.routes_agree`).

* **Lines.**  What is written for a line depends on the line without the blanks at its ends, and
  for a line of blanks nothing is written (`Entry.events_congr`, `Entry.events_empty`).
* **Files and standard input.**  The lines of a file are the pieces of the text, save that they
  may lack a carriage return at the end, and that an empty last piece is no line.  Neither makes a
  difference (`Entry.flatMap_events_ofText`).
* **The command line.**  A text without a line feed is a single piece, and behind two hyphens it
  is taken as it is, whatever it begins with (`Options.ofArguments_hyphens`).

Notes have no part in an answer: a session that says what it is doing writes them besides, and all
the rest is as it would be (`Response.ofEntries_verbose`).
-/
import Reckoner.Session
import Reckoner.Proofs.Text.Lines

namespace Reckoner

/-! ## 1. Lines that are answered alike -/

namespace Entry

variable {options : Options}

/-- Blanks at the ends of a line do not count. -/
theorem events_congr {line line' : String} (h : Text.trim line = Text.trim line') :
    events options (.line line) = events options (.line line') := by
  simp only [events, h]

theorem events_empty : events options (.line "") = [] := rfl

theorem ofPiece_encode (line : String) (number : Nat) :
    ofPiece (Text.encode line) number = .line line := by
  rw [ofPiece, Text.decode?_encode]

theorem ofInput_encode (text : String) :
    ofInput (Text.encode text)
      = (text.toList.splitOn '\n').map fun piece => .line (String.ofList piece) := by
  rw [ofInput, Text.bytePieces_encode, List.zipIdx_map, List.map_map]
  generalize text.toList.splitOn '\n' = pieces
  generalize 1 = number
  induction pieces generalizing number with
  | nil => rfl
  | cons piece pieces ih =>
    rw [List.zipIdx_cons, List.map_cons, List.map_cons, ih]
    simp [ofPiece_encode]

/-- A line is answered with its carriage return and without. -/
theorem events_dropReturn (piece : List Char) :
    events options (.line (String.ofList (Text.dropReturn piece)))
      = events options (.line (String.ofList piece)) :=
  events_congr (Text.trim_dropReturn piece)

/-- An empty last piece may be left out. -/
theorem flatMap_events_last (last : List Char) :
    ((some last).filter (· ≠ [])).toList.flatMap
        (fun piece => events options (.line (String.ofList piece)))
      = events options (.line (String.ofList last)) := by
  by_cases h : last = []
  · subst h
    exact events_empty.symm
  · simp [Option.filter, h]

/-- **A text is answered alike** from a file and from standard input. -/
theorem flatMap_events_ofText (text : String) :
    (ofText text).flatMap (events options)
      = (ofInput (Text.encode text)).flatMap (events options) := by
  obtain ⟨ended, last, hpieces⟩ : ∃ ended last, text.toList.splitOn '\n' = ended ++ [last] := by
    rcases List.eq_nil_or_concat (text.toList.splitOn '\n') with hnil | ⟨ended, last, hconcat⟩
    · exact absurd hnil (List.splitOn_ne_nil _ _)
    · exact ⟨ended, last, by rw [hconcat, List.concat_eq_append]⟩
  rw [ofInput_encode, ofText, Text.lines, hpieces]
  simp only [List.dropLast_concat, List.getLast?_concat, List.map_append, List.flatMap_append,
    List.flatMap_map, events_dropReturn, flatMap_events_last]
  simp

end Entry

/-! ## 2. The argument behind two hyphens -/

namespace Options

variable {options taken : Options} {argument : String} {arguments : List String}

theorem takeAll_cons (h : argument ≠ "--") (rest : List String) :
    options.takeAll (argument :: rest)
      = (options.takeArgument argument).bind fun taken => taken.takeAll rest := by
  rw [takeAll.eq_3 options argument rest h]
  cases options.takeArgument argument <;> rfl

/-- Arguments are taken one after another, as long as two hyphens do not stand among them. -/
theorem takeAll_append (hhyphens : "--" ∉ arguments) (h : options.takeAll arguments = .ok taken)
    (rest : List String) : options.takeAll (arguments ++ rest) = taken.takeAll rest := by
  induction arguments generalizing options with
  | nil =>
    obtain rfl : options = taken := Except.ok.inj h
    rfl
  | cons argument arguments ih =>
    obtain ⟨hargument, harguments⟩ := List.ne_and_not_mem_of_not_mem_cons hhyphens
    rw [takeAll_cons hargument.symm] at h
    rw [List.cons_append, takeAll_cons hargument.symm]
    cases htaken : options.takeArgument argument with
    | ok after =>
      rw [htaken] at h
      exact ih harguments h
    | error detour =>
      rw [htaken] at h
      cases h

theorem ofArguments_eq_ok_iff :
    ofArguments arguments = .ok options ↔
      takeAll {} arguments = .ok options ∧ ¬(options.file ∧ options.contents?.isNone) := by
  rw [ofArguments]
  split
  · next taken htaken =>
    split
    · next hmissing =>
      constructor
      · intro h
        cases h
      · rintro ⟨h, hpath⟩
        obtain rfl := Except.ok.inj (htaken.symm.trans h)
        exact absurd (Bool.and_eq_true_iff.mp hmissing) hpath
    · next hpath =>
      rw [Bool.and_eq_true_iff] at hpath
      constructor
      · intro h
        obtain rfl := Except.ok.inj h
        exact ⟨htaken, hpath⟩
      · rintro ⟨h, -⟩
        exact htaken.symm.trans h
  · next detour hdetour => simp [hdetour]

/-- **Two hyphens let any text through.**  Behind them it is the positional argument, whatever it
begins with. -/
theorem ofArguments_hyphens (hhyphens : "--" ∉ arguments) (h : ofArguments arguments = .ok options)
    (hnone : options.contents? = none) (text : String) :
    ofArguments (arguments ++ ["--", text]) = .ok { options with contents? := some text } := by
  obtain ⟨htaken, -⟩ := ofArguments_eq_ok_iff.mp h
  have htext : options.takePositional text = .ok { options with contents? := some text } := by
    simp [takePositional, hnone]
  rw [ofArguments_eq_ok_iff, takeAll_append hhyphens htaken, takeAll, List.foldlM_cons, htext]
  exact ⟨rfl, by simp⟩

end Options

/-! ## 3. Routes -/

namespace Response

variable {tokens : Bool} {arguments : List String} {path text : String}

/-- Where lines come from has no part in what is written for them. -/
theorem ofEntries_congr {options options' : Options} (htokens : options.tokens = options'.tokens)
    (hverbose : options.verbose = options'.verbose) (entries : List Entry) :
    ofEntries options entries = ofEntries options' entries := by
  have hevents : Entry.events options = Entry.events options' := by
    funext entry
    cases entry with
    | line line => simp only [Entry.events, htokens, hverbose]
    | undecodable number => rfl
  rw [ofEntries, ofEntries, hevents]

/-- What a file holds is cut into lines. -/
theorem ofArguments_file
    (h : Options.ofArguments arguments = .ok { file := true, tokens, contents? := some path })
    (text : String) (input : List UInt8) :
    ofArguments arguments (some (Text.encode text)) input
      = ofEntries { tokens } (Entry.ofText text) := by
  have hsource : ({ file := true, tokens, contents? := some path } : Options).source = .file path :=
    rfl
  rw [ofArguments, h]
  simp only [ofOptions, hsource, ofFile, Option.bind_some, Text.decode?_encode]
  exact ofEntries_congr rfl rfl _

/-- The positional argument is the one line. -/
theorem ofArguments_expression
    (h : Options.ofArguments arguments = .ok { tokens, contents? := some text })
    (contents? : Option (List UInt8)) (input : List UInt8) :
    ofArguments arguments contents? input = ofEntries { tokens } [.line text] := by
  rw [ofArguments, h]
  exact ofEntries_congr rfl rfl _

/-- Without a positional argument standard input is read. -/
theorem ofArguments_standardInput (h : Options.ofArguments arguments = .ok { tokens })
    (contents? : Option (List UInt8)) (input : List UInt8) :
    ofArguments arguments contents? input = ofEntries { tokens } (Entry.ofInput input) := by
  rw [ofArguments, h]
  rfl

/-- **The routes agree.**  With token streams or with values, a text gets the same response from a
file as from standard input: the same lines on the same channels, and the same exit code.  So does
a text without a line feed that is given behind two hyphens. -/
theorem routes_agree {tokens : Bool} {arguments : List String}
    (harguments : Options.ofArguments arguments = .ok { tokens })
    (contents? : Option (List UInt8)) (text : String) :
    (∀ named path input,
        Options.ofArguments named = .ok { file := true, tokens, contents? := some path } →
      ofArguments named (some (Text.encode text)) input
        = ofArguments arguments contents? (Text.encode text)) ∧
    ('\n' ∉ text.toList → ∀ flags other? input,
        "--" ∉ flags → Options.ofArguments flags = .ok { tokens } →
      ofArguments (flags ++ ["--", text]) other? input
        = ofArguments arguments contents? (Text.encode text)) := by
  rw [ofArguments_standardInput harguments]
  constructor
  · intro named path input hnamed
    rw [ofArguments_file hnamed, ofEntries, ofEntries, Entry.flatMap_events_ofText]
  · intro hfeed flags other? input hhyphens hflags
    have hpositional := Options.ofArguments_hyphens hhyphens hflags rfl text
    rw [ofArguments_expression hpositional, Entry.ofInput_encode, List.splitOn_eq_singleton hfeed]
    simp

/-- Two lines with blank ones between them, some of them ended by a carriage return and a line
feed. -/
theorem routes_agree_carriage_return :
    ofArguments ["--tokens"] none (Text.encode "\t2×(3\r\n\r\n\n5−7")
        = ⟨[.output "Syntax Error",
            .complaint "Error at offset 3: Opening parenthesis is never closed.",
            .output "5 − 7"], 1⟩ ∧
      ofArguments ["-t", "--", "-5÷(1"] none []
        = ofArguments ["--tokens"] none (Text.encode "-5÷(1") := by
  have htokens : Options.ofArguments ["--tokens"] = .ok { tokens := true } := rfl
  have hfile : Options.ofArguments ["-ft", "sums"]
      = .ok { file := true, tokens := true, contents? := some "sums" } := rfl
  constructor
  · rw [← (routes_agree htokens none "\t2×(3\r\n\r\n\n5−7").1 _ _ [] hfile]
    decide +kernel
  · exact (routes_agree htokens none "-5÷(1").2 (by decide) ["-t"] none [] (by decide) rfl

end Response

/-! ## 4. Notes -/

namespace Event

@[simp] theorem isNote_output (line : String) : (output line).isNote = false := rfl

@[simp] theorem isNote_complaint (line : String) : (complaint line).isNote = false := rfl

@[simp] theorem isNote_note (line : String) : (note line).isNote = true := rfl

end Event

theorem isNote_of_mem_stageNotes (tokens : Bool) (line : String) :
    ∀ event ∈ stageNotes tokens line, event.isNote := by
  simp only [stageNotes]
  cases Token.read (Lexeme.scan line) with
  | error error => simp
  | ok stream =>
    cases tokens with
    | true => simp
    | false =>
      cases hvalue : Token.value .standard stream with
      | ok value => simp [hvalue]
      | error error => simp [hvalue]

theorem isNote_of_mem_answerEvents (outcome : Except Fault String) :
    ∀ event ∈ answerEvents outcome, event.isNote = false := by
  cases outcome <;> simp [answerEvents]

/-- Of what is written for an entry only the notes depend on whether they are asked for. -/
theorem Entry.filter_events_verbose (options : Options) (entry : Entry) :
    (events { options with verbose := true } entry).filter (!·.isNote)
      = events { options with verbose := false } entry := by
  cases entry with
  | undecodable number => rfl
  | line text =>
    have hnotes : ∀ line, (stageNotes options.tokens line).filter (!·.isNote) = [] := by
      intro line
      simpa using isNote_of_mem_stageNotes options.tokens line
    have hanswer : ∀ outcome, (answerEvents outcome).filter (!·.isNote) = answerEvents outcome := by
      intro outcome
      simpa using isNote_of_mem_answerEvents outcome
    simp only [events]
    split
    · rfl
    · simp [hnotes, hanswer]

namespace Response

theorem standardOutput_filter_isNote (events : List Event) :
    (ofEvents (events.filter (!·.isNote))).standardOutput = (ofEvents events).standardOutput := by
  simp only [standardOutput, ofEvents]
  induction events with
  | nil => rfl
  | cons event events ih =>
    cases event <;> simp [Event.outputText, String.join_cons, ih]

theorem exitCode_filter_isNote (events : List Event) :
    (ofEvents (events.filter (!·.isNote))).exitCode = (ofEvents events).exitCode := by
  have hcomplaint : (events.filter (!·.isNote)).any Event.isComplaint
      = events.any Event.isComplaint := by
    rw [List.any_filter]
    congr 1
    funext event
    cases event <;> rfl
  simp only [ofEvents, hcomplaint]

/-- **Saying what is done changes nothing else**: without its notes a session that does so writes
the same lines in the same order, so its standard output is the same, and so is its exit code. -/
theorem ofEntries_verbose (options : Options) (entries : List Entry) :
    let quiet := ofEntries { options with verbose := false } entries
    let loud := ofEntries { options with verbose := true } entries
    loud.events.filter (!·.isNote) = quiet.events ∧
      loud.standardOutput = quiet.standardOutput ∧ loud.exitCode = quiet.exitCode := by
  intro quiet loud
  have hevents : (entries.flatMap (Entry.events { options with verbose := true })).filter
        (!·.isNote)
      = entries.flatMap (Entry.events { options with verbose := false }) := by
    rw [List.filter_flatMap]
    exact congrArg (entries.flatMap ·) (funext (Entry.filter_events_verbose options))
  refine ⟨hevents, ?_, ?_⟩
  · exact (standardOutput_filter_isNote _).symm.trans
      (congrArg (fun events => (ofEvents events).standardOutput) hevents)
  · exact (exitCode_filter_isNote _).symm.trans
      (congrArg (fun events => (ofEvents events).exitCode) hevents)

end Response

end Reckoner

/-
# Lines of standard input do not get in each other's way

What is written for a line of standard input depends on that line alone, save that a line which is
no text is reported by its number.  So two inputs with a line feed between them are answered one
after the other (`Response.ofArguments_append`).

* **Numbers of lines.**  Behind another input the lines have higher numbers.  The complaints about
  lines that are no text are told by their wording and renumbered (`raiseLineNumber`); no fault is
  worded like that (`raiseLineNumber_message`).
* **Lines of output.**  Nothing that is written has a line feed in it, so the lines of the output
  can be told apart: one for each line of input that is a text and not blank
  (`Response.splitOn_standardOutput`).
* **The exit code** tells whether all went well, whatever the order of the lines.
-/
import Reckoner.Proofs.Session.OneLine
import Reckoner.Proofs.Session.Routes

namespace Reckoner

open Text

/-! ## 1. Numbers of lines -/

/-- What is said about a line that is no text. -/
def undecodableMessage (number : Nat) : String :=
  "Line " ++ toString number ++ " of standard input is not valid UTF-8."

/-- The number of the line that is said to be no text. -/
def undecodableNumber? (line : String) : Option Nat :=
  let digits := (line.toList.drop "Line ".length).takeWhile Char.isDigit
  let number := Nat.ofDigitChars 10 digits 0
  if line = undecodableMessage number then some number else none

/-- What is said about a line that is no text, with the number of the line raised. -/
def raiseLineNumber (count : Nat) (line : String) : String :=
  match undecodableNumber? line with
  | some number => undecodableMessage (number + count)
  | none => line

/-- A text in which the numbers of lines that are said to be no text have been raised. -/
def raiseLineNumbers (count : Nat) (text : String) : String := mapLines (raiseLineNumber count) text

theorem undecodableNumber?_undecodableMessage (number : Nat) :
    undecodableNumber? (undecodableMessage number) = some number := by
  have hdrop : (undecodableMessage number).toList.drop "Line ".length
      = Nat.toDigits 10 number ++ " of standard input is not valid UTF-8.".toList := by
    rw [undecodableMessage, String.toList_append, String.toList_append, List.append_assoc,
      String.length, List.drop_left, Nat.toString_eq_ofList_toDigits, String.toList_ofList]
  have hdigits : (Nat.toDigits 10 number
        ++ " of standard input is not valid UTF-8.".toList).takeWhile Char.isDigit
      = Nat.toDigits 10 number := by
    rw [List.takeWhile_append_of_pos]
    · simp
    · intro digit hdigit
      exact Nat.isDigit_of_mem_toDigits (by decide) (by decide) hdigit
  rw [undecodableNumber?, hdrop, hdigits, Nat.ofDigitChars_ten_toDigits, if_pos rfl]

theorem eq_of_undecodableNumber? {line : String} {number : Nat}
    (h : undecodableNumber? line = some number) : line = undecodableMessage number := by
  rw [undecodableNumber?] at h
  split at h
  · next hline =>
    rw [← Option.some.inj h]
    exact hline
  · cases h

theorem oneLine_undecodableMessage (number : Nat) : OneLine (undecodableMessage number) := by
  rw [undecodableMessage, oneLine_append, oneLine_append]
  exact ⟨⟨by decide, oneLine_toString number⟩, by decide⟩

/-- The wording of a fault begins otherwise. -/
theorem head?_message (fault : Fault) :
    fault.message.toList.head? = some 'E' ∨ fault.message.toList.head? = some 'i' := by
  cases fault with
  | form error =>
    left
    unfold Fault.message
    cases error <;> unfold SyntaxError.message <;>
      simp only [String.toList_append, List.append_assoc] <;> rfl
  | run error =>
    cases error with
    | unknownOperator character offset =>
      left
      unfold Fault.message RunError.message
      simp only [String.toList_append, List.append_assoc]
      rfl
    | operandUnderflow | nothingToApply => exact .inr rfl

theorem raiseLineNumber_message (count : Nat) (fault : Fault) :
    raiseLineNumber count fault.message = fault.message := by
  have hnone : undecodableNumber? fault.message = none := by
    by_contra hsome
    obtain ⟨number, hnumber⟩ := Option.ne_none_iff_exists'.mp hsome
    have hhead : (undecodableMessage number).toList.head? = some 'L' := by
      rw [undecodableMessage, String.toList_append, String.toList_append, List.append_assoc]
      rfl
    rw [← eq_of_undecodableNumber? hnumber] at hhead
    rcases head?_message fault with hE | hi
    · cases hhead.symm.trans hE
    · cases hhead.symm.trans hi
  rw [raiseLineNumber, hnone]

theorem raiseLineNumber_undecodableMessage (count number : Nat) :
    raiseLineNumber count (undecodableMessage number) = undecodableMessage (number + count) := by
  rw [raiseLineNumber, undecodableNumber?_undecodableMessage]

/-- The event with the number of the line raised, if it is about one that is no text. -/
def Event.raise (count : Nat) : Event → Event
  | .output line => .output line
  | .complaint line => .complaint (raiseLineNumber count line)
  | .note line => .note (raiseLineNumber count line)

/-! ## 2. Pieces one after another -/

variable {tokens : Bool}

theorem map_raise_answerEvents (count : Nat) (outcome : Except Fault String) :
    (answerEvents outcome).map (Event.raise count) = answerEvents outcome := by
  cases outcome with
  | ok shown => rfl
  | error fault => simp [answerEvents, Event.raise, raiseLineNumber_message]

namespace Entry

theorem events_undecodable (options : Options) (number : Nat) :
    events options (.undecodable number) = [.complaint (undecodableMessage number)] := rfl

/-- **A piece at a later place** is answered as it is at an earlier one, numbers apart. -/
theorem events_ofPiece (piece : List UInt8) (number count : Nat) :
    events { tokens } (ofPiece piece (number + count))
      = (events { tokens } (ofPiece piece number)).map (Event.raise count) := by
  rw [ofPiece, ofPiece]
  cases decode? piece with
  | none => simp [events_undecodable, Event.raise, raiseLineNumber_undecodableMessage]
  | some text =>
    simp only [events_line]
    split
    · rfl
    · rw [map_raise_answerEvents]

/-- What is written for pieces whose lines are counted from a number on. -/
def eventsFrom (tokens : Bool) (number : Nat) (pieces : List (List UInt8)) : List Event :=
  (pieces.zipIdx number).flatMap fun (piece, number) => events { tokens } (ofPiece piece number)

theorem eventsFrom_cons (number : Nat) (piece : List UInt8) (pieces : List (List UInt8)) :
    eventsFrom tokens number (piece :: pieces)
      = events { tokens } (ofPiece piece number) ++ eventsFrom tokens (number + 1) pieces := by
  simp [eventsFrom]

theorem eventsFrom_append (number : Nat) (front pieces : List (List UInt8)) :
    eventsFrom tokens number (front ++ pieces)
      = eventsFrom tokens number front ++ eventsFrom tokens (number + front.length) pieces := by
  simp [eventsFrom, List.zipIdx_append]

/-- Pieces at later places are answered as they are at earlier ones, numbers apart. -/
theorem eventsFrom_add (number count : Nat) (pieces : List (List UInt8)) :
    eventsFrom tokens (number + count) pieces
      = (eventsFrom tokens number pieces).map (Event.raise count) := by
  induction pieces generalizing number with
  | nil => rfl
  | cons piece pieces ih =>
    rw [eventsFrom_cons, eventsFrom_cons, List.map_append, ← ih, events_ofPiece,
      Nat.add_right_comm]

/-- What is written for an input. -/
def inputEvents (tokens : Bool) (bytes : List UInt8) : List Event :=
  eventsFrom tokens 1 (bytePieces bytes)

theorem flatMap_events_ofInput (bytes : List UInt8) :
    (ofInput bytes).flatMap (events { tokens }) = inputEvents tokens bytes := by
  rw [ofInput, List.flatMap_map]
  rfl

/-- **Two inputs with a line feed between them** are answered one after the other. -/
theorem inputEvents_append (front back : List UInt8) :
    inputEvents tokens (front ++ 10 :: back)
      = inputEvents tokens front
        ++ (inputEvents tokens back).map (Event.raise (front.count 10 + 1)) := by
  have hpieces : bytePieces (front ++ 10 :: back) = bytePieces front ++ bytePieces back :=
    List.splitOn_append_cons_self ..
  have hlength : (bytePieces front).length = front.count 10 + 1 := length_splitOn 10 front
  rw [inputEvents, hpieces, eventsFrom_append, hlength, eventsFrom_add]
  rfl

end Entry

/-! ## 3. What reaches the channels -/

namespace Event

/-- The line that reaches standard output, if one does. -/
def outputLine? : Event → Option String
  | .output line => some line
  | .complaint _ | .note _ => none

/-- The line that reaches standard error, if one does. -/
def errorLine? : Event → Option String
  | .output _ => none
  | .complaint line | .note line => some line

theorem line_of_outputLine? {event : Event} {line : String} (h : event.outputLine? = some line) :
    event.line = line := by
  cases event with
  | output text => exact Option.some.inj h
  | complaint | note => cases h

theorem line_of_errorLine? {event : Event} {line : String} (h : event.errorLine? = some line) :
    event.line = line := by
  cases event with
  | output => cases h
  | complaint text | note text => exact Option.some.inj h

variable (count : Nat) (event : Event)

@[simp] theorem isComplaint_raise : (event.raise count).isComplaint = event.isComplaint := by
  cases event <;> rfl

@[simp] theorem outputLine?_raise : (event.raise count).outputLine? = event.outputLine? := by
  cases event <;> rfl

@[simp] theorem errorLine?_raise :
    (event.raise count).errorLine? = event.errorLine?.map (raiseLineNumber count) := by
  cases event <;> rfl

theorem outputText_eq : event.outputText = unlines event.outputLine?.toList := by
  cases event <;> simp [outputText, outputLine?, unlines]

theorem errorText_eq : event.errorText = unlines event.errorLine?.toList := by
  cases event <;> simp [errorText, errorLine?, unlines]

end Event

namespace Entry

/-- What is written for a piece without a line feed takes up lines of its own. -/
theorem oneLine_of_mem_events_ofPiece {piece : List UInt8} (hfeed : 10 ∉ piece) {number : Nat}
    {event : Event} (h : event ∈ events { tokens } (ofPiece piece number)) :
    OneLine event.line := by
  rw [ofPiece] at h
  cases hdecode : decode? piece with
  | none =>
    rw [hdecode] at h
    obtain rfl := List.mem_singleton.mp h
    exact oneLine_undecodableMessage number
  | some text =>
    rw [hdecode] at h
    rw [eq_encode_of_decode? hdecode, lineFeed_mem_encode_iff] at hfeed
    exact oneLine_of_mem_events hfeed h

/-- **Everything that is written for an input** takes up lines of its own. -/
theorem oneLine_of_mem_inputEvents {bytes : List UInt8} {event : Event}
    (h : event ∈ inputEvents tokens bytes) : OneLine event.line := by
  rw [inputEvents, eventsFrom, List.mem_flatMap] at h
  obtain ⟨⟨piece, number⟩, hpiece, hevent⟩ := h
  have hmem : piece ∈ bytePieces bytes := List.fst_mem_of_mem_zipIdx hpiece
  exact oneLine_of_mem_events_ofPiece (notMem_of_mem_splitOn hmem) hevent

/-- The line of output for a piece of input, unless the piece is no text or blank. -/
def answerLine? (tokens : Bool) (piece : List UInt8) : Option String :=
  (decode? piece).bind fun text =>
    if trim text = "" then none
    else
      match answer tokens (trim text) with
      | .ok shown => some shown
      | .error fault => some fault.kind.label

theorem filterMap_outputLine?_events (piece : List UInt8) (number : Nat) :
    (events { tokens } (ofPiece piece number)).filterMap Event.outputLine?
      = (answerLine? tokens piece).toList := by
  rw [ofPiece, answerLine?]
  cases decode? piece with
  | none => rfl
  | some text =>
    simp only [events_line, Option.bind_some]
    split
    · rfl
    · cases answer tokens (trim text) <;> rfl

/-- Nothing is complained of when a piece is a text that is blank or is answered. -/
theorem any_isComplaint_events (piece : List UInt8) (number : Nat) :
    (events { tokens } (ofPiece piece number)).any Event.isComplaint = false ↔
      ∃ text, decode? piece = some text ∧ ((∀ character ∈ text.toList, isBlank character) ∨
        ∃ shown, answer tokens (trim text) = .ok shown) := by
  rw [ofPiece]
  cases decode? piece with
  | none => simp [events, Event.isComplaint]
  | some text =>
    simp only [events_line, Option.some.injEq, exists_eq_left', ← trim_eq_empty_iff]
    split
    · next hblank => simp [hblank]
    · next hblank =>
      cases answer tokens (trim text) <;> simp [hblank, answerEvents, Event.isComplaint]

/-- **The lines of output** are those of the pieces, in order. -/
theorem filterMap_outputLine?_inputEvents (bytes : List UInt8) :
    (inputEvents tokens bytes).filterMap Event.outputLine?
      = (bytePieces bytes).filterMap (answerLine? tokens) := by
  rw [inputEvents]
  generalize 1 = number
  induction bytePieces bytes generalizing number with
  | nil => rfl
  | cons piece pieces ih =>
    rw [eventsFrom_cons, List.filterMap_append, filterMap_outputLine?_events, ih]
    cases hline : answerLine? tokens piece <;> simp [hline]

/-- **All goes well** when each piece is a text that is blank or is answered. -/
theorem any_isComplaint_inputEvents (bytes : List UInt8) :
    (inputEvents tokens bytes).any Event.isComplaint = false ↔
      ∀ piece ∈ bytePieces bytes, ∃ text, decode? piece = some text ∧
        ((∀ character ∈ text.toList, isBlank character) ∨
          ∃ shown, answer tokens (trim text) = .ok shown) := by
  rw [inputEvents]
  generalize 1 = number
  induction bytePieces bytes generalizing number with
  | nil => simp [eventsFrom]
  | cons piece pieces ih =>
    rw [eventsFrom_cons, List.any_append, Bool.or_eq_false_iff, any_isComplaint_events, ih,
      List.forall_mem_cons]

end Entry

namespace Response

theorem standardOutput_eq (response : Response) :
    response.standardOutput = unlines (response.events.filterMap Event.outputLine?) :=
  join_map_eq_unlines Event.outputText_eq response.events

theorem standardError_eq (response : Response) :
    response.standardError = unlines (response.events.filterMap Event.errorLine?) :=
  join_map_eq_unlines Event.errorText_eq response.events

theorem exitCode_ofEvents_eq_one_iff {events : List Event} :
    (ofEvents events).exitCode = 1 ↔ events.any Event.isComplaint := by
  simp [ofEvents]

theorem exitCode_ofEvents_eq_zero_iff {events : List Event} :
    (ofEvents events).exitCode = 0 ↔ events.any Event.isComplaint = false := by
  simp [ofEvents]

theorem ofArguments_eq_ofEvents {arguments : List String}
    (h : Options.ofArguments arguments = .ok { tokens }) (contents? : Option (List UInt8))
    (bytes : List UInt8) :
    ofArguments arguments contents? bytes = ofEvents (Entry.inputEvents tokens bytes) := by
  rw [ofArguments_standardInput h, ofEntries, Entry.flatMap_events_ofInput]

/-- **Each line of output** is that of a line of input, in order. -/
theorem splitOn_standardOutput (bytes : List UInt8) :
    (ofEvents (Entry.inputEvents tokens bytes)).standardOutput.toList.splitOn '\n'
      = ((bytePieces bytes).filterMap (Entry.answerLine? tokens)).map String.toList ++ [[]] := by
  rw [standardOutput_eq, ← Entry.filterMap_outputLine?_inputEvents, splitOn_unlines]
  · rfl
  · intro line hline
    obtain ⟨event, hevent, houtput⟩ := List.mem_filterMap.mp hline
    rw [← Event.line_of_outputLine? houtput]
    exact Entry.oneLine_of_mem_inputEvents hevent

/-- Raising the numbers in what is written raises them in standard error. -/
theorem unlines_errorLines_raise (count : Nat) (bytes : List UInt8) :
    unlines (((Entry.inputEvents tokens bytes).map (Event.raise count)).filterMap
        Event.errorLine?)
      = raiseLineNumbers count (ofEvents (Entry.inputEvents tokens bytes)).standardError := by
  have hlines : ((Entry.inputEvents tokens bytes).map (Event.raise count)).filterMap
        Event.errorLine?
      = ((Entry.inputEvents tokens bytes).filterMap Event.errorLine?).map
          (raiseLineNumber count) := by
    rw [List.filterMap_map, List.map_filterMap]
    exact List.filterMap_congr fun event _ => Event.errorLine?_raise count event
  rw [hlines, raiseLineNumbers, standardError_eq, mapLines_unlines]
  · rfl
  · rfl
  · intro line hline
    obtain ⟨event, hevent, herror⟩ := List.mem_filterMap.mp hline
    rw [← Event.line_of_errorLine? herror]
    exact Entry.oneLine_of_mem_inputEvents hevent

/-- **Lines of standard input are independent**, with token streams or with values.  Two inputs with
a line feed between them are answered one after the other on both channels, the numbers of the
second one's lines raised by how many lines the first one has, and the exit code is 1 when it is for
one of them.  There is one line of output for each line of input that is a text and not blank, in
order, and the exit code is 0 when every line is a text that is blank or is answered. -/
theorem ofArguments_append {arguments : List String}
    (harguments : Options.ofArguments arguments = .ok { tokens })
    (contents? : Option (List UInt8)) :
    let run := ofArguments arguments contents?
    (∀ front back,
      (run (front ++ 10 :: back)).standardOutput
          = (run front).standardOutput ++ (run back).standardOutput ∧
        (run (front ++ 10 :: back)).standardError
          = (run front).standardError
            ++ raiseLineNumbers (front.count 10 + 1) (run back).standardError ∧
        ((run (front ++ 10 :: back)).exitCode = 1
          ↔ (run front).exitCode = 1 ∨ (run back).exitCode = 1)) ∧
    ∀ bytes,
      (run bytes).standardOutput.toList.splitOn '\n'
          = ((bytePieces bytes).filterMap (Entry.answerLine? tokens)).map String.toList ++ [[]] ∧
        ((run bytes).exitCode = 0 ↔
          ∀ piece ∈ bytePieces bytes, ∃ text, decode? piece = some text ∧
            ((∀ character ∈ text.toList, isBlank character) ∨
              ∃ shown, answer tokens (trim text) = .ok shown)) := by
  intro run
  have hrun : ∀ bytes, run bytes = ofEvents (Entry.inputEvents tokens bytes) :=
    ofArguments_eq_ofEvents harguments contents?
  simp only [hrun]
  constructor
  · intro front back
    rw [Entry.inputEvents_append]
    refine ⟨?_, ?_, ?_⟩
    · simp only [standardOutput_eq, ofEvents, List.filterMap_append, unlines_append]
      simp
    · rw [← unlines_errorLines_raise]
      simp only [standardError_eq, ofEvents, List.filterMap_append, unlines_append]
    · have hraise : (Event.isComplaint ∘ Event.raise (front.count 10 + 1)) = Event.isComplaint :=
        funext (Event.isComplaint_raise _)
      simp only [exitCode_ofEvents_eq_one_iff, List.any_append, List.any_map, hraise,
        Bool.or_eq_true]
  · intro bytes
    refine ⟨splitOn_standardOutput bytes, ?_⟩
    rw [exitCode_ofEvents_eq_zero_iff, Entry.any_isComplaint_inputEvents]

/-- Behind two lines, the second line of `2` and a byte that encodes nothing is the fourth. -/
theorem ofArguments_append_fourth_line :
    let run := ofArguments [] none
    (run ([0x31, 10, 0xFF] ++ 10 :: [0x32, 10, 0xFF])).standardOutput = "1\n" ++ "2\n" ∧
      (run ([0x31, 10, 0xFF] ++ 10 :: [0x32, 10, 0xFF])).standardError
        = "Line 2 of standard input is not valid UTF-8.\n"
          ++ "Line 4 of standard input is not valid UTF-8.\n" := by
  intro run
  have harguments : Options.ofArguments [] = .ok { tokens := false } := rfl
  obtain ⟨houtput, herror, -⟩ :=
    (ofArguments_append harguments none).1 [0x31, 10, 0xFF] [0x32, 10, 0xFF]
  constructor
  · rw [houtput]
    decide +kernel
  · rw [herror]
    decide +kernel

end Response

end Reckoner

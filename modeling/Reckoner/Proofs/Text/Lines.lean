/-
# Lines of a text and of its bytes

A text can be cut into lines before it is encoded or afterwards.  The two ways agree, for the byte
of a line feed is part of no other character (`Text.lineFeed_mem_utf8EncodeChar_iff`): the pieces
of the bytes are the encoded pieces of the text (`Text.bytePieces_encode`).

What is left of a difference between the lines of a file and the pieces of standard input is a
carriage return at the end of a line, which trimming takes away (`Text.trim_dropReturn`).

The other way, lines are put one below the other, each ended by a line feed (`Text.unlines`).  They
can be told apart again, and changed one by one, if none has a line feed of its own
(`Text.splitOn_unlines`, `Text.mapLines_unlines`).
-/
import Mathlib.Data.List.TakeWhile
import Reckoner.Text.Blank
import Reckoner.Text.Lines

namespace Reckoner.Text

/-! ## 1. Pieces of a list -/

section Pieces

variable {α : Type} [BEq α] {separator : α} {row piece : List α}

theorem notMem_of_mem_splitOn [LawfulBEq α] (h : piece ∈ row.splitOn separator) :
    separator ∉ piece := by
  induction row generalizing piece with
  | nil =>
    obtain rfl : piece = [] := by simpa using h
    simp
  | cons first rest ih =>
    rw [List.splitOn_cons_eq_if_modifyHead] at h
    split at h
    · rcases List.mem_cons.mp h with rfl | hrest
      · simp
      · exact ih hrest
    · next hfirst =>
      obtain ⟨head, tail, hpieces⟩ :=
        List.exists_cons_of_ne_nil (List.splitOn_ne_nil separator rest)
      rw [hpieces, List.modifyHead_cons] at h
      rcases List.mem_cons.mp h with rfl | htail
      · have hhead : separator ∉ head := ih (by simp [hpieces])
        have hne : first ≠ separator := by simpa using hfirst
        simp [hhead, hne.symm]
      · exact ih (by simp [hpieces, htail])

theorem length_splitOn (separator : α) (row : List α) :
    (row.splitOn separator).length = row.count separator + 1 := by
  induction row with
  | nil => simp
  | cons first rest ih =>
    rw [List.splitOn_cons_eq_if_modifyHead, List.count_cons]
    split <;> simp [ih]

end Pieces

/-! ## 2. Encoding -/

/-- The bytes of a text. -/
def encode (text : String) : List UInt8 := text.toByteArray.data.toList

theorem encode_ofList (characters : List Char) :
    encode (String.ofList characters) = characters.flatMap String.utf8EncodeChar := by
  simp [encode, List.utf8Encode]

theorem encode_eq_flatMap (text : String) :
    encode text = text.toList.flatMap String.utf8EncodeChar := by
  rw [← encode_ofList, String.ofList_toList]

theorem decode?_encode (text : String) : decode? (encode text) = some text := by
  have hbytes : (encode text).toByteArray = text.toByteArray := by
    refine ByteArray.ext (Array.toList_inj.mp ?_)
    simp [encode]
  rw [decode?, hbytes, String.fromUTF8?, dif_pos text.isValidUTF8]
  rfl

/-- What is decoded are the bytes of the text. -/
theorem eq_encode_of_decode? {bytes : List UInt8} {text : String} (h : decode? bytes = some text) :
    bytes = encode text := by
  rw [decode?, String.fromUTF8?] at h
  split at h
  · obtain rfl := Option.some.inj h
    simp [encode, String.fromUTF8]
  · cases h

/-- **The byte of a line feed** is part of no other character. -/
theorem lineFeed_mem_utf8EncodeChar_iff {character : Char} :
    10 ∈ String.utf8EncodeChar character ↔ character = '\n' := by
  constructor
  · intro h
    obtain ⟨i, hi, hbyte⟩ := List.getElem_of_mem h
    -- only a first byte is below 128, and this one is decoded as a line feed
    have hfirst : (String.utf8EncodeChar character)[i].IsUTF8FirstByte := by
      rw [hbyte]
      decide
    obtain rfl := UInt8.isUTF8FirstByte_getElem_utf8EncodeChar.mp hfirst
    obtain ⟨first, rest, hencoded⟩ := List.exists_cons_of_length_pos hi
    obtain rfl : first = 10 := by simpa [hencoded] using hbyte
    have hbytes : (String.utf8EncodeChar character).toByteArray ++ ByteArray.empty
        = (String.utf8EncodeChar '\n').toByteArray ++ rest.toByteArray := by
      have hfeed : String.utf8EncodeChar '\n' = [10] := by decide
      rw [ByteArray.append_empty, hencoded, hfeed, ← List.toByteArray_append, List.singleton_append]
    have hcharacter :=
      ByteArray.utf8DecodeChar?_utf8EncodeChar_append (b := .empty) (c := character)
    rw [hbytes, ByteArray.utf8DecodeChar?_utf8EncodeChar_append] at hcharacter
    exact (Option.some.inj hcharacter).symm
  · rintro rfl
    decide

theorem lineFeed_mem_encode_iff {text : String} : 10 ∈ encode text ↔ '\n' ∈ text.toList := by
  simp only [encode_eq_flatMap, List.mem_flatMap, lineFeed_mem_utf8EncodeChar_iff, exists_eq_right]

/-- Each piece between separators can be turned into other things by itself. -/
theorem flatMap_intercalate {α β : Type} (f : α → List β) (separator : List α)
    (pieces : List (List α)) :
    (separator.intercalate pieces).flatMap f
      = (separator.flatMap f).intercalate (pieces.map (·.flatMap f)) := by
  induction pieces with
  | nil => simp
  | cons piece pieces ih =>
    cases pieces with
    | nil => simp
    | cons next pieces =>
      rw [List.intercalate_cons_cons, List.flatMap_append, List.flatMap_append, ih]
      simp only [List.map_cons, List.intercalate_cons_cons]

/-- **The pieces of the bytes** of a text are the bytes of its pieces. -/
theorem bytePieces_encode (text : String) :
    bytePieces (encode text)
      = (text.toList.splitOn '\n').map fun piece => encode (String.ofList piece) := by
  have hbytes : encode text
      = [10].intercalate ((text.toList.splitOn '\n').map (·.flatMap String.utf8EncodeChar)) := by
    calc encode text
        = (['\n'].intercalate (text.toList.splitOn '\n')).flatMap String.utf8EncodeChar := by
          rw [List.intercalate_splitOn, encode_eq_flatMap]
      _ = _ := flatMap_intercalate _ _ _
  have hpieces : ∀ piece ∈ (text.toList.splitOn '\n').map (·.flatMap String.utf8EncodeChar),
      10 ∉ piece := by
    intro bytes hmem hfeed
    obtain ⟨piece, hpiece, rfl⟩ := List.mem_map.mp hmem
    rw [← encode_ofList, lineFeed_mem_encode_iff, String.toList_ofList] at hfeed
    exact notMem_of_mem_splitOn hpiece hfeed
  simp only [encode_ofList]
  rw [bytePieces, hbytes, List.splitOn_intercalate 10 hpieces (by simp)]

/-! ## 3. Trimming -/

/-- Nothing is left of a text when it has only blanks. -/
theorem trim_eq_empty_iff {text : String} :
    trim text = "" ↔ ∀ character ∈ text.toList, isBlank character := by
  rw [trim, String.ofList_eq_empty_iff, trimEnd, List.reverse_eq_nil_iff,
    List.dropWhile_eq_nil_iff]
  simp only [List.mem_reverse]
  constructor
  · intro h
    rw [← List.dropWhile_eq_nil_iff]
    by_contra hne
    -- what is left begins with a character that is not blank
    have hfirst := List.head_dropWhile_not isBlank hne
    rw [h _ (List.head_mem hne)] at hfirst
    cases hfirst
  · intro h character hmem
    exact h character ((List.dropWhile_suffix _).subset hmem)

theorem trim_concat {character : Char} (h : isBlank character) (line : List Char) :
    trim (String.ofList (line ++ [character])) = trim (String.ofList line) := by
  have hend : ∀ characters, trimEnd (characters ++ [character]) = trimEnd characters := by
    intro characters
    simp [trimEnd, h]
  rw [trim, trim, String.toList_ofList, String.toList_ofList, List.dropWhile_append]
  split
  · next hblank =>
    rw [List.isEmpty_iff] at hblank
    simp [hblank, h, trimEnd]
  · rw [hend]

/-- **A carriage return at the end of a line** makes no difference once the line is trimmed. -/
theorem trim_dropReturn (line : List Char) :
    trim (String.ofList (dropReturn line)) = trim (String.ofList line) := by
  rw [dropReturn]
  split
  · next hreturn =>
    obtain ⟨front, rfl⟩ : ∃ front, line = front ++ ['\r'] := by
      obtain ⟨front, hfront⟩ := List.getLast?_eq_some_iff.mp hreturn
      exact ⟨front, hfront⟩
    rw [List.dropLast_concat, trim_concat (by decide)]
  · rfl

/-! ## 4. Texts of one line -/

/-- A text that takes up a single line. -/
def OneLine (text : String) : Prop := '\n' ∉ text.toList

instance (text : String) : Decidable (OneLine text) := inferInstanceAs (Decidable (_ ∉ _))

theorem oneLine_append {text text' : String} :
    OneLine (text ++ text') ↔ OneLine text ∧ OneLine text' := by
  simp [OneLine]

theorem oneLine_toString (number : Nat) : OneLine (toString number) := by
  intro hfeed
  have hmem : '\n' ∈ Nat.toDigits 10 number := by
    rwa [Nat.toString_eq_ofList_toDigits, String.toList_ofList] at hfeed
  have hdigit : '\n'.isDigit := Nat.isDigit_of_mem_toDigits (by decide) (by decide) hmem
  cases hdigit

theorem OneLine.trim {line : String} (h : OneLine line) : OneLine (Text.trim line) := by
  intro hfeed
  rw [Text.trim, String.toList_ofList, trimEnd, List.mem_reverse] at hfeed
  have hmem := (List.dropWhile_suffix _).subset hfeed
  exact h ((List.dropWhile_suffix _).subset (List.mem_reverse.mp hmem))

theorem oneLine_intercalate {separator : String} (hseparator : OneLine separator)
    {texts : List String} (h : ∀ text ∈ texts, OneLine text) :
    OneLine (separator.intercalate texts) := by
  induction texts with
  | nil => simp [OneLine]
  | cons first rest ih =>
    obtain ⟨hfirst, hrest⟩ := List.forall_mem_cons.mp h
    cases rest with
    | nil => simpa using hfirst
    | cons second rest =>
      rw [String.intercalate_cons_cons, oneLine_append, oneLine_append]
      exact ⟨⟨hfirst, hseparator⟩, ih hrest⟩

/-! ## 5. Lines one below the other -/

/-- Some lines one below the other, each ended by a line feed. -/
def unlines (lines : List String) : String := String.join (lines.map (· ++ "\n"))

/-- A text in which each line has been changed by itself. -/
def mapLines (change : String → String) (text : String) : String :=
  "\n".intercalate ((text.toList.splitOn '\n').map fun line => change (String.ofList line))

theorem unlines_cons (line : String) (lines : List String) :
    unlines (line :: lines) = line ++ "\n" ++ unlines lines := by
  simp [unlines]

theorem unlines_append (front lines : List String) :
    unlines (front ++ lines) = unlines front ++ unlines lines := by
  simp [unlines]

/-- What writes a line or nothing each time writes lines one below the other. -/
theorem join_map_eq_unlines {α : Type} {write : α → String} {line? : α → Option String}
    (h : ∀ item, write item = unlines (line? item).toList) (items : List α) :
    String.join (items.map write) = unlines (items.filterMap line?) := by
  induction items with
  | nil => rfl
  | cons item items ih =>
    rw [List.map_cons, String.join_cons, ih, h]
    cases hline : line? item <;> simp [hline, unlines]

/-- **Lines can be told apart** again if each is one, and behind the last line feed there is
nothing. -/
theorem splitOn_unlines {lines : List String} (h : ∀ line ∈ lines, OneLine line) :
    (unlines lines).toList.splitOn '\n' = lines.map String.toList ++ [[]] := by
  induction lines with
  | nil => rfl
  | cons line lines ih =>
    obtain ⟨hline, hlines⟩ := List.forall_mem_cons.mp h
    have htext : (unlines (line :: lines)).toList
        = line.toList ++ '\n' :: (unlines lines).toList := by
      simp [unlines_cons]
    rw [htext, List.splitOn_append_cons_self_of_not_mem hline, ih hlines]
    rfl

theorem intercalate_concat_empty (lines : List String) :
    "\n".intercalate (lines ++ [""]) = unlines lines := by
  induction lines with
  | nil => rfl
  | cons line lines ih =>
    rw [List.cons_append, String.intercalate_cons_of_ne_nil (by simp), ih, unlines_cons]

/-- What is done to each line of a text is done to the lines that it was put together from. -/
theorem mapLines_unlines {change : String → String} (hempty : change "" = "")
    {lines : List String} (h : ∀ line ∈ lines, OneLine line) :
    mapLines change (unlines lines) = unlines (lines.map change) := by
  have hlines : (lines.map String.toList).map (fun line => change (String.ofList line))
      = lines.map change := by
    rw [List.map_map]
    exact List.map_congr_left fun line _ => by simp
  rw [mapLines, splitOn_unlines h, List.map_append, hlines, ← intercalate_concat_empty]
  simp [hempty]

end Reckoner.Text

/-
# A token stream can be typed in again

A token stream shows what has been read of a line.  Without the spaces between its tokens it is a
line again, and that line is read as the same tokens (`Calculator.tokens_streamText`), if each of
them can be typed:

* **everything has a meaning**, so that no character is shown as it came;
* **numbers are finite**, for the others are shown as words;
* **no operator stands in front of a zero**, for that zero, however it was written, is shown as `0`.

The rest holds of every token stream.  No number has a sign (`Token.isTypable_of_read`), and so
each is shown by digits and points alone.  No two numbers stand side by side, so that digits do not
run together when the spaces go, and all products are written, so that none is understood a second
time (`Token.read_typed`).
-/
import Reckoner.Proofs.Calculator.Display
import Reckoner.Proofs.Calculator.Numerals
import Reckoner.Proofs.Machine.Safety
import Reckoner.Proofs.Reading.Products

namespace Reckoner

/-! ## 1. Tokens as they are typed -/

theorem Binary64.write_stream {quanta : Nat} (h : Representable quanta) :
    write .stream (.finite false quanta h) = String.ofList (shortest quanta).text := by
  simp [write, signText]

theorem Binary64.ofText?_write_stream {quanta : Nat} (h : Representable quanta) :
    ofText? (write .stream (.finite false quanta h)) = some (.finite false quanta h) := by
  rw [write_stream, ofText?_shortest h]

namespace Token

/-- The lexeme that a token is shown as. -/
def lexeme : Token → Lexeme := Symbol.map (Binary64.write .stream)

/-- Whether this is no number, or a finite one. -/
def isFinite : Token → Bool
  | .number value => value.isFinite
  | _ => true

/-- Whether a token is shown as it can be typed: a number has no sign and is no word. -/
def IsTypable : Token → Prop
  | .number value => ∃ quanta h, value = .finite false quanta h
  | .unknown _ => False
  | .operator _ | .negation | .opening | .closing => True

variable {token : Token}

theorem text_lexeme (token : Token) : token.lexeme.text = token.text := by
  cases token <;> rfl

theorem IsTypable.wellFormed (h : token.IsTypable) : token.lexeme.WellFormed := by
  cases token with
  | number value =>
    obtain ⟨quanta, hquanta, rfl⟩ := h
    rw [lexeme, Symbol.map, Binary64.write_stream]
    exact Lexeme.wellFormed_of_isPlain (Binary64.shortest quanta).isPlain_text
  | unknown character => exact h.elim
  | operator | negation | opening | closing => trivial

theorem IsTypable.isReadable (h : token.IsTypable) : token.lexeme.isReadable := by
  cases token with
  | number value =>
    obtain ⟨quanta, hquanta, rfl⟩ := h
    rw [lexeme, Symbol.map, Lexeme.isReadable, Binary64.ofText?_write_stream]
    rfl
  | unknown character => exact h.elim
  | operator | negation | opening | closing => rfl

theorem IsTypable.token_lexeme (h : token.IsTypable) : token.lexeme.token = token := by
  cases token with
  | number value =>
    obtain ⟨quanta, hquanta, rfl⟩ := h
    rw [lexeme, Symbol.map, Lexeme.token, Symbol.map, Binary64.ofText?_write_stream]
    rfl
  | unknown character => exact h.elim
  | operator | negation | opening | closing => rfl

theorem IsTypable.notMem_text (h : token.IsTypable) : ' ' ∉ token.text.toList := by
  intro hspace
  rw [← text_lexeme] at hspace
  have hnumeral := h.wellFormed.isNumeral_eq _ hspace
  cases token with
  | number value => cases hnumeral
  | unknown character => exact h.elim
  | operator op =>
    simp only [lexeme, Symbol.map, Lexeme.text, Symbol.text] at hspace
    cases op <;> simp [Operator.glyph] at hspace
  | negation | opening | closing => simp [lexeme, Symbol.map, Lexeme.text, Symbol.text] at hspace

end Token

/-! ## 2. Tokens of a line -/

namespace Token

/-- **The tokens of a line can be typed** when they have a meaning and their numbers are
finite. -/
theorem isTypable_of_read {line : String} {tokens : List (Placed Token)}
    (h : read (Lexeme.scan line) = .ok tokens) (hplain : Symbol.Plain (tokens.map Placed.item))
    (hfinite : ∀ token ∈ tokens.map Placed.item, token.isFinite) :
    ∀ token ∈ tokens.map Placed.item, token.IsTypable := by
  intro token hmem
  cases token with
  | number value =>
    obtain ⟨text, hnumerals, hvalue⟩ := exists_text_of_read h hmem
    exact (Binary64.isRounding_of_ofText? hnumerals hvalue).positive (hfinite _ hmem)
  | unknown character => cases hplain _ hmem
  | operator | negation | opening | closing => trivial

end Token

/-! ## 3. Rows that are typed -/

namespace Token

/-- An operator in front of a number that is zero. -/
def ZeroOperand (here next : Token) : Prop :=
  (∃ op, here = .operator op) ∧ ∃ value, next = .number value ∧ value.isZero

/-- The row of the line in which tokens are typed without spaces. -/
def typed (tokens : List Token) : List (Placed Lexeme) := Lexeme.placeFrom 0 (tokens.map lexeme)

variable {tokens : List Token}

theorem items_typed (tokens : List Token) :
    (typed tokens).map Placed.item = tokens.map lexeme :=
  Lexeme.items_placeFrom 0 _

theorem exists_of_mem_typed {here : Placed Lexeme} (h : here ∈ typed tokens) :
    ∃ token ∈ tokens, token.lexeme = here.item := by
  have hitem : here.item ∈ tokens.map lexeme := by
    rw [← items_typed]
    exact List.mem_map_of_mem h
  exact List.mem_map.mp hitem

/-- A number that is shown as `0` is zero. -/
theorem zeroOperand_of_lexeme {here next : Token} (hnext : next.IsTypable)
    (h : Lexeme.ZeroOperand here.lexeme next.lexeme) : ZeroOperand here next := by
  obtain ⟨⟨op, hoperator⟩, hnumber⟩ := h
  constructor
  · cases here with
    | operator op' => exact ⟨op', rfl⟩
    | number | negation | opening | closing | unknown => cases hoperator
  · cases next with
    | number value =>
      obtain ⟨quanta, hquanta, rfl⟩ := hnext
      have htext : Binary64.write .stream (.finite false quanta hquanta) = "0" :=
        Symbol.number.inj hnumber
      have hzero : Binary64.ofText? "0" = some (.zero false) := by decide +kernel
      have hvalue := Binary64.ofText?_write_stream hquanta
      rw [htext, hzero] at hvalue
      exact ⟨_, rfl, Option.some.inj hvalue ▸ rfl⟩
    | operator | negation | opening | closing | unknown => cases hnumber

/-- **The line of tokens** is scanned into their lexemes, if no operand meets another. -/
theorem isScanned_typed (htypable : ∀ token ∈ tokens, token.IsTypable)
    (hlinked : Symbol.Linked false none tokens) : Lexeme.IsScanned (typed tokens) where
  wellFormed := by
    intro here hmem
    obtain ⟨token, htoken, hitem⟩ := exists_of_mem_typed hmem
    exact hitem ▸ (htypable token htoken).wellFormed
  apart := by
    rw [items_typed, List.isChain_map]
    refine hlinked.isChain.imp fun here next hoperands hnumbers => hoperands ?_
    cases here with
    | number value =>
      cases next with
      | number value' => exact ⟨rfl, rfl⟩
      | operator | negation | opening | closing | unknown => cases hnumbers.2
    | operator | negation | opening | closing | unknown => cases hnumbers.1
  offsets := by
    refine Lexeme.offset_eq_of_placeFrom ?_
    rw [items_typed]
    rfl

/-- **A row in which tokens are typed** is read as these tokens. -/
theorem read_typed (htypable : ∀ token ∈ tokens, token.IsTypable)
    (hderives : Derives false .expression tokens)
    (hzero : tokens.IsChain fun here next => ¬ZeroOperand here next) :
    ∃ placed, read (typed tokens) = .ok placed ∧ placed.map Placed.item = tokens := by
  obtain ⟨-, hlinked, hdepth⟩ := derives_iff_linked.mp hderives
  have hstrict : Symbol.Linked false none ((typed tokens).map Placed.item) := by
    rw [items_typed]
    exact (Symbol.linked_map _ none tokens).mpr hlinked
  have hchain : ((typed tokens).map Placed.item).IsChain
      fun here next => ¬Lexeme.ZeroOperand here next := by
    rw [items_typed, List.isChain_map]
    refine hzero.imp_of_mem_imp fun here next _ hnext hnot hzero => hnot ?_
    exact zeroOperand_of_lexeme (htypable next hnext) hzero
  have hreadable : ∀ here ∈ typed tokens, here.item.isReadable := by
    intro here hmem
    obtain ⟨token, htoken, hitem⟩ := exists_of_mem_typed hmem
    exact hitem ▸ (htypable token htoken).isReadable
  have hopened : (typed tokens).foldlM Reading.enclose [] = some [] := by
    rw [Reading.foldlM_enclose_nil_iff, items_typed]
    exact (Symbol.depthAfter_map _ 0 tokens).trans hdepth
  obtain ⟨hne, horder⟩ := inOrder_start_iff.mpr ⟨hstrict.loosen, hchain⟩
  refine ⟨_, read_eq_ok_iff.mpr ⟨hne, horder, hreadable, hopened, rfl⟩, ?_⟩
  rw [Reading.items_tokensFrom, Lexeme.spellProductsFrom_of_linked hstrict, items_typed,
    List.map_map]
  calc tokens.map (Lexeme.token ∘ lexeme)
      = tokens.map id := List.map_congr_left fun token hmem => (htypable token hmem).token_lexeme
    _ = tokens := List.map_id tokens

end Token

/-! ## 4. Lines -/

/-- A text without its spaces. -/
def Text.dropSpaces (text : String) : String := String.ofList (text.toList.filter (· ≠ ' '))

/-- What is left of texts with spaces between them. -/
theorem Text.dropSpaces_intercalate {texts : List String} (h : ∀ text ∈ texts, ' ' ∉ text.toList) :
    dropSpaces (" ".intercalate texts) = String.join texts := by
  rw [← String.toList_inj, dropSpaces, String.toList_ofList]
  induction texts with
  | nil => rfl
  | cons text texts ih =>
    obtain ⟨htext, htexts⟩ := List.forall_mem_cons.mp h
    have hkeep : text.toList.filter (· ≠ ' ') = text.toList := by
      refine List.filter_eq_self.mpr fun character hmem => ?_
      have hne : character ≠ ' ' := fun hspace => htext (hspace ▸ hmem)
      simpa using hne
    cases texts with
    | nil => simpa using hkeep
    | cons next texts =>
      rw [String.intercalate_cons_cons, String.join_cons, String.toList_append,
        String.toList_append, String.toList_append, List.filter_append, List.filter_append, hkeep,
        ih htexts]
      have hspace : " ".toList.filter (· ≠ ' ') = [] := by decide
      rw [hspace, List.append_nil]

variable {line : String} {tokens : List (Placed Token)}

/-- A token stream depends on the symbols of the tokens alone. -/
theorem Token.streamText_eq (tokens : List (Placed Token)) :
    streamText tokens = " ".intercalate ((tokens.map Placed.item).map text) := by
  rw [List.map_map]
  rfl

/-- The line of tokens is what their stream shows, without the spaces. -/
theorem Token.lineOf_typed (h : ∀ token ∈ tokens.map Placed.item, token.IsTypable) :
    Lexeme.lineOf (typed (tokens.map Placed.item)) = Text.dropSpaces (streamText tokens) := by
  have hspaces : ∀ shown ∈ (tokens.map Placed.item).map text, ' ' ∉ shown.toList := by
    intro shown hmem
    obtain ⟨token, htoken, rfl⟩ := List.mem_map.mp hmem
    exact (h token htoken).notMem_text
  have htexts : ((tokens.map Placed.item).map lexeme).map Lexeme.text
      = (tokens.map Placed.item).map text := by
    rw [List.map_map]
    exact List.map_congr_left fun token _ => text_lexeme token
  rw [streamText_eq, Text.dropSpaces_intercalate hspaces, Lexeme.lineOf_eq_join, items_typed,
    htexts]

namespace Calculator

/-- The value of a line is that of the tree of its tokens. -/
theorem evaluate_of_tree (calculator : Calculator) (hread : Calculator.tokens line = .ok tokens)
    {tree : Expression}
    (htree : Expression.ofTokens? calculator.ranks (tokens.map Placed.item) = some tree) :
    calculator.evaluate line = .ok tree.value := by
  rw [evaluate, hread]
  exact congrArg (Except.mapError _) (Token.value_of_ofTokens? htree)

/-- **A token stream can be typed in again.**  Let a line be read as tokens that all have a meaning,
with numbers that are finite and no operator in front of a zero.  What the token stream shows,
without its spaces, is read as the same tokens.  So it has the value of the line, whatever the
ranks, and its own token stream shows the same. -/
theorem tokens_streamText (hread : Calculator.tokens line = .ok tokens)
    (hplain : Symbol.Plain (tokens.map Placed.item))
    (hfinite : ∀ token ∈ tokens.map Placed.item, token.isFinite)
    (hzero : (tokens.map Placed.item).IsChain fun here next => ¬Token.ZeroOperand here next) :
    ∃ tokens', Calculator.tokens (Text.dropSpaces (Token.streamText tokens)) = .ok tokens' ∧
      tokens'.map Placed.item = tokens.map Placed.item ∧
      (∀ calculator : Calculator, ∃ value, calculator.evaluate line = .ok value ∧
        calculator.evaluate (Text.dropSpaces (Token.streamText tokens)) = .ok value) ∧
      Token.streamText tokens' = Token.streamText tokens := by
  have hlexemes := Token.plain_of_read hread hplain
  have htypable := Token.isTypable_of_read hread hplain hfinite
  have hderives := Token.derives_of_read hlexemes hread
  obtain ⟨-, hlinked, -⟩ := derives_iff_linked.mp hderives
  obtain ⟨tokens', hread', hitems⟩ := Token.read_typed htypable hderives hzero
  have htokens' : Calculator.tokens (Text.dropSpaces (Token.streamText tokens)) = .ok tokens' := by
    rw [Calculator.tokens, ← Token.lineOf_typed htypable,
      (Token.isScanned_typed htypable hlinked).scan_lineOf]
    exact hread'
  refine ⟨tokens', htokens', hitems, ?_, ?_⟩
  · intro calculator
    obtain ⟨tree, htree⟩ := Token.ofTokens?_of_read calculator.ranks hlexemes hread
    exact ⟨tree.value, calculator.evaluate_of_tree hread htree,
      calculator.evaluate_of_tree htokens' (hitems.symm ▸ htree)⟩
  · rw [Token.streamText_eq, Token.streamText_eq, hitems]

/-- The tokens of `0.0(1.50)−-3` are typed with a product and fewer digits. -/
theorem tokens_streamText_understood_product :
    ∃ tokens tokens', Calculator.tokens "0.0(1.50)−-3" = .ok tokens ∧
      Text.dropSpaces (Token.streamText tokens) = "0×(1.5)−-3" ∧
      Calculator.tokens "0×(1.5)−-3" = .ok tokens' ∧
      tokens'.map Placed.item = tokens.map Placed.item ∧
      Token.streamText tokens' = Token.streamText tokens := by
  have hread : Calculator.tokens "0.0(1.50)−-3" = .ok [⟨.number (.zero false), 0⟩,
      ⟨.operator .multiply, 3⟩, ⟨.opening, 3⟩, ⟨.number (.ofBits 0x3FF8000000000000), 4⟩,
      ⟨.closing, 8⟩, ⟨.operator .subtract, 9⟩, ⟨.negation, 12⟩,
      ⟨.number (.ofBits 0x4008000000000000), 13⟩] := by decide +kernel
  obtain ⟨tokens', hread', hitems, -, htext⟩ := tokens_streamText hread
    (by unfold Symbol.Plain; decide +kernel) (by decide +kernel) (by simp [Token.ZeroOperand])
  refine ⟨_, tokens', hread, by decide +kernel, ?_, hitems, htext⟩
  rw [← hread']
  exact congrArg Calculator.tokens (by decide +kernel)

end Calculator

end Reckoner

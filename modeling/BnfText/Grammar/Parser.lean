import BnfText.Symbol.Parser
import BnfText.Grammar.Basic

/-!
# BnfText.Grammar.Parser

Reading a grammar:

    blanks      = (' ' | line feed | tab)*
    term        = terminal | nonterminal
    expression  = term blanks (term blanks)*
    expressions = expression ('|' blanks expression)*
    production  = nonterminal blanks '::=' blanks expressions ';'
    grammar     = production blanks (production blanks)*

A text is a grammar if the last rule reads it to its end (`Grammar.parse`).  The next character
decides everything, so no step ever goes back.  What is read over and over consumes something each
time (`consumes_read` of each type), so every repetition comes to an end.
-/

namespace BnfText

open BnfText.Parser

/-! ## Blanks -/

/-- Takes what may stand between two parts of a grammar. -/
def readBlanks : Parser String := takeWhile isBlank

/-- Reads something and the blanks after it. -/
def thenBlanks {α : Type} (p : Parser α) : Parser α := do
  let a ← p
  let _ ← readBlanks
  return a

/-- Blanks may be absent, so they only advance. -/
theorem advances_readBlanks : Advances readBlanks := advances_takeWhile isBlank

/-- The blanks after something take nothing back of what it consumed. -/
theorem consumes_thenBlanks {α : Type} {p : Parser α} (h : Consumes p) :
    Consumes (thenBlanks p) :=
  h.bind fun _ => advances_readBlanks.bind fun _ => advances_pure _

/-! ## Terms -/

namespace Term

/-- Whether a term begins with `c`. -/
def begins (c : Char) : Bool := (SymbolKind.ofOpening? c).isSome

/-- Reads a term that is a symbol of a kind. -/
def readAs (kind : SymbolKind) : Parser Term := do
  let symbol ← Symbol.read kind
  return ⟨kind, symbol⟩

/-- Reads a term. -/
def read : Parser Term := do
  match (← peek?).bind SymbolKind.ofOpening? with
  | some kind => readAs kind
  | none =>
    unexpected [.char SymbolKind.nonterminal.opening, .char SymbolKind.terminal.opening]

/-- A term consumes what its symbol does. -/
theorem consumes_readAs (kind : SymbolKind) : Consumes (readAs kind) :=
  (Symbol.consumes_read kind).bind fun _ => advances_pure _

/-- A term either begins with the delimiter of a symbol, which is consumed, or it fails. -/
theorem consumes_read : Consumes read := by
  refine advances_peek?.bind_consumes fun next? => ?_
  split
  · exact consumes_readAs _
  · exact consumes_unexpected _

end Term

/-! ## Alternatives -/

namespace Expression

/-- Reads the terms of an alternative, at least one. -/
def readTerms : Parser Expression := do
  let first ← thenBlanks Term.read
  let further ← many Term.begins (thenBlanks Term.read) (consumes_thenBlanks Term.consumes_read)
  return ⟨first :: further⟩

/-- Reads an alternative and the blanks after it. -/
def read : Parser Expression := do
  match ← peek? with
  | some '|' => fail .emptyAlternative
  | some ';' => fail .emptyAlternative
  | _ => readTerms

/-- An alternative consumes its first term; further terms only advance. -/
theorem consumes_readTerms : Consumes readTerms :=
  (consumes_thenBlanks Term.consumes_read).bind fun _ => (advances_many _ _).bind fun _ =>
    advances_pure _

/-- An alternative either fails on a look at the next character or consumes a term. -/
theorem consumes_read : Consumes read := by
  refine advances_peek?.bind_consumes fun next? => ?_
  split
  · exact consumes_fail _
  · exact consumes_fail _
  · exact consumes_readTerms

/-- Reads a bar and the alternative after it. -/
def readAfterBar : Parser Expression := do
  let _ ← expect '|'
  let _ ← readBlanks
  read

/-- The bar is consumed, whatever comes of the alternative after it. -/
theorem consumes_readAfterBar : Consumes readAfterBar :=
  (consumes_expect _).bind fun _ => advances_readBlanks.bind fun _ => consumes_read.advances

/-- Reads the alternatives of a right-hand side, at least one. -/
def readSome : Parser (List Expression) := do
  let first ← read
  let further ← many (· = '|') readAfterBar consumes_readAfterBar
  return first :: further

/-- Reads a right-hand side. -/
def readAll : Parser (List Expression) := do
  match ← peek? with
  | some ';' => fail .noAlternatives
  | _ => readSome

/-- A right-hand side consumes its first alternative. -/
theorem consumes_readSome : Consumes readSome :=
  consumes_read.bind fun _ => (advances_many _ _).bind fun _ => advances_pure _

/-- A right-hand side either fails on a look at the next character or consumes an alternative. -/
theorem consumes_readAll : Consumes readAll := by
  refine advances_peek?.bind_consumes fun next? => ?_
  split
  · exact consumes_fail _
  · exact consumes_readSome

end Expression

/-! ## Productions -/

namespace Production

/-- Whether a production begins with `c`. -/
def begins (c : Char) : Bool := c = SymbolKind.nonterminal.opening

/-- Reads a production. -/
def read : Parser Production := do
  let lhs ← Symbol.read .nonterminal
  let _ ← readBlanks
  let _ ← expectText "::="
  let _ ← readBlanks
  let rhs ← Expression.readAll
  let _ ← expect ';'
  return ⟨lhs, rhs⟩

/-- A production consumes the symbol it is for. -/
theorem consumes_read : Consumes read :=
  (Symbol.consumes_read _).bind fun _ => advances_readBlanks.bind fun _ =>
    (advances_expectText _).bind fun _ => advances_readBlanks.bind fun _ =>
      Expression.consumes_readAll.advances.bind fun _ => (advances_expect _).bind fun _ =>
        advances_pure _

end Production

/-! ## Grammars -/

namespace Grammar

/-- Reads the productions of a grammar, at least one, and the blanks after them. -/
def read : Parser Grammar := do
  let first ← thenBlanks Production.read
  let further ← many Production.begins (thenBlanks Production.read)
    (consumes_thenBlanks Production.consumes_read)
  return ⟨first :: further⟩

/-- Reads a grammar after which the text has to end. -/
def readToEnd : Parser Grammar := do
  let grammar ← read
  match ← peek? with
  | none => return grammar
  | some _ => unexpected [.char SymbolKind.nonterminal.opening, .endOfInput]

/-- The grammar that a text says, or its first fault. -/
def parse (text : String) : Except ParseError Grammar :=
  match readToEnd (.ofText text) with
  | .ok grammar _ => .ok grammar
  | .error fault _ => .error fault

end Grammar

end BnfText

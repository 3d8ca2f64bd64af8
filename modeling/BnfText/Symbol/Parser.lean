import BnfText.Parser
import BnfText.Symbol

/-!
# BnfText.Symbol.Parser

Reading a symbol:

    escape      = '\' ('"' | 'n' | 't' | '\')
    terminal    = '"' (plain character | escape)* '"'
    nonterminal = '<' (plain character | escape)* '>'

Each step only skips, and all but the text of a symbol, which may be empty, consume something
(`consumes_readEscape`, `Symbol.consumes_read`).
-/

namespace BnfText

open BnfText.Parser

/-- Reads an escape in a symbol that `closing` ends.  A letter that names no escape is reported
where the backslash stands, and is left. -/
def readEscape (closing : Char) : Parser Char := do
  let start ← get
  let _ ← expect '\\'
  match ← peek? with
  | none => fail (.unterminated closing)
  | some letter =>
    match unescape? letter with
    | some c => do
      let _ ← next?
      return c
    | none => throw (start.fault (.invalidEscape letter))

/-- An escape consumes its backslash. -/
theorem consumes_readEscape (closing : Char) : Consumes (readEscape closing) := by
  refine advances_get.bind_consumes fun start => (consumes_expect _).bind fun _ => ?_
  refine advances_peek?.bind fun letter? => ?_
  split
  · exact advances_fail _
  · split
    · exact advances_next?.bind fun _ => advances_pure _
    · exact advances_throw _

namespace SymbolKind

/-- Whether the text of a symbol goes on with `c`: a plain character, or the backslash that begins
an escape. -/
def goesOn (kind : SymbolKind) (c : Char) : Bool := c = '\\' || kind.isPlain c

/-- Reads a character of the text of a symbol, escaped or not. -/
def readChar (kind : SymbolKind) : Parser Char := do
  match ← peek? with
  | some '\\' => readEscape kind.closing
  | some c => expect c
  | none => fail (.unterminated kind.closing)

/-- A character of a symbol consumes itself or its escape. -/
theorem consumes_readChar (kind : SymbolKind) : Consumes kind.readChar := by
  refine advances_peek?.bind_consumes fun next? => ?_
  split
  · exact consumes_readEscape _
  · exact consumes_expect _
  · exact consumes_fail _

/-- Reads the text of a symbol, up to a character that it does not go on with. -/
def readText (kind : SymbolKind) : Parser String := do
  let chars ← many kind.goesOn kind.readChar kind.consumes_readChar
  return String.ofList chars

/-- Takes the delimiter that ends a symbol. -/
def readClosing (kind : SymbolKind) : Parser Unit := do
  match ← peek? with
  | none => fail (.unterminated kind.closing)
  | some _ => do
    let _ ← expect kind.closing
    return ()

/-- The text of a symbol may be empty, so it only advances. -/
theorem advances_readText (kind : SymbolKind) : Advances kind.readText :=
  (advances_many _ _).bind fun _ => advances_pure _

/-- The closing delimiter is skipped if it is there. -/
theorem advances_readClosing (kind : SymbolKind) : Advances kind.readClosing := by
  refine advances_peek?.bind fun next? => ?_
  split
  · exact advances_fail _
  · exact (advances_expect _).bind fun _ => advances_pure _

end SymbolKind

/-- Reads a symbol of a kind. -/
def Symbol.read (kind : SymbolKind) : Parser (Symbol kind) := do
  let _ ← expect kind.opening
  let text ← kind.readText
  kind.readClosing
  return ⟨text⟩

/-- A symbol consumes its opening delimiter. -/
theorem Symbol.consumes_read (kind : SymbolKind) : Consumes (Symbol.read kind) :=
  (consumes_expect _).bind fun _ => kind.advances_readText.bind fun _ =>
    kind.advances_readClosing.bind fun _ => advances_pure _

end BnfText

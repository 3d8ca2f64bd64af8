/-!
# BnfText.Symbol

The two kinds of symbols and the characters they are written with.  A terminal stands between
quotes and a nonterminal between angle brackets; inside, a plain character stands for itself and a
backslash begins an escape of two characters.

Main statement: the letters of the escapes and the characters they stand for determine each other
(`unescape?_eq_some_iff`).
-/

namespace BnfText

/-- Whether `c` may stand between the parts of a grammar. -/
def isBlank (c : Char) : Bool := c = ' ' || c = '\n' || c = '\t'

/-! ## Escapes -/

/-- The character that a letter after a backslash stands for. -/
def unescape? : Char → Option Char
  | '"' => some '"'
  | 'n' => some '\n'
  | 't' => some '\t'
  | '\\' => some '\\'
  | _ => none

/-- The letter that stands for `c` after a backslash, if `c` has to be escaped. -/
def escapeLetter? : Char → Option Char
  | '"' => some '"'
  | '\n' => some 'n'
  | '\t' => some 't'
  | '\\' => some '\\'
  | _ => none

/-- A letter after a backslash stands for the character whose letter it is, and for no other. -/
theorem unescape?_eq_some_iff {letter c : Char} :
    unescape? letter = some c ↔ escapeLetter? c = some letter := by
  constructor
  · intro h
    unfold unescape? at h
    split at h <;> cases h <;> rfl
  · intro h
    unfold escapeLetter? at h
    split at h <;> cases h <;> rfl

/-- How `c` is written inside a symbol. -/
def spell (c : Char) : String :=
  match escapeLetter? c with
  | some letter => String.ofList ['\\', letter]
  | none => String.singleton c

/-! ## Symbols -/

/-- A terminal stands for its own text, a nonterminal for what its productions say. -/
inductive SymbolKind
  | terminal
  | nonterminal
deriving DecidableEq

namespace SymbolKind

/-- The delimiter before a symbol. -/
def opening : SymbolKind → Char
  | terminal => '"'
  | nonterminal => '<'

/-- The delimiter after a symbol. -/
def closing : SymbolKind → Char
  | terminal => '"'
  | nonterminal => '>'

/-- The characters that a symbol of the kind may hold as they are: letters, digits and some marks
of ASCII, in a terminal the angle brackets too. -/
def isPlain (kind : SymbolKind) (c : Char) : Bool :=
  c.isAlphanum || ['-', '_', '|', ':', '=', ';', ' '].contains c ||
    (kind = terminal && (c = '<' || c = '>'))

/-- The characters that a symbol of the kind can stand for. -/
def allows (kind : SymbolKind) (c : Char) : Bool :=
  kind.isPlain c || (escapeLetter? c).isSome

/-- The kind of symbol that a delimiter begins. -/
def ofOpening? : Char → Option SymbolKind
  | '"' => some terminal
  | '<' => some nonterminal
  | _ => none

/-- A character opens a symbol of a kind if it is the opening delimiter of that kind. -/
theorem ofOpening?_eq_some_iff {c : Char} {kind : SymbolKind} :
    ofOpening? c = some kind ↔ c = kind.opening := by
  constructor
  · intro h
    unfold ofOpening? at h
    split at h <;> cases h <;> rfl
  · rintro rfl
    cases kind <;> rfl

end SymbolKind

/-- A symbol of a kind; `text` is what it stands for, with every escape resolved. -/
structure Symbol (kind : SymbolKind) where
  text : String
deriving DecidableEq

/-- A symbol that stands for its own text. -/
abbrev Terminal := Symbol .terminal

/-- A symbol that is defined by productions. -/
abbrev Nonterminal := Symbol .nonterminal

end BnfText

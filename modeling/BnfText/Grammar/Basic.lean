import BnfText.Symbol

/-!
# BnfText.Grammar.Basic

Grammars as trees.  A tree may be one that no text gives: any list may be empty, and a symbol may
have any text.
-/

namespace BnfText

/-- An occurrence of a symbol of either kind. -/
structure Term where
  kind : SymbolKind
  symbol : Symbol kind
deriving DecidableEq

/-- One alternative: terms that follow one another. -/
structure Expression where
  terms : List Term
deriving DecidableEq

/-- The alternatives for a nonterminal. -/
structure Production where
  lhs : Nonterminal
  rhs : List Expression
deriving DecidableEq

/-- Productions in the order of the text; several may define the same nonterminal. -/
structure Grammar where
  productions : List Production
deriving DecidableEq

namespace Term

/-- The term that is an occurrence of `symbol`. -/
def ofSymbol {kind : SymbolKind} (symbol : Symbol kind) : Term := ⟨kind, symbol⟩

/-- What the symbol stands for. -/
def text (t : Term) : String := t.symbol.text

end Term

end BnfText

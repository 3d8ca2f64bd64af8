import BnfText.Grammar.Parser
import BnfText.Grammar.Printer
import BnfText.Grammar.WellFormed

/-!
# BnfText.Grammar.Canonical

Printing a grammar and reading what was printed.
-/

namespace BnfText.Grammar

/-- What reading the canonical text of a grammar gives. -/
def reread (g : Grammar) : Except ParseError Grammar := parse (print g)

/-- Whether the canonical text of a grammar says that grammar. -/
def readsBack (g : Grammar) : Bool :=
  match g.reread with
  | .ok h => h = g
  | .error _ => false

/-- Whether reading the canonical text and printing again gives the same text. -/
def printsAgain (g : Grammar) : Bool :=
  match g.reread with
  | .ok h => print h = print g
  | .error _ => false

end BnfText.Grammar

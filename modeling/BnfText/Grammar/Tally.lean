import BnfText.Grammar.Visitor

/-!
# BnfText.Grammar.Tally

The size of a grammar, counted in one walk over the tree: how many nodes of each kind there are
and how long the texts of the symbols are together.
-/

namespace BnfText

/-- Numbers of nodes, and the UTF-8 length of the texts of all symbols. -/
structure Tally where
  productions : Nat := 0
  expressions : Nat := 0
  terminals : Nat := 0
  nonterminals : Nat := 0
  textBytes : Nat := 0
deriving DecidableEq

/-- The visitor that counts what it meets. -/
def tallyVisitor : Visitor (StateM Tally) where
  production _ descend := do
    modify fun t => { t with productions := t.productions + 1 }
    descend
  expression _ descend := do
    modify fun t => { t with expressions := t.expressions + 1 }
    descend
  terminal s := modify fun t =>
    { t with terminals := t.terminals + 1, textBytes := t.textBytes + s.text.utf8ByteSize }
  nonterminal s := modify fun t =>
    { t with nonterminals := t.nonterminals + 1, textBytes := t.textBytes + s.text.utf8ByteSize }

/-- The size of a grammar; a left-hand side counts as a nonterminal. -/
def Grammar.tally (g : Grammar) : Tally := (tallyVisitor.visitGrammar g {}).2

end BnfText

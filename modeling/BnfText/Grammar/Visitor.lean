import BnfText.Grammar.Basic

/-!
# BnfText.Grammar.Visitor

Walking a tree in the order of its text, the left-hand side of a production before its
alternatives.  A visitor says what happens at each kind of node; where it says nothing, the walk
just goes on below.
-/

namespace BnfText

/-- What to do at each kind of node.  At a node that has parts the visitor is given the walk over
the parts too, and may run it or not. -/
structure Visitor (m : Type → Type) [Monad m] where
  grammar : Grammar → m Unit → m Unit := fun _ descend => descend
  production : Production → m Unit → m Unit := fun _ descend => descend
  expression : Expression → m Unit → m Unit := fun _ descend => descend
  term : Term → m Unit → m Unit := fun _ descend => descend
  terminal : Terminal → m Unit := fun _ => pure ()
  nonterminal : Nonterminal → m Unit := fun _ => pure ()

namespace Visitor

variable {m : Type → Type} [Monad m] (v : Visitor m)

/-- Visits a symbol of either kind. -/
def visitSymbol : {kind : SymbolKind} → Symbol kind → m Unit
  | .terminal, s => v.terminal s
  | .nonterminal, s => v.nonterminal s

/-- Visits a term and its symbol. -/
def visitTerm (t : Term) : m Unit := v.term t (v.visitSymbol t.symbol)

/-- Visits an alternative and its terms. -/
def visitExpression (e : Expression) : m Unit := v.expression e (e.terms.forM v.visitTerm)

/-- Visits a production, its left-hand side and its alternatives. -/
def visitProduction (p : Production) : m Unit :=
  v.production p do
    v.visitSymbol p.lhs
    p.rhs.forM v.visitExpression

/-- Visits a grammar and its productions. -/
def visitGrammar (g : Grammar) : m Unit := v.grammar g (g.productions.forM v.visitProduction)

end Visitor

end BnfText

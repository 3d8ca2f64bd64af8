import BnfText.Grammar.Visitor

/-!
# BnfText.Grammar.WellFormed

Trees that can be written down: every production has an alternative, every alternative has a term,
and every symbol has only characters that its kind can stand for.  A grammar without productions
counts as well-formed.

The condition is said twice: as a proposition on each kind of node (`WellFormed`) and as a check
made in one walk over the tree (`Grammar.isWellFormed`).
-/

namespace BnfText

/-! ## The condition -/

/-- A symbol whose text can be written between its delimiters. -/
def Symbol.WellFormed {kind : SymbolKind} (s : Symbol kind) : Prop :=
  ∀ c ∈ s.text.toList, kind.allows c

/-- A term whose symbol can be written down. -/
def Term.WellFormed (t : Term) : Prop := t.symbol.WellFormed

/-- An alternative with terms, all of which can be written down. -/
def Expression.WellFormed (e : Expression) : Prop :=
  e.terms ≠ [] ∧ ∀ t ∈ e.terms, t.WellFormed

/-- A production with alternatives that can be written down. -/
def Production.WellFormed (p : Production) : Prop :=
  p.lhs.WellFormed ∧ p.rhs ≠ [] ∧ ∀ e ∈ p.rhs, e.WellFormed

/-- A grammar whose productions can be written down. -/
def Grammar.WellFormed (g : Grammar) : Prop := ∀ p ∈ g.productions, p.WellFormed

/-! ## The check -/

/-- Whether the text of a symbol can be written between its delimiters. -/
def Symbol.isWellFormed {kind : SymbolKind} (s : Symbol kind) : Bool :=
  s.text.toList.all kind.allows

/-- Goes on with a verdict only if `b` holds. -/
def require (b : Bool) : StateM Bool Unit := modify (· && b)

/-- The visitor that keeps a verdict on all it has met. -/
def wellFormedVisitor : Visitor (StateM Bool) where
  production p descend := do
    require (!p.rhs.isEmpty)
    descend
  expression e descend := do
    require (!e.terms.isEmpty)
    descend
  terminal s := require s.isWellFormed
  nonterminal s := require s.isWellFormed

/-- Whether a grammar can be written down. -/
def Grammar.isWellFormed (g : Grammar) : Bool := (wellFormedVisitor.visitGrammar g true).2

end BnfText

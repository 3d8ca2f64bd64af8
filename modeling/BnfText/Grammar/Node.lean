import BnfText.Grammar.Data
import BnfText.Grammar.Printer
import BnfText.Grammar.Visitor

/-!
# BnfText.Grammar.Node

The nodes of a grammar, and the way to a node from the top of the tree.

Main statement: a node of any kind is written as the pieces of its printed form
(`Node.writes_display`).
-/

namespace BnfText

/-- A node of a tree. -/
inductive Node
  | grammar (g : Grammar)
  | production (p : Production)
  | expression (e : Expression)
  | term (t : Term)
  | symbol {kind : SymbolKind} (s : Symbol kind)
deriving DecidableEq

namespace Node

instance : Printable Node where
  pieces
    | grammar g => pieces g
    | production p => pieces p
    | expression e => pieces e
    | term t => pieces t
    | symbol s => pieces s

section Display

variable {σ : Type} [Sink σ] (join : Joining)

/-- Writes a tree, from a node on. -/
def display : Node → Writing σ Unit
  | grammar g => g.display join
  | production p => p.display join
  | expression e => e.display join
  | term t => t.display
  | symbol s => s.display

/-- A tree is written as the pieces of its printed form. -/
theorem writes_display {join : Joining} (hjoin : join.InOrder) (node : Node) :
    Writes (node.display join : Writing σ Unit) (pieces node) := by
  cases node with
  | grammar g => exact g.writes_display hjoin
  | production p => exact p.writes_display hjoin
  | expression e => exact e.writes_display hjoin
  | term t => exact t.writes_display
  | symbol s => exact s.writes_display

end Display

/-- A node as data. -/
def toData (W : Writer) : Node → Data
  | grammar g => g.toData W
  | production p => p.toData W
  | expression e => e.toData W
  | term t => t.toData W
  | symbol s => s.toData W

/-! ## Ways -/

/-- A step from a node to one of its parts. -/
inductive Step
  /-- The production of a grammar, the alternative of a production or the term of an alternative
  that has so many before it. -/
  | nth (index : Nat)
  /-- The left-hand side of a production. -/
  | lhs
  /-- The symbol of a term. -/
  | inner
deriving DecidableEq

/-- The part of a node that a step leads to. -/
def child? : Node → Step → Option Node
  | grammar g, .nth index => g.productions[index]?.map production
  | production p, .nth index => p.rhs[index]?.map expression
  | production p, .lhs => some (symbol p.lhs)
  | expression e, .nth index => e.terms[index]?.map term
  | term t, .inner => some (symbol t.symbol)
  | _, _ => none

/-- The node that steps lead to, one after the other. -/
def descendant? (node : Node) (steps : List Step) : Option Node := steps.foldlM child? node

end Node

/-- Visits a node of any kind. -/
def Visitor.visit {m : Type → Type} [Monad m] (v : Visitor m) : Node → m Unit
  | .grammar g => v.visitGrammar g
  | .production p => v.visitProduction p
  | .expression e => v.visitExpression e
  | .term t => v.visitTerm t
  | .symbol s => v.visitSymbol s

end BnfText

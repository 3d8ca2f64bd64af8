import BnfText.Grammar.Node

/-!
# BnfText.Grammar.Trace

Visitors that keep a record of the nodes they meet, a line a node.
-/

namespace BnfText

/-- The kinds of nodes that a visitor tells apart. -/
inductive NodeKind
  | grammar
  | production
  | expression
  | term
  | symbol (kind : SymbolKind)
deriving DecidableEq

/-- The name of a kind in a record. -/
def NodeKind.name : NodeKind → String
  | .grammar => "grammar"
  | .production => "production"
  | .expression => "expression"
  | .term => "term"
  | .symbol .terminal => "terminal"
  | .symbol .nonterminal => "nonterminal"

/-- All kinds of nodes, from the top of a tree to its leaves. -/
def NodeKind.all : List NodeKind :=
  [.grammar, .production, .expression, .term, .symbol .terminal, .symbol .nonterminal]

/-- The list of kinds leaves none out. -/
theorem NodeKind.mem_all (kind : NodeKind) : kind ∈ NodeKind.all := by
  match kind with
  | .grammar | .production | .expression | .term => simp [all]
  | .symbol .terminal | .symbol .nonterminal => simp [all]

/-- The kind with a name. -/
def NodeKind.ofName? (name : String) : Option NodeKind := NodeKind.all.find? (·.name = name)

/-- A computation that keeps a record, line by line. -/
abbrev Recording := StateM (Array String)

namespace Recording

/-- Adds a line to the record. -/
def line (text : String) : Recording Unit := modify (·.push text)

/-- Adds the line for a symbol: its kind and its text. -/
def symbolLine {kind : SymbolKind} (s : Symbol kind) : Recording Unit :=
  line ((NodeKind.symbol kind).name ++ ":" ++ s.text)

/-- The record of a whole computation. -/
def lines (r : Recording Unit) : Array String := (r #[]).2

end Recording

open BnfText.Recording

/-- Records every node and goes on below it, except below nodes of the kinds in `skipped`. -/
def tracing (skipped : List NodeKind) : Visitor Recording where
  grammar _ descend := do
    line NodeKind.grammar.name
    unless NodeKind.grammar ∈ skipped do descend
  production _ descend := do
    line NodeKind.production.name
    unless NodeKind.production ∈ skipped do descend
  expression _ descend := do
    line NodeKind.expression.name
    unless NodeKind.expression ∈ skipped do descend
  term _ descend := do
    line NodeKind.term.name
    unless NodeKind.term ∈ skipped do descend
  terminal := symbolLine
  nonterminal := symbolLine

/-- Records the symbols only. -/
def recordingSymbols : Visitor Recording where
  terminal := symbolLine
  nonterminal := symbolLine

/-- Records the alternatives only, each with the number of its terms, and does not go on below
them. -/
def recordingExpressions : Visitor Recording where
  expression e _ := line (NodeKind.expression.name ++ ":" ++ toString e.terms.length)

/-- Records the terms only, each as it is printed. -/
def recordingTerms : Visitor Recording where
  term t descend := do
    line (NodeKind.term.name ++ ":" ++ print t)
    descend

end BnfText

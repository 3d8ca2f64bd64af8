import Mathlib.Algebra.GroupWithZero.Nat
import BnfText.Grammar.Node
import BnfText.Grammar.Tally

/-!
# BnfText.Proofs.Traversal

What a visitor meets.  A walk that does one thing at each node, and goes on below the nodes that it
is let below, is that thing done for each node of a list, which holds the nodes in the order of the
text.

* `Node.isPart_of_child?`, `Node.of_descendant?` — what steps in a tree lead to;
* `Visitor.visit_uniform` — such a walk from any node is a walk over the list (`Node.met`);
* `Visitor.visitGrammar_ofSymbols` — a visitor of the symbols alone meets all of them in order;
* `Grammar.tally_eq` — the size of a grammar, counted without a walk.
-/

namespace BnfText

/-! ## Parts -/

namespace Node

/-- The nodes that a node is put together from. -/
inductive IsPart : Node → Node → Prop
  | production {g : Grammar} {p : Production} :
      p ∈ g.productions → IsPart (.production p) (.grammar g)
  | lhs (p : Production) : IsPart (.symbol p.lhs) (.production p)
  | expression {p : Production} {e : Expression} :
      e ∈ p.rhs → IsPart (.expression e) (.production p)
  | term {e : Expression} {t : Term} : t ∈ e.terms → IsPart (.term t) (.expression e)
  | inner (t : Term) : IsPart (.symbol t.symbol) (.term t)

/-- A step leads to a part. -/
theorem isPart_of_child? {node part : Node} {step : Step} (h : node.child? step = some part) :
    part.IsPart node := by
  unfold child? at h
  split at h
  · obtain ⟨p, hp, rfl⟩ := Option.map_eq_some_iff.1 h
    exact .production (List.mem_of_getElem? hp)
  · obtain ⟨e, he, rfl⟩ := Option.map_eq_some_iff.1 h
    exact .expression (List.mem_of_getElem? he)
  · obtain rfl := Option.some.inj h
    exact .lhs _
  · obtain ⟨t, ht, rfl⟩ := Option.map_eq_some_iff.1 h
    exact .term (List.mem_of_getElem? ht)
  · obtain rfl := Option.some.inj h
    exact .inner _
  · cases h

/-- A way of several steps leads where the rest of it leads from the first part. -/
theorem descendant?_cons (node : Node) (step : Step) (steps : List Step) :
    node.descendant? (step :: steps) = (node.child? step).bind (·.descendant? steps) :=
  List.foldlM_cons

/-- What the parts of a node have if it has it, all that is below the node has. -/
theorem of_descendant? {motive : Node → Prop}
    (hpart : ∀ {node part : Node}, part.IsPart node → motive node → motive part)
    {node n : Node} {steps : List Step} (hn : node.descendant? steps = some n)
    (h : motive node) : motive n := by
  induction steps generalizing node with
  | nil =>
      obtain rfl := Option.some.inj hn
      exact h
  | cons step steps ih =>
      rw [descendant?_cons] at hn
      obtain ⟨child, hchild, hn⟩ := Option.bind_eq_some_iff.1 hn
      exact ih hn (hpart (isPart_of_child? hchild) h)

end Node

/-! ## The nodes that are met -/

section Met

variable (descends : Node → Bool)

def Term.met (t : Term) : List Node :=
  .term t :: if descends (.term t) then [.symbol t.symbol] else []

def Expression.met (e : Expression) : List Node :=
  .expression e :: if descends (.expression e) then e.terms.flatMap (Term.met descends) else []

/-- The left-hand side comes before the alternatives. -/
def Production.met (p : Production) : List Node :=
  .production p ::
    if descends (.production p) then
      .symbol p.lhs :: p.rhs.flatMap (Expression.met descends)
    else []

def Grammar.met (g : Grammar) : List Node :=
  .grammar g ::
    if descends (.grammar g) then g.productions.flatMap (Production.met descends) else []

/-- The nodes of a tree from a node on, in the order of the text.  What is below a node is met just
if `descends` holds of the node. -/
def Node.met : Node → List Node
  | grammar g => g.met descends
  | production p => p.met descends
  | expression e => e.met descends
  | term t => t.met descends
  | symbol s => [symbol s]

end Met

/-! ## Walks that do one thing at each node -/

section Uniform

variable {m : Type → Type} [Monad m] {α β : Type}

namespace Visitor

/-- Runs `act` at each node, and after that the walk over its parts if `descends` holds of it. -/
def uniform (descends : Node → Bool) (act : Node → m Unit) : Visitor m where
  grammar g descend := do
    act (.grammar g)
    if descends (.grammar g) then descend
  production p descend := do
    act (.production p)
    if descends (.production p) then descend
  expression e descend := do
    act (.expression e)
    if descends (.expression e) then descend
  term t descend := do
    act (.term t)
    if descends (.term t) then descend
  terminal s := act (.symbol s)
  nonterminal s := act (.symbol s)

/-- Runs `f` at each symbol and does nothing of its own at any other node. -/
def ofSymbols (f : Term → m Unit) : Visitor m where
  terminal s := f (.ofSymbol s)
  nonterminal s := f (.ofSymbol s)

end Visitor

/-- At a symbol of either kind the walk does its one thing. -/
theorem Visitor.visitSymbol_uniform (descends : Node → Bool) (act : Node → m Unit)
    {kind : SymbolKind} (s : Symbol kind) :
    (uniform descends act).visitSymbol s = act (.symbol s) := by cases kind <;> rfl

variable [LawfulMonad m]

/-- A walk over items each of which is walked over as a list of parts. -/
theorem forM_flatMap {f : α → m Unit} {g : β → m Unit} {parts : α → List β}
    (h : ∀ a, f a = (parts a).forM g) (as : List α) : as.forM f = (as.flatMap parts).forM g := by
  simp only [List.forM_eq_forM] at h ⊢
  induction as with
  | nil => rfl
  | cons a as ih => rw [List.flatMap_cons, List.forM_append, List.forM_cons, h, ih]

/-- Where there is something to do for some items only, it is done for those. -/
theorem forM_filterMap (f : β → m Unit) (p : α → Option β) (as : List α) :
    as.forM (fun a => forM (p a) f) = (as.filterMap p).forM f := by
  simp only [List.forM_eq_forM]
  induction as with
  | nil => rfl
  | cons a as ih => cases h : p a <;> simp [h, ih]

/-- What is done for some items only is done for those. -/
theorem forM_filter (f : α → m Unit) (p : α → Prop) [DecidablePred p] (as : List α) :
    (as.forM fun a => if p a then f a else pure ()) = (as.filter p).forM f := by
  have hguard (a : α) : (if p a then f a else pure ()) = forM (Option.guard (p ·) a) f := by
    by_cases h : p a <;> simp [Option.guard, h]
  simp only [hguard, forM_filterMap, List.filterMap_eq_filter]

namespace Visitor

variable (descends : Node → Bool) (act : Node → m Unit)

/-- At a term the walk does it for the term and, if it goes on, for the symbol. -/
theorem visitTerm_uniform (t : Term) :
    (uniform descends act).visitTerm t = (t.met descends).forM act := by
  show (do act (.term t); if descends (.term t) then visitSymbol _ t.symbol) = _
  rw [visitSymbol_uniform, Term.met]
  split <;> simp

theorem visitExpression_uniform (e : Expression) :
    (uniform descends act).visitExpression e = (e.met descends).forM act := by
  show (do act (.expression e); if descends (.expression e) then e.terms.forM (visitTerm _)) = _
  rw [forM_flatMap (visitTerm_uniform descends act), Expression.met]
  split <;> simp

theorem visitProduction_uniform (p : Production) :
    (uniform descends act).visitProduction p = (p.met descends).forM act := by
  show (do
    act (.production p)
    if descends (.production p) then
      visitSymbol _ p.lhs
      p.rhs.forM (visitExpression _)) = _
  rw [visitSymbol_uniform, forM_flatMap (visitExpression_uniform descends act), Production.met]
  split <;> simp

/-- Over a grammar the walk does it for all nodes that it meets. -/
theorem visitGrammar_uniform (g : Grammar) :
    (uniform descends act).visitGrammar g = (g.met descends).forM act := by
  show (do
    act (.grammar g)
    if descends (.grammar g) then g.productions.forM (visitProduction _)) = _
  rw [forM_flatMap (visitProduction_uniform descends act), Grammar.met]
  split <;> simp

/-- From any node, the walk does its one thing for each node that is met. -/
theorem visit_uniform (node : Node) :
    (uniform descends act).visit node = (node.met descends).forM act := by
  cases node with
  | grammar g => exact visitGrammar_uniform descends act g
  | production p => exact visitProduction_uniform descends act p
  | expression e => exact visitExpression_uniform descends act e
  | term t => exact visitTerm_uniform descends act t
  | symbol s =>
      rw [Node.met, List.forM_eq_forM, List.forM_cons, List.forM_nil, bind_pure_unit]
      exact visitSymbol_uniform descends act s

end Visitor

end Uniform

/-! ## The parts of a grammar -/

namespace Node

def production? : Node → Option Production
  | production p => some p
  | _ => none

def expression? : Node → Option Expression
  | expression e => some e
  | _ => none

def term? : Node → Option Term
  | term t => some t
  | _ => none

/-- The symbol that a node is, as an occurrence of it. -/
def symbol? : Node → Option Term
  | symbol s => some (.ofSymbol s)
  | _ => none

end Node

theorem flatMap_nil {α β : Type} (as : List α) : (as.flatMap fun _ => ([] : List β)) = [] :=
  List.flatMap_eq_nil_iff.2 fun _ _ => rfl

/-- Where every item has a part, the parts are as many as the items and the parts after the first of
each. -/
theorem length_flatMap_of_ne_nil {α β : Type} {parts : α → List β} {as : List α}
    (h : ∀ a ∈ as, parts a ≠ []) :
    (as.flatMap parts).length = as.length + (as.map fun a => (parts a).length - 1).sum := by
  induction as with
  | nil => rfl
  | cons a as ih =>
      have hfurther := ih fun b hb => h b (List.mem_cons_of_mem a hb)
      have hfirst := List.length_pos_iff.2 (h a List.mem_cons_self)
      simp only [List.flatMap_cons, List.length_append, List.length_cons, List.map_cons,
        List.sum_cons]
      omega

/-- The symbols of a production in the order of the text. -/
def Production.symbols (p : Production) : List Term := .ofSymbol p.lhs :: p.rhs.flatMap (·.terms)

namespace Grammar

/-- The alternatives of all productions. -/
def expressions (g : Grammar) : List Expression := g.productions.flatMap (·.rhs)

/-- The symbols of a grammar in the order of the text, the left-hand sides among them. -/
def symbols (g : Grammar) : List Term := g.productions.flatMap Production.symbols

/-- All nodes of a grammar, in the order of the text. -/
def nodes (g : Grammar) : List Node := g.met fun _ => true

/-- What is picked out of the nodes, put together from the parts. -/
theorem filterMap_nodes {α : Type} (pick : Node → Option α) (g : Grammar) :
    g.nodes.filterMap pick =
      (pick (.grammar g)).toList ++ g.productions.flatMap fun p =>
        (pick (.production p)).toList ++ (pick (.symbol p.lhs)).toList ++ p.rhs.flatMap fun e =>
          (pick (.expression e)).toList ++ e.terms.flatMap fun t =>
            (pick (.term t)).toList ++ (pick (.symbol t.symbol)).toList := by
  have hcons (n : Node) (ns : List Node) :
      (n :: ns).filterMap pick = (pick n).toList ++ ns.filterMap pick := by
    cases h : pick n <;> simp [h]
  simp [nodes, met, Production.met, Expression.met, Term.met, hcons, List.filterMap_flatMap]

/-- The productions among the nodes of a grammar. -/
theorem filterMap_production?_nodes (g : Grammar) :
    g.nodes.filterMap Node.production? = g.productions := by
  simp [filterMap_nodes, Node.production?, flatMap_nil]

theorem filterMap_expression?_nodes (g : Grammar) :
    g.nodes.filterMap Node.expression? = g.expressions := by
  simp [filterMap_nodes, Node.expression?, flatMap_nil, expressions]

theorem filterMap_symbol?_nodes (g : Grammar) : g.nodes.filterMap Node.symbol? = g.symbols := by
  have hproduction : Production.symbols = fun p => .ofSymbol p.lhs :: p.rhs.flatMap (·.terms) := rfl
  simp [filterMap_nodes, Node.symbol?, symbols, hproduction, Term.ofSymbol]

end Grammar

/-! ## Visitors of the symbols -/

section Symbols

variable {m : Type → Type} [Monad m] [LawfulMonad m]

/-- Doing nothing at the nodes above is as good as saying nothing of them. -/
theorem Visitor.ofSymbols_eq_uniform (f : Term → m Unit) :
    ofSymbols f = uniform (fun _ => true) fun node => forM node.symbol? f := by
  simp [ofSymbols, uniform, Node.symbol?]

/-- A visitor of the symbols alone meets all of them, in the order of the text. -/
theorem Visitor.visitGrammar_ofSymbols (f : Term → m Unit) (g : Grammar) :
    (ofSymbols f).visitGrammar g = g.symbols.forM f := by
  rw [ofSymbols_eq_uniform, visitGrammar_uniform, forM_filterMap, ← Grammar.filterMap_symbol?_nodes]
  rfl

end Symbols

/-! ## The size of a grammar -/

/-- The size with one node more. -/
def Tally.add (t : Tally) : Node → Tally
  | .production _ => { t with productions := t.productions + 1 }
  | .expression _ => { t with expressions := t.expressions + 1 }
  | @Node.symbol .terminal s =>
    { t with terminals := t.terminals + 1, textBytes := t.textBytes + s.text.utf8ByteSize }
  | @Node.symbol .nonterminal s =>
    { t with nonterminals := t.nonterminals + 1, textBytes := t.textBytes + s.text.utf8ByteSize }
  | _ => t

/-- The size is counted by a walk that goes everywhere and adds one node at a time. -/
theorem tallyVisitor_eq_uniform :
    tallyVisitor = .uniform (fun _ => true) fun node => modify fun t => t.add node := rfl

/-- To change a state for each item is to fold the changes over the items. -/
theorem forM_modify {α σ : Type} (f : σ → α → σ) (as : List α) (s : σ) :
    (as.forM fun a => (modify fun s => f s a : StateM σ Unit)) s = ((), as.foldl f s) := by
  induction as generalizing s with
  | nil => rfl
  | cons a as ih => exact ih (f s a)

/-- Adding nodes one after the other counts those of each sort. -/
theorem foldl_add (ns : List Node) (t : Tally) :
    ns.foldl Tally.add t =
      { productions := t.productions + (ns.filterMap Node.production?).length
        expressions := t.expressions + (ns.filterMap Node.expression?).length
        terminals := t.terminals + (ns.filterMap Node.symbol?).countP (·.kind = .terminal)
        nonterminals := t.nonterminals + (ns.filterMap Node.symbol?).countP (·.kind = .nonterminal)
        textBytes :=
          t.textBytes + ((ns.filterMap Node.symbol?).map (·.text.utf8ByteSize)).sum } := by
  induction ns generalizing t with
  | nil => simp
  | cons n ns ih =>
      rw [List.foldl_cons, ih]
      match n with
      | .grammar _ | .term _ => rfl
      | .production _ | .expression _ | @Node.symbol .terminal _
      | @Node.symbol .nonterminal _ =>
        simp [Tally.add, List.filterMap_cons, Node.production?, Node.expression?, Node.symbol?,
          Term.ofSymbol, Term.text, Nat.add_assoc, Nat.add_comm 1]

/-- The size of a grammar, counted from the lists of its parts. -/
theorem Grammar.tally_eq (g : Grammar) :
    g.tally =
      { productions := g.productions.length
        expressions := g.expressions.length
        terminals := g.symbols.countP (·.kind = .terminal)
        nonterminals := g.symbols.countP (·.kind = .nonterminal)
        textBytes := (g.symbols.map (·.text.utf8ByteSize)).sum } := by
  have hwalk : tallyVisitor.visitGrammar g {} = ((), g.nodes.foldl Tally.add {}) := by
    rw [tallyVisitor_eq_uniform, Visitor.visitGrammar_uniform, forM_modify]
    rfl
  rw [tally, hwalk, foldl_add, filterMap_production?_nodes, filterMap_expression?_nodes,
    filterMap_symbol?_nodes]
  simp

end BnfText

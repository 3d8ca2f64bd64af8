import Mathlib.Data.List.Infix
import BnfText.Grammar.Trace
import BnfText.Proofs.Traversal

/-!
# BnfText.Proofs.Preorder

The nodes of a tree in the order of the text, each with the way to it, and what visitors meet of
them.  A visitor may say what happens at the nodes of some kinds and leave the other kinds to the
walk; at those that it speaks of it may go on below or not.

* `Node.listing` — the nodes from a node on, each after the nodes above it and after all that stands
  before it in the text (`Node.mem_listing_iff`, `Node.pairwise_listing`);
* `Node.met_eq_filter_listing` — what a walk meets is the listing without what is below the nodes
  that it does not go on below;
* `Visitor.visit_overriding` — what a visitor of any kinds of nodes does;
* `Node.lines_visit` — the records of the visitors that keep one.
-/

namespace BnfText

namespace Node

/-! ## The listing of a tree -/

/-- The place of a part among the parts of a node.  A left-hand side is the first part of its
production. -/
def Step.rank : Step → Nat
  | lhs => 0
  | nth index => index + 1
  | inner => 0

/-- A way comes before another one if it is the beginning of it, or leads to an earlier part where
the two separate. -/
def Precedes : List Step → List Step → Prop := List.Lex fun step step' => step.rank < step'.rank

/-- Items as parts of a node, which are told apart by their number. -/
def numbered {α : Type} (node : α → Node) (as : List α) : List (Step × Node) :=
  as.mapIdx fun index a => (.nth index, node a)

/-- The parts of a node in the order of the text, each with the step that leads to it. -/
def parts : Node → List (Step × Node)
  | grammar g => numbered production g.productions
  | production p => (.lhs, symbol p.lhs) :: numbered expression p.rhs
  | expression e => numbered term e.terms
  | term t => [(.inner, symbol t.symbol)]
  | symbol _ => []

/-- How far down a tree goes from a node. -/
def height : Node → Nat
  | grammar _ => 4
  | production _ => 3
  | expression _ => 2
  | term _ => 1
  | symbol _ => 0

section Numbered

variable {α : Type} {node : α → Node} {as : List α}

/-- An item with its number, and nothing else, is a part. -/
theorem mem_numbered_iff {part : Step × Node} :
    part ∈ numbered node as ↔
      ∃ index, part.1 = .nth index ∧ as[index]?.map node = some part.2 := by
  obtain ⟨step, n⟩ := part
  simp only [numbered, List.mem_mapIdx, Prod.mk.injEq, Option.map_eq_some_iff,
    List.getElem?_eq_some_iff]
  constructor
  · rintro ⟨index, hlt, rfl, rfl⟩
    exact ⟨index, rfl, as[index], ⟨hlt, rfl⟩, rfl⟩
  · rintro ⟨index, rfl, a, ⟨hlt, rfl⟩, rfl⟩
    exact ⟨index, hlt, rfl, rfl⟩

theorem map_snd_numbered : (numbered node as).map Prod.snd = as.map node := by
  apply List.ext_getElem <;> simp [numbered]

/-- Later items have higher numbers. -/
theorem pairwise_numbered :
    (numbered node as).Pairwise fun part part' => part.1.rank < part'.1.rank := by
  rw [List.pairwise_iff_getElem]
  intro i j hi hj hlt
  simpa [numbered, Step.rank] using hlt

end Numbered

/-- The parts of a node are those that a step leads to. -/
theorem mem_parts_iff {node : Node} {part : Step × Node} :
    part ∈ node.parts ↔ node.child? part.1 = some part.2 := by
  obtain ⟨step, n⟩ := part
  cases node <;> cases step <;>
    simp [parts, child?, mem_numbered_iff, eq_comm]

/-- The parts of a node stand in the order of their ranks, the left-hand side before the
alternatives. -/
theorem pairwise_parts (node : Node) :
    node.parts.Pairwise fun part part' => part.1.rank < part'.1.rank := by
  cases node with
  | grammar g => exact pairwise_numbered
  | production p =>
      refine List.pairwise_cons.2 ⟨fun part hpart => ?_, pairwise_numbered⟩
      obtain ⟨index, hstep, _⟩ := mem_numbered_iff.1 hpart
      rw [hstep]
      exact Nat.succ_pos index
  | expression e => exact pairwise_numbered
  | term t => exact List.pairwise_singleton _ _
  | symbol s => exact .nil

/-- A part is less high than what it is a part of. -/
theorem IsPart.height_lt {node part : Node} (h : part.IsPart node) : part.height < node.height := by
  cases h with
  | production hp => exact Nat.lt_succ_self 3
  | lhs p => exact Nat.succ_pos 2
  | expression he => exact Nat.lt_succ_self 2
  | term ht => exact Nat.lt_succ_self 1
  | inner t => exact Nat.lt_succ_self 0

theorem isPart_of_mem_parts {node : Node} {part : Step × Node} (h : part ∈ node.parts) :
    part.2.IsPart node := isPart_of_child? (mem_parts_iff.1 h)

/-- The nodes from a node on, each with the way to it, in the order of the text: a node, then all
that is below its first part, and so on. -/
def listing (node : Node) : List (List Step × Node) :=
  ([], node) :: node.parts.attach.flatMap fun part =>
    (listing part.1.2).map fun entry => (part.1.1 :: entry.1, entry.2)
termination_by node.height
decreasing_by exact (isPart_of_mem_parts part.2).height_lt

/-- The listing of what is below a node. -/
def below (node : Node) : List (List Step × Node) :=
  node.parts.flatMap fun part => part.2.listing.map fun entry => (part.1 :: entry.1, entry.2)

/-- The listing begins with the node itself, and the way to it is empty. -/
theorem listing_eq (node : Node) : node.listing = ([], node) :: node.below := by
  rw [listing, below, ← node.parts.attach_map_subtype_val, List.flatMap_map,
    List.attach_map_subtype_val]

/-- What holds of a node whenever it holds of its parts holds of every node. -/
theorem induction_parts {motive : Node → Prop}
    (h : ∀ node : Node, (∀ part, part ∈ node.parts → motive part.2) → motive node) (node : Node) :
    motive node :=
  h node fun part hpart =>
    have := (isPart_of_mem_parts hpart).height_lt
    induction_parts h part.2
termination_by node.height

/-- An entry below a node is one of a part, with the step to that part before it. -/
theorem mem_below_iff {node : Node} {entry : List Step × Node} :
    entry ∈ node.below ↔
      ∃ part ∈ node.parts, ∃ path, entry.1 = part.1 :: path ∧ (path, entry.2) ∈ part.2.listing := by
  obtain ⟨path, n⟩ := entry
  simp only [below, List.mem_flatMap, List.mem_map, Prod.exists, Prod.mk.injEq]
  grind

/-- The listing has the nodes that steps lead to, each with those steps. -/
theorem mem_listing_iff {node n : Node} {path : List Step} :
    (path, n) ∈ node.listing ↔ node.descendant? path = some n := by
  induction node using induction_parts generalizing path with
  | h node ih =>
      rw [listing_eq, List.mem_cons]
      cases path with
      | nil => simp [mem_below_iff, descendant?, eq_comm]
      | cons step path =>
          rw [descendant?_cons, mem_below_iff]
          constructor
          · rintro (h | ⟨part, hpart, path', heq, hn⟩)
            · cases h
            · obtain ⟨rfl, rfl⟩ := List.cons.inj heq
              exact Option.bind_eq_some_iff.2
                ⟨part.2, mem_parts_iff.1 hpart, (ih part hpart).1 hn⟩
          · intro h
            obtain ⟨child, hchild, hn⟩ := Option.bind_eq_some_iff.1 h
            have hpart : (step, child) ∈ node.parts := mem_parts_iff.2 hchild
            exact .inr ⟨_, hpart, path, rfl, (ih _ hpart).2 hn⟩

/-- The listing is in the order of the text. -/
theorem pairwise_listing (node : Node) : (node.listing.map Prod.fst).Pairwise Precedes := by
  rw [List.pairwise_map]
  induction node using induction_parts with
  | h node ih =>
      rw [listing_eq, List.pairwise_cons, below, List.pairwise_flatMap]
      refine ⟨fun entry hentry => ?_, fun part hpart => ?_, ?_⟩
      · obtain ⟨part, _, path, hpath, _⟩ := mem_below_iff.1 hentry
        rw [hpath]
        exact .nil
      · exact List.pairwise_map.2 ((ih part hpart).imp .cons)
      · -- Entries below two parts: the ways to them separate at their first step.
        refine node.pairwise_parts.imp fun hlt entry hentry entry' hentry' => ?_
        obtain ⟨_, _, rfl⟩ := List.mem_map.1 hentry
        obtain ⟨_, _, rfl⟩ := List.mem_map.1 hentry'
        exact .rel hlt

/-! ## What is above a node -/

/-- The nodes that a way leads past, from the node it begins at to the one before the last. -/
def above (node : Node) (path : List Step) : List Node :=
  path.inits.dropLast.filterMap node.descendant?

theorem above_nil (node : Node) : node.above [] = [] := rfl

/-- Above what a way leads to is the node it begins at, and what is above it in the part that the
first step leads to. -/
theorem above_cons {node part : Node} {step : Step} (h : node.child? step = some part)
    (path : List Step) : node.above (step :: path) = node :: part.above path := by
  have hdescendant : ∀ up, node.descendant? (step :: up) = part.descendant? up := by
    intro up
    rw [descendant?_cons, h, Option.bind_some]
  have hne : path.inits.map (step :: ·) ≠ [] := by cases path <;> simp
  rw [above, List.inits_cons, List.dropLast_cons_of_ne_nil hne, ← List.map_dropLast,
    List.filterMap_cons_some (show node.descendant? [] = some node from rfl), List.filterMap_map]
  congr 2
  exact funext hdescendant

/-- What is below a node is no higher. -/
theorem height_le_of_descendant? {node n : Node} {path : List Step}
    (h : node.descendant? path = some n) : n.height ≤ node.height :=
  of_descendant? (motive := (·.height ≤ node.height))
    (fun hpart hle => Nat.le_trans (Nat.le_of_lt hpart.height_lt) hle) h (Nat.le_refl _)

/-- A tree goes further down from what is above a node than from the node. -/
theorem height_lt_of_mem_above {node n a : Node} {path : List Step}
    (hn : node.descendant? path = some n) (ha : a ∈ node.above path) : n.height < a.height := by
  induction path generalizing node with
  | nil => cases ha
  | cons step path ih =>
      rw [descendant?_cons] at hn
      obtain ⟨child, hchild, hbelow⟩ := Option.bind_eq_some_iff.1 hn
      rw [above_cons hchild] at ha
      rcases List.mem_cons.1 ha with rfl | ha
      · have hlt := (isPart_of_child? hchild).height_lt
        exact Nat.lt_of_le_of_lt (height_le_of_descendant? hbelow) hlt
      · exact ih hbelow ha

/-! ## What a walk meets -/

/-- A function of the items does not see their numbers. -/
theorem flatMap_numbered {α β : Type} (node : α → Node) (as : List α) (f : Node → List β) :
    ((numbered node as).flatMap fun part => f part.2) = as.flatMap fun a => f (node a) := by
  rw [← List.flatMap_map Prod.snd, map_snd_numbered, List.flatMap_map]

/-- A walk meets the node and, if it goes on below it, what it meets in each part. -/
theorem met_eq (descends : Node → Bool) (node : Node) :
    node.met descends =
      node :: if descends node then node.parts.flatMap fun part => part.2.met descends else [] := by
  cases node with
  | grammar g => rw [parts, flatMap_numbered]; rfl
  | production p => rw [parts, List.flatMap_cons, flatMap_numbered]; rfl
  | expression e => rw [parts, flatMap_numbered]; rfl
  | term t => rfl
  | symbol s => simp [met, parts]

/-- What a walk meets below a part, as entries of the listing of the whole. -/
theorem map_filter_part (descends : Node → Bool) {node : Node} {part : Step × Node}
    (hpart : part ∈ node.parts)
    (h : part.2.met descends =
      (part.2.listing.filter fun entry => (part.2.above entry.1).all descends).map Prod.snd) :
    (((part.2.listing.map fun entry => (part.1 :: entry.1, entry.2)).filter fun entry =>
        (node.above entry.1).all descends).map Prod.snd) =
      if descends node then part.2.met descends else [] := by
  have habove : ((fun entry => (node.above entry.1).all descends) ∘ fun entry =>
        (part.1 :: entry.1, entry.2)) =
      fun entry : List Step × Node => descends node && (part.2.above entry.1).all descends := by
    -- The way to the entry leads past the node before it leads past what is above it in the part.
    funext entry
    rw [Function.comp_apply, above_cons (mem_parts_iff.1 hpart), List.all_cons]
  rw [List.filter_map, List.map_map, habove, h]
  cases descends node with
  | true => simp [Function.comp_def]
  | false => simp

/-- A walk meets the nodes of the listing that are not below a node that it does not go on below. -/
theorem met_eq_filter_listing (descends : Node → Bool) (node : Node) :
    node.met descends =
      (node.listing.filter fun entry => (node.above entry.1).all descends).map Prod.snd := by
  induction node using induction_parts with
  | h node ih =>
      have hparts := List.flatMap_congr fun part hpart =>
        map_filter_part descends hpart (ih part hpart)
      rw [met_eq, listing_eq, List.filter_cons_of_pos (by simp [above_nil]), List.map_cons, below,
        List.filter_flatMap, List.map_flatMap, hparts]
      cases descends node with
      | true => rfl
      | false => simp [flatMap_nil]

/-! ## The kinds of nodes -/

def kind : Node → NodeKind
  | grammar _ => .grammar
  | production _ => .production
  | expression _ => .expression
  | term _ => .term
  | @symbol kind _ => .symbol kind

/-- The line that a record has for a node: its kind, and the text of a symbol. -/
def line : Node → String
  | @symbol kind s => (NodeKind.symbol kind).name ++ ":" ++ s.text
  | node => node.kind.name

/-- Nodes of one kind are equally far down. -/
theorem height_eq_of_kind_eq {node node' : Node} (h : node.kind = node'.kind) :
    node.height = node'.height := by
  cases node <;> cases node' <;> first | rfl | cases h

/-- No node is below one of its own kind. -/
theorem kind_ne_of_mem_above {node n a : Node} {path : List Step}
    (hn : (path, n) ∈ node.listing) (ha : a ∈ node.above path) : a.kind ≠ n.kind := by
  intro h
  have hlt := height_lt_of_mem_above (mem_listing_iff.1 hn) ha
  rw [height_eq_of_kind_eq h] at hlt
  exact Nat.lt_irrefl _ hlt

end Node

/-! ## Visitors of some kinds of nodes -/

namespace Visitor

variable {m : Type → Type} [Monad m]

/-- What is done at a node whose kind may be overridden: `act`, and after it what is below unless
the kind is skipped.  At other nodes the walk just goes on below. -/
def overrideAt (overridden skipped : List NodeKind) (act : Node → m Unit) (node : Node)
    (descend : m Unit) : m Unit :=
  if node.kind ∈ overridden then do
    act node
    unless node.kind ∈ skipped do descend
  else descend

/-- The visitor that says `act` at the nodes of the kinds `overridden` and nothing at others.  It
does not go on below the nodes that it speaks of if their kind is one of `skipped`. -/
def overriding (overridden skipped : List NodeKind) (act : Node → m Unit) : Visitor m where
  grammar g := overrideAt overridden skipped act (.grammar g)
  production p := overrideAt overridden skipped act (.production p)
  expression e := overrideAt overridden skipped act (.expression e)
  term t := overrideAt overridden skipped act (.term t)
  terminal s := overrideAt overridden skipped act (.symbol s) (pure ())
  nonterminal s := overrideAt overridden skipped act (.symbol s) (pure ())

/-- What the visitor does of its own at a node. -/
def actAt (overridden : List NodeKind) (act : Node → m Unit) (node : Node) : m Unit :=
  if node.kind ∈ overridden then act node else pure ()

/-- Whether the visitor goes on below a node. -/
def descends (overridden skipped : List NodeKind) (node : Node) : Bool :=
  !(node.kind ∈ overridden && node.kind ∈ skipped)

variable (overridden skipped : List NodeKind) (act : Node → m Unit)

/-- At a node of an overridden kind the visitor acts, and goes on unless the kind is skipped. -/
theorem overrideAt_of_mem {node : Node} (h : node.kind ∈ overridden) :
    overrideAt overridden skipped act node =
      fun descend => (do act node; unless node.kind ∈ skipped do descend) :=
  funext fun _ => if_pos h

theorem overrideAt_of_not_mem {node : Node} (h : node.kind ∉ overridden) :
    overrideAt overridden skipped act node = fun descend => descend :=
  funext fun _ => if_neg h

variable [LawfulMonad m]

/-- Both cases in one: what the visitor does of its own, and whether it goes on. -/
theorem overrideAt_eq (node : Node) :
    overrideAt overridden skipped act node = fun descend =>
      (do actAt overridden act node; if descends overridden skipped node then descend) := by
  by_cases hover : node.kind ∈ overridden
  · simp [overrideAt_of_mem, descends, actAt, hover]
  · simp [overrideAt_of_not_mem, descends, actAt, hover]

/-- So a visitor of some kinds does the same at all nodes, with an action and a condition that look
at the kind. -/
theorem overriding_eq_uniform :
    overriding overridden skipped act =
      uniform (descends overridden skipped) (actAt overridden act) := by
  simp [overriding, uniform, overrideAt_eq]

/-- The visitor acts at the nodes of the listing, in their order, that are of the kinds it speaks of
and not below a node that it does not go on below. -/
theorem visit_overriding (node : Node) :
    (overriding overridden skipped act).visit node =
      ((node.listing.filter fun entry => entry.2.kind ∈ overridden &&
        (node.above entry.1).all (descends overridden skipped)).map Prod.snd).forM act := by
  rw [overriding_eq_uniform, visit_uniform, Node.met_eq_filter_listing]
  unfold actAt
  rw [forM_filter, List.filter_map, List.filter_filter]
  rfl

end Visitor

/-! ## Records -/

open Recording Visitor

/-- Recording a line for each item of a list records these lines in their order. -/
theorem lines_forM {α : Type} (f : α → String) (as : List α) :
    lines (as.forM fun a => line (f a)) = (as.map f).toArray := by
  have hwalk := forM_modify (fun record a => Array.push record (f a)) as #[]
  have hpush : as.foldl (fun record a => record.push (f a)) #[] = (as.map f).toArray :=
    List.foldl_push_eq_append.trans Array.empty_append
  exact (congrArg Prod.snd hwalk).trans hpush

/-- The trace is kept by a visitor of all kinds. -/
theorem tracing_eq_overriding (skipped : List NodeKind) :
    tracing skipped = overriding NodeKind.all skipped fun n => line n.line := by
  have hleaf {kind : SymbolKind} (s : Symbol kind) :
      overrideAt NodeKind.all skipped (fun n => line n.line) (.symbol s) (pure ()) =
        symbolLine s := by
    rw [overrideAt_of_mem _ _ _ (NodeKind.mem_all _)]
    split <;> rfl
  simp only [overriding, hleaf]
  rfl

/-- The record of the symbols is kept by a visitor of the two kinds of symbols. -/
theorem recordingSymbols_eq_overriding :
    recordingSymbols =
      overriding [.symbol .terminal, .symbol .nonterminal] [] fun n => line n.line := rfl

/-- The line that a record of the alternatives has for one. -/
def Expression.line (e : Expression) : String :=
  NodeKind.expression.name ++ ":" ++ toString e.terms.length

/-- The line that a record of the terms has for one. -/
def Term.line (t : Term) : String := NodeKind.term.name ++ ":" ++ print t

/-- The record of the alternatives is kept by a visitor of alternatives that does not go on below
them. -/
theorem recordingExpressions_eq_overriding :
    recordingExpressions =
      overriding [.expression] [.expression] fun n =>
        forM n.expression? fun e => line e.line := rfl

/-- The record of the terms is kept by a visitor of terms that goes on below them. -/
theorem recordingTerms_eq_overriding :
    recordingTerms = overriding [.term] [] fun n => forM n.term? fun t => line t.line :=
  rfl

/-- A visitor of one kind of nodes meets all of them, even if it does not go on below them. -/
theorem filterMap_listing {α : Type} {pick : Node → Option α} {kind : NodeKind}
    (skipped : List NodeKind) (hpick : ∀ n a, pick n = some a → n.kind = kind) (node : Node) :
    ((node.listing.filter fun entry => entry.2.kind ∈ [kind] &&
        (node.above entry.1).all (descends [kind] skipped)).map Prod.snd).filterMap pick =
      node.listing.filterMap (pick ·.2) := by
  rw [List.filterMap_map, List.filterMap_filter]
  refine List.filterMap_congr fun entry hentry => ?_
  rw [Function.comp_apply]
  cases ha : pick entry.2 with
  | none => exact ite_self none
  | some a =>
      have hkind : entry.2.kind = kind := hpick _ a ha
      -- What is above the node is of another kind, so that the walk goes on below it.
      have habove : ∀ n ∈ node.above entry.1, n.kind ≠ kind := fun n hn =>
        hkind ▸ Node.kind_ne_of_mem_above hentry hn
      refine if_pos ?_
      simp +contextual [hkind, descends, habove]

/-- The trace of a tree is its listing without what is below the nodes of the kinds `skipped`. -/
theorem lines_visit_tracing (skipped : List NodeKind) (node : Node) :
    lines ((tracing skipped).visit node) =
      ((node.listing.filter fun entry => (node.above entry.1).all (·.kind ∉ skipped)).map
        (·.2.line)).toArray := by
  have hdescends : descends NodeKind.all skipped = fun n => decide (n.kind ∉ skipped) := by
    funext n
    simp [descends, NodeKind.mem_all]
  rw [tracing_eq_overriding, visit_overriding, lines_forM, List.map_map, hdescends]
  simp only [NodeKind.mem_all, decide_true, Bool.true_and]
  rfl

/-- The record of the symbols has a line for every symbol, since the walk goes on everywhere. -/
theorem lines_visit_recordingSymbols (node : Node) :
    lines (recordingSymbols.visit node) =
      ((node.listing.filter (·.2.symbol?.isSome)).map (·.2.line)).toArray := by
  have hsymbol (n : Node) :
      decide (n.kind ∈ [.symbol .terminal, .symbol .nonterminal]) = n.symbol?.isSome := by
    match n with
    | .grammar _ | .production _ | .expression _ | .term _ => rfl
    | @Node.symbol .terminal _ | @Node.symbol .nonterminal _ => rfl
  have habove (ns : List Node) :
      ns.all (descends [.symbol .terminal, .symbol .nonterminal] []) = true := by simp [descends]
  rw [recordingSymbols_eq_overriding, visit_overriding, lines_forM, List.map_map]
  simp only [hsymbol, habove, Bool.and_true]
  rfl

/-- The record of the alternatives has a line for every one, though the walk does not go on below
them: an alternative is not part of another. -/
theorem lines_visit_recordingExpressions (node : Node) :
    lines (recordingExpressions.visit node) =
      ((node.listing.filterMap (·.2.expression?)).map Expression.line).toArray := by
  have hpick (n : Node) (e : Expression) (h : n.expression? = some e) : n.kind = .expression := by
    cases n <;> first | rfl | cases h
  rw [recordingExpressions_eq_overriding, visit_overriding, forM_filterMap, lines_forM,
    filterMap_listing [.expression] hpick]

/-- The record of the terms has a line for every term. -/
theorem lines_visit_recordingTerms (node : Node) :
    lines (recordingTerms.visit node) =
      ((node.listing.filterMap (·.2.term?)).map Term.line).toArray := by
  have hpick (n : Node) (t : Term) (h : n.term? = some t) : n.kind = .term := by
    cases n <;> first | rfl | cases h
  rw [recordingTerms_eq_overriding, visit_overriding, forM_filterMap, lines_forM,
    filterMap_listing [] hpick]

open Node in
/-- The listing has every node that steps lead to, in the order of the text.  The trace of a tree
has a line for each entry but for what is below nodes of a kind that is not gone on below; the
records of the symbols, of the alternatives and of the terms have one for each of these in the whole
listing; and a visitor of any kinds of nodes acts at the entries of those kinds that are not below
one that it does not go on below. -/
theorem Node.lines_visit (node : Node) :
    (∀ path n, (path, n) ∈ node.listing ↔ node.descendant? path = some n) ∧
    (node.listing.map Prod.fst).Pairwise Precedes ∧
    (∀ skipped : List NodeKind,
      lines ((tracing skipped).visit node) =
        ((node.listing.filter fun entry => (node.above entry.1).all (·.kind ∉ skipped)).map
          (·.2.line)).toArray) ∧
    lines (recordingSymbols.visit node) =
      ((node.listing.filter (·.2.symbol?.isSome)).map (·.2.line)).toArray ∧
    lines (recordingExpressions.visit node) =
      ((node.listing.filterMap (·.2.expression?)).map Expression.line).toArray ∧
    lines (recordingTerms.visit node) =
      ((node.listing.filterMap (·.2.term?)).map Term.line).toArray ∧
    ∀ (m : Type → Type) [Monad m] [LawfulMonad m] (overridden skipped : List NodeKind)
      (act : Node → m Unit),
      (overriding overridden skipped act).visit node =
        ((node.listing.filter fun entry => entry.2.kind ∈ overridden &&
          (node.above entry.1).all (descends overridden skipped)).map Prod.snd).forM act :=
  ⟨fun _ _ => mem_listing_iff, node.pairwise_listing, fun skipped => lines_visit_tracing skipped _,
    lines_visit_recordingSymbols _, lines_visit_recordingExpressions _,
    lines_visit_recordingTerms _,
    fun _ _ _ overridden skipped act => visit_overriding overridden skipped act node⟩

/-- The listing of `<a> ::= "x" <b>;` without what is below its alternative, off its trace; and what
a visitor of the terms does, with the steps kept as a record. -/
theorem Node.lines_visit_production :
    let node := Node.production
      ⟨⟨"a"⟩, [⟨[.ofSymbol (⟨"x"⟩ : Terminal), .ofSymbol (⟨"b"⟩ : Nonterminal)]⟩]⟩
    ((node.listing.filter fun entry => (node.above entry.1).all (·.kind ∉ [.expression])).map
        (·.2.line)).toArray = #["production", "nonterminal:a", "expression"] ∧
      lines ((overriding [.term] [.term] fun n => Recording.line n.line).visit node) =
        #["term", "term"] ∧
      lines (((node.listing.filter fun entry => entry.2.kind ∈ [.term] &&
          (node.above entry.1).all (descends [.term] [.term])).map Prod.snd).forM
        fun n => Recording.line n.line) = #["term", "term"] := by
  intro node
  have h := Node.lines_visit node
  have hterms := h.2.2.2.2.2.2 Recording [.term] [.term] fun n => Recording.line n.line
  exact ⟨(h.2.2.1 [.expression]).symm, rfl, congrArg lines hterms.symm⟩

end BnfText

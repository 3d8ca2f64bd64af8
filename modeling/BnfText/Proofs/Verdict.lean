import BnfText.Grammar.Node
import BnfText.Proofs.Size
import BnfText.Proofs.WellFormed

/-!
# BnfText.Proofs.Verdict

The verdict of the check on a tree.  The walk carries one verdict along and adds to it what each
node requires, so a requirement that is not met anywhere spoils it, whatever is visited before or
after.

* `Grammar.Representable` — the condition on a tree, said of its lists and characters alone;
* `requires_visit` — from any node, the walk adds the verdict on the node to the one it is given;
* `Node.isWellFormed_of_descendant?` — a tree is no better than any of its nodes;
* `Grammar.isWellFormed_exact` — what the check decides, and how verdicts are put together.
-/

namespace BnfText

/-! ## The condition in full -/

/-- Every right-hand side has an alternative, every alternative has a term, and the text of every
symbol, left-hand sides included, holds only characters that its kind can be written with: text
characters and those that have an escape, in a terminal the angle brackets too. -/
structure Grammar.Representable (g : Grammar) : Prop where
  rhs_ne_nil : ∀ p ∈ g.productions, p.rhs ≠ []
  terms_ne_nil : ∀ p ∈ g.productions, ∀ e ∈ p.rhs, e.terms ≠ []
  lhs : ∀ p ∈ g.productions, ∀ c ∈ p.lhs.text.toList, IsTextChar c ∨ c ∈ ['"', '\\', '\n', '\t']
  nonterminal : ∀ p ∈ g.productions, ∀ e ∈ p.rhs, ∀ s : Nonterminal, .ofSymbol s ∈ e.terms →
    ∀ c ∈ s.text.toList, IsTextChar c ∨ c ∈ ['"', '\\', '\n', '\t']
  terminal : ∀ p ∈ g.productions, ∀ e ∈ p.rhs, ∀ s : Terminal, .ofSymbol s ∈ e.terms →
    ∀ c ∈ s.text.toList, (IsTextChar c ∨ c = '<' ∨ c = '>') ∨ c ∈ ['"', '\\', '\n', '\t']

/-- The characters with an escape, by name. -/
theorem isSome_escapeLetter?_iff {c : Char} :
    (escapeLetter? c).isSome = true ↔ c ∈ ['"', '\\', '\n', '\t'] := by
  rw [Option.isSome_iff_ne_none, ne_eq, escapeLetter?_eq_none_iff, Bool.not_eq_false]
  exact decide_eq_true_iff

/-- What may stand in a symbol, by name. -/
theorem SymbolKind.allows_iff {kind : SymbolKind} {c : Char} :
    kind.allows c = true ↔
      (IsTextChar c ∨ kind = terminal ∧ (c = '<' ∨ c = '>')) ∨ c ∈ ['"', '\\', '\n', '\t'] := by
  rw [allows, Bool.or_eq_true, isPlain_iff, isSome_escapeLetter?_iff]

theorem Nonterminal.wellFormed_iff {s : Nonterminal} :
    s.WellFormed ↔ ∀ c ∈ s.text.toList, IsTextChar c ∨ c ∈ ['"', '\\', '\n', '\t'] := by
  simp [Symbol.WellFormed, SymbolKind.allows_iff]

theorem Terminal.wellFormed_iff {s : Terminal} :
    s.WellFormed ↔
      ∀ c ∈ s.text.toList, (IsTextChar c ∨ c = '<' ∨ c = '>') ∨ c ∈ ['"', '\\', '\n', '\t'] := by
  simp [Symbol.WellFormed, SymbolKind.allows_iff]

/-- The condition of the check and the condition in full are the same. -/
theorem Grammar.wellFormed_iff_representable {g : Grammar} : g.WellFormed ↔ g.Representable := by
  constructor
  · intro h
    have hterm {p e} (hp : p ∈ g.productions) (he : e ∈ p.rhs) := ((h p hp).2.2 e he).2
    constructor
    · exact fun p hp => (h p hp).2.1
    · exact fun p hp e he => ((h p hp).2.2 e he).1
    · exact fun p hp => Nonterminal.wellFormed_iff.1 (h p hp).1
    · exact fun p hp e he s hs => Nonterminal.wellFormed_iff.1 (hterm hp he _ hs)
    · exact fun p hp e he s hs => Terminal.wellFormed_iff.1 (hterm hp he _ hs)
  · intro h p hp
    refine ⟨Nonterminal.wellFormed_iff.2 (h.lhs p hp), h.rhs_ne_nil p hp, fun e he =>
      ⟨h.terms_ne_nil p hp e he, fun t ht => ?_⟩⟩
    obtain ⟨kind, s⟩ := t
    cases kind with
    | terminal => exact Terminal.wellFormed_iff.2 (h.terminal p hp e he s ht)
    | nonterminal => exact Nonterminal.wellFormed_iff.2 (h.nonterminal p hp e he s ht)

/-- No symbol between angle brackets holds an angle bracket. -/
theorem Nonterminal.not_mem_angle {s : Nonterminal} (h : s.WellFormed) :
    '<' ∉ s.text.toList ∧ '>' ∉ s.text.toList := by
  have hless : SymbolKind.nonterminal.allows '<' = false := by decide
  have hgreater : SymbolKind.nonterminal.allows '>' = false := by decide
  exact ⟨fun hc => Bool.false_ne_true (hless.symm.trans (h _ hc)),
    fun hc => Bool.false_ne_true (hgreater.symm.trans (h _ hc))⟩

/-! ## The verdict from any node -/

/-- Whether what a node says can be written down. -/
def Node.isWellFormed : Node → Bool
  | grammar g => g.isWellFormed
  | production p => p.isWellFormed
  | expression e => e.isWellFormed
  | term t => t.isWellFormed
  | symbol s => s.isWellFormed

/-- Over a grammar the walk adds the verdict on the grammar. -/
theorem requires_visitGrammar (g : Grammar) :
    Requires (wellFormedVisitor.visitGrammar g) g.isWellFormed := by
  rw [g.isWellFormed_eq_all]
  exact requires_forM requires_visitProduction g.productions

/-- From any node, the walk takes the verdict over that it is given and adds the one on the node. -/
theorem requires_visit (node : Node) :
    Requires (wellFormedVisitor.visit node) node.isWellFormed := by
  cases node with
  | grammar g => exact requires_visitGrammar g
  | production p => exact requires_visitProduction p
  | expression e => exact requires_visitExpression e
  | term t => exact requires_visitTerm t
  | symbol s => exact requires_visitSymbol s

namespace Node

variable {node part : Node}

/-- A node is no better than its parts. -/
theorem isWellFormed_of_isPart (hpart : part.IsPart node) (h : node.isWellFormed = true) :
    part.isWellFormed = true := by
  cases hpart with
  | @production g p hp =>
      rw [isWellFormed, g.isWellFormed_eq_all] at h
      exact List.all_eq_true.1 h p hp
  | lhs p => exact p.lhs.isWellFormed_iff.2 (p.isWellFormed_iff.1 h).1
  | @expression p e he => exact e.isWellFormed_iff.2 ((p.isWellFormed_iff.1 h).2.2 e he)
  | @term e t ht => exact t.isWellFormed_iff.2 ((e.isWellFormed_iff.1 h).2 t ht)
  | inner t => exact h

/-- A node is no better than any node below it. -/
theorem isWellFormed_of_descendant? {steps : List Step}
    (hpart : node.descendant? steps = some part) (h : node.isWellFormed = true) :
    part.isWellFormed = true :=
  of_descendant? isWellFormed_of_isPart hpart h

end Node

/-! ## Verdicts on parts -/

namespace Grammar

/-- In a grammar that can be written down every symbol can be. -/
theorem wellFormed_of_mem_symbols {g : Grammar} (h : g.WellFormed) {t : Term}
    (ht : t ∈ g.symbols) : t.WellFormed := by
  obtain ⟨p, hp, ht⟩ := List.mem_flatMap.1 ht
  obtain ⟨hlhs, _, hrhs⟩ := h p hp
  rcases List.mem_cons.1 ht with rfl | ht
  · exact hlhs
  · obtain ⟨e, he, ht⟩ := List.mem_flatMap.1 ht
    exact (hrhs e he).2 t ht

/-- The verdict on productions from several lists, in any order, is that on all the lists. -/
theorem isWellFormed_of_perm {ps : List Production} {pss : List (List Production)}
    (h : ps.Perm pss.flatten) :
    isWellFormed ⟨ps⟩ = pss.all fun part => isWellFormed ⟨part⟩ := by
  simp only [isWellFormed_eq_all]
  rw [h.all_eq, List.all_flatten]

/-- The check says yes just for the trees that meet the condition, in which no nonterminal holds an
angle bracket.  From any node it adds the verdict on the node to the one it is given, so a fault is
never made good: a tree in which some node is faulty is faulty.  Productions from several lists, in
any order, are judged as the lists are. -/
theorem isWellFormed_exact :
    (∀ g : Grammar, g.isWellFormed = true ↔ g.Representable) ∧
    (∀ g : Grammar, g.isWellFormed = true → ∀ s : Nonterminal, .ofSymbol s ∈ g.symbols →
      '<' ∉ s.text.toList ∧ '>' ∉ s.text.toList) ∧
    (∀ (node : Node) (verdict : Bool),
      wellFormedVisitor.visit node verdict = ((), verdict && node.isWellFormed)) ∧
    (∀ (g : Grammar) (steps : List Node.Step) (node : Node),
      (Node.grammar g).descendant? steps = some node → node.isWellFormed = false →
        g.isWellFormed = false) ∧
    ∀ (ps : List Production) (pss : List (List Production)), ps.Perm pss.flatten →
      isWellFormed ⟨ps⟩ = pss.all fun part => isWellFormed ⟨part⟩ := by
  refine ⟨fun g => g.isWellFormed_iff.trans wellFormed_iff_representable, fun g h s hs => ?_,
    requires_visit, fun g steps node hnode hfault => ?_, fun _ _ => isWellFormed_of_perm⟩
  · have hwell := wellFormed_of_mem_symbols (g.isWellFormed_iff.1 h) hs
    exact Nonterminal.not_mem_angle hwell
  · refine Bool.eq_false_iff.2 fun hwell => ?_
    have hgood : node.isWellFormed = true := Node.isWellFormed_of_descendant? hnode hwell
    exact Bool.false_ne_true (hfault.symm.trans hgood)

/-- A production that is at fault only in a symbol far down, and one without fault after it. -/
def masked : List Production :=
  [⟨⟨"a"⟩, [⟨[.ofSymbol (⟨"x"⟩ : Terminal), .ofSymbol (⟨"<b"⟩ : Nonterminal)]⟩]⟩,
    ⟨⟨"c"⟩, [⟨[.ofSymbol (⟨"<d>"⟩ : Terminal)]⟩]⟩]

/-- The fault far down spoils the grammar in either order of its productions, and what is left
without it is good. -/
theorem isWellFormed_exact_masked :
    isWellFormed ⟨masked⟩ = false ∧ ¬ Representable ⟨masked⟩ ∧
      isWellFormed ⟨masked.reverse⟩ = false ∧ isWellFormed ⟨masked.drop 1⟩ = true ∧
        '<' ∉ "c".toList := by
  obtain ⟨hiff, hangle, _, hdescendant, hperm⟩ := isWellFormed_exact
  have hfault : (Node.symbol (⟨"<b"⟩ : Nonterminal)).isWellFormed = false := by decide
  have hmasked : isWellFormed ⟨masked⟩ = false :=
    hdescendant ⟨masked⟩ [.nth 0, .nth 0, .nth 1, .inner] _ rfl hfault
  have hreverse := hperm masked.reverse [masked.take 1, masked.drop 1] (List.reverse_perm masked)
  have hdrop : isWellFormed ⟨masked.drop 1⟩ = true := by decide +kernel
  have htake : isWellFormed ⟨masked.take 1⟩ = false := by decide +kernel
  refine ⟨hmasked, fun h => ?_, ?_, hdrop, (hangle _ hdrop ⟨"c"⟩ List.mem_cons_self).1⟩
  · exact Bool.false_ne_true (hmasked.symm.trans ((hiff _).2 h))
  · simpa [htake] using hreverse

end Grammar

end BnfText

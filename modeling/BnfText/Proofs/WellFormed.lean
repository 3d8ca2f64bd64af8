import BnfText.Grammar.WellFormed
import BnfText.Proofs.Derivation

/-!
# BnfText.Proofs.WellFormed

The condition on trees that can be written down, the check of it, and the trees that texts give.

* `Grammar.isWellFormed_iff` — the check made in one walk decides the condition;
* `Grammar.wellFormed_of_derives` — a derived tree meets the condition, and has a production.
-/

namespace BnfText

/-! ## The check -/

/-- The action `m` takes a verdict over and adds the requirement `b` to it. -/
def Requires (m : StateM Bool Unit) (b : Bool) : Prop := ∀ verdict, m verdict = ((), verdict && b)

section Requires

variable {m m' : StateM Bool Unit} {b b' : Bool}

theorem requires_require (b : Bool) : Requires (require b) b := fun _ => rfl

/-- Two actions one after the other require what both require. -/
theorem requires_bind (h : Requires m b) (h' : Requires m' b') :
    Requires (m >>= fun _ => m') (b && b') := by
  intro verdict
  show m' (m verdict).2 = _
  rw [h verdict, h' (verdict && b), Bool.and_assoc]

/-- A walk over a list requires what it requires of each item. -/
theorem requires_forM {α : Type} {f : α → StateM Bool Unit} {p : α → Bool}
    (h : ∀ a, Requires (f a) (p a)) (as : List α) : Requires (as.forM f) (as.all p) := by
  induction as with
  | nil =>
      intro verdict
      rw [List.all_nil, Bool.and_true]
      rfl
  | cons a as ih => exact requires_bind (h a) ih

end Requires

/-- Whether the symbol of a term can be written down. -/
def Term.isWellFormed (t : Term) : Bool := t.symbol.isWellFormed

/-- Whether an alternative has terms, all of which can be written down. -/
def Expression.isWellFormed (e : Expression) : Bool :=
  !e.terms.isEmpty && e.terms.all Term.isWellFormed

/-- Whether a production has alternatives that can be written down. -/
def Production.isWellFormed (p : Production) : Bool :=
  !p.rhs.isEmpty && (p.lhs.isWellFormed && p.rhs.all Expression.isWellFormed)

/-- At a symbol the walk requires that the symbol can be written down. -/
theorem requires_visitSymbol {kind : SymbolKind} (s : Symbol kind) :
    Requires (wellFormedVisitor.visitSymbol s) s.isWellFormed := by
  cases kind with
  | terminal => exact requires_require _
  | nonterminal => exact requires_require _

theorem requires_visitTerm (t : Term) : Requires (wellFormedVisitor.visitTerm t) t.isWellFormed :=
  requires_visitSymbol t.symbol

/-- At an alternative it requires that there are terms, and then what they require. -/
theorem requires_visitExpression (e : Expression) :
    Requires (wellFormedVisitor.visitExpression e) e.isWellFormed :=
  requires_bind (requires_require _) (requires_forM requires_visitTerm e.terms)

/-- At a production it requires that there are alternatives, and then what its symbol and they
require. -/
theorem requires_visitProduction (p : Production) :
    Requires (wellFormedVisitor.visitProduction p) p.isWellFormed :=
  requires_bind (requires_require _)
    (requires_bind (requires_visitSymbol p.lhs) (requires_forM requires_visitExpression p.rhs))

/-- The walk over a grammar checks each production apart. -/
theorem Grammar.isWellFormed_eq_all (g : Grammar) :
    g.isWellFormed = g.productions.all Production.isWellFormed := by
  have hwalk : Requires (wellFormedVisitor.visitGrammar g)
      (g.productions.all Production.isWellFormed) :=
    requires_forM requires_visitProduction g.productions
  rw [Grammar.isWellFormed, hwalk true, Bool.true_and]

/-- The check of a symbol decides its condition. -/
theorem Symbol.isWellFormed_iff {kind : SymbolKind} (s : Symbol kind) :
    s.isWellFormed = true ↔ s.WellFormed := by
  simp [Symbol.isWellFormed, Symbol.WellFormed]

theorem Term.isWellFormed_iff (t : Term) : t.isWellFormed = true ↔ t.WellFormed :=
  t.symbol.isWellFormed_iff

theorem Expression.isWellFormed_iff (e : Expression) : e.isWellFormed = true ↔ e.WellFormed := by
  simp [Expression.isWellFormed, Expression.WellFormed, Term.isWellFormed_iff]

theorem Production.isWellFormed_iff (p : Production) : p.isWellFormed = true ↔ p.WellFormed := by
  simp only [Production.isWellFormed, Production.WellFormed, Bool.and_eq_true, List.all_eq_true,
    Symbol.isWellFormed_iff, Expression.isWellFormed_iff, Bool.not_eq_true',
    List.isEmpty_eq_false_iff]
  exact and_left_comm

/-- The check decides the condition. -/
theorem Grammar.isWellFormed_iff (g : Grammar) : g.isWellFormed = true ↔ g.WellFormed := by
  simp only [Grammar.isWellFormed_eq_all, Grammar.WellFormed, List.all_eq_true,
    Production.isWellFormed_iff]

/-! ## Trees without empty lists -/

/-- Every production has an alternative and every alternative has a term, whatever the symbols
hold. -/
def Grammar.NowhereEmpty (g : Grammar) : Prop :=
  ∀ p ∈ g.productions, p.rhs ≠ [] ∧ ∀ e ∈ p.rhs, e.terms ≠ []

instance (g : Grammar) : Decidable g.NowhereEmpty :=
  inferInstanceAs (Decidable (∀ p ∈ g.productions, p.rhs ≠ [] ∧ ∀ e ∈ p.rhs, e.terms ≠ []))

/-! ## Derived trees -/

/-- What holds of everything that a rule derives holds of all items of a run. -/
theorem Star.forall {α : Type} {D : List Char → α → Prop} {P : α → Prop}
    {t : List Char} {as : List α} (hstar : Star D t as) (h : ∀ t a, D t a → P a) :
    ∀ a ∈ as, P a := by
  induction hstar with
  | nil => simp
  | cons ha _ ih => simpa using ⟨h _ _ ha, ih⟩

/-- The blanks after the items make no difference. -/
theorem Star.forall_thenBlanks {α : Type} {D : List Char → α → Prop} {P : α → Prop}
    {t : List Char} {as : List α} (hstar : Star (DerivesThenBlanks D) t as)
    (h : ∀ t a, D t a → P a) : ∀ a ∈ as, P a := by
  have hitem : ∀ t a, DerivesThenBlanks D t a → P a := by
    intro t a hthen
    cases hthen with
    | mk ha _ => exact h _ _ ha
  exact hstar.forall hitem

/-- What is spelled may stand in a symbol. -/
theorem SymbolKind.allows_of_derivesChar {kind : SymbolKind} {t : List Char} {c : Char}
    (h : kind.DerivesChar t c) : kind.allows c = true := by
  cases derivesChar_iff.1 h with
  | inl hplain => simp [allows, hplain.2]
  | inr hescape =>
      obtain ⟨letter, _, hletter⟩ := derivesEscape_iff.1 hescape
      have hspelled := unescape?_eq_some_iff.1 hletter
      simp [allows, hspelled]

/-- A symbol that is derived can be written down. -/
theorem Symbol.wellFormed_of_derives {kind : SymbolKind} {t : List Char} {s : Symbol kind}
    (h : Symbol.Derives t s) : s.WellFormed := by
  obtain ⟨u, _, hstar⟩ := Symbol.derives_iff.1 h
  exact hstar.forall fun _ _ => SymbolKind.allows_of_derivesChar

theorem Term.wellFormed_of_derives {t : List Char} {term : Term} (h : Term.Derives t term) :
    term.WellFormed := Symbol.wellFormed_of_derives (Term.derives_iff.1 h)

/-- An alternative that is derived has terms, and they can be written down. -/
theorem Expression.wellFormed_of_derives {t : List Char} {e : Expression}
    (h : Expression.Derives t e) : e.WellFormed := by
  cases h with
  | mk hfirst hfurther =>
      have hall := (Star.cons hfirst hfurther).forall_thenBlanks fun _ _ =>
        Term.wellFormed_of_derives
      exact ⟨List.cons_ne_nil _ _, hall⟩

theorem Expression.wellFormed_of_derivesAfterBar {t : List Char} {e : Expression}
    (h : Expression.DerivesAfterBar t e) : e.WellFormed := by
  cases h with
  | mk _ he => exact Expression.wellFormed_of_derives he

/-- A right-hand side that is derived has alternatives, and they can be written down. -/
theorem Expression.wellFormed_of_derivesAll {t : List Char} {es : List Expression}
    (h : Expression.DerivesAll t es) : es ≠ [] ∧ ∀ e ∈ es, e.WellFormed := by
  cases h with
  | mk hfirst hfurther =>
      have hfurther := hfurther.forall fun _ _ => Expression.wellFormed_of_derivesAfterBar
      have hall := List.forall_mem_cons.2 ⟨Expression.wellFormed_of_derives hfirst, hfurther⟩
      exact ⟨List.cons_ne_nil _ _, hall⟩

theorem Production.wellFormed_of_derives {t : List Char} {p : Production}
    (h : Production.Derives t p) : p.WellFormed := by
  cases h with
  | mk hlhs _ _ hrhs =>
      exact ⟨Symbol.wellFormed_of_derives hlhs, Expression.wellFormed_of_derivesAll hrhs⟩

/-- A derived tree can be written down, and has a production. -/
theorem Grammar.wellFormed_of_derives {t : List Char} {g : Grammar} (h : Grammar.Derives t g) :
    g.productions ≠ [] ∧ g.WellFormed := by
  cases h with
  | mk hfirst hfurther =>
      have hall := (Star.cons hfirst hfurther).forall_thenBlanks fun _ _ =>
        Production.wellFormed_of_derives
      exact ⟨List.cons_ne_nil _ _, hall⟩

end BnfText

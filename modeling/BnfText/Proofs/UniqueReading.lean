import BnfText.Proofs.Defect
import BnfText.Proofs.Spelling
import BnfText.Proofs.Splitting

/-!
# BnfText.Proofs.UniqueReading

The canonical text determines the tree, also one that is not read back from it.  Each part can be
split off a text in one way only: a character's spelling whatever follows it, a symbol by its
closing delimiter, and a list where neither another item nor the separator before one can follow.
What the symbols hold does not matter, as long as no nonterminal holds its closing delimiter, which
is not escaped.

* `Symbol.splitsOff_printed`, `Term.splitsOff_printed` — a symbol ends where its delimiter is met;
* `Expression.splitsOff_printed`, `Production.splitsOff_printed` — the parts of a grammar;
* `Grammar.print_unambiguous` — the canonical text determines the tree, a symbol's text the symbol.
-/

namespace BnfText

/-! ## Symbols -/

/-- A character is told by its spelling, whatever follows. -/
theorem splitsOff_spelling {valid : Char → Prop} : SplitsOff valid spelling fun _ => True := by
  intro c d _ _ u v _ _ heq
  cases hc : escapeLetter? c with
  | none =>
      cases hd : escapeLetter? d with
      | none => simpa [spelling_of_none hc, spelling_of_none hd] using heq
      | some letter =>
          -- A backslash that began no escape would be one that stands for itself.
          obtain ⟨rfl, _⟩ : c = '\\' ∧ u = letter :: v := by
            simpa [spelling_of_none hc, spelling_of_some hd] using heq
          cases hc
  | some letter =>
      cases hd : escapeLetter? d with
      | none =>
          obtain ⟨rfl, _⟩ : '\\' = d ∧ letter :: u = v := by
            simpa [spelling_of_some hc, spelling_of_none hd] using heq
          cases hd
      | some letter' =>
          obtain ⟨rfl, rfl⟩ : letter = letter' ∧ u = v := by
            simpa [spelling_of_some hc, spelling_of_some hd] using heq
          rw [← unescape?_eq_some_iff] at hc hd
          exact ⟨Option.some.inj (hc.symm.trans hd), rfl⟩

theorem spelling_ne_nil (c : Char) : spelling c ≠ [] := by
  cases hc : escapeLetter? c with
  | none => simp [spelling_of_none hc]
  | some letter => simp [spelling_of_some hc]

/-- Spelled characters can be told from what no spelling begins. -/
theorem splitsOff_spellings {valid : Char → Prop} :
    SplitsOff (fun cs : List Char => ∀ c ∈ cs, valid c) (List.flatMap spelling)
      (NoneBegins valid spelling) :=
  splitsOff_spelling.flatMap (fun _ _ _ => trivial) fun _ hstop => ⟨trivial, hstop⟩

/-- Two texts with the same spelling are the same. -/
theorem spellings_injective : Function.Injective (List.flatMap spelling) := by
  intro cs cs' heq
  have hend : NoneBegins (fun _ => True) spelling [] := fun c _ hbegins =>
    spelling_ne_nil c (List.prefix_nil.1 hbegins)
  exact splitsOff_spellings.eq_of_eq hend (fun _ _ => trivial) (fun _ _ => trivial) heq

/-- A text has a spelling of its own, whatever it holds. -/
theorem spelled_injective : Function.Injective spelled := by
  intro s s' heq
  apply String.toList_injective
  apply spellings_injective
  rw [← toList_spelled, ← toList_spelled, heq]

theorem SymbolKind.opening_injective : Function.Injective opening := by
  intro kind kind' heq
  have hopens : ofOpening? kind.opening = some kind' := ofOpening?_eq_some_iff.2 heq
  rw [ofOpening?_eq_some_iff.2 rfl] at hopens
  exact Option.some.inj hopens

/-- The characters that may stand in a symbol of the kind without ending it. -/
def SymbolKind.Within (kind : SymbolKind) (c : Char) : Prop := kind = .nonterminal → c ≠ '>'

theorem Symbol.HoldsNoClosing.within {kind : SymbolKind} {s : Symbol kind} (h : s.HoldsNoClosing) :
    ∀ c ∈ s.text.toList, kind.Within c := by
  rintro c hc hkind rfl
  exact h hkind hc

/-- The closing delimiter of a kind begins the spelling of no character that may stand within. -/
theorem SymbolKind.noneBegins_closing (kind : SymbolKind) (w : List Char) :
    NoneBegins kind.Within spelling (kind.closing :: w) := by
  intro c hc hbegins
  cases hletter : escapeLetter? c with
  | none =>
      obtain rfl : c = kind.closing := by simpa [spelling_of_none hletter] using hbegins
      cases kind with
      | terminal => cases hletter
      | nonterminal => exact hc rfl rfl
  | some letter =>
      obtain ⟨hback, _⟩ : '\\' = kind.closing ∧ [letter] <+: w := by
        simpa [spelling_of_some hletter, List.cons_prefix_cons] using hbegins
      cases kind <;> cases hback

/-- A symbol is told by its printed form, whatever follows: its text ends where the delimiter is
met. -/
theorem Symbol.splitsOff_printed (kind : SymbolKind) :
    SplitsOff (fun s : Symbol kind => s.HoldsNoClosing) printed fun _ => True := by
  intro s s' hs hs' u v _ _ heq
  rw [printed_symbol, printed_symbol] at heq
  obtain ⟨htext, hrest⟩ := splitsOff_spellings hs.within hs'.within
    (kind.noneBegins_closing u) (kind.noneBegins_closing v) (by simpa using heq)
  obtain ⟨text⟩ := s
  obtain ⟨text'⟩ := s'
  obtain rfl : text = text' := String.toList_injective htext
  exact ⟨rfl, List.tail_eq_of_cons_eq hrest⟩

/-- The opening delimiter tells the kinds apart, also where a symbol cannot be told from what
follows it. -/
theorem Term.kind_eq_of_printed {t t' : Term} {u v : List Char}
    (heq : printed t ++ u = printed t' ++ v) : t.kind = t'.kind := by
  rw [printed_term, printed_term, printed_symbol, printed_symbol] at heq
  exact SymbolKind.opening_injective (List.head_eq_of_cons_eq heq)

/-- A term is told by its printed form, whatever follows. -/
theorem Term.splitsOff_printed :
    SplitsOff (fun t : Term => t.symbol.HoldsNoClosing) printed fun _ => True := by
  intro t t' ht ht' u v hu hv heq
  obtain ⟨kind, s⟩ := t
  obtain ⟨kind', s'⟩ := t'
  obtain rfl : kind = kind' := kind_eq_of_printed heq
  obtain ⟨rfl, rfl⟩ := Symbol.splitsOff_printed kind ht ht' hu hv heq
  exact ⟨rfl, rfl⟩

/-- A term by itself is determined by its printed form, whatever its symbol holds. -/
theorem Term.print_injective : Function.Injective (print : Term → String) := by
  intro t t' heq
  have hprinted : printed t = printed t' := congrArg String.toList heq
  obtain ⟨kind, ⟨text⟩⟩ := t
  obtain ⟨kind', ⟨text'⟩⟩ := t'
  obtain rfl : kind = kind' := kind_eq_of_printed (congrArg (· ++ []) hprinted)
  rw [printed_term, printed_term, printed_symbol, printed_symbol] at hprinted
  have hspellings := List.tail_eq_of_cons_eq (List.append_cancel_right hprinted)
  obtain rfl : text = text' := String.toList_injective (spellings_injective hspellings)
  rfl

/-! ## Alternatives and productions -/

/-- The alternative has terms, and no nonterminal in it holds what ends it. -/
def Expression.Separable (e : Expression) : Prop := e.terms ≠ [] ∧ e.HoldsNoClosing

/-- The production has alternatives, which have terms, and no nonterminal holds what ends it. -/
def Production.Separable (p : Production) : Prop :=
  p.lhs.HoldsNoClosing ∧ p.rhs ≠ [] ∧ ∀ e ∈ p.rhs, e.Separable

/-- No further term of an alternative stands at the front of `w`. -/
def NoTermBegins (w : List Char) : Prop :=
  NoneBegins (fun t : Term => t.symbol.HoldsNoClosing) (fun t => [' '] ++ printed t) w

/-- Where no space and delimiter follow, no further term does. -/
theorem noTermBegins_of_opening {w : List Char}
    (h : ∀ kind : SymbolKind, ¬ [' ', kind.opening] <+: w) : NoTermBegins w := by
  intro t _ hbegins
  have hopening : [' ', t.kind.opening] <+: [' '] ++ printed t := by
    rw [printed_term, printed_symbol]
    exact ⟨_, rfl⟩
  exact h t.kind (hopening.trans hbegins)

theorem noTermBegins_bar (w : List Char) : NoTermBegins ([' ', '|', ' '] ++ w) := by
  refine noTermBegins_of_opening fun kind hbegins => ?_
  cases kind <;> simp [SymbolKind.opening, List.cons_prefix_cons] at hbegins

theorem noTermBegins_semicolon (w : List Char) : NoTermBegins (';' :: w) := by
  refine noTermBegins_of_opening fun kind hbegins => ?_
  simp [List.cons_prefix_cons] at hbegins

/-- An alternative is told by its printed form where no further term follows. -/
theorem Expression.splitsOff_printed : SplitsOff Expression.Separable printed NoTermBegins := by
  intro e e' he he' u v hu hv heq
  have hterms := Term.splitsOff_printed.intercalate (fun _ => trivial)
    fun w (hw : NoTermBegins w) => ⟨trivial, hw⟩
  rw [printed_expression, printed_expression] at heq
  obtain ⟨terms⟩ := e
  obtain ⟨terms'⟩ := e'
  obtain ⟨rfl, rfl⟩ := hterms he he' hu hv heq
  exact ⟨rfl, rfl⟩

/-- The alternatives of a production can be told from the semicolon after them. -/
theorem Expression.splitsOff_alternatives :
    SplitsOff (fun es : List Expression => es ≠ [] ∧ ∀ e ∈ es, e.Separable)
      (fun es => [' ', '|', ' '].intercalate (es.map printed)) fun u => ∃ w, u = ';' :: w := by
  refine Expression.splitsOff_printed.intercalate noTermBegins_bar ?_
  rintro _ ⟨w, rfl⟩
  refine ⟨noTermBegins_semicolon w, fun e _ hbegins => ?_⟩
  simp [List.cons_prefix_cons] at hbegins

/-- A production is told by its printed form, whatever follows. -/
theorem Production.splitsOff_printed :
    SplitsOff Production.Separable printed fun _ => True := by
  intro p p' hp hp' u v _ _ heq
  obtain ⟨lhs, rhs⟩ := p
  obtain ⟨lhs', rhs'⟩ := p'
  obtain ⟨hlhs, hrhs⟩ := hp
  obtain ⟨hlhs', hrhs'⟩ := hp'
  simp only [printed_production, List.append_assoc] at heq
  obtain ⟨rfl, hsides⟩ := Symbol.splitsOff_printed _ hlhs hlhs' trivial trivial heq
  obtain ⟨rfl, hrest⟩ := Expression.splitsOff_alternatives hrhs hrhs' ⟨u, rfl⟩ ⟨v, rfl⟩
    (List.append_cancel_left hsides)
  exact ⟨rfl, List.tail_eq_of_cons_eq hrest⟩

/-! ## Grammars -/

namespace Grammar

/-- Without empty lists, all productions can be told apart. -/
theorem separable_of_nowhereEmpty {g : Grammar} (hne : g.NowhereEmpty) (h : g.HoldsNoClosing) :
    ∀ p ∈ g.productions, p.Separable := by
  intro p hp
  obtain ⟨hlhs, hclosing⟩ := h p hp
  obtain ⟨hrhs, hterms⟩ := hne p hp
  exact ⟨hlhs, hrhs, fun e he => ⟨hterms e he, hclosing e he⟩⟩

/-- A grammar is told by its printed form: its productions split off one after the other. -/
theorem eq_of_printed_eq {g h : Grammar} (hg : ∀ p ∈ g.productions, p.Separable)
    (hh : ∀ p ∈ h.productions, p.Separable) (heq : printed g = printed h) : g = h := by
  have hline : SplitsOff Production.Separable (fun p => printed p ++ ['\n']) fun _ => True :=
    Production.splitsOff_printed.append fun _ => trivial
  have hlines := hline.flatMap (fun _ _ _ => trivial) fun u (hu : u = []) => by
    refine ⟨trivial, fun p _ hbegins => ?_⟩
    simp [hu] at hbegins
  obtain ⟨ps⟩ := g
  obtain ⟨ps'⟩ := h
  rw [printed_grammar, printed_grammar] at heq
  obtain rfl := hlines.eq_of_eq rfl hg hh heq
  rfl

/-- The canonical text determines a tree without empty lists, whatever its symbols hold, as long as
no nonterminal holds what ends it.  A symbol by itself is determined by its text in any case. -/
theorem print_unambiguous :
    (∀ g h : Grammar, g.NowhereEmpty → h.NowhereEmpty → g.HoldsNoClosing → h.HoldsNoClosing →
      (print g = print h ↔ g = h)) ∧
    Function.Injective spelled ∧ Function.Injective (print : Term → String) := by
  refine ⟨fun g h hg hh hg' hh' => ⟨fun heq => ?_, congrArg print⟩, spelled_injective,
    Term.print_injective⟩
  exact eq_of_printed_eq (separable_of_nowhereEmpty hg hg') (separable_of_nowhereEmpty hh hh')
    (congrArg String.toList heq)

/-- A terminal with the text of a grammar between its quotes, as far as that can be. -/
def fused : Grammar :=
  ⟨[⟨⟨"é"⟩, [⟨[.ofSymbol (⟨"a\" | \"b\";\n<c> ::= \"d"⟩ : Terminal)]⟩]⟩]⟩

/-- The grammar of that text, if nothing in it were escaped. -/
def apart : Grammar :=
  ⟨[⟨⟨"é"⟩, [⟨[.ofSymbol (⟨"a"⟩ : Terminal)]⟩, ⟨[.ofSymbol (⟨"b"⟩ : Terminal)]⟩]⟩,
    ⟨⟨"c"⟩, [⟨[.ofSymbol (⟨"d"⟩ : Terminal)]⟩]⟩]⟩

theorem print_unambiguous_fused :
    fused.isWellFormed = false ∧ apart.isWellFormed = false ∧
      (fused.NowhereEmpty ∧ fused.HoldsNoClosing) ∧ (apart.NowhereEmpty ∧ apart.HoldsNoClosing) ∧
        print fused ≠ print apart := by
  have hfused : fused.HoldsNoClosing := by decide
  have hapart : apart.HoldsNoClosing := by decide
  have hne : fused.NowhereEmpty := by decide
  have hne' : apart.NowhereEmpty := by decide
  refine ⟨by decide +kernel, by decide +kernel, ⟨hne, hfused⟩, ⟨hne', hapart⟩, fun heq => ?_⟩
  have hsame := (print_unambiguous.1 fused apart hne hne' hfused hapart).1 heq
  exact absurd hsame (by decide)

/-- Neither condition can be dropped: an empty alternative is printed like none, and a nonterminal
that holds what ends it like two. -/
example :
    print (mk [⟨⟨"a"⟩, []⟩]) = print (mk [⟨⟨"a"⟩, [⟨[]⟩]⟩]) ∧
      print (mk [⟨⟨"a"⟩, [⟨[.ofSymbol (⟨"b> <c"⟩ : Nonterminal)]⟩]⟩]) =
        print (mk [⟨⟨"a"⟩, [⟨[.ofSymbol (⟨"b"⟩ : Nonterminal),
          .ofSymbol (⟨"c"⟩ : Nonterminal)]⟩]⟩]) := by
  decide +kernel

end Grammar

end BnfText

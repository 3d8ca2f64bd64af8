import BnfText.Grammar.Canonical
import BnfText.Proofs.Printing
import BnfText.Proofs.Scan

/-!
# BnfText.Proofs.Canonical

What is read against its canonical text.  Blanks outside the literals are all that printing changes
of a text, and they are nothing that a tree depends on.  The middle between a text and its canonical
form is the text without such blanks (`compact`), which a tree has one of.

* `Grammar.strips_of_derives` — without the blanks, a derived text is the compact form of its tree;
* `Grammar.parse_strip` — texts with the same tree differ in such blanks only, and so do a piece of
  text that is read and the printed form of what is read from it;
* `Grammar.reads_wellFormed` — what is read can be written down, and canonical text stays as it is.
-/

namespace BnfText

open BnfText.Parser

/-! ## The spelling of a symbol -/

namespace SymbolKind

variable {kind : SymbolKind} {c letter : Char} {t : List Char}

/-- A character that has an escape never stands for itself. -/
theorem isPlain_of_escapeLetter? (h : escapeLetter? c = some letter) : kind.isPlain c = false := by
  unfold escapeLetter? at h
  split at h
  case h_5 => cases h
  all_goals cases kind <;> decide

/-- A character that stands for itself has no escape. -/
theorem escapeLetter?_of_isPlain (h : kind.isPlain c = true) : escapeLetter? c = none := by
  cases hletter : escapeLetter? c with
  | none => rfl
  | some letter => simp [isPlain_of_escapeLetter? hletter] at h

/-- A character of a symbol has one spelling. -/
theorem eq_spelling_of_derivesChar (h : kind.DerivesChar t c) : t = spelling c := by
  rcases derivesChar_iff.1 h with ⟨rfl, hplain⟩ | hescape
  · rw [spelling_of_none (escapeLetter?_of_isPlain hplain)]
  · obtain ⟨letter, rfl, hletter⟩ := derivesEscape_iff.1 hescape
    rw [spelling_of_some (unescape?_eq_some_iff.1 hletter)]

end SymbolKind

/-- Where each item has one text, so has a run of items. -/
theorem Star.eq_flatMap {α : Type} {D : List Char → α → Prop} {f : α → List Char}
    {t : List Char} {as : List α} (h : ∀ {t a}, D t a → t = f a) (hstar : Star D t as) :
    t = as.flatMap f := by
  induction hstar with
  | nil => rfl
  | cons ha _ ih => rw [List.flatMap_cons, ← h ha, ← ih]

/-- A symbol has one text, which is its printed form. -/
theorem Symbol.eq_printed_of_derives {kind : SymbolKind} {s : Symbol kind} {t : List Char}
    (h : Symbol.Derives t s) : t = printed s := by
  obtain ⟨u, rfl, hstar⟩ := Symbol.derives_iff.1 h
  have hu : u = s.text.toList.flatMap spelling :=
    hstar.eq_flatMap SymbolKind.eq_spelling_of_derivesChar
  rw [printed_symbol, hu]

/-! ## Compact forms -/

/-- The terms of an alternative without anything between them. -/
def Expression.compact (e : Expression) : List Char := e.terms.flatMap printed

/-- The alternatives of a right-hand side with just the bars between them. -/
def Expression.compactAll (es : List Expression) : List Char := ['|'].intercalate (es.map compact)

/-- A production without blanks outside its symbols. -/
def Production.compact (p : Production) : List Char :=
  printed p.lhs ++ ([':', ':', '='] ++ (Expression.compactAll p.rhs ++ [';']))

/-- A grammar without blanks outside its symbols. -/
def Grammar.compact (g : Grammar) : List Char := g.productions.flatMap Production.compact

/-! ### What a scan leaves of a derived text -/

section Strips

variable {t : List Char}

/-- In a symbol a scan leaves everything. -/
theorem Symbol.strips_printed {kind : SymbolKind} {s : Symbol kind} (h : Symbol.Derives t s) :
    Scan.outside.Strips t (printed s) .outside := by
  have hstrips := Symbol.strips_of_derives h
  rwa [Symbol.eq_printed_of_derives h] at hstrips ⊢

theorem Term.strips_of_derives {term : Term} (h : Term.Derives t term) :
    Scan.outside.Strips t (printed term) .outside := Symbol.strips_printed (Term.derives_iff.1 h)

theorem Term.strips_of_star {terms : List Term}
    (h : Star (DerivesThenBlanks Term.Derives) t terms) :
    Scan.outside.Strips t (terms.flatMap printed) .outside :=
  .star (Scan.strips_thenBlanks Term.strips_of_derives) h

namespace Expression

variable {e : Expression} {es : List Expression}

/-- Of an alternative a scan leaves its compact form. -/
theorem strips_of_derives (h : Expression.Derives t e) :
    Scan.outside.Strips t e.compact .outside :=
  Term.strips_of_star (Expression.derives_iff.1 h).2

/-- Of an alternative after a bar a scan leaves the bar and the compact form. -/
theorem strips_of_derivesAfterBar (h : Expression.DerivesAfterBar t e) :
    Scan.outside.Strips t (['|'] ++ e.compact) .outside := by
  cases h with
  | mk hb he => exact .cons rfl ((Scan.strips_blanks hb).append (strips_of_derives he))

/-- The compact form of several alternatives is that of the first, and then a bar before each of the
others. -/
theorem compactAll_cons (e : Expression) (es : List Expression) :
    compactAll (e :: es) = e.compact ++ es.flatMap fun e => ['|'] ++ e.compact := by
  rw [compactAll, List.map_cons, intercalate_cons, List.flatMap_map]

theorem strips_of_derivesAll (h : Expression.DerivesAll t es) :
    Scan.outside.Strips t (compactAll es) .outside := by
  cases h with
  | mk hfirst hfurther =>
      rw [compactAll_cons]
      exact (strips_of_derives hfirst).append (.star strips_of_derivesAfterBar hfurther)

end Expression

theorem Scan.strips_sign : Scan.outside.Strips [':', ':', '='] [':', ':', '='] .outside :=
  .cons rfl (.cons rfl (.char rfl))

/-- Of a production a scan leaves its compact form. -/
theorem Production.strips_of_derives {p : Production} (h : Production.Derives t p) :
    Scan.outside.Strips t p.compact .outside := by
  cases h with
  | @mk t b₁ b₂ u lhs rhs hlhs hb₁ hb₂ hall =>
      have hsemi : Scan.outside.Strips [';'] [';'] .outside := .char rfl
      have hrhs := (Expression.strips_of_derivesAll hall).append hsemi
      have hsign := Scan.strips_sign.append ((Scan.strips_blanks hb₂).append hrhs)
      have hstrips := (Symbol.strips_printed hlhs).append ((Scan.strips_blanks hb₁).append hsign)
      simpa [compact] using hstrips

theorem Production.strips_of_star {ps : List Production}
    (h : Star (DerivesThenBlanks Production.Derives) t ps) :
    Scan.outside.Strips t (ps.flatMap compact) .outside :=
  .star (Scan.strips_thenBlanks Production.strips_of_derives) h

/-- Without the blanks outside its literals, a derived text is the compact form of its tree. -/
theorem Grammar.strips_of_derives {g : Grammar} (h : Grammar.Derives t g) :
    Scan.outside.Strips t g.compact .outside :=
  Production.strips_of_star (Grammar.derives_iff.1 h).2

end Strips

/-! ### Compact forms are texts of the notation -/

/-- The compact form of an alternative is one of its texts. -/
theorem Expression.derives_compact {e : Expression} (h : e.WellFormed) :
    Expression.Derives e.compact e :=
  Expression.derives_iff.2 ⟨h.1, .flatMap fun t ht => .of_derives (Term.derives_printed (h.2 t ht))⟩

theorem Expression.derivesAll_compact {es : List Expression} (hne : es ≠ [])
    (h : ∀ e ∈ es, e.WellFormed) : Expression.DerivesAll (compactAll es) es := by
  cases es with
  | nil => exact absurd rfl hne
  | cons first further =>
      have hfirst := derives_compact (h first List.mem_cons_self)
      have hfurther : Star Expression.DerivesAfterBar
          (further.flatMap fun e => ['|'] ++ e.compact) further :=
        .flatMap fun e he =>
          .mk derivesBlanks_nil (derives_compact (h e (List.mem_cons_of_mem _ he)))
      rw [compactAll_cons]
      exact .mk hfirst hfurther

theorem Production.derives_compact {p : Production} (h : p.WellFormed) :
    Production.Derives p.compact p := by
  obtain ⟨hlhs, hne, hrhs⟩ := h
  have hderives := Production.Derives.mk (Symbol.derives_printed hlhs) derivesBlanks_nil
    derivesBlanks_nil (Expression.derivesAll_compact hne hrhs)
  simpa [compact] using hderives

/-- The compact form of a grammar is one of its texts. -/
theorem Grammar.derives_compact {g : Grammar} (hne : g.productions ≠ []) (h : g.WellFormed) :
    Grammar.Derives g.compact g :=
  Grammar.derives_iff.2
    ⟨hne, .flatMap fun p hp => .of_derives (Production.derives_compact (h p hp))⟩

/-! ## What is read and its printed form -/

namespace Parser

variable {α : Type} {p : Parser α} {D : List Char → α → Prop} {more : Char → Bool}

/-- What `p` takes differs from the printed form of what it returns, which is `shown`, only in
blanks outside literals. -/
def TakesShown (p : Parser α) (shown : α → List Char) : Prop :=
  ∀ c a c', p c = .ok a c' → ∃ t, c.rest = t ++ c'.rest ∧ c' = c.skip t.length ∧
    Scan.outside.stripped t = Scan.outside.stripped (shown a)

/-- Whatever `p` returns meets the condition `P`. -/
def Yields (p : Parser α) (P : α → Prop) : Prop := ∀ c a c', p c = .ok a c' → P a

/-- The printed form is derived again, so a scan leaves the same of it. -/
theorem Exact.takesShown {compact shown : α → List Char} (hexact : Exact p D more)
    (hp : Predictive p) (hstrips : ∀ {t a}, D t a → Scan.outside.Strips t (compact a) .outside)
    (hshown : ∀ {t a}, D t a → D (shown a) a) : TakesShown p shown := by
  intro c a c' h
  obtain ⟨t, heq, hc, ha⟩ := hexact.derives_of_ok hp h
  refine ⟨t, heq, hc, ?_⟩
  rw [(hstrips ha).stripped_eq, (hstrips (hshown ha)).stripped_eq]

/-- What a step returns meets a condition that all trees meet for which its rule derives a text. -/
theorem Exact.yields {P : α → Prop} (hexact : Exact p D more) (hp : Predictive p)
    (hD : ∀ {t a}, D t a → P a) : Yields p P := by
  intro c a c' h
  obtain ⟨_, _, _, ha⟩ := hexact.derives_of_ok hp h
  exact hD ha

end Parser

theorem Symbol.takesShown (kind : SymbolKind) : TakesShown (Symbol.read kind) printed :=
  (Symbol.exact_read kind).takesShown (Symbol.predictive_read kind) Symbol.strips_printed
    fun h => Symbol.derives_printed (Symbol.wellFormed_of_derives h)

theorem Term.takesShown : TakesShown Term.read printed :=
  Term.exact_read.takesShown Term.predictive_read Term.strips_of_derives
    fun h => Term.derives_printed (Term.wellFormed_of_derives h)

/-- An alternative is taken as it is printed, but for blanks. -/
theorem Expression.takesShown : TakesShown Expression.read printed :=
  Expression.exact_read.takesShown Expression.predictive_read Expression.strips_of_derives
    fun h => Expression.derives_printed (Expression.wellFormed_of_derives h)

theorem Expression.takesShown_all :
    TakesShown Expression.readAll fun es => [' ', '|', ' '].intercalate (es.map printed) := by
  refine Expression.exact_readAll.takesShown Expression.predictive_readAll
    Expression.strips_of_derivesAll fun h => ?_
  have hwell := Expression.wellFormed_of_derivesAll h
  exact Expression.derivesAll_printed hwell.1 hwell.2

theorem Production.takesShown : TakesShown Production.read printed :=
  Production.exact_read.takesShown Production.predictive_read Production.strips_of_derives
    fun h => Production.derives_printed (Production.wellFormed_of_derives h)

/-- A grammar is taken as it is printed, but for blanks. -/
theorem Grammar.takesShown : TakesShown Grammar.read printed := by
  refine Grammar.exact_read.takesShown Grammar.predictive_read Grammar.strips_of_derives
    fun h => ?_
  have hwell := Grammar.wellFormed_of_derives h
  exact Grammar.derives_printed hwell.1 hwell.2

/-! ## Whole texts -/

namespace Grammar

variable {text : String} {g : Grammar}

/-- A text that is derived has the compact form of its tree left. -/
theorem strip_of_derives (h : Grammar.Derives text.toList g) :
    strip text = String.ofList g.compact := by
  rw [strip, (strips_of_derives h).stripped_eq]

/-- A text that is read has the compact form of its tree left when the blanks are taken away. -/
theorem strip_of_parse (h : parse text = .ok g) : strip text = String.ofList g.compact :=
  strip_of_derives (parse_eq_ok_iff.1 h)

/-- So has the canonical text of a tree that can be written down. -/
theorem strip_print (hne : g.productions ≠ []) (hwell : g.WellFormed) :
    strip (print g) = String.ofList g.compact := strip_of_derives (derives_printed hne hwell)

/-- The compact form is read with its tree again. -/
theorem parse_compact (hne : g.productions ≠ []) (hwell : g.WellFormed) :
    parse (String.ofList g.compact) = .ok g := by
  have hderives := derives_compact hne hwell
  rwa [← String.toList_ofList (l := g.compact), ← parse_eq_ok_iff] at hderives

/-- What is read can be written down, and it has a production at least. -/
theorem wellFormed_of_parse (h : parse text = .ok g) : g.productions ≠ [] ∧ g.WellFormed :=
  wellFormed_of_derives (parse_eq_ok_iff.1 h)

/-- The blanks outside literals are nothing that the tree depends on. -/
theorem reads_stripped (h : parse text = .ok g) : parse (strip text) = .ok g := by
  obtain ⟨hne, hwell⟩ := wellFormed_of_parse h
  rw [strip_of_parse h, parse_compact hne hwell]

/-- A tree that is read again from its canonical text prints that text again. -/
theorem printsAgain_of_reread (h : g.reread = .ok g) : g.printsAgain = true := by
  unfold printsAgain
  rw [h]
  exact decide_eq_true rfl

/-- A text that is read and the canonical text of its tree are the same without the blanks outside
literals, and what is left is still read with that tree.  So two texts have the same tree just if
they are the same without those blanks.  Anywhere in a text, what a rule takes differs in such
blanks only from the printed form of what it returns. -/
theorem parse_strip :
    (∀ text g, parse text = .ok g → strip text = strip (print g) ∧ parse (strip text) = .ok g) ∧
    (∀ text text' g g', parse text = .ok g → parse text' = .ok g' →
      (g = g' ↔ strip text = strip text')) ∧
    (∀ kind, TakesShown (Symbol.read kind) printed) ∧
    TakesShown Term.read printed ∧
    TakesShown Expression.read printed ∧
    TakesShown Expression.readAll (fun es => [' ', '|', ' '].intercalate (es.map printed)) ∧
    TakesShown Production.read printed ∧
    TakesShown Grammar.read printed := by
  refine ⟨fun text g h => ?_, fun text text' g g' h h' => ?_, Symbol.takesShown, Term.takesShown,
    Expression.takesShown, Expression.takesShown_all, Production.takesShown, Grammar.takesShown⟩
  · obtain ⟨hne, hwell⟩ := wellFormed_of_parse h
    exact ⟨(strip_of_parse h).trans (strip_print hne hwell).symm, reads_stripped h⟩
  · constructor
    · intro hg
      rw [strip_of_parse h, strip_of_parse h', hg]
    · intro hstrip
      have hread := reads_stripped h
      rw [hstrip, reads_stripped h'] at hread
      exact (Except.ok.inj hread).symm

/-- A text with blanks of every sort between the parts, and with blanks and marks inside the
symbols. -/
def scattered : String := "<a b>\t::=  \"c \\\" <;\"\n|<e>;"

def scatteredTree : Grammar :=
  ⟨[⟨⟨"a b"⟩, [⟨[.ofSymbol (⟨"c \" <;"⟩ : Terminal)]⟩, ⟨[.ofSymbol (⟨"e"⟩ : Nonterminal)]⟩]⟩]⟩

theorem parse_scattered : parse scattered = .ok scatteredTree := by decide +kernel

/-- A term before a blank, read where the text goes on. -/
theorem read_term_scattered :
    Term.read ⟨['"', 'x', ' ', 'y', '"', ' ', ';'], .start, none⟩ =
      .ok (.ofSymbol (⟨"x y"⟩ : Terminal)) ⟨[' ', ';'], ⟨5, 1, 6⟩, some ⟨4, 1, 5⟩⟩ := by
  have hwell : Term.WellFormed (.ofSymbol (⟨"x y"⟩ : Terminal)) :=
    (Term.isWellFormed_iff _).1 (by decide)
  have hprinted : printed (Term.ofSymbol (⟨"x y"⟩ : Terminal)) = ['"', 'x', ' ', 'y', '"'] := by
    decide
  have hderives := Term.derives_printed hwell
  rw [hprinted] at hderives
  exact (Term.exact_read _ _ [' ', ';']).2 ⟨hderives, rfl⟩ _ rfl

/-- The laws for that text and that term; the blanks within the symbols stay. -/
theorem strip_scattered :
    strip scattered = "<a b>::=\"c \\\" <;\"|<e>;" ∧
    strip scattered = strip (print scatteredTree) ∧ parse (strip scattered) = .ok scatteredTree ∧
    strip scattered = strip (strip scattered) ∧
    Scan.outside.stripped ['"', 'x', ' ', 'y', '"'] =
      Scan.outside.stripped (printed (Term.ofSymbol (⟨"x y"⟩ : Terminal))) := by
  obtain ⟨hstrip, hread⟩ := parse_strip.1 _ _ parse_scattered
  have hagain := (parse_strip.2.1 _ _ _ _ parse_scattered hread).1 rfl
  obtain ⟨t, hrest, _, ht⟩ := parse_strip.2.2.2.1 _ _ _ read_term_scattered
  have htaken : t = ['"', 'x', ' ', 'y', '"'] := List.append_cancel_right hrest.symm
  rw [htaken] at ht
  exact ⟨by decide +kernel, hstrip, hread, hagain, ht⟩

/-- What any rule returns can be written down, and a right-hand side or a grammar that is returned
is not empty.  So a text that is read has a canonical text, which is read with the same tree and
stays as it is when it is printed again. -/
theorem reads_wellFormed :
    (∀ kind, Yields (Symbol.read kind) Symbol.WellFormed) ∧
    Yields Term.read Term.WellFormed ∧
    Yields Expression.read Expression.WellFormed ∧
    Yields Expression.readAll (fun es => es ≠ [] ∧ ∀ e ∈ es, e.WellFormed) ∧
    Yields Production.read Production.WellFormed ∧
    Yields Grammar.read (fun g => g.productions ≠ [] ∧ g.WellFormed) ∧
    ∀ text g, parse text = .ok g → g.isWellFormed = true ∧ g.productions ≠ [] ∧
      g.reread = .ok g ∧ g.printsAgain = true := by
  refine ⟨fun kind => (Symbol.exact_read kind).yields (Symbol.predictive_read kind)
      Symbol.wellFormed_of_derives,
    Term.exact_read.yields Term.predictive_read Term.wellFormed_of_derives,
    Expression.exact_read.yields Expression.predictive_read Expression.wellFormed_of_derives,
    Expression.exact_readAll.yields Expression.predictive_readAll
      Expression.wellFormed_of_derivesAll,
    Production.exact_read.yields Production.predictive_read Production.wellFormed_of_derives,
    Grammar.exact_read.yields Grammar.predictive_read Grammar.wellFormed_of_derives,
    fun text g h => ?_⟩
  obtain ⟨hne, hwell⟩ := wellFormed_of_parse h
  have hreread : g.reread = .ok g := parse_eq_ok_iff.2 (derives_printed hne hwell)
  exact ⟨g.isWellFormed_iff.2 hwell, hne, hreread, printsAgain_of_reread hreread⟩

/-- What is read there can be written down, and it is read again from its canonical text. -/
theorem readsBack_scattered :
    Term.WellFormed (.ofSymbol (⟨"x y"⟩ : Terminal)) ∧ scatteredTree.isWellFormed = true ∧
      scatteredTree.reread = .ok scatteredTree ∧ scatteredTree.printsAgain = true := by
  have hterm := reads_wellFormed.2.1 _ _ _ read_term_scattered
  obtain ⟨hwell, _, hreread, hagain⟩ := reads_wellFormed.2.2.2.2.2.2 _ _ parse_scattered
  exact ⟨hterm, hwell, hreread, hagain⟩

end Grammar

end BnfText

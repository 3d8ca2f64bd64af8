import BnfText.Proofs.Spelling

/-!
# BnfText.Proofs.ReadBack

What is printed is read back wherever it stands.  What stands before it never matters.  What follows
it matters only to the rules that go on for as long as they can: past the blanks, which they take as
well, those must not find more of the same.

* `Parser.ReadsBack` — a printed form is read back where it stands before a certain text;
* `Exact.readsBack`, `Exact.readsBack_trimStart` — from the texts that a rule is read from;
* `readsBack_printed` — what each rule needs of the text that follows.
-/

namespace BnfText

open BnfText.Parser

/-! ## What follows -/

/-- A text without the blanks at its beginning. -/
def trimStart (w : List Char) : List Char := w.dropWhile isBlank

/-- Every text is the blanks at its beginning and what is left without them. -/
theorem exists_trimStart (w : List Char) :
    ∃ b, w = b ++ trimStart w ∧ DerivesBlanks b ∧ nextIs isBlank (trimStart w) = false := by
  obtain ⟨b, u, rfl, hb, hu⟩ := exists_run isBlank w
  have htrim : trimStart (b ++ u) = u := by
    rw [trimStart, List.dropWhile_append_of_pos hb]
    cases u with
    | nil => rfl
    | cons c u => exact List.dropWhile_cons_of_neg (by rw [show isBlank c = false from hu]; simp)
  rw [htrim]
  exact ⟨b, rfl, derivesBlanks_iff.2 hb, hu⟩

/-- Without the blanks at its beginning a text does not begin with one. -/
theorem nextIs_isBlank_trimStart (w : List Char) : nextIs isBlank (trimStart w) = false := by
  obtain ⟨_, _, _, h⟩ := exists_trimStart w
  exact h

section More

variable {w : List Char}

/-- Past the blanks an alternative does not go on where no term begins. -/
theorem Expression.nextIs_more_trimStart (h : (trimStart w).head? ∉ [some '<', some '"']) :
    nextIs more (trimStart w) = false := by
  refine nextIs_or.2 ⟨nextIs_isBlank_trimStart w, nextIs_eq_false_iff.2 fun c hc => ?_⟩
  cases hbegins : Term.begins c with
  | false => rfl
  | true =>
      obtain ⟨kind, rfl⟩ := Term.begins_iff.1 hbegins
      rw [hc] at h
      cases kind <;> simp [SymbolKind.opening] at h

/-- A right-hand side does not go on either if no bar follows. -/
theorem Expression.nextIs_moreAll_trimStart
    (h : (trimStart w).head? ∉ [some '<', some '"', some '|']) :
    nextIs moreAll (trimStart w) = false := by
  simp only [List.mem_cons, not_or] at h
  obtain ⟨hangle, hquote, hbar, _⟩ := h
  have hmore : nextIs more (trimStart w) = false :=
    nextIs_more_trimStart (by simp [hangle, hquote])
  exact nextIs_or.2 ⟨hmore, nextIs_char_eq_false hbar⟩

/-- A grammar does not go on where no production begins. -/
theorem Grammar.nextIs_more_trimStart (h : (trimStart w).head? ≠ some '<') :
    nextIs more (trimStart w) = false :=
  nextIs_or.2 ⟨nextIs_isBlank_trimStart w, nextIs_char_eq_false h⟩

end More

/-! ## Reading back -/

namespace Parser

variable {α : Type} {p : Parser α} {D : List Char → α → Prop} {more : Char → Bool}
  {shown w left : List Char} {a : α}

/-- Wherever the text `shown` stands before `w`, `p` returns `a` and leaves just `left`. -/
def ReadsBack (p : Parser α) (shown : List Char) (a : α) (w left : List Char) : Prop :=
  ∀ c : Cursor, c.rest = shown ++ w →
    ∃ taken c', p c = .ok a c' ∧ c.Passes taken c' ∧ c'.rest = left

/-- What is read of a text is read back where the printed form stands for that text. -/
theorem Reads.readsBack {t : List Char} (h : Reads p t a left) (ht : t ++ left = shown ++ w) :
    ReadsBack p shown a w left := by
  intro c hc
  rw [← ht] at hc
  have hpass := Cursor.passes_skip hc
  exact ⟨t, _, h c hc, hpass, hpass.rest_eq hc⟩

/-- A rule that leaves what follows reads back the texts of its values. -/
theorem Exact.readsBack (hexact : Exact p D more) (hD : D shown a) (hstop : nextIs more w = false) :
    ReadsBack p shown a w w :=
  Reads.readsBack ((hexact ..).2 ⟨hD, hstop⟩) rfl

/-- Where the text of a value may end in blanks, the blanks that follow are taken. -/
theorem Exact.readsBack_trimStart (hexact : Exact p D more)
    (hD : ∀ b, DerivesBlanks b → D (shown ++ b) a) (hstop : nextIs more (trimStart w) = false) :
    ReadsBack p shown a w (trimStart w) := by
  obtain ⟨b, hw, hb, _⟩ := exists_trimStart w
  refine Reads.readsBack ((hexact ..).2 ⟨hD b hb, hstop⟩) ?_
  rw [List.append_assoc, ← hw]

end Parser

/-- A tree that can be written down is read back from its printed form, wherever that stands.  A
symbol, a term and a production leave just what follows; of an alternative, a right-hand side and a
grammar this holds without the blanks at the beginning of what follows, where past these blanks no
term, no term and no bar, or no production begins.  The text of a symbol is read back from its
spelling where none of its characters and no backslash follows. -/
theorem readsBack_printed (w : List Char) :
    (∀ (kind : SymbolKind) (s : Symbol kind), s.WellFormed →
      ReadsBack (Symbol.read kind) (printed s) s w w) ∧
    (∀ t : Term, t.WellFormed → ReadsBack Term.read (printed t) t w w) ∧
    (∀ p : Production, p.WellFormed → ReadsBack Production.read (printed p) p w w) ∧
    (∀ e : Expression, e.WellFormed → (trimStart w).head? ∉ [some '<', some '"'] →
      ReadsBack Expression.read (printed e) e w (trimStart w)) ∧
    (∀ es : List Expression, es ≠ [] → (∀ e ∈ es, e.WellFormed) →
      (trimStart w).head? ∉ [some '<', some '"', some '|'] →
        ReadsBack Expression.readAll ([' ', '|', ' '].intercalate (es.map printed)) es w
          (trimStart w)) ∧
    (∀ g : Grammar, g.productions ≠ [] → g.WellFormed → (trimStart w).head? ≠ some '<' →
      ReadsBack Grammar.read (printed g) g w (trimStart w)) ∧
    ∀ (kind : SymbolKind) (s : String), kind.CanHold s →
      (∀ ch, w.head? = some ch → kind.isPlain ch = false ∧ ch ≠ '\\') →
        ReadsBack kind.readText (spelled s).toList s w w := by
  refine ⟨fun kind s h => ?symbol, fun t h => ?term, fun p h => ?production,
    fun e h hw => ?expression, fun es hne h hw => ?expressions, fun g hne h hw => ?grammar,
    fun kind s h hw => ?text⟩
  -- The first three rules end at a delimiter, so nothing that follows can be more of them.
  case symbol =>
    exact (Symbol.exact_read kind).readsBack (Symbol.derives_printed h) (nextIs_never w)
  case term => exact Term.exact_read.readsBack (Term.derives_printed h) (nextIs_never w)
  case production =>
    exact Production.exact_read.readsBack (Production.derives_printed h) (nextIs_never w)
  case expression =>
    have hderives := Expression.derives_printed h
    exact Expression.exact_read.readsBack_trimStart (fun _ hb => hderives.extend hb)
      (Expression.nextIs_more_trimStart hw)
  case expressions =>
    have hderives := Expression.derivesAll_printed hne h
    exact Expression.exact_readAll.readsBack_trimStart (fun _ hb => hderives.extend hb)
      (Expression.nextIs_moreAll_trimStart hw)
  case grammar =>
    have hderives := Grammar.derives_printed hne h
    exact Grammar.exact_read.readsBack_trimStart (fun _ hb => hderives.extend hb)
      (Grammar.nextIs_more_trimStart hw)
  case text =>
    have hstop := SymbolKind.nextIs_goesOn_eq_false_iff.2 hw
    exact (SymbolKind.reads_readText_iff.2 ⟨h, rfl, hstop⟩).readsBack rfl

/-- An alternative before blanks and a bar, and a text before the quote that ends it. -/
theorem readsBack_printed_bar :
    ReadsBack Expression.read "<b> \"x\"".toList
      ⟨[.ofSymbol (⟨"b"⟩ : Nonterminal), .ofSymbol (⟨"x"⟩ : Terminal)]⟩
      " \n|<c>;".toList "|<c>;".toList ∧
    ReadsBack SymbolKind.terminal.readText "<\\\"".toList "<\"" "\";".toList "\";".toList := by
  have hafter : trimStart " \n|<c>;".toList = "|<c>;".toList := by decide
  constructor
  · have hback := (readsBack_printed " \n|<c>;".toList).2.2.2.1
      ⟨[.ofSymbol (⟨"b"⟩ : Nonterminal), .ofSymbol (⟨"x"⟩ : Terminal)]⟩
      ((Expression.isWellFormed_iff _).1 (by decide)) (by decide)
    rwa [hafter] at hback
  · have hstop : ∀ ch, "\";".toList.head? = some ch →
        SymbolKind.terminal.isPlain ch = false ∧ ch ≠ '\\' := by
      intro ch hch
      cases hch
      decide
    exact (readsBack_printed "\";".toList).2.2.2.2.2.2 .terminal "<\"" (by decide) hstop

end BnfText

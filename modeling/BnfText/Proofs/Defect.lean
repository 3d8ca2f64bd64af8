import BnfText.Proofs.Lines

/-!
# BnfText.Proofs.Defect

Trees that cannot be written down, and what is said of their printed form when it is read.  The
defects of a production are listed in the order of its text (`Production.defects`); the first one
decides the cause of the fault.

* `Production.defects_eq_nil_iff` — the trees without defects are those that can be written down;
* `Production.faultWithin_printed` — the first defect of a production is found where it stands;
* `Grammar.parse_print_of_not_isWellFormed` — the fault that a grammar with defects is read with.
-/

namespace BnfText

/-! ## Defects -/

/-- A reason why a tree cannot be written down. -/
inductive Defect
  /-- A symbol of the kind holds the character, which it cannot stand for. -/
  | character (kind : SymbolKind) (c : Char)
  /-- A right-hand side is empty, or all of it is one empty alternative. -/
  | noAlternatives
  | emptyAlternative
deriving DecidableEq

/-- What a reader of the printed form says of a defect.  A character that may not stand in a symbol
is met where the symbol could also end. -/
def Defect.cause : Defect → Cause
  | character kind c => .unexpected [.char kind.closing] (some c)
  | noAlternatives => .noAlternatives
  | emptyAlternative => .emptyAlternative

def SymbolKind.defects (kind : SymbolKind) (c : Char) : List Defect :=
  if kind.allows c then [] else [.character kind c]

def Symbol.defects {kind : SymbolKind} (s : Symbol kind) : List Defect :=
  s.text.toList.flatMap kind.defects

def Term.defects (t : Term) : List Defect := t.symbol.defects

def Expression.defects (e : Expression) : List Defect :=
  if e.terms = [] then [.emptyAlternative] else e.terms.flatMap Term.defects

/-- The defects of a right-hand side. -/
def Expression.defectsAll (es : List Expression) : List Defect :=
  if es = [] ∨ es = [⟨[]⟩] then [.noAlternatives] else es.flatMap Expression.defects

/-- The defects of a production, in the order of its text. -/
def Production.defects (p : Production) : List Defect :=
  p.lhs.defects ++ Expression.defectsAll p.rhs

/-- A symbol has no defect if it can be written down. -/
theorem Symbol.defects_eq_nil_iff {kind : SymbolKind} (s : Symbol kind) :
    s.defects = [] ↔ s.WellFormed := by
  simp [Symbol.defects, SymbolKind.defects, Symbol.WellFormed]

theorem Term.defects_eq_nil_iff (t : Term) : t.defects = [] ↔ t.WellFormed :=
  t.symbol.defects_eq_nil_iff

theorem Expression.defects_eq_nil_iff (e : Expression) : e.defects = [] ↔ e.WellFormed := by
  by_cases h : e.terms = []
  · simp [Expression.defects, Expression.WellFormed, h]
  · simp [Expression.defects, Expression.WellFormed, h, Term.defects_eq_nil_iff]

/-- A right-hand side has no defect if it has alternatives and each of them can be written down. -/
theorem Expression.defectsAll_eq_nil_iff (es : List Expression) :
    Expression.defectsAll es = [] ↔ es ≠ [] ∧ ∀ e ∈ es, e.WellFormed := by
  unfold Expression.defectsAll
  by_cases h : es = [] ∨ es = [⟨[]⟩]
  · rw [if_pos h]
    cases h with
    | inl hnil => simp [hnil]
    | inr hempty => simp [hempty, Expression.WellFormed]
  · rw [if_neg h]
    simp [not_or.1 h, Expression.defects_eq_nil_iff]

/-- The productions without defects are those that can be written down. -/
theorem Production.defects_eq_nil_iff (p : Production) : p.defects = [] ↔ p.WellFormed := by
  simp [Production.defects, Production.WellFormed, Symbol.defects_eq_nil_iff,
    Expression.defectsAll_eq_nil_iff]

/-- The first of all the things that `f` lists is the first of some item, and the items before it
list none. -/
theorem exists_of_head?_flatMap {α β : Type} {f : α → List β} {as : List α} {b : β}
    (h : (as.flatMap f).head? = some b) :
    ∃ as₁ a as₂, as = as₁ ++ a :: as₂ ∧ (∀ x ∈ as₁, f x = []) ∧ (f a).head? = some b := by
  rw [List.head?_flatMap, List.findSome?_eq_some_iff] at h
  obtain ⟨as₁, a, as₂, has, hhead, hnone⟩ := h
  exact ⟨as₁, a, as₂, has, fun x hx => List.head?_eq_none_iff.1 (hnone x hx), hhead⟩

/-! ## Faults inside a text -/

/-- The text has a fault of the kind `F` inside, whatever follows the text. -/
def FaultWithin (F : List Char → Cause → List Char → Prop) (text : List Char) (cause : Cause) :
    Prop :=
  ∃ t w, text = t ++ w ∧ ∀ more, F t cause (w ++ more)

section FaultWithin

variable {F G : List Char → Cause → List Char → Prop} {text : List Char} {cause : Cause}

/-- A fault inside a text stays there if something follows the text. -/
theorem FaultWithin.append (h : FaultWithin F text cause) (u : List Char) :
    FaultWithin F (text ++ u) cause := by
  obtain ⟨t, w, rfl, hfault⟩ := h
  refine ⟨t, w ++ u, List.append_assoc .., fun more => ?_⟩
  rw [List.append_assoc]
  exact hfault (u ++ more)

/-- A fault inside a part of a text is one inside the text if it is one after what stands before the
part. -/
theorem FaultWithin.after (h : FaultWithin F text cause) {u : List Char}
    (hF : ∀ t w, F t cause w → G (u ++ t) cause w) : FaultWithin G (u ++ text) cause := by
  obtain ⟨t, w, rfl, hfault⟩ := h
  exact ⟨u ++ t, w, (List.append_assoc ..).symm, fun more => hF t _ (hfault more)⟩

end FaultWithin

/-! ## Symbols and alternatives -/

/-- A character that may not stand in a symbol is printed as it is. -/
theorem spelling_of_not_allows {kind : SymbolKind} {c : Char} (h : kind.allows c = false) :
    spelling c = [c] := by
  have hletter : escapeLetter? c = none := by
    cases hletter : escapeLetter? c with
    | none => rfl
    | some letter => simp [SymbolKind.allows, hletter] at h
  exact spelling_of_none hletter

/-- A symbol does not go on with such a character. -/
theorem SymbolKind.goesOn_eq_false {kind : SymbolKind} {c : Char} (h : kind.allows c = false) :
    kind.goesOn c = false := by
  have hboth : kind.isPlain c = false ∧ (escapeLetter? c).isSome = false :=
    Bool.or_eq_false_iff.1 h
  have hc : c ≠ '\\' := by
    intro hc
    simp [hc, escapeLetter?] at hboth
  simp [goesOn, hc, hboth.1]

/-- No closing delimiter stands unescaped in the text of the symbol.  A quote in a terminal is
always escaped. -/
def Symbol.HoldsNoClosing {kind : SymbolKind} (s : Symbol kind) : Prop :=
  kind = .nonterminal → '>' ∉ s.text.toList

instance {kind : SymbolKind} (s : Symbol kind) : Decidable s.HoldsNoClosing :=
  inferInstanceAs (Decidable (kind = .nonterminal → '>' ∉ s.text.toList))

/-- So such a character does not close the symbol either, if none closes it too early. -/
theorem Symbol.ne_closing {kind : SymbolKind} {s : Symbol kind} (h : s.HoldsNoClosing) {c : Char}
    (hc : c ∈ s.text.toList) (hallows : kind.allows c = false) : c ≠ kind.closing := by
  intro hclosing
  subst hclosing
  cases kind with
  | terminal => simp [SymbolKind.allows, SymbolKind.closing, escapeLetter?] at hallows
  | nonterminal => exact h rfl hc

/-- The first bad character of a symbol is where reading it fails, whatever follows. -/
theorem Symbol.faultWithin_printed {kind : SymbolKind} {s : Symbol kind} {d : Defect}
    (hclosing : s.HoldsNoClosing) (h : s.defects.head? = some d) :
    FaultWithin kind.Fault (printed s) d.cause := by
  obtain ⟨cs₁, c, cs₂, htext, hgood, hbad⟩ := exists_of_head?_flatMap h
  have hallowed : ∀ x ∈ cs₁, kind.allows x = true := by
    intro x hx
    have hx := hgood x hx
    simpa [SymbolKind.defects] using hx
  obtain ⟨hallows, rfl⟩ : kind.allows c = false ∧ d = .character kind c := by
    cases hallows : kind.allows c with
    | true => simp [SymbolKind.defects, hallows] at hbad
    | false => exact ⟨rfl, by simpa [SymbolKind.defects, hallows, eq_comm] using hbad⟩
  have hmem : c ∈ s.text.toList := by simp [htext]
  have hstar : Star kind.DerivesChar (cs₁.flatMap spelling) cs₁ :=
    .flatMap fun x hx => SymbolKind.derivesChar_spelling (hallowed x hx)
  refine ⟨kind.opening :: cs₁.flatMap spelling,
    c :: (cs₂.flatMap spelling ++ [kind.closing]), ?_, fun more => ?_⟩
  · rw [printed_symbol, htext]
    simp [spelling_of_not_allows hallows]
  · exact .unexpected hstar (SymbolKind.goesOn_eq_false hallows)
      (Symbol.ne_closing hclosing hmem hallows)

/-- A separator after each item is one between all of them and one more at the end. -/
theorem flatMap_append_separator (sep : List Char) {ts : List (List Char)} (h : ts ≠ []) :
    ts.flatMap (· ++ sep) = sep.intercalate ts ++ sep := by
  induction ts with
  | nil => exact absurd rfl h
  | cons t ts ih =>
      cases hts : ts with
      | nil => simp
      | cons t' ts' =>
          have hne : ts ≠ [] := by simp [hts]
          rw [← hts, List.flatMap_cons, ih hne, List.intercalate_cons_of_ne_nil hne]
          simp

namespace Expression

variable {e : Expression} {es : List Expression} {d : Defect}

def HoldsNoClosing (e : Expression) : Prop := ∀ t ∈ e.terms, t.symbol.HoldsNoClosing

instance (e : Expression) : Decidable e.HoldsNoClosing :=
  inferInstanceAs (Decidable (∀ t ∈ e.terms, t.symbol.HoldsNoClosing))

/-- The printed form of an alternative with terms begins with a symbol. -/
theorem printed_eq_opening (hne : e.terms ≠ []) :
    ∃ (kind : SymbolKind) (rest : List Char), printed e = kind.opening :: rest := by
  obtain ⟨terms⟩ := e
  cases terms with
  | nil => exact absurd rfl hne
  | cons first further =>
      rw [printed_expression, List.map_cons, intercalate_cons, printed_term, printed_symbol]
      exact ⟨first.kind, _, rfl⟩

/-- The first defect of an alternative with terms is found in its printed form. -/
theorem faultWithin_printed (hclosing : e.HoldsNoClosing) (hne : e.terms ≠ [])
    (h : e.defects.head? = some d) : FaultWithin Expression.Fault (printed e) d.cause := by
  rw [defects, if_neg hne] at h
  obtain ⟨terms₁, term, terms₂, hterms, hgood, hbad⟩ := exists_of_head?_flatMap h
  have hstar : Star (DerivesThenBlanks Term.Derives)
      (terms₁.flatMap fun t => printed t ++ [' ']) terms₁ :=
    .flatMap fun t ht => .mk (Term.derives_printed ((t.defects_eq_nil_iff).1 (hgood t ht)))
      derivesBlanks_space
  have hterm : FaultWithin term.kind.Fault (printed term) d.cause :=
    Symbol.faultWithin_printed (hclosing term (by simp [hterms])) hbad
  have hwithin := (hterm.append ((terms₂.map printed).flatMap ([' '] ++ ·))).after
    (G := Expression.Fault) fun _ _ hfault => .symbol hstar hfault
  rw [printed_expression, hterms, List.map_append, List.map_cons, intercalate_append_cons,
    List.flatMap_map]
  exact hwithin

/-- An empty alternative shows by what is printed after it, which is a bar if there are more. -/
theorem exists_fault_printed (hclosing : e.HoldsNoClosing) (h : e.defects.head? = some d)
    (further : List Expression) :
    ∃ b t w, printed e ++ ((further.map printed).flatMap ([' ', '|', ' '] ++ ·) ++ [';']) =
        b ++ (t ++ w) ∧ DerivesBlanks b ∧
      ∀ more, nextIs isBlank (t ++ (w ++ more)) = false ∧ Fault t d.cause (w ++ more) ∧
        ((t ++ (w ++ more)).head? = some ';' → e.terms = [] ∧ further = []) := by
  by_cases hne : e.terms = []
  · have hprinted : printed e = [] := by simp [printed_expression, hne]
    have hd : d = .emptyAlternative := by
      simpa [defects, hne, eq_comm] using h
    subst hd
    rw [hprinted]
    -- A semicolon comes next after the last alternative, and a blank and a bar after any other.
    cases further with
    | nil =>
        refine ⟨[], [], [';'], rfl, derivesBlanks_nil, fun more => ⟨rfl, .empty (.inr rfl), ?_⟩⟩
        exact fun _ => ⟨hne, rfl⟩
    | cons e' further =>
        refine ⟨[' '], [], '|' :: ' ' :: (printed e' ++
          ((further.map printed).flatMap ([' ', '|', ' '] ++ ·) ++ [';'])), ?_,
          derivesBlanks_space, fun more => ⟨rfl, .empty (.inl rfl), ?_⟩⟩
        · simp
        · intro hhead
          simp at hhead
  · obtain ⟨t, w, htext, hfault⟩ := (faultWithin_printed hclosing hne h).append
      ((further.map printed).flatMap ([' ', '|', ' '] ++ ·) ++ [';'])
    obtain ⟨kind, rest, hopening⟩ := printed_eq_opening hne
    have hhead : ∀ more, (t ++ (w ++ more)).head? = some kind.opening := by
      intro more
      rw [← List.append_assoc, ← htext, hopening]
      rfl
    refine ⟨[], t, w, htext, derivesBlanks_nil, fun more => ⟨?_, hfault more, ?_⟩⟩
    · rw [nextIs, hhead more]
      exact Term.isBlank_of_begins (Term.begins_opening kind)
    · intro hsemi
      rw [hhead more] at hsemi
      cases kind <;> simp [SymbolKind.opening] at hsemi

/-- The first defect of a right-hand side is found where it stands, with the semicolon after it. -/
theorem exists_faultAll_printed (hclosing : ∀ e ∈ es, e.HoldsNoClosing)
    (h : (defectsAll es).head? = some d) :
    ∃ b t w, [' ', '|', ' '].intercalate (es.map printed) ++ [';'] = b ++ (t ++ w) ∧
      DerivesBlanks b ∧
        ∀ more, nextIs isBlank (t ++ (w ++ more)) = false ∧ FaultAll t d.cause (w ++ more) := by
  unfold defectsAll at h
  by_cases hnone : es = [] ∨ es = [⟨[]⟩]
  · rw [if_pos hnone] at h
    have hd : d = .noAlternatives := by simpa [eq_comm] using h
    have htext : [' ', '|', ' '].intercalate (es.map printed) = [] := by
      cases hnone with
      | inl hnil => simp [hnil]
      | inr hempty => simp [hempty, printed_expression]
    subst hd
    rw [htext]
    exact ⟨[], [], [';'], rfl, derivesBlanks_nil, fun more => ⟨rfl, .none rfl⟩⟩
  · rw [if_neg hnone] at h
    obtain ⟨es₁, e, es₂, rfl, hgood, hbad⟩ := exists_of_head?_flatMap h
    obtain ⟨b, t, w, htext, hb, hfault⟩ :=
      exists_fault_printed (hclosing e (by simp)) hbad es₂
    by_cases hes₁ : es₁ = []
    · subst hes₁
      refine ⟨b, t, w, ?_, hb, fun more => ?_⟩
      · rw [← htext, List.nil_append, List.map_cons, intercalate_cons, List.append_assoc]
      · obtain ⟨hblank, hfault, hsemi⟩ := hfault more
        -- A semicolon at the beginning would be a right-hand side without alternatives.
        refine ⟨hblank, .first (fun hhead => ?_) hfault⟩
        obtain ⟨hterms, hes₂⟩ := hsemi hhead
        obtain ⟨terms⟩ := e
        exact hnone (.inr (by simp_all))
    · have hall := (derivesAll_printed hes₁ fun x hx => x.defects_eq_nil_iff.1 (hgood x hx)).extend
        derivesBlanks_space
      have hmap : es₁.map printed ≠ [] := by simpa using hes₁
      refine ⟨[],
        [' ', '|', ' '].intercalate (es₁.map printed) ++ [' '] ++ '|' :: ([' '] ++ b ++ t), w, ?_,
        derivesBlanks_nil, fun more => ?_⟩
      · rw [List.map_append, List.map_cons, intercalate_append_cons,
          flatMap_append_separator _ hmap]
        simp only [List.append_assoc, htext]
        simp
      · obtain ⟨hblank, hfault, _⟩ := hfault more
        refine ⟨?_, .later hall (derivesBlanks_space.append hb) hblank hfault⟩
        rw [List.append_assoc]
        exact nextIs_isBlank_of_derivesAll hall _

end Expression

/-! ## Productions -/

namespace Production

variable {p : Production} {d : Defect}

def HoldsNoClosing (p : Production) : Prop :=
  p.lhs.HoldsNoClosing ∧ ∀ e ∈ p.rhs, e.HoldsNoClosing

instance (p : Production) : Decidable p.HoldsNoClosing :=
  inferInstanceAs (Decidable (p.lhs.HoldsNoClosing ∧ ∀ e ∈ p.rhs, e.HoldsNoClosing))

/-- The printed form of a production begins with its left-hand side. -/
theorem printed_eq_opening (p : Production) : ∃ rest, printed p = '<' :: rest := by
  rw [printed_production, printed_symbol]
  exact ⟨_, rfl⟩

/-- The first defect of a production is found where it stands, whatever follows the production. -/
theorem faultWithin_printed (hclosing : p.HoldsNoClosing) (h : p.defects.head? = some d) :
    FaultWithin Production.Fault (printed p) d.cause := by
  rw [printed_production]
  cases hlhs : p.lhs.defects with
  | cons d' ds =>
      have hd : p.lhs.defects.head? = some d := by
        rw [defects, hlhs] at h
        rw [hlhs]
        exact h
      obtain ⟨t, w, htext, hfault⟩ := Symbol.faultWithin_printed hclosing.1 hd
      have hwithin : FaultWithin Production.Fault (printed p.lhs) d.cause :=
        ⟨t, w, htext, fun more => .lhs (hfault more)⟩
      exact hwithin.append _
  | nil =>
      have hderives := Symbol.derives_printed (p.lhs.defects_eq_nil_iff.1 hlhs)
      rw [defects, hlhs, List.nil_append] at h
      obtain ⟨b, t, w, htext, hb, hfault⟩ := Expression.exists_faultAll_printed hclosing.2 h
      refine ⟨printed p.lhs ++ ([' '] ++ ([':', ':', '='] ++ (([' '] ++ b) ++ t))), w, ?_, ?_⟩
      · rw [htext]
        simp
      · intro more
        obtain ⟨hblank, hfault⟩ := hfault more
        exact .rhs hderives derivesBlanks_space (derivesBlanks_space.append hb) hblank hfault

end Production

/-! ## Grammars -/

namespace Grammar

def HoldsNoClosing (g : Grammar) : Prop := ∀ p ∈ g.productions, p.HoldsNoClosing

instance (g : Grammar) : Decidable g.HoldsNoClosing :=
  inferInstanceAs (Decidable (∀ p ∈ g.productions, p.HoldsNoClosing))

/-- How many productions stand before the first that cannot be written down. -/
def firstIllFormed (g : Grammar) : Nat :=
  g.productions.findIdx fun p => !isWellFormed ⟨[p]⟩

/-- The first production with a defect is the one after those without. -/
theorem firstIllFormed_eq {ps₁ ps₂ : List Production} {p : Production}
    (hgood : ∀ x ∈ ps₁, x.defects = []) (hbad : p.defects ≠ []) :
    firstIllFormed ⟨ps₁ ++ p :: ps₂⟩ = ps₁.length := by
  have hsingle : ∀ x, isWellFormed ⟨[x]⟩ = true ↔ x.defects = [] := by
    intro x
    rw [isWellFormed_iff, x.defects_eq_nil_iff]
    simp [Grammar.WellFormed]
  have hfirst : ps₁.findIdx (fun p => !isWellFormed ⟨[p]⟩) = ps₁.length := by
    rw [List.findIdx_eq_length]
    intro x hx
    rw [(hsingle x).2 (hgood x hx)]
    rfl
  have hp : isWellFormed ⟨[p]⟩ = false := by
    rw [← Bool.not_eq_true, hsingle]
    exact hbad
  rw [firstIllFormed, List.findIdx_append, hfirst, if_neg (Nat.lt_irrefl _)]
  simp [List.findIdx_cons, hp]

/-- A grammar that cannot be written down has a first defect, in a production after those without.
-/
theorem exists_first_defect {g : Grammar} (hill : g.isWellFormed = false) :
    ∃ ps₁ p ps₂ d, g.productions = ps₁ ++ p :: ps₂ ∧ (∀ x ∈ ps₁, x.defects = []) ∧
      p.defects.head? = some d := by
  have hdefects : g.productions.flatMap Production.defects ≠ [] := by
    intro hnil
    have hwell : g.isWellFormed = true := by
      rw [isWellFormed_iff]
      intro p hp
      exact p.defects_eq_nil_iff.1 (List.flatMap_eq_nil_iff.1 hnil p hp)
    rw [hwell] at hill
    cases hill
  obtain ⟨d, ds, hcons⟩ := List.exists_cons_of_ne_nil hdefects
  have hhead : (g.productions.flatMap Production.defects).head? = some d := by
    rw [hcons, List.head?_cons]
  obtain ⟨ps₁, p, ps₂, hps, hgood, hbad⟩ := exists_of_head?_flatMap hhead
  exact ⟨ps₁, p, ps₂, d, hps, hgood, hbad⟩

/-- After productions that can be written down, reading fails at the first defect. -/
theorem parse_print_of_defect {ps₁ : List Production} {p : Production} {d : Defect}
    (hgood : ∀ x ∈ ps₁, x.defects = []) (hclosing : p.HoldsNoClosing)
    (hbad : p.defects.head? = some d) (ps₂ : List Production) :
    ∃ e, parse (print (mk (ps₁ ++ p :: ps₂))) = .error e ∧ e.pos.line = 1 + ps₁.length ∧
      e.cause = d.cause := by
  obtain ⟨t, w, htext, hfault⟩ := Production.faultWithin_printed hclosing hbad
  have hstar := Production.star_printed fun x hx => x.defects_eq_nil_iff.1 (hgood x hx)
  have hbegins : nextIs Production.begins (t ++ (w ++ ('\n' :: printed (mk ps₂)))) = true := by
    obtain ⟨rest, hrest⟩ := Production.printed_eq_opening p
    rw [← List.append_assoc, ← htext, hrest]
    rfl
  have hfault := Fault.production hstar (fun _ => hbegins) (hfault _)
  have hprinted : printed (mk (ps₁ ++ p :: ps₂)) =
      (ps₁.flatMap fun p => printed p ++ ['\n']) ++ t ++ (w ++ '\n' :: printed (mk ps₂)) := by
    rw [printed_grammar, printed_grammar]
    simp [htext]
  have hline : t.count '\n' = 0 := by
    have hnone := p.not_mem_printed (.inl rfl)
    rw [htext, List.mem_append, not_or] at hnone
    exact List.count_eq_zero.2 hnone.1
  refine ⟨⟨d.cause, .after _⟩, parse_eq_error_iff.2 ⟨_, _, hprinted, hfault, rfl⟩, ?_, rfl⟩
  show List.count '\n' _ + 1 = _
  rw [List.count_append, count_lineFeed_productions, hline]
  omega

/-- A grammar that cannot be written down is not read back.  The fault is in the line of the first
production that has a defect, and it is what that defect shows. -/
theorem parse_print_of_not_isWellFormed (g : Grammar) (hclosing : g.HoldsNoClosing)
    (hill : g.isWellFormed = false) :
    ∃ p d e, g.productions[g.firstIllFormed]? = some p ∧ p.defects.head? = some d ∧
      parse (print g) = .error e ∧ e.pos.line = 1 + g.firstIllFormed ∧ e.cause = d.cause := by
  obtain ⟨ps₁, p, ps₂, d, hps, hgood, hbad⟩ := exists_first_defect hill
  obtain ⟨productions⟩ := g
  obtain rfl : productions = ps₁ ++ p :: ps₂ := hps
  have hne : p.defects ≠ [] := by
    intro hnil
    simp [hnil] at hbad
  obtain ⟨e, hparse, hline, hcause⟩ :=
    parse_print_of_defect hgood (hclosing p (by simp)) hbad ps₂
  refine ⟨p, d, e, ?_, hbad, hparse, ?_, hcause⟩
  · rw [firstIllFormed_eq hgood hne]
    simp
  · rw [firstIllFormed_eq hgood hne]
    exact hline

/-- A good production and one with two defects, an empty alternative before a character that no
terminal holds. -/
def twoDefects : Grammar :=
  ⟨[⟨⟨"a"⟩, [⟨[.ofSymbol (⟨"\n"⟩ : Terminal)]⟩]⟩,
    ⟨⟨"b"⟩, [⟨[]⟩, ⟨[.ofSymbol (⟨"!"⟩ : Terminal)]⟩]⟩]⟩

/-- The fault is that of the second production: its first defect hides the other one. -/
theorem parse_print_twoDefects :
    twoDefects.HoldsNoClosing ∧ twoDefects.isWellFormed = false ∧
      ∃ e, parse (print twoDefects) = .error e ∧ e.pos.line = 2 ∧
        e.cause = .emptyAlternative := by
  have hclosing : twoDefects.HoldsNoClosing := by decide
  have hill : twoDefects.isWellFormed = false := by decide +kernel
  obtain ⟨p, d, e, hp, hd, hparse, hline, hcause⟩ :=
    parse_print_of_not_isWellFormed twoDefects hclosing hill
  have hfirst : twoDefects.firstIllFormed = 1 := by decide +kernel
  rw [hfirst] at hp hline
  obtain rfl := Option.some.inj hp
  obtain rfl : Defect.emptyAlternative = d := by
    apply Option.some.inj
    rw [← hd]
    decide +kernel
  exact ⟨hclosing, hill, e, hparse, hline, hcause⟩

end Grammar

end BnfText

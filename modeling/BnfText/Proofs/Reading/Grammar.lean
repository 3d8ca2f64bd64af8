import BnfText.Proofs.Reading.Expression

/-!
# BnfText.Proofs.Reading.Grammar

Reading productions and grammars against the rules that derive them, and what becomes of a whole
text.

* `Production.exact_read`, `Production.fails_read_iff` — a production;
* `Grammar.exact_read`, `Grammar.fails_read_iff` — the productions of a grammar;
* `Grammar.parse_eq_ok_iff`, `Grammar.parse_eq_error_iff` — the outcome of reading a whole text;
* `Grammar.parse_ok_iff_derives` — it is the tree that the rules derive the text with.
-/

namespace BnfText

open BnfText.Parser

/-! ## Productions -/

namespace Production

variable {t v w : List Char} {lhs : Nonterminal} {p : Production} {cause : Cause}

/-- The faults of a production: no nonterminal begins it, its left-hand side has a fault, the sign
after it is cut short, the right-hand side has a fault, or the semicolon is missing. -/
inductive Fault : List Char → Cause → List Char → Prop
  | missing {w : List Char} : w.head? ≠ some '<' →
      Fault [] (.unexpected [.char '<'] w.head?) w
  | lhs {t w : List Char} {cause : Cause} : SymbolKind.nonterminal.Fault t cause w →
      Fault t cause w
  | sign {t b x rest w : List Char} {c : Char} {lhs : Nonterminal} :
      Symbol.Derives t lhs → DerivesBlanks b → [':', ':', '='] = x ++ c :: rest →
        nextIs isBlank (x ++ w) = false → w.head? ≠ some c →
          Fault (t ++ (b ++ x)) (.unexpected [.char c] w.head?) w
  | rhs {t b₁ b₂ u w : List Char} {lhs : Nonterminal} {cause : Cause} :
      Symbol.Derives t lhs → DerivesBlanks b₁ → DerivesBlanks b₂ →
        nextIs isBlank (u ++ w) = false → Expression.FaultAll u cause w →
          Fault (t ++ (b₁ ++ ([':', ':', '='] ++ (b₂ ++ u)))) cause w
  | unfinished {t b₁ b₂ u w : List Char} {lhs : Nonterminal} {rhs : List Expression} :
      Symbol.Derives t lhs → DerivesBlanks b₁ → DerivesBlanks b₂ →
        Expression.DerivesAll u rhs → nextIs Expression.moreAll w = false →
          w.head? ≠ some ';' →
            Fault (t ++ (b₁ ++ ([':', ':', '='] ++ (b₂ ++ u)))) (.unexpected [.char ';'] w.head?) w

/-- Reads what follows the sign after a left-hand side. -/
def readRhs (lhs : Nonterminal) : Parser Production :=
  readBlanks >>= fun _ => Expression.readAll >>= fun rhs => expect ';' >>= fun _ =>
    pure ⟨lhs, rhs⟩

/-- Reads what follows a left-hand side. -/
def readDefinition (lhs : Nonterminal) : Parser Production :=
  readBlanks >>= fun _ => expectText "::=" >>= fun _ => readRhs lhs

theorem read_eq : read = Symbol.read .nonterminal >>= readDefinition := rfl

theorem predictive_semicolon (p : Production) :
    Predictive (expect ';' >>= fun _ => (pure p : Parser Production)) :=
  (predictive_expect ';').bind_pure _

theorem predictive_afterBlanks (lhs : Nonterminal) :
    Predictive (Expression.readAll >>= fun rhs => expect ';' >>= fun _ =>
      (pure ⟨lhs, rhs⟩ : Parser Production)) :=
  Expression.predictive_readAll.bind fun _ => predictive_semicolon _

theorem predictive_readRhs (lhs : Nonterminal) : Predictive (readRhs lhs) :=
  predictive_readBlanks.bind fun _ => predictive_afterBlanks lhs

theorem predictive_sign (lhs : Nonterminal) :
    Predictive (expectText "::=" >>= fun _ => readRhs lhs) :=
  (predictive_expectText "::=").bind fun _ => predictive_readRhs lhs

theorem predictive_readDefinition (lhs : Nonterminal) : Predictive (readDefinition lhs) :=
  predictive_readBlanks.bind fun _ => predictive_sign lhs

theorem predictive_read : Predictive read :=
  (Symbol.predictive_read .nonterminal).bind fun lhs => predictive_readDefinition lhs

theorem moreAll_semicolon : Expression.moreAll ';' = false := by decide

/-- The sign begins with no blank, so the blanks before it end. -/
theorem nextIs_isBlank_sign (x w : List Char) :
    nextIs isBlank ([':', ':', '='] ++ x ++ w) = false := by
  show isBlank ':' = false
  decide

theorem reads_semicolon_iff {p q : Production} :
    Reads (expect ';' >>= fun _ => pure q) t p w ↔ t = [';'] ∧ p = q := by
  rw [reads_bind_pure_iff (predictive_expect ';')]
  simp [reads_expect_iff]

/-- Without its semicolon a production fails where that should stand. -/
theorem fails_semicolon_iff {q : Production} :
    Fails (expect ';' >>= fun _ => pure q) t cause w ↔
      t = [] ∧ w.head? ≠ some ';' ∧ cause = .unexpected [.char ';'] w.head? := by
  rw [fails_bind_pure_iff (predictive_expect ';'), fails_expect_iff]

/-- What follows the sign is blanks, the alternatives and a semicolon, whatever comes next. -/
theorem reads_readRhs_iff :
    Reads (readRhs lhs) t p w ↔
      ∃ b u rhs, t = b ++ (u ++ [';']) ∧ DerivesBlanks b ∧ Expression.DerivesAll u rhs ∧
        p = ⟨lhs, rhs⟩ := by
  unfold readRhs
  rw [reads_bind_iff predictive_readBlanks fun _ => predictive_afterBlanks lhs]
  constructor
  · intro ⟨b, r, s, ht, hblanks, hrest⟩
    rw [reads_bind_iff Expression.predictive_readAll fun _ => predictive_semicolon _] at hrest
    obtain ⟨u, r, rhs, rfl, hall, hsemi⟩ := hrest
    obtain ⟨rfl, hp⟩ := reads_semicolon_iff.1 hsemi
    exact ⟨b, u, rhs, ht, (reads_readBlanks_iff.1 hblanks).1,
      ((Expression.exact_readAll ..).1 hall).1, hp⟩
  · intro ⟨b, u, rhs, ht, hb, hall, hp⟩
    have hstop : nextIs isBlank (u ++ [';'] ++ w) = false := by
      rw [List.append_assoc]
      exact Expression.nextIs_isBlank_of_derivesAll hall _
    have hread : Reads Expression.readAll u rhs ([';'] ++ w) :=
      (Expression.exact_readAll ..).2 ⟨hall, moreAll_semicolon⟩
    exact ⟨b, u ++ [';'], String.ofList b, ht, reads_readBlanks hb hstop,
      hread.bind (reads_semicolon_iff.2 ⟨rfl, hp⟩)⟩

/-- What follows the sign fails in the alternatives, or where the semicolon should stand. -/
theorem fails_readRhs_iff :
    Fails (readRhs lhs) t cause w ↔
      ∃ b u, t = b ++ u ∧ DerivesBlanks b ∧
        (nextIs isBlank (u ++ w) = false ∧ Expression.FaultAll u cause w ∨
          ∃ rhs, Expression.DerivesAll u rhs ∧ nextIs Expression.moreAll w = false ∧
            w.head? ≠ some ';' ∧ cause = .unexpected [.char ';'] w.head?) := by
  unfold readRhs
  rw [fails_bind_iff predictive_readBlanks fun _ => predictive_afterBlanks lhs]
  constructor
  · intro h
    obtain h | ⟨b, u, s, ht, hblanks, hrest⟩ := h
    · exact absurd h not_fails_readBlanks
    · obtain ⟨hb, _, hstop⟩ := reads_readBlanks_iff.1 hblanks
      rw [fails_bind_iff Expression.predictive_readAll fun _ => predictive_semicolon _] at hrest
      obtain hfail | ⟨u, r, rhs, rfl, hall, hsemi⟩ := hrest
      · exact ⟨b, u, ht, hb, .inl ⟨hstop, Expression.fails_readAll_iff.1 hfail⟩⟩
      · obtain ⟨rfl, hne, hcause⟩ := fails_semicolon_iff.1 hsemi
        obtain ⟨hall, hmore⟩ := (Expression.exact_readAll ..).1 hall
        rw [List.append_nil] at ht
        exact ⟨b, u, ht, hb, .inr ⟨rhs, hall, hmore, hne, hcause⟩⟩
  · intro ⟨b, u, ht, hb, hor⟩
    obtain ⟨hstop, hfault⟩ | ⟨rhs, hall, hmore, hne, hcause⟩ := hor
    · exact .inr ⟨b, u, _, ht, reads_readBlanks hb hstop,
        (Expression.fails_readAll_iff.2 hfault).bind⟩
    · have hread : Reads Expression.readAll u rhs ([] ++ w) :=
        (Expression.exact_readAll ..).2 ⟨hall, hmore⟩
      have hsemi : Fails (expect ';' >>= fun _ => pure (mk lhs rhs)) [] cause w :=
        fails_semicolon_iff.2 ⟨rfl, hne, hcause⟩
      have hfail := hread.bind_fails (f := fun rhs => expect ';' >>= fun _ => pure (mk lhs rhs))
        hsemi
      rw [List.append_nil] at hfail
      exact .inr ⟨b, u, _, ht,
        reads_readBlanks hb (Expression.nextIs_isBlank_of_derivesAll hall w), hfail⟩

theorem reads_sign (w : List Char) : Reads (expectText "::=") [':', ':', '='] "::=" w :=
  reads_expectText_iff.2 ⟨rfl, rfl⟩

/-- A production is read just from the texts of its rule, whatever follows. -/
theorem exact_read : Exact read Production.Derives never := by
  intro v p w
  rw [read_eq, reads_bind_iff (Symbol.predictive_read _) predictive_readDefinition]
  constructor
  · intro ⟨t, r, lhs, hv, hlhs, hrest⟩
    unfold readDefinition at hrest
    rw [reads_bind_iff predictive_readBlanks fun _ => predictive_sign lhs] at hrest
    obtain ⟨b₁, r, s, rfl, hblanks, hrest⟩ := hrest
    rw [reads_bind_iff (predictive_expectText _) fun _ => predictive_readRhs lhs] at hrest
    obtain ⟨x, r, s', rfl, hsign, hrhs⟩ := hrest
    obtain ⟨b₂, u, rhs, rfl, hb₂, hall, rfl⟩ := reads_readRhs_iff.1 hrhs
    have hderives := Production.Derives.mk ((Symbol.exact_read _ ..).1 hlhs).1
      (reads_readBlanks_iff.1 hblanks).1 hb₂ hall
    rw [hv, (reads_expectText_iff.1 hsign).1]
    simp only [List.append_assoc] at hderives ⊢
    exact ⟨hderives, nextIs_never w⟩
  · intro ⟨h, _⟩
    cases h with
    | @mk t b₁ b₂ u lhs rhs hlhs hb₁ hb₂ hall =>
        have hrhs : Reads (readRhs lhs) (b₂ ++ (u ++ [';'])) ⟨lhs, rhs⟩ w :=
          reads_readRhs_iff.2 ⟨b₂, u, rhs, rfl, hb₂, hall, rfl⟩
        have hsign := (reads_sign _).bind (f := fun _ => readRhs lhs) hrhs
        have hdefinition := Reads.bind (f := fun _ => expectText "::=" >>= fun _ => readRhs lhs)
          (reads_readBlanks hb₁ (nextIs_isBlank_sign _ _)) hsign
        refine ⟨t, _, lhs, ?_, (Symbol.exact_read _ ..).2 ⟨hlhs, nextIs_never _⟩, hdefinition⟩
        simp only [List.append_assoc]

section Fails

variable {b₁ u : List Char}

/-- Past its left-hand side a production fails where its definition does. -/
theorem fails_of_definition (hlhs : Symbol.Derives t lhs)
    (hfail : Fails (readDefinition lhs) u cause w) : Fails read (t ++ u) cause w := by
  have hread := (Symbol.exact_read .nonterminal t lhs (u ++ w)).2 ⟨hlhs, nextIs_never _⟩
  exact hread.bind_fails hfail

/-- A production fails where its sign does. -/
theorem fails_of_sign (hlhs : Symbol.Derives t lhs) (hb₁ : DerivesBlanks b₁)
    (hstop : nextIs isBlank (u ++ w) = false) (hfail : Fails (expectText "::=") u cause w) :
    Fails read (t ++ (b₁ ++ u)) cause w := by
  have hsign : Fails (expectText "::=" >>= fun _ => readRhs lhs) u cause w := hfail.bind
  exact fails_of_definition hlhs ((reads_readBlanks hb₁ hstop).bind_fails hsign)

/-- Past the sign a production fails where its right-hand side does. -/
theorem fails_of_rhs (hlhs : Symbol.Derives t lhs) (hb₁ : DerivesBlanks b₁)
    (hfail : Fails (readRhs lhs) u cause w) :
    Fails read (t ++ (b₁ ++ ([':', ':', '='] ++ u))) cause w := by
  have hsign := (reads_sign (u ++ w)).bind_fails (f := fun _ => readRhs lhs) hfail
  have hblanks := reads_readBlanks hb₁ (nextIs_isBlank_sign u w)
  exact fails_of_definition hlhs (hblanks.bind_fails hsign)

/-- Conversely, the fault of a definition is one of a production with that left-hand side. -/
theorem fault_of_definition (hlhs : Symbol.Derives t lhs)
    (hfail : Fails (readDefinition lhs) u cause w) : Fault (t ++ u) cause w := by
  unfold readDefinition at hfail
  rw [fails_bind_iff predictive_readBlanks fun _ => predictive_sign lhs] at hfail
  obtain h | ⟨b₁, r, s, rfl, hblanks, hrest⟩ := hfail
  · exact absurd h not_fails_readBlanks
  · obtain ⟨hb₁, _, hstop⟩ := reads_readBlanks_iff.1 hblanks
    rw [fails_bind_iff (predictive_expectText _) fun _ => predictive_readRhs lhs,
      fails_expectText_iff] at hrest
    obtain ⟨c, rest, hsign, hne, rfl⟩ | ⟨x, r, s', rfl, hsign, hrhs⟩ := hrest
    · exact .sign hlhs hb₁ hsign hstop hne
    · rw [(reads_expectText_iff.1 hsign).1]
      obtain ⟨b₂, u, rfl, hb₂, hor⟩ := fails_readRhs_iff.1 hrhs
      obtain ⟨hstop₂, hfault⟩ | ⟨rhs, hall, hmore, hne, rfl⟩ := hor
      · exact .rhs hlhs hb₁ hb₂ hstop₂ hfault
      · exact .unfinished hlhs hb₁ hb₂ hall hmore hne

end Fails

theorem fails_read_iff : Fails read v cause w ↔ Fault v cause w := by
  constructor
  · intro h
    rw [read_eq, fails_bind_iff (Symbol.predictive_read _) predictive_readDefinition,
      Symbol.fails_read_iff] at h
    obtain (⟨rfl, hne, rfl⟩ | hfault) | ⟨t, r, lhs, rfl, hlhs, hrest⟩ := h
    · exact .missing hne
    · exact .lhs hfault
    · exact fault_of_definition ((Symbol.exact_read _ ..).1 hlhs).1 hrest
  · intro h
    cases h with
    | missing hne => exact (Symbol.fails_read_iff.2 (.inl ⟨rfl, hne, rfl⟩)).bind
    | lhs hfault => exact (Symbol.fails_read_iff.2 (.inr hfault)).bind
    | sign hlhs hb hsign hstop hne =>
        exact fails_of_sign hlhs hb hstop (fails_expectText_iff.2 ⟨_, _, hsign, hne, rfl⟩)
    | rhs hlhs hb₁ hb₂ hstop hfault =>
        exact fails_of_rhs hlhs hb₁
          (fails_readRhs_iff.2 ⟨_, _, rfl, hb₂, .inl ⟨hstop, hfault⟩⟩)
    | unfinished hlhs hb₁ hb₂ hall hmore hne =>
        exact fails_of_rhs hlhs hb₁
          (fails_readRhs_iff.2 ⟨_, _, rfl, hb₂, .inr ⟨_, hall, hmore, hne, rfl⟩⟩)

/-- A production begins with the delimiter of its left-hand side. -/
theorem nextIs_begins_of_derives (h : Production.Derives t p) : nextIs begins t = true := by
  cases h with
  | mk hlhs =>
      obtain ⟨u, rfl, _⟩ := Symbol.derives_iff.1 hlhs
      rfl

/-- A production does not begin with a blank, so the blanks before it end. -/
theorem isBlank_of_begins {c : Char} (h : begins c = true) : isBlank c = false := by
  rw [of_decide_eq_true h]
  decide

/-- Productions can be read one after the other, each with its blanks. -/
theorem repeatable_read :
    Repeatable begins (thenBlanks read) (DerivesThenBlanks Production.Derives) isBlank :=
  repeatable_thenBlanks consumes_read predictive_read exact_read nextIs_begins_of_derives
    isBlank_of_begins

end Production

/-! ## Grammars -/

namespace Grammar

variable {v w : List Char} {g : Grammar} {cause : Cause}

/-- The faults of a text that has to be a grammar: the production that is due has a fault, or
something else than a production follows the last. -/
inductive Fault : List Char → Cause → List Char → Prop
  | production {t u w : List Char} {ps : List Production} {cause : Cause} :
      Star (DerivesThenBlanks Production.Derives) t ps →
        (ps ≠ [] → nextIs Production.begins (u ++ w) = true) → Production.Fault u cause w →
          Fault (t ++ u) cause w
  | trailing {t w : List Char} {g : Grammar} {c : Char} :
      Grammar.Derives t g → isBlank c = false → Production.begins c = false →
        Fault t (.unexpected [.char '<', .endOfInput] (some c)) (c :: w)

/-- The characters that a grammar goes on with. -/
def more (c : Char) : Bool := isBlank c || Production.begins c

theorem predictive_read : Predictive read :=
  Production.repeatable_read.predictive_first (predictive_thenBlanks Production.predictive_read) _

/-- A grammar is read up to a character that is no blank and begins no production. -/
theorem exact_read : Exact read Grammar.Derives more := by
  intro v g w
  have hexact := Production.repeatable_read.exact_first
    (f := fun first further => mk (first :: further))
    (predictive_thenBlanks Production.predictive_read)
    (exact_thenBlanks Production.predictive_read Production.exact_read) v g w
  refine hexact.trans (and_congr_left fun _ => ?_)
  constructor
  · intro ⟨t, u, first, further, hv, hfirst, hfurther, hg⟩
    rw [hv, hg]
    exact .mk hfirst hfurther
  · intro h
    cases h with
    | mk hfirst hfurther => exact ⟨_, _, _, _, rfl, hfirst, hfurther, rfl⟩

theorem fails_read_iff :
    Fails read v cause w ↔
      ∃ t u ps, v = t ++ u ∧ Star (DerivesThenBlanks Production.Derives) t ps ∧
        (ps ≠ [] → nextIs Production.begins (u ++ w) = true) ∧ Production.Fault u cause w := by
  unfold read
  rw [Production.repeatable_read.fails_some_iff
    (exact_thenBlanks Production.predictive_read Production.exact_read)]
  simp only [fails_thenBlanks_iff Production.predictive_read, Production.fails_read_iff]

/-- Requires the text to end after a grammar. -/
def requireEnd (g : Grammar) : Parser Grammar :=
  peek? >>= fun
    | none => pure g
    | some _ => unexpected [.char SymbolKind.nonterminal.opening, .endOfInput]

theorem readToEnd_eq : readToEnd = read >>= requireEnd := rfl

/-- The next character, or that there is none, decides whether the text ends. -/
theorem predictive_requireEnd (g : Grammar) : Predictive (requireEnd g) := by
  intro cs
  refine DecidedAt.peek?_bind ?_
  split
  · exact predictive_pure g cs
  · exact decidedAt_unexpected _ cs

theorem predictive_readToEnd : Predictive readToEnd := predictive_read.bind predictive_requireEnd

/-- A text is read to its end if the rules derive all of it. -/
theorem reads_readToEnd_iff : Reads readToEnd v g w ↔ Grammar.Derives v g ∧ w = [] := by
  rw [readToEnd_eq, reads_bind_iff predictive_read predictive_requireEnd]
  constructor
  · intro ⟨t, u, g', hv, hread, hend⟩
    unfold requireEnd at hend
    rw [reads_peek?_bind_iff] at hend
    cases hhead : (u ++ w).head? with
    | none =>
        rw [hhead] at hend
        obtain ⟨rfl, rfl⟩ := reads_pure_iff.1 hend
        rw [hv, List.append_nil]
        exact ⟨((exact_read ..).1 hread).1, List.head?_eq_none_iff.1 hhead⟩
    | some c =>
        rw [hhead] at hend
        exact absurd hend not_reads_unexpected
  · intro ⟨hg, hw⟩
    subst hw
    refine ⟨v, [], g, (List.append_nil v).symm, (exact_read ..).2 ⟨hg, nextIs_nil _⟩, ?_⟩
    exact reads_peek?_bind_iff.2 (reads_pure g [])

/-- Reading a text to its end fails at the faults of a text that has to be a grammar. -/
theorem fails_readToEnd_iff : Fails readToEnd v cause w ↔ Fault v cause w := by
  rw [readToEnd_eq, fails_bind_iff predictive_read predictive_requireEnd, fails_read_iff]
  constructor
  · intro h
    obtain ⟨t, u, ps, rfl, hstar, hnext, hfault⟩ | ⟨t, u, g, rfl, hread, hend⟩ := h
    · exact .production hstar hnext hfault
    · unfold requireEnd at hend
      rw [fails_peek?_bind_iff] at hend
      cases hhead : (u ++ w).head? with
      | none =>
          rw [hhead] at hend
          exact absurd hend not_fails_pure
      | some c =>
          rw [hhead] at hend
          obtain ⟨rfl, rfl⟩ := fails_unexpected_iff.1 hend
          obtain ⟨w', rfl⟩ := List.head?_eq_some_iff.1 hhead
          obtain ⟨hg, hmore⟩ := (exact_read ..).1 hread
          obtain ⟨hblank, hbegins⟩ := Bool.or_eq_false_iff.1 hmore
          rw [List.append_nil]
          exact .trailing hg hblank hbegins
  · intro h
    cases h with
    | production hstar hnext hfault => exact .inl ⟨_, _, _, rfl, hstar, hnext, hfault⟩
    | @trailing _ w g c hg hblank hbegins =>
        have hmore : more c = false := Bool.or_eq_false_iff.2 ⟨hblank, hbegins⟩
        refine .inr ⟨v, [], g, (List.append_nil v).symm, (exact_read ..).2 ⟨hg, hmore⟩, ?_⟩
        exact fails_peek?_bind_iff.2 (fails_unexpected _ (c :: w))

/-! ## Whole texts -/

/-- Outcomes of reading can be compared, so what becomes of a text can be computed. -/
instance : DecidableEq (Except ParseError Grammar)
  | .ok g, .ok g' => decidable_of_iff (g = g') ⟨congrArg _, Except.ok.inj⟩
  | .error e, .error e' => decidable_of_iff (e = e') ⟨congrArg _, Except.error.inj⟩
  | .ok _, .error _ => isFalse nofun
  | .error _, .ok _ => isFalse nofun

/-- The texts that are read are those that the rules derive. -/
theorem parse_eq_ok_iff {text : String} :
    parse text = .ok g ↔ Grammar.Derives text.toList g := by
  have hrun : ∀ {g'}, Grammar.Derives text.toList g' → parse text = .ok g' := by
    intro g' hg'
    have hread := reads_readToEnd_iff.2 ⟨hg', rfl⟩
    rw [parse, hread (.ofText text) (List.append_nil _).symm]
  constructor
  · intro h
    obtain ⟨t, g', w, htext, hread⟩ | ⟨t, cause, w, htext, hfail⟩ :=
      predictive_readToEnd.reads_or_fails text.toList
    · obtain ⟨hg', rfl⟩ := reads_readToEnd_iff.1 hread
      rw [List.append_nil] at htext
      rw [← htext] at hg'
      obtain rfl : g = g' := Except.ok.inj (h.symm.trans (hrun hg'))
      exact hg'
    · rw [parse, hfail (.ofText text) htext] at h
      cases h
  · exact hrun

/-- Reading a text fails at the fault that the text has, and at its place. -/
theorem parse_eq_error_iff {text : String} {e : ParseError} :
    parse text = .error e ↔
      ∃ t w, text.toList = t ++ w ∧ Fault t e.cause w ∧ e.pos = Position.after t := by
  have hrun : ∀ {t cause w}, text.toList = t ++ w → Fault t cause w →
      parse text = .error ⟨cause, .after t⟩ := by
    intro t cause w htext hfault
    have hfail := fails_readToEnd_iff.2 hfault
    rw [parse, hfail (.ofText text) htext]
    show Except.error (ParseError.mk cause ((Cursor.ofText text).skip t.length).pos) = _
    rw [Cursor.pos_skip_append (c := .ofText text) htext, ← Position.walk_start]
    rfl
  constructor
  · intro h
    obtain ⟨t, g, w, htext, hread⟩ | ⟨t, cause, w, htext, hfail⟩ :=
      predictive_readToEnd.reads_or_fails text.toList
    · rw [parse, hread (.ofText text) htext] at h
      cases h
    · have hfault := fails_readToEnd_iff.1 hfail
      obtain rfl := Except.error.inj (h.symm.trans (hrun htext hfault))
      exact ⟨t, w, htext, hfault, rfl⟩
  · intro ⟨t, w, htext, hfault, hpos⟩
    obtain ⟨cause, pos⟩ := e
    subst hpos
    exact hrun htext hfault

/-- A text is derived with one tree at most: it is read with each that it is derived with, and
reading has one outcome. -/
theorem derives_unique {g' : Grammar} (h : Grammar.Derives v g) (h' : Grammar.Derives v g') :
    g = g' :=
  ((reads_readToEnd_iff.2 ⟨h, rfl⟩).unique (reads_readToEnd_iff.2 ⟨h', rfl⟩) rfl).2.1

/-- A text is read as just the tree that the rules of the notation derive it with, and they derive
it with one at most. -/
theorem parse_ok_iff_derives (text : String) (g : Grammar) :
    (parse text = .ok g ↔ Grammar.Derives text.toList g) ∧
      ∀ t g₁ g₂, Grammar.Derives t g₁ → Grammar.Derives t g₂ → g₁ = g₂ :=
  ⟨parse_eq_ok_iff, fun _ _ _ h₁ h₂ => derives_unique h₁ h₂⟩

end Grammar

end BnfText

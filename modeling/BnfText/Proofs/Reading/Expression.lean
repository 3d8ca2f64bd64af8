import BnfText.Grammar.Parser
import BnfText.Proofs.Reading.Symbol

/-!
# BnfText.Proofs.Reading.Expression

Reading the right-hand side of a production against the rules that derive it, from the blanks
upwards.  Of each rule there are an `exact_read`, which says what is read, and a `fails_read_iff`,
which says where reading fails and for what cause; the faults of a rule are a relation of their own.

* `exact_thenBlanks`, `repeatable_thenBlanks` — items with blanks after them;
* `Term.exact_read`, `Term.fails_read_iff` — a term;
* `Expression.exact_read`, `Expression.fails_read_iff` — an alternative;
* `Expression.exact_readAll`, `Expression.fails_readAll_iff` — the alternatives after the sign.
-/

namespace BnfText

open BnfText.Parser

/-! ## Blanks -/

section Blanks

variable {α : Type} {p : Parser α} {D : List Char → α → Prop} {v w : List Char} {cause : Cause}

/-- The blanks that are derived are those that are skipped. -/
theorem derivesBlanks_iff {t : List Char} :
    DerivesBlanks t ↔ ∀ c ∈ t, isBlank c = true := by
  simp only [DerivesBlanks, isBlank_iff]

theorem predictive_readBlanks : Predictive readBlanks := predictive_takeWhile isBlank

/-- Blanks are read up to a character that is none. -/
theorem reads_readBlanks_iff {t : List Char} {s : String} :
    Reads readBlanks t s w ↔
      DerivesBlanks t ∧ s = String.ofList t ∧ nextIs isBlank w = false := by
  rw [derivesBlanks_iff, ← and_assoc]
  exact exact_takeWhile isBlank t s w

theorem reads_readBlanks {t : List Char} (ht : DerivesBlanks t) (hw : nextIs isBlank w = false) :
    Reads readBlanks t (String.ofList t) w := reads_readBlanks_iff.2 ⟨ht, rfl, hw⟩

/-- Skipping blanks cannot fail. -/
theorem not_fails_readBlanks {t : List Char} : ¬ Fails readBlanks t cause w :=
  not_fails_takeWhile

theorem predictive_thenBlanks (hp : Predictive p) : Predictive (thenBlanks p) :=
  hp.bind fun _ => predictive_readBlanks.bind_pure _

theorem reads_thenBlanks {t b : List Char} {a : α} (h : Reads p t a (b ++ w))
    (hb : DerivesBlanks b) (hw : nextIs isBlank w = false) :
    Reads (thenBlanks p) (t ++ b) a w := by
  have hblanks := reads_readBlanks hb hw
  exact h.bind ((reads_bind_pure_iff predictive_readBlanks).2 ⟨_, hblanks, rfl⟩)

/-- What is read whatever follows is read with its blanks up to a character that is no blank. -/
theorem exact_thenBlanks (hp : Predictive p) (hexact : Exact p D never) :
    Exact (thenBlanks p) (DerivesThenBlanks D) isBlank := by
  intro v a w
  constructor
  · intro h
    unfold thenBlanks at h
    rw [reads_bind_iff hp fun _ => predictive_readBlanks.bind_pure _] at h
    obtain ⟨t, b, a', rfl, hread, hrest⟩ := h
    obtain ⟨s, hblanks, rfl⟩ := (reads_bind_pure_iff predictive_readBlanks).1 hrest
    obtain ⟨hb, _, hw⟩ := reads_readBlanks_iff.1 hblanks
    exact ⟨.mk ((hexact ..).1 hread).1 hb, hw⟩
  · intro ⟨hD, hw⟩
    cases hD with
    | mk ha hb => exact reads_thenBlanks ((hexact ..).2 ⟨ha, nextIs_never _⟩) hb hw

/-- The blanks after a step add no fault to those of the step. -/
theorem fails_thenBlanks_iff (hp : Predictive p) :
    Fails (thenBlanks p) v cause w ↔ Fails p v cause w := by
  constructor
  · intro h
    unfold thenBlanks at h
    rw [fails_bind_iff hp fun _ => predictive_readBlanks.bind_pure _] at h
    obtain h | ⟨t, u, a, rfl, _, hrest⟩ := h
    · exact h
    · rw [fails_bind_pure_iff predictive_readBlanks] at hrest
      exact absurd hrest not_fails_readBlanks
  · exact fun h => h.bind

/-- With its blanks, an item begins as it does without them. -/
theorem nextIs_of_derivesThenBlanks {begins : Char → Bool} {t : List Char} {a : α}
    (hD : ∀ {t a}, D t a → nextIs begins t = true) (h : DerivesThenBlanks D t a) :
    nextIs begins t = true := by
  cases h with
  | mk ha hb => exact nextIs_append (hD ha) _

/-- Items with blanks after them can be repeated if no item begins with a blank. -/
theorem repeatable_thenBlanks {begins : Char → Bool} (hc : Consumes p) (hp : Predictive p)
    (hexact : Exact p D never) (hbegins : ∀ {t a}, D t a → nextIs begins t = true)
    (hblank : ∀ {c}, begins c = true → isBlank c = false) :
    Repeatable begins (thenBlanks p) (DerivesThenBlanks D) isBlank where
  consumes := consumes_thenBlanks hc
  predictive := predictive_thenBlanks hp
  exact _ := exact_thenBlanks hp hexact ..
  begins_of_derives := nextIs_of_derivesThenBlanks hbegins
  more_of_begins := hblank

end Blanks

/-! ## Terms -/

namespace Term

variable {t w : List Char} {term : Term} {cause : Cause}

/-- The faults of a term: none begins here, or the one that begins has a fault. -/
inductive Fault : List Char → Cause → List Char → Prop
  | missing {w : List Char} : nextIs begins w = false →
      Fault [] (.unexpected [.char '<', .char '"'] w.head?) w
  | symbol {kind : SymbolKind} {t w : List Char} {cause : Cause} :
      kind.Fault t cause w → Fault t cause w

/-- A term begins with the opening delimiter of a symbol of either kind. -/
theorem begins_iff {c : Char} : begins c = true ↔ ∃ kind : SymbolKind, c = kind.opening := by
  rw [begins, Option.isSome_iff_exists]
  exact exists_congr fun _ => SymbolKind.ofOpening?_eq_some_iff

/-- So the first character of a term tells the kind of its symbol. -/
theorem exists_opening {cs : List Char} (h : nextIs begins cs = true) :
    ∃ kind : SymbolKind, cs.head? = some kind.opening := by
  cases cs with
  | nil => cases h
  | cons c cs =>
      obtain ⟨kind, rfl⟩ := begins_iff.1 h
      exact ⟨kind, rfl⟩

theorem begins_opening (kind : SymbolKind) : begins kind.opening = true :=
  begins_iff.2 ⟨kind, rfl⟩

/-- A term does not begin with a blank, so the blanks before it end. -/
theorem isBlank_of_begins {c : Char} (h : begins c = true) : isBlank c = false := by
  obtain ⟨kind, rfl⟩ := begins_iff.1 h
  cases kind <;> decide

theorem ofOpening?_opening (kind : SymbolKind) :
    SymbolKind.ofOpening? kind.opening = some kind := SymbolKind.ofOpening?_eq_some_iff.2 rfl

theorem predictive_readAs (kind : SymbolKind) : Predictive (readAs kind) :=
  (Symbol.predictive_read kind).bind_pure _

theorem reads_readAs_iff {kind : SymbolKind} :
    Reads (readAs kind) t term w ↔
      ∃ s : Symbol kind, term = ⟨kind, s⟩ ∧ Symbol.Derives t s := by
  unfold readAs
  rw [reads_bind_pure_iff (Symbol.predictive_read kind)]
  constructor
  · intro ⟨s, hread, hterm⟩
    exact ⟨s, hterm, ((Symbol.exact_read kind ..).1 hread).1⟩
  · intro ⟨s, hterm, hs⟩
    exact ⟨s, (Symbol.exact_read kind ..).2 ⟨hs, nextIs_never _⟩, hterm⟩

theorem fails_readAs_iff {kind : SymbolKind} :
    Fails (readAs kind) t cause w ↔ Fails (Symbol.read kind) t cause w :=
  fails_bind_pure_iff (Symbol.predictive_read kind)

/-- The first character of a term decides which symbol is read. -/
theorem predictive_read : Predictive read := by
  intro cs
  refine DecidedAt.peek?_bind ?_
  split
  · exact predictive_readAs _ cs
  · exact decidedAt_unexpected _ cs

/-- The first character of a term is the delimiter that its symbol begins with. -/
theorem head?_of_derives (h : Term.Derives t term) : t.head? = some term.kind.opening := by
  obtain ⟨u, rfl, _⟩ := Symbol.derives_iff.1 (derives_iff.1 h)
  rfl

theorem nextIs_begins_of_derives (h : Term.Derives t term) : nextIs begins t = true := by
  rw [nextIs, head?_of_derives h]
  exact begins_opening term.kind

/-- A term is read just from the texts of its rule, whatever follows. -/
theorem exact_read : Exact read Term.Derives never := by
  intro t term w
  unfold read
  rw [reads_peek?_bind_iff]
  constructor
  · intro h
    refine ⟨?_, nextIs_never w⟩
    split at h
    · obtain ⟨s, rfl, hs⟩ := reads_readAs_iff.1 h
      exact derives_iff.2 hs
    · exact absurd h not_reads_unexpected
  · intro ⟨h, _⟩
    have hhead : (t ++ w).head? = some term.kind.opening := by
      rw [List.head?_append, head?_of_derives h]
      rfl
    rw [hhead, Option.bind_some, ofOpening?_opening]
    exact reads_readAs_iff.2 ⟨term.symbol, rfl, derives_iff.1 h⟩

theorem fails_read_iff : Fails read t cause w ↔ Fault t cause w := by
  unfold read
  rw [fails_peek?_bind_iff]
  constructor
  · intro h
    split at h
    · next kind hkind =>
        obtain ⟨c, hhead, hc⟩ := Option.bind_eq_some_iff.1 hkind
        obtain rfl := SymbolKind.ofOpening?_eq_some_iff.1 hc
        obtain ⟨rfl, hne, _⟩ | hfault := Symbol.fails_read_iff.1 (fails_readAs_iff.1 h)
        · exact absurd hhead hne
        · exact .symbol hfault
    · next hnone =>
        obtain ⟨rfl, rfl⟩ := fails_unexpected_iff.1 h
        refine .missing ?_
        unfold nextIs begins
        rw [List.nil_append] at hnone
        cases hw : w.head? with
        | none => rfl
        | some c =>
            rw [hw, Option.bind_some] at hnone
            rw [Option.any_some, hnone]
            rfl
  · intro h
    cases h with
    | missing hw =>
        have hnone : w.head?.bind SymbolKind.ofOpening? = none := by
          cases w with
          | nil => rfl
          | cons c w => exact Option.isSome_eq_false_iff.1 hw |> Option.isNone_iff_eq_none.1
        rw [List.nil_append, hnone]
        exact fails_unexpected _ w
    | @symbol kind _ _ _ hfault =>
        have hhead : (t ++ w).head? = some kind.opening := by
          cases hfault <;> rfl
        rw [hhead, Option.bind_some, ofOpening?_opening]
        exact fails_readAs_iff.2 (Symbol.fails_read_iff.2 (.inr hfault))

/-- Terms can be read one after the other, each with its blanks. -/
theorem repeatable_read :
    Repeatable begins (thenBlanks read) (DerivesThenBlanks Term.Derives) isBlank :=
  repeatable_thenBlanks consumes_read predictive_read exact_read nextIs_begins_of_derives
    isBlank_of_begins

end Term

/-! ## Alternatives -/

namespace Expression

variable {t v w : List Char} {e : Expression} {es : List Expression} {cause : Cause}

/-- The faults of an alternative: it is empty, something else than a term begins it, or a symbol
of it has a fault. -/
inductive Fault : List Char → Cause → List Char → Prop
  | empty {w : List Char} : w.head? = some '|' ∨ w.head? = some ';' →
      Fault [] .emptyAlternative w
  | missing {w : List Char} : nextIs Term.begins w = false → w.head? ≠ some '|' →
      w.head? ≠ some ';' → Fault [] (.unexpected [.char '<', .char '"'] w.head?) w
  | symbol {t u w : List Char} {terms : List Term} {kind : SymbolKind} {cause : Cause} :
      Star (DerivesThenBlanks Term.Derives) t terms → kind.Fault u cause w →
        Fault (t ++ u) cause w

/-- The characters that an alternative goes on with. -/
def more (c : Char) : Bool := isBlank c || Term.begins c

theorem predictive_readTerms : Predictive readTerms :=
  Term.repeatable_read.predictive_first (predictive_thenBlanks Term.predictive_read) _

/-- The terms of an alternative are read up to a character that is neither a blank nor begins a
term. -/
theorem exact_readTerms : Exact readTerms Expression.Derives more := by
  intro v e w
  have hexact := Term.repeatable_read.exact_first (f := fun first further => mk (first :: further))
    (predictive_thenBlanks Term.predictive_read)
    (exact_thenBlanks Term.predictive_read Term.exact_read) v e w
  refine hexact.trans (and_congr_left fun _ => ?_)
  constructor
  · intro ⟨t, u, first, further, hv, hfirst, hfurther, he⟩
    rw [hv, he]
    exact .mk hfirst hfurther
  · intro h
    cases h with
    | mk hfirst hfurther => exact ⟨_, _, _, _, rfl, hfirst, hfurther, rfl⟩

/-- The terms of an alternative fail where the first one is missing or where a symbol has a fault.
That a later term is missing is no fault: the repetition ends there. -/
theorem fails_readTerms_iff :
    Fails readTerms v cause w ↔
      Term.Fault v cause w ∨ ∃ t u terms kind, v = t ++ u ∧
        Star (DerivesThenBlanks Term.Derives) t terms ∧ SymbolKind.Fault kind u cause w := by
  unfold readTerms
  rw [Term.repeatable_read.fails_some_iff (exact_thenBlanks Term.predictive_read Term.exact_read)]
  simp only [fails_thenBlanks_iff Term.predictive_read, Term.fails_read_iff]
  constructor
  · intro ⟨t, u, terms, hv, hstar, hnext, hfault⟩
    cases hfault with
    | symbol hfault => exact .inr ⟨t, u, terms, _, hv, hstar, hfault⟩
    | missing hnone =>
        cases hstar with
        | nil =>
            rw [hv]
            exact .inl (.missing hnone)
        | cons _ _ =>
            -- A repetition does not go on where no term begins.
            have hbegins := hnext (List.cons_ne_nil _ _)
            rw [List.nil_append, hnone] at hbegins
            cases hbegins
  · intro hor
    obtain hfault | ⟨t, u, terms, kind, hv, hstar, hfault⟩ := hor
    · exact ⟨[], v, [], rfl, .nil, fun hne => absurd rfl hne, hfault⟩
    · have hnext : nextIs Term.begins (u ++ w) = true := by
        cases hfault <;> exact Term.begins_opening kind
      exact ⟨t, u, terms, hv, hstar, fun _ => hnext, .symbol hfault⟩

/-- A bar or a semicolon decides that an alternative is empty. -/
theorem predictive_read : Predictive read := by
  intro cs
  refine DecidedAt.peek?_bind ?_
  split
  · next h => exact decidedAt_fail rfl (.inl h)
  · next h => exact decidedAt_fail rfl (.inr h)
  · exact predictive_readTerms cs

/-- An alternative begins with a term. -/
theorem nextIs_begins_of_derives (h : Expression.Derives t e) :
    nextIs Term.begins t = true := by
  cases h with
  | mk hfirst _ =>
      exact nextIs_append (nextIs_of_derivesThenBlanks Term.nextIs_begins_of_derives hfirst) _

/-- An alternative is read just from the texts of its rule, where it cannot go on. -/
theorem exact_read : Exact read Expression.Derives more := by
  intro v e w
  unfold read
  rw [reads_peek?_bind_iff]
  constructor
  · intro h
    split at h
    · exact absurd h not_reads_fail
    · exact absurd h not_reads_fail
    · exact (exact_readTerms v e w).1 h
  · intro ⟨h, hmore⟩
    have hnext := nextIs_append (nextIs_begins_of_derives h) w
    obtain ⟨kind, hhead⟩ := Term.exists_opening hnext
    have hread := (exact_readTerms v e w).2 ⟨h, hmore⟩
    rw [hhead]
    cases kind <;> exact hread

theorem fails_read_iff : Fails read v cause w ↔ Fault v cause w := by
  unfold read
  rw [fails_peek?_bind_iff]
  constructor
  · intro h
    split at h
    · next hhead =>
        obtain ⟨rfl, rfl⟩ := (fails_fail_iff rfl).1 h
        exact .empty (.inl hhead)
    · next hhead =>
        obtain ⟨rfl, rfl⟩ := (fails_fail_iff rfl).1 h
        exact .empty (.inr hhead)
    · next hbar hsemi =>
        obtain hfault | ⟨t, u, terms, kind, rfl, hstar, hfault⟩ := fails_readTerms_iff.1 h
        · cases hfault with
          | missing hnone => exact .missing hnone hbar hsemi
          | symbol hfault => exact .symbol (t := []) .nil hfault
        · exact .symbol hstar hfault
  · intro h
    cases h with
    | empty hhead =>
        obtain hhead | hhead := hhead
        · rw [List.nil_append, hhead]
          exact fails_fail rfl w
        · rw [List.nil_append, hhead]
          exact fails_fail rfl w
    | missing hnone hbar hsemi =>
        rw [List.nil_append]
        split
        · next h => exact absurd h hbar
        · next h => exact absurd h hsemi
        · exact fails_readTerms_iff.2 (.inl (.missing hnone))
    | @symbol t u w terms kind _ hstar hfault =>
        -- What is seen first is the delimiter of the first term, be it the faulty one or not, so
        -- neither check for an empty alternative applies.
        have hnext : nextIs Term.begins (t ++ u ++ w) = true := by
          cases hstar with
          | nil => cases hfault <;> exact Term.begins_opening kind
          | cons hfirst _ =>
              rw [List.append_assoc, List.append_assoc]
              exact nextIs_append
                (nextIs_of_derivesThenBlanks Term.nextIs_begins_of_derives hfirst) _
        obtain ⟨opened, hhead⟩ := Term.exists_opening hnext
        have hfail := fails_readTerms_iff.2 (.inr ⟨t, u, terms, kind, rfl, hstar, hfault⟩)
        rw [hhead]
        cases opened <;> exact hfail

/-! ### The alternatives of a right-hand side -/

/-- The faults of a right-hand side: it is empty, or the alternative that is due has a fault. -/
inductive FaultAll : List Char → Cause → List Char → Prop
  | none {w : List Char} : w.head? = some ';' → FaultAll [] .noAlternatives w
  | first {t w : List Char} {cause : Cause} : (t ++ w).head? ≠ some ';' → Fault t cause w →
      FaultAll t cause w
  | later {t b u w : List Char} {es : List Expression} {cause : Cause} :
      Expression.DerivesAll t es → DerivesBlanks b → nextIs isBlank (u ++ w) = false →
        Fault u cause w → FaultAll (t ++ '|' :: (b ++ u)) cause w

theorem more_bar : more '|' = false := by decide

theorem predictive_afterBar : Predictive (readBlanks >>= fun _ => read) :=
  predictive_readBlanks.bind fun _ => predictive_read

theorem predictive_readAfterBar : Predictive readAfterBar :=
  (predictive_expect '|').bind fun _ => predictive_afterBar

/-- No blank stands before an alternative that has begun, so the blanks after a bar end there. -/
theorem nextIs_isBlank_of_derives (h : Expression.Derives t e) (w : List Char) :
    nextIs isBlank (t ++ w) = false :=
  nextIs_false_of_imp (fun _ => Term.isBlank_of_begins)
    (nextIs_append (nextIs_begins_of_derives h) w)

/-- An alternative after a bar is read just from the texts of its rule, where it cannot go on. -/
theorem exact_readAfterBar : Exact readAfterBar DerivesAfterBar more := by
  intro v e w
  unfold readAfterBar
  rw [reads_bind_iff (predictive_expect '|') fun _ => predictive_afterBar]
  constructor
  · intro ⟨t₁, t₂, d, hv, hbar, hrest⟩
    rw [reads_bind_iff predictive_readBlanks fun _ => predictive_read] at hrest
    obtain ⟨b, t, s, rfl, hblanks, hread⟩ := hrest
    obtain ⟨hb, _, _⟩ := reads_readBlanks_iff.1 hblanks
    obtain ⟨he, hmore⟩ := (exact_read ..).1 hread
    have hbarred : DerivesAfterBar ('|' :: b ++ t) e := .mk hb he
    rw [hv, (reads_expect_iff.1 hbar).1]
    exact ⟨hbarred, hmore⟩
  · intro ⟨h, hmore⟩
    cases h with
    | @mk b t _ hb he =>
        refine ⟨['|'], b ++ t, '|', rfl, reads_expect _ _, ?_⟩
        have hblanks := reads_readBlanks hb (nextIs_isBlank_of_derives he w)
        exact hblanks.bind ((exact_read ..).2 ⟨he, hmore⟩)

/-- At a bar, the alternative after it and its blanks is the only thing that can fail. -/
theorem fails_readAfterBar_iff (hbar : (v ++ w).head? = some '|') :
    Fails readAfterBar v cause w ↔
      ∃ b u, v = '|' :: (b ++ u) ∧ DerivesBlanks b ∧ nextIs isBlank (u ++ w) = false ∧
        Fault u cause w := by
  unfold readAfterBar
  rw [fails_bind_iff (predictive_expect '|') fun _ => predictive_afterBar]
  constructor
  · intro h
    obtain h | ⟨t₁, t₂, d, rfl, hopen, hrest⟩ := h
    · obtain ⟨rfl, hne, _⟩ := fails_expect_iff.1 h
      exact absurd hbar hne
    · rw [fails_bind_iff predictive_readBlanks fun _ => predictive_read] at hrest
      obtain hblanks | ⟨b, u, s, rfl, hblanks, hfail⟩ := hrest
      · exact absurd hblanks not_fails_readBlanks
      · obtain ⟨hb, _, hstop⟩ := reads_readBlanks_iff.1 hblanks
        rw [(reads_expect_iff.1 hopen).1]
        exact ⟨b, u, rfl, hb, hstop, fails_read_iff.1 hfail⟩
  · intro ⟨b, u, hv, hb, hstop, hfault⟩
    refine .inr ⟨['|'], b ++ u, '|', hv, reads_expect _ _, ?_⟩
    exact (reads_readBlanks hb hstop).bind_fails (fails_read_iff.2 hfault)

/-- Alternatives after bars can be read one after the other: a bar is not taken for more of the
alternative before it. -/
theorem repeatable_readAfterBar : Repeatable (· = '|') readAfterBar DerivesAfterBar more where
  consumes := consumes_readAfterBar
  predictive := predictive_readAfterBar
  exact _ := exact_readAfterBar ..
  begins_of_derives h := by
    cases h
    rfl
  more_of_begins h := by
    rw [of_decide_eq_true h]
    exact more_bar

/-- The characters that a right-hand side goes on with. -/
def moreAll (c : Char) : Bool := more c || c = '|'

theorem predictive_readSome : Predictive readSome :=
  repeatable_readAfterBar.predictive_first predictive_read _

/-- The alternatives of a right-hand side are read up to a character that is no blank, no bar and
begins no term. -/
theorem exact_readSome : Exact readSome DerivesAll moreAll := by
  intro v es w
  have hexact := repeatable_readAfterBar.exact_first (f := fun first further => first :: further)
    predictive_read exact_read v es w
  refine hexact.trans (and_congr_left fun _ => ?_)
  constructor
  · intro ⟨t, u, first, further, hv, hfirst, hfurther, hes⟩
    rw [hv, hes]
    exact .mk hfirst hfurther
  · intro h
    cases h with
    | mk hfirst hfurther => exact ⟨_, _, _, _, rfl, hfirst, hfurther, rfl⟩

/-- The first alternative has a fault, or one that is due after a bar. -/
theorem fails_readSome_iff :
    Fails readSome v cause w ↔
      Fault v cause w ∨ ∃ t es b u, v = t ++ '|' :: (b ++ u) ∧ DerivesAll t es ∧
        DerivesBlanks b ∧ nextIs isBlank (u ++ w) = false ∧ Fault u cause w := by
  unfold readSome
  rw [repeatable_readAfterBar.fails_first_iff predictive_read exact_read, fails_read_iff]
  refine or_congr_right ⟨fun h => ?_, fun h => ?_⟩
  · obtain ⟨t, u, s, first, further, hv, hfirst, hfurther, hnext, hfail⟩ := h
    have hbar : (s ++ w).head? = some '|' := by
      cases hhead : (s ++ w).head? with
      | none =>
          rw [nextIs, hhead] at hnext
          cases hnext
      | some c =>
          rw [nextIs, hhead] at hnext
          rw [of_decide_eq_true hnext]
    obtain ⟨b, u', rfl, hb, hstop, hfault⟩ := (fails_readAfterBar_iff hbar).1 hfail
    rw [← List.append_assoc] at hv
    exact ⟨t ++ u, first :: further, b, u', hv, .mk hfirst hfurther, hb, hstop, hfault⟩
  · obtain ⟨t, es, b, u, hv, hall, hb, hstop, hfault⟩ := h
    cases hall with
    | @mk t₁ t₂ first further hfirst hfurther =>
        rw [List.append_assoc] at hv
        refine ⟨t₁, t₂, '|' :: (b ++ u), first, further, hv, hfirst, hfurther, rfl, ?_⟩
        exact (fails_readAfterBar_iff rfl).2 ⟨b, u, rfl, hb, hstop, hfault⟩

/-- A semicolon decides that there are no alternatives. -/
theorem predictive_readAll : Predictive readAll := by
  intro cs
  refine DecidedAt.peek?_bind ?_
  split
  · next h => exact decidedAt_fail rfl h
  · exact predictive_readSome cs

/-- A right-hand side begins with a term. -/
theorem nextIs_begins_of_derivesAll (h : Expression.DerivesAll t es) :
    nextIs Term.begins t = true := by
  cases h with
  | mk hfirst _ => exact nextIs_append (nextIs_begins_of_derives hfirst) _

/-- No blank stands before a right-hand side, so the blanks after the sign end there. -/
theorem nextIs_isBlank_of_derivesAll (h : Expression.DerivesAll t es) (w : List Char) :
    nextIs isBlank (t ++ w) = false :=
  nextIs_false_of_imp (fun _ => Term.isBlank_of_begins)
    (nextIs_append (nextIs_begins_of_derivesAll h) w)

/-- A right-hand side does not begin with the semicolon that ends a production. -/
theorem head?_ne_semicolon_of_derivesAll (h : Expression.DerivesAll t es) (w : List Char) :
    (t ++ w).head? ≠ some ';' := by
  obtain ⟨kind, hhead⟩ :=
    Term.exists_opening (nextIs_append (nextIs_begins_of_derivesAll h) w)
  rw [hhead]
  cases kind <;> decide

/-- A right-hand side is read just from the texts of its rule, where it cannot go on. -/
theorem exact_readAll : Exact readAll DerivesAll moreAll := by
  intro v es w
  unfold readAll
  rw [reads_peek?_bind_iff]
  constructor
  · intro h
    split at h
    · exact absurd h not_reads_fail
    · exact (exact_readSome v es w).1 h
  · intro ⟨h, hmore⟩
    split
    · next hhead => exact absurd hhead (head?_ne_semicolon_of_derivesAll h w)
    · exact (exact_readSome v es w).2 ⟨h, hmore⟩

/-- Reading a right-hand side fails at the faults of a right-hand side. -/
theorem fails_readAll_iff : Fails readAll v cause w ↔ FaultAll v cause w := by
  unfold readAll
  rw [fails_peek?_bind_iff]
  constructor
  · intro h
    split at h
    · next hhead =>
        obtain ⟨rfl, rfl⟩ := (fails_fail_iff rfl).1 h
        exact .none hhead
    · next hhead =>
        obtain hfault | ⟨t, es, b, u, rfl, hall, hb, hstop, hfault⟩ := fails_readSome_iff.1 h
        · exact .first hhead hfault
        · exact .later hall hb hstop hfault
  · intro h
    cases h with
    | none hhead =>
        rw [List.nil_append, hhead]
        exact fails_fail rfl w
    | first hhead hfault =>
        split
        · next h => exact absurd h hhead
        · exact fails_readSome_iff.2 (.inl hfault)
    | later hall hb hstop hfault =>
        split
        · next h =>
            rw [List.append_assoc] at h
            exact absurd h (head?_ne_semicolon_of_derivesAll hall _)
        · exact fails_readSome_iff.2 (.inr ⟨_, _, _, _, rfl, hall, hb, hstop, hfault⟩)

end Expression

end BnfText

import BnfText.Proofs.Lines
import BnfText.Proofs.Literals
import BnfText.Proofs.Session
import BnfText.Proofs.Verdict

/-!
# BnfText.Proofs.LineBreaks

The characters of a text that is read, by where they stand.  All of them are of ASCII, so columns
count bytes; outside literals there are only blanks and signs, and in a literal there is neither a
line feed nor a tab.  So only the blanks that are skipped lead from one line to the next.

* `Grammar.isLoose_or_mem_compact` — a character is a blank outside literals or one of the compact
  form of the tree;
* `Parser.LinesInBlanks` — steps that come to another line in skipping blanks only;
* `Parser.LinesInBlanks.exists_runs` — the legs of such a step, of which those that pass a line feed
  skip blanks;
* `Grammar.parse_eq_ok_iff_exists_runs` — the same of a whole text, with the legs as its derivation;
* `Grammar.parse_lineBreaks` — what stands where in a text that is read.
-/

namespace BnfText

open BnfText.Parser BnfText.Position

/-! ## ASCII -/

/-- Whether a character is one of ASCII. -/
def IsAscii (c : Char) : Prop := c.toNat < 128

instance (c : Char) : Decidable (IsAscii c) := inferInstanceAs (Decidable (c.toNat < 128))

theorem isAscii_of_le {c d : Char} (h : c ≤ d) (hd : IsAscii d) : IsAscii c :=
  Nat.lt_of_le_of_lt (UInt32.le_iff_toNat_le.1 (Char.le_def.1 h)) hd

theorem isAscii_of_all {cs : List Char} (h : cs.all (IsAscii ·) = true) {c : Char} (hc : c ∈ cs) :
    IsAscii c := of_decide_eq_true (List.all_eq_true.1 h c hc)

/-- The characters of ASCII are those of one byte. -/
theorem utf8Size_of_isAscii {c : Char} (h : IsAscii c) : c.utf8Size = 1 :=
  Char.utf8Size_eq_one_iff.2 (UInt32.le_iff_toNat_le.2 (Nat.le_of_lt_succ h))

/-- So a text of them has as many bytes as characters. -/
theorem byteLength_of_isAscii {cs : List Char} (h : ∀ c ∈ cs, IsAscii c) :
    byteLength cs = cs.length := by
  induction cs with
  | nil => rfl
  | cons c cs ih =>
      have hc := utf8Size_of_isAscii (h c List.mem_cons_self)
      have hcs := ih fun d hd => h d (List.mem_cons_of_mem c hd)
      rw [byteLength_cons, hc, hcs, List.length_cons, Nat.add_comm]

theorem isAscii_of_isTextChar {c : Char} (h : IsTextChar c) : IsAscii c := by
  rcases h with h | h | h | h
  · exact isAscii_of_le h.2 (by decide)
  · exact isAscii_of_le h.2 (by decide)
  · exact isAscii_of_le h.2 (by decide)
  · exact isAscii_of_all (by decide) h

/-- What stands for itself in a symbol is of ASCII. -/
theorem SymbolKind.isAscii_of_isPlain {kind : SymbolKind} {c : Char} (h : kind.isPlain c = true) :
    IsAscii c := by
  rcases isPlain_iff.1 h with htext | ⟨_, rfl | rfl⟩
  · exact isAscii_of_isTextChar htext
  · decide
  · decide

/-- What can be written down is written with characters of ASCII. -/
theorem SymbolKind.isAscii_of_mem_spelling {kind : SymbolKind} {c d : Char}
    (h : kind.allows c = true) (hd : d ∈ spelling c) : IsAscii d := by
  rcases derivesChar_iff.1 (derivesChar_spelling h) with ⟨hself, hplain⟩ | hescape
  · obtain rfl := List.mem_singleton.1 (hself ▸ hd)
    exact isAscii_of_isPlain hplain
  · generalize spelling c = t at hescape hd
    cases hescape <;> exact isAscii_of_all (by decide) hd

/-- So is what a symbol that can be written down is printed with. -/
theorem Symbol.isAscii_of_mem_printed {kind : SymbolKind} {s : Symbol kind} {c : Char}
    (h : s.WellFormed) (hc : c ∈ printed s) : IsAscii c := by
  rw [printed_symbol, List.mem_append, List.mem_cons, List.mem_flatMap, List.mem_singleton] at hc
  rcases hc with (rfl | ⟨d, hd, hc⟩) | rfl
  · cases kind <;> decide
  · exact SymbolKind.isAscii_of_mem_spelling (h d hd) hc
  · cases kind <;> decide

/-! ## The characters of a text that is read -/

/-- The signs between the symbols of a grammar. -/
def signChars : List Char := [':', '=', '|', ';']

theorem isAscii_of_mem_signChars {c : Char} (h : c ∈ signChars) : IsAscii c :=
  isAscii_of_all (by decide) h

/-- Each character of a text is marked with the state of the scan before it. -/
theorem Scan.mem_marks (s : Scan) (t : List Char) (c : Char) (u : List Char) :
    (s.after t, c) ∈ s.marks (t ++ c :: u) := by
  rw [marks_append, marks_cons]
  exact List.mem_append_right _ List.mem_cons_self

section Mem

variable {c : Char}

/-- The compact form of a right-hand side has bars and the characters of its alternatives. -/
theorem Expression.mem_compactAll {es : List Expression} (hc : c ∈ compactAll es) :
    c = '|' ∨ ∃ e ∈ es, c ∈ e.compact := by
  cases es with
  | nil => simp [compactAll] at hc
  | cons first further =>
      rw [compactAll_cons, List.mem_append, List.mem_flatMap] at hc
      rcases hc with hc | ⟨e, he, hc⟩
      · exact .inr ⟨first, List.mem_cons_self, hc⟩
      · rcases List.mem_cons.1 hc with rfl | hc
        · exact .inl rfl
        · exact .inr ⟨e, List.mem_cons_of_mem first he, hc⟩

/-- The compact form of a production has the characters of its symbols, and signs. -/
theorem Production.mem_compact {p : Production} (hc : c ∈ p.compact) :
    c ∈ signChars ∨ ∃ t ∈ p.symbols, c ∈ printed t := by
  have hsign : [':', ':', '='] ⊆ signChars := by decide
  have hend : [';'] ⊆ signChars := by decide
  simp only [compact, List.mem_append] at hc
  rcases hc with hc | hc | hc | hc
  · have hlhs : Term.ofSymbol p.lhs ∈ p.symbols := List.mem_cons_self
    exact .inr ⟨_, hlhs, hc⟩
  · exact .inl (hsign hc)
  · rcases Expression.mem_compactAll hc with rfl | ⟨e, he, hc⟩
    · exact .inl (by decide)
    · obtain ⟨t, ht, hc⟩ := List.mem_flatMap.1 hc
      have hrhs : t ∈ p.symbols := List.mem_cons_of_mem _ (List.mem_flatMap.2 ⟨e, he, ht⟩)
      exact .inr ⟨t, hrhs, hc⟩
  · exact .inl (hend hc)

/-- A character of the compact form is a sign or stands in a symbol. -/
theorem Grammar.mem_compact {g : Grammar} (hc : c ∈ g.compact) :
    c ∈ signChars ∨ ∃ t ∈ g.symbols, c ∈ printed t := by
  obtain ⟨p, hp, hc⟩ := List.mem_flatMap.1 hc
  rcases p.mem_compact hc with hsign | ⟨t, ht, hc⟩
  · exact .inl hsign
  · exact .inr ⟨t, List.mem_flatMap.2 ⟨p, hp, ht⟩, hc⟩

end Mem

section Characters

variable {text : String} {g : Grammar}

/-- A character of a text that is read is a blank outside all literals, or it is in the compact form
of the tree. -/
theorem Grammar.isLoose_or_mem_compact (h : parse text = .ok g) {m : Scan × Char}
    (hm : m ∈ Scan.outside.marks text.toList) : Scan.isLoose m = true ∨ m.2 ∈ g.compact := by
  cases hloose : Scan.isLoose m with
  | true => exact .inl rfl
  | false =>
      have hleft : m.2 ∈ Scan.outside.stripped text.toList :=
        List.mem_map.2 ⟨m, List.mem_filter.2 ⟨hm, by simp [hloose]⟩, rfl⟩
      rw [(strips_of_derives (parse_eq_ok_iff.1 h)).stripped_eq] at hleft
      exact .inr hleft

theorem isAscii_of_isBlank {c : Char} (h : isBlank c = true) : IsAscii c := by
  rcases isBlank_iff.1 h with rfl | rfl | rfl <;> decide

/-- A text that is read is a text of ASCII: its characters are blanks, signs or stand in a symbol
that can be written down. -/
theorem Grammar.isAscii_of_parse (h : parse text = .ok g) {c : Char} (hc : c ∈ text.toList) :
    IsAscii c := by
  rw [← Scan.map_snd_marks .outside text.toList] at hc
  obtain ⟨m, hm, rfl⟩ := List.mem_map.1 hc
  rcases isLoose_or_mem_compact h hm with hloose | hcompact
  · exact isAscii_of_isBlank (Scan.isLoose_iff.1 hloose).2
  · rcases mem_compact hcompact with hsign | ⟨t, ht, hprinted⟩
    · exact isAscii_of_mem_signChars hsign
    · have hwell := wellFormed_of_mem_symbols (wellFormed_of_parse h).2 ht
      exact Symbol.isAscii_of_mem_printed hwell hprinted

/-- A line feed or a tab of a text that is read stands outside all literals. -/
theorem Grammar.outside_of_parse (h : parse text = .ok g) {m : Scan × Char}
    (hm : m ∈ Scan.outside.marks text.toList) (hc : m.2 = '\n' ∨ m.2 = '\t') :
    m.1 = .outside := by
  rcases isLoose_or_mem_compact h hm with hloose | hcompact
  · exact (Scan.isLoose_iff.1 hloose).1
  · rcases mem_compact hcompact with hsign | ⟨t, _, hprinted⟩
    · rcases hc with hc | hc <;> simp [hc, signChars] at hsign
    · exact absurd hprinted (t.symbol.not_mem_printed hc)

/-- Between the literals there is nothing but blanks and signs. -/
theorem Grammar.mem_of_mem_betweenLiterals (h : parse text = .ok g) {c : Char}
    (hc : c ∈ betweenLiterals text) : isBlank c = true ∨ c ∈ signChars := by
  cases hblank : isBlank c with
  | true => exact .inl rfl
  | false =>
      have hsign : c ∈ (betweenLiterals text).filter fun c => !isBlank c :=
        List.mem_filter.2 ⟨hc, by simp [hblank]⟩
      rw [betweenLiterals_of_parse h, List.mem_flatMap] at hsign
      obtain ⟨p, _, hp⟩ := hsign
      refine .inr ?_
      simp only [Production.signs, Expression.bars, List.mem_append, List.mem_cons,
        List.mem_replicate] at hp
      simp only [signChars, List.mem_cons]
      grind

end Characters

/-! ## Lines -/

namespace Position

/-- What of a text stands on the line that the text ends on. -/
def lastLine (cs : List Char) : List Char := (cs.reverse.takeWhile (· ≠ '\n')).reverse

/-- A column is one more than what stands before it on the line. -/
theorem column_after (cs : List Char) : (after cs).column = (lastLine cs).length + 1 := by
  rw [lastLine, List.length_reverse]
  rfl

/-- The last line is a part of the text. -/
theorem mem_of_mem_lastLine {cs : List Char} {c : Char} (h : c ∈ lastLine cs) : c ∈ cs := by
  rw [lastLine, List.mem_reverse] at h
  exact List.mem_reverse.1 ((List.takeWhile_prefix _).subset h)

/-- A place moves on by a line for each line feed walked over. -/
theorem line_walk (p : Position) (cs : List Char) : (p.walk cs).line = p.line + cs.count '\n' := by
  induction cs generalizing p with
  | nil => rfl
  | cons c cs ih =>
      rw [walk_cons, ih, List.count_cons]
      by_cases hc : c = '\n' <;> simp [step, hc]
      omega

/-- Without a line feed the line stays. -/
theorem line_walk_of_not_mem (p : Position) {cs : List Char} (h : '\n' ∉ cs) :
    (p.walk cs).line = p.line := by
  rw [line_walk, List.count_eq_zero.2 h, Nat.add_zero]

end Position

/-! ### Steps that come to another line -/

namespace Parser

variable {α β : Type} {p : Parser α} {f : α → Parser β}

/-- A step that only skips, and is still on the line where it began whenever it succeeds. -/
structure KeepsLine (p : Parser α) : Prop where
  advances : Advances p
  line_eq : ∀ {c a c'}, p c = .ok a c' → c'.pos.line = c.pos.line

/-- Steps that are put together from skipping blanks and from steps that keep the line.  Where one
of them comes to another line, blanks are being skipped. -/
inductive LinesInBlanks : {α : Type} → Parser α → Prop
  | readBlanks : LinesInBlanks BnfText.readBlanks
  | keepsLine {α : Type} {p : Parser α} : KeepsLine p → LinesInBlanks p
  | bind {α β : Type} {p : Parser α} {f : α → Parser β} :
      LinesInBlanks p → (∀ a, LinesInBlanks (f a)) → LinesInBlanks (p >>= f)
  | many {α : Type} {begins : Char → Bool} {item : Parser α} {consumes : Consumes item} :
      LinesInBlanks item → LinesInBlanks (many begins item consumes)

/-- A step keeps the line if it takes no line feed. -/
theorem Predictive.keepsLine (hp : Predictive p) (advances : Advances p)
    (h : ∀ t a w, Reads p t a w → '\n' ∉ t) : KeepsLine p where
  advances
  line_eq hok := by
    obtain ⟨t, hpass, hread⟩ := hp.eq_ok_iff.1 hok
    rw [hpass.pos, line_walk_of_not_mem _ (h t _ _ hread)]

theorem keepsLine_pure (a : α) : KeepsLine (pure a) where
  advances := advances_pure a
  line_eq h := by
    cases h
    rfl

theorem keepsLine_peek? : KeepsLine peek? where
  advances := advances_peek?
  line_eq h := by
    cases h
    rfl

theorem keepsLine_fail (cause : Cause) : KeepsLine (fail cause : Parser α) :=
  ⟨advances_fail cause, nofun⟩

theorem keepsLine_unexpected (expected : List Expected) :
    KeepsLine (unexpected expected : Parser α) := ⟨advances_unexpected expected, nofun⟩

/-- Any character but the line feed is taken on the line where it stands. -/
theorem keepsLine_expect (ch : Char) (hch : ch ≠ '\n') : KeepsLine (expect ch) := by
  refine (predictive_expect ch).keepsLine (advances_expect ch) fun t d w h => ?_
  rw [(reads_expect_iff.1 h).1, List.mem_singleton]
  exact hch.symm

theorem keepsLine_expectText (value : String) (h : '\n' ∉ value.toList) :
    KeepsLine (expectText value) := by
  refine (predictive_expectText value).keepsLine (advances_expectText value) fun t s w hread => ?_
  rwa [(reads_expectText_iff.1 hread).1]

/-- Skipping the blanks after a step adds no line breaks but those among the blanks. -/
theorem LinesInBlanks.thenBlanks (h : LinesInBlanks p) : LinesInBlanks (thenBlanks p) :=
  h.bind fun a => readBlanks.bind fun _ => .keepsLine (keepsLine_pure a)

/-- What is done after a look at the next character may depend on it. -/
theorem LinesInBlanks.peek? {f : Option Char → Parser α} (h : ∀ c?, LinesInBlanks (f c?)) :
    LinesInBlanks (peek? >>= f) := .bind (.keepsLine keepsLine_peek?) h

end Parser

/-! ### Runs, leg by leg -/

/-- A part of a run: the cursors where it begins and ends, and whether blanks are skipped in it. -/
structure Leg where
  start : Cursor
  stop : Cursor
  skipsBlanks : Bool

/-- No line feed is passed in the leg. -/
def Leg.StaysOnLine (leg : Leg) : Prop := ∃ t, leg.start.Passes t leg.stop ∧ '\n' ∉ t

namespace Parser

/-- A step succeeds in the legs given: it is `readBlanks`, or it is taken as a whole, or its legs
are those of the steps that it is put together from. -/
inductive Runs : {α : Type} → Parser α → Cursor → α → Cursor → List Leg → Prop
  | readBlanks {c c' : Cursor} {blanks : String} : BnfText.readBlanks c = .ok blanks c' →
      Runs BnfText.readBlanks c blanks c' [⟨c, c', true⟩]
  | step {α : Type} {p : Parser α} {c c' : Cursor} {a : α} : p c = .ok a c' →
      Runs p c a c' [⟨c, c', false⟩]
  | bind {α β : Type} {p : Parser α} {f : α → Parser β} {c d c' : Cursor} {a : α} {b : β}
      {legs legs' : List Leg} : Runs p c a d legs → Runs (f a) d b c' legs' →
        Runs (p >>= f) c b c' (legs ++ legs')
  | stop {α : Type} {begins : Char → Bool} {item : Parser α} {consumes : Consumes item}
      {c : Cursor} : nextIs begins c.rest = false → Runs (many begins item consumes) c [] c []
  | next {α : Type} {begins : Char → Bool} {item : Parser α} {consumes : Consumes item}
      {c d c' : Cursor} {a : α} {as : List α} {legs legs' : List Leg} :
      nextIs begins c.rest = true → Runs item c a d legs →
        Runs (many begins item consumes) d as c' legs' →
          Runs (many begins item consumes) c (a :: as) c' (legs ++ legs')

/-- The legs lead from one cursor to another, each from where the one before has ended. -/
inductive Connects : Cursor → List Leg → Cursor → Prop
  | nil {c : Cursor} : Connects c [] c
  | cons {leg : Leg} {legs : List Leg} {c' : Cursor} : Connects leg.stop legs c' →
      Connects leg.start (leg :: legs) c'

theorem Connects.single (leg : Leg) : Connects leg.start [leg] leg.stop := .cons .nil

/-- Legs that meet make up one way. -/
theorem Connects.append {c d c' : Cursor} {legs legs' : List Leg} (h : Connects c legs d)
    (h' : Connects d legs' c') : Connects c (legs ++ legs') c' := by
  induction h with
  | nil => exact h'
  | cons _ ih => exact .cons (ih h')

section Runs

variable {α : Type} {p : Parser α} {c c' : Cursor} {a : α} {legs : List Leg}

/-- What has legs is a success. -/
theorem Runs.ok (h : Runs p c a c' legs) : p c = .ok a c' := by
  induction h with
  | readBlanks h => exact h
  | step h => exact h
  | bind _ _ ih ih' => exact bind_eq_ok.2 ⟨_, _, ih, ih'⟩
  | stop h => exact many_eq_ok_iff.2 (.inl ⟨h, rfl, rfl⟩)
  | next h _ _ ih ih' => exact many_eq_ok_iff.2 (.inr ⟨h, _, _, _, ih, ih', rfl⟩)

/-- The legs of a success lead from where it begins to where it ends. -/
theorem Runs.connects (h : Runs p c a c' legs) : Connects c legs c' := by
  induction h with
  | @readBlanks c c' _ _ => exact .single ⟨c, c', true⟩
  | @step _ _ c c' _ _ => exact .single ⟨c, c', false⟩
  | bind _ _ ih ih' => exact ih.append ih'
  | stop _ => exact .nil
  | next _ _ _ ih ih' => exact ih.append ih'

/-- A leg in which blanks are skipped is a success of `readBlanks`. -/
theorem Runs.readBlanks_of_mem (h : Runs p c a c' legs) :
    ∀ leg ∈ legs, leg.skipsBlanks = true →
      ∃ blanks, BnfText.readBlanks leg.start = .ok blanks leg.stop := by
  induction h with
  | readBlanks h => exact List.forall_mem_singleton.2 fun _ => ⟨_, h⟩
  | step _ => exact List.forall_mem_singleton.2 nofun
  | bind _ _ ih ih' => exact List.forall_mem_append.2 ⟨ih, ih'⟩
  | stop _ => exact List.forall_mem_nil _
  | next _ _ _ ih ih' => exact List.forall_mem_append.2 ⟨ih, ih'⟩

/-- A step that keeps the line passes no line feed. -/
theorem KeepsLine.staysOnLine (h : KeepsLine p) (hok : p c = .ok a c') :
    Leg.StaysOnLine ⟨c, c', false⟩ := by
  obtain ⟨n, hn⟩ := h.advances c
  rw [hok] at hn
  obtain rfl : c' = c.skip n := hn
  obtain ⟨t, hpass⟩ := c.exists_passes_skip n
  refine ⟨t, hpass, fun hfeed => ?_⟩
  have hline := h.line_eq hok
  rw [hpass.pos, line_walk] at hline
  exact absurd (List.count_pos_iff.2 hfeed) (by omega)

/-- Where the lines change in blanks only, a success has a run of which each leg that passes a line
feed skips blanks. -/
theorem LinesInBlanks.exists_runs (h : LinesInBlanks p) (hok : p c = .ok a c') :
    ∃ legs, Runs p c a c' legs ∧ ∀ leg ∈ legs, leg.skipsBlanks = true ∨ leg.StaysOnLine := by
  induction h generalizing c c' with
  | readBlanks => exact ⟨_, .readBlanks hok, by simp⟩
  | keepsLine hp => exact ⟨_, .step hok, List.forall_mem_singleton.2 (.inr (hp.staysOnLine hok))⟩
  | bind _ _ ih ih' =>
      obtain ⟨b, d, hp, hf⟩ := bind_eq_ok.1 hok
      obtain ⟨legs, hruns, hlegs⟩ := ih hp
      obtain ⟨legs', hruns', hlegs'⟩ := ih' b hf
      exact ⟨_, hruns.bind hruns', List.forall_mem_append.2 ⟨hlegs, hlegs'⟩⟩
  | @many _ begins item consumes _ ih =>
      -- Induction on the length of the text, which each item makes shorter.
      generalize hn : c.rest.length = n
      induction n using Nat.strongRecOn generalizing a c with
      | _ n ih' =>
          obtain ⟨hstop, rfl, rfl⟩ | ⟨hnext, b, d, bs, hitem, hmore, rfl⟩ := many_eq_ok_iff.1 hok
          · exact ⟨[], .stop hstop, List.forall_mem_nil _⟩
          · have hlt : d.rest.length < n := hn ▸ consumes.length_lt hitem
            obtain ⟨legs, hruns, hlegs⟩ := ih hitem
            obtain ⟨legs', hruns', hlegs'⟩ := ih' _ hlt hmore rfl
            exact ⟨_, .next hnext hruns hruns', List.forall_mem_append.2 ⟨hlegs, hlegs'⟩⟩

end Runs

end Parser

/-! ### The rules -/

/-- A symbol never goes over the end of a line. -/
theorem Symbol.keepsLine_read (kind : SymbolKind) : KeepsLine (Symbol.read kind) := by
  refine (Symbol.predictive_read kind).keepsLine (Symbol.consumes_read kind).advances
    fun t s w h => ?_
  rw [Symbol.eq_printed_of_derives ((Symbol.exact_read kind ..).1 h).1]
  exact s.not_mem_printed (.inl rfl)

theorem Term.keepsLine_read : KeepsLine Term.read := by
  refine Term.predictive_read.keepsLine Term.consumes_read.advances fun t term w h => ?_
  have hderives := Term.derives_iff.1 ((Term.exact_read ..).1 h).1
  rw [Symbol.eq_printed_of_derives hderives]
  exact term.symbol.not_mem_printed (.inl rfl)

namespace Expression

/-- Between the terms of an alternative only blanks lead to another line. -/
theorem linesInBlanks_readTerms : LinesInBlanks readTerms := by
  have hterm := (LinesInBlanks.keepsLine Term.keepsLine_read).thenBlanks
  exact hterm.bind fun first => hterm.many.bind fun _ => .keepsLine (keepsLine_pure _)

/-- An alternative is its terms, or nothing that is read. -/
theorem linesInBlanks_read : LinesInBlanks read := by
  refine .peek? fun next? => ?_
  split
  · exact .keepsLine (keepsLine_fail _)
  · exact .keepsLine (keepsLine_fail _)
  · exact linesInBlanks_readTerms

theorem linesInBlanks_readAfterBar : LinesInBlanks readAfterBar := by
  have hbar := LinesInBlanks.keepsLine (keepsLine_expect '|' (by decide))
  exact hbar.bind fun _ => .bind .readBlanks fun _ => linesInBlanks_read

theorem linesInBlanks_readAll : LinesInBlanks readAll := by
  refine .peek? fun next? => ?_
  split
  · exact .keepsLine (keepsLine_fail _)
  · exact linesInBlanks_read.bind fun _ => linesInBlanks_readAfterBar.many.bind fun _ =>
      .keepsLine (keepsLine_pure _)

end Expression

/-- In a production it is the blanks before and after the sign, and those of its alternatives. -/
theorem Production.linesInBlanks_read : LinesInBlanks Production.read := by
  have hlhs := LinesInBlanks.keepsLine (Symbol.keepsLine_read .nonterminal)
  have hsign := LinesInBlanks.keepsLine (keepsLine_expectText "::=" (by decide))
  have hend := LinesInBlanks.keepsLine (keepsLine_expect ';' (by decide))
  exact hlhs.bind fun _ => .bind .readBlanks fun _ => hsign.bind fun _ => .bind .readBlanks fun _ =>
    Expression.linesInBlanks_readAll.bind fun _ => hend.bind fun _ => .keepsLine (keepsLine_pure _)

namespace Grammar

/-- In a grammar it is the blanks after each production, and those within. -/
theorem linesInBlanks_read : LinesInBlanks read := by
  have hproduction := Production.linesInBlanks_read.thenBlanks
  exact hproduction.bind fun _ => hproduction.many.bind fun _ => .keepsLine (keepsLine_pure _)

/-- Requiring the end of the text adds nothing to that. -/
theorem linesInBlanks_readToEnd : LinesInBlanks readToEnd := by
  refine linesInBlanks_read.bind fun g => .peek? fun next? => ?_
  split
  · exact .keepsLine (keepsLine_pure g)
  · exact .keepsLine (keepsLine_unexpected _)

/-! ## Whole texts -/

section Whole

variable {text : String} {g : Grammar}

/-- The columns of a text that is read count bytes. -/
theorem column_of_parse (h : parse text = .ok g) (n : Nat) :
    ((Cursor.ofText text).skip n).pos.column = 1 + byteLength (lastLine (text.toList.take n)) := by
  have hascii : ∀ c ∈ lastLine (text.toList.take n), IsAscii c := fun c hc =>
    isAscii_of_parse h (List.mem_of_mem_take (mem_of_mem_lastLine hc))
  rw [Cursor.pos_skip_ofText, column_after, byteLength_of_isAscii hascii, Nat.add_comm]

/-- A text that is read comes to another line only at a line feed outside all literals. -/
theorem lineFeed_of_line_ne (h : parse text = .ok g) {n : Nat}
    (hline : ((Cursor.ofText text).skip (n + 1)).pos.line ≠
      ((Cursor.ofText text).skip n).pos.line) :
    text.toList[n]? = some '\n' ∧ Closed (text.toList.take n) := by
  rw [Cursor.pos_skip_ofText, Cursor.pos_skip_ofText, List.take_add_one] at hline
  cases hc : text.toList[n]? with
  | none => simp [hc] at hline
  | some c =>
      rw [hc, Option.toList_some, Position.after_concat] at hline
      obtain rfl : c = '\n' := by simpa [Position.step] using hline
      obtain ⟨hlt, hget⟩ := List.getElem?_eq_some_iff.1 hc
      have hsplit : text.toList = text.toList.take n ++ '\n' :: text.toList.drop (n + 1) := by
        rw [← hget, ← List.drop_eq_getElem_cons hlt, List.take_append_drop]
      have hmark := Scan.mem_marks .outside (text.toList.take n) '\n' (text.toList.drop (n + 1))
      rw [← hsplit] at hmark
      exact ⟨rfl, outside_of_parse h hmark (.inl rfl)⟩

/-- A text says a grammar if and only if that grammar is read leg by leg to the end of the text,
where each leg in which a line feed is passed is one of skipping blanks. -/
theorem parse_eq_ok_iff_exists_runs : parse text = .ok g ↔
    ∃ legs c', Runs readToEnd (.ofText text) g c' legs ∧ Connects (.ofText text) legs c' ∧
      c'.rest = [] ∧ ∀ leg ∈ legs, leg.StaysOnLine ∨
        leg.skipsBlanks = true ∧ ∃ blanks, readBlanks leg.start = .ok blanks leg.stop := by
  constructor
  · intro h
    have hread := reads_readToEnd_iff.2 ⟨parse_eq_ok_iff.1 h, rfl⟩
    have hok := hread (.ofText text) (List.append_nil _).symm
    obtain ⟨legs, hruns, hlegs⟩ := linesInBlanks_readToEnd.exists_runs hok
    refine ⟨legs, _, hruns, hruns.connects, ?_, fun leg hleg => ?_⟩
    · rw [Cursor.rest_skip]
      exact List.drop_length
    · obtain hblanks | hline := hlegs leg hleg
      · exact .inr ⟨hblanks, hruns.readBlanks_of_mem leg hleg hblanks⟩
      · exact .inl hline
  · rintro ⟨legs, c', hruns, -⟩
    rw [parse, hruns.ok]

/-- In a text that is read every character is one of ASCII, every line feed and every tab stands
outside all literals, and only blanks and the signs of the notation stand there.  So a column is one
more than the bytes before it on its line, and another line is only come to at a line feed outside
all literals, which is taken in skipping blanks. -/
theorem parse_lineBreaks (h : parse text = .ok g) :
    (∀ c ∈ text.toList, c.toNat < 128) ∧
    (∀ m ∈ Scan.outside.marks text.toList, m.2 = '\n' ∨ m.2 = '\t' → m.1 = .outside) ∧
    (∀ c ∈ betweenLiterals text, c ∈ [' ', '\n', '\t', ':', '=', '|', ';']) ∧
    (∀ n, ((Cursor.ofText text).skip n).pos.column =
      1 + byteLength (lastLine (text.toList.take n))) ∧
    (∀ n, ((Cursor.ofText text).skip (n + 1)).pos.line ≠ ((Cursor.ofText text).skip n).pos.line →
      text.toList[n]? = some '\n' ∧ Closed (text.toList.take n)) ∧
    LinesInBlanks readToEnd := by
  refine ⟨fun _ => isAscii_of_parse h, fun _ => outside_of_parse h, fun c hc => ?_,
    column_of_parse h, fun _ => lineFeed_of_line_ne h, linesInBlanks_readToEnd⟩
  rcases mem_of_mem_betweenLiterals h hc with hblank | hsign
  · rcases isBlank_iff.1 hblank with rfl | rfl | rfl <;> decide
  · exact List.mem_append_right [' ', '\n', '\t'] hsign

/-- A production over three lines, with a line feed in a symbol too. -/
def broken : String := "<a>\n\t::=\n\"\\n\";"

/-- The tab before the sign is one column; the line feed in the symbol is written by its escape, so
that the third line begins at a line feed outside the literals. -/
theorem parse_lineBreaks_broken :
    parse broken = .ok ⟨[⟨⟨"a"⟩, [⟨[.ofSymbol (⟨"\n"⟩ : Terminal)]⟩]⟩]⟩ ∧
      (∀ c ∈ broken.toList, c.toNat < 128) ∧
        ((Cursor.ofText broken).skip 5).pos.column = 1 + byteLength ['\t'] ∧
          ((Cursor.ofText broken).skip 9).pos.line ≠ ((Cursor.ofText broken).skip 8).pos.line ∧
            Closed ("<a>\n\t::=".toList) := by
  have hparse : parse broken = .ok ⟨[⟨⟨"a"⟩, [⟨[.ofSymbol (⟨"\n"⟩ : Terminal)]⟩]⟩]⟩ := by
    decide +kernel
  have hline : ((Cursor.ofText broken).skip 9).pos.line ≠
      ((Cursor.ofText broken).skip 8).pos.line := by decide +kernel
  obtain ⟨hascii, _, _, hcolumn, hfeed, _⟩ := parse_lineBreaks hparse
  exact ⟨hparse, hascii, hcolumn 5, hline, (hfeed 8 hline).2⟩

end Whole

end Grammar

end BnfText

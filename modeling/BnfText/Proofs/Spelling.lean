import BnfText.Proofs.Canonical

/-!
# BnfText.Proofs.Spelling

Symbols are read letter for letter.  A character has one spelling inside a symbol, so a text that a
symbol stands for has one too, and the printed form of a symbol is the only text that it is read
from.

* `SymbolKind.star_derivesChar_iff`, `Symbol.derives_iff_printed` — the rules derive spellings only;
* `SymbolKind.readText_eq_ok_iff` — the text of a symbol is the longest run of spelled characters;
* `SymbolKind.readText_eq_error_iff` — it ends badly just at a backslash that begins no escape;
* `SymbolKind.read_verbatim` — both, and whole symbols and terms.
-/

namespace BnfText

open BnfText.Parser

/-! ## Spellings and the rules -/

theorem toList_spelled (s : String) : (spelled s).toList = s.toList.flatMap spelling := by
  have hspelling : spelling = fun c => (spell c).toList := rfl
  rw [spelled, String.toList_join, spelledPieces, List.flatMap_map, hspelling]

namespace SymbolKind

variable {kind : SymbolKind} {s : String} {t w : List Char} {cs : List Char}

/-- Whether a symbol of the kind can stand for the text `s`. -/
def CanHold (kind : SymbolKind) (s : String) : Prop := ∀ c ∈ s.toList, kind.allows c = true

instance (kind : SymbolKind) (s : String) : Decidable (kind.CanHold s) :=
  decidable_of_decidable_of_iff (List.all_eq_true (l := s.toList) (p := kind.allows))

/-- Characters are derived from their spellings and from nothing else. -/
theorem star_derivesChar_iff :
    Star kind.DerivesChar t cs ↔ t = cs.flatMap spelling ∧ ∀ c ∈ cs, kind.allows c = true := by
  constructor
  · intro h
    exact ⟨h.eq_flatMap eq_spelling_of_derivesChar, h.forall fun _ _ => allows_of_derivesChar⟩
  · rintro ⟨rfl, h⟩
    exact .flatMap fun c hc => derivesChar_spelling (h c hc)

/-- A text is derived from its spelling and from nothing else. -/
theorem star_derivesChar_toList_iff :
    Star kind.DerivesChar t s.toList ↔ kind.CanHold s ∧ t = (spelled s).toList := by
  rw [star_derivesChar_iff, toList_spelled, and_comm]
  rfl

/-- The text of a symbol is read from its spelling, where no more of it can follow. -/
theorem reads_readText_iff :
    Reads kind.readText t s w ↔
      kind.CanHold s ∧ t = (spelled s).toList ∧ nextIs kind.goesOn w = false := by
  rw [← and_assoc, ← star_derivesChar_toList_iff]
  exact kind.exact_readText t s w

end SymbolKind

/-- A symbol that can be written down is derived from its printed form and from nothing else. -/
theorem Symbol.derives_iff_printed {kind : SymbolKind} {s : Symbol kind} {t : List Char} :
    Symbol.Derives t s ↔ s.WellFormed ∧ t = printed s := by
  constructor
  · exact fun h => ⟨Symbol.wellFormed_of_derives h, Symbol.eq_printed_of_derives h⟩
  · rintro ⟨h, rfl⟩
    exact Symbol.derives_printed h

theorem Term.derives_iff_printed {term : Term} {t : List Char} :
    Term.Derives t term ↔ term.WellFormed ∧ t = printed term :=
  Term.derives_iff.trans Symbol.derives_iff_printed

/-! ## What is passed -/

namespace Parser

variable {α : Type} {p : Parser α} {D : List Char → α → Prop}

/-- Where a value has one text and nothing can be more of it, that text is what is passed. -/
theorem Exact.eq_ok_iff_passes {valid : α → Prop} {shown : α → List Char} (hexact : Exact p D never)
    (hp : Predictive p) (hD : ∀ {t a}, D t a ↔ valid a ∧ t = shown a) {c c' : Cursor} {a : α} :
    p c = .ok a c' ↔ valid a ∧ c.Passes (shown a) c' := by
  rw [hp.eq_ok_iff]
  constructor
  · intro ⟨t, hpass, hread⟩
    obtain ⟨hvalid, rfl⟩ := hD.1 ((hexact ..).1 hread).1
    exact ⟨hvalid, hpass⟩
  · intro ⟨hvalid, hpass⟩
    exact ⟨shown a, hpass, (hexact ..).2 ⟨hD.2 ⟨hvalid, rfl⟩, nextIs_never _⟩⟩

end Parser

namespace SymbolKind

variable {kind : SymbolKind} {c c' : Cursor} {s : String} {e : ParseError}

/-- The text of a symbol does not go on at a character that is neither plain nor a backslash, nor at
the end. -/
theorem nextIs_goesOn_eq_false_iff {w : List Char} :
    nextIs kind.goesOn w = false ↔
      ∀ ch, w.head? = some ch → kind.isPlain ch = false ∧ ch ≠ '\\' := by
  simp [nextIs_eq_false_iff, goesOn, and_comm]

/-- The text of a symbol is the longest run of spelled characters. -/
theorem readText_eq_ok_iff :
    kind.readText c = .ok s c' ↔
      kind.CanHold s ∧ c.Passes (spelled s).toList c' ∧ nextIs kind.goesOn c'.rest = false := by
  rw [kind.predictive_readText.eq_ok_iff]
  constructor
  · intro ⟨t, hpass, hread⟩
    obtain ⟨hs, rfl, hstop⟩ := reads_readText_iff.1 hread
    exact ⟨hs, hpass, hstop⟩
  · intro ⟨hs, hpass, hstop⟩
    exact ⟨_, hpass, reads_readText_iff.2 ⟨hs, rfl, hstop⟩⟩

/-- Reading the text of a symbol fails in an escape that is begun after spelled characters. -/
theorem fails_readText_spelled_iff {v w : List Char} {cause : Cause} :
    Fails kind.readText v cause w ↔
      ∃ run, kind.CanHold run ∧
        (v = (spelled run).toList ++ ['\\'] ∧ w = [] ∧ cause = .unterminated kind.closing ∨
          ∃ letter w', v = (spelled run).toList ∧ w = '\\' :: letter :: w' ∧
            unescape? letter = none ∧ cause = .invalidEscape letter) := by
  rw [fails_readText_iff]
  constructor
  · rintro ⟨t, u, cs, rfl, hstar, hend⟩
    rw [← String.toList_ofList (l := cs), star_derivesChar_toList_iff] at hstar
    obtain ⟨hrun, rfl⟩ := hstar
    refine ⟨_, hrun, ?_⟩
    obtain ⟨rfl, hw, hcause⟩ | ⟨letter, w', rfl, hw, hletter, hcause⟩ := hend
    · exact .inl ⟨rfl, hw, hcause⟩
    · exact .inr ⟨letter, w', List.append_nil _, hw, hletter, hcause⟩
  · rintro ⟨run, hrun, hend⟩
    have hstar := star_derivesChar_toList_iff.2 ⟨hrun, rfl⟩
    obtain ⟨hv, hw, hcause⟩ | ⟨letter, w', hv, hw, hletter, hcause⟩ := hend
    · exact ⟨_, ['\\'], _, hv, hstar, .inl ⟨rfl, hw, hcause⟩⟩
    · rw [← List.append_nil (spelled run).toList] at hv
      exact ⟨_, [], _, hv, hstar, .inr ⟨letter, w', rfl, hw, hletter, hcause⟩⟩

/-- The text of a symbol fails to be read after a backslash that follows spelled characters, where
the text ends or what stands there is the letter of no escape. -/
theorem readText_eq_error_iff :
    kind.readText c = .error e c' ↔
      ∃ run, kind.CanHold run ∧ c.Passes ((spelled run).toList ++ ['\\']) c' ∧
        (c'.peek? = none ∧ e = ⟨.unterminated kind.closing, c'.pos⟩ ∨
          ∃ letter, c'.peek? = some letter ∧ unescape? letter = none ∧
            e = ⟨.invalidEscape letter, c.pos.walk (spelled run).toList⟩) := by
  have hp := kind.predictive_readText
  constructor
  · intro h
    obtain ⟨cause, pos⟩ := e
    -- The place of an escape is that of its backslash, which has been passed; any other fault is
    -- where the cursor stands.
    cases cause with
    | invalidEscape letter =>
        obtain ⟨t, hpass, hfail, hpos⟩ := hp.eq_error_escape_iff.1 h
        obtain ⟨run, hrun, ⟨_, hnil, _⟩ | ⟨_, w, rfl, hw, hletter, hcause⟩⟩ :=
          fails_readText_spelled_iff.1 hfail
        · cases hnil
        · cases hcause
          have hrest : c'.rest = letter :: w := (List.cons.inj hw).2
          have hnext : c'.peek? = some letter := by rw [Cursor.peek?, hrest, List.head?_cons]
          exact ⟨run, hrun, hpass, .inr ⟨letter, hnext, hletter, by rw [hpos]⟩⟩
    | _ =>
        obtain ⟨t, hpass, hfail, hpos⟩ := (hp.eq_error_at_iff rfl).1 h
        obtain ⟨run, hrun, ⟨rfl, hnil, hcause⟩ | ⟨_, _, _, _, _, hcause⟩⟩ :=
          fails_readText_spelled_iff.1 hfail
        · have hend : c'.peek? = none := List.head?_eq_none_iff.2 hnil
          exact ⟨run, hrun, hpass, .inl ⟨hend, by rw [hcause, hpos]⟩⟩
        · cases hcause
  · rintro ⟨run, hrun, hpass, ⟨hend, rfl⟩ | ⟨letter, hnext, hletter, rfl⟩⟩
    · have hnil : c'.rest = [] := List.head?_eq_none_iff.1 hend
      have hfail := fails_readText_spelled_iff.2 ⟨run, hrun, .inl ⟨rfl, hnil, rfl⟩⟩
      exact (hp.eq_error_at_iff rfl).2 ⟨_, hpass, hfail, rfl⟩
    · obtain ⟨w, hw⟩ := List.head?_eq_some_iff.1 hnext
      have hrest : '\\' :: c'.rest = '\\' :: letter :: w := by rw [hw]
      have hfail := fails_readText_spelled_iff.2
        ⟨run, hrun, .inr ⟨letter, w, rfl, hrest, hletter, rfl⟩⟩
      exact hp.eq_error_escape_iff.2 ⟨_, hpass, hfail, rfl⟩

end SymbolKind

/-- A symbol is read where its printed form is passed, and only there. -/
theorem Symbol.read_eq_ok_iff {kind : SymbolKind} {c c' : Cursor} {s : Symbol kind} :
    Symbol.read kind c = .ok s c' ↔ s.WellFormed ∧ c.Passes (printed s) c' :=
  (Symbol.exact_read kind).eq_ok_iff_passes (Symbol.predictive_read kind)
    Symbol.derives_iff_printed

/-- A term is read where its printed form is passed, and only there. -/
theorem Term.read_eq_ok_iff {c c' : Cursor} {term : Term} :
    Term.read c = .ok term c' ↔ term.WellFormed ∧ c.Passes (printed term) c' :=
  Term.exact_read.eq_ok_iff_passes Term.predictive_read Term.derives_iff_printed

/-- From any place, the text of a symbol is read as `s` just if what is passed is the spelling of
`s` and no character that the text goes on with is left next; it fails to be read just if spelled
characters and a backslash are passed and no letter of an escape is left next.  A symbol or a term
is read just if what is passed is its printed form. -/
theorem SymbolKind.read_verbatim :
    (∀ (kind : SymbolKind) (c c' : Cursor) (s : String),
      kind.readText c = .ok s c' ↔
        kind.CanHold s ∧ c.Passes (spelled s).toList c' ∧
          ∀ ch, c'.peek? = some ch → kind.isPlain ch = false ∧ ch ≠ '\\') ∧
    (∀ (kind : SymbolKind) (c c' : Cursor) (e : ParseError),
      kind.readText c = .error e c' ↔
        ∃ run, kind.CanHold run ∧ c.Passes ((spelled run).toList ++ ['\\']) c' ∧
          (c'.peek? = none ∧ e = ⟨.unterminated kind.closing, c'.pos⟩ ∨
            ∃ letter, c'.peek? = some letter ∧ unescape? letter = none ∧
              e = ⟨.invalidEscape letter, c.pos.walk (spelled run).toList⟩)) ∧
    (∀ (kind : SymbolKind) (c c' : Cursor) (s : Symbol kind),
      Symbol.read kind c = .ok s c' ↔ s.WellFormed ∧ c.Passes (printed s) c') ∧
    ∀ (c c' : Cursor) (t : Term),
      Term.read c = .ok t c' ↔ t.WellFormed ∧ c.Passes (printed t) c' := by
  refine ⟨fun kind c c' s => ?_, fun _ _ _ _ => readText_eq_error_iff,
    fun _ _ _ _ => Symbol.read_eq_ok_iff, fun _ _ _ => Term.read_eq_ok_iff⟩
  rw [readText_eq_ok_iff, nextIs_goesOn_eq_false_iff]
  rfl

/-- An escaped quote before an angle bracket, which ends the text of a nonterminal and goes on with
that of a terminal, and then a letter that names no escape. -/
theorem SymbolKind.read_verbatim_escapes :
    nonterminal.readText (.ofText "a\\\"<\\d") =
      .ok "a\"" ((Cursor.ofText "a\\\"<\\d").skip 3) ∧
    terminal.readText (.ofText "a\\\"<\\d") =
      .error ⟨.invalidEscape 'd', ⟨4, 1, 5⟩⟩ ((Cursor.ofText "a\\\"<\\d").skip 5) ∧
    Term.read (.ofText "<\\t>>") =
      .ok (.ofSymbol (⟨"\t"⟩ : Nonterminal)) ((Cursor.ofText "<\\t>>").skip 4) := by
  refine ⟨(read_verbatim.1 _ _ _ _).2 ⟨by decide, ⟨by decide, by decide⟩, fun ch hch => ?_⟩,
    (read_verbatim.2.1 _ _ _ _).2 ⟨"a\"<", by decide, ⟨by decide, by decide⟩, .inr ?_⟩,
    (read_verbatim.2.2.2 _ _ _).2 ⟨?_, ⟨by decide, by decide⟩⟩⟩
  · cases hch
    decide
  · exact ⟨'d', by decide, by decide, by decide⟩
  · exact (Term.isWellFormed_iff _).1 (by decide)

end BnfText

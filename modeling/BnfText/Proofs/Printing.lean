import BnfText.Grammar.Printer
import BnfText.Proofs.Reading.Grammar
import BnfText.Proofs.WellFormed

/-!
# BnfText.Proofs.Printing

The printed form of a tree against the rules of the notation.  The printed form is taken as a list
of characters (`printed`), put together from those of the parts.

* `Grammar.derives_printed` — the rules derive the printed form of a tree that can be written down;
* `Grammar.parse_print_eq_ok_iff` — those trees, and no others, are read back from it.
-/

namespace BnfText

/-! ## The characters of a printed form -/

/-- The characters of the printed form. -/
def printed {α : Type} [Printable α] (a : α) : List Char := (print a).toList

/-- The characters that `c` is written with inside a symbol. -/
def spelling (c : Char) : List Char := (spell c).toList

/-- A character without an escape is written as it is. -/
theorem spelling_of_none {c : Char} (h : escapeLetter? c = none) : spelling c = [c] := by
  simp [spelling, spell, h]

/-- A character with an escape is written as a backslash and its letter. -/
theorem spelling_of_some {c letter : Char} (h : escapeLetter? c = some letter) :
    spelling c = ['\\', letter] := by
  simp [spelling, spell, h]

/-- The printed form is put together from the pieces. -/
theorem printed_eq_flatMap {α : Type} [Printable α] (a : α) :
    printed a = (pieces a).flatMap String.toList := by
  rw [printed, print, String.toList_join]

/-- A join is the items before one of them, each with the separator after it, that item, and the
items after it, each with the separator before it. -/
theorem intercalate_append_cons (sep t : List Char) (ts₁ ts₂ : List (List Char)) :
    sep.intercalate (ts₁ ++ t :: ts₂) =
      ts₁.flatMap (· ++ sep) ++ (t ++ ts₂.flatMap (sep ++ ·)) := by
  induction ts₁ with
  | nil => simp [intercalate_cons]
  | cons u ts₁ ih =>
      have hne : ts₁ ++ t :: ts₂ ≠ [] := by simp
      rw [List.cons_append, List.intercalate_cons_of_ne_nil hne, ih]
      simp

/-- Pieces with a separator between the items make up the join of the printed items. -/
theorem flatMap_separatedPieces {α : Type} [Printable α] (separator : String) (items : List α) :
    (separatedPieces separator items).flatMap String.toList =
      separator.toList.intercalate (items.map printed) := by
  cases items with
  | nil => simp [separatedPieces]
  | cons a items =>
      have hprinted (b : α) : separator.toList ++ printed b =
          (separator :: pieces b).flatMap String.toList := by
        rw [printed_eq_flatMap, List.flatMap_cons]
      rw [separatedPieces_cons, List.map_cons, intercalate_cons, List.flatMap_append,
        List.flatMap_assoc, List.flatMap_map, printed_eq_flatMap]
      simp only [hprinted]

/-- A symbol is printed as the spellings of its characters between the delimiters of its kind. -/
theorem printed_symbol {kind : SymbolKind} (s : Symbol kind) :
    printed s = kind.opening :: s.text.toList.flatMap spelling ++ [kind.closing] := by
  have hspelling : spelling = fun c => (spell c).toList := rfl
  rw [printed_eq_flatMap, hspelling]
  simp [pieces, spelledPieces, List.flatMap_map]

theorem printed_term (t : Term) : printed t = printed t.symbol := rfl

/-- An alternative is printed as its terms with spaces between them. -/
theorem printed_expression (e : Expression) :
    printed e = [' '].intercalate (e.terms.map printed) := by
  rw [printed_eq_flatMap]
  exact flatMap_separatedPieces " " e.terms

/-- A production is printed as its left-hand side, the sign between spaces, the alternatives with
bars between them and a semicolon. -/
theorem printed_production (p : Production) :
    printed p = printed p.lhs ++ ([' ', ':', ':', '=', ' '] ++
      ([' ', '|', ' '].intercalate (p.rhs.map printed) ++ [';'])) := by
  have hrhs := flatMap_separatedPieces " | " p.rhs
  have hlhs := printed_eq_flatMap p.lhs
  rw [printed_eq_flatMap]
  show (pieces p.lhs ++ " ::= " :: separatedPieces " | " p.rhs ++ [";"]).flatMap _ = _
  simp only [List.flatMap_append, List.flatMap_cons, List.flatMap_nil, hrhs, ← hlhs,
    List.append_assoc, List.cons_append]
  simp

/-- A grammar is printed as its productions with a line feed after each. -/
theorem printed_grammar (g : Grammar) :
    printed g = g.productions.flatMap fun p => printed p ++ ['\n'] := by
  rw [printed_eq_flatMap]
  show (g.productions.flatMap fun p => pieces p ++ ["\n"]).flatMap _ = _
  simp [List.flatMap_assoc, printed_eq_flatMap]

/-! ## Trees that can be written down -/

/-- A character that may stand in a symbol is derived by its spelling. -/
theorem SymbolKind.derivesChar_spelling {kind : SymbolKind} {c : Char} (h : kind.allows c = true) :
    kind.DerivesChar (spelling c) c := by
  rw [derivesChar_iff]
  cases hletter : escapeLetter? c with
  | none =>
      have hplain : kind.isPlain c = true := by simpa [allows, hletter] using h
      exact .inl ⟨spelling_of_none hletter, hplain⟩
  | some letter =>
      have hspell := spelling_of_some hletter
      exact .inr (derivesEscape_iff.2 ⟨letter, hspell, unescape?_eq_some_iff.2 hletter⟩)

/-- The printed form of a symbol that can be written down is its text. -/
theorem Symbol.derives_printed {kind : SymbolKind} {s : Symbol kind} (h : s.WellFormed) :
    Symbol.Derives (printed s) s := by
  have hstar : Star kind.DerivesChar (s.text.toList.flatMap spelling) s.text.toList :=
    .flatMap fun c hc => SymbolKind.derivesChar_spelling (h c hc)
  rw [printed_symbol]
  exact Symbol.derives_iff.2 ⟨_, rfl, hstar⟩

theorem Term.derives_printed {t : Term} (h : t.WellFormed) : Term.Derives (printed t) t :=
  Term.derives_iff.2 (Symbol.derives_printed h)

namespace Expression

variable {t : List Char} {e : Expression} {es : List Expression}

/-- Further terms are printed with a space before each. -/
theorem Derives.append_printed {terms : List Term} (h : Expression.Derives t e)
    (hterms : ∀ term ∈ terms, term.WellFormed) :
    Expression.Derives (t ++ (terms.map printed).flatMap ([' '] ++ ·)) ⟨e.terms ++ terms⟩ := by
  induction terms generalizing t e with
  | nil => simpa using h
  | cons term terms ih =>
      have hterm := Term.derives_printed (hterms term List.mem_cons_self)
      have hmore := (h.extend derivesBlanks_space).concat hterm
      have hall := ih hmore fun x hx => hterms x (List.mem_cons_of_mem _ hx)
      simpa using hall

/-- The printed form of an alternative that can be written down is one of its texts. -/
theorem derives_printed (h : e.WellFormed) : Expression.Derives (printed e) e := by
  obtain ⟨terms⟩ := e
  obtain ⟨hne, hterms⟩ := h
  rw [printed_expression]
  cases terms with
  | nil => exact absurd rfl hne
  | cons first further =>
      have hfirst : Expression.Derives (printed first ++ [] ++ []) ⟨[first]⟩ :=
        .mk (.mk (Term.derives_printed (hterms _ List.mem_cons_self)) derivesBlanks_nil) .nil
      have hall := hfirst.append_printed fun x hx => hterms x (List.mem_cons_of_mem _ hx)
      rw [List.map_cons, intercalate_cons]
      simpa using hall

/-- Further alternatives are printed with a bar between spaces before each. -/
theorem DerivesAll.append_printed {es' : List Expression} (h : Expression.DerivesAll t es)
    (hes : ∀ e ∈ es', e.WellFormed) :
    Expression.DerivesAll (t ++ (es'.map printed).flatMap ([' ', '|', ' '] ++ ·)) (es ++ es') := by
  induction es' generalizing t es with
  | nil => simpa using h
  | cons e es' ih =>
      have he := derives_printed (hes e List.mem_cons_self)
      have hmore := (h.extend derivesBlanks_space).concat derivesBlanks_space he
      have hall := ih hmore fun x hx => hes x (List.mem_cons_of_mem _ hx)
      simpa using hall

/-- So is that of the alternatives of a right-hand side. -/
theorem derivesAll_printed (hne : es ≠ []) (hes : ∀ e ∈ es, e.WellFormed) :
    Expression.DerivesAll ([' ', '|', ' '].intercalate (es.map printed)) es := by
  cases es with
  | nil => exact absurd rfl hne
  | cons first further =>
      have hfirst : Expression.DerivesAll (printed first ++ []) [first] :=
        .mk (derives_printed (hes _ List.mem_cons_self)) .nil
      have hall := hfirst.append_printed fun x hx => hes x (List.mem_cons_of_mem _ hx)
      rw [List.map_cons, intercalate_cons]
      simpa using hall

end Expression

theorem Production.derives_printed {p : Production} (h : p.WellFormed) :
    Production.Derives (printed p) p := by
  obtain ⟨hlhs, hne, hrhs⟩ := h
  have hderives := Production.Derives.mk (Symbol.derives_printed hlhs) derivesBlanks_space
    derivesBlanks_space (Expression.derivesAll_printed hne hrhs)
  rw [printed_production]
  simpa using hderives

/-- Productions with a line feed after each are a run of productions with blanks. -/
theorem Production.star_printed {ps : List Production} (h : ∀ p ∈ ps, p.WellFormed) :
    Star (DerivesThenBlanks Production.Derives) (ps.flatMap fun p => printed p ++ ['\n']) ps :=
  .flatMap fun p hp => .mk (Production.derives_printed (h p hp)) derivesBlanks_lineFeed

/-- The rules derive the printed form of a tree that can be written down. -/
theorem Grammar.derives_printed {g : Grammar} (hne : g.productions ≠ []) (h : g.WellFormed) :
    Grammar.Derives (printed g) g := by
  rw [printed_grammar]
  exact Grammar.derives_iff.2 ⟨hne, Production.star_printed h⟩

/-- A tree is read back from its printed form just if it has a production and can be written
down. -/
theorem Grammar.parse_print_eq_ok_iff (g : Grammar) :
    Grammar.parse (print g) = .ok g ↔ g.productions ≠ [] ∧ g.isWellFormed = true := by
  rw [Grammar.parse_eq_ok_iff, Grammar.isWellFormed_iff]
  constructor
  · exact Grammar.wellFormed_of_derives
  · intro ⟨hne, h⟩
    exact Grammar.derives_printed hne h

end BnfText

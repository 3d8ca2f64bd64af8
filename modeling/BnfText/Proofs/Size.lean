import BnfText.Proofs.Completion
import BnfText.Proofs.Printing
import BnfText.Proofs.Traversal

/-!
# BnfText.Proofs.Size

How long the canonical text of a grammar is.  Each symbol takes its text, a backslash for each
character that has to be escaped, and two delimiters; the rest is what each production adds, and the
separators between the parts of a list, one fewer than its items and none for an empty list.

* `byteLength_intercalate` — the length of items with a separator between them;
* `Symbol.byteLength_printed`, `Expression.byteLength_printed`, `Production.byteLength_printed` —
  the lengths of the printed forms, each from those of the parts;
* `Grammar.utf8ByteSize_print` — the length of the canonical text, from the size of the grammar.
-/

namespace BnfText

open BnfText.Position

/-! ## Texts put together from pieces -/

/-- The pieces of a text add up. -/
theorem byteLength_flatMap {α : Type} (f : α → List Char) (as : List α) :
    byteLength (as.flatMap f) = (as.map fun a => byteLength (f a)).sum := by
  induction as with
  | nil => rfl
  | cons a as ih => rw [List.flatMap_cons, byteLength_append, ih, List.map_cons, List.sum_cons]

/-- Items with a separator between them take their own lengths and one separator fewer than there
are items. -/
theorem byteLength_intercalate (sep : List Char) (ts : List (List Char)) :
    byteLength (sep.intercalate ts) =
      (ts.map byteLength).sum + (ts.length - 1) * byteLength sep := by
  cases ts with
  | nil => simp
  | cons t ts =>
      have hfurther : byteLength (ts.flatMap (sep ++ ·)) =
          (ts.map byteLength).sum + ts.length * byteLength sep := by
        induction ts with
        | nil => simp
        | cons u ts ih =>
            simp only [List.flatMap_cons, byteLength_append, ih, List.map_cons, List.sum_cons,
              List.length_cons, Nat.succ_mul]
            omega
      rw [intercalate_cons, byteLength_append, hfurther]
      simp [Nat.add_assoc]

/-! ## Symbols -/

/-- Whether a character has to be escaped. -/
def isEscaped (c : Char) : Bool := c ∈ ['"', '\\', '\n', '\t']

/-- How many characters of a text have to be escaped. -/
def escapedChars (text : String) : Nat := text.toList.countP isEscaped

/-- Only those characters have an escape letter that have to be escaped. -/
theorem escapeLetter?_eq_none_iff {c : Char} : escapeLetter? c = none ↔ isEscaped c = false := by
  unfold escapeLetter? isEscaped
  split <;> simp_all

/-- An escape is a byte longer than what it stands for, since all that has to be escaped is
ASCII. -/
theorem byteLength_spelling (c : Char) :
    byteLength (spelling c) = c.utf8Size + if isEscaped c then 1 else 0 := by
  cases h : isEscaped c with
  | false =>
      rw [spelling_of_none (escapeLetter?_eq_none_iff.2 h)]
      simp
  | true =>
      have hc : c = '"' ∨ c = '\\' ∨ c = '\n' ∨ c = '\t' := by simpa [isEscaped] using h
      rcases hc with rfl | rfl | rfl | rfl <;> decide

/-- Spelled characters take a byte more for each one that has to be escaped. -/
theorem byteLength_spellings (cs : List Char) :
    byteLength (cs.flatMap spelling) = byteLength cs + cs.countP isEscaped := by
  induction cs with
  | nil => rfl
  | cons c cs ih =>
      rw [List.flatMap_cons, byteLength_append, ih, byteLength_spelling, byteLength_cons,
        List.countP_cons]
      omega

/-- How long the printed form of an occurrence of a symbol is. -/
def Term.bytes (t : Term) : Nat := t.text.utf8ByteSize + escapedChars t.text + 2

theorem Symbol.byteLength_printed {kind : SymbolKind} (s : Symbol kind) :
    byteLength (printed s) = (Term.ofSymbol s).bytes := by
  have hdelimiters : kind.opening.utf8Size + kind.closing.utf8Size = 2 := by cases kind <;> decide
  have htext : byteLength s.text.toList = s.text.utf8ByteSize := byteLength_toList s.text
  rw [printed_symbol, byteLength_append, byteLength_cons, byteLength_spellings, htext,
    byteLength_cons, byteLength_nil]
  show _ = s.text.utf8ByteSize + s.text.toList.countP isEscaped + 2
  omega

/-- The symbols of a list take their texts, the backslashes, and two delimiters each. -/
theorem sum_bytes (ts : List Term) :
    (ts.map Term.bytes).sum =
      (ts.map (·.text.utf8ByteSize)).sum + (ts.map (escapedChars ·.text)).sum + 2 * ts.length := by
  induction ts with
  | nil => rfl
  | cons t ts ih =>
      simp only [List.map_cons, List.sum_cons, List.length_cons, ih, Term.bytes]
      omega

/-- Every term is of one of the two kinds. -/
theorem countP_kind (ts : List Term) :
    ts.countP (·.kind = .terminal) + ts.countP (·.kind = .nonterminal) = ts.length := by
  induction ts with
  | nil => rfl
  | cons t ts ih =>
      obtain ⟨kind, s⟩ := t
      cases kind <;> simp <;> omega

/-! ## Alternatives and productions -/

/-- An alternative takes its symbols and the spaces between them. -/
theorem Expression.byteLength_printed (e : Expression) :
    byteLength (printed e) = (e.terms.map Term.bytes).sum + (e.terms.length - 1) := by
  have hterms : (e.terms.map printed).map byteLength = e.terms.map Term.bytes := by
    rw [List.map_map]
    exact List.map_congr_left fun t _ => Symbol.byteLength_printed t.symbol
  have hspace : byteLength [' '] = 1 := by decide
  rw [printed_expression, byteLength_intercalate, hterms, List.length_map, hspace, Nat.mul_one]

/-- The alternatives of a list take their symbols, and the spaces between the symbols. -/
theorem Expression.sum_byteLength_printed (es : List Expression) :
    (es.map fun e => byteLength (printed e)).sum =
      ((es.flatMap (·.terms)).map Term.bytes).sum + (es.map (·.terms.length - 1)).sum := by
  induction es with
  | nil => rfl
  | cons e es ih =>
      have he := e.byteLength_printed
      simp only [List.map_cons, List.sum_cons, List.flatMap_cons, List.map_append, List.sum_append]
      omega

/-- A production takes its symbols, the spaces and the bars in its alternatives, and six bytes for
the sign and the semicolon. -/
theorem Production.byteLength_printed (p : Production) :
    byteLength (printed p) =
      (p.symbols.map Term.bytes).sum + (p.rhs.map (·.terms.length - 1)).sum +
        3 * (p.rhs.length - 1) + 6 := by
  have hsign : byteLength [' ', ':', ':', '=', ' '] = 5 := by decide
  have hbar : byteLength [' ', '|', ' '] = 3 := by decide
  have hend : byteLength [';'] = 1 := by decide
  have hrhs : (p.rhs.map printed).map byteLength = p.rhs.map fun e => byteLength (printed e) :=
    List.map_map
  rw [printed_production, byteLength_append, byteLength_append, byteLength_append, hsign, hend,
    byteLength_intercalate, hbar, List.length_map, hrhs, Expression.sum_byteLength_printed,
    Symbol.byteLength_printed, Production.symbols, List.map_cons, List.sum_cons]
  omega

/-! ## Grammars -/

namespace Grammar

/-- How many characters in the texts of all symbols have to be escaped. -/
def escapedChars (g : Grammar) : Nat := (g.symbols.map (BnfText.escapedChars ·.text)).sum

/-- A grammar takes what its productions take, and a line feed for each. -/
theorem byteLength_printed (g : Grammar) :
    byteLength (printed g) =
      (g.symbols.map Term.bytes).sum + (g.expressions.map (·.terms.length - 1)).sum +
        3 * (g.productions.map (·.rhs.length - 1)).sum + 7 * g.productions.length := by
  obtain ⟨ps⟩ := g
  rw [printed_grammar, byteLength_flatMap, symbols, expressions]
  dsimp only
  induction ps with
  | nil => rfl
  | cons p ps ih =>
      have hp := p.byteLength_printed
      have hline : byteLength (printed p ++ ['\n']) = byteLength (printed p) + 1 :=
        byteLength_append _ _
      simp only [List.map_cons, List.sum_cons, List.flatMap_cons, List.map_append, List.sum_append,
        List.length_cons]
      omega

/-- The symbols are the left-hand sides and the terms. -/
theorem length_symbols (g : Grammar) :
    g.symbols.length = g.productions.length + (g.expressions.flatMap (·.terms)).length := by
  obtain ⟨ps⟩ := g
  rw [symbols, expressions]
  dsimp only
  induction ps with
  | nil => rfl
  | cons p ps ih =>
      simp only [List.flatMap_cons, List.length_append, List.flatMap_append, List.length_cons, ih,
        Production.symbols]
      omega

/-- The canonical text takes, in bytes, the texts of the symbols, a backslash for each character
that has to be escaped, two delimiters for each symbol, seven for each production, three for each
bar between alternatives and one for each space between symbols.  Where no list is empty, the
numbers of bars and spaces follow from the numbers of nodes. -/
theorem utf8ByteSize_print (g : Grammar) :
    (print g).utf8ByteSize =
      g.tally.textBytes + g.escapedChars + 2 * (g.tally.terminals + g.tally.nonterminals) +
        7 * g.tally.productions + 3 * (g.productions.map (·.rhs.length - 1)).sum +
          (g.expressions.map (·.terms.length - 1)).sum ∧
    (g.NowhereEmpty →
      (print g).utf8ByteSize =
        g.tally.textBytes + g.escapedChars + 3 * (g.tally.terminals + g.tally.nonterminals) +
          3 * g.tally.productions + 2 * g.tally.expressions) := by
  have hkinds := countP_kind g.symbols
  have hbytes : (print g).utf8ByteSize = byteLength (printed g) := (byteLength_toList _).symm
  rw [hbytes, byteLength_printed, sum_bytes, tally_eq, escapedChars]
  dsimp only
  refine ⟨by omega, fun h => ?_⟩
  have hexpressions : g.expressions.length =
      g.productions.length + (g.productions.map (·.rhs.length - 1)).sum :=
    length_flatMap_of_ne_nil fun p hp => (h p hp).1
  have hterms : (g.expressions.flatMap (·.terms)).length =
      g.expressions.length + (g.expressions.map (·.terms.length - 1)).sum := by
    refine length_flatMap_of_ne_nil fun e he => ?_
    obtain ⟨p, hp, he⟩ := List.mem_flatMap.1 he
    exact (h p hp).2 e he
  have hsymbols := g.length_symbols
  omega

/-- A tree whose texts hold characters of two bytes and characters that have to be escaped. -/
def accented : Grammar :=
  ⟨[⟨⟨"é"⟩, [⟨[.ofSymbol (⟨"\n\""⟩ : Terminal), .ofSymbol (⟨"é"⟩ : Nonterminal)]⟩,
    ⟨[.ofSymbol (⟨"x"⟩ : Terminal)]⟩]⟩]⟩

/-- Two symbols hold a letter of two bytes, and one holds two characters that are escaped. -/
theorem utf8ByteSize_print_accented :
    accented.NowhereEmpty ∧
    (print accented).utf8ByteSize = 7 + 2 + 3 * (2 + 2) + 3 * 1 + 2 * 2 := by
  have hne : accented.NowhereEmpty := by decide
  have htally : accented.tally = ⟨1, 2, 2, 2, 7⟩ := by decide +kernel
  have hescaped : accented.escapedChars = 2 := by decide +kernel
  have hsize := (utf8ByteSize_print accented).2 hne
  rw [htally, hescaped] at hsize
  exact ⟨hne, hsize⟩

end Grammar

end BnfText

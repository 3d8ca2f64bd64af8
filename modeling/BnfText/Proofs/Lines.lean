import BnfText.Proofs.Printing

/-!
# BnfText.Proofs.Lines

The canonical text line by line.  Whatever a tree holds, a production is printed without a line feed
or a tab of its own, because symbols have both escaped and no separator holds one.  So the line
feeds of a canonical text are just those that end its productions.

* `Production.not_mem_printed` — a production is printed on one line and without tabs;
* `Grammar.lines_print` — the lines of a canonical text are the printed productions;
* `Grammar.print_lines` — both, and each line of a tree that can be written down is read by itself.
-/

namespace BnfText

/-! ## Line feeds and tabs -/

section NotMem

variable {c : Char}

/-- Line feeds and tabs have escapes, so no spelling holds one. -/
theorem not_mem_spelling (hc : c = '\n' ∨ c = '\t') (d : Char) : c ∉ spelling d := by
  cases hletter : escapeLetter? d with
  | none =>
      have hne : c ≠ d := by
        rintro rfl
        rcases hc with rfl | rfl <;> simp [escapeLetter?] at hletter
      simpa [spelling_of_none hletter] using hne
  | some letter =>
      have hne : c ≠ letter := by
        rintro rfl
        have hescape := unescape?_eq_some_iff.2 hletter
        rcases hc with rfl | rfl <;> simp [unescape?] at hescape
      have hback : c ≠ '\\' := by rcases hc with rfl | rfl <;> decide
      simpa [spelling_of_some hletter] using ⟨hback, hne⟩

/-- What neither the separator nor the items hold is not in the text put together from them. -/
theorem not_mem_intercalate {sep : List Char} {ts : List (List Char)} (hsep : c ∉ sep)
    (h : ∀ t ∈ ts, c ∉ t) : c ∉ sep.intercalate ts := by
  cases ts with
  | nil => simp
  | cons t ts =>
      rw [intercalate_cons]
      simp_all

/-- A symbol is printed without line feeds and tabs. -/
theorem Symbol.not_mem_printed (hc : c = '\n' ∨ c = '\t') {kind : SymbolKind} (s : Symbol kind) :
    c ∉ printed s := by
  have hspelling : c ∉ s.text.toList.flatMap spelling := by simp [not_mem_spelling hc]
  rw [printed_symbol]
  rcases hc with rfl | rfl <;> cases kind <;>
    simp [SymbolKind.opening, SymbolKind.closing, hspelling]

theorem Expression.not_mem_printed (hc : c = '\n' ∨ c = '\t') (e : Expression) :
    c ∉ printed e := by
  have hsep : c ∉ [' '] := by rcases hc with rfl | rfl <;> decide
  rw [printed_expression]
  refine not_mem_intercalate hsep fun t ht => ?_
  obtain ⟨term, _, rfl⟩ := List.mem_map.1 ht
  exact term.symbol.not_mem_printed hc

/-- A production is printed on one line and without tabs, whatever it holds. -/
theorem Production.not_mem_printed (hc : c = '\n' ∨ c = '\t') (p : Production) :
    c ∉ printed p := by
  have hsep : c ∉ [' ', '|', ' '] := by rcases hc with rfl | rfl <;> decide
  have hsign : c ∉ [' ', ':', ':', '=', ' '] := by rcases hc with rfl | rfl <;> decide
  have hend : c ∉ [';'] := by rcases hc with rfl | rfl <;> decide
  have hrhs : c ∉ [' ', '|', ' '].intercalate (p.rhs.map printed) := by
    refine not_mem_intercalate hsep fun t ht => ?_
    obtain ⟨e, _, rfl⟩ := List.mem_map.1 ht
    exact e.not_mem_printed hc
  rw [printed_production]
  simp only [List.mem_append, not_or]
  exact ⟨p.lhs.not_mem_printed hc, hsign, hrhs, hend⟩

end NotMem

/-- Each production adds one line feed, the one after it. -/
theorem count_lineFeed_productions (ps : List Production) :
    (ps.flatMap fun p => printed p ++ ['\n']).count '\n' = ps.length := by
  induction ps with
  | nil => rfl
  | cons p ps ih =>
      have hline : (printed p).count '\n' = 0 :=
        List.count_eq_zero.2 (p.not_mem_printed (.inl rfl))
      rw [List.flatMap_cons, List.count_append, ih, List.count_append, hline]
      simp
      omega

/-! ## Lines -/

/-- The pieces of a text between its line feeds, the last of which is what follows the last one. -/
def lines (text : String) : List String := (text.split '\n').toList.map String.Slice.copy

namespace Grammar

/-- The canonical text as the printed productions with a line feed after each. -/
theorem print_eq_join (g : Grammar) :
    print g = String.join (g.productions.map fun p => print p ++ "\n") := by
  apply String.toList_injective
  rw [String.toList_join, List.flatMap_map]
  show printed g = _
  rw [printed_grammar]
  simp [printed]

/-- The lines of a canonical text are the printed productions, and nothing follows the last. -/
theorem lines_print (g : Grammar) : lines (print g) = g.productions.map print ++ [""] := by
  have htext : (print g).toList = ['\n'].intercalate (g.productions.map printed ++ [[]]) := by
    rw [intercalate_append_cons, List.flatMap_map, List.flatMap_nil, List.append_nil,
      List.append_nil]
    exact printed_grammar g
  have hlines : ∀ t ∈ g.productions.map printed ++ [[]], '\n' ∉ t := by
    intro t ht
    rcases List.mem_append.1 ht with ht | ht
    · obtain ⟨p, _, rfl⟩ := List.mem_map.1 ht
      exact p.not_mem_printed (.inl rfl)
    · obtain rfl := List.mem_singleton.1 ht
      exact List.not_mem_nil
  rw [lines, String.toList_split_char, htext, List.splitOn_intercalate '\n' hlines (by simp),
    List.map_append, List.map_map]
  have hprint : String.ofList ∘ printed (α := Production) = print :=
    funext fun p => String.ofList_toList
  rw [hprint]
  rfl

/-- The printed form of a production is the text of a grammar that has only that production. -/
theorem parse_print_production {p : Production} (h : p.WellFormed) :
    parse (print p) = .ok ⟨[p]⟩ := by
  have hstar : Star (DerivesThenBlanks Production.Derives) (printed p) [p] :=
    .singleton (.of_derives (Production.derives_printed h))
  exact parse_eq_ok_iff.2 (derives_iff.2 ⟨List.cons_ne_nil _ _, hstar⟩)

/-- The canonical text is the printed productions with a line feed after each.  These hold no line
feed and no tab themselves, so splitting at line feeds gives them back.  Each line of a tree that
can be written down is the text of a grammar that has just the production of that line. -/
theorem print_lines :
    (∀ g : Grammar, print g = String.join (g.productions.map fun p => print p ++ "\n")) ∧
    (∀ p : Production, '\n' ∉ (print p).toList ∧ '\t' ∉ (print p).toList) ∧
    (∀ g : Grammar, lines (print g) = g.productions.map print ++ [""]) ∧
    ∀ g : Grammar, g.isWellFormed = true → ∀ (i : Nat) (p : Production),
      g.productions[i]? = some p →
        ∃ line, (lines (print g))[i]? = some line ∧ parse line = .ok ⟨[p]⟩ := by
  refine ⟨print_eq_join, fun p => ⟨p.not_mem_printed (.inl rfl), p.not_mem_printed (.inr rfl)⟩,
    lines_print, fun g hwell i p hp => ⟨print p, ?_, ?_⟩⟩
  · have hi : i < (g.productions.map print).length := by
      rw [List.length_map]
      exact (List.getElem?_eq_some_iff.1 hp).1
    rw [lines_print, List.getElem?_append_left hi, List.getElem?_map, hp]
    rfl
  · exact parse_print_production (g.isWellFormed_iff.1 hwell p (List.mem_of_getElem? hp))

/-- A production whose symbols hold a line feed and a tab, and one that is printed as it is. -/
def folded : Grammar :=
  ⟨[⟨⟨"a\n"⟩, [⟨[.ofSymbol (⟨"\t"⟩ : Terminal)]⟩]⟩, ⟨⟨"b"⟩, [⟨[.ofSymbol (⟨"x"⟩ : Terminal)]⟩]⟩]⟩

/-- The line feed of the first symbol does not break the line, and that line is read by itself. -/
theorem print_lines_folded :
    folded.isWellFormed = true ∧
      lines (print folded) = ["<a\\n> ::= \"\\t\";", "<b> ::= \"x\";", ""] ∧
        parse "<a\\n> ::= \"\\t\";" =
          .ok ⟨[⟨⟨"a\n"⟩, [⟨[.ofSymbol (⟨"\t"⟩ : Terminal)]⟩]⟩]⟩ := by
  have hwell : folded.isWellFormed = true := by decide +kernel
  have hlines : lines (print folded) = ["<a\\n> ::= \"\\t\";", "<b> ::= \"x\";", ""] := by
    rw [print_lines.2.2.1]
    decide +kernel
  obtain ⟨line, hline, hparse⟩ := print_lines.2.2.2 folded hwell 0 _ rfl
  rw [hlines] at hline
  obtain rfl := Option.some.inj hline
  exact ⟨hwell, hlines, hparse⟩

end Grammar

end BnfText

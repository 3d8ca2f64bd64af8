import BnfText.Proofs.Printing

/-!
# BnfText.Proofs.Concatenation

Texts that stand one after the other.  After a text that is read, another one is read as it would
be alone, only that its places are counted from the beginning of the whole.

* `Position.translate` — a place of a text, counted from a text that stands before it;
* `Grammar.Derives.append`, `Grammar.Fault.append` — a grammar before a grammar or before a fault;
* `Grammar.parse_append` — reading and printing take two texts, or two grammars, one by one.
-/

namespace BnfText

/-! ## Places after another text -/

namespace Position

/-- How many characters stand after the last line feed of a text. -/
def lastLineLength (cs : List Char) : Nat := (cs.reverse.takeWhile (· ≠ '\n')).length

/-- The place `p` of a text, once `front` stands before that text.  Only on the first line there is
something more before it on the same line. -/
def translate (front : List Char) (p : Position) : Position where
  byte := byteLength front + p.byte
  line := front.count '\n' + p.line
  column := if p.line = 1 then lastLineLength front + p.column else p.column

/-- The first place after a text is where the text ends. -/
theorem translate_start (front : List Char) : start.translate front = after front := rfl

/-- A step does not go back to a line before the first. -/
theorem one_le_line_step {p : Position} (h : 1 ≤ p.line) (c : Char) : 1 ≤ (p.step c).line := by
  simp only [step]
  split <;> omega

theorem one_le_line_walk {p : Position} (h : 1 ≤ p.line) (cs : List Char) :
    1 ≤ (p.walk cs).line := by
  induction cs generalizing p with
  | nil => exact h
  | cons c cs ih => exact ih (one_le_line_step h c)

/-- A step is the same after another text: only the first line has something more before it. -/
theorem step_translate {p : Position} (h : 1 ≤ p.line) (front : List Char) (c : Char) :
    (p.translate front).step c = (p.step c).translate front := by
  have hline : p.line ≠ 0 := by omega
  by_cases hc : c = '\n'
  · simp [translate, step, hc, hline, Nat.add_assoc]
  · by_cases hone : p.line = 1 <;> simp [translate, step, hc, hone, Nat.add_assoc]

/-- Walking commutes with standing after another text. -/
theorem walk_translate {p : Position} (h : 1 ≤ p.line) (front cs : List Char) :
    (p.translate front).walk cs = (p.walk cs).translate front := by
  induction cs generalizing p with
  | nil => rfl
  | cons c cs ih =>
      rw [walk_cons, walk_cons, step_translate h, ih (one_le_line_step h c)]

/-- The place at the end of two texts is that of the second, after the first. -/
theorem after_append (t u : List Char) : after (t ++ u) = (after u).translate t := by
  have hstart : 1 ≤ start.line := Nat.le_refl 1
  calc after (t ++ u)
      = (after t).walk u := by rw [← walk_start, walk_append, walk_start]
    _ = (start.translate t).walk u := by rw [translate_start]
    _ = (after u).translate t := by rw [walk_translate hstart, walk_start]

end Position

/-- A fault of a text, once `front` stands before that text. -/
def ParseError.translate (front : String) (e : ParseError) : ParseError :=
  ⟨e.cause, e.pos.translate front.toList⟩

/-! ## Grammars one after the other -/

/-- The productions of one grammar and then those of another. -/
instance : Append Grammar where
  append g h := ⟨g.productions ++ h.productions⟩

namespace Grammar

variable {t u w : List Char} {g h : Grammar} {cause : Cause} {text text' : String}

@[simp] theorem productions_append (g h : Grammar) :
    (g ++ h).productions = g.productions ++ h.productions := rfl

/-- A grammar after a grammar is the grammar of the productions of both. -/
theorem Derives.append (hg : Grammar.Derives t g) (hh : Grammar.Derives u h) :
    Grammar.Derives (t ++ u) (g ++ h) := by
  obtain ⟨hne, hstar⟩ := derives_iff.1 hg
  have hstar' := (derives_iff.1 hh).2
  exact derives_iff.2 ⟨by simp [hne], hstar.append hstar'⟩

/-- A fault stays one after a grammar, if a production begins where the two meet. -/
theorem Fault.append (hg : Grammar.Derives t g) (hbegins : nextIs Production.begins (u ++ w) = true)
    (hfault : Fault u cause w) : Fault (t ++ u) cause w := by
  cases hfault with
  | @production t' u' _ ps _ hstar hgo hfault =>
      have hall := (derives_iff.1 hg).2.append hstar
      have hnext : nextIs Production.begins (u' ++ w) = true := by
        by_cases hps : ps = []
        · subst hps
          rw [hstar.eq_nil, List.nil_append] at hbegins
          exact hbegins
        · exact hgo hps
      rw [← List.append_assoc]
      exact .production hall (fun _ => hnext) hfault
  | trailing hh hblank hc => exact .trailing (hg.append hh) hblank hc

/-- Two texts that are read are read one after the other. -/
theorem parse_append_ok (hg : parse text = .ok g) (hh : parse text' = .ok h) :
    parse (text ++ text') = .ok (g ++ h) := by
  rw [parse_eq_ok_iff] at hg hh ⊢
  rw [String.toList_append]
  exact hg.append hh

/-- The fault of the second text is found after the first, if a production begins where they meet.
-/
theorem parse_append_error {e : ParseError} (hg : parse text = .ok g)
    (hhead : text'.toList.head? = some '<') (he : parse text' = .error e) :
    parse (text ++ text') = .error (e.translate text) := by
  obtain ⟨u, w, htext', hfault, hpos⟩ := parse_eq_error_iff.1 he
  have hbegins : nextIs Production.begins (u ++ w) = true := by
    rw [nextIs, ← htext', hhead]
    rfl
  have hmore := hfault.append (parse_eq_ok_iff.1 hg) hbegins
  refine parse_eq_error_iff.2 ⟨text.toList ++ u, w, ?_, hmore, ?_⟩
  · rw [String.toList_append, htext', List.append_assoc]
  · rw [ParseError.translate, hpos, Position.after_append]

/-- Two grammars are printed one after the other, since each production has a line of its own. -/
theorem print_append (g h : Grammar) : print (g ++ h) = print g ++ print h := by
  apply String.toList_injective
  rw [String.toList_append]
  show printed (g ++ h) = printed g ++ printed h
  simp only [printed_grammar, productions_append, List.flatMap_append]

/-- After a text that is read, a text that begins with a nonterminal is read as it is alone: its
productions come after those of the first text, and a fault of it has the same cause and the place
that it has after the first text.  Printing takes two grammars one by one as well. -/
theorem parse_append :
    (∀ text text' g, parse text = .ok g → text'.toList.head? = some '<' →
      (∀ h, parse text' = .ok h → parse (text ++ text') = .ok (g ++ h)) ∧
      ∀ e, parse text' = .error e → parse (text ++ text') = .error (e.translate text)) ∧
    ∀ g h : Grammar, print (g ++ h) = print g ++ print h := by
  refine ⟨fun text text' g hg hhead => ⟨fun h hh => ?_, fun e he => ?_⟩, print_append⟩
  · exact parse_append_ok hg hh
  · exact parse_append_error hg hhead he

/-- A text that ends in blanks on a new line, before a grammar and before faults on the first and on
the second line of the other text. -/
theorem parse_append_blanks :
    parse ("<a> ::= <b>;\n  " ++ "<b> ::= \"x\";") =
      .ok (⟨[⟨⟨"a"⟩, [⟨[.ofSymbol (⟨"b"⟩ : Nonterminal)]⟩]⟩]⟩ ++
        ⟨[⟨⟨"b"⟩, [⟨[.ofSymbol (⟨"x"⟩ : Terminal)]⟩]⟩]⟩) ∧
    parse ("<a> ::= <b>;\n  " ++ "<b> ::= ;") = .error ⟨.noAlternatives, ⟨23, 2, 11⟩⟩ ∧
    parse ("<a> ::= <b>;\n  " ++ "<b> ::=\n;") = .error ⟨.noAlternatives, ⟨23, 3, 1⟩⟩ := by
  have hg : parse "<a> ::= <b>;\n  " =
      .ok ⟨[⟨⟨"a"⟩, [⟨[.ofSymbol (⟨"b"⟩ : Nonterminal)]⟩]⟩]⟩ := by decide +kernel
  have hh : parse "<b> ::= \"x\";" = .ok ⟨[⟨⟨"b"⟩, [⟨[.ofSymbol (⟨"x"⟩ : Terminal)]⟩]⟩]⟩ := by
    decide +kernel
  have hsame : parse "<b> ::= ;" = .error ⟨.noAlternatives, ⟨8, 1, 9⟩⟩ := by decide +kernel
  have hnext : parse "<b> ::=\n;" = .error ⟨.noAlternatives, ⟨8, 2, 1⟩⟩ := by decide +kernel
  exact ⟨(parse_append.1 _ _ _ hg (by decide)).1 _ hh,
    (parse_append.1 _ _ _ hg (by decide)).2 _ hsame,
    (parse_append.1 _ _ _ hg (by decide)).2 _ hnext⟩

end Grammar

end BnfText

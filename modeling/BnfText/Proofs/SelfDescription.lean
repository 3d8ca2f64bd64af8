import BnfText.Proofs.Completion
import BnfText.Proofs.ContextFree
import BnfText.Proofs.Regular

/-!
# BnfText.Proofs.SelfDescription

The notation described in itself.  `selfDescriptionText` is read as the grammar `selfDescription`,
and what that generates from `grammar` are the texts that are read (`selfDescription_exact`).

Each production of the description is an equation for the texts of its nonterminal
(`described_rule`).  Where it comes back to its own nonterminal it does so on the right and after
something, so Arden's lemma solves it by a star.  The solutions are, from the characters up to
whole grammars, what the rules of the notation derive.
-/

namespace BnfText

open scoped Computability

/-! ## The description -/

/-- The notation, written down in itself. -/
def selfDescriptionText : String := r#"<grammar>       ::= <production> <ws> <productions>;
<productions>   ::= <production> <ws> <productions>
                  | "";
<production>    ::= <nonterminal> <ws> "::=" <ws> <expressions> ";";
<expressions>   ::= <expression>
                  | <expression> "|" <ws> <expressions>;
<expression>    ::= <term> <ws>
                  | <term> <ws> <expression>;
<term>          ::= <nonterminal> | <terminal>;
<nonterminal>   ::= "<" <text> ">";
<terminal>      ::= "\"" <terminal-text> "\"";
<text>          ::= <char> <text> | "";
<terminal-text> ::= <terminal-char> <terminal-text> | "";
<terminal-char> ::= <char> | "<" | ">";
<char>          ::= <letter> | <digit> | <delim> | <escaped>;
<escaped>       ::= "\\" <escapable>;
<escapable>     ::= "\"" | "n" | "t" | "\\";
<delim>         ::= "-" | "_" | "|" | ":" | "=" | ";" | " ";
<ws>            ::= <space> <ws> | "";
<space>         ::= " " | "\n" | "\t";
<letter>        ::= <lower> | <upper>;
<lower>         ::= "a" | "b" | "c" | "d" | "e" | "f" | "g" | "h" | "i" | "j" | "k" | "l" | "m"
                  | "n" | "o" | "p" | "q" | "r" | "s" | "t" | "u" | "v" | "w" | "x" | "y" | "z";
<upper>         ::= "A" | "B" | "C" | "D" | "E" | "F" | "G" | "H" | "I" | "J" | "K" | "L" | "M"
                  | "N" | "O" | "P" | "Q" | "R" | "S" | "T" | "U" | "V" | "W" | "X" | "Y" | "Z";
<digit>         ::= "0" | "1" | "2" | "3" | "4" | "5" | "6" | "7" | "8" | "9";
"#

namespace SelfDescription

/-- An occurrence of the nonterminal of that name. -/
def name (s : String) : Term := .ofSymbol (⟨s⟩ : Nonterminal)

/-- An occurrence of the terminal with that text. -/
def word (s : String) : Term := .ofSymbol (⟨s⟩ : Terminal)

def rule (lhs : String) (rhs : List (List Term)) : Production := ⟨⟨lhs⟩, rhs.map .mk⟩

/-- The alternatives that are one character each. -/
def oneOf (cs : List Char) : List (List Term) := cs.map fun c => [word (String.singleton c)]

/-- `n` characters from `first` on. -/
def charsFrom (first : Char) (n : Nat) : List Char :=
  (List.range n).map fun i => Char.ofNat (first.toNat + i)

end SelfDescription

open SelfDescription

/-- The grammar that `selfDescriptionText` says. -/
def selfDescription : Grammar where
  productions := [
    rule "grammar" [[name "production", name "ws", name "productions"]],
    rule "productions" [[name "production", name "ws", name "productions"], [word ""]],
    rule "production" [[name "nonterminal", name "ws", word "::=", name "ws",
      name "expressions", word ";"]],
    rule "expressions" [[name "expression"],
      [name "expression", word "|", name "ws", name "expressions"]],
    rule "expression" [[name "term", name "ws"], [name "term", name "ws", name "expression"]],
    rule "term" [[name "nonterminal"], [name "terminal"]],
    rule "nonterminal" [[word "<", name "text", word ">"]],
    rule "terminal" [[word "\"", name "terminal-text", word "\""]],
    rule "text" [[name "char", name "text"], [word ""]],
    rule "terminal-text" [[name "terminal-char", name "terminal-text"], [word ""]],
    rule "terminal-char" [[name "char"], [word "<"], [word ">"]],
    rule "char" [[name "letter"], [name "digit"], [name "delim"], [name "escaped"]],
    rule "escaped" [[word "\\", name "escapable"]],
    rule "escapable" (oneOf ['"', 'n', 't', '\\']),
    rule "delim" (oneOf ['-', '_', '|', ':', '=', ';', ' ']),
    rule "ws" [[name "space", name "ws"], [word ""]],
    rule "space" (oneOf [' ', '\n', '\t']),
    rule "letter" [[name "lower"], [name "upper"]],
    rule "lower" (oneOf (charsFrom 'a' 26)),
    rule "upper" (oneOf (charsFrom 'A' 26)),
    rule "digit" (oneOf (charsFrom '0' 10))]

/-! ## Reading it -/

namespace SelfDescription

/-- Reading that begins from the characters of a text. -/
def parseChars (cs : List Char) : Except ParseError Grammar :=
  match Grammar.readToEnd ⟨cs, .start, none⟩ with
  | .ok grammar _ => .ok grammar
  | .error fault _ => .error fault

theorem parse_ofList (cs : List Char) : Grammar.parse (String.ofList cs) = parseChars cs := by
  unfold Grammar.parse Cursor.ofText
  rw [String.toList_ofList]
  rfl

-- The text is taken apart as a literal, since decoding its bytes takes far longer than reading it.
set_option maxRecDepth 10000 in
/-- The text says the grammar.  This is a computation, in which the text is read from beginning to
end. -/
theorem parse_text : Grammar.parse selfDescriptionText = .ok selfDescription :=
  (parse_ofList _).trans (by decide +kernel)

/-! ## Its productions as equations -/

/-- The texts that a nonterminal of the description generates. -/
abbrev described (s : String) : Language Char := selfDescription.language s

variable {l : Language Char}

@[simp] theorem words_name (M : String → Language Char) (s : String) :
    (name s).words M = M s := rfl

@[simp] theorem words_word (M : String → Language Char) (s : String) :
    (word s).words M = {s.toList} := rfl

@[simp] theorem literal_nil : ({[]} : Language Char) = 1 := rfl

/-- No nonterminal of the description has two productions, so each production is an equation. -/
theorem nodup_names : (selfDescription.productions.map (·.lhs.text)).Nodup := by
  decide +kernel

/-- The texts of a nonterminal are the sum of the products that its alternatives are. -/
theorem described_rule (lhs : String) (rhs : List (List Term))
    (h : rule lhs rhs ∈ selfDescription.productions) :
    described lhs = (rhs.map fun terms => (terms.map (Term.words described)).prod).sum := by
  have hwords := Grammar.language_eq_words nodup_names h
  rw [Production.words, rule, List.map_map] at hwords
  exact hwords

/-- A choice of single characters generates these characters. -/
theorem described_oneOf (lhs : String) (cs : List Char)
    (h : rule lhs (oneOf cs) ∈ selfDescription.productions) :
    described lhs = chars (· ∈ cs) := by
  rw [described_rule lhs (oneOf cs) h]
  ext t
  simp [mem_sum, oneOf]

/-- A nonterminal that is nothing or `items` and itself again: a run of what `items` give. -/
theorem described_many (lhs : String) (items : List Term)
    (h : rule lhs [items ++ [name lhs], [word ""]] ∈ selfDescription.productions)
    (hitems : (items.map (Term.words described)).prod = l) (hnil : [] ∉ l) :
    described lhs = l∗ := by
  have hsum : described lhs = l * described lhs + 1 := by
    simpa [hitems] using described_rule lhs [items ++ [name lhs], [word ""]] h
  rw [(Language.self_eq_mul_add_iff hnil).1 hsum, mul_one]

/-! ## Characters -/

/-- Below the surrogates every number is the code point of a character. -/
theorem toNat_ofNat {n : Nat} (h : n < 0xd800) : (Char.ofNat n).toNat = n := by
  have hvalid : n.isValidChar := .inl h
  rw [Char.ofNat, dif_pos hvalid]
  rfl

/-- The characters from a first one on are those with the code points from its code point on. -/
theorem mem_charsFrom {first c : Char} {n : Nat} (h : first.toNat + n ≤ 0xd800) :
    c ∈ charsFrom first n ↔ first.toNat ≤ c.toNat ∧ c.toNat < first.toNat + n := by
  simp only [charsFrom, List.mem_map, List.mem_range]
  constructor
  · intro hex
    obtain ⟨i, hi, rfl⟩ := hex
    rw [toNat_ofNat (by omega)]
    omega
  · intro hc
    refine ⟨c.toNat - first.toNat, by omega, ?_⟩
    rw [Nat.add_sub_cancel' hc.1, Char.ofNat_toNat]

/-- A choice of the characters from a first to a last one generates that range. -/
theorem described_range (lhs : String) (first last : Char) (n : Nat)
    (h : rule lhs (oneOf (charsFrom first n)) ∈ selfDescription.productions)
    (hn : last.toNat + 1 = first.toNat + n) (hlast : last.toNat < 0xd800) :
    described lhs = chars (fun c => first ≤ c ∧ c ≤ last) := by
  rw [described_oneOf lhs _ h]
  congr
  ext c
  rw [mem_charsFrom (by omega), ← hn, Nat.lt_succ_iff]
  rfl

theorem described_letter :
    described "letter" = chars fun c => ('a' ≤ c ∧ c ≤ 'z') ∨ ('A' ≤ c ∧ c ≤ 'Z') := by
  have h : described "letter" = described "lower" + described "upper" := by
    simpa using described_rule "letter" [[name "lower"], [name "upper"]]
      (by simp [selfDescription])
  rw [h, described_range "lower" 'a' 'z' 26 (by simp [selfDescription]) rfl (by decide),
    described_range "upper" 'A' 'Z' 26 (by simp [selfDescription]) rfl (by decide), chars_or]

theorem described_escaped : described "escaped" = texts DerivesEscape := by
  have h : described "escaped" = {['\\']} * described "escapable" := by
    simpa using described_rule "escaped" [[word "\\", name "escapable"]]
      (by simp [selfDescription])
  rw [h, described_oneOf "escapable" ['"', 'n', 't', '\\'] (by simp [selfDescription]),
    texts_escape]

theorem described_char : described "char" = texts SymbolKind.nonterminal.DerivesChar := by
  have h : described "char" = described "letter" + described "digit" + described "delim" +
      described "escaped" := by
    simpa [sup_assoc] using described_rule "char"
      [[name "letter"], [name "digit"], [name "delim"], [name "escaped"]]
      (by simp [selfDescription])
  rw [h, described_letter, described_escaped,
    described_range "digit" '0' '9' 10 (by simp [selfDescription]) rfl (by decide),
    described_oneOf "delim" ['-', '_', '|', ':', '=', ';', ' '] (by simp [selfDescription]),
    texts_charNonterminal, ← chars_or, ← chars_or]
  unfold IsTextChar
  simp only [or_assoc]

theorem described_terminalChar :
    described "terminal-char" = texts SymbolKind.terminal.DerivesChar := by
  have h : described "terminal-char" = described "char" + ({['<']} + {['>']}) := by
    simpa using described_rule "terminal-char" [[name "char"], [word "<"], [word ">"]]
      (by simp [selfDescription])
  rw [h, described_char, texts_charTerminal, chars_or, chars_eq, chars_eq]

/-- Blanks come back to themselves on the right, so they are a star. -/
theorem described_ws : described "ws" = blanks := by
  have hspace : described "space" = chars fun c => c = ' ' ∨ c = '\n' ∨ c = '\t' := by
    simpa using described_oneOf "space" [' ', '\n', '\t'] (by simp [selfDescription])
  rw [blanks_eq_kstar]
  exact described_many "ws" [name "space"] (by simp [selfDescription]) (by simp [hspace])
    nil_notMem_chars

/-! ## Symbols -/

theorem described_text : described "text" = (texts SymbolKind.nonterminal.DerivesChar)∗ :=
  described_many "text" [name "char"] (by simp [selfDescription]) (by simp [described_char])
    nil_notMem_char

theorem described_terminalText :
    described "terminal-text" = (texts SymbolKind.terminal.DerivesChar)∗ :=
  described_many "terminal-text" [name "terminal-char"] (by simp [selfDescription])
    (by simp [described_terminalChar]) nil_notMem_char

theorem described_nonterminal : described "nonterminal" = symbolTexts .nonterminal := by
  have h : described "nonterminal" = {['<']} * described "text" * {['>']} := by
    simpa [mul_assoc] using described_rule "nonterminal" [[word "<", name "text", word ">"]]
      (by simp [selfDescription])
  rw [h, described_text]
  exact (texts_symbol .nonterminal).symm

theorem described_terminal : described "terminal" = symbolTexts .terminal := by
  have h : described "terminal" = {['"']} * described "terminal-text" * {['"']} := by
    simpa [mul_assoc] using described_rule "terminal"
      [[word "\"", name "terminal-text", word "\""]] (by simp [selfDescription])
  rw [h, described_terminalText]
  exact (texts_symbol .terminal).symm

theorem described_term : described "term" = texts Term.Derives := by
  have h : described "term" = described "nonterminal" + described "terminal" := by
    simpa using described_rule "term" [[name "nonterminal"], [name "terminal"]]
      (by simp [selfDescription])
  rw [h, described_nonterminal, described_terminal, texts_term]

/-! ## Right-hand sides -/

/-- An alternative comes back to itself after a term and blanks: by Arden's lemma a run of these. -/
theorem described_expression : described "expression" = texts Expression.Derives := by
  have h : described "expression" =
      described "term" * described "ws" * described "expression" +
        described "term" * described "ws" := by
    rw [add_comm]
    simpa [mul_assoc] using described_rule "expression"
      [[name "term", name "ws"], [name "term", name "ws", name "expression"]]
      (by simp [selfDescription])
  rw [described_term, described_ws] at h
  have hnil := nil_notMem_mul (m := blanks) nil_notMem_term
  rw [(Language.self_eq_mul_add_iff hnil).1 h, Language.mul_self_kstar_comm, texts_expression]

/-- The alternatives come back to themselves after a bar, which stands on the other side in the
rule; sliding it over gives the run of the rule. -/
theorem described_expressions : described "expressions" = texts Expression.DerivesAll := by
  have h : described "expressions" =
      described "expression" * ({['|']} * described "ws") * described "expressions" +
        described "expression" := by
    rw [add_comm]
    simpa [mul_assoc] using described_rule "expressions" [[name "expression"],
      [name "expression", word "|", name "ws", name "expressions"]] (by simp [selfDescription])
  rw [described_expression, described_ws] at h
  have hnil := nil_notMem_mul (m := {['|']} * blanks) nil_notMem_expression
  rw [(Language.self_eq_mul_add_iff hnil).1 h, kstar_mul_slide, texts_all]

/-! ## Grammars -/

theorem described_production : described "production" = texts Production.Derives := by
  have h : described "production" =
      described "nonterminal" * described "ws" * {[':', ':', '=']} * described "ws" *
        described "expressions" * {[';']} := by
    simpa [mul_assoc] using described_rule "production" [[name "nonterminal", name "ws",
      word "::=", name "ws", name "expressions", word ";"]] (by simp [selfDescription])
  rw [h, described_nonterminal, described_ws, described_expressions, texts_production]

theorem described_productions :
    described "productions" = (texts Production.Derives * blanks)∗ :=
  described_many "productions" [name "production", name "ws"] (by simp [selfDescription])
    (by simp [described_production, described_ws]) (nil_notMem_mul nil_notMem_production)

/-- The description generates from `grammar` the texts of the rules. -/
theorem described_grammar : described "grammar" = texts Grammar.Derives := by
  have h : described "grammar" =
      described "production" * described "ws" * described "productions" := by
    simpa [mul_assoc] using described_rule "grammar"
      [[name "production", name "ws", name "productions"]] (by simp [selfDescription])
  rw [h, described_production, described_ws, described_productions, texts_grammar]

end SelfDescription

/-- The notation says of itself which texts are read. -/
theorem selfDescription_exact :
    Grammar.parse selfDescriptionText = .ok selfDescription ∧
      ∀ text : String, text.toList ∈ selfDescription.language "grammar" ↔ Grammar.Accepts text := by
  refine ⟨SelfDescription.parse_text, fun text => ?_⟩
  rw [show selfDescription.language "grammar" = _ from described_grammar]
  exact exists_congr fun g => Grammar.parse_eq_ok_iff.symm

end BnfText

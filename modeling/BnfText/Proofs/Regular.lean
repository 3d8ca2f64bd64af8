import Mathlib.Computability.Language
import Mathlib.Order.CompletePartialOrder
import BnfText.Proofs.Derivation

/-!
# BnfText.Proofs.Regular

The notation is regular: none of its rules comes back to itself, so the texts of each rule are
those of the rules below it, put together by sums, products and stars of languages.

`texts D` are the texts that a rule derives, whatever is read from them.  There is one equation
for each rule; a run of items is a star (`texts_star`).
-/

namespace BnfText

open scoped Computability

/-- The texts that a rule derives. -/
def texts {α : Type} (D : List Char → α → Prop) : Language Char := {t | ∃ a, D t a}

/-- The texts of one character that satisfies `p`. -/
def chars (p : Char → Prop) : Language Char := {t | ∃ c, p c ∧ t = [c]}

/-- The texts of the symbols of a kind. -/
def symbolTexts (kind : SymbolKind) : Language Char :=
  texts fun t (s : Symbol kind) => Symbol.Derives t s

/-- The texts of nothing but blanks. -/
def blanks : Language Char := {t | DerivesBlanks t}

variable {α : Type} {D : List Char → α → Prop} {p q : Char → Prop} {t u : List Char}
variable {l m : Language Char}

/-! ## Single characters -/

@[simp] theorem mem_chars : t ∈ chars p ↔ ∃ c, p c ∧ t = [c] := Iff.rfl

@[simp] theorem mem_literal : t ∈ ({u} : Language Char) ↔ t = u := Iff.rfl

/-- One of two tests holds of the characters of both. -/
theorem chars_or : chars (fun c => p c ∨ q c) = chars p + chars q := by
  ext t
  simp only [mem_chars, Language.mem_add, or_and_right, exists_or]

theorem chars_eq (c : Char) : chars (fun d => d = c) = {[c]} := by
  ext t
  simp

theorem nil_notMem_chars : [] ∉ chars p := by simp

/-! ## Products and stars -/

/-- A rule whose texts are made of two parts. -/
theorem texts_eq_mul (hsplit : ∀ t a, D t a → t ∈ l * m)
    (hjoin : ∀ u ∈ l, ∀ v ∈ m, ∃ a, D (u ++ v) a) : texts D = l * m := by
  ext t
  constructor
  · intro hex
    obtain ⟨a, ha⟩ := hex
    exact hsplit t a ha
  · intro h
    obtain ⟨u, hu, v, hv, rfl⟩ := Language.mem_mul.1 h
    exact hjoin u hu v hv

/-- A product does not have the empty text if its first factor does not. -/
theorem nil_notMem_mul (h : [] ∉ l) : [] ∉ l * m := by
  intro hmem
  obtain ⟨u, hu, v, _, huv⟩ := Language.mem_mul.1 hmem
  rw [(List.append_eq_nil_iff.1 huv).1] at hu
  exact h hu

/-- What goes around between two parts goes around from either of them. -/
theorem kstar_mul_slide (l m : Language Char) : (l * m)∗ * l = l * (m * l)∗ := by
  apply le_antisymm
  · apply kstar_mul_le
    · exact le_mul_of_one_le_right' one_le_kstar
    · have hround : l * m * (l * (m * l)∗) = l * (m * l * (m * l)∗) := by simp only [mul_assoc]
      have hle : m * l * (m * l)∗ ≤ (m * l)∗ := mul_kstar_le_kstar
      rw [hround]
      gcongr
  · apply mul_kstar_le
    · exact le_mul_of_one_le_left' one_le_kstar
    · have hround : (l * m)∗ * l * (m * l) = (l * m)∗ * (l * m) * l := by simp only [mul_assoc]
      have hle : (l * m)∗ * (l * m) ≤ (l * m)∗ := kstar_mul_le_kstar
      rw [hround]
      gcongr

/-- The texts of a run of items are the star of the texts of an item. -/
theorem texts_star : texts (Star D) = (texts D)∗ := by
  apply le_antisymm
  · intro t ht
    obtain ⟨as, hstar⟩ := ht
    induction hstar with
    | nil => exact Language.nil_mem_kstar _
    | cons ha _ ih =>
        have hle : texts D * (texts D)∗ ≤ (texts D)∗ := mul_kstar_le_kstar
        exact hle (Language.append_mem_mul ⟨_, ha⟩ ih)
  · apply kstar_le_of_mul_le_right
    · intro t ht
      obtain rfl := (Language.mem_one t).1 ht
      exact ⟨[], .nil⟩
    · intro t ht
      obtain ⟨u, ⟨a, ha⟩, v, ⟨as, has⟩, rfl⟩ := Language.mem_mul.1 ht
      exact ⟨a :: as, .cons ha has⟩

/-- Blanks after something are a factor after its texts. -/
theorem texts_thenBlanks : texts (DerivesThenBlanks D) = texts D * blanks := by
  apply texts_eq_mul
  · intro t a h
    cases h with
    | mk ha hb => exact Language.append_mem_mul ⟨a, ha⟩ hb
  · intro u hu v hv
    obtain ⟨a, ha⟩ := hu
    exact ⟨a, .mk ha hv⟩

/-- The blanks are the star of the three blanks. -/
theorem blanks_eq_kstar : blanks = (chars fun c => c = ' ' ∨ c = '\n' ∨ c = '\t')∗ := by
  apply le_antisymm
  · intro t ht
    have ht' : t = (t.map fun c => [c]).flatten := by
      rw [← List.flatMap_def, List.flatMap_singleton']
    refine ⟨_, ht', fun u hu => ?_⟩
    obtain ⟨c, hc, rfl⟩ := List.mem_map.1 hu
    exact ⟨c, ht c hc, rfl⟩
  · apply kstar_le_of_mul_le_right
    · intro t ht
      obtain rfl := (Language.mem_one t).1 ht
      exact derivesBlanks_nil
    · intro t ht
      obtain ⟨_, ⟨c, hc, rfl⟩, v, hv, rfl⟩ := Language.mem_mul.1 ht
      exact DerivesBlanks.append (by simpa [DerivesBlanks] using hc) hv

/-! ## Symbols -/

/-- An escape is a backslash and one of four letters. -/
theorem texts_escape :
    texts DerivesEscape = {['\\']} * chars (· ∈ ['"', 'n', 't', '\\']) := by
  apply texts_eq_mul
  · intro t c h
    cases h <;> exact ⟨['\\'], rfl, [_], ⟨_, by decide, rfl⟩, rfl⟩
  · intro u hu v hv
    obtain rfl : u = ['\\'] := hu
    obtain ⟨letter, hletter, rfl⟩ := hv
    simp only [List.mem_cons, List.not_mem_nil, or_false] at hletter
    obtain rfl | rfl | rfl | rfl := hletter
    · exact ⟨_, .quote⟩
    · exact ⟨_, .lineFeed⟩
    · exact ⟨_, .tab⟩
    · exact ⟨_, .backslash⟩

/-- A character of a nonterminal is a text character or an escape. -/
theorem texts_charNonterminal :
    texts SymbolKind.nonterminal.DerivesChar = chars IsTextChar + texts DerivesEscape := by
  ext t
  rw [Language.mem_add]
  constructor
  · intro hex
    obtain ⟨_, h⟩ := hex
    cases h with
    | text h => exact .inl ⟨_, h, rfl⟩
    | escape h => exact .inr ⟨_, h⟩
  · intro hor
    obtain ⟨_, h, rfl⟩ | ⟨_, h⟩ := hor
    · exact ⟨_, .text h⟩
    · exact ⟨_, .escape h⟩

/-- A terminal has the angle brackets besides what a nonterminal has. -/
theorem texts_charTerminal :
    texts SymbolKind.terminal.DerivesChar =
      texts SymbolKind.nonterminal.DerivesChar + chars fun c => c = '<' ∨ c = '>' := by
  ext t
  rw [Language.mem_add]
  constructor
  · intro hex
    obtain ⟨_, h⟩ := hex
    cases h with
    | text h => exact .inl ⟨_, .text h⟩
    | angle h => exact .inr ⟨_, h, rfl⟩
    | escape h => exact .inl ⟨_, .escape h⟩
  · intro hor
    obtain ⟨_, h⟩ | ⟨_, h, rfl⟩ := hor
    · cases h with
      | text h => exact ⟨_, .text h⟩
      | escape h => exact ⟨_, .escape h⟩
    · exact ⟨_, .angle h⟩

/-- No character of a symbol is spelled by the empty text. -/
theorem nil_notMem_char {kind : SymbolKind} : [] ∉ texts kind.DerivesChar := by
  intro hex
  obtain ⟨c, h⟩ := hex
  cases h with
  | escape h => cases h

/-- A symbol is its opening delimiter, any characters and its closing delimiter. -/
theorem texts_symbol (kind : SymbolKind) :
    symbolTexts kind = {[kind.opening]} * (texts kind.DerivesChar)∗ * {[kind.closing]} := by
  rw [symbolTexts, ← texts_star]
  apply texts_eq_mul
  · intro t s h
    obtain ⟨u, rfl, hstar⟩ := Symbol.derives_iff.1 h
    have hopen : [kind.opening] ++ u ∈ {[kind.opening]} * texts (Star kind.DerivesChar) :=
      Language.append_mem_mul rfl ⟨_, hstar⟩
    exact Language.append_mem_mul hopen rfl
  · intro u hu v hv
    obtain ⟨_, rfl, t, ⟨cs, h⟩, rfl⟩ := Language.mem_mul.1 hu
    obtain rfl : v = [kind.closing] := hv
    exact ⟨_, Symbol.derives_of_star h⟩

theorem nil_notMem_symbol {kind : SymbolKind} : [] ∉ symbolTexts kind := by
  intro hex
  obtain ⟨s, h⟩ := hex
  obtain ⟨u, hu, _⟩ := Symbol.derives_iff.1 h
  simp at hu

theorem texts_term : texts Term.Derives = symbolTexts .nonterminal + symbolTexts .terminal := by
  ext t
  rw [Language.mem_add]
  constructor
  · intro hex
    obtain ⟨_, h⟩ := hex
    cases h with
    | nonterminal h => exact .inl ⟨_, h⟩
    | terminal h => exact .inr ⟨_, h⟩
  · intro hor
    obtain ⟨_, h⟩ | ⟨_, h⟩ := hor
    · exact ⟨_, .nonterminal h⟩
    · exact ⟨_, .terminal h⟩

theorem nil_notMem_term : [] ∉ texts Term.Derives := by
  rw [texts_term]
  intro hor
  obtain h | h := hor
  · exact nil_notMem_symbol h
  · exact nil_notMem_symbol h

/-! ## Right-hand sides -/

/-- An alternative is a term and its blanks, and any number of further ones. -/
theorem texts_expression :
    texts Expression.Derives =
      texts Term.Derives * blanks * (texts Term.Derives * blanks)∗ := by
  rw [← texts_thenBlanks, ← texts_star]
  apply texts_eq_mul
  · intro t e h
    cases h with
    | mk hfirst hfurther => exact Language.append_mem_mul ⟨_, hfirst⟩ ⟨_, hfurther⟩
  · intro u hu v hv
    obtain ⟨_, hfirst⟩ := hu
    obtain ⟨_, hfurther⟩ := hv
    exact ⟨_, .mk hfirst hfurther⟩

/-- An alternative has a term at least, so it is never the empty text. -/
theorem nil_notMem_expression : [] ∉ texts Expression.Derives := by
  rw [texts_expression]
  exact nil_notMem_mul (nil_notMem_mul nil_notMem_term)

/-- An alternative after a bar is the bar, blanks and the alternative. -/
theorem texts_afterBar :
    texts Expression.DerivesAfterBar = {['|']} * blanks * texts Expression.Derives := by
  apply texts_eq_mul
  · intro t e h
    cases h with
    | @mk b _ _ hb he =>
        have hbar : ['|'] ++ b ∈ {['|']} * blanks := Language.append_mem_mul rfl hb
        exact Language.append_mem_mul hbar ⟨_, he⟩
  · intro u hu v hv
    obtain ⟨_, rfl, b, hb, rfl⟩ := Language.mem_mul.1 hu
    obtain ⟨e, he⟩ := hv
    exact ⟨e, .mk hb he⟩

/-- A right-hand side is an alternative and any number of further ones after bars. -/
theorem texts_all :
    texts Expression.DerivesAll =
      texts Expression.Derives * ({['|']} * blanks * texts Expression.Derives)∗ := by
  rw [← texts_afterBar, ← texts_star]
  apply texts_eq_mul
  · intro t es h
    cases h with
    | mk hfirst hfurther => exact Language.append_mem_mul ⟨_, hfirst⟩ ⟨_, hfurther⟩
  · intro u hu v hv
    obtain ⟨_, hfirst⟩ := hu
    obtain ⟨_, hfurther⟩ := hv
    exact ⟨_, .mk hfirst hfurther⟩

/-! ## Grammars -/

/-- A production is a nonterminal, the sign between blanks, a right-hand side and a semicolon. -/
theorem texts_production :
    texts Production.Derives =
      symbolTexts .nonterminal * blanks * {[':', ':', '=']} * blanks *
        texts Expression.DerivesAll * {[';']} := by
  apply texts_eq_mul
  · intro t p h
    cases h with
    | @mk t b₁ b₂ u lhs rhs hlhs hb₁ hb₂ hrhs =>
        have hname : t ∈ symbolTexts .nonterminal := ⟨lhs, hlhs⟩
        have hsign : [':', ':', '='] ∈ ({[':', ':', '=']} : Language Char) := rfl
        have hbody : u ∈ texts Expression.DerivesAll := ⟨rhs, hrhs⟩
        have hb₁ : b₁ ∈ blanks := hb₁
        have hb₂ : b₂ ∈ blanks := hb₂
        have hhead := Language.append_mem_mul (Language.append_mem_mul hname hb₁) hsign
        have hrest := Language.append_mem_mul (Language.append_mem_mul hhead hb₂) hbody
        exact Language.append_mem_mul hrest rfl
  · intro v hv w hw
    obtain rfl : w = [';'] := hw
    obtain ⟨v₄, hv₄, u, ⟨rhs, hrhs⟩, rfl⟩ := Language.mem_mul.1 hv
    obtain ⟨v₃, hv₃, b₂, hb₂, rfl⟩ := Language.mem_mul.1 hv₄
    obtain ⟨v₂, hv₂, _, rfl, rfl⟩ := Language.mem_mul.1 hv₃
    obtain ⟨t, ⟨lhs, hlhs⟩, b₁, hb₁, rfl⟩ := Language.mem_mul.1 hv₂
    exact ⟨_, .mk hlhs hb₁ hb₂ hrhs⟩

theorem nil_notMem_production : [] ∉ texts Production.Derives := by
  rw [texts_production]
  simp only [mul_assoc]
  exact nil_notMem_mul nil_notMem_symbol

/-- A grammar is a production and its blanks, and any number of further ones. -/
theorem texts_grammar :
    texts Grammar.Derives =
      texts Production.Derives * blanks * (texts Production.Derives * blanks)∗ := by
  rw [← texts_thenBlanks, ← texts_star]
  apply texts_eq_mul
  · intro t g h
    cases h with
    | mk hfirst hfurther => exact Language.append_mem_mul ⟨_, hfirst⟩ ⟨_, hfurther⟩
  · intro u hu v hv
    obtain ⟨_, hfirst⟩ := hu
    obtain ⟨_, hfurther⟩ := hv
    exact ⟨_, .mk hfirst hfurther⟩

end BnfText

import BnfText.Grammar.Basic

/-!
# BnfText.Proofs.Derivation

The notation as rules that derive texts, apart from any way of reading them:

    blanks      = (' ' | line feed | tab)*
    escape      = '\' ('"' | 'n' | 't' | '\')
    terminal    = '"' (text character | '<' | '>' | escape)* '"'
    nonterminal = '<' (text character | escape)* '>'
    term        = nonterminal | terminal
    expression  = term blanks (term blanks)*
    expressions = expression ('|' blanks expression)*
    production  = nonterminal blanks '::=' blanks expressions ';'
    grammar     = production blanks (production blanks)*

`Grammar.Derives t g` says that the last rule derives the text `t`, and with the tree `g`; the other
rules have a relation of their own.  A text character is a letter or a digit of ASCII or one of a
few marks; the backslash is none, so it only ever begins an escape.
-/

namespace BnfText

/-! ## Repetition -/

/-- `t` is the texts of the items `as`, each derived by `D`, one after the other. -/
inductive Star {α : Type} (D : List Char → α → Prop) : List Char → List α → Prop
  | nil : Star D [] []
  | cons {t u : List Char} {a : α} {as : List α} :
      D t a → Star D u as → Star D (t ++ u) (a :: as)

/-! ## The rules -/

/-- Any number of spaces, line feeds and tabs. -/
def DerivesBlanks (t : List Char) : Prop := ∀ c ∈ t, c = ' ' ∨ c = '\n' ∨ c = '\t'

/-- Something and the blanks after it. -/
inductive DerivesThenBlanks {α : Type} (D : List Char → α → Prop) : List Char → α → Prop
  | mk {t b : List Char} {a : α} : D t a → DerivesBlanks b → DerivesThenBlanks D (t ++ b) a

inductive DerivesEscape : List Char → Char → Prop
  | quote : DerivesEscape ['\\', '"'] '"'
  | lineFeed : DerivesEscape ['\\', 'n'] '\n'
  | tab : DerivesEscape ['\\', 't'] '\t'
  | backslash : DerivesEscape ['\\', '\\'] '\\'

/-- The characters that stand for themselves in a symbol of either kind. -/
def IsTextChar (c : Char) : Prop :=
  ('a' ≤ c ∧ c ≤ 'z') ∨ ('A' ≤ c ∧ c ≤ 'Z') ∨ ('0' ≤ c ∧ c ≤ '9') ∨
    c ∈ ['-', '_', '|', ':', '=', ';', ' ']

/-- One character of what a symbol stands for. -/
inductive SymbolKind.DerivesChar : SymbolKind → List Char → Char → Prop
  | text {kind : SymbolKind} {c : Char} : IsTextChar c → DerivesChar kind [c] c
  | angle {c : Char} : c = '<' ∨ c = '>' → DerivesChar .terminal [c] c
  | escape {kind : SymbolKind} {t : List Char} {c : Char} :
      DerivesEscape t c → DerivesChar kind t c

inductive Symbol.Derives : {kind : SymbolKind} → List Char → Symbol kind → Prop
  | terminal {t cs : List Char} : Star SymbolKind.terminal.DerivesChar t cs →
      Symbol.Derives ('"' :: t ++ ['"']) (⟨String.ofList cs⟩ : Terminal)
  | nonterminal {t cs : List Char} : Star SymbolKind.nonterminal.DerivesChar t cs →
      Symbol.Derives ('<' :: t ++ ['>']) (⟨String.ofList cs⟩ : Nonterminal)

inductive Term.Derives : List Char → Term → Prop
  | nonterminal {t : List Char} {s : Nonterminal} :
      Symbol.Derives t s → Term.Derives t (.ofSymbol s)
  | terminal {t : List Char} {s : Terminal} : Symbol.Derives t s → Term.Derives t (.ofSymbol s)

inductive Expression.Derives : List Char → Expression → Prop
  | mk {t u : List Char} {first : Term} {further : List Term} :
      DerivesThenBlanks Term.Derives t first → Star (DerivesThenBlanks Term.Derives) u further →
        Expression.Derives (t ++ u) ⟨first :: further⟩

/-- A bar and the alternative after it. -/
inductive Expression.DerivesAfterBar : List Char → Expression → Prop
  | mk {b t : List Char} {e : Expression} :
      DerivesBlanks b → Expression.Derives t e → Expression.DerivesAfterBar ('|' :: b ++ t) e

/-- The alternatives of a right-hand side. -/
inductive Expression.DerivesAll : List Char → List Expression → Prop
  | mk {t u : List Char} {first : Expression} {further : List Expression} :
      Expression.Derives t first → Star Expression.DerivesAfterBar u further →
        Expression.DerivesAll (t ++ u) (first :: further)

inductive Production.Derives : List Char → Production → Prop
  | mk {t b₁ b₂ u : List Char} {lhs : Nonterminal} {rhs : List Expression} :
      Symbol.Derives t lhs → DerivesBlanks b₁ → DerivesBlanks b₂ → Expression.DerivesAll u rhs →
        Production.Derives (t ++ b₁ ++ [':', ':', '='] ++ b₂ ++ u ++ [';']) ⟨lhs, rhs⟩

inductive Grammar.Derives : List Char → Grammar → Prop
  | mk {t u : List Char} {first : Production} {further : List Production} :
      DerivesThenBlanks Production.Derives t first →
        Star (DerivesThenBlanks Production.Derives) u further →
          Grammar.Derives (t ++ u) ⟨first :: further⟩

/-! ## Appending runs -/

namespace Star

variable {α : Type} {D : List Char → α → Prop} {t u : List Char} {a : α} {as bs : List α}

theorem eq_nil (h : Star D t []) : t = [] := by
  cases h
  rfl

theorem singleton (h : D t a) : Star D t [a] := by
  have hstar := Star.cons h .nil
  rwa [List.append_nil] at hstar

/-- A run after a run is a run of the items of both. -/
theorem append (ht : Star D t as) (hu : Star D u bs) : Star D (t ++ u) (as ++ bs) := by
  induction ht with
  | nil => exact hu
  | cons h _ ih =>
      rw [List.append_assoc]
      exact .cons h ih

end Star

/-! ## Characters -/

theorem isBlank_iff {c : Char} : isBlank c = true ↔ c = ' ' ∨ c = '\n' ∨ c = '\t' := by
  simp [isBlank, or_assoc]

theorem isAlphanum_iff {c : Char} :
    c.isAlphanum = true ↔
      ('a' ≤ c ∧ c ≤ 'z') ∨ ('A' ≤ c ∧ c ≤ 'Z') ∨ ('0' ≤ c ∧ c ≤ '9') := by
  have hupper : c.isUpper = decide ('A' ≤ c ∧ c ≤ 'Z') := rfl
  have hlower : c.isLower = (decide ('a' ≤ c) && decide (c ≤ 'z')) := rfl
  have hdigit : c.isDigit = (decide ('0' ≤ c) && decide (c ≤ '9')) := rfl
  have hall : c.isAlphanum = (c.isUpper || c.isLower || c.isDigit) := rfl
  rw [hall, hupper, hlower, hdigit]
  simp only [Bool.or_eq_true, Bool.and_eq_true, decide_eq_true_eq]
  grind

namespace SymbolKind

/-- What a symbol of a kind takes as it stands: a text character, and in a terminal an angle bracket
too. -/
theorem isPlain_iff {kind : SymbolKind} {c : Char} :
    kind.isPlain c = true ↔ IsTextChar c ∨ kind = terminal ∧ (c = '<' ∨ c = '>') := by
  simp only [isPlain, IsTextChar, Bool.or_eq_true, Bool.and_eq_true, decide_eq_true_eq,
    List.contains_eq_mem, isAlphanum_iff, or_assoc]

/-- The backslash never stands for itself. -/
theorem isPlain_backslash (kind : SymbolKind) : kind.isPlain '\\' = false := by
  cases kind <;> decide

end SymbolKind

/-- The escapes are the backslash and a letter that stands for something. -/
theorem derivesEscape_iff {t : List Char} {c : Char} :
    DerivesEscape t c ↔ ∃ letter, t = ['\\', letter] ∧ unescape? letter = some c := by
  constructor
  · intro h
    cases h <;> exact ⟨_, rfl, rfl⟩
  · intro hex
    obtain ⟨letter, rfl, h⟩ := hex
    unfold unescape? at h
    split at h <;> cases h <;> constructor

/-- A character of a symbol stands for itself or is escaped. -/
theorem SymbolKind.derivesChar_iff {kind : SymbolKind} {t : List Char} {c : Char} :
    kind.DerivesChar t c ↔ t = [c] ∧ kind.isPlain c = true ∨ DerivesEscape t c := by
  rw [isPlain_iff]
  constructor
  · intro h
    cases h with
    | text h => exact .inl ⟨rfl, .inl h⟩
    | angle h => exact .inl ⟨rfl, .inr ⟨rfl, h⟩⟩
    | escape h => exact .inr h
  · intro hor
    obtain ⟨rfl, h | ⟨rfl, h⟩⟩ | h := hor
    · exact .text h
    · exact .angle h
    · exact .escape h

/-- The rules for the two kinds of symbols are one rule with the delimiters of the kind. -/
theorem Symbol.derives_iff {kind : SymbolKind} {v : List Char} {s : Symbol kind} :
    Symbol.Derives v s ↔
      ∃ t, v = kind.opening :: t ++ [kind.closing] ∧ Star kind.DerivesChar t s.text.toList := by
  constructor
  · intro h
    cases h with
    | terminal h => exact ⟨_, rfl, by rwa [String.toList_ofList]⟩
    | nonterminal h => exact ⟨_, rfl, by rwa [String.toList_ofList]⟩
  · intro hex
    obtain ⟨t, rfl, h⟩ := hex
    obtain ⟨text⟩ := s
    cases kind with
    | terminal =>
        have hs := Symbol.Derives.terminal h
        rwa [String.ofList_toList] at hs
    | nonterminal =>
        have hs := Symbol.Derives.nonterminal h
        rwa [String.ofList_toList] at hs

/-- A text between delimiters is a symbol if its characters can be derived one by one. -/
theorem Symbol.derives_of_star {kind : SymbolKind} {t cs : List Char}
    (h : Star kind.DerivesChar t cs) :
    Symbol.Derives (kind.opening :: t ++ [kind.closing])
      (⟨String.ofList cs⟩ : Symbol kind) := by
  rw [Symbol.derives_iff]
  exact ⟨t, rfl, by rwa [String.toList_ofList]⟩

/-- The two rules for a term are one: a term is what its symbol is. -/
theorem Term.derives_iff {t : List Char} {term : Term} :
    Term.Derives t term ↔ Symbol.Derives t term.symbol := by
  constructor
  · intro h
    cases h with
    | nonterminal h => exact h
    | terminal h => exact h
  · intro h
    obtain ⟨kind, s⟩ := term
    cases kind with
    | terminal => exact .terminal h
    | nonterminal => exact .nonterminal h

/-! ## Longer derivations -/

namespace Star

variable {α : Type} {D : List Char → α → Prop} {t b : List Char} {as : List α}

/-- Items that are each derived from a text of their own. -/
theorem flatMap {f : α → List Char} (h : ∀ a ∈ as, D (f a) a) : Star D (as.flatMap f) as := by
  induction as with
  | nil => exact .nil
  | cons a as ih =>
      rw [List.flatMap_cons]
      have hfurther := ih fun a ha => h a (List.mem_cons_of_mem _ ha)
      exact .cons (h a List.mem_cons_self) hfurther

/-- What the last item takes the whole run takes. -/
theorem extend (hstar : Star D t as) (hne : as ≠ [])
    (h : ∀ t a, D t a → D (t ++ b) a) : Star D (t ++ b) as := by
  induction hstar with
  | nil => exact absurd rfl hne
  | @cons t u a as ha hstar ih =>
      cases has : as with
      | nil =>
          subst has
          have hu := hstar.eq_nil
          rw [hu, List.append_nil]
          exact singleton (h t a ha)
      | cons a' as' =>
          rw [List.append_assoc, ← has]
          exact .cons ha (ih (by simp [has]))

end Star

theorem DerivesBlanks.append {b b' : List Char} (h : DerivesBlanks b) (h' : DerivesBlanks b') :
    DerivesBlanks (b ++ b') := by
  intro c hc
  cases List.mem_append.1 hc with
  | inl hc => exact h c hc
  | inr hc => exact h' c hc

theorem derivesBlanks_nil : DerivesBlanks [] := by simp [DerivesBlanks]

theorem derivesBlanks_space : DerivesBlanks [' '] := by simp [DerivesBlanks]

theorem derivesBlanks_lineFeed : DerivesBlanks ['\n'] := by simp [DerivesBlanks]

/-- There may be no blanks. -/
theorem DerivesThenBlanks.of_derives {α : Type} {D : List Char → α → Prop} {t : List Char} {a : α}
    (h : D t a) : DerivesThenBlanks D t a := by
  have hthen := DerivesThenBlanks.mk h derivesBlanks_nil
  rwa [List.append_nil] at hthen

/-- What is followed by blanks may be followed by more of them. -/
theorem DerivesThenBlanks.extend {α : Type} {D : List Char → α → Prop} {t b : List Char} {a : α}
    (h : DerivesThenBlanks D t a) (hb : DerivesBlanks b) : DerivesThenBlanks D (t ++ b) a := by
  cases h with
  | mk ha hb' =>
      rw [List.append_assoc]
      exact .mk ha (hb'.append hb)

namespace Expression

variable {t u b : List Char} {e : Expression} {es : List Expression}

/-- An alternative as a run of terms, each with its blanks, that is not empty. -/
theorem derives_iff :
    Expression.Derives t e ↔ e.terms ≠ [] ∧ Star (DerivesThenBlanks Term.Derives) t e.terms := by
  constructor
  · intro h
    cases h with
    | mk hfirst hfurther => exact ⟨List.cons_ne_nil _ _, .cons hfirst hfurther⟩
  · intro ⟨hne, h⟩
    obtain ⟨terms⟩ := e
    cases h with
    | nil => exact absurd rfl hne
    | cons hfirst hfurther => exact .mk hfirst hfurther

/-- An alternative ends in blanks, so more of them may follow. -/
theorem Derives.extend (h : Expression.Derives t e) (hb : DerivesBlanks b) :
    Expression.Derives (t ++ b) e := by
  obtain ⟨hne, hstar⟩ := derives_iff.1 h
  exact derives_iff.2 ⟨hne, hstar.extend hne fun _ _ hterm => hterm.extend hb⟩

theorem Derives.concat {term : Term} (h : Expression.Derives t e) (hterm : Term.Derives u term) :
    Expression.Derives (t ++ u) ⟨e.terms ++ [term]⟩ := by
  have hstar := (derives_iff.1 h).2.append (.singleton (.of_derives hterm))
  exact derives_iff.2 ⟨by simp, hstar⟩

theorem DerivesAfterBar.extend (h : Expression.DerivesAfterBar t e) (hb : DerivesBlanks b) :
    Expression.DerivesAfterBar (t ++ b) e := by
  cases h with
  | mk hb' he =>
      rw [List.append_assoc]
      exact .mk hb' (he.extend hb)

theorem DerivesAll.extend (h : Expression.DerivesAll t es) (hb : DerivesBlanks b) :
    Expression.DerivesAll (t ++ b) es := by
  cases h with
  | @mk t u first further hfirst hfurther =>
      cases hnil : further with
      | nil =>
          subst hnil
          rw [hfurther.eq_nil, List.append_nil]
          have hall := Expression.DerivesAll.mk (hfirst.extend hb) .nil
          rwa [List.append_nil] at hall
      | cons e es =>
          rw [List.append_assoc, ← hnil]
          exact .mk hfirst (hfurther.extend (by simp [hnil]) fun _ _ hbar => hbar.extend hb)

theorem DerivesAll.concat (h : Expression.DerivesAll t es) (hb : DerivesBlanks b)
    (he : Expression.Derives u e) : Expression.DerivesAll (t ++ ('|' :: b ++ u)) (es ++ [e]) := by
  cases h with
  | mk hfirst hfurther =>
      rw [List.append_assoc]
      exact .mk hfirst (hfurther.append (.singleton (.mk hb he)))

end Expression

/-- A grammar as a run of productions, each with its blanks, that is not empty. -/
theorem Grammar.derives_iff {t : List Char} {g : Grammar} :
    Grammar.Derives t g ↔
      g.productions ≠ [] ∧ Star (DerivesThenBlanks Production.Derives) t g.productions := by
  constructor
  · intro h
    cases h with
    | mk hfirst hfurther => exact ⟨List.cons_ne_nil _ _, .cons hfirst hfurther⟩
  · intro ⟨hne, h⟩
    obtain ⟨productions⟩ := g
    cases h with
    | nil => exact absurd rfl hne
    | cons hfirst hfurther => exact .mk hfirst hfurther

theorem Grammar.Derives.extend {t b : List Char} {g : Grammar} (h : Grammar.Derives t g)
    (hb : DerivesBlanks b) : Grammar.Derives (t ++ b) g := by
  obtain ⟨hne, hstar⟩ := derives_iff.1 h
  exact derives_iff.2 ⟨hne, hstar.extend hne fun _ _ hp => hp.extend hb⟩

end BnfText

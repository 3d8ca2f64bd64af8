import Mathlib.Computability.ContextFreeGrammar
import Mathlib.Order.CompletePartialOrder
import BnfText.Grammar.Basic

/-!
# BnfText.Proofs.ContextFree

A grammar that was read, in turn read as a context-free grammar over characters: a nonterminal
expands to any alternative of any production for it, and a terminal stands for its text.

The languages of the nonterminals are a solution of the productions taken as equations
(`Grammar.language_eq_words`), with alternatives for sums and the terms of an alternative for
products.  This holds of every context-free grammar (`ContextFreeGrammar.mem_words_iff`): the words
of a nonterminal are the least solution, so one round of the equations gives no more and no less.
-/

/-! ## Solutions of a context-free grammar -/

namespace ContextFreeGrammar

/-- A sentential form. -/
abbrev Form (T N : Type) := List (Symbol T N)

variable {T N : Type}

/-- The words of a symbol, if each nonterminal `n` stands for the words of `M n`. -/
def symbolWords (M : N → Language T) : Symbol T N → Language T
  | .terminal c => {[c]}
  | .nonterminal n => M n

/-- The words of a sentential form, if each nonterminal `n` stands for the words of `M n`. -/
def formWords (M : N → Language T) (form : Form T N) : Language T :=
  (form.map (symbolWords M)).prod

section FormWords

variable {M M' : N → Language T} {s : Symbol T N} {form form' : Form T N}

@[simp] theorem formWords_nil : formWords M [] = 1 := rfl

@[simp] theorem formWords_cons :
    formWords M (s :: form) = symbolWords M s * formWords M form := by
  simp [formWords]

/-- The words of two forms in a row are those of the one followed by those of the other. -/
@[simp] theorem formWords_append :
    formWords M (form ++ form') = formWords M form * formWords M form' := by
  simp [formWords]

theorem formWords_nonterminal (n : N) : formWords M [.nonterminal n] = M n := by
  simp [symbolWords]

/-- A form of terminals has one word, which is itself. -/
theorem formWords_terminals (w : List T) :
    formWords M (w.map .terminal) = {w} := by
  induction w with
  | nil => rfl
  | cons c w ih =>
      rw [List.map_cons, formWords_cons, ih]
      exact Set.image2_singleton

/-- With more words for the nonterminals a form has no fewer. -/
theorem formWords_mono (h : ∀ n, M n ≤ M' n) : formWords M form ≤ formWords M' form := by
  induction form with
  | nil => exact le_rfl
  | cons s form ih =>
      have hs : symbolWords M s ≤ symbolWords M' s := by
        cases s with
        | terminal c => exact le_rfl
        | nonterminal n => exact h n
      rw [formWords_cons, formWords_cons]
      exact mul_le_mul' hs ih

end FormWords

variable (g : ContextFreeGrammar T)

/-- The words that a nonterminal can be rewritten to. -/
def words (n : g.NT) : Language T := {w | g.Derives [.nonterminal n] (w.map .terminal)}

/-- Every rule gives words of the nonterminal that it rewrites. -/
def Closed (M : g.NT → Language T) : Prop := ∀ r ∈ g.rules, formWords M r.output ≤ M r.input

variable {g} {M : g.NT → Language T} {form form' : Form T g.NT} {w : List T} {n : g.NT}

/-- A word of a form can be derived from it.  The induction is on the form: each nonterminal is
rewritten to its part of the word, the others being carried along. -/
theorem derives_of_mem_formWords (h : w ∈ formWords g.words form) :
    g.Derives form (w.map .terminal) := by
  induction form generalizing w with
  | nil =>
      have hw : w = [] := h
      subst hw
      rfl
  | cons s form ih =>
      rw [formWords_cons] at h
      obtain ⟨u, hu, v, hv, rfl⟩ := Language.mem_mul.1 h
      have hrest := ih hv
      rw [List.map_append]
      cases s with
      | terminal c =>
          have hc : u = [c] := hu
          subst hc
          exact hrest.append_left [.terminal c]
      | nonterminal n =>
          have hn : g.Derives [.nonterminal n] (u.map .terminal) := hu
          exact (hn.append_right form).trans (hrest.append_left _)

/-- The words that can be derived obey the rules. -/
theorem closed_words : g.Closed g.words := by
  intro r hr w hw
  have hstep : g.Produces [.nonterminal r.input] r.output :=
    ⟨r, hr, ContextFreeRule.Rewrites.input_output⟩
  exact hstep.trans_derives (derives_of_mem_formWords hw)

/-- One rewriting of a form adds no words, if the rules are obeyed. -/
theorem Closed.formWords_le_of_produces (hM : g.Closed M) (h : g.Produces form form') :
    formWords M form' ≤ formWords M form := by
  obtain ⟨r, hr, hrewrites⟩ := h
  obtain ⟨front, rest, rfl, rfl⟩ := hrewrites.exists_parts
  have hrule := hM r hr
  simp only [formWords_append, formWords_nonterminal]
  gcongr

/-- Neither does any number of rewritings. -/
theorem Closed.formWords_le_of_derives (hM : g.Closed M) (h : g.Derives form form') :
    formWords M form' ≤ formWords M form := by
  induction h with
  | refl => exact le_rfl
  | tail _ hstep ih => exact (hM.formWords_le_of_produces hstep).trans ih

/-- The words that can be derived are the least that obey the rules. -/
theorem Closed.words_le (hM : g.Closed M) : g.words n ≤ M n := by
  intro w hw
  have hle := hM.formWords_le_of_derives hw
  rw [formWords_terminals, formWords_nonterminal] at hle
  exact hle rfl

/-- The words of a nonterminal are those of the rules for it. -/
theorem mem_words_iff :
    w ∈ g.words n ↔ ∃ r ∈ g.rules, r.input = n ∧ w ∈ formWords g.words r.output := by
  constructor
  · -- one round of the rules is closed again, and the words are the least that is
    let M : g.NT → Language T :=
      fun n => {w | ∃ r ∈ g.rules, r.input = n ∧ w ∈ formWords g.words r.output}
    have hle : ∀ n, M n ≤ g.words n := by
      intro n w hw
      obtain ⟨r, hr, rfl, hw⟩ := hw
      exact closed_words r hr hw
    have hclosed : g.Closed M := fun r hr w hw => ⟨r, hr, rfl, formWords_mono hle hw⟩
    intro hw
    exact hclosed.words_le hw
  · intro hex
    obtain ⟨r, hr, rfl, hw⟩ := hex
    exact closed_words r hr hw

end ContextFreeGrammar

/-! ## A grammar as a context-free grammar -/

namespace BnfText

open ContextFreeGrammar (Form formWords)

/-- A terminal stands for its text, a nonterminal for itself. -/
def Term.form (t : Term) : Form Char String :=
  match t.kind with
  | .terminal => t.text.toList.map .terminal
  | .nonterminal => [.nonterminal t.text]

def Expression.form (e : Expression) : Form Char String := e.terms.flatMap Term.form

/-- A rule for each alternative. -/
def Production.rules (p : Production) : List (ContextFreeRule Char String) :=
  p.rhs.map fun e => ⟨p.lhs.text, e.form⟩

/-- The grammar as a context-free grammar that starts from the nonterminal `start`.  It is
reducible: its nonterminals have to be seen to be strings. -/
@[reducible] def Grammar.contextFree (g : Grammar) (start : String) : ContextFreeGrammar Char where
  NT := String
  initial := start
  rules := (g.productions.flatMap Production.rules).toFinset

/-- The texts that the nonterminal of a name generates. -/
def Grammar.language (g : Grammar) (name : String) : Language Char :=
  (g.contextFree name).language

/-! ## Productions as equations -/

/-- The texts of a term, if each nonterminal `n` stands for the texts of `M n`. -/
def Term.words (M : String → Language Char) (t : Term) : Language Char :=
  match t.kind with
  | .terminal => {t.text.toList}
  | .nonterminal => M t.text

def Expression.words (M : String → Language Char) (e : Expression) : Language Char :=
  (e.terms.map (Term.words M)).prod

def Production.words (M : String → Language Char) (p : Production) : Language Char :=
  (p.rhs.map (Expression.words M)).sum

theorem mem_sum {ls : List (Language Char)} {w : List Char} :
    w ∈ ls.sum ↔ ∃ l ∈ ls, w ∈ l := by
  induction ls with
  | nil => simp
  | cons l ls ih => simp [Language.mem_add, ih]

/-- The form of a term has the words of the term. -/
theorem formWords_term (M : String → Language Char) (t : Term) :
    formWords M t.form = t.words M := by
  obtain ⟨kind, s⟩ := t
  cases kind with
  | terminal => exact ContextFreeGrammar.formWords_terminals _
  | nonterminal => exact ContextFreeGrammar.formWords_nonterminal _

theorem formWords_expression (M : String → Language Char) (e : Expression) :
    formWords M e.form = e.words M := by
  obtain ⟨terms⟩ := e
  simp only [Expression.form, Expression.words]
  induction terms with
  | nil => rfl
  | cons t terms ih => simp [formWords_term, ih]

namespace Grammar

variable {g : Grammar} {p : Production} {start name : String} {w : List Char}

/-- The rules are the alternatives of the productions. -/
theorem mem_rules_contextFree {r : ContextFreeRule Char String} :
    r ∈ (g.contextFree start).rules ↔
      ∃ p ∈ g.productions, ∃ e ∈ p.rhs, ⟨p.lhs.text, e.form⟩ = r := by
  rw [List.mem_toFinset]
  simp [Production.rules]

/-- A nonterminal generates what the alternatives of its productions give. -/
theorem mem_language_iff :
    w ∈ g.language name ↔ ∃ p ∈ g.productions, p.lhs.text = name ∧ w ∈ p.words g.language := by
  have hiff : w ∈ g.language name ↔ _ :=
    ContextFreeGrammar.mem_words_iff (g := g.contextFree name) (n := name)
  rw [hiff]
  constructor
  · intro hex
    obtain ⟨r, hr, hname, hw⟩ := hex
    obtain ⟨p, hp, e, he, rfl⟩ := mem_rules_contextFree.1 hr
    have hwords : w ∈ formWords g.language e.form := hw
    rw [formWords_expression] at hwords
    exact ⟨p, hp, hname, mem_sum.2 ⟨_, List.mem_map_of_mem he, hwords⟩⟩
  · intro hex
    obtain ⟨p, hp, hname, hw⟩ := hex
    obtain ⟨l, hl, hw⟩ := mem_sum.1 hw
    obtain ⟨e, he, rfl⟩ := List.mem_map.1 hl
    have hwords : w ∈ formWords g.language e.form := by rwa [formWords_expression]
    exact ⟨⟨p.lhs.text, e.form⟩, mem_rules_contextFree.2 ⟨p, hp, e, he, rfl⟩, hname, hwords⟩

/-- Where no nonterminal has two productions, each production is an equation for its texts. -/
theorem language_eq_words (hnodup : (g.productions.map (·.lhs.text)).Nodup)
    (hp : p ∈ g.productions) : g.language p.lhs.text = p.words g.language := by
  ext w
  rw [mem_language_iff]
  constructor
  · intro hex
    obtain ⟨q, hq, hname, hw⟩ := hex
    have heq : q = p := List.inj_on_of_nodup_map hnodup hq hp hname
    rwa [heq] at hw
  · intro hw
    exact ⟨p, hp, rfl, hw⟩

end Grammar

end BnfText

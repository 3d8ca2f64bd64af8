import BnfText.Grammar.Trace
import BnfText.Proofs.Canonical
import BnfText.Proofs.Traversal
import Mathlib.Data.List.TakeWhile

/-!
# BnfText.Proofs.Literals

The literals that a scan finds in a text, and the symbols of the tree that the text is read with.
What a scan finds does not depend on the blanks outside literals, so it is found in the compact form
of the tree as well, where it is put together from the parts.

* `literals`, `betweenLiterals` — the literals of a text, and the characters that are in none;
* `Scan.marks_stripped` — without the blanks outside literals a text is scanned as it is with them;
* `Grammar.shows_compact` — what a scan finds in the compact form of a tree;
* `Grammar.parse_literals` — a visitor of the symbols meets the literals of the text.
-/

namespace BnfText

namespace Scan

/-- Whether a character stands inside a literal, after the delimiter that begins it. -/
def isEnclosed : Scan × Char → Bool
  | (outside, _) => false
  | (inside _ _, _) => true

/-- Whether a character is a delimiter that begins a literal. -/
def isOpening : Scan × Char → Bool
  | (outside, c) => (SymbolKind.ofOpening? c).isSome
  | (inside _ _, _) => false

/-- The literals among the characters of a text.  Each goes from the delimiter that begins it as far
as the scan stands inside, which takes in the delimiter that ends it. -/
def literals : List (Scan × Char) → List (List Char)
  | [] => []
  | m :: ms =>
    if isOpening m then (m.2 :: (ms.takeWhile isEnclosed).map Prod.snd) :: literals ms
    else literals ms

/-- The characters that are in no literal. -/
def unenclosed (ms : List (Scan × Char)) : List Char :=
  (ms.filter fun m => !isOpening m && !isEnclosed m).map Prod.snd

end Scan

/-- The literals of a text from left to right, each with its delimiters. -/
def literals (text : String) : List String :=
  (Scan.literals (Scan.outside.marks text.toList)).map String.ofList

/-- The characters of a text that are in no literal. -/
def betweenLiterals (text : String) : List Char :=
  Scan.unenclosed (Scan.outside.marks text.toList)

namespace Scan

variable {c : Char} {t u : List Char} {ls ls' : List (List Char)} {v v' : List Char}

/-! ## The blanks outside literals -/

/-- A character is loose if it is a blank and stands outside the literals. -/
theorem isLoose_iff {s : Scan} : isLoose (s, c) = true ↔ s = outside ∧ isBlank c = true := by
  cases s <;> simp [isLoose]

/-- A blank begins no literal. -/
theorem isOpening_of_isLoose {m : Scan × Char} (h : isLoose m = true) : isOpening m = false := by
  obtain ⟨s, c⟩ := m
  obtain ⟨rfl, hc⟩ := isLoose_iff.1 h
  rcases isBlank_iff.1 hc with rfl | rfl | rfl <;> rfl

/-- A loose character is not left when the text is stripped. -/
theorem stripped_cons_of_isLoose {s : Scan} (h : isLoose (s, c) = true) :
    s.stripped (c :: t) = s.stripped t := by
  obtain ⟨rfl, hc⟩ := isLoose_iff.1 h
  simp [stripped, h, step_blank hc]

theorem stripped_cons_of_not_isLoose {s : Scan} (h : ¬ isLoose (s, c) = true) :
    s.stripped (c :: t) = c :: (s.step c).stripped t := by simp [stripped, h]

/-- Without the blanks outside literals a text is scanned as it is with them. -/
theorem marks_stripped (s : Scan) (t : List Char) :
    s.marks (s.stripped t) = (s.marks t).filter fun m => !isLoose m := by
  induction t generalizing s with
  | nil => rfl
  | cons c t ih =>
      by_cases h : isLoose (s, c) = true
      · rw [stripped_cons_of_isLoose h, ih]
        obtain ⟨rfl, hc⟩ := isLoose_iff.1 h
        rw [marks_cons, step_blank hc, List.filter_cons_of_neg (by simp [h])]
      · rw [stripped_cons_of_not_isLoose h, marks_cons, marks_cons, ih,
          List.filter_cons_of_pos (by simp [h])]

/-- Outside all literals, no character comes next that a literal goes on with. -/
theorem takeWhile_isEnclosed_outside (t : List Char) :
    ((outside.marks t).takeWhile isEnclosed) = [] := by
  cases t <;> rfl

/-- A literal goes as far without the blanks outside it. -/
theorem takeWhile_isEnclosed_stripped (s : Scan) (t : List Char) :
    (s.marks (s.stripped t)).takeWhile isEnclosed = (s.marks t).takeWhile isEnclosed := by
  induction t generalizing s with
  | nil => rfl
  | cons c t ih =>
      cases s with
      | outside => rw [takeWhile_isEnclosed_outside, takeWhile_isEnclosed_outside]
      | inside kind protecting =>
          have h : ¬ isLoose (inside kind protecting, c) = true := by simp [isLoose]
          rw [stripped_cons_of_not_isLoose h, marks_cons, marks_cons, List.takeWhile_cons,
            List.takeWhile_cons, ih]

/-- The same literals are found without the blanks outside them. -/
theorem literals_stripped (s : Scan) (t : List Char) :
    literals (s.marks (s.stripped t)) = literals (s.marks t) := by
  induction t generalizing s with
  | nil => rfl
  | cons c t ih =>
      by_cases h : isLoose (s, c) = true
      · have hopening := isOpening_of_isLoose h
        obtain ⟨rfl, hc⟩ := isLoose_iff.1 h
        rw [stripped_cons_of_isLoose h, ih, marks_cons, step_blank hc, literals,
          if_neg (by simp [hopening])]
      · rw [stripped_cons_of_not_isLoose h, marks_cons, marks_cons, literals, literals, ih,
          takeWhile_isEnclosed_stripped]

/-- Of the characters in no literal, stripping takes away the blanks. -/
theorem unenclosed_stripped (s : Scan) (t : List Char) :
    unenclosed (s.marks (s.stripped t)) =
      (unenclosed (s.marks t)).filter fun c => !isBlank c := by
  rw [marks_stripped, unenclosed, unenclosed, List.filter_map, List.filter_filter,
    List.filter_filter]
  congr 1
  refine List.filter_congr fun m _ => ?_
  obtain ⟨s, c⟩ := m
  cases s <;> simp [isLoose, isOpening, isEnclosed, Bool.and_comm]

/-! ## One piece after the other -/

/-- Literals of a piece of text do not reach into the next one, if that begins outside of them. -/
theorem literals_append_outside (ms : List (Scan × Char)) (t : List Char) :
    literals (ms ++ outside.marks t) = literals ms ++ literals (outside.marks t) := by
  induction ms with
  | nil => rfl
  | cons m ms ih =>
      have htake : (ms ++ outside.marks t).takeWhile isEnclosed = ms.takeWhile isEnclosed := by
        rw [List.takeWhile_append, takeWhile_isEnclosed_outside, List.append_nil]
        split
        case isTrue h => exact ((List.takeWhile_prefix _).eq_of_length h).symm
        case isFalse => rfl
      rw [List.cons_append, literals, literals, ih, htake]
      split <;> rfl

theorem unenclosed_append (ms ms' : List (Scan × Char)) :
    unenclosed (ms ++ ms') = unenclosed ms ++ unenclosed ms' := by
  simp [unenclosed]

/-- The marks of a text hold its characters in order. -/
theorem map_snd_marks (s : Scan) (t : List Char) : (s.marks t).map Prod.snd = t := by
  induction t generalizing s with
  | nil => rfl
  | cons c t ih => rw [marks_cons, List.map_cons, ih]

/-- No literal begins inside another one. -/
theorem literals_eq_nil {ms : List (Scan × Char)} (h : ∀ m ∈ ms, isEnclosed m = true) :
    literals ms = [] := by
  induction ms with
  | nil => rfl
  | cons m ms ih =>
      have hm := h m List.mem_cons_self
      have hopening : isOpening m = false := by
        obtain ⟨s, c⟩ := m
        cases s with
        | outside => cases hm
        | inside kind protecting => rfl
      rw [literals, if_neg (by simp [hopening]), ih fun m hm => h m (List.mem_cons_of_mem _ hm)]

/-- A scan that goes over `t` outside all literals comes back there.  It finds the literals `ls`,
and the characters `v` that are in none. -/
structure Shows (t : List Char) (ls : List (List Char)) (v : List Char) : Prop where
  closed : Closed t
  literals_eq : literals (outside.marks t) = ls
  unenclosed_eq : unenclosed (outside.marks t) = v

namespace Shows

theorem nil : Shows [] [] [] := ⟨rfl, rfl, rfl⟩

/-- What a scan finds in two pieces of text is what it finds in each of them. -/
theorem append (ht : Shows t ls v) (hu : Shows u ls' v') :
    Shows (t ++ u) (ls ++ ls') (v ++ v') where
  closed := by rw [Closed, after_append, ht.closed, hu.closed]
  literals_eq := by
    rw [marks_append, ht.closed, literals_append_outside, ht.literals_eq, hu.literals_eq]
  unenclosed_eq := by
    rw [marks_append, ht.closed, unenclosed_append, ht.unenclosed_eq, hu.unenclosed_eq]

/-- A literal is all of a piece of text if the scan stands inside from the first character on. -/
theorem literal {kind : SymbolKind} (h : ∀ m ∈ (inside kind false).marks t, isEnclosed m = true)
    (hclosed : Closed (kind.opening :: t)) :
    Shows (kind.opening :: t) [kind.opening :: t] [] := by
  have hmarks : outside.marks (kind.opening :: t) =
      (outside, kind.opening) :: (inside kind false).marks t := by
    cases kind <;> rfl
  have hopening : isOpening (outside, kind.opening) = true := by cases kind <;> rfl
  refine ⟨hclosed, ?_, ?_⟩
  · rw [hmarks, literals, if_pos hopening, List.takeWhile_eq_self_iff.2 h, map_snd_marks,
      literals_eq_nil h]
  · rw [hmarks, unenclosed, List.map_eq_nil_iff, List.filter_eq_nil_iff]
    intro m hm
    rcases List.mem_cons.1 hm with rfl | hm
    · simp [hopening]
    · simp [h m hm]

/-- A character that begins no literal is in none. -/
theorem char (h : SymbolKind.ofOpening? c = none) : Shows [c] [] [c] where
  closed := by simp [Closed, step, h]
  literals_eq := by simp [literals, isOpening, h]
  unenclosed_eq := by simp [unenclosed, isOpening, isEnclosed, h]

/-- Pieces that follow one another, one for each item. -/
theorem flatMap {α : Type} {as : List α} {f v : α → List Char} {ls : α → List (List Char)}
    (h : ∀ a ∈ as, Shows (f a) (ls a) (v a)) :
    Shows (as.flatMap f) (as.flatMap ls) (as.flatMap v) := by
  induction as with
  | nil => exact nil
  | cons a as ih =>
      have hfurther := ih fun b hb => h b (List.mem_cons_of_mem a hb)
      exact (h a List.mem_cons_self).append hfurther

end Shows

end Scan

/-! ## The compact form of a tree -/

open Scan (Shows)

section Compact

variable {kind : SymbolKind} {t cs : List Char}

/-- The text of a symbol stands inside the literal. -/
theorem SymbolKind.isEnclosed_of_star (h : Star kind.DerivesChar t cs) :
    ∀ m ∈ (Scan.inside kind false).marks t, Scan.isEnclosed m = true := by
  induction h with
  | nil => simp
  | cons hc _ ih =>
      intro m hm
      rw [Scan.marks_append, (strips_of_derivesChar hc).after_eq, List.mem_append] at hm
      rcases hm with hm | hm
      · rcases derivesChar_iff.1 hc with ⟨rfl, _⟩ | hescape
        · obtain rfl := List.mem_singleton.1 hm
          rfl
        · obtain ⟨letter, rfl, _⟩ := derivesEscape_iff.1 hescape
          have hpair : m = (.inside kind false, '\\') ∨ m = (.inside kind true, letter) := by
            simpa [Scan.step] using hm
          rcases hpair with rfl | rfl <;> rfl
      · exact ih m hm

/-- A symbol that can be written down is printed as a literal. -/
theorem Symbol.shows_printed {s : Symbol kind} (h : s.WellFormed) :
    Shows (printed s) [printed s] [] := by
  have hderives := Symbol.derives_printed h
  have hclosed := (Symbol.strips_of_derives hderives).closed
  obtain ⟨t, htext, hstar⟩ := Symbol.derives_iff.1 hderives
  rw [htext, List.cons_append] at hclosed ⊢
  refine Shows.literal (fun m hm => ?_) hclosed
  rw [Scan.marks_append, (SymbolKind.strips_of_star hstar).after_eq, List.mem_append] at hm
  rcases hm with hm | hm
  · exact SymbolKind.isEnclosed_of_star hstar m hm
  · obtain rfl := List.mem_singleton.1 hm
    rfl

namespace Expression

variable {e : Expression} {es : List Expression}

/-- In the compact form of an alternative its terms are the literals, and nothing stands between
them. -/
theorem shows_compact (h : e.WellFormed) : Shows e.compact (e.terms.map printed) [] := by
  have hterms := Shows.flatMap fun t ht => Symbol.shows_printed (h.2 t ht)
  rwa [flatMap_nil, ← List.map_eq_flatMap] at hterms

/-- The bars between the alternatives of a right-hand side. -/
def bars (es : List Expression) : List Char := .replicate (es.length - 1) '|'

/-- In that of a right-hand side there are bars besides, one fewer than alternatives. -/
theorem shows_compactAll (hne : es ≠ []) (h : ∀ e ∈ es, e.WellFormed) :
    Shows (compactAll es) ((es.flatMap (·.terms)).map printed) (bars es) := by
  cases es with
  | nil => exact absurd rfl hne
  | cons first further =>
      have hbar : Shows ['|'] [] ['|'] := .char rfl
      have hfirst := shows_compact (h first List.mem_cons_self)
      have hfurther := Shows.flatMap fun e he =>
        hbar.append (shows_compact (h e (List.mem_cons_of_mem first he)))
      have hall := hfirst.append hfurther
      have hbars : (further.flatMap fun _ => ['|'] ++ []) = bars (first :: further) := by
        rw [List.append_nil, ← List.map_eq_flatMap, List.map_const']
        rfl
      rw [hbars] at hall
      rw [compactAll_cons, List.flatMap_cons, List.map_append, List.map_flatMap]
      exact hall

end Expression

/-- The characters of the text of a production that are in no literal, without blanks. -/
def Production.signs (p : Production) : List Char :=
  [':', ':', '='] ++ (Expression.bars p.rhs ++ [';'])

/-- Each production has one semicolon, and a bar for each alternative but the first. -/
theorem Production.count_signs (p : Production) :
    p.signs.count ';' = 1 ∧ p.signs.count '|' = p.rhs.length - 1 := by
  simp [Production.signs, Expression.bars, List.count_replicate]

/-- In the compact form of a production the literals are its symbols, and the rest are the sign, the
bars and the semicolon. -/
theorem Production.shows_compact {p : Production} (h : p.WellFormed) :
    Shows p.compact (p.symbols.map printed) p.signs := by
  obtain ⟨hlhs, hne, hrhs⟩ := h
  have hsign : Shows [':', ':', '='] [] [':', ':', '='] :=
    (Shows.char rfl).append ((Shows.char rfl).append (.char rfl))
  have hsemi : Shows [';'] [] [';'] := .char rfl
  have hall := (Symbol.shows_printed hlhs).append
    (hsign.append ((Expression.shows_compactAll hne hrhs).append hsemi))
  rwa [List.append_nil] at hall

/-- What a scan finds in the compact form of a tree: its symbols, and the signs between them. -/
theorem Grammar.shows_compact {g : Grammar} (h : g.WellFormed) :
    Shows g.compact (g.symbols.map printed) (g.productions.flatMap Production.signs) := by
  have hall := Shows.flatMap fun p hp => Production.shows_compact (h p hp)
  rwa [← List.map_flatMap] at hall

end Compact

/-! ## The texts that are read -/

namespace Grammar

variable {text : String} {g : Grammar}

/-- The same is found in a text that is read, once it is stripped. -/
theorem shows_stripped (h : parse text = .ok g) :
    Shows (Scan.outside.stripped text.toList) (g.symbols.map printed)
      (g.productions.flatMap Production.signs) := by
  rw [(strips_of_derives (parse_eq_ok_iff.1 h)).stripped_eq]
  exact shows_compact (wellFormed_of_parse h).2

/-- The literals of a text that is read are the symbols of its tree. -/
theorem literals_of_parse (h : parse text = .ok g) : literals text = g.symbols.map print := by
  have hfound := (shows_stripped h).literals_eq
  rw [Scan.literals_stripped] at hfound
  rw [literals, hfound, List.map_map]
  exact List.map_congr_left fun _ _ => String.ofList_toList

/-- Besides blanks, only the signs of the productions are in no literal. -/
theorem betweenLiterals_of_parse (h : parse text = .ok g) :
    ((betweenLiterals text).filter fun c => !isBlank c) =
      g.productions.flatMap Production.signs := by
  have hfound := (shows_stripped h).unenclosed_eq
  rwa [Scan.unenclosed_stripped] at hfound

/-- A sign occurs between the literals as often as in the productions. -/
theorem count_betweenLiterals {c : Char} (hc : isBlank c = false) (h : parse text = .ok g) :
    (betweenLiterals text).count c = (g.productions.map fun p => p.signs.count c).sum := by
  have hcount := congrArg (List.count c) (betweenLiterals_of_parse h)
  rw [List.count_filter (by simp [hc]), List.count_flatMap] at hcount
  exact hcount

/-- The text of each production ends with a semicolon, and a bar stands before each of its
alternatives but the first. -/
theorem count_signs_of_parse (h : parse text = .ok g) :
    (betweenLiterals text).count ';' = g.productions.length ∧
      (betweenLiterals text).count '|' = (g.productions.map fun p => p.rhs.length - 1).sum := by
  rw [count_betweenLiterals (by decide) h, count_betweenLiterals (by decide) h]
  simp [Production.count_signs, List.map_const']

/-- A visitor of the symbols alone meets the literals of the text that is read, from left to right.
The productions that are visited are as many as the semicolons outside literals, and the
alternatives as many as those and the bars outside literals. -/
theorem parse_literals (h : parse text = .ok g) :
    (∀ {m : Type → Type} [Monad m] [LawfulMonad m] (f : Term → m Unit),
      (Visitor.ofSymbols f).visitGrammar g = g.symbols.forM f) ∧
    g.symbols.map print = literals text ∧
    g.tally.productions = (betweenLiterals text).count ';' ∧
    g.tally.expressions =
      (betweenLiterals text).count ';' + (betweenLiterals text).count '|' := by
  obtain ⟨hsemi, hbar⟩ := count_signs_of_parse h
  have hne : ∀ p ∈ g.productions, p.rhs ≠ [] := fun p hp => ((wellFormed_of_parse h).2 p hp).2.1
  refine ⟨fun f => Visitor.visitGrammar_ofSymbols f g, (literals_of_parse h).symm, ?_, ?_⟩
  · rw [tally_eq, hsemi]
  · rw [tally_eq, hsemi, hbar]
    exact length_flatMap_of_ne_nil hne

/-- Records the symbols only, each as it is printed. -/
def recordingLiterals : Visitor Recording := .ofSymbols fun t => Recording.line (print t)

/-- Literals that hold signs, brackets and an escaped quote. -/
theorem parse_literals_scattered :
    parse scattered = .ok scatteredTree ∧
    (recordingLiterals.visitGrammar scatteredTree).lines = (literals scattered).toArray ∧
    literals scattered = ["<a b>", "\"c \\\" <;\"", "<e>"] ∧
    scatteredTree.tally.productions = 1 ∧ scatteredTree.tally.expressions = 2 := by
  have hliterals : literals scattered = ["<a b>", "\"c \\\" <;\"", "<e>"] := by decide +kernel
  have hsemi : (betweenLiterals scattered).count ';' = 1 := by decide +kernel
  have hbar : (betweenLiterals scattered).count '|' = 1 := by decide +kernel
  obtain ⟨hvisit, hsymbols, hproductions, hexpressions⟩ := parse_literals parse_scattered
  rw [hsemi] at hproductions
  rw [hsemi, hbar] at hexpressions
  refine ⟨parse_scattered, ?_, hliterals, hproductions, hexpressions⟩
  rw [recordingLiterals, hvisit, ← hsymbols]
  rfl

end Grammar

end BnfText

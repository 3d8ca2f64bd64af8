import BnfText.Proofs.Derivation

/-!
# BnfText.Proofs.Scan

A scan that finds the literals of a text, apart from the rules of the notation.  From left to
right, a quote or an opening angle bracket begins a literal, which goes on to the next closing
delimiter of its kind; inside, a backslash protects the character after it.

* `Scan.marks` — the characters of a text, each with where the scan meets it;
* `strip` — a text without the blanks outside its literals;
* `Scan.Strips` — what a scan makes of a piece of text; pieces that follow one another are scanned
  one after the other (`Scan.Strips.append`).
-/

namespace BnfText

/-- Where a scan stands: outside all literals or in one of a kind, where the character that comes
next may be protected. -/
inductive Scan
  | outside
  | inside (kind : SymbolKind) (protecting : Bool)
deriving DecidableEq

namespace Scan

/-- Where the scan stands after the character `c`. -/
def step : Scan → Char → Scan
  | outside, c =>
    match SymbolKind.ofOpening? c with
    | some kind => inside kind false
    | none => outside
  | inside kind true, _ => inside kind false
  | inside kind false, c =>
    if c = '\\' then inside kind true
    else if c = kind.closing then outside
    else inside kind false

/-- Where the scan stands after the text `t`. -/
def after (s : Scan) (t : List Char) : Scan := t.foldl step s

/-- The characters of a text, each with where the scan stands before it. -/
def marks (s : Scan) : List Char → List (Scan × Char)
  | [] => []
  | c :: cs => (s, c) :: marks (s.step c) cs

/-- Whether a character is a blank outside all literals. -/
def isLoose : Scan × Char → Bool
  | (outside, c) => isBlank c
  | (inside _ _, _) => false

/-- A text that is scanned from `s`, without the blanks outside all literals. -/
def stripped (s : Scan) (t : List Char) : List Char :=
  ((s.marks t).filter fun m => !isLoose m).map Prod.snd

end Scan

/-- A text without the blanks outside its literals. -/
def strip (text : String) : String := String.ofList (Scan.outside.stripped text.toList)

/-- A text at the end of which no literal is open. -/
def Closed (t : List Char) : Prop := Scan.outside.after t = .outside

/-! ## One piece after the other -/

namespace Scan

variable {s s' s'' : Scan} {c : Char} {t u v w : List Char}

@[simp] theorem after_nil (s : Scan) : s.after [] = s := rfl

@[simp] theorem after_cons (s : Scan) (c : Char) (t : List Char) :
    s.after (c :: t) = (s.step c).after t := rfl

/-- A scan goes over two pieces of a text one after the other. -/
@[simp] theorem after_append (s : Scan) (t u : List Char) :
    s.after (t ++ u) = (s.after t).after u := List.foldl_append

@[simp] theorem marks_nil (s : Scan) : s.marks [] = [] := rfl

@[simp] theorem marks_cons (s : Scan) (c : Char) (t : List Char) :
    s.marks (c :: t) = (s, c) :: (s.step c).marks t := rfl

/-- The marks of the second piece begin where the scan stands after the first. -/
theorem marks_append (s : Scan) (t u : List Char) :
    s.marks (t ++ u) = s.marks t ++ (s.after t).marks u := by
  induction t generalizing s with
  | nil => rfl
  | cons c t ih => simp [ih]

theorem stripped_append (s : Scan) (t u : List Char) :
    s.stripped (t ++ u) = s.stripped t ++ (s.after t).stripped u := by
  simp [stripped, marks_append]

/-- A scan that goes over `t` from `s` ends at `s'`, and `v` is what it leaves of `t`. -/
structure Strips (s : Scan) (t v : List Char) (s' : Scan) : Prop where
  after_eq : s.after t = s'
  stripped_eq : s.stripped t = v

namespace Strips

theorem nil (s : Scan) : s.Strips [] [] s := ⟨rfl, rfl⟩

/-- What a scan makes of two pieces is what it makes of each. -/
theorem append (ht : s.Strips t v s') (hu : s'.Strips u w s'') :
    s.Strips (t ++ u) (v ++ w) s'' where
  after_eq := by rw [after_append, ht.after_eq, hu.after_eq]
  stripped_eq := by rw [stripped_append, ht.after_eq, ht.stripped_eq, hu.stripped_eq]

/-- Every character is kept that is no blank outside all literals. -/
theorem char (h : isLoose (s, c) = false) : s.Strips [c] [c] (s.step c) where
  after_eq := rfl
  stripped_eq := by simp [stripped, h]

theorem cons (h : isLoose (s, c) = false) (ht : (s.step c).Strips t v s') :
    s.Strips (c :: t) (c :: v) s' := (char h).append ht

/-- Items of one sort, each of which leaves the scan where it began. -/
theorem star {α : Type} {D : List Char → α → Prop} {f : α → List Char} {as : List α}
    (h : ∀ {t a}, D t a → s.Strips t (f a) s) (hstar : Star D t as) :
    s.Strips t (as.flatMap f) s := by
  induction hstar with
  | nil => exact nil s
  | cons ha _ ih => exact (h ha).append ih

/-- A piece of text that is scanned back to the outside leaves no literal open. -/
theorem closed (h : outside.Strips t v outside) : Closed t := h.after_eq

end Strips

/-! ## Blanks and literals -/

theorem step_blank (h : isBlank c = true) : outside.step c = outside := by
  rcases isBlank_iff.1 h with rfl | rfl | rfl <;> rfl

theorem strips_blanks (h : DerivesBlanks t) : outside.Strips t [] outside := by
  induction t with
  | nil => exact .nil _
  | cons c t ih =>
      have hc : isBlank c = true := isBlank_iff.2 (h c List.mem_cons_self)
      have ht := ih fun d hd => h d (List.mem_cons_of_mem _ hd)
      have hchar : outside.Strips [c] [] outside := ⟨step_blank hc, by simp [stripped, isLoose, hc]⟩
      exact hchar.append ht

/-- The blanks after something are taken away. -/
theorem strips_thenBlanks {α : Type} {D : List Char → α → Prop} {f : α → List Char} {a : α}
    (hD : ∀ {t a}, D t a → outside.Strips t (f a) outside) (h : DerivesThenBlanks D t a) :
    outside.Strips t (f a) outside := by
  cases h with
  | mk ha hb =>
      have hboth := (hD ha).append (strips_blanks hb)
      rwa [List.append_nil] at hboth

end Scan

namespace SymbolKind

variable {kind : SymbolKind} {c : Char} {t : List Char}

theorem isPlain_closing (kind : SymbolKind) : kind.isPlain kind.closing = false := by
  cases kind <;> decide

/-- A plain character neither protects the next one nor ends the literal. -/
theorem step_of_isPlain (h : kind.isPlain c = true) :
    (Scan.inside kind false).step c = .inside kind false := by
  have hback : c ≠ '\\' := fun hc => by simp [hc, isPlain_backslash] at h
  have hclosing : c ≠ kind.closing := fun hc => by simp [hc, isPlain_closing] at h
  simp [Scan.step, hback, hclosing]

/-- A character of a symbol is left as it is written, and the scan stays inside: an escape protects
its own letter. -/
theorem strips_of_derivesChar (h : kind.DerivesChar t c) :
    (Scan.inside kind false).Strips t t (.inside kind false) := by
  rcases derivesChar_iff.1 h with ⟨rfl, hplain⟩ | hescape
  · have hchar := Scan.Strips.char (s := .inside kind false) (c := c) rfl
    rwa [step_of_isPlain hplain] at hchar
  · obtain ⟨letter, rfl, _⟩ := derivesEscape_iff.1 hescape
    exact .cons rfl (.char rfl)

/-- The text of a symbol stays inside the literal that it stands in, and no character of it is
taken away. -/
theorem strips_of_star {cs : List Char} (h : Star kind.DerivesChar t cs) :
    (Scan.inside kind false).Strips t t (.inside kind false) := by
  induction h with
  | nil => exact .nil _
  | cons hc _ ih => exact (strips_of_derivesChar hc).append ih

/-- The opening delimiter of a kind begins a literal of that kind. -/
theorem strips_opening (kind : SymbolKind) :
    Scan.outside.Strips [kind.opening] [kind.opening] (.inside kind false) := by
  cases kind <;> exact .char rfl

theorem strips_closing (kind : SymbolKind) :
    (Scan.inside kind false).Strips [kind.closing] [kind.closing] .outside := by
  cases kind <;> exact .char rfl

/-- The scan of a symbol that has begun. -/
theorem strips_front {cs : List Char} (h : Star kind.DerivesChar t cs) :
    Scan.outside.Strips (kind.opening :: t) (kind.opening :: t) (.inside kind false) :=
  kind.strips_opening.append (strips_of_star h)

end SymbolKind

/-- A symbol is one literal. -/
theorem Symbol.strips_of_derives {kind : SymbolKind} {s : Symbol kind} {t : List Char}
    (h : Symbol.Derives t s) : Scan.outside.Strips t t .outside := by
  obtain ⟨u, rfl, hstar⟩ := Symbol.derives_iff.1 h
  exact (SymbolKind.strips_front hstar).append kind.strips_closing

end BnfText

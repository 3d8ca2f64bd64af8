import BnfText.Output
import BnfText.Grammar.Basic

/-!
# BnfText.Grammar.Printer

The canonical text of a grammar: a production a line, alternatives joined by a bar between
spaces, terms joined by a space, and every symbol between its delimiters with the characters
escaped that have to be.

A tree is printed as it is, also one that no text gives.  The printed form is given as its pieces.
They are what is offered to a sink, whatever joins the items of a list, so long as it writes them in
order: `Grammar.display` and the same of the other nodes are the steps that write a tree, and
`Grammar.writes_display` and the same of the other nodes say which pieces they write.
-/

namespace BnfText

/-- The pieces of the text of a symbol: one a character. -/
def spelledPieces (text : String) : List String := text.toList.map spell

/-- The text of a symbol as it is written between the delimiters. -/
def spelled (text : String) : String := String.join (spelledPieces text)

/-- The pieces of items with a separator between them. -/
def separatedPieces {α : Type} [Printable α] (separator : String) (items : List α) :
    List String := [separator].intercalate (items.map pieces)

instance {kind : SymbolKind} : Printable (Symbol kind) where
  pieces s :=
    String.singleton kind.opening :: spelledPieces s.text ++ [String.singleton kind.closing]

instance : Printable Term where
  pieces t := pieces t.symbol

instance : Printable Expression where
  pieces e := separatedPieces " " e.terms

instance : Printable Production where
  pieces p := pieces p.lhs ++ " ::= " :: separatedPieces " | " p.rhs ++ [";"]

instance : Printable Grammar where
  pieces g := g.productions.flatMap fun p => pieces p ++ ["\n"]

/-! ## Writing a tree -/

section Display

variable {σ : Type} [Sink σ]

/-- Writes the text of a symbol, a piece a character. -/
def writeSpelled (text : String) : Writing σ Unit := text.toList.forM fun c => write (spell c)

/-- Writes a symbol between its delimiters. -/
def Symbol.display {kind : SymbolKind} (s : Symbol kind) : Writing σ Unit := do
  write (String.singleton kind.opening)
  writeSpelled s.text
  write (String.singleton kind.closing)

/-- Writes a term. -/
def Term.display (t : Term) : Writing σ Unit := t.symbol.display

variable (join : Joining)

/-- Writes the terms of an alternative with spaces between them. -/
def Expression.display (e : Expression) : Writing σ Unit := join σ " " (e.terms.map Term.display)

/-- Writes a production, with bars between its alternatives. -/
def Production.display (p : Production) : Writing σ Unit := do
  p.lhs.display
  write " ::= "
  join σ " | " (p.rhs.map (Expression.display join))
  write ";"

/-- Writes a grammar, a production a line. -/
def Grammar.display (g : Grammar) : Writing σ Unit :=
  g.productions.forM fun p => do
    p.display join
    write "\n"

end Display

/-! ## A tree is written as the pieces of its printed form -/

/-- Items with a separator between them are the first one and the others with the separator before
each. -/
theorem intercalate_cons {α : Type} (sep t : List α) (ts : List (List α)) :
    sep.intercalate (t :: ts) = t ++ ts.flatMap (sep ++ ·) := by
  induction ts generalizing t with
  | nil => simp
  | cons u ts ih => simp [List.intercalate_cons_cons, ih]

/-- Separated pieces are those of the first item and those of the others with the separator before
each. -/
theorem separatedPieces_cons {α : Type} [Printable α] (separator : String) (a : α) (as : List α) :
    separatedPieces separator (a :: as) =
      pieces a ++ as.flatMap fun b => separator :: pieces b := by
  rw [separatedPieces, List.map_cons, intercalate_cons, List.flatMap_map]
  rfl

section Writes

variable {σ : Type} [Sink σ]

/-- The text of a symbol is written a piece a character. -/
theorem writes_spelled (text : String) :
    Writes (writeSpelled text : Writing σ Unit) (spelledPieces text) := by
  have hpieces : spelledPieces text = text.toList.flatMap fun c => [spell c] :=
    List.map_eq_flatMap
  rw [hpieces]
  exact writes_forM (fun c => writes_write (spell c)) text.toList

/-- A symbol is written as the pieces of its printed form. -/
theorem Symbol.writes_display {kind : SymbolKind} (s : Symbol kind) :
    Writes (s.display : Writing σ Unit) (pieces s) :=
  (writes_write _).bind ((writes_spelled s.text).bind (writes_write _))

theorem Term.writes_display (t : Term) : Writes (t.display : Writing σ Unit) (pieces t) :=
  t.symbol.writes_display

variable {join : Joining}

/-- Whatever writes items in order writes them as their separated pieces. -/
theorem writes_join (hjoin : join.InOrder) {α : Type} [Printable α] {f : α → Writing σ Unit}
    (h : ∀ a, Writes (f a) (pieces a)) {separator : String} (hne : separator ≠ "") (as : List α) :
    Writes (join σ separator (as.map f)) (separatedPieces separator as) := by
  cases as with
  | nil =>
      rw [List.map_nil, hjoin.nil _ hne]
      exact writes_pure
  | cons a as =>
      rw [List.map_cons, hjoin.cons _ hne, separatedPieces_cons, List.forM_eq_forM, List.forM_map]
      exact (h a).bind (writes_forM (fun b => (writes_write separator).bind (h b)) as)

/-- An alternative is written as the pieces of its printed form, by whatever joins in order. -/
theorem Expression.writes_display (hjoin : join.InOrder) (e : Expression) :
    Writes (e.display join : Writing σ Unit) (pieces e) :=
  writes_join hjoin Term.writes_display (by decide) e.terms

/-- A production is written as the pieces of its printed form, by whatever joins in order. -/
theorem Production.writes_display (hjoin : join.InOrder) (p : Production) :
    Writes (p.display join : Writing σ Unit) (pieces p) := by
  have hrhs : Writes (join σ " | " (p.rhs.map (Expression.display join)))
      (separatedPieces " | " p.rhs) :=
    writes_join hjoin (Expression.writes_display hjoin) (by decide) p.rhs
  have hpieces : pieces p =
      pieces p.lhs ++ ([" ::= "] ++ (separatedPieces " | " p.rhs ++ [";"])) := by simp [pieces]
  rw [hpieces]
  exact p.lhs.writes_display.bind ((writes_write " ::= ").bind (hrhs.bind (writes_write ";")))

/-- A grammar is written as the pieces of its printed form, by whatever joins in order. -/
theorem Grammar.writes_display (hjoin : join.InOrder) (g : Grammar) :
    Writes (g.display join : Writing σ Unit) (pieces g) :=
  writes_forM (fun p => (p.writes_display hjoin).bind (writes_write "\n")) g.productions

end Writes

end BnfText

import BnfText.Data
import BnfText.Grammar.Basic

/-!
# BnfText.Grammar.Data

Grammars as structured data.  Every node is a structure of its parts, a term one of two variants,
which are called after the kind of the symbol; a symbol is stored with its resolved text.  The
`Writer` and the `Reader` say what a structure and a variant look like.
-/

namespace BnfText

/-- The name of a kind in data. -/
def SymbolKind.dataName : SymbolKind → String
  | .terminal => "Terminal"
  | .nonterminal => "Nonterminal"

/-! ## Storing -/

section Storing

variable (W : Writer)

/-- A symbol as data. -/
def Symbol.toData {kind : SymbolKind} (s : Symbol kind) : Data :=
  W.only "text" (W.text s.text)

/-- A term as data. -/
def Term.toData (t : Term) : Data := W.variant t.kind.dataName (t.symbol.toData W)

/-- An alternative as data. -/
def Expression.toData (e : Expression) : Data :=
  W.only "terms" (W.list (e.terms.map (Term.toData W)))

/-- The names of the fields of a production. -/
abbrev Production.fieldNames : List String := ["lhs", "rhs"]

/-- A production as data. -/
def Production.toData (p : Production) : Data :=
  W.struct Production.fieldNames (by decide)
    [p.lhs.toData W, W.list (p.rhs.map (Expression.toData W))].get

/-- A grammar as data. -/
def Grammar.toData (g : Grammar) : Data :=
  W.only "productions" (W.list (g.productions.map (Production.toData W)))

end Storing

/-! ## Reading back -/

section Reading

variable (R : Reader)

/-- The symbol that data say. -/
def Symbol.ofData? (kind : SymbolKind) (d : Data) : Option (Symbol kind) :=
  (R.only? "text" R.text? d).map fun text => ⟨text⟩

/-- The term that data say. -/
def Term.ofData? (d : Data) : Option Term :=
  (R.variant? [.terminal, .nonterminal] SymbolKind.dataName (by decide) (Symbol.ofData? R) d).map
    fun ⟨kind, symbol⟩ => ⟨kind, symbol⟩

/-- The alternative that data say. -/
def Expression.ofData? (d : Data) : Option Expression :=
  (R.only? "terms" (R.list? (Term.ofData? R)) d).map fun terms => ⟨terms⟩

/-- What the fields of a production hold. -/
def Production.FieldType : Fin fieldNames.length → Type
  | ⟨0, _⟩ => Nonterminal
  | ⟨1, _⟩ => List Expression

/-- What the data of a field of a production say. -/
def Production.field? : (i : Fin fieldNames.length) → Data → Option (FieldType i)
  | ⟨0, _⟩ => Symbol.ofData? R .nonterminal
  | ⟨1, _⟩ => R.list? (Expression.ofData? R)

/-- The production that data say. -/
def Production.ofData? (d : Data) : Option Production :=
  (R.struct? fieldNames (by decide) (field? R) d).map
    fun fields => ⟨fields ⟨0, Nat.zero_lt_two⟩, fields ⟨1, Nat.one_lt_two⟩⟩

/-- The grammar that data say. -/
def Grammar.ofData? (d : Data) : Option Grammar :=
  (R.only? "productions" (R.list? (Production.ofData? R)) d).map fun productions => ⟨productions⟩

end Reading

end BnfText

/-!
# BnfText.Position

Places in a text: a byte offset (UTF-8, from zero), a line and a column (both from one, a column
counting characters).  Only a line feed starts a line.

Main statement: stepping over a text character by character ends where counting the text afresh
says (`walk_start`).
-/

namespace BnfText

/-- A place in a text. -/
structure Position where
  /-- The UTF-8 length of what comes before. -/
  byte : Nat
  /-- One more than the line feeds that come before. -/
  line : Nat
  /-- One more than the characters that come before on the same line. -/
  column : Nat
deriving DecidableEq

namespace Position

/-- Where every text begins. -/
def start : Position := ⟨0, 1, 1⟩

instance : Inhabited Position := ⟨start⟩

/-- The place just after the character `c` at `p`. -/
def step (p : Position) (c : Char) : Position where
  byte := p.byte + c.utf8Size
  line := if c = '\n' then p.line + 1 else p.line
  column := if c = '\n' then 1 else p.column + 1

/-- The place just after the text `cs` at `p`. -/
def walk (p : Position) (cs : List Char) : Position := cs.foldl step p

/-- A place is shown as its line and its column. -/
instance : ToString Position where
  toString p := toString p.line ++ ":" ++ toString p.column

/-! ## Counting a text afresh -/

/-- The UTF-8 length of a text. -/
def byteLength : List Char → Nat
  | [] => 0
  | c :: cs => c.utf8Size + byteLength cs

/-- The place at the end of the text `cs`, counted from the text as a whole. -/
def after (cs : List Char) : Position where
  byte := byteLength cs
  line := cs.count '\n' + 1
  column := (cs.reverse.takeWhile (· ≠ '\n')).length + 1

@[simp] theorem byteLength_nil : byteLength [] = 0 := rfl

@[simp] theorem byteLength_cons (c : Char) (cs : List Char) :
    byteLength (c :: cs) = c.utf8Size + byteLength cs := rfl

/-- The UTF-8 length of two texts in a row is the sum of theirs. -/
@[simp] theorem byteLength_append (cs ds : List Char) :
    byteLength (cs ++ ds) = byteLength cs + byteLength ds := by
  induction cs with
  | nil => simp
  | cons c cs ih => simp [ih, Nat.add_assoc]

@[simp] theorem walk_nil (p : Position) : p.walk [] = p := rfl

@[simp] theorem walk_cons (p : Position) (c : Char) (cs : List Char) :
    p.walk (c :: cs) = (p.step c).walk cs := rfl

/-- Two texts in a row are stepped over one after the other. -/
theorem walk_append (p : Position) (cs ds : List Char) :
    p.walk (cs ++ ds) = (p.walk cs).walk ds := List.foldl_append

/-- Counting one character more is one step more. -/
theorem after_concat (cs : List Char) (c : Char) : after (cs ++ [c]) = (after cs).step c := by
  by_cases h : c = '\n' <;> simp [after, step, h]

/-- Stepping over a text ends where counting it says. -/
theorem walk_start (cs : List Char) : start.walk cs = after cs := by
  suffices ∀ ds, (after ds).walk cs = after (ds ++ cs) from this []
  intro ds
  induction cs generalizing ds with
  | nil => simp
  | cons c cs ih => rw [walk_cons, ← after_concat, ih, List.append_assoc, List.singleton_append]

end Position

end BnfText

import BnfText.Error

/-!
# BnfText.Cursor

A place in a text together with the text that is left.  A cursor only moves forward, a character
at a time; `skip n` is where it stands after `n` characters.

Main statement: what a cursor has left, where it stands and what it passed last are those of the
split of the text at the characters skipped (`rest_skip`, `pos_skip`, `prev_skip`).
-/

namespace BnfText

/-- A place in a text and what is left of the text there. -/
structure Cursor where
  /-- The characters that are left. -/
  rest : List Char
  /-- The place of the first of them. -/
  pos : Position
  /-- The place of the character passed last. -/
  prev? : Option Position
deriving DecidableEq

namespace Cursor

/-- The cursor at the beginning of a text. -/
def ofText (text : String) : Cursor := ⟨text.toList, .start, none⟩

/-- The next character; nothing at the end of the text. -/
def peek? (c : Cursor) : Option Char := c.rest.head?

/-- The place of the character passed last, or where the text begins if none was. -/
def prev (c : Cursor) : Position := c.prev?.getD .start

/-- The text that is left. -/
def remaining (c : Cursor) : String := String.ofList c.rest

/-- Whether the text that is left begins with `value`. -/
def startsWith (c : Cursor) (value : String) : Bool := value.toList.isPrefixOf c.rest

/-- The cursor past `n` characters, or past all of them if fewer are left. -/
def skip (c : Cursor) : Nat → Cursor
  | 0 => c
  | n + 1 =>
    match c with
    | ⟨[], _, _⟩ => c
    | ⟨ch :: rest, pos, _⟩ => skip ⟨rest, pos.step ch, some pos⟩ n

/-- The cursor past the next character. -/
def advance (c : Cursor) : Cursor := c.skip 1

/-- A fault at the next character. -/
def fault (c : Cursor) (cause : Cause) : ParseError := ⟨cause, c.pos⟩

/-- The fault that something else than the next character was expected. -/
def unexpected (c : Cursor) (expected : List Expected) : ParseError :=
  c.fault (.unexpected expected c.peek?)

/-! ## Skipping -/

@[simp] theorem skip_zero (c : Cursor) : c.skip 0 = c := rfl

/-- At the end of a text there is nothing more to skip. -/
@[simp] theorem skip_nil (pos : Position) (prev? : Option Position) (n : Nat) :
    skip ⟨[], pos, prev?⟩ n = ⟨[], pos, prev?⟩ := by cases n <;> rfl

@[simp] theorem skip_cons (ch : Char) (rest : List Char) (pos : Position)
    (prev? : Option Position) (n : Nat) :
    skip ⟨ch :: rest, pos, prev?⟩ (n + 1) = skip ⟨rest, pos.step ch, some pos⟩ n := rfl

/-- Skipping a number of characters may be done in two goes. -/
theorem skip_add (c : Cursor) (m n : Nat) : c.skip (m + n) = (c.skip m).skip n := by
  induction m generalizing c with
  | zero => simp
  | succ m ih =>
    obtain ⟨rest, pos, prev?⟩ := c
    cases rest with
    | nil => simp
    | cons ch rest => rw [Nat.succ_add, skip_cons, skip_cons, ih]

/-- What is left after skipping is the text without its first characters. -/
@[simp] theorem rest_skip (c : Cursor) (n : Nat) : (c.skip n).rest = c.rest.drop n := by
  induction n generalizing c with
  | zero => simp
  | succ n ih =>
    obtain ⟨rest, pos, prev?⟩ := c
    cases rest with
    | nil => simp
    | cons ch rest => simp [ih]

/-- Skipping moves the place over the characters that are skipped, one step for each. -/
theorem pos_skip (c : Cursor) (n : Nat) : (c.skip n).pos = c.pos.walk (c.rest.take n) := by
  induction n generalizing c with
  | zero => simp
  | succ n ih =>
    obtain ⟨rest, pos, prev?⟩ := c
    cases rest with
    | nil => simp
    | cons ch rest => simp [ih]

/-- The character passed last stood where the cursor was before it; at the end of the text nothing
more is passed, so `n` has to be smaller than what is left. -/
theorem prev_skip (c : Cursor) {n : Nat} (h : n < c.rest.length) :
    (c.skip (n + 1)).prev? = some (c.skip n).pos := by
  induction n generalizing c with
  | zero =>
    obtain ⟨rest, pos, prev?⟩ := c
    cases rest with
    | nil => simp at h
    | cons ch rest => rfl
  | succ n ih =>
    obtain ⟨rest, pos, prev?⟩ := c
    cases rest with
    | nil => simp at h
    | cons ch rest => exact ih _ (Nat.lt_of_succ_lt_succ h)

end Cursor

end BnfText

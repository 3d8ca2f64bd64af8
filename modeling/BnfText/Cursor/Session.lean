import BnfText.Parser

/-!
# BnfText.Cursor.Session

Requests made to a cursor one after the other.  A request that fails leaves the cursor where the
failing step left it, and the next one goes on from there.  Cursors can be remembered, as many as
are wanted, and gone back to in any order.
-/

namespace BnfText.Cursor

/-- What can be asked of a cursor. -/
inductive Request : Type 1
  /-- The next character, which stays. -/
  | peek
  /-- The next character, which is taken. -/
  | next
  /-- The character after the next `n`, all of which are taken. -/
  | nth (n : Nat)
  /-- The next `n` characters. -/
  | take (n : Nat)
  /-- The place of the character taken last. -/
  | prev
  /-- The text that is left. -/
  | remaining
  /-- Whether `value` comes next. -/
  | startsWith (value : String)
  /-- The characters up to the first one that a test rejects; the test keeps a state. -/
  | takeWhile {σ : Type} (accepts : Char → StateM σ Bool) (state : σ)
  /-- The character `ch`. -/
  | expect (ch : Char)
  /-- The text `value`. -/
  | expectText (value : String)
  /-- The end of the text. -/
  | expectEnd
  /-- The fault that one of `expected` was expected. -/
  | unexpected (expected : List Expected)
  /-- The fault of a cause. -/
  | fault (cause : Cause)
  /-- To remember this cursor. -/
  | save
  /-- To go back to a cursor that is remembered, the one after which `n` more were. -/
  | restore (n : Nat)

/-- What a cursor answers. -/
inductive Reply
  | nothing
  | char (c : Option Char)
  | text (value : String)
  | flag (value : Bool)
  | place (pos : Position)
  /-- The characters taken, and how often the test was asked. -/
  | run (value : String) (calls : Nat)
deriving DecidableEq

/-- A cursor and those that are remembered, the latest first. -/
structure Session where
  cursor : Cursor
  saved : List Cursor
deriving DecidableEq

/-- The test `accepts` with a count of how often it is asked. -/
def counted {σ : Type} (accepts : Char → StateM σ Bool) : Char → StateM (σ × Nat) Bool :=
  fun c (s, calls) =>
    let (accepted, s) := accepts c s
    (accepted, s, calls + 1)

namespace Session

/-- The session that begins at the beginning of a text. -/
def ofText (text : String) : Session := ⟨Cursor.ofText text, []⟩

/-- Answers by a step at the cursor. -/
def read (step : Parser Reply) (s : Session) : Except ParseError Reply × Session :=
  match step s.cursor with
  | .ok reply cursor => (.ok reply, { s with cursor })
  | .error fault cursor => (.error fault, { s with cursor })

/-- Answers by what is known of the cursor. -/
def tell (reply : Cursor → Reply) (s : Session) : Except ParseError Reply × Session :=
  (.ok (reply s.cursor), s)

/-- Answers a request. -/
def act : Request → Session → Except ParseError Reply × Session
  | .peek => read (.char <$> Parser.peek?)
  | .next => read (.char <$> Parser.next?)
  | .nth n => read (.char <$> Parser.nth? n)
  | .take n => read (.text <$> Parser.take n)
  | .prev => tell fun c => .place c.prev
  | .remaining => tell fun c => .text c.remaining
  | .startsWith value => tell fun c => .flag (c.startsWith value)
  | .takeWhile accepts state =>
    read ((fun (value, _, calls) => .run value calls) <$>
      Parser.takeWhileFrom (counted accepts) (state, 0))
  | .expect ch => read ((.char ∘ some) <$> Parser.expect ch)
  | .expectText value => read (.text <$> Parser.expectText value)
  | .expectEnd => read ((fun _ => .nothing) <$> Parser.expectEnd)
  | .unexpected expected => read (Parser.unexpected expected)
  | .fault cause => read (Parser.fail cause)
  | .save => fun s => (.ok .nothing, { s with saved := s.cursor :: s.saved })
  | .restore n => fun s =>
    match s.saved[n]? with
    | some cursor => (.ok (.flag true), { s with cursor })
    | none => (.ok (.flag false), s)

end Session

/-! ## Tests -/

/-- Accepts the characters of a text. -/
def oneOf (chars : String) (c : Char) : StateM Unit Bool := pure (chars.toList.contains c)

/-- Accepts the characters that are not in a text. -/
def noneOf (chars : String) (c : Char) : StateM Unit Bool := pure (!chars.toList.contains c)

/-- Accepts whatever it is asked about, for as often as the number that it keeps says. -/
def countdown (_ : Char) : StateM Nat Bool := fun n => (n != 0, n - 1)

end BnfText.Cursor

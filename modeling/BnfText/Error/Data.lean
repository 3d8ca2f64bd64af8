import BnfText.Data
import BnfText.Error

/-!
# BnfText.Error.Data

Faults as structured data.  A cause is stored under its name, alone if there is nothing more to
tell.
-/

namespace BnfText

section Storing

variable (W : Writer)

/-- A place as data. -/
def Position.toData (p : Position) : Data :=
  W.struct ["byte", "line", "col"] (by decide) [W.nat p.byte, W.nat p.line, W.nat p.column].get

/-- A thing that would have been accepted, as data. -/
def Expected.toData : Expected → Data
  | .char c => W.variant "Char" (W.char c)
  | .endOfInput => W.unit "Eof"

namespace Cause

/-- The name of a cause in data. -/
def dataName : Cause → String
  | .unexpected .. => "UnexpectedCharacter"
  | .invalidEscape _ => "InvalidEscapeSequence"
  | .unterminated _ => "UnterminatedLiteral"
  | .noAlternatives => "EmptyAlternation"
  | .emptyAlternative => "EmptySequence"

/-- What is to be told of a cause besides its name. -/
def content? : Cause → Option Data
  | .unexpected expected actual => some <| W.struct ["expected", "actual"] (by decide)
    [W.list (expected.map (Expected.toData W)), W.optional (actual.map W.char)].get
  | .invalidEscape letter => some (W.char letter)
  | .unterminated closing => some (W.only "delimiter" (W.char closing))
  | .noAlternatives => none
  | .emptyAlternative => none

/-- A cause as data. -/
def toData (cause : Cause) : Data :=
  match cause.content? W with
  | some content => W.variant cause.dataName content
  | none => W.unit cause.dataName

end Cause

/-- A fault as data. -/
def ParseError.toData (e : ParseError) : Data :=
  W.struct ["kind", "pos"] (by decide) [e.cause.toData W, e.pos.toData W].get

end Storing

end BnfText

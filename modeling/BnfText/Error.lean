import BnfText.Position
import BnfText.Unicode.Visible

/-!
# BnfText.Error

Why a text is not a grammar: a cause and the place where it was met.  The wording of every cause
is in this module and nowhere else.
-/

namespace BnfText

/-- Something that would have been accepted where a fault was met. -/
inductive Expected
  | char (c : Char)
  | endOfInput
deriving DecidableEq

/-- The causes of a fault. -/
inductive Cause
  /-- `actual` stands where only one of `expected` may stand; `none` is the end of the text. -/
  | unexpected (expected : List Expected) (actual : Option Char)
  /-- A backslash is followed by a character that names no escape. -/
  | invalidEscape (letter : Char)
  /-- The text ends before the delimiter that closes a symbol. -/
  | unterminated (closing : Char)
  /-- The right-hand side of a production is empty. -/
  | noAlternatives
  /-- An alternative is empty. -/
  | emptyAlternative
deriving DecidableEq

/-- A fault in a text. -/
structure ParseError where
  cause : Cause
  pos : Position
deriving DecidableEq

/-! ## Wording -/

/-- The wording of a thing that would have been accepted. -/
def Expected.message : Expected → String
  | .char c => "'" ++ Unicode.visible c ++ "'"
  | .endOfInput => "end of input"

/-- The wording of what stands where it may not. -/
def Cause.actualMessage : Option Char → String
  | some c => "character '" ++ Unicode.visible c ++ "'"
  | none => "end of input"

/-- The pieces of an enumeration of three things or more: commas, and "or" before the last. -/
def Cause.enumeration : List Expected → List String
  | [] => []
  | [last] => ["or ", last.message]
  | item :: items => item.message :: ", " :: enumeration items

/-- What would have been accepted, in brackets; nothing if there is nothing to tell. -/
def Cause.expectation : List Expected → String
  | [] => ""
  | [item] => " (expected " ++ item.message ++ ")"
  | [first, second] => " (expected " ++ first.message ++ " or " ++ second.message ++ ")"
  | items => " (expected " ++ String.join (enumeration items) ++ ")"

/-- The wording of a cause. -/
def Cause.message : Cause → String
  | .unexpected expected actual =>
    "encountered an unexpected " ++ actualMessage actual ++ expectation expected
  | .invalidEscape letter => "invalid escape sequence '\\" ++ Unicode.visible letter ++ "'"
  | .unterminated '"' => "the terminal is not terminated"
  | .unterminated '>' => "the nonterminal is not terminated"
  | .unterminated closing =>
    "the literal is not terminated (expected '" ++ Unicode.visible closing ++ "')"
  | .noAlternatives => "the production has no alternatives"
  | .emptyAlternative => "an alternative must contain at least one term"

/-- The things that a cause lists as acceptable. -/
def Cause.expected : Cause → List Expected
  | .unexpected expected _ => expected
  | _ => []

/-- The wording of a fault: its place, then its cause. -/
def ParseError.message (e : ParseError) : String :=
  toString e.pos ++ ": " ++ e.cause.message

end BnfText

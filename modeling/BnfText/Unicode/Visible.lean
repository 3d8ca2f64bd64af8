import BnfText.Unicode.Unprintable

/-!
# BnfText.Unicode.Visible

How a single character is shown between quotes in a message, so that a reader can tell which one
it is: quotes, the backslash and the usual controls get a backslash, what does not show is written
by its code point, and everything else stands for itself.

That no two characters are shown alike stands in `BnfText.Proofs.Wording`.
-/

namespace BnfText.Unicode

/-- The code point of `c` in hexadecimal, in lower case and without leading zeros. -/
def codePoint (c : Char) : String := String.ofList (Nat.toDigits 16 c.toNat)

/-- The letter that names `c` after a backslash, for the characters that have one. -/
def visibleLetter? : Char → Option Char
  | '\x00' => some '0'
  | '\t' => some 't'
  | '\r' => some 'r'
  | '\n' => some 'n'
  | '\\' => some '\\'
  | '"' => some '"'
  | '\'' => some '\''
  | _ => none

/-- The spelling of `c` in a message. -/
def visible (c : Char) : String :=
  match visibleLetter? c with
  | some letter => "\\" ++ String.singleton letter
  | none =>
    if isUnprintable c then "\\u\x7b" ++ codePoint c ++ "\x7d" else String.singleton c

end BnfText.Unicode

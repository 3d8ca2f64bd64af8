import BnfText.Grammar.Node
import BnfText.Grammar.Parser

/-!
# BnfText.Grammar.Rule

The rules of the notation, and sessions that read by one rule after the other.  A rule that fails
leaves the cursor where it came to, and the next one goes on from there; reading to the end of the
text ends the session.
-/

namespace BnfText

open BnfText.Parser

/-- The rules of the notation. -/
inductive Rule
  | blanks
  /-- An escape in a symbol that `closing` ends. -/
  | escape (closing : Char)
  /-- The text of a symbol, without the delimiters. -/
  | text (kind : SymbolKind)
  | symbol (kind : SymbolKind)
  | term
  | expression
  /-- The alternatives of a right-hand side. -/
  | expressions
  | production
  | grammar
deriving DecidableEq

/-- What a rule reads. -/
inductive Reading
  | text (value : String)
  | char (c : Char)
  | node (n : Node)
  | expressions (es : List Expression)
deriving DecidableEq

/-- Reads by a rule. -/
def Rule.read : Rule → Parser Reading
  | .blanks => do return .text (← readBlanks)
  | .escape closing => do return .char (← readEscape closing)
  | .text kind => do return .text (← kind.readText)
  | .symbol kind => do return .node (.symbol (← Symbol.read kind))
  | .term => do return .node (.term (← Term.read))
  | .expression => do return .node (.expression (← Expression.read))
  | .expressions => do return .expressions (← Expression.readAll)
  | .production => do return .node (.production (← Production.read))
  | .grammar => do return .node (.grammar (← Grammar.read))

namespace Rule

/-! ## Sessions -/

/-- What can be asked of a session. -/
inductive Request
  /-- To read by a rule. -/
  | rule (rule : Rule)
  /-- To read a grammar that goes to the end of the text, which ends the session. -/
  | toEnd
deriving DecidableEq

/-- What a session answers. -/
inductive Reply
  /-- What a rule read, or the fault, and the place where the session goes on. -/
  | read (outcome : Except ParseError Reading) (pos : Position)
  /-- The grammar that goes to the end of the text, or the fault. -/
  | finished (outcome : Except ParseError Grammar)
  /-- The session has ended before. -/
  | ended

/-- A session is a cursor until it has ended. -/
abbrev Session := Option Cursor

/-- Answers a request. -/
def Session.act : Request → Session → Reply × Session
  | _, none => (.ended, none)
  | .rule rule, some c =>
    match rule.read c with
    | .ok reading c => (.read (.ok reading) c.pos, some c)
    | .error fault c => (.read (.error fault) c.pos, some c)
  | .toEnd, some c =>
    match Grammar.readToEnd c with
    | .ok g _ => (.finished (.ok g), none)
    | .error fault _ => (.finished (.error fault), none)

section Act

variable {rule : Rule} {reading : Reading} {g : Grammar} {e : ParseError} {c c' : Cursor}

/-- A rule that reads something answers with it, and the session goes on after it. -/
theorem Session.act_rule_of_ok (h : rule.read c = .ok reading c') :
    act (.rule rule) (some c) = (.read (.ok reading) c'.pos, some c') := by simp only [act, h]

/-- A rule that fails answers with its fault, and the session goes on where the rule came to. -/
theorem Session.act_rule_of_error (h : rule.read c = .error e c') :
    act (.rule rule) (some c) = (.read (.error e) c'.pos, some c') := by simp only [act, h]

/-- Reading to the end of the text ends the session with the grammar. -/
theorem Session.act_toEnd_of_ok (h : Grammar.readToEnd c = .ok g c') :
    act .toEnd (some c) = (.finished (.ok g), none) := by simp only [act, h]

/-- Reading to the end of the text ends the session with a fault just the same. -/
theorem Session.act_toEnd_of_error (h : Grammar.readToEnd c = .error e c') :
    act .toEnd (some c) = (.finished (.error e), none) := by simp only [act, h]

end Act

/-- Answers requests one after the other. -/
def Session.run : List Request → Session → List Reply × Session
  | [], s => ([], s)
  | request :: requests, s =>
    let (reply, s) := act request s
    let (replies, s) := run requests s
    (reply :: replies, s)

end Rule

end BnfText

import BnfText.Grammar.Rule
import BnfText.Proofs.Session

/-!
# BnfText.Proofs.Resumption

Where a session goes on.  A rule that fails keeps what it has taken, so the next one begins at the
fault; only an escape is reported at its backslash and gone on from after it.  Rule by rule, whether
they fail or not, a text is passed with nothing left out and nothing passed twice.

* `ParseError.resumption` — the place where reading goes on after a fault;
* `Predictive.resumes` — a step that fails stands there;
* `Rule.Session.act_rule`, `Rule.Session.run_passes` — what a rule and what a session passes;
* `Rule.Session.run_resumes` — both together, at every place of a session.
-/

namespace BnfText

open BnfText.Parser

/-! ## After a fault -/

/-- The place where reading goes on after a fault: after the backslash of an escape that is none,
and at any other fault itself. -/
def ParseError.resumption (e : ParseError) : Position :=
  match e.cause with
  | .invalidEscape _ => { e.pos with byte := e.pos.byte + 1, column := e.pos.column + 1 }
  | _ => e.pos

/-- A step that fails stands where reading goes on after its fault, which is not before the place
where it began. -/
theorem Parser.Predictive.resumes {α : Type} {p : Parser α} (hp : Predictive p) {c c' : Cursor}
    {e : ParseError} (h : p c = .error e c') :
    ∃ t, c.Passes t c' ∧ c.pos.byte ≤ e.pos.byte ∧ c'.pos = e.resumption := by
  obtain ⟨cause, pos⟩ := e
  -- Only an escape leaves the cursor beyond its fault, so the other causes are one case.
  cases cause with
  | invalidEscape letter =>
      obtain ⟨t, hpass, _, hpos⟩ := hp.eq_error_escape_iff.1 h
      have hresume : c'.pos = (ParseError.mk (.invalidEscape letter) pos).resumption := by
        rw [hpass.pos, Position.walk_append, ← hpos]
        rfl
      refine ⟨_, hpass, ?_, hresume⟩
      rw [hpos]
      exact c.pos.byte_le_walk t
  | _ =>
      obtain ⟨t, hpass, _, hpos⟩ := (hp.eq_error_at_iff rfl).1 h
      refine ⟨t, hpass, ?_, hpos.symm⟩
      rw [hpos]
      exact hpass.byte_le

/-! ## Rules -/

namespace Rule

/-- Looking one character ahead is enough for every rule. -/
theorem predictive_read (rule : Rule) : Predictive rule.read := by
  cases rule with
  | blanks => exact predictive_readBlanks.bind_pure _
  | escape closing => exact (predictive_readEscape closing).bind_pure _
  | text kind => exact kind.predictive_readText.bind_pure _
  | symbol kind => exact (Symbol.predictive_read kind).bind_pure _
  | term => exact Term.predictive_read.bind_pure _
  | expression => exact Expression.predictive_read.bind_pure _
  | expressions => exact Expression.predictive_readAll.bind_pure _
  | production => exact Production.predictive_read.bind_pure _
  | grammar => exact Grammar.predictive_read.bind_pure _

namespace Session

variable {c c' : Cursor} {e : ParseError}

/-- A rule passes a front of what is left, and if it fails, the session goes on after the fault. -/
theorem act_rule (rule : Rule) (c : Cursor) :
    ∃ outcome c' t, act (.rule rule) (some c) = (.read outcome c'.pos, some c') ∧ c.Passes t c' ∧
      ∀ e, outcome = .error e → c.pos.byte ≤ e.pos.byte ∧ c'.pos = e.resumption := by
  cases h : rule.read c with
  | ok reading c' =>
      obtain ⟨t, hpass, _⟩ := rule.predictive_read.eq_ok_iff.1 h
      exact ⟨.ok reading, c', t, act_rule_of_ok h, hpass, nofun⟩
  | error e c' =>
      obtain ⟨t, hpass, hfault⟩ := rule.predictive_read.resumes h
      refine ⟨.error e, c', t, act_rule_of_error h, hpass, fun e' he => ?_⟩
      cases he
      exact hfault

/-- A fault that ends a session is not before the place where the session was. -/
theorem byte_le_of_act_toEnd (hact : act .toEnd (some c) = (.finished (.error e), none)) :
    c.pos.byte ≤ e.pos.byte := by
  cases h : Grammar.readToEnd c with
  | ok g c' =>
      rw [act_toEnd_of_ok h] at hact
      cases hact
  | error e' c' =>
      rw [act_toEnd_of_error h] at hact
      cases hact
      obtain ⟨_, _, hbyte, _⟩ := Grammar.predictive_readToEnd.resumes h
      exact hbyte

/-- Reading to the end of the text ends a session, whatever comes of it. -/
theorem act_toEnd (c : Cursor) : (act .toEnd (some c)).2 = none := by
  cases h : Grammar.readToEnd c with
  | ok g c' => rw [act_toEnd_of_ok h]
  | error e c' => rw [act_toEnd_of_error h]

/-- A request after which the session goes on passes a front of what is left. -/
theorem act_passes {request : Request} (h : (act request (some c)).2 = some c') :
    ∃ t, c.Passes t c' := by
  cases request with
  | rule rule =>
      obtain ⟨_, _, t, hact, hpass, _⟩ := act_rule rule c
      rw [hact] at h
      cases h
      exact ⟨t, hpass⟩
  | toEnd =>
      rw [act_toEnd] at h
      cases h

/-- A session that has ended stays so. -/
theorem run_none (requests : List Request) : (run requests none).2 = none := by
  induction requests with
  | nil => rfl
  | cons request requests ih => exact ih

/-- As long as it has not ended, a session passes a front of what was left when it began. -/
theorem run_passes {requests : List Request} (h : (run requests (some c)).2 = some c') :
    ∃ t, c.Passes t c' := by
  induction requests generalizing c with
  | nil =>
      cases h
      exact ⟨[], .refl _⟩
  | cons request requests ih =>
      have hrun : (run requests (act request (some c)).2).2 = some c' := h
      cases hact : (act request (some c)).2 with
      -- A session that has ended stays so, and this one has not.
      | none =>
          rw [hact, run_none] at hrun
          cases hrun
      | some d =>
          rw [hact] at hrun
          obtain ⟨t, hpass⟩ := act_passes hact
          obtain ⟨u, hpass'⟩ := ih hrun
          exact ⟨t ++ u, hpass.trans hpass'⟩

/-- Wherever in a text a session begins and whatever has been asked of it, as long as it has not
ended it stands between two parts of the text, and a rule takes just a front of what is left,
whether it fails or not.  After a fault the session goes on where the fault is, only after the
backslash if that begins no escape; and no fault is before the place where the session was. -/
theorem run_resumes (text : String) (start : Nat) (requests : List Request) (c : Cursor)
    (h : (run requests (some ((Cursor.ofText text).skip start))).2 = some c) :
    ∃ front rest, text = front ++ rest ∧ c.StandsBetween front rest ∧
      (∀ rule, ∃ outcome c' taken left,
        act (.rule rule) (some c) = (.read outcome c'.pos, some c') ∧
        rest = taken ++ left ∧ c'.StandsBetween (front ++ taken) left ∧
        c.pos.byte ≤ c'.pos.byte ∧
        ∀ e, outcome = .error e → c.pos.byte ≤ e.pos.byte ∧ c'.pos = e.resumption) ∧
      ∀ e, act .toEnd (some c) = (.finished (.error e), none) → c.pos.byte ≤ e.pos.byte := by
  obtain ⟨skipped, hstart⟩ := ((Cursor.isWithin_ofText text).skip start).exists_passes
  obtain ⟨passed, hpassed⟩ := run_passes h
  have hfront := hstart.trans hpassed
  refine ⟨_, _, hfront.text_eq, hfront.standsBetween, fun rule => ?_, fun e => byte_le_of_act_toEnd⟩
  obtain ⟨outcome, c', t, hact, hpass, hfault⟩ := act_rule rule c
  refine ⟨outcome, c', String.ofList t, String.ofList c'.rest, hact, ?_, ?_, hpass.byte_le, hfault⟩
  · rw [hpass.1, String.ofList_append]
  · rw [← String.ofList_append]
    exact (hfront.trans hpass).standsBetween

/-- A production that fails after its first colon, and an escape that fails there. -/
theorem run_resumes_escape :
    (run [.rule .production] (some (.ofText "<a> :\\d;"))).2 =
      some ((Cursor.ofText "<a> :\\d;").skip 5) ∧
    ∃ c', act (.rule (.escape '>')) (some ((Cursor.ofText "<a> :\\d;").skip 5)) =
        (.read (.error ⟨.invalidEscape 'd', ⟨5, 1, 6⟩⟩) c'.pos, some c') ∧
      c'.pos = ParseError.resumption ⟨.invalidEscape 'd', ⟨5, 1, 6⟩⟩ := by
  have hrun : (run [.rule .production] (some ((Cursor.ofText "<a> :\\d;").skip 0))).2 =
      some ((Cursor.ofText "<a> :\\d;").skip 5) := by decide +kernel
  have hact : (act (.rule (.escape '>')) (some ((Cursor.ofText "<a> :\\d;").skip 5))).1 =
      .read (.error ⟨.invalidEscape 'd', ⟨5, 1, 6⟩⟩) ⟨6, 1, 7⟩ := rfl
  obtain ⟨_, _, _, _, hrule, _⟩ := run_resumes _ 0 _ _ hrun
  obtain ⟨outcome, c', _, _, heq, _, _, _, hfault⟩ := hrule (.escape '>')
  rw [heq] at hact
  obtain ⟨rfl, -⟩ := Reply.read.inj hact
  exact ⟨hrun, c', heq, (hfault _ rfl).2⟩

end Session

end Rule

end BnfText

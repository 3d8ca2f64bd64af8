import BnfText.Proofs.Concatenation
import BnfText.Proofs.Resumption

/-!
# BnfText.Proofs.Relocation

Reading does not depend on what stands before.  The same text is read by two sessions, by one where
it stands alone and by one that has passed another text before it.  They keep step: every request
has the same answer in both, only that places are counted from the beginning of the whole.

* `Cursor.IsAfter` — two cursors with the same text left, but different texts before it;
* `Predictive.relocated` — a step does the same at both;
* `Rule.Session.act_relocated`, `Rule.Session.run_relocated` — and so does a session;
* `Rule.relocated_after` — every rule and every session, at any place of a text.
-/

namespace BnfText

open BnfText.Parser

/-- The cursor `c'` has the same text left as `c`, and its places are those of `c` after `front`. -/
structure Cursor.IsAfter (front : String) (c c' : Cursor) : Prop where
  rest : c'.rest = c.rest
  pos : c'.pos = c.pos.translate front.toList
  one_le_line : 1 ≤ c.pos.line

/-! ## Cursors -/

namespace Cursor

variable {front : String} {c c' : Cursor}

/-- The same number of characters is skipped in both texts. -/
theorem IsAfter.skip (h : c.IsAfter front c') (n : Nat) : (c.skip n).IsAfter front (c'.skip n) := by
  obtain ⟨hrest, hpos, hline⟩ := h
  constructor
  · rw [rest_skip, rest_skip, hrest]
  · rw [pos_skip, pos_skip, hrest, hpos, Position.walk_translate hline]
  · rw [pos_skip]
    exact Position.one_le_line_walk hline _

/-- The beginning of a text and the same place of the text that has `front` before it. -/
theorem isAfter_ofText (front text : String) :
    (ofText text).IsAfter front ((ofText (front ++ text)).skip front.length) := by
  have htext : (ofText (front ++ text)).rest = front.toList ++ text.toList := String.toList_append
  rw [← String.length_toList]
  constructor
  · exact rest_skip_append htext
  · rw [pos_skip_append htext]
    exact (Position.walk_start _).trans (Position.translate_start _).symm
  · exact Nat.le_refl 1

end Cursor

/-! ## Steps -/

/-- Outcomes that agree, only that the places of the second are those of the first after `front`. -/
inductive Parser.Relocated {α : Type} (front : String) :
    EStateM.Result ParseError Cursor α → EStateM.Result ParseError Cursor α → Prop
  | ok {a : α} {c c' : Cursor} (h : c.IsAfter front c') : Relocated front (.ok a c) (.ok a c')
  | error {e : ParseError} {c c' : Cursor} (h : c.IsAfter front c') :
      Relocated front (.error e c) (.error (e.translate front) c')

/-- What a step does is decided by the text that is left. -/
theorem Parser.Predictive.relocated {α : Type} {p : Parser α} (hp : Predictive p) {front : String}
    {c c' : Cursor} (h : c.IsAfter front c') : Relocated front (p c) (p c') := by
  obtain ⟨t, a, w, hrest, hread⟩ | ⟨t, cause, w, hrest, hfail⟩ := hp.reads_or_fails c.rest
  · rw [hread c hrest, hread c' (h.rest.trans hrest)]
    exact .ok (h.skip t.length)
  · rw [hfail c hrest, hfail c' (h.rest.trans hrest), (h.skip t.length).pos]
    exact .error (h.skip (t.length + cause.overrun))

/-! ## Sessions -/

namespace Rule

/-- A reply, once `front` stands before the text. -/
def Reply.translate (front : String) : Reply → Reply
  | .read outcome pos =>
    .read (outcome.mapError (ParseError.translate front)) (pos.translate front.toList)
  | .finished outcome => .finished (outcome.mapError (ParseError.translate front))
  | .ended => .ended

namespace Session

variable {front : String} {s s' : Session}

/-- A request has the same answer in both sessions, and they go on alike. -/
theorem act_relocated (h : Option.Rel (Cursor.IsAfter front) s s') (request : Request) :
    (act request s').1 = (act request s).1.translate front ∧
      Option.Rel (Cursor.IsAfter front) (act request s).2 (act request s').2 := by
  cases h with
  | none => exact ⟨by cases request <;> rfl, by cases request <;> exact .none⟩
  | @some c c' h =>
      cases request with
      | rule rule =>
          -- With the outcomes as variables, only the pairs that agree are left to look at.
          have hboth := rule.predictive_read.relocated h
          generalize hread : rule.read c = outcome, hread' : rule.read c' = outcome' at hboth
          cases hboth with
          | ok hafter =>
              rw [act_rule_of_ok hread, act_rule_of_ok hread', hafter.pos]
              exact ⟨rfl, .some hafter⟩
          | error hafter =>
              rw [act_rule_of_error hread, act_rule_of_error hread', hafter.pos]
              exact ⟨rfl, .some hafter⟩
      | toEnd =>
          have hboth := Grammar.predictive_readToEnd.relocated h
          generalize hread : Grammar.readToEnd c = outcome,
            hread' : Grammar.readToEnd c' = outcome' at hboth
          cases hboth with
          | ok =>
              rw [act_toEnd_of_ok hread, act_toEnd_of_ok hread']
              exact ⟨rfl, .none⟩
          | error =>
              rw [act_toEnd_of_error hread, act_toEnd_of_error hread']
              exact ⟨rfl, .none⟩

/-- Both sessions give the same answers. -/
theorem run_relocated (h : Option.Rel (Cursor.IsAfter front) s s') (requests : List Request) :
    (run requests s').1 = (run requests s).1.map (Reply.translate front) := by
  induction requests generalizing s s' with
  | nil => rfl
  | cons request requests ih =>
      obtain ⟨hreply, hafter⟩ := act_relocated h request
      exact List.cons_eq_cons.2 ⟨hreply, ih hafter⟩

end Session

/-- At the place where a text begins after another one, each rule, and reading to the end, does what
it does at the beginning of that text alone: it returns the same value or reports the same cause,
and leaves the same text, at the places that are those of the text alone after the other one.
Requests made there one after the other are answered alike as well. -/
theorem relocated_after (front text : String) :
    let alone := Cursor.ofText text
    let after := (Cursor.ofText (front ++ text)).skip front.length
    (∀ rule : Rule, Relocated front (rule.read alone) (rule.read after)) ∧
    Relocated front (Grammar.readToEnd alone) (Grammar.readToEnd after) ∧
    ∀ requests, (Session.run requests (some after)).1 =
      (Session.run requests (some alone)).1.map (Reply.translate front) := by
  intro alone after
  have hafter : alone.IsAfter front after := Cursor.isAfter_ofText front text
  refine ⟨fun rule => ?_, ?_, fun requests => ?_⟩
  · exact rule.predictive_read.relocated hafter
  · exact Grammar.predictive_readToEnd.relocated hafter
  · exact Session.run_relocated (.some hafter) requests

end Rule

end BnfText

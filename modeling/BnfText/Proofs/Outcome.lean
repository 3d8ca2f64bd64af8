import BnfText.Parser

/-!
# BnfText.Proofs.Outcome

What a step makes of a text, said without cursors.  A step either reads a front `t` of the text
(`Reads p t a w`, where `w` is what follows) or fails after a front of it (`Fails p t cause w`).
Both hold wherever the text stands, so they compose by appending the fronts.

* `Predictive` — a step whose outcome is decided by the front and by what the reported place
  shows, and that reports what stands there;
* `Cursor.Passes` — the text between two cursors;
* `Predictive.eq_ok_iff`, `Predictive.eq_error_at_iff`, `Predictive.eq_error_escape_iff` — where a
  step that reads or fails leaves the cursor;
* `reads_bind_iff`, `fails_bind_iff` — the outcome of one step after the other;
* `Reads.unique`, `Fails.unique`, `Reads.not_fails` — a text has one outcome.
-/

namespace BnfText

/-! ## Where a fault is reported -/

/-- How far a step stands beyond the place of the fault it reports: an escape is reported at its
backslash, which is taken. -/
def Cause.overrun : Cause → Nat
  | .invalidEscape _ => 1
  | _ => 0

/-- The text `w` shows what the cause says of it. -/
def Cause.StandsAt (w : List Char) : Cause → Prop
  | .unexpected _ actual => w.head? = actual
  | .invalidEscape letter => ∃ w', w = '\\' :: letter :: w'
  | .unterminated _ => w = []
  | .noAlternatives => w.head? = some ';'
  | .emptyAlternative => w.head? = some '|' ∨ w.head? = some ';'

namespace Position

/-- A place moves on by the UTF-8 length of what is walked over. -/
theorem byte_walk (p : Position) (cs : List Char) :
    (p.walk cs).byte = p.byte + byteLength cs := by
  induction cs generalizing p with
  | nil => simp
  | cons c cs ih =>
      rw [walk_cons, ih]
      simp [step, Nat.add_assoc]

/-- Walking never goes back. -/
theorem byte_le_walk (p : Position) (cs : List Char) : p.byte ≤ (p.walk cs).byte := by
  rw [byte_walk]
  exact Nat.le_add_right _ _

/-- A front of a text is determined by where it ends. -/
theorem eq_of_append_eq_of_byteLength_eq {t t' w w' : List Char} (h : t ++ w = t' ++ w')
    (hlen : byteLength t = byteLength t') : t = t' := by
  -- Every character has a byte, so neither front ends before the other.
  induction t generalizing t' with
  | nil =>
      cases t' with
      | nil => rfl
      | cons c t' =>
          have hpos := c.utf8Size_pos
          simp only [byteLength_nil, byteLength_cons] at hlen
          omega
  | cons c t ih =>
      cases t' with
      | nil =>
          have hpos := c.utf8Size_pos
          simp only [byteLength_nil, byteLength_cons] at hlen
          omega
      | cons c' t' =>
          obtain ⟨rfl, htail⟩ := List.cons.inj h
          have hrest : byteLength t = byteLength t' := by
            simp only [byteLength_cons] at hlen
            omega
          rw [ih htail hrest]

end Position

/-- Past the front of a text, the rest of it is left. -/
theorem Cursor.rest_skip_append {c : Cursor} {t w : List Char} (h : c.rest = t ++ w) :
    (c.skip t.length).rest = w := by
  rw [rest_skip, h, List.drop_left]

/-- Past the front of a text, the place has walked over that front. -/
theorem Cursor.pos_skip_append {c : Cursor} {t w : List Char} (h : c.rest = t ++ w) :
    (c.skip t.length).pos = c.pos.walk t := by
  rw [pos_skip, h, List.take_left]

/-- Skipping two fronts in a row is skipping both at once. -/
theorem Cursor.skip_append (c : Cursor) (t u : List Char) :
    c.skip (t ++ u).length = (c.skip t.length).skip u.length := by
  rw [List.length_append, skip_add]

/-- Between the cursors `c` and `c'` stands the text `t`. -/
def Cursor.Passes (c : Cursor) (t : List Char) (c' : Cursor) : Prop :=
  c.rest = t ++ c'.rest ∧ c' = c.skip t.length

section Passes

variable {c c' c'' : Cursor} {t u w : List Char}

theorem Cursor.Passes.refl (c : Cursor) : c.Passes [] c := ⟨rfl, rfl⟩

/-- What is passed between two cursors and on to a third one is passed in one go. -/
theorem Cursor.Passes.trans (h : c.Passes t c') (h' : c'.Passes u c'') :
    c.Passes (t ++ u) c'' := by
  obtain ⟨hrest, hc'⟩ := h
  obtain ⟨hrest', hc''⟩ := h'
  refine ⟨?_, ?_⟩
  · rw [hrest, hrest', List.append_assoc]
  · rw [skip_append, ← hc', hc'']

/-- Skipping a front of the text passes it. -/
theorem Cursor.passes_skip (h : c.rest = t ++ w) : c.Passes t (c.skip t.length) := by
  refine ⟨?_, rfl⟩
  rw [rest_skip_append h, h]

/-- Skipping one character more than a front passes that character too. -/
theorem Cursor.passes_skip_succ {d : Char} (h : c.rest = t ++ d :: w) :
    c.Passes (t ++ [d]) (c.skip (t.length + 1)) := by
  rw [List.append_cons] at h
  have hpass := passes_skip h
  rwa [List.length_append] at hpass

/-- The places at the two ends differ by what is passed between them. -/
theorem Cursor.Passes.pos (h : c.Passes t c') : c'.pos = c.pos.walk t := by
  rw [h.2, pos_skip_append h.1]

/-- The place never goes back. -/
theorem Cursor.Passes.byte_le (h : c.Passes t c') : c.pos.byte ≤ c'.pos.byte := by
  rw [h.pos]
  exact c.pos.byte_le_walk t

/-- What is left in the end is the text after what was passed. -/
theorem Cursor.Passes.rest_eq (h : c.Passes t c') (hrest : c.rest = t ++ w) : c'.rest = w :=
  List.append_cancel_left (h.1.symm.trans hrest)

end Passes

namespace Parser

variable {α β : Type}

/-! ## Outcomes -/

/-- From a place where `t ++ w` is left, `p` takes `t` and returns `a`. -/
def Reads (p : Parser α) (t : List Char) (a : α) (w : List Char) : Prop :=
  ∀ c : Cursor, c.rest = t ++ w → p c = .ok a (c.skip t.length)

/-- From a place where `t ++ w` is left, `p` reports `cause` just after `t`. -/
def Fails (p : Parser α) (t : List Char) (cause : Cause) (w : List Char) : Prop :=
  ∀ c : Cursor, c.rest = t ++ w →
    p c = .error ⟨cause, (c.skip t.length).pos⟩ (c.skip (t.length + cause.overrun))

/-- On `cs` the outcome of `p` is decided by a front and by the character that follows it (the two
characters for an escape), and a fault is what the text shows there. -/
def DecidedAt (p : Parser α) (cs : List Char) : Prop :=
  (∃ t a w, cs = t ++ w ∧ ∀ w', w'.head? = w.head? → Reads p t a w') ∨
  ∃ t cause w, cs = t ++ w ∧ cause.StandsAt w ∧
    ∀ w', w'.take (cause.overrun + 1) = w.take (cause.overrun + 1) → Fails p t cause w'

/-- Looking one character ahead is enough for `p` on every text. -/
def Predictive (p : Parser α) : Prop := ∀ cs : List Char, DecidedAt p cs

/-- A text is read in one way: the front, the value and the rest are determined by the text.  The
front is told by what is left where the cursor stops. -/
theorem Reads.unique {p : Parser α} {t t' w w' : List Char} {a a' : α} (h : Reads p t a w)
    (h' : Reads p t' a' w') (heq : t ++ w = t' ++ w') : t = t' ∧ a = a' ∧ w = w' := by
  let c : Cursor := ⟨t ++ w, .start, none⟩
  have hboth := (h c rfl).symm.trans (h' c heq)
  injection hboth with ha hc
  have hw : w = w' := by
    rw [← Cursor.rest_skip_append (c := c) rfl, hc, Cursor.rest_skip_append heq]
  subst hw
  exact ⟨List.append_cancel_right heq, ha, rfl⟩

/-- A text fails in one way.  The cursor may stop beyond the fault, so here the front is told by the
byte offset that is reported. -/
theorem Fails.unique {p : Parser α} {t t' w w' : List Char} {cause cause' : Cause}
    (h : Fails p t cause w) (h' : Fails p t' cause' w') (heq : t ++ w = t' ++ w') :
    t = t' ∧ cause = cause' ∧ w = w' := by
  let c : Cursor := ⟨t ++ w, .start, none⟩
  have hboth := (h c rfl).symm.trans (h' c heq)
  injection hboth with he _
  injection he with hcause hpos
  have hlen : Position.byteLength t = Position.byteLength t' := by
    have hbyte := congrArg Position.byte hpos
    rw [Cursor.pos_skip_append (c := c) rfl, Cursor.pos_skip_append heq, Position.byte_walk,
      Position.byte_walk] at hbyte
    exact Nat.add_left_cancel hbyte
  have ht : t = t' := Position.eq_of_append_eq_of_byteLength_eq heq hlen
  subst ht
  exact ⟨rfl, hcause, List.append_cancel_left heq⟩

/-- What is read does not fail. -/
theorem Reads.not_fails {p : Parser α} {t t' w w' : List Char} {a : α} {cause : Cause}
    (h : Reads p t a w) (heq : t ++ w = t' ++ w') : ¬ Fails p t' cause w' := by
  intro h'
  let c : Cursor := ⟨t ++ w, .start, none⟩
  have hboth := (h c rfl).symm.trans (h' c heq)
  cases hboth

namespace Predictive

variable {p : Parser α} {t w w' : List Char}

/-- A step that fails goes on failing whatever stands beyond the offending character. -/
theorem fails_congr (hp : Predictive p) {cause : Cause} (h : Fails p t cause w)
    (hw : w'.take (cause.overrun + 1) = w.take (cause.overrun + 1)) : Fails p t cause w' := by
  obtain ⟨t₁, a₁, w₁, heq, h₁⟩ | ⟨t₁, cause₁, w₁, heq, _, h₁⟩ := hp (t ++ w)
  · exact absurd h ((h₁ w₁ rfl).not_fails heq.symm)
  · obtain ⟨rfl, rfl, rfl⟩ := h.unique (h₁ w₁ rfl) heq
    exact h₁ w' hw

/-- The cause reported is what the text shows at the place of the fault. -/
theorem standsAt (hp : Predictive p) {cause : Cause} (h : Fails p t cause w) :
    cause.StandsAt w := by
  obtain ⟨t₁, a₁, w₁, heq, h₁⟩ | ⟨t₁, cause₁, w₁, heq, hstands, h₁⟩ := hp (t ++ w)
  · exact absurd h ((h₁ w₁ rfl).not_fails heq.symm)
  · obtain ⟨rfl, rfl, rfl⟩ := h.unique (h₁ w₁ rfl) heq
    exact hstands

/-- Every text is read or faulty. -/
theorem reads_or_fails (hp : Predictive p) (cs : List Char) :
    (∃ t a w, cs = t ++ w ∧ Reads p t a w) ∨ ∃ t cause w, cs = t ++ w ∧ Fails p t cause w := by
  obtain ⟨t, a, w, heq, h⟩ | ⟨t, cause, w, heq, _, h⟩ := hp cs
  · exact .inl ⟨t, a, w, heq, h w rfl⟩
  · exact .inr ⟨t, cause, w, heq, h w rfl⟩

/-- A step that succeeds has read what it took. -/
theorem reads_of_ok (hp : Predictive p) {c c' : Cursor} {a : α} (h : p c = .ok a c') :
    ∃ t, c.rest = t ++ c'.rest ∧ c' = c.skip t.length ∧ Reads p t a c'.rest := by
  obtain ⟨t, a₁, w, heq, hread⟩ | ⟨t, cause, w, heq, hfail⟩ := hp.reads_or_fails c.rest
  · rw [hread c heq] at h
    injection h with ha hc
    have hrest : c'.rest = w := by rw [← hc, Cursor.rest_skip_append heq]
    rw [hrest, ← ha]
    exact ⟨t, heq, hc.symm, hread⟩
  · rw [hfail c heq] at h
    cases h

/-- A step succeeds just where it reads what it passes. -/
theorem eq_ok_iff (hp : Predictive p) {c c' : Cursor} {a : α} :
    p c = .ok a c' ↔ ∃ t, c.Passes t c' ∧ Reads p t a c'.rest := by
  constructor
  · intro h
    obtain ⟨t, heq, hc, hread⟩ := hp.reads_of_ok h
    exact ⟨t, ⟨heq, hc⟩, hread⟩
  · intro ⟨t, ⟨heq, hc⟩, hread⟩
    rw [hread c heq, ← hc]

/-- A step that reports a fault stands where the fault is, or beyond it by its overrun. -/
theorem eq_error_iff (hp : Predictive p) {c c' : Cursor} {e : ParseError} :
    p c = .error e c' ↔
      ∃ t w, c.rest = t ++ w ∧ Fails p t e.cause w ∧ e.pos = c.pos.walk t ∧
        c' = c.skip (t.length + e.cause.overrun) := by
  constructor
  · intro h
    obtain ⟨t, a, w, heq, hread⟩ | ⟨t, cause, w, heq, hfail⟩ := hp.reads_or_fails c.rest
    · rw [hread c heq] at h
      cases h
    · rw [hfail c heq] at h
      cases h
      exact ⟨t, w, heq, hfail, Cursor.pos_skip_append heq, rfl⟩
  · intro ⟨t, w, heq, hfail, hpos, hc⟩
    rw [hfail c heq, Cursor.pos_skip_append heq, ← hpos, ← hc]

/-- Unless it reports an escape, a step that fails stands where the fault is. -/
theorem eq_error_at_iff (hp : Predictive p) {c c' : Cursor} {cause : Cause} {pos : Position}
    (hcause : cause.overrun = 0) :
    p c = .error ⟨cause, pos⟩ c' ↔
      ∃ t, c.Passes t c' ∧ Fails p t cause c'.rest ∧ pos = c'.pos := by
  rw [hp.eq_error_iff]
  dsimp only
  rw [hcause]
  constructor
  · intro ⟨t, w, hrest, hfail, hpos, hc⟩
    have hpass : c.Passes t c' := by
      rw [hc]
      exact Cursor.passes_skip hrest
    rw [← hpass.rest_eq hrest] at hfail
    exact ⟨t, hpass, hfail, hpos.trans hpass.pos.symm⟩
  · intro ⟨t, hpass, hfail, hpos⟩
    exact ⟨t, c'.rest, hpass.1, hfail, hpos.trans hpass.pos, hpass.2⟩

/-- A step that reports an escape stands after its backslash. -/
theorem eq_error_escape_iff (hp : Predictive p) {c c' : Cursor} {letter : Char} {pos : Position} :
    p c = .error ⟨.invalidEscape letter, pos⟩ c' ↔
      ∃ t, c.Passes (t ++ ['\\']) c' ∧ Fails p t (.invalidEscape letter) ('\\' :: c'.rest) ∧
        pos = c.pos.walk t := by
  rw [hp.eq_error_iff]
  constructor
  · intro ⟨t, w, hrest, hfail, hpos, hc⟩
    obtain ⟨w', rfl⟩ := hp.standsAt hfail
    have hpass : c.Passes (t ++ ['\\']) c' := by
      rw [hc]
      exact Cursor.passes_skip_succ hrest
    rw [List.append_cons] at hrest
    rw [← hpass.rest_eq hrest] at hfail
    exact ⟨t, hpass, hfail, hpos⟩
  · intro ⟨t, hpass, hfail, hpos⟩
    obtain ⟨hrest, hc⟩ := hpass
    rw [← List.append_cons] at hrest
    rw [List.length_append] at hc
    exact ⟨t, _, hrest, hfail, hpos, hc⟩

end Predictive

/-! ## One step after the other -/

section Bind

variable {p : Parser α} {f : α → Parser β} {t u w : List Char} {a : α} {b : β} {cause : Cause}

/-- Once a step has read its front, the next step begins on what follows. -/
theorem Reads.apply_bind (h : Reads p t a (u ++ w)) {c : Cursor} (hc : c.rest = t ++ u ++ w) :
    (p >>= f) c = f a (c.skip t.length) ∧ (c.skip t.length).rest = u ++ w := by
  rw [List.append_assoc] at hc
  refine ⟨?_, Cursor.rest_skip_append hc⟩
  show EStateM.bind p f c = _
  unfold EStateM.bind
  rw [h c hc]

theorem Reads.bind (h : Reads p t a (u ++ w)) (hf : Reads (f a) u b w) :
    Reads (p >>= f) (t ++ u) b w := by
  intro c hc
  obtain ⟨hbind, hrest⟩ := h.apply_bind (f := f) hc
  rw [hbind, hf _ hrest, Cursor.skip_append]

/-- The second step fails after the front that the first one read. -/
theorem Reads.bind_fails (h : Reads p t a (u ++ w)) (hf : Fails (f a) u cause w) :
    Fails (p >>= f) (t ++ u) cause w := by
  intro c hc
  obtain ⟨hbind, hrest⟩ := h.apply_bind (f := f) hc
  rw [hbind, hf _ hrest, Cursor.skip_append, List.length_append, Nat.add_assoc, Cursor.skip_add c]

theorem Fails.bind (h : Fails p t cause w) : Fails (p >>= f) t cause w := by
  intro c hc
  show EStateM.bind p f c = _
  unfold EStateM.bind
  rw [h c hc]

/-- Texts that agree on their first characters agree on the next character, whatever stands before
them. -/
theorem head?_append_of_take_eq {n : Nat} {w' : List Char}
    (h : w'.take (n + 1) = w.take (n + 1)) : (u ++ w').head? = (u ++ w).head? := by
  have hhead : w'.head? = w.head? := by
    have htake := congrArg List.head? h
    rwa [List.head?_take, List.head?_take, if_neg (Nat.succ_ne_zero n),
      if_neg (Nat.succ_ne_zero n)] at htake
  rw [List.head?_append, List.head?_append, hhead]

/-- If the first step is decided on a text and the second on all texts, both together are decided on
it. -/
theorem DecidedAt.bind {cs : List Char} (hp : DecidedAt p cs) (hf : ∀ a, Predictive (f a)) :
    DecidedAt (p >>= f) cs := by
  obtain ⟨t, a, w, rfl, h⟩ | ⟨t, cause, w, rfl, hstands, h⟩ := hp
  · obtain ⟨u, b, w₂, rfl, h₂⟩ | ⟨u, cause, w₂, rfl, hstands, h₂⟩ := hf a w
    · refine .inl ⟨t ++ u, b, w₂, (List.append_assoc ..).symm, fun w' hw => ?_⟩
      have hhead : (u ++ w').head? = (u ++ w₂).head? := by
        rw [List.head?_append, List.head?_append, hw]
      exact (h _ hhead).bind (h₂ w' hw)
    · refine .inr ⟨t ++ u, cause, w₂, (List.append_assoc ..).symm, hstands, fun w' hw => ?_⟩
      exact (h _ (head?_append_of_take_eq hw)).bind_fails (h₂ w' hw)
  · exact .inr ⟨t, cause, w, rfl, hstands, fun w' hw => (h w' hw).bind⟩

/-- Looking one character ahead is enough for two steps if it is for each of them. -/
theorem Predictive.bind (hp : Predictive p) (hf : ∀ a, Predictive (f a)) :
    Predictive (p >>= f) := fun cs => (hp cs).bind hf

/-- Both steps read, the second what the first has left. -/
theorem reads_bind_iff (hp : Predictive p) (hf : ∀ a, Predictive (f a)) {v : List Char} :
    Reads (p >>= f) v b w ↔
      ∃ t u a, v = t ++ u ∧ Reads p t a (u ++ w) ∧ Reads (f a) u b w := by
  constructor
  · intro h
    obtain ⟨t, a, w₁, heq, h₁⟩ | ⟨t, cause, w₁, heq, h₁⟩ := hp.reads_or_fails (v ++ w)
    · obtain ⟨u, b₂, w₂, rfl, h₂⟩ | ⟨u, cause, w₂, rfl, h₂⟩ := (hf a).reads_or_fails w₁
      · rw [← List.append_assoc] at heq
        obtain ⟨rfl, rfl, rfl⟩ := h.unique (h₁.bind h₂) heq
        exact ⟨t, u, a, rfl, h₁, h₂⟩
      · rw [← List.append_assoc] at heq
        exact absurd (h₁.bind_fails h₂) (h.not_fails heq)
    · exact absurd h₁.bind (h.not_fails heq)
  · intro h
    obtain ⟨t, u, a, rfl, h₁, h₂⟩ := h
    exact h₁.bind h₂

/-- The first step fails, or it reads and the second fails. -/
theorem fails_bind_iff (hp : Predictive p) (hf : ∀ a, Predictive (f a)) {v : List Char} :
    Fails (p >>= f) v cause w ↔
      Fails p v cause w ∨
        ∃ t u a, v = t ++ u ∧ Reads p t a (u ++ w) ∧ Fails (f a) u cause w := by
  constructor
  · intro h
    obtain ⟨t, a, w₁, heq, h₁⟩ | ⟨t, cause₁, w₁, heq, h₁⟩ := hp.reads_or_fails (v ++ w)
    · obtain ⟨u, b₂, w₂, rfl, h₂⟩ | ⟨u, cause₂, w₂, rfl, h₂⟩ := (hf a).reads_or_fails w₁
      · rw [← List.append_assoc] at heq
        exact absurd h ((h₁.bind h₂).not_fails heq.symm)
      · rw [← List.append_assoc] at heq
        obtain ⟨rfl, rfl, rfl⟩ := h.unique (h₁.bind_fails h₂) heq
        exact .inr ⟨t, u, a, rfl, h₁, h₂⟩
    · obtain ⟨rfl, rfl, rfl⟩ := h.unique h₁.bind heq
      exact .inl h₁
  · intro hor
    obtain h | ⟨t, u, a, rfl, h₁, h₂⟩ := hor
    · exact h.bind
    · exact h₁.bind_fails h₂

end Bind

/-! ## Looking ahead -/

section Peek

variable {f : Option Char → Parser α} {t w : List Char} {a : α} {cause : Cause}

/-- A step that looks first goes on with the character that stands there. -/
theorem reads_peek?_bind_iff : Reads (peek? >>= f) t a w ↔ Reads (f (t ++ w).head?) t a w := by
  constructor
  · intro h c hc
    rw [← hc]
    exact h c hc
  · intro h c hc
    rw [← hc] at h
    exact h c hc

/-- A fault after a look ahead is one of the step chosen by what was seen. -/
theorem fails_peek?_bind_iff :
    Fails (peek? >>= f) t cause w ↔ Fails (f (t ++ w).head?) t cause w := by
  constructor
  · intro h c hc
    rw [← hc]
    exact h c hc
  · intro h c hc
    rw [← hc] at h
    exact h c hc

/-- A look ahead is decided on a text if the step chosen there is. -/
theorem DecidedAt.peek?_bind {cs : List Char} (h : DecidedAt (f cs.head?) cs) :
    DecidedAt (peek? >>= f) cs := by
  obtain ⟨t, a, w, rfl, h⟩ | ⟨t, cause, w, rfl, hstands, h⟩ := h
  · refine .inl ⟨t, a, w, rfl, fun w' hw => reads_peek?_bind_iff.2 ?_⟩
    have hhead : (t ++ w').head? = (t ++ w).head? := by
      rw [List.head?_append, List.head?_append, hw]
    rw [hhead]
    exact h w' hw
  · refine .inr ⟨t, cause, w, rfl, hstands, fun w' hw => fails_peek?_bind_iff.2 ?_⟩
    rw [head?_append_of_take_eq hw]
    exact h w' hw

end Peek

/-! ## The steps that every other is made of -/

section Primitive

variable {t w : List Char} {a b : α} {cause cause' : Cause} {ch d : Char}

theorem reads_pure (a : α) (w : List Char) : Reads (pure a) [] a w := fun _ _ => rfl

theorem predictive_pure (a : α) : Predictive (pure a) :=
  fun cs => .inl ⟨[], a, cs, rfl, fun w' _ => reads_pure a w'⟩

theorem reads_pure_iff : Reads (pure a) t b w ↔ t = [] ∧ b = a := by
  constructor
  · intro h
    obtain ⟨ht, hb, _⟩ := h.unique (reads_pure a (t ++ w)) rfl
    exact ⟨ht, hb⟩
  · intro h
    obtain ⟨rfl, rfl⟩ := h
    exact reads_pure b w

theorem not_fails_pure : ¬ Fails (pure a) t cause w :=
  (reads_pure a (t ++ w)).not_fails rfl

theorem Predictive.bind_pure {p : Parser α} (hp : Predictive p) (f : α → β) :
    Predictive (p >>= fun a => pure (f a)) := hp.bind fun _ => predictive_pure _

/-- Only the value changes if a step just returns something made of it. -/
theorem reads_bind_pure_iff {p : Parser α} (hp : Predictive p) {f : α → β} {c : β} :
    Reads (p >>= fun a => pure (f a)) t c w ↔ ∃ a, Reads p t a w ∧ c = f a := by
  rw [reads_bind_iff hp fun _ => predictive_pure _]
  constructor
  · intro ⟨t₁, t₂, a, ht, hread, hpure⟩
    obtain ⟨rfl, hc⟩ := reads_pure_iff.1 hpure
    rw [List.append_nil] at ht
    rw [ht]
    exact ⟨a, hread, hc⟩
  · intro ⟨a, hread, hc⟩
    exact ⟨t, [], a, (List.append_nil t).symm, hread, reads_pure_iff.2 ⟨rfl, hc⟩⟩

theorem fails_bind_pure_iff {p : Parser α} (hp : Predictive p) {f : α → β} :
    Fails (p >>= fun a => pure (f a)) t cause w ↔ Fails p t cause w := by
  rw [fails_bind_iff hp fun _ => predictive_pure _]
  constructor
  · intro hor
    obtain hfail | ⟨_, _, _, _, _, hpure⟩ := hor
    · exact hfail
    · exact absurd hpure not_fails_pure
  · exact .inl

/-- A fault that is reported at the next character is reported before anything is taken. -/
theorem fails_fail (h : cause.overrun = 0) (w : List Char) :
    Fails (fail cause : Parser α) [] cause w := by
  intro c _
  rw [h]
  rfl

theorem decidedAt_fail (h : cause.overrun = 0) (hstands : cause.StandsAt w) :
    DecidedAt (fail cause : Parser α) w :=
  .inr ⟨[], cause, w, rfl, hstands, fun w' _ => fails_fail h w'⟩

theorem not_reads_fail : ¬ Reads (fail cause : Parser α) t a w := by
  intro h
  cases h ⟨t ++ w, .start, none⟩ rfl

/-- A reported fault is the only one, and its front is empty. -/
theorem fails_fail_iff (h : cause.overrun = 0) :
    Fails (fail cause : Parser α) t cause' w ↔ t = [] ∧ cause' = cause := by
  constructor
  · intro h'
    obtain ⟨ht, hcause, _⟩ := h'.unique (fails_fail h (t ++ w)) rfl
    exact ⟨ht, hcause⟩
  · intro h
    obtain ⟨rfl, rfl⟩ := h
    exact fails_fail h w

theorem fails_unexpected (expected : List Expected) (w : List Char) :
    Fails (unexpected expected : Parser α) [] (.unexpected expected w.head?) w := by
  intro c hc
  rw [List.nil_append] at hc
  subst hc
  rfl

/-- That a character is unexpected is decided by the character. -/
theorem decidedAt_unexpected (expected : List Expected) (w : List Char) :
    DecidedAt (unexpected expected : Parser α) w := by
  refine .inr ⟨[], .unexpected expected w.head?, w, rfl, rfl, fun w' hw => ?_⟩
  have hhead : w'.head? = w.head? := head?_append_of_take_eq (u := []) hw
  rw [← hhead]
  exact fails_unexpected expected w'

theorem not_reads_unexpected {expected : List Expected} :
    ¬ Reads (unexpected expected : Parser α) t a w := by
  intro h
  cases h ⟨t ++ w, .start, none⟩ rfl

/-- Where a character is unexpected, it is itself part of the fault. -/
theorem fails_unexpected_iff {expected : List Expected} :
    Fails (unexpected expected : Parser α) t cause w ↔
      t = [] ∧ cause = .unexpected expected w.head? := by
  constructor
  · intro h
    obtain ⟨rfl, hcause, _⟩ := h.unique (fails_unexpected expected (t ++ w)) rfl
    exact ⟨rfl, hcause⟩
  · intro h
    obtain ⟨rfl, rfl⟩ := h
    exact fails_unexpected expected w

theorem reads_expect (ch : Char) (w : List Char) : Reads (expect ch) [ch] ch w := by
  intro c hc
  have hpeek : c.peek? = some ch := by rw [Cursor.peek?, hc]; rfl
  unfold expect
  rw [if_pos hpeek]
  rfl

/-- Any other character is the fault, and so is the end of the text. -/
theorem fails_expect (h : w.head? ≠ some ch) :
    Fails (expect ch) [] (.unexpected [.char ch] w.head?) w := by
  intro c hc
  rw [List.nil_append] at hc
  subst hc
  have hpeek : c.peek? ≠ some ch := h
  unfold expect
  rw [if_neg hpeek]
  rfl

theorem predictive_expect (ch : Char) : Predictive (expect ch) := by
  intro cs
  by_cases h : cs.head? = some ch
  · obtain ⟨w, rfl⟩ := List.head?_eq_some_iff.1 h
    exact .inl ⟨[ch], ch, w, rfl, fun w' _ => reads_expect ch w'⟩
  · refine .inr ⟨[], .unexpected [.char ch] cs.head?, cs, rfl, rfl, fun w' hw => ?_⟩
    have hhead : w'.head? = cs.head? := head?_append_of_take_eq (u := []) hw
    rw [← hhead] at h ⊢
    exact fails_expect h

/-- Expecting a character reads that character and returns it. -/
theorem reads_expect_iff : Reads (expect ch) t d w ↔ t = [ch] ∧ d = ch := by
  constructor
  · intro h
    by_cases hhead : (t ++ w).head? = some ch
    · obtain ⟨w', heq⟩ := List.head?_eq_some_iff.1 hhead
      obtain ⟨ht, hd, _⟩ := h.unique (reads_expect ch w') heq
      exact ⟨ht, hd⟩
    · exact absurd (fails_expect hhead) (h.not_fails rfl)
  · intro h
    obtain ⟨rfl, rfl⟩ := h
    exact reads_expect d w

/-- Expecting a character fails at any other one, before anything is taken. -/
theorem fails_expect_iff :
    Fails (expect ch) t cause w ↔
      t = [] ∧ w.head? ≠ some ch ∧ cause = .unexpected [.char ch] w.head? := by
  constructor
  · intro h
    by_cases hhead : (t ++ w).head? = some ch
    · obtain ⟨w', heq⟩ := List.head?_eq_some_iff.1 hhead
      exact absurd h ((reads_expect ch w').not_fails heq.symm)
    · obtain ⟨rfl, hcause, _⟩ := h.unique (fails_expect hhead) rfl
      exact ⟨rfl, hhead, hcause⟩
  · intro hex
    obtain ⟨rfl, h, rfl⟩ := hex
    exact fails_expect h

end Primitive

/-! ## Fixed texts and runs -/

section Run

variable {t w : List Char} {cause : Cause}

theorem predictive_expectAll (chars : List Char) : Predictive (expectAll chars) := by
  induction chars with
  | nil => exact predictive_pure ()
  | cons ch chars ih => exact (predictive_expect ch).bind fun _ => ih

theorem reads_expectAll_iff {chars : List Char} {u : Unit} :
    Reads (expectAll chars) t u w ↔ t = chars := by
  induction chars generalizing t with
  | nil => exact reads_pure_iff.trans ⟨And.left, fun h => ⟨h, rfl⟩⟩
  | cons ch chars ih =>
      unfold expectAll
      rw [reads_bind_iff (predictive_expect ch) fun _ => predictive_expectAll chars]
      constructor
      · intro h
        obtain ⟨t₁, t₂, d, rfl, h₁, h₂⟩ := h
        rw [(reads_expect_iff.1 h₁).1, ih.1 h₂]
        rfl
      · intro h
        subst h
        exact ⟨[ch], chars, ch, rfl, reads_expect ch _, ih.2 rfl⟩

/-- A fixed text fails at the first character that differs. -/
theorem fails_expectAll_iff {chars : List Char} :
    Fails (expectAll chars) t cause w ↔
      ∃ ch rest, chars = t ++ ch :: rest ∧ w.head? ≠ some ch ∧
        cause = .unexpected [.char ch] w.head? := by
  induction chars generalizing t with
  | nil =>
      refine ⟨fun h => absurd h not_fails_pure, ?_⟩
      intro hex
      obtain ⟨ch, rest, h, _⟩ := hex
      cases t <;> cases h
  | cons ch chars ih =>
      unfold expectAll
      rw [fails_bind_iff (predictive_expect ch) fun _ => predictive_expectAll chars]
      constructor
      · intro hor
        obtain h | ⟨t₁, t₂, d, rfl, h₁, h₂⟩ := hor
        · obtain ⟨rfl, hhead, rfl⟩ := fails_expect_iff.1 h
          exact ⟨ch, chars, rfl, hhead, rfl⟩
        · obtain ⟨rfl, rfl⟩ := reads_expect_iff.1 h₁
          obtain ⟨ch', rest, rfl, hhead, rfl⟩ := ih.1 h₂
          exact ⟨ch', rest, rfl, hhead, rfl⟩
      · intro hex
        obtain ⟨ch', rest, h, hhead, rfl⟩ := hex
        cases t with
        | nil =>
            obtain ⟨rfl, rfl⟩ := List.cons.inj h
            exact .inl (fails_expect hhead)
        | cons d t =>
            obtain ⟨rfl, htail⟩ := List.cons.inj h
            refine .inr ⟨[ch], t, ch, rfl, reads_expect ch _, ?_⟩
            exact ih.2 ⟨ch', rest, htail, hhead, rfl⟩

theorem predictive_expectText (value : String) : Predictive (expectText value) :=
  (predictive_expectAll _).bind_pure _

theorem reads_expectText_iff {value s : String} :
    Reads (expectText value) t s w ↔ t = value.toList ∧ s = value := by
  unfold expectText
  rw [reads_bind_pure_iff (predictive_expectAll _)]
  simp only [reads_expectAll_iff, exists_const]

/-- Expecting a text fails where the input differs from it for the first time; what has agreed until
then has been taken. -/
theorem fails_expectText_iff {value : String} :
    Fails (expectText value) t cause w ↔
      ∃ ch rest, value.toList = t ++ ch :: rest ∧ w.head? ≠ some ch ∧
        cause = .unexpected [.char ch] w.head? := by
  unfold expectText
  rw [fails_bind_pure_iff (predictive_expectAll _), fails_expectAll_iff]

end Run
end Parser

end BnfText

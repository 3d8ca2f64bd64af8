import BnfText.Proofs.Derivation
import BnfText.Proofs.Outcome

/-!
# BnfText.Proofs.Repetition

Runs of characters and of items.  A step that goes on for as long as it can reads the texts of a
relation `D` wherever nothing follows that it would have taken too; `Exact p D more` says so, where
`more` are those characters.

* `exact_takeWhile` — the longest run of characters;
* `Repeatable` — items that a repetition can tell apart by the character they begin with;
* `Repeatable.reads_many_iff`, `Repeatable.fails_many_iff` — the outcome of a repetition;
* `Repeatable.exact_first`, `Repeatable.fails_first_iff` — the same of one item and further ones.
-/

namespace BnfText

/-! ## What comes next -/

/-- Whether a text begins with a character that is accepted. -/
def nextIs (accepts : Char → Bool) (w : List Char) : Bool := w.head?.any accepts

@[simp] theorem nextIs_nil (accepts : Char → Bool) : nextIs accepts [] = false := rfl

theorem nextIs_congr {accepts : Char → Bool} {w w' : List Char} (h : w'.head? = w.head?) :
    nextIs accepts w' = nextIs accepts w := by
  rw [nextIs, nextIs, h]

/-- A text that begins with an accepted character goes on doing so. -/
theorem nextIs_append {accepts : Char → Bool} {t : List Char} (h : nextIs accepts t = true)
    (w : List Char) : nextIs accepts (t ++ w) = true := by
  cases t with
  | nil => cases h
  | cons c t => exact h

/-- Of two tests that never hold together, one that holds of the next character excludes the other.
-/
theorem nextIs_false_of_imp {accepts rejects : Char → Bool} {w : List Char}
    (h : ∀ c, accepts c = true → rejects c = false) (hw : nextIs accepts w = true) :
    nextIs rejects w = false := by
  cases w with
  | nil => rfl
  | cons c w => exact h c hw

/-- No character is next if none of those accepted begins the text. -/
theorem nextIs_eq_false_iff {accepts : Char → Bool} {w : List Char} :
    nextIs accepts w = false ↔ ∀ c, w.head? = some c → accepts c = false :=
  Option.any_eq_false accepts w.head?

/-- The test for one character fails where another one comes next, or none. -/
theorem nextIs_char_eq_false {ch : Char} {w : List Char} (h : w.head? ≠ some ch) :
    nextIs (fun c => c = ch) w = false := by
  refine nextIs_eq_false_iff.2 fun c hc => decide_eq_false ?_
  rintro rfl
  exact h hc

/-- Neither of two tests accepts what comes next. -/
theorem nextIs_or {accepts accepts' : Char → Bool} {w : List Char} :
    nextIs (fun c => accepts c || accepts' c) w = false ↔
      nextIs accepts w = false ∧ nextIs accepts' w = false := by
  cases w with
  | nil => simp
  | cons c w => exact Bool.or_eq_false_iff

namespace Parser

variable {α β γ : Type}

/-- `p` reads just the texts of `D`, each where none of the characters `more` follows. -/
def Exact (p : Parser α) (D : List Char → α → Prop) (more : Char → Bool) : Prop :=
  ∀ t a w, Reads p t a w ↔ D t a ∧ nextIs more w = false

/-- What a step returns is derived from what it took. -/
theorem Exact.derives_of_ok {p : Parser α} {D : List Char → α → Prop} {more : Char → Bool}
    (hexact : Exact p D more) (hp : Predictive p) {c c' : Cursor} {a : α} (h : p c = .ok a c') :
    ∃ t, c.rest = t ++ c'.rest ∧ c' = c.skip t.length ∧ D t a := by
  obtain ⟨t, heq, hc, hread⟩ := hp.reads_of_ok h
  exact ⟨t, heq, hc, ((hexact ..).1 hread).1⟩

/-- No character. -/
def never (_ : Char) : Bool := false

/-- What is never accepted is never next. -/
@[simp] theorem nextIs_never (w : List Char) : nextIs never w = false := by
  cases w <;> rfl

/-! ## Runs of characters -/

/-- A test without a state accepts the longest run of characters that satisfy it. -/
theorem acceptedRun_eq (accepts : Char → Bool) (cs : List Char) :
    (acceptedRun (fun ch => pure (accepts ch)) () cs).1 = cs.takeWhile accepts := by
  induction cs with
  | nil => rfl
  | cons ch cs ih =>
      rw [acceptedRun_cons]
      cases h : accepts ch with
      | true => rw [List.takeWhile_cons_of_pos h, ← ih]; rfl
      | false => rw [List.takeWhile_cons_of_neg (by rw [h]; exact Bool.false_ne_true)]; rfl

/-- Taking while a test accepts succeeds everywhere, with the longest such run. -/
theorem takeWhile_apply (accepts : Char → Bool) (c : Cursor) :
    takeWhile accepts c =
      .ok (String.ofList (c.rest.takeWhile accepts))
        (c.skip (c.rest.takeWhile accepts).length) := by
  have hrun := acceptedRun_eq accepts c.rest
  show EStateM.Result.ok (String.ofList (acceptedRun _ () c.rest).1)
    (c.skip (acceptedRun _ () c.rest).1.length) = _
  rw [hrun]

/-- A front of accepted characters is the longest run if no such character follows it. -/
theorem takeWhile_append {accepts : Char → Bool} {t w : List Char}
    (ht : ∀ c ∈ t, accepts c = true) (hw : nextIs accepts w = false) :
    (t ++ w).takeWhile accepts = t := by
  have hstop : w.takeWhile accepts = [] := by
    cases w with
    | nil => rfl
    | cons c w => exact List.takeWhile_cons_of_neg (by rw [show accepts c = false from hw]; simp)
  rw [List.takeWhile_append_of_pos ht, hstop, List.append_nil]

theorem reads_takeWhile {accepts : Char → Bool} {t w : List Char}
    (ht : ∀ c ∈ t, accepts c = true) (hw : nextIs accepts w = false) :
    Reads (takeWhile accepts) t (String.ofList t) w := by
  intro c hc
  rw [takeWhile_apply, hc, takeWhile_append ht hw]

/-- Every text splits after its longest run of accepted characters. -/
theorem exists_run (accepts : Char → Bool) (cs : List Char) :
    ∃ t w, cs = t ++ w ∧ (∀ c ∈ t, accepts c = true) ∧ nextIs accepts w = false := by
  refine ⟨cs.takeWhile accepts, cs.dropWhile accepts, List.takeWhile_append_dropWhile.symm, ?_, ?_⟩
  · intro c hc
    exact List.all_eq_true.1 List.all_takeWhile c hc
  · have hhead := List.head?_dropWhile_not accepts cs
    unfold nextIs
    cases h : (cs.dropWhile accepts).head? with
    | none => rfl
    | some c =>
        rw [h] at hhead
        exact hhead

/-- The character after a run is enough to know that it has ended. -/
theorem predictive_takeWhile (accepts : Char → Bool) : Predictive (takeWhile accepts) := by
  intro cs
  obtain ⟨t, w, rfl, ht, hw⟩ := exists_run accepts cs
  refine .inl ⟨t, String.ofList t, w, rfl, fun w' hhead => ?_⟩
  rw [← nextIs_congr hhead] at hw
  exact reads_takeWhile ht hw

/-- A text is taken just if its characters are accepted and the next one is not. -/
theorem exact_takeWhile (accepts : Char → Bool) :
    Exact (takeWhile accepts) (fun t s => (∀ c ∈ t, accepts c = true) ∧ s = String.ofList t)
      accepts := by
  intro t s w
  constructor
  · intro h
    obtain ⟨t', w', heq, ht', hw'⟩ := exists_run accepts (t ++ w)
    obtain ⟨rfl, rfl, rfl⟩ := h.unique (reads_takeWhile ht' hw') heq
    exact ⟨⟨ht', rfl⟩, hw'⟩
  · intro h
    obtain ⟨⟨ht, rfl⟩, hw⟩ := h
    exact reads_takeWhile ht hw

theorem not_fails_takeWhile {accepts : Char → Bool} {t w : List Char} {cause : Cause} :
    ¬ Fails (takeWhile accepts) t cause w := by
  obtain ⟨t', w', heq, ht', hw'⟩ := exists_run accepts (t ++ w)
  exact (reads_takeWhile ht' hw').not_fails heq.symm

/-! ## Repeated items -/

/-- The items `as` read from `t` one after the other, where `w` is left in the end.  Each begins
with a character that the repetition goes on with. -/
inductive ReadsEach (begins : Char → Bool) (p : Parser α) (w : List Char) :
    List Char → List α → Prop
  | nil : ReadsEach begins p w [] []
  | cons {t u : List Char} {a : α} {as : List α} :
      nextIs begins (t ++ (u ++ w)) = true → Reads p t a (u ++ w) → ReadsEach begins p w u as →
        ReadsEach begins p w (t ++ u) (a :: as)

section Many

variable {begins : Char → Bool} {p : Parser α} {t u w : List Char} {a : α} {as : List α}
  {cause : Cause}

/-- What consumes something does not read the empty text. -/
theorem Reads.ne_nil (h : Reads p t a w) (hp : Consumes p) : t ≠ [] := by
  intro ht
  subst ht
  have hlt := hp.length_lt (h ⟨w, .start, none⟩ rfl)
  exact Nat.lt_irrefl _ hlt

/-- A repetition stops where the next character begins no item. -/
theorem manyFrom_stop {hp : Consumes p} {items : List α} {c : Cursor}
    (h : nextIs begins c.rest = false) :
    manyFrom begins p hp items c = .ok items.reverse c := by
  have hpeek : ¬ c.peek?.any begins = true := by
    rw [show c.peek?.any begins = false from h]
    exact Bool.false_ne_true
  rw [manyFrom, if_neg hpeek]

/-- A repetition goes on after an item that it has read. -/
theorem manyFrom_ok {hp : Consumes p} {items : List α} {c c' : Cursor}
    (h : nextIs begins c.rest = true) (hok : p c = .ok a c') :
    manyFrom begins p hp items c = manyFrom begins p hp (a :: items) c' := by
  have hpeek : c.peek?.any begins = true := h
  rw [manyFrom, if_pos hpeek]
  split
  · next a₁ c₁ h₁ =>
      rw [hok] at h₁
      cases h₁
      rfl
  · next e c₁ h₁ =>
      rw [hok] at h₁
      cases h₁

/-- A repetition fails with an item that it has begun and that fails. -/
theorem manyFrom_error {hp : Consumes p} {items : List α} {c c' : Cursor} {e : ParseError}
    (h : nextIs begins c.rest = true) (herr : p c = .error e c') :
    manyFrom begins p hp items c = .error e c' := by
  have hpeek : c.peek?.any begins = true := h
  rw [manyFrom, if_pos hpeek]
  split
  · next a₁ c₁ h₁ =>
      rw [herr] at h₁
      cases h₁
  · next e₁ c₁ h₁ =>
      rw [herr] at h₁
      cases h₁
      rfl

/-- The items before do not change what a repetition reads after them. -/
theorem manyFrom_eq_many {hp : Consumes p} (items : List α) (c : Cursor) :
    manyFrom begins p hp items c =
      match many begins p hp c with
      | .ok as c' => .ok (items.reverse ++ as) c'
      | .error e c' => .error e c' := by
  -- Induction on the length of the text, which each item makes shorter.
  generalize hn : c.rest.length = n
  induction n using Nat.strongRecOn generalizing c items with
  | _ n ih =>
      unfold many
      cases hnext : nextIs begins c.rest with
      | false => simp [manyFrom_stop hnext]
      | true =>
          cases hitem : p c with
          | error e d => simp only [manyFrom_error hnext hitem]
          | ok a d =>
              have hlt : d.rest.length < n := hn ▸ hp.length_lt hitem
              rw [manyFrom_ok hnext hitem, manyFrom_ok hnext hitem, ih _ hlt (a :: items) d rfl,
                ih _ hlt [a] d rfl]
              cases many begins p hp d <;> simp

/-- A repetition succeeds where no item begins, or after an item where it succeeds after that. -/
theorem many_eq_ok_iff {hp : Consumes p} {c c' : Cursor} {as : List α} :
    many begins p hp c = .ok as c' ↔
      nextIs begins c.rest = false ∧ as = [] ∧ c = c' ∨
        nextIs begins c.rest = true ∧ ∃ a d as', p c = .ok a d ∧
          many begins p hp d = .ok as' c' ∧ as = a :: as' := by
  unfold many
  cases hnext : nextIs begins c.rest with
  | false => simp [manyFrom_stop hnext, eq_comm]
  | true =>
      cases hitem : p c with
      | error e d => simp [manyFrom_error hnext hitem]
      | ok a d =>
          rw [manyFrom_ok hnext hitem, manyFrom_eq_many [a] d]
          constructor
          · intro h
            cases hmore : many begins p hp d with
            | ok as' d' =>
                rw [hmore] at h
                cases h
                exact .inr ⟨rfl, a, d, as', rfl, hmore, rfl⟩
            | error e d' =>
                rw [hmore] at h
                cases h
          · rintro (⟨h, _⟩ | ⟨_, _, _, as', hok, hmore, rfl⟩)
            · cases h
            · cases hok
              have hmany : many begins p hp d = .ok as' c' := hmore
              rw [hmany]
              rfl

/-- A repetition goes on after the items that it has read. -/
theorem ReadsEach.manyFrom_eq (h : ReadsEach begins p w t as) (hp : Consumes p) {c : Cursor}
    (hc : c.rest = t ++ w) (items : List α) :
    manyFrom begins p hp items c =
      manyFrom begins p hp (as.reverse ++ items) (c.skip t.length) := by
  induction h generalizing c items with
  | nil => rfl
  | @cons t u a as hbegins hread _ ih =>
      rw [List.append_assoc] at hc
      have hnext : nextIs begins c.rest = true := by rw [hc]; exact hbegins
      rw [manyFrom_ok hnext (hread c hc), ih (Cursor.rest_skip_append hc), Cursor.skip_append,
        List.reverse_cons, List.append_assoc, List.singleton_append]

/-- Items that are read one by one are read by the repetition if none begins after them. -/
theorem ReadsEach.reads (h : ReadsEach begins p w t as) (hp : Consumes p)
    (hstop : nextIs begins w = false) : Reads (many begins p hp) t as w := by
  intro c hc
  have hrest : nextIs begins (c.skip t.length).rest = false := by
    rw [Cursor.rest_skip_append hc]; exact hstop
  show manyFrom begins p hp [] c = _
  rw [h.manyFrom_eq hp hc, manyFrom_stop hrest, List.append_nil, List.reverse_reverse]

/-- The repetition fails where an item that has begun after others fails. -/
theorem ReadsEach.fails (h : ReadsEach begins p (u ++ w) t as) (hp : Consumes p)
    (hbegins : nextIs begins (u ++ w) = true) (hfail : Fails p u cause w) :
    Fails (many begins p hp) (t ++ u) cause w := by
  intro c hc
  rw [List.append_assoc] at hc
  have hrest := Cursor.rest_skip_append hc
  have hnext : nextIs begins (c.skip t.length).rest = true := by rw [hrest]; exact hbegins
  show manyFrom begins p hp [] c = _
  rw [h.manyFrom_eq hp hc, manyFrom_error hnext (hfail _ hrest), Cursor.skip_append,
    List.length_append, Nat.add_assoc, Cursor.skip_add c]

/-- A repetition reads items up to one that it does not go on with, or up to a faulty one. -/
theorem Predictive.readsEach (hpred : Predictive p) (hp : Consumes p) (begins : Char → Bool)
    (cs : List Char) :
    (∃ t as w, cs = t ++ w ∧ nextIs begins w = false ∧
      ∀ w', w'.head? = w.head? → ReadsEach begins p w' t as) ∨
    ∃ t as u cause w, cs = t ++ (u ++ w) ∧ nextIs begins (u ++ w) = true ∧ cause.StandsAt w ∧
      ∀ w', w'.take (cause.overrun + 1) = w.take (cause.overrun + 1) →
        ReadsEach begins p (u ++ w') t as ∧ Fails p u cause w' := by
  -- Induction on the length of the text, which each item makes shorter.
  generalize hn : cs.length = n
  induction n using Nat.strongRecOn generalizing cs with
  | _ n ih =>
      cases hnext : nextIs begins cs with
      | false => exact .inl ⟨[], [], cs, rfl, hnext, fun _ _ => .nil⟩
      | true =>
          obtain ⟨t, a, w₁, rfl, hread⟩ | ⟨u, cause, w, rfl, hstands, hfail⟩ := hpred cs
          · have ht : t ≠ [] := (hread w₁ rfl).ne_nil hp
            have hlt : w₁.length < n := by
              have hpos := List.length_pos_iff.2 ht
              rw [← hn, List.length_append]
              omega
            have hhead : ∀ v : List Char, nextIs begins (t ++ v) = true := by
              intro v
              cases t with
              | nil => exact absurd rfl ht
              | cons ch t => exact hnext
            -- The item was read with `w₁` after it, and only the first character of `w₁` counts.
            obtain ⟨t₂, as, w, rfl, hstop, heach⟩ |
                ⟨t₂, as, u, cause, w, rfl, hgo, hstands, hout⟩ := ih _ hlt w₁ rfl
            · refine .inl ⟨t ++ t₂, a :: as, w, (List.append_assoc ..).symm, hstop, ?_⟩
              intro w' hw
              have heq : (t₂ ++ w').head? = (t₂ ++ w).head? := by
                rw [List.head?_append, List.head?_append, hw]
              exact .cons (hhead _) (hread _ heq) (heach w' hw)
            · refine .inr ⟨t ++ t₂, a :: as, u, cause, w, (List.append_assoc ..).symm, hgo,
                hstands, ?_⟩
              intro w' hw
              have heq : (t₂ ++ (u ++ w')).head? = (t₂ ++ (u ++ w)).head? := by
                rw [← List.append_assoc, ← List.append_assoc]
                exact head?_append_of_take_eq hw
              obtain ⟨heach, hfail⟩ := hout w' hw
              exact ⟨.cons (hhead _) (hread _ heq) heach, hfail⟩
          · exact .inr ⟨[], [], u, cause, w, rfl, hnext, hstands,
              fun w' hw => ⟨.nil, hfail w' hw⟩⟩

/-- Looking one character ahead is enough for a repetition if it is for its items. -/
theorem Predictive.many (hpred : Predictive p) (hp : Consumes p) :
    Predictive (many begins p hp) := by
  intro cs
  obtain ⟨t, as, w, rfl, hstop, h⟩ | ⟨t, as, u, cause, w, rfl, hgo, hstands, h⟩ :=
    hpred.readsEach hp begins cs
  · refine .inl ⟨t, as, w, rfl, fun w' hw => ?_⟩
    rw [← nextIs_congr hw] at hstop
    exact (h w' hw).reads hp hstop
  · refine .inr ⟨t ++ u, cause, w, (List.append_assoc ..).symm, hstands, fun w' hw => ?_⟩
    rw [← nextIs_congr (head?_append_of_take_eq hw)] at hgo
    obtain ⟨heach, hfail⟩ := h w' hw
    exact heach.fails hp hgo hfail

/-- A repetition reads items one by one until none begins. -/
theorem reads_many_iff (hpred : Predictive p) (hp : Consumes p) :
    Reads (many begins p hp) t as w ↔ ReadsEach begins p w t as ∧ nextIs begins w = false := by
  constructor
  · intro h
    obtain ⟨t₁, as₁, w₁, heq, hstop, h₁⟩ | ⟨t₁, as₁, u, cause, w₁, heq, hgo, _, h₁⟩ :=
      hpred.readsEach hp begins (t ++ w)
    · obtain ⟨rfl, rfl, rfl⟩ := h.unique ((h₁ w₁ rfl).reads hp hstop) heq
      exact ⟨h₁ w rfl, hstop⟩
    · obtain ⟨heach, hfail⟩ := h₁ w₁ rfl
      rw [← List.append_assoc] at heq
      exact absurd (heach.fails hp hgo hfail) (h.not_fails heq)
  · intro ⟨h, hstop⟩
    exact h.reads hp hstop

/-- A repetition fails in an item that has begun, after items that were read one by one. -/
theorem fails_many_iff (hpred : Predictive p) (hp : Consumes p) :
    Fails (many begins p hp) t cause w ↔
      ∃ t₁ u as, t = t₁ ++ u ∧ ReadsEach begins p (u ++ w) t₁ as ∧
        nextIs begins (u ++ w) = true ∧ Fails p u cause w := by
  constructor
  · intro h
    obtain ⟨t₁, as₁, w₁, heq, hstop, h₁⟩ | ⟨t₁, as₁, u, cause, w₁, heq, hgo, _, h₁⟩ :=
      hpred.readsEach hp begins (t ++ w)
    · exact absurd h (((h₁ w₁ rfl).reads hp hstop).not_fails heq.symm)
    · obtain ⟨heach, hfail⟩ := h₁ w₁ rfl
      rw [← List.append_assoc] at heq
      obtain ⟨rfl, rfl, rfl⟩ := h.unique (heach.fails hp hgo hfail) heq
      exact ⟨t₁, u, as₁, rfl, heach, hgo, hfail⟩
  · intro ⟨t₁, u, as, ht, heach, hgo, hfail⟩
    subst ht
    exact heach.fails hp hgo hfail

end Many

/-! ## Items that derive texts -/

/-- Items that a repetition can read one after the other: where it goes on, an item is read
just from the texts of `D`, and the next item is not taken for more of the last. -/
structure Repeatable (begins : Char → Bool) (p : Parser α) (D : List Char → α → Prop)
    (more : Char → Bool) : Prop where
  consumes : Consumes p
  predictive : Predictive p
  exact : ∀ {t a w}, nextIs begins (t ++ w) = true →
    (Reads p t a w ↔ D t a ∧ nextIs more w = false)
  begins_of_derives : ∀ {t a}, D t a → nextIs begins t = true
  more_of_begins : ∀ {c}, begins c = true → more c = false

namespace Repeatable

variable {begins more : Char → Bool} {p : Parser α} {D : List Char → α → Prop}
  {t u v w : List Char} {a : α} {as : List α} {cause : Cause}

/-- Nothing is taken for more of an item where another item begins. -/
theorem nextIs_more_of_star (h : Repeatable begins p D more) (hstar : Star D t as)
    (hw : as = [] → nextIs more w = false) : nextIs more (t ++ w) = false := by
  cases hstar with
  | nil => exact hw rfl
  | cons ha _ =>
      rw [List.append_assoc]
      exact nextIs_false_of_imp (fun _ => h.more_of_begins)
        (nextIs_append (h.begins_of_derives ha) _)

/-- If items can be told apart by the character they begin with, reading one by one is a run of
derivations, and only the last item is concerned with what follows. -/
theorem readsEach_iff (h : Repeatable begins p D more) :
    ReadsEach begins p w t as ↔ Star D t as ∧ (as ≠ [] → nextIs more w = false) := by
  constructor
  · intro heach
    induction heach with
    | nil => exact ⟨.nil, fun hne => absurd rfl hne⟩
    | cons hbegins hread _ ih =>
        obtain ⟨ha, hmore⟩ := (h.exact hbegins).1 hread
        refine ⟨.cons ha ih.1, fun _ => ?_⟩
        by_cases has : ‹List α› = []
        · subst has
          rwa [ih.1.eq_nil] at hmore
        · exact ih.2 has
  · intro ⟨hstar, hw⟩
    induction hstar with
    | nil => exact .nil
    | cons ha hstar ih =>
        have hmore := hw (List.cons_ne_nil _ _)
        have hbegins := nextIs_append (h.begins_of_derives ha)
        refine .cons (hbegins _) ((h.exact (hbegins _)).2 ⟨ha, ?_⟩) (ih fun _ => hmore)
        exact h.nextIs_more_of_star hstar fun _ => hmore

/-- Looking one character ahead is enough for a repetition of such items. -/
theorem predictive_many (h : Repeatable begins p D more) :
    Predictive (many begins p h.consumes) := h.predictive.many h.consumes

/-- A repetition of such items reads a run of derivations after which neither the last item goes on
nor another one begins. -/
theorem reads_many_iff (h : Repeatable begins p D more) :
    Reads (many begins p h.consumes) t as w ↔
      Star D t as ∧ (as ≠ [] → nextIs more w = false) ∧ nextIs begins w = false := by
  rw [Parser.reads_many_iff h.predictive h.consumes, h.readsEach_iff, and_assoc]

/-- A repetition fails in an item that begins after others. -/
theorem fails_many_iff (h : Repeatable begins p D more) :
    Fails (many begins p h.consumes) v cause w ↔
      ∃ t u as, v = t ++ u ∧ Star D t as ∧ nextIs begins (u ++ w) = true ∧ Fails p u cause w := by
  rw [Parser.fails_many_iff h.predictive h.consumes]
  constructor
  · intro ⟨t, u, as, hv, heach, hgo, hfail⟩
    exact ⟨t, u, as, hv, (h.readsEach_iff.1 heach).1, hgo, hfail⟩
  · intro ⟨t, u, as, hv, hstar, hgo, hfail⟩
    have hmore := nextIs_false_of_imp (fun _ => h.more_of_begins) hgo
    exact ⟨t, u, as, hv, h.readsEach_iff.2 ⟨hstar, fun _ => hmore⟩, hgo, hfail⟩

/-! ### One item and further ones -/

variable {p₀ : Parser β} {D₀ : List Char → β → Prop} {f : β → List α → γ}

/-- Looking one character ahead is enough for one item and further ones. -/
theorem predictive_first (h : Repeatable begins p D more) (hp₀ : Predictive p₀)
    (f : β → List α → γ) :
    Predictive (p₀ >>= fun b => many begins p h.consumes >>= fun as => pure (f b as)) :=
  hp₀.bind fun _ => h.predictive_many.bind_pure _

/-- One item and further ones are read exactly: the text is one of the first rule and a run of the
second, and nothing follows that either would have taken too. -/
theorem exact_first (h : Repeatable begins p D more) (hp₀ : Predictive p₀)
    (hexact : Exact p₀ D₀ more) :
    Exact (p₀ >>= fun b => many begins p h.consumes >>= fun as => pure (f b as))
      (fun v c => ∃ t u b as, v = t ++ u ∧ D₀ t b ∧ Star D u as ∧ c = f b as)
      (fun ch => more ch || begins ch) := by
  intro v c w
  rw [reads_bind_iff hp₀ fun _ => h.predictive_many.bind_pure _, nextIs_or]
  constructor
  · intro ⟨t, u, b, hv, hfirst, hrest⟩
    obtain ⟨as, hmany, rfl⟩ := (reads_bind_pure_iff h.predictive_many).1 hrest
    obtain ⟨hb, hmore₀⟩ := (hexact ..).1 hfirst
    obtain ⟨hstar, hmore, hstop⟩ := h.reads_many_iff.1 hmany
    refine ⟨⟨t, u, b, as, hv, hb, hstar, rfl⟩, ?_, hstop⟩
    by_cases has : as = []
    · subst has
      rwa [hstar.eq_nil] at hmore₀
    · exact hmore has
  · intro ⟨⟨t, u, b, as, hv, hb, hstar, hc⟩, hmore, hstop⟩
    subst hc
    refine ⟨t, u, b, hv, (hexact ..).2 ⟨hb, ?_⟩, ?_⟩
    · exact h.nextIs_more_of_star hstar fun _ => hmore
    · have hmany := h.reads_many_iff.2 ⟨hstar, fun _ => hmore, hstop⟩
      exact (reads_bind_pure_iff h.predictive_many).2 ⟨as, hmany, rfl⟩

/-- One item and further ones fail in the first one or in one of the others, after a run of those
before it. -/
theorem fails_first_iff (h : Repeatable begins p D more) (hp₀ : Predictive p₀)
    (hexact : Exact p₀ D₀ more) :
    Fails (p₀ >>= fun b => many begins p h.consumes >>= fun as => pure (f b as)) v cause w ↔
      Fails p₀ v cause w ∨
        ∃ t u s b as, v = t ++ (u ++ s) ∧ D₀ t b ∧ Star D u as ∧
          nextIs begins (s ++ w) = true ∧ Fails p s cause w := by
  rw [fails_bind_iff hp₀ fun _ => h.predictive_many.bind_pure _]
  constructor
  · intro hor
    cases hor with
    | inl hfail => exact .inl hfail
    | inr hex =>
        obtain ⟨t, u', b, hv, hfirst, hrest⟩ := hex
        rw [fails_bind_pure_iff h.predictive_many] at hrest
        obtain ⟨u, s, as, rfl, hstar, hgo, hfail⟩ := h.fails_many_iff.1 hrest
        exact .inr ⟨t, u, s, b, as, hv, ((hexact ..).1 hfirst).1, hstar, hgo, hfail⟩
  · intro hor
    cases hor with
    | inl hfail => exact .inl hfail
    | inr hex =>
        obtain ⟨t, u, s, b, as, hv, hb, hstar, hgo, hfail⟩ := hex
        have hmore := nextIs_false_of_imp (fun _ => h.more_of_begins) hgo
        refine .inr ⟨t, u ++ s, b, hv, (hexact ..).2 ⟨hb, ?_⟩, ?_⟩
        · rw [List.append_assoc]
          exact h.nextIs_more_of_star hstar fun _ => hmore
        · rw [fails_bind_pure_iff h.predictive_many]
          exact h.fails_many_iff.2 ⟨u, s, as, rfl, hstar, hgo, hfail⟩

/-- Where all items are alike, reading fails in one that is due after any number of others. -/
theorem fails_some_iff {f : α → List α → γ} (h : Repeatable begins p D more)
    (hexact : Exact p D more) :
    Fails (p >>= fun a => many begins p h.consumes >>= fun as => pure (f a as)) v cause w ↔
      ∃ t u as, v = t ++ u ∧ Star D t as ∧ (as ≠ [] → nextIs begins (u ++ w) = true) ∧
        Fails p u cause w := by
  rw [h.fails_first_iff h.predictive hexact]
  constructor
  · intro hor
    cases hor with
    | inl hfail => exact ⟨[], v, [], rfl, .nil, fun hne => absurd rfl hne, hfail⟩
    | inr hex =>
        obtain ⟨t, u, s, a, as, hv, ha, hstar, hgo, hfail⟩ := hex
        rw [← List.append_assoc] at hv
        exact ⟨t ++ u, s, a :: as, hv, .cons ha hstar, fun _ => hgo, hfail⟩
  · intro ⟨t, u, as, hv, hstar, hgo, hfail⟩
    cases hstar with
    | nil =>
        rw [hv]
        exact .inl hfail
    | @cons t₁ t₂ a as ha hstar =>
        rw [List.append_assoc] at hv
        exact .inr ⟨t₁, t₂, u, a, as, hv, ha, hstar, hgo (List.cons_ne_nil _ _), hfail⟩

end Repeatable

end Parser

end BnfText

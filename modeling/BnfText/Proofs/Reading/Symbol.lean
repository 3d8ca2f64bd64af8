import BnfText.Symbol.Parser
import BnfText.Proofs.Repetition

/-!
# BnfText.Proofs.Reading.Symbol

Reading a symbol against the rules that derive it.

* `Symbol.exact_read` — a symbol is read just from the texts of its rule, whatever follows;
* `SymbolKind.Fault` — the faults that the text of a symbol can have once it has begun;
* `Symbol.fails_read_iff` — reading fails at just these, or where no symbol begins.
-/

namespace BnfText

open BnfText.Parser

/-! ## Escapes -/

section Escape

variable {closing c : Char} {t w : List Char} {cause : Cause}

/-- At a backslash with a letter after it, the letter decides; a letter that means nothing is
reported at the backslash and left. -/
theorem readEscape_apply {letter : Char} {rest : List Char} {cur : Cursor}
    (hc : cur.rest = '\\' :: letter :: rest) :
    readEscape closing cur =
      match unescape? letter with
      | some c => .ok c (cur.skip 2)
      | none => .error (cur.fault (.invalidEscape letter)) (cur.skip 1) := by
  obtain ⟨_, pos, prev?⟩ := cur
  cases hc
  show (match unescape? letter with | some c => _ | none => _ : Parser Char) _ = _
  cases unescape? letter with
  | none => rfl
  | some c => rfl

/-- An escape with a letter that means something is read as the character meant. -/
theorem reads_readEscape {letter : Char} (h : unescape? letter = some c) (w : List Char) :
    Reads (readEscape closing) ['\\', letter] c w := by
  intro cur hc
  rw [readEscape_apply hc, h]
  rfl

/-- An escape with another letter fails at its backslash, though the backslash has been taken. -/
theorem fails_readEscape_invalid {letter : Char} (h : unescape? letter = none) (w : List Char) :
    Fails (readEscape closing) [] (.invalidEscape letter) ('\\' :: letter :: w) := by
  intro cur hc
  rw [readEscape_apply hc, h]
  rfl

/-- A backslash at the end of the text leaves the symbol unterminated. -/
theorem fails_readEscape_unterminated :
    Fails (readEscape closing) ['\\'] (.unterminated closing) [] := by
  intro ⟨_, pos, prev?⟩ hc
  cases hc
  rfl

/-- An escape needs a backslash. -/
theorem fails_readEscape_unexpected (h : w.head? ≠ some '\\') :
    Fails (readEscape closing) [] (.unexpected [.char '\\'] w.head?) w := by
  intro cur hc
  exact (fails_expect h).bind cur hc

/-- The letter after the backslash decides, and a fault shows both characters. -/
theorem predictive_readEscape (closing : Char) : Predictive (readEscape closing) := by
  intro cs
  by_cases h : cs.head? = some '\\'
  · obtain ⟨rest, rfl⟩ := List.head?_eq_some_iff.1 h
    cases rest with
    | nil =>
        refine .inr ⟨['\\'], .unterminated closing, [], rfl, rfl, fun w' hw => ?_⟩
        have hnil : w' = [] := by simpa using hw
        rw [hnil]
        exact fails_readEscape_unterminated
    | cons letter rest =>
        cases hl : unescape? letter with
        | some c => exact .inl ⟨['\\', letter], c, rest, rfl, fun w' _ => reads_readEscape hl w'⟩
        | none =>
            refine .inr ⟨[], .invalidEscape letter, _, rfl, ⟨rest, rfl⟩, fun w' hw => ?_⟩
            obtain ⟨w'', rfl⟩ : ∃ w'', w' = '\\' :: letter :: w'' := by
              refine ⟨w'.drop 2, ?_⟩
              rw [← List.take_append_drop 2 w', show w'.take 2 = ['\\', letter] from hw]
              rfl
            exact fails_readEscape_invalid hl w''
  · refine .inr ⟨[], .unexpected [.char '\\'] cs.head?, cs, rfl, rfl, fun w' hw => ?_⟩
    have hhead : w'.head? = cs.head? := head?_append_of_take_eq (u := []) hw
    rw [← hhead] at h ⊢
    exact fails_readEscape_unexpected h

/-- The escapes that are read are those that can be derived. -/
theorem exact_readEscape (closing : Char) : Exact (readEscape closing) DerivesEscape never := by
  intro t c w
  rw [derivesEscape_iff]
  constructor
  · intro h
    refine ⟨?_, nextIs_never w⟩
    by_cases hhead : (t ++ w).head? = some '\\'
    · obtain ⟨rest, heq⟩ := List.head?_eq_some_iff.1 hhead
      cases rest with
      | nil => exact absurd fails_readEscape_unterminated (h.not_fails heq)
      | cons letter rest =>
          cases hl : unescape? letter with
          | some d =>
              obtain ⟨rfl, rfl, _⟩ := h.unique (reads_readEscape hl rest) heq
              exact ⟨letter, rfl, hl⟩
          | none => exact absurd (fails_readEscape_invalid hl rest) (h.not_fails heq)
    · exact absurd (fails_readEscape_unexpected hhead) (h.not_fails rfl)
  · intro ⟨⟨letter, ht, hl⟩, _⟩
    subst ht
    exact reads_readEscape hl w

/-- Where an escape begins it fails for the end of the text or for its letter. -/
theorem fails_readEscape_iff (hhead : (t ++ w).head? = some '\\') :
    Fails (readEscape closing) t cause w ↔
      (t = ['\\'] ∧ w = [] ∧ cause = .unterminated closing) ∨
        ∃ letter w', t = [] ∧ w = '\\' :: letter :: w' ∧ unescape? letter = none ∧
          cause = .invalidEscape letter := by
  constructor
  · intro h
    obtain ⟨rest, heq⟩ := List.head?_eq_some_iff.1 hhead
    cases rest with
    | nil =>
        obtain ⟨rfl, rfl, rfl⟩ := h.unique fails_readEscape_unterminated heq
        exact .inl ⟨rfl, rfl, rfl⟩
    | cons letter rest =>
        cases hl : unescape? letter with
        | some d => exact absurd h ((reads_readEscape hl rest).not_fails heq.symm)
        | none =>
            obtain ⟨rfl, rfl, rfl⟩ := h.unique (fails_readEscape_invalid hl rest) heq
            exact .inr ⟨letter, rest, rfl, rfl, hl, rfl⟩
  · intro h
    obtain ⟨rfl, rfl, rfl⟩ | ⟨letter, w', rfl, rfl, hl, rfl⟩ := h
    · exact fails_readEscape_unterminated
    · exact fails_readEscape_invalid hl w'

end Escape

/-! ## The text of a symbol -/

namespace SymbolKind

variable {kind : SymbolKind} {c : Char} {s : String} {t w : List Char} {cause : Cause}

/-- A symbol goes on with the characters that it takes as they stand. -/
theorem goesOn_of_isPlain (h : kind.isPlain c = true) : kind.goesOn c = true := by
  rw [goesOn, h, Bool.or_true]

/-- The backslash is the only other character that a symbol goes on with. -/
theorem isPlain_of_goesOn (h : kind.goesOn c = true) (hc : c ≠ '\\') : kind.isPlain c = true := by
  simpa [goesOn, hc] using h

/-- A closing delimiter may not stand in the text it closes. -/
theorem goesOn_closing (kind : SymbolKind) : kind.goesOn kind.closing = false := by
  cases kind <;> decide

/-- The next character decides between an escape and a character that is taken as it stands. -/
theorem predictive_readChar (kind : SymbolKind) : Predictive kind.readChar := by
  intro cs
  refine DecidedAt.peek?_bind ?_
  split
  · exact predictive_readEscape _ cs
  · exact predictive_expect _ cs
  · next h =>
      rw [List.head?_eq_none_iff.1 h]
      exact decidedAt_fail rfl rfl

/-- At a backslash an escape is read, at a plain character the character. -/
theorem reads_readChar_iff (hnext : nextIs kind.goesOn (t ++ w) = true) :
    Reads kind.readChar t c w ↔ kind.DerivesChar t c := by
  unfold readChar
  rw [reads_peek?_bind_iff, derivesChar_iff]
  split
  · next h =>
      rw [exact_readEscape kind.closing t c w]
      constructor
      · exact fun h => .inr h.1
      · intro hor
        cases hor with
        | inl hplain =>
            obtain ⟨rfl, hplain⟩ := hplain
            obtain rfl : c = '\\' := Option.some.inj h
            rw [isPlain_backslash] at hplain
            cases hplain
        | inr hesc => exact ⟨hesc, nextIs_never w⟩
  · next d hne h =>
      rw [reads_expect_iff]
      obtain ⟨cs, heq⟩ := List.head?_eq_some_iff.1 h
      rw [heq] at hnext
      have hd : d ≠ '\\' := fun hd => hne (by rw [hd])
      constructor
      · intro ⟨ht, hc⟩
        subst ht hc
        exact .inl ⟨rfl, isPlain_of_goesOn hnext hd⟩
      · intro hor
        cases hor with
        | inl hplain =>
            obtain ⟨rfl, _⟩ := hplain
            obtain rfl : c = d := Option.some.inj h
            exact ⟨rfl, rfl⟩
        | inr hesc =>
            obtain ⟨letter, rfl, _⟩ := derivesEscape_iff.1 hesc
            exact absurd (Option.some.inj h).symm hd
  · next h =>
      rw [List.head?_eq_none_iff.1 h] at hnext
      cases hnext

/-- Whatever stands for a character begins with one that a symbol goes on with. -/
theorem nextIs_goesOn_of_derivesChar (h : kind.DerivesChar t c) :
    nextIs kind.goesOn t = true := by
  cases derivesChar_iff.1 h with
  | inl hplain =>
      obtain ⟨rfl, hplain⟩ := hplain
      exact goesOn_of_isPlain hplain
  | inr hesc =>
      obtain ⟨letter, rfl, _⟩ := derivesEscape_iff.1 hesc
      rfl

/-- The characters of a symbol can be read one after the other: nothing that follows is taken for
more of one of them. -/
theorem repeatable_readChar (kind : SymbolKind) :
    Repeatable kind.goesOn kind.readChar kind.DerivesChar never where
  consumes := kind.consumes_readChar
  predictive := kind.predictive_readChar
  exact hnext := by
    rw [reads_readChar_iff hnext]
    exact ⟨fun h => ⟨h, nextIs_never _⟩, And.left⟩
  begins_of_derives := nextIs_goesOn_of_derivesChar
  more_of_begins _ := rfl

theorem predictive_readText (kind : SymbolKind) : Predictive kind.readText :=
  kind.repeatable_readChar.predictive_many.bind_pure _

/-- The text of a symbol is read up to a character that it cannot go on with. -/
theorem exact_readText (kind : SymbolKind) :
    Exact kind.readText (fun t s => Star kind.DerivesChar t s.toList) kind.goesOn := by
  intro t s w
  unfold readText
  rw [reads_bind_pure_iff kind.repeatable_readChar.predictive_many]
  constructor
  · intro ⟨cs, hmany, hs⟩
    obtain ⟨hstar, _, hstop⟩ := kind.repeatable_readChar.reads_many_iff.1 hmany
    have hchars : Star kind.DerivesChar t s.toList := by rwa [hs, String.toList_ofList]
    exact ⟨hchars, hstop⟩
  · intro ⟨hstar, hstop⟩
    have hmany := kind.repeatable_readChar.reads_many_iff.2
      ⟨hstar, fun _ => nextIs_never _, hstop⟩
    exact ⟨s.toList, hmany, String.ofList_toList.symm⟩

/-- The same with the characters that the text stands for as a list. -/
theorem reads_readText {cs : List Char} (hstar : Star kind.DerivesChar t cs)
    (hstop : nextIs kind.goesOn w = false) : Reads kind.readText t (String.ofList cs) w := by
  have hchars : Star kind.DerivesChar t (String.ofList cs).toList := by
    rwa [String.toList_ofList]
  exact (kind.exact_readText ..).2 ⟨hchars, hstop⟩

/-- The text of a symbol fails in an escape. -/
theorem fails_readText_iff {v : List Char} :
    Fails kind.readText v cause w ↔
      ∃ t u cs, v = t ++ u ∧ Star kind.DerivesChar t cs ∧
        ((u = ['\\'] ∧ w = [] ∧ cause = .unterminated kind.closing) ∨
          ∃ letter w', u = [] ∧ w = '\\' :: letter :: w' ∧ unescape? letter = none ∧
            cause = .invalidEscape letter) := by
  unfold readText
  rw [fails_bind_pure_iff kind.repeatable_readChar.predictive_many,
    kind.repeatable_readChar.fails_many_iff]
  constructor
  · intro ⟨t, u, cs, hv, hstar, hgo, hfail⟩
    refine ⟨t, u, cs, hv, hstar, ?_⟩
    unfold readChar at hfail
    rw [fails_peek?_bind_iff] at hfail
    split at hfail
    · next h => exact (fails_readEscape_iff h).1 hfail
    · -- The character that is expected is the one that was seen.
      next d _ h =>
        obtain ⟨rfl, hne, _⟩ := fails_expect_iff.1 hfail
        exact absurd h hne
    · next h =>
        rw [List.head?_eq_none_iff.1 h] at hgo
        cases hgo
  · intro ⟨t, u, cs, hv, hstar, hor⟩
    have hhead : (u ++ w).head? = some '\\' := by
      obtain ⟨rfl, rfl, _⟩ | ⟨letter, w', rfl, rfl, _⟩ := hor
      · rfl
      · rfl
    have hfail := (fails_readEscape_iff hhead).2 hor
    obtain ⟨rest, hrest⟩ := List.head?_eq_some_iff.1 hhead
    refine ⟨t, u, cs, hv, hstar, ?_, ?_⟩
    · rw [hrest]
      rfl
    · unfold readChar
      rw [fails_peek?_bind_iff, hhead]
      exact hfail

/-! ## The closing delimiter -/

/-- The next character decides whether a symbol is closed. -/
theorem predictive_readClosing (kind : SymbolKind) : Predictive kind.readClosing := by
  intro cs
  refine DecidedAt.peek?_bind ?_
  split
  · next h =>
      rw [List.head?_eq_none_iff.1 h]
      exact decidedAt_fail rfl rfl
  · exact (predictive_expect _).bind_pure _ cs

/-- Only the closing delimiter closes a symbol. -/
theorem reads_readClosing_iff {u : Unit} :
    Reads kind.readClosing t u w ↔ t = [kind.closing] := by
  unfold readClosing
  rw [reads_peek?_bind_iff]
  split
  · next h =>
      refine ⟨fun hread => absurd hread not_reads_fail, fun ht => ?_⟩
      rw [ht] at h
      cases h
  · rw [reads_bind_pure_iff (predictive_expect _)]
    simp [reads_expect_iff]

/-- Without its delimiter a symbol is unterminated at the end of the text, and else something
else stands there. -/
theorem fails_readClosing_iff :
    Fails kind.readClosing t cause w ↔
      t = [] ∧ (w = [] ∧ cause = .unterminated kind.closing ∨
        ∃ c w', w = c :: w' ∧ c ≠ kind.closing ∧
          cause = .unexpected [.char kind.closing] (some c)) := by
  unfold readClosing
  rw [fails_peek?_bind_iff]
  cases h : (t ++ w).head? with
  | none =>
      obtain ⟨rfl, rfl⟩ := List.append_eq_nil_iff.1 (List.head?_eq_none_iff.1 h)
      refine (fails_fail_iff rfl).trans ?_
      constructor
      · exact fun ⟨ht, hcause⟩ => ⟨ht, .inl ⟨rfl, hcause⟩⟩
      · intro ⟨ht, hor⟩
        obtain ⟨_, hcause⟩ | ⟨c, w', hw, _⟩ := hor
        · exact ⟨ht, hcause⟩
        · cases hw
  | some d =>
      show Fails (expect kind.closing >>= fun _ => pure ()) t cause w ↔ _
      rw [fails_bind_pure_iff (predictive_expect _), fails_expect_iff]
      constructor
      · intro ⟨ht, hne, hcause⟩
        subst ht
        obtain ⟨w', rfl⟩ := List.head?_eq_some_iff.1 h
        exact ⟨rfl, .inr ⟨d, w', rfl, fun hd => hne (by rw [hd]; rfl), hcause⟩⟩
      · intro ⟨ht, hor⟩
        subst ht
        obtain ⟨rfl, _⟩ | ⟨c, w', rfl, hne, rfl⟩ := hor
        · cases h
        · exact ⟨rfl, fun hc => hne (Option.some.inj hc), rfl⟩

end SymbolKind

/-! ## Symbols -/

/-- The faults of a symbol that has begun: `Fault t cause w` if the text reads well through `t`,
which begins with the delimiter, and the cause stands there before `w`. -/
inductive SymbolKind.Fault (kind : SymbolKind) : List Char → Cause → List Char → Prop
  | unterminated {t cs : List Char} : Star kind.DerivesChar t cs →
      kind.Fault (kind.opening :: t) (.unterminated kind.closing) []
  | unterminatedEscape {t cs : List Char} : Star kind.DerivesChar t cs →
      kind.Fault (kind.opening :: (t ++ ['\\'])) (.unterminated kind.closing) []
  | invalidEscape {t cs w : List Char} {letter : Char} : Star kind.DerivesChar t cs →
      unescape? letter = none →
        kind.Fault (kind.opening :: t) (.invalidEscape letter) ('\\' :: letter :: w)
  | unexpected {t cs w : List Char} {c : Char} : Star kind.DerivesChar t cs →
      kind.goesOn c = false → c ≠ kind.closing →
        kind.Fault (kind.opening :: t) (.unexpected [.char kind.closing] (some c)) (c :: w)

namespace Symbol

variable {kind : SymbolKind} {s : Symbol kind} {t v w : List Char} {cause : Cause}

/-- Reads what follows the delimiter that begins a symbol. -/
def readRest (kind : SymbolKind) : Parser (Symbol kind) :=
  kind.readText >>= fun text => kind.readClosing >>= fun _ => pure ⟨text⟩

theorem read_eq : Symbol.read kind = expect kind.opening >>= fun _ => readRest kind := rfl

theorem predictive_readRest (kind : SymbolKind) : Predictive (readRest kind) :=
  kind.predictive_readText.bind fun _ => kind.predictive_readClosing.bind_pure _

theorem predictive_read (kind : SymbolKind) : Predictive (Symbol.read kind) :=
  (predictive_expect _).bind fun _ => predictive_readRest kind

/-- What follows the opening delimiter is the characters and the closing one, whatever comes next.
-/
theorem reads_readRest_iff :
    Reads (readRest kind) t s w ↔
      ∃ u, t = u ++ [kind.closing] ∧ Star kind.DerivesChar u s.text.toList := by
  unfold readRest
  rw [reads_bind_iff kind.predictive_readText fun _ => kind.predictive_readClosing.bind_pure _]
  constructor
  · intro ⟨u, r, text, ht, htext, hrest⟩
    obtain ⟨_, hclose, rfl⟩ := (reads_bind_pure_iff kind.predictive_readClosing).1 hrest
    rw [SymbolKind.reads_readClosing_iff.1 hclose] at ht
    exact ⟨u, ht, ((kind.exact_readText ..).1 htext).1⟩
  · intro ⟨u, ht, hstar⟩
    have hclose : Reads kind.readClosing [kind.closing] () w :=
      SymbolKind.reads_readClosing_iff.2 rfl
    refine ⟨u, [kind.closing], s.text, ht, ?_, ?_⟩
    · exact (kind.exact_readText ..).2 ⟨hstar, kind.goesOn_closing⟩
    · exact (reads_bind_pure_iff kind.predictive_readClosing).2 ⟨(), hclose, rfl⟩

/-- A symbol is read just from the texts of its rule, whatever follows. -/
theorem exact_read (kind : SymbolKind) : Exact (Symbol.read kind) Symbol.Derives never := by
  intro v s w
  rw [read_eq, reads_bind_iff (predictive_expect _) fun _ => predictive_readRest kind, derives_iff]
  constructor
  · intro ⟨t, u, d, hv, hopen, hrest⟩
    obtain ⟨u, rfl, hstar⟩ := reads_readRest_iff.1 hrest
    rw [(reads_expect_iff.1 hopen).1] at hv
    exact ⟨⟨u, hv, hstar⟩, nextIs_never w⟩
  · intro ⟨⟨u, hv, hstar⟩, _⟩
    exact ⟨[kind.opening], u ++ [kind.closing], kind.opening, hv, reads_expect _ _,
      reads_readRest_iff.2 ⟨u, rfl, hstar⟩⟩

/-- What follows the opening delimiter fails at the faults of a symbol that has begun. -/
theorem fails_readRest_iff :
    Fails (readRest kind) t cause w ↔ kind.Fault (kind.opening :: t) cause w := by
  unfold readRest
  rw [fails_bind_iff kind.predictive_readText fun _ => kind.predictive_readClosing.bind_pure _,
    SymbolKind.fails_readText_iff]
  constructor
  · intro hor
    obtain ⟨u, r, cs, rfl, hstar, hesc⟩ | ⟨u, r, text, rfl, htext, hrest⟩ := hor
    · obtain ⟨rfl, rfl, rfl⟩ | ⟨letter, w', rfl, rfl, hl, rfl⟩ := hesc
      · exact .unterminatedEscape hstar
      · rw [List.append_nil]
        exact .invalidEscape hstar hl
    · obtain ⟨hstar, hstop⟩ := (kind.exact_readText ..).1 htext
      rw [fails_bind_pure_iff kind.predictive_readClosing,
        SymbolKind.fails_readClosing_iff] at hrest
      obtain ⟨rfl, ⟨rfl, rfl⟩ | ⟨c, w', rfl, hne, rfl⟩⟩ := hrest
      · rw [List.append_nil]
        exact .unterminated hstar
      · rw [List.append_nil]
        exact .unexpected hstar hstop hne
  · intro h
    cases h with
    | unterminated hstar =>
        have hclose : Fails kind.readClosing [] (.unterminated kind.closing) [] :=
          SymbolKind.fails_readClosing_iff.2 ⟨rfl, .inl ⟨rfl, rfl⟩⟩
        exact .inr ⟨t, [], _, (List.append_nil t).symm,
          SymbolKind.reads_readText hstar (nextIs_nil _), hclose.bind⟩
    | unterminatedEscape hstar => exact .inl ⟨_, _, _, rfl, hstar, .inl ⟨rfl, rfl, rfl⟩⟩
    | invalidEscape hstar hl =>
        exact .inl ⟨t, [], _, (List.append_nil t).symm, hstar, .inr ⟨_, _, rfl, rfl, hl, rfl⟩⟩
    | @unexpected _ cs w c hstar hstop hne =>
        have hclose : Fails kind.readClosing [] (.unexpected [.char kind.closing] (some c))
            (c :: w) := SymbolKind.fails_readClosing_iff.2 ⟨rfl, .inr ⟨c, w, rfl, hne, rfl⟩⟩
        exact .inr ⟨t, [], _, (List.append_nil t).symm,
          SymbolKind.reads_readText hstar hstop, hclose.bind⟩

/-- Reading a symbol fails where none begins, and at the faults of one that has begun. -/
theorem fails_read_iff :
    Fails (Symbol.read kind) t cause w ↔
      (t = [] ∧ w.head? ≠ some kind.opening ∧
        cause = .unexpected [.char kind.opening] w.head?) ∨ kind.Fault t cause w := by
  rw [read_eq, fails_bind_iff (predictive_expect _) fun _ => predictive_readRest kind,
    fails_expect_iff]
  constructor
  · intro hor
    obtain hopen | ⟨t₁, u, d, rfl, hopen, hrest⟩ := hor
    · exact .inl hopen
    · rw [(reads_expect_iff.1 hopen).1]
      exact .inr (fails_readRest_iff.1 hrest)
  · intro hor
    obtain hopen | hfault := hor
    · exact .inl hopen
    · obtain ⟨u, rfl⟩ : ∃ u, t = kind.opening :: u := by
        cases hfault <;> exact ⟨_, rfl⟩
      exact .inr ⟨[kind.opening], u, kind.opening, rfl, reads_expect _ _,
        fails_readRest_iff.2 hfault⟩

end Symbol

end BnfText

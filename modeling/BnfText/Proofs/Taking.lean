import BnfText.Proofs.Session

/-!
# BnfText.Proofs.Taking

What a cursor takes when it is told what to take: a fixed text, or the characters that a test
accepts.  A fixed text is compared character by character with what is left, and what agrees stays
taken; a test is asked about one character after the other, and its state goes on from each to the
next.

* `Cursor.startsWith_iff_bytes` — a text begins with another just if its bytes do;
* `Parser.expectText_exact` — what becomes of a cursor that a fixed text is expected of;
* `Parser.acceptedRun_asks`, `Parser.acceptedRun_annotated` — what a test is asked;
* `Parser.takeWhileFrom_asks` — what a cursor takes while a test accepts it;
* `Parser.isSlice_expectText`, `Parser.isSlice_takeWhileFrom` — what is handed out is the slice of
  the text between the bytes where the cursor stood and stands.
-/

namespace BnfText

open BnfText.Cursor (counted)

/-! ## Fixed texts -/

/-- `front` begins both texts, and nothing longer does. -/
structure IsCommonFront (front cs ds : List Char) : Prop where
  left : front <+: cs
  right : front <+: ds
  longest : ∀ t, t <+: cs → t <+: ds → t <+: front

/-- Two texts have in common what comes before the first place where they go on differently. -/
theorem isCommonFront_append_iff {front cs ds : List Char} {ch : Char} :
    IsCommonFront front (front ++ ch :: cs) (front ++ ds) ↔ ds.head? ≠ some ch := by
  constructor
  · intro h hds
    obtain ⟨w, rfl⟩ := List.head?_eq_some_iff.1 hds
    have hlonger : front ++ [ch] <+: front :=
      h.longest _ ⟨cs, List.append_cons .. |>.symm⟩ ⟨w, List.append_cons .. |>.symm⟩
    have hlen := hlonger.length_le
    rw [List.length_append] at hlen
    exact absurd hlen (Nat.not_succ_le_self _)
  · intro h
    refine ⟨List.prefix_append .., List.prefix_append .., fun t hleft hright => ?_⟩
    obtain hfront | ⟨u, rfl⟩ := List.prefix_or_prefix_of_prefix hleft (List.prefix_append front _)
    · exact hfront
    · -- What is common beyond `front` begins both with `ch` and with something else.
      rw [List.prefix_append_right_inj] at hleft hright
      cases u with
      | nil => simp
      | cons d u =>
          obtain ⟨rfl, _⟩ := List.cons_prefix_cons.1 hleft
          obtain ⟨w, rfl⟩ := hright
          exact absurd rfl h

/-- A text is next if its characters are. -/
theorem Cursor.startsWith_iff {c : Cursor} {value : String} :
    c.startsWith value = true ↔ value.toList <+: c.rest :=
  List.isPrefixOf_iff_prefix

/-- No character's bytes begin with those of another, so it is the same to compare bytes. -/
theorem Cursor.startsWith_iff_bytes {c : Cursor} {value : String} :
    c.startsWith value = true ↔ ∃ b, value.toUTF8 ++ b = c.remaining.toUTF8 := by
  rw [startsWith_iff, String.toUTF8_eq_toByteArray, String.toUTF8_eq_toByteArray, remaining,
    String.toByteArray_ofList, ← String.utf8Encode_toList]
  constructor
  · rintro ⟨w, hw⟩
    exact ⟨w.utf8Encode, by rw [← List.utf8Encode_append, hw]⟩
  · rintro ⟨b, hb⟩
    exact List.isPrefix_of_utf8Encode_append_eq_utf8Encode b hb

namespace Parser

/-- Expecting a text succeeds if the text is next, and then it has been passed. -/
theorem expectText_eq_ok_iff {c c' : Cursor} {value s : String} :
    expectText value c = .ok s c' ↔ s = value ∧ c.Passes value.toList c' := by
  rw [(predictive_expectText value).eq_ok_iff]
  constructor
  · rintro ⟨t, hpass, hread⟩
    obtain ⟨rfl, rfl⟩ := reads_expectText_iff.1 hread
    exact ⟨rfl, hpass⟩
  · rintro ⟨rfl, hpass⟩
    exact ⟨_, hpass, reads_expectText_iff.2 ⟨rfl, rfl⟩⟩

/-- A fixed text fails after what it has in common with the text that is left. -/
theorem expectText_eq_error_iff {c c' : Cursor} {value : String} {e : ParseError} :
    expectText value c = .error e c' ↔
      ∃ front ch, IsCommonFront front value.toList c.rest ∧ value.toList[front.length]? = some ch ∧
        c.Passes front c' ∧ e = ⟨.unexpected [.char ch] c'.peek?, c.pos.walk front⟩ := by
  rw [(predictive_expectText value).eq_error_iff]
  constructor
  · rintro ⟨front, w, hrest, hfail, hpos, hc⟩
    obtain ⟨ch, further, hvalue, hdiffers, hcause⟩ := fails_expectText_iff.1 hfail
    rw [hcause] at hc
    have hpass : c.Passes front c' := hc ▸ Cursor.passes_skip hrest
    have hpeek : c'.peek? = w.head? := by rw [Cursor.peek?, hpass.rest_eq hrest]
    refine ⟨front, ch, ?_, ?_, hpass, ?_⟩
    · rw [hvalue, hrest]
      exact isCommonFront_append_iff.2 hdiffers
    · rw [hvalue, List.getElem?_append_right (Nat.le_refl _), Nat.sub_self]
      rfl
    · rw [hpeek, ← hcause, ← hpos]
  · rintro ⟨front, ch, hcommon, hch, hpass, rfl⟩
    obtain ⟨v, hvalue⟩ := hcommon.left
    rw [← hvalue, List.getElem?_append_right (Nat.le_refl _), Nat.sub_self,
      ← List.head?_eq_getElem?] at hch
    obtain ⟨further, rfl⟩ := List.head?_eq_some_iff.1 hch
    rw [← hvalue, hpass.1, isCommonFront_append_iff] at hcommon
    refine ⟨front, c'.rest, hpass.1, ?_, rfl, hpass.2⟩
    exact fails_expectText_iff.2 ⟨ch, further, hvalue.symm, hcommon, rfl⟩

/-- A cursor accepts a fixed text just if what is left begins with it, compared byte by byte, and
then passes it.  Otherwise it passes what the two have in common, and reports that the character
with which the fixed text goes on was expected where the text goes on otherwise or ends. -/
theorem expectText_exact (c : Cursor) (value : String) :
    (c.startsWith value = true ↔ ∃ b, value.toUTF8 ++ b = c.remaining.toUTF8) ∧
    (c.startsWith value = true ↔ ∃ c', expectText value c = .ok value c') ∧
    (c.startsWith value = false ↔ ∃ e c', expectText value c = .error e c') ∧
    (∀ s c', expectText value c = .ok s c' ↔ s = value ∧ c.Passes value.toList c') ∧
    ∀ e c', expectText value c = .error e c' ↔
      ∃ front ch, IsCommonFront front value.toList c.rest ∧
        value.toList[front.length]? = some ch ∧ c.Passes front c' ∧
          e = ⟨.unexpected [.char ch] c'.peek?, c.pos.walk front⟩ := by
  have hok : c.startsWith value = true ↔ ∃ c', expectText value c = .ok value c' := by
    rw [Cursor.startsWith_iff]
    constructor
    · rintro ⟨w, hw⟩
      exact ⟨_, expectText_eq_ok_iff.2 ⟨rfl, Cursor.passes_skip hw.symm⟩⟩
    · rintro ⟨c', h⟩
      exact ⟨c'.rest, (expectText_eq_ok_iff.1 h).2.1.symm⟩
  -- A step succeeds or fails, so failing is what `startsWith` says if it does not hold.
  refine ⟨Cursor.startsWith_iff_bytes, hok, ?_, fun _ _ => expectText_eq_ok_iff,
    fun _ _ => expectText_eq_error_iff⟩
  rw [← Bool.not_eq_true, hok]
  cases h : expectText value c with
  | ok s c' =>
      obtain ⟨rfl, _⟩ := expectText_eq_ok_iff.1 h
      simp
  | error e c' => simp

/-- The text that is handed out is the slice of the whole text that has been passed. -/
theorem isSlice_expectText {text value s : String} {c c' : Cursor} (hc : c.IsWithin text)
    (hok : expectText value c = .ok s c') : IsSlice text c.pos.byte c'.pos.byte s :=
  (takes_expectText value).isSlice hc hok

/-! ## Runs of accepted characters -/

section Run

variable {σ τ : Type} (accepts : Char → StateM σ Bool) (s : σ)

/-- Asking the questions of a longer run begins with its first character. -/
theorem run_mapM_cons {ch : Char} {cs : List Char} {answer : Bool} {answers : List Bool}
    {s s' s'' : σ} (h : accepts ch s = (answer, s'))
    (hs : (cs.mapM accepts).run s' = (answers, s'')) :
    ((ch :: cs).mapM accepts).run s = (answer :: answers, s'') := by
  have hch : (accepts ch).run s = (answer, s') := h
  rw [List.mapM_cons, StateT.run_bind, hch]
  show ((cs.mapM accepts) >>= fun answers => pure (answer :: answers)).run s' = _
  rw [StateT.run_bind, hs]
  rfl

/-- The test is asked about the characters of the run and about the one that ends it, in this
order, each with the state that the one before has left. -/
theorem acceptedRun_asks (cs : List Char) :
    ∃ taken left s', cs = taken ++ left ∧ acceptedRun accepts s cs = (taken, s') ∧
      ((cs.take (taken.length + 1)).mapM accepts).run s =
        (List.replicate taken.length true ++ left.head?.toList.map fun _ => false, s') := by
  induction cs generalizing s with
  | nil => exact ⟨[], [], s, rfl, rfl, rfl⟩
  | cons ch cs ih =>
      rcases h : accepts ch s with ⟨_ | _, s'⟩
      · refine ⟨[], ch :: cs, s', rfl, ?_, run_mapM_cons accepts h rfl⟩
        rw [acceptedRun_cons, h]
      · obtain ⟨taken, left, s'', rfl, hrun, hasked⟩ := ih s'
        refine ⟨ch :: taken, left, s'', rfl, ?_, run_mapM_cons accepts h hasked⟩
        simp only [acceptedRun_cons, h, hrun]

/-- The test `accepts` with a note that is taken of each character it is asked about. -/
def annotated (note : τ → Char → τ) : Char → StateM (σ × τ) Bool :=
  fun c (s, t) =>
    let (accepted, s) := accepts c s
    (accepted, s, note t c)

/-- Taking notes changes neither the answers nor what is asked. -/
theorem acceptedRun_annotated (note : τ → Char → τ) (t : τ) (cs : List Char) :
    acceptedRun (annotated accepts note) (s, t) cs =
      ((acceptedRun accepts s cs).1, (acceptedRun accepts s cs).2,
        (cs.take ((acceptedRun accepts s cs).1.length + 1)).foldl note t) := by
  induction cs generalizing s t with
  | nil => rfl
  | cons ch cs ih =>
      rw [acceptedRun_cons, acceptedRun_cons, annotated]
      rcases accepts ch s with ⟨_ | _, s'⟩
      · simp
      · simp [ih]

/-- Taking while a test with a state accepts returns its run and the state it leaves. -/
theorem takeWhileFrom_of_acceptedRun {taken : List Char} {s' : σ} {c : Cursor}
    (h : acceptedRun accepts s c.rest = (taken, s')) :
    takeWhileFrom accepts s c = .ok (String.ofList taken, s') (c.skip taken.length) := by
  show EStateM.Result.ok (String.ofList (acceptedRun accepts s c.rest).1,
    (acceptedRun accepts s c.rest).2) (c.skip (acceptedRun accepts s c.rest).1.length) = _
  rw [h]

/-- A note of the questions that are asked holds the accepted run and, unless the text ends there,
the character after it.  The answers are not changed by taking the note. -/
theorem takeWhileFrom_annotated {taken : List Char} {s' : σ} {c : Cursor}
    (h : acceptedRun accepts s c.rest = (taken, s')) (note : τ → Char → τ) (t : τ) :
    takeWhileFrom (annotated accepts note) (s, t) c =
      .ok (String.ofList taken, s', (c.rest.take (taken.length + 1)).foldl note t)
        (c.skip taken.length) := by
  have hrun := acceptedRun_annotated accepts s note t c.rest
  rw [h] at hrun
  exact takeWhileFrom_of_acceptedRun _ _ hrun

/-- Whatever state a test keeps, what a cursor takes is the run of characters that the test accepts,
and the first that it rejects is left.  Asked about just these characters, once each and in the
order of the text, the test gives these answers and comes to the state that it is left in; so a list
of what it is asked holds them, and their number is that of the characters taken, and one more
unless the text ends there. -/
theorem takeWhileFrom_asks (c : Cursor) :
    ∃ value s' c', takeWhileFrom accepts s c = .ok (value, s') c' ∧ c.Passes value.toList c' ∧
      ((c.rest.take (value.length + 1)).mapM accepts).run s =
        (List.replicate value.length true ++ c'.peek?.toList.map fun _ => false, s') ∧
      takeWhileFrom (annotated accepts fun asked ch => asked ++ [ch]) (s, []) c =
        .ok (value, s', c.rest.take (value.length + 1)) c' ∧
      takeWhileFrom (counted accepts) (s, 0) c =
        .ok (value, s', value.length + if c'.peek? = none then 0 else 1) c' := by
  obtain ⟨taken, left, s', hrest, hrun, hasked⟩ := acceptedRun_asks accepts s c.rest
  have hpass : c.Passes taken (c.skip taken.length) := Cursor.passes_skip hrest
  have hpeek : (c.skip taken.length).peek? = left.head? := by
    rw [Cursor.peek?, hpass.rest_eq hrest]
  have hlist (cs : List Char) : cs.foldl (fun asked ch => asked ++ [ch]) [] = cs := by
    rw [List.foldl_append_eq_append, ← List.flatMap_def, List.flatMap_singleton', List.nil_append]
  have hcalls : (c.rest.take (taken.length + 1)).length =
      taken.length + if left.head? = none then 0 else 1 := by
    rw [hrest]
    cases left <;> simp
  refine ⟨String.ofList taken, s', _, takeWhileFrom_of_acceptedRun accepts s hrun, ?_, ?_, ?_, ?_⟩
  · rwa [String.toList_ofList]
  · rw [String.length_ofList, hpeek, hasked]
  · rw [takeWhileFrom_annotated accepts s hrun, hlist, String.length_ofList]
  · have hcounted : counted accepts = annotated accepts fun calls _ => calls + 1 := rfl
    rw [hcounted, takeWhileFrom_annotated accepts s hrun, List.foldl_add_const, hcalls, hpeek,
      String.length_ofList, Nat.one_mul, Nat.zero_add]

/-- The text that is handed out is the slice of the whole text that has been passed. -/
theorem isSlice_takeWhileFrom {text value : String} {s' : σ} {c c' : Cursor} (hc : c.IsWithin text)
    (hok : takeWhileFrom accepts s c = .ok (value, s') c') :
    IsSlice text c.pos.byte c'.pos.byte value :=
  (takes_takeWhileFrom accepts s).isSlice hc hok

end Run

/-- A test that gives out after two characters is asked about a third. -/
example : (Cursor.Session.act (.takeWhile Cursor.countdown 2) (.ofText "äbc")).1 =
    .ok (.run "äb" 3) := rfl

end Parser

end BnfText

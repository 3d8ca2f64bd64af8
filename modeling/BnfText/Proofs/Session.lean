import BnfText.Cursor.Session
import BnfText.Proofs.Completion

/-!
# BnfText.Proofs.Session

What holds of a cursor all through a session.  Whatever is asked of it, and whether the answer is a
value or a fault, a cursor stands at one of the places of its text; so what it tells of itself is
what that place of the text says, and what it hands out is what it has passed.

* `Position.Bounded` — the counters of a place are bounded by its byte;
* `Cursor.StandsBetween` — what a cursor tells of itself between the two parts of its text;
* `Cursor.Session.within_act`, `Cursor.Session.within_run` — no request leads out of the text, and
  so no number of requests does;
* `Cursor.Session.run_sound` — where a cursor stands in a session, and what it hands out.
-/

namespace BnfText

open BnfText.Parser

/-! ## Counters -/

namespace Position

/-- Lines and columns count from one, and what they count besides is no more than the bytes. -/
structure Bounded (p : Position) : Prop where
  line : 1 ≤ p.line
  column : 1 ≤ p.column
  sum : (p.line - 1) + (p.column - 1) ≤ p.byte

/-- Lines and columns count from one, so the start of a text is bounded. -/
theorem bounded_start : start.Bounded := ⟨Nat.le_refl 1, Nat.le_refl 1, Nat.le_refl 0⟩

/-- A line feed gives the columns of a line up for one line, any other character is a column. -/
theorem Bounded.step {p : Position} (h : p.Bounded) (c : Char) : (p.step c).Bounded := by
  have hsize := c.utf8Size_pos
  obtain ⟨hline, hcolumn, hsum⟩ := h
  by_cases hc : c = '\n'
  · constructor <;> simp only [Position.step, hc, if_true] at hsize ⊢ <;> omega
  · constructor <;> simp only [Position.step, hc, if_false] <;> omega

/-- Walking over a text keeps the counters within their bounds, step by step. -/
theorem Bounded.walk {p : Position} (h : p.Bounded) (cs : List Char) : (p.walk cs).Bounded := by
  induction cs generalizing p with
  | nil => exact h
  | cons c cs ih => exact ih (h.step c)

end Position

/-! ## The places of a text -/

namespace Cursor

/-- The cursor stands between the two parts `front` and `rest` of a text: `rest` is left, the
counters are those of `front`, and the place before is that of the last character of `front`, or the
beginning of the text where `front` has none. -/
structure StandsBetween (front rest : String) (c : Cursor) : Prop where
  remaining : c.remaining = rest
  peek? : c.peek? = rest.toList.head?
  byte : c.pos.byte = front.utf8ByteSize
  line : c.pos.line = 1 + front.toList.count '\n'
  column : c.pos.column = 1 + (front.toList.reverse.takeWhile (· ≠ '\n')).length
  prev : c.prev = .after front.toList.dropLast

/-- The cursor stands at one of the places of `text`. -/
def IsWithin (text : String) (c : Cursor) : Prop := ∃ n, c = (ofText text).skip n

section IsWithin

variable {text : String} {c : Cursor}

theorem isWithin_ofText (text : String) : (ofText text).IsWithin text := ⟨0, rfl⟩

theorem IsWithin.skip (h : c.IsWithin text) (n : Nat) : (c.skip n).IsWithin text := by
  obtain ⟨m, rfl⟩ := h
  exact ⟨m + n, (skip_add _ m n).symm⟩

/-- A step that only skips does not leave the text, whether it succeeds or fails. -/
theorem IsWithin.of_advances {α : Type} {p : Parser α} (h : c.IsWithin text) (hp : Advances p) :
    (cursorAfter (p c)).IsWithin text := by
  obtain ⟨n, hn⟩ := hp c
  rw [hn]
  exact h.skip n

/-- Nothing is skipped past the end of a text. -/
theorem skip_of_length_le {n : Nat} (h : c.rest.length ≤ n) : c.skip n = c.skip c.rest.length := by
  have hrest : (c.skip c.rest.length).rest = [] := by simp
  obtain ⟨k, rfl⟩ := Nat.exists_eq_add_of_le h
  rw [skip_add]
  generalize c.skip c.rest.length = d at hrest ⊢
  obtain ⟨_, pos, prev?⟩ := d
  cases hrest
  exact skip_nil pos prev? k

/-- Whatever is skipped, some text is passed. -/
theorem exists_passes_skip (c : Cursor) (n : Nat) : ∃ t, c.Passes t (c.skip n) := by
  by_cases hn : n ≤ c.rest.length
  · have hpass := passes_skip (List.take_append_drop n c.rest).symm
    rw [List.length_take_of_le hn] at hpass
    exact ⟨_, hpass⟩
  · rw [skip_of_length_le (Nat.le_of_not_le hn)]
    exact ⟨c.rest, passes_skip (List.append_nil c.rest).symm⟩

/-- After `n` characters of a text the place is the one counted from those characters. -/
theorem pos_skip_ofText (n : Nat) : ((ofText text).skip n).pos = .after (text.toList.take n) := by
  rw [← Position.walk_start]
  exact pos_skip _ n

/-- The character passed last stood where the text before it ends. -/
theorem prev_skip_ofText {n : Nat} (h : n ≤ text.toList.length) :
    ((ofText text).skip n).prev = .after (text.toList.take n).dropLast := by
  cases n with
  | zero => rfl
  | succ n =>
      have hdrop : (text.toList.take (n + 1)).dropLast = text.toList.take n := by
        rw [List.dropLast_eq_take, List.length_take_of_le h, List.take_take]
        simp
      rw [prev, prev_skip (ofText text) h, pos_skip_ofText, hdrop]
      rfl

/-- A cursor stands between what it has passed and what is left. -/
theorem standsBetween_skip {n : Nat} (h : n ≤ text.toList.length) :
    ((ofText text).skip n).StandsBetween (String.ofList (text.toList.take n))
      (String.ofList (text.toList.drop n)) := by
  have hrest : ((ofText text).skip n).rest = text.toList.drop n := rest_skip _ n
  have hpos : ((ofText text).skip n).pos = .after (text.toList.take n) := pos_skip_ofText n
  constructor
  · rw [remaining, hrest]
  · rw [Cursor.peek?, hrest, String.toList_ofList]
  · rw [hpos, ← Position.byte_after, String.toList_ofList]
  · rw [hpos, String.toList_ofList, Nat.add_comm]
    rfl
  · rw [hpos, String.toList_ofList, Nat.add_comm]
    rfl
  · rw [String.toList_ofList]
    exact prev_skip_ofText h

/-- What a cursor has passed since the beginning of the text is the front it stands after. -/
theorem Passes.standsBetween {front : List Char} (h : (ofText text).Passes front c) :
    c.StandsBetween (String.ofList front) (String.ofList c.rest) := by
  obtain ⟨hrest, hc⟩ := h
  have htext : text.toList = front ++ c.rest := hrest
  have hlen : front.length ≤ text.toList.length := by
    rw [htext, List.length_append]
    exact Nat.le_add_right _ _
  have hstands := standsBetween_skip hlen
  rw [← hc, htext, List.take_left, List.drop_left] at hstands
  exact hstands

/-- What has been passed and what is left make up the text. -/
theorem Passes.text_eq {front : List Char} (h : (ofText text).Passes front c) :
    text = String.ofList front ++ String.ofList c.rest := by
  rw [← String.ofList_append, ← h.1]
  exact String.ofList_toList.symm

/-- A cursor within a text has passed a front of it. -/
theorem IsWithin.exists_passes (h : c.IsWithin text) : ∃ front, (ofText text).Passes front c := by
  obtain ⟨n, rfl⟩ := h
  exact exists_passes_skip _ n

/-- Wherever a cursor stands in a text, it splits the text in two. -/
theorem IsWithin.standsBetween (h : c.IsWithin text) :
    ∃ front rest, text = front ++ rest ∧ c.StandsBetween front rest := by
  obtain ⟨_, hpass⟩ := h.exists_passes
  exact ⟨_, _, hpass.text_eq, hpass.standsBetween⟩

/-- Wherever a cursor stands in a text, its counters are within their bounds. -/
theorem IsWithin.bounded (h : c.IsWithin text) : c.pos.Bounded := by
  obtain ⟨n, rfl⟩ := h
  rw [pos_skip_ofText, ← Position.walk_start]
  exact Position.bounded_start.walk _

end IsWithin

end Cursor

/-! ## What is handed out -/

/-- `value` is what stands in `text` from the byte `first` on to the byte `last`; a character
begins at either, or the text ends there. -/
def IsSlice (text : String) (first last : Nat) (value : String) : Prop :=
  ∃ front rest, text = front ++ value ++ rest ∧ front.utf8ByteSize = first ∧
    (front ++ value).utf8ByteSize = last

/-- What stands next in a text is a slice of it, up to where a cursor comes that skips it. -/
theorem Cursor.IsWithin.isSlice {text value : String} {c : Cursor} {w : List Char}
    (h : c.IsWithin text) (hrest : c.rest = value.toList ++ w) :
    IsSlice text c.pos.byte (c.skip value.toList.length).pos.byte value := by
  obtain ⟨front, rest, htext, hstands⟩ := h.standsBetween
  have hvalue : rest = value ++ String.ofList w := by
    rw [← hstands.remaining, remaining, hrest, String.ofList_append, String.ofList_toList]
  refine ⟨front, String.ofList w, ?_, hstands.byte.symm, ?_⟩
  · rw [htext, hvalue, String.append_assoc]
  · rw [pos_skip_append hrest, Position.byte_walk, Position.byteLength_toList, hstands.byte,
      String.utf8ByteSize_append]

namespace Parser

variable {α β σ : Type}

/-- The step takes just the text `taken a` when it returns `a`. -/
def Takes (p : Parser α) (taken : α → String) : Prop :=
  ∀ c a c', p c = .ok a c' →
    c.rest = (taken a).toList ++ c'.rest ∧ c' = c.skip (taken a).toList.length

/-- Skipping a front of the text that is left takes that front. -/
theorem takes_of_skip {p : Parser α} {taken : α → String}
    (h : ∀ c a c', p c = .ok a c' → ∃ w, c.rest = (taken a).toList ++ w ∧
      c' = c.skip (taken a).toList.length) : Takes p taken := by
  intro c a c' hp
  obtain ⟨w, hrest, rfl⟩ := h c a c' hp
  rw [Cursor.rest_skip_append hrest]
  exact ⟨hrest, rfl⟩

/-- What a step takes is a slice of the text, from where the cursor stood to where it stands. -/
theorem Takes.isSlice {p : Parser α} {taken : α → String} (hp : Takes p taken) {text : String}
    {a : α} {c c' : Cursor} (hc : c.IsWithin text) (hok : p c = .ok a c') :
    IsSlice text c.pos.byte c'.pos.byte (taken a) := by
  obtain ⟨hrest, rfl⟩ := hp c a c' hok
  exact hc.isSlice hrest

theorem takes_take (n : Nat) : Takes (take n) id := by
  refine takes_of_skip fun c a c' h => ⟨c.rest.drop n, ?_, ?_⟩
  · cases h
    rw [id, String.toList_ofList, List.take_append_drop]
  · cases h
    rw [id, String.toList_ofList, List.length_take]
    by_cases hn : n ≤ c.rest.length
    · rw [Nat.min_eq_left hn]
    · have hlen : c.rest.length ≤ n := by omega
      rw [Nat.min_eq_right hlen, Cursor.skip_of_length_le hlen]

/-- An accepted run is a front of the text. -/
theorem exists_eq_acceptedRun_append (accepts : Char → StateM σ Bool) (s : σ) (cs : List Char) :
    ∃ w, cs = (acceptedRun accepts s cs).1 ++ w := by
  induction cs generalizing s with
  | nil => exact ⟨[], rfl⟩
  | cons c cs ih =>
      rw [acceptedRun_cons]
      rcases accepts c s with ⟨_ | _, s'⟩
      · exact ⟨c :: cs, rfl⟩
      · obtain ⟨w, hw⟩ := ih s'
        exact ⟨w, congrArg (c :: ·) hw⟩

/-- What is taken while a test accepts is what is returned. -/
theorem takes_takeWhileFrom (accepts : Char → StateM σ Bool) (s : σ) :
    Takes (takeWhileFrom accepts s) Prod.fst := by
  refine takes_of_skip fun c a c' h => ?_
  obtain ⟨w, hw⟩ := exists_eq_acceptedRun_append accepts s c.rest
  cases h
  refine ⟨w, ?_, ?_⟩
  · rw [String.toList_ofList]
    exact hw
  · rw [String.toList_ofList]

theorem takes_expectText (value : String) : Takes (expectText value) id := by
  refine takes_of_skip fun c a c' h => ?_
  obtain ⟨t, hrest, hc, hread⟩ := (predictive_expectText value).reads_of_ok h
  obtain ⟨rfl, rfl⟩ := reads_expectText_iff.1 hread
  exact ⟨c'.rest, hrest, hc⟩

/-- Changing the value of a step changes neither its fault nor where it ends. -/
theorem map_apply (f : α → β) (p : Parser α) (c : Cursor) :
    (f <$> p) c = match p c with
      | .ok a c' => .ok (f a) c'
      | .error e c' => .error e c' := by
  show EStateM.map f p c = _
  unfold EStateM.map
  cases p c <;> rfl

/-- Changing the value of a step changes nothing about how it skips. -/
theorem Advances.map {p : Parser α} (hp : Advances p) (f : α → β) : Advances (f <$> p) := by
  intro c
  obtain ⟨n, hn⟩ := hp c
  refine ⟨n, ?_⟩
  rw [map_apply, ← hn]
  cases p c <;> rfl

end Parser

/-! ## Sessions -/

namespace Cursor

/-- The text that an answer to a request hands out as taken. -/
def Request.taken? : Request → Reply → Option String
  | .take _, .text value => some value
  | .takeWhile _ _, .run value _ => some value
  | .expectText _, .text value => some value
  | _, _ => none

namespace Session

variable {α : Type} {text value : String} {s : Session} {request : Request} {reply : Reply}

/-- The session after requests, made one after the other whatever the answers. -/
def run (requests : List Request) (s : Session) : Session :=
  requests.foldl (fun s request => (act request s).2) s

/-- The cursor and those that are remembered stand at places of the text. -/
structure IsWithin (text : String) (s : Session) : Prop where
  cursor : s.cursor.IsWithin text
  saved : ∀ c ∈ s.saved, c.IsWithin text

theorem isWithin_ofText (text : String) : (ofText text).IsWithin text :=
  ⟨Cursor.isWithin_ofText text, nofun⟩

/-- A request that reads moves the cursor of the session as the step says and leaves the saved
cursors alone. -/
theorem read_snd (step : Parser Reply) (s : Session) :
    (read step s).2 = { s with cursor := cursorAfter (step s.cursor) } := by
  unfold read
  cases step s.cursor <;> rfl

/-- A request that reads does not leave the text. -/
theorem IsWithin.read {step : Parser Reply} (h : s.IsWithin text) (hstep : Advances step) :
    (read step s).2.IsWithin text := by
  rw [read_snd]
  exact ⟨h.cursor.of_advances hstep, h.saved⟩

/-- No request leads out of the text. -/
theorem within_act (h : s.IsWithin text) (request : Request) :
    (act request s).2.IsWithin text := by
  cases request with
  | peek => exact h.read (advances_peek?.map _)
  | next => exact h.read (advances_next?.map _)
  | nth n => exact h.read ((advances_nth? n).map _)
  | take n => exact h.read ((advances_take n).map _)
  | prev => exact h
  | remaining => exact h
  | startsWith value => exact h
  | takeWhile accepts state => exact h.read ((advances_takeWhileFrom _ _).map _)
  | expect ch => exact h.read ((advances_expect ch).map _)
  | expectText value => exact h.read ((advances_expectText value).map _)
  | expectEnd => exact h.read (advances_expectEnd.map _)
  | unexpected expected => exact h.read (advances_unexpected expected)
  | fault cause => exact h.read (advances_fail cause)
  | save => exact ⟨h.cursor, List.forall_mem_cons.2 ⟨h.cursor, h.saved⟩⟩
  | restore n =>
      simp only [act]
      split
      · next c hc => exact ⟨h.saved c (List.mem_of_getElem? hc), h.saved⟩
      · exact h

/-- No number of requests leads out of the text. -/
theorem within_run (h : s.IsWithin text) (requests : List Request) :
    (run requests s).IsWithin text := by
  induction requests generalizing s with
  | nil => exact h
  | cons request requests ih => exact ih (within_act h request)

/-- What a step takes is between the places where it begins and ends. -/
theorem read_map_eq_ok {p : Parser α} {taken : α → String} {f : α → Reply} (hp : Takes p taken)
    (h : (read (f <$> p) s).1 = .ok reply) :
    ∃ a, reply = f a ∧ s.cursor.rest = (taken a).toList ++ (read (f <$> p) s).2.cursor.rest ∧
      (read (f <$> p) s).2.cursor = s.cursor.skip (taken a).toList.length := by
  cases hrun : p s.cursor with
  | ok a c =>
      obtain ⟨hrest, hc⟩ := hp _ _ _ hrun
      have hmap : (f <$> p) s.cursor = .ok (f a) c := by rw [map_apply, hrun]
      have hread : read (f <$> p) s = (.ok (f a), { s with cursor := c }) := by rw [read, hmap]
      rw [hread] at h ⊢
      exact ⟨a, (Except.ok.inj h).symm, hrest, hc⟩
  | error e c =>
      have hmap : (f <$> p) s.cursor = .error e c := by rw [map_apply, hrun]
      rw [read, hmap] at h
      cases h

/-- A text that is handed out as taken is just what the cursor has passed. -/
theorem rest_eq_of_taken? (h : (act request s).1 = .ok reply)
    (htaken : request.taken? reply = some value) :
    s.cursor.rest = value.toList ++ (act request s).2.cursor.rest ∧
      (act request s).2.cursor = s.cursor.skip value.toList.length := by
  cases request with
  | take n =>
      obtain ⟨a, rfl, hrest⟩ := read_map_eq_ok (takes_take n) h
      cases htaken
      exact hrest
  | takeWhile accepts state =>
      obtain ⟨⟨taken, final, calls⟩, rfl, hrest⟩ := read_map_eq_ok (takes_takeWhileFrom _ _) h
      cases htaken
      exact hrest
  | expectText expected =>
      obtain ⟨a, rfl, hrest⟩ := read_map_eq_ok (takes_expectText expected) h
      cases htaken
      exact hrest
  | _ => cases htaken

/-- Wherever a cursor comes to in a session, it stands between two parts of its text and tells what
is so there, and its counters are bounded by the byte where it stands, which is not past the end.
Whatever is asked of it then, a text that it hands out as taken is what it passes, from the place
where it stood to the place where it stands after that. -/
theorem run_sound (text : String) (requests : List Request) :
    let s := run requests (ofText text)
    (∃ front rest, text = front ++ rest ∧ s.cursor.StandsBetween front rest) ∧
    (s.cursor.pos.line - 1) + (s.cursor.pos.column - 1) ≤ s.cursor.pos.byte ∧
    s.cursor.pos.byte ≤ text.utf8ByteSize ∧
    ∀ request reply value, (act request s).1 = .ok reply → request.taken? reply = some value →
      s.cursor.remaining = value ++ (act request s).2.cursor.remaining ∧
        IsSlice text s.cursor.pos.byte (act request s).2.cursor.pos.byte value := by
  intro s
  have hwithin : s.cursor.IsWithin text := (within_run (isWithin_ofText text) requests).cursor
  obtain ⟨front, rest, htext, hstands⟩ := hwithin.standsBetween
  refine ⟨⟨front, rest, htext, hstands⟩, hwithin.bounded.sum, ?_,
    fun request reply value h ht => ?_⟩
  · rw [hstands.byte, htext, String.utf8ByteSize_append]
    exact Nat.le_add_right _ _
  · obtain ⟨hrest, hcursor⟩ := rest_eq_of_taken? h ht
    constructor
    · rw [remaining, remaining, hrest, String.ofList_append, String.ofList_toList]
    · rw [hcursor]
      exact hwithin.isSlice hrest

/-- A text with a character of two bytes and two lines, where a text that is expected differs after
its first character, and the cursor goes back to the places that it was told to remember, to the
first of them first. -/
theorem run_sound_restored :
    let s := run [.save, .next, .save, .expectText "\nx", .restore 1, .take 3, .restore 0]
      (ofText "ä\nb<")
    s.cursor.remaining = "\nb<" ∧ s.cursor.pos = ⟨2, 1, 2⟩ ∧ s.cursor.prev = ⟨0, 1, 1⟩ ∧
    (act (.expectText "\nb") s).1 = .ok (.text "\nb") ∧
    (act (.expectText "\nb") s).2.cursor.pos = ⟨4, 2, 2⟩ ∧
    IsSlice "ä\nb<" 2 4 "\nb" := by
  have hreply : (act (.expectText "\nb")
      (run [.save, .next, .save, .expectText "\nx", .restore 1, .take 3, .restore 0]
        (ofText "ä\nb<"))).1 = .ok (.text "\nb") := rfl
  have hslice := ((run_sound "ä\nb<"
    [.save, .next, .save, .expectText "\nx", .restore 1, .take 3, .restore 0]).2.2.2
      (.expectText "\nb") _ _ hreply rfl).2
  exact ⟨by decide +kernel, by decide +kernel, by decide +kernel, hreply, by decide +kernel, hslice⟩

end Session

end Cursor

end BnfText

import BnfText.Cursor

/-!
# BnfText.Parser

Steps that read text at a cursor and either return a value or report a fault; the cursor stays
where the step left it in both cases.  The steps here know nothing of grammars.

Main statements: every step leaves the cursor at or after the place where it began (`Advances`),
and repeating a step that consumes something ends (`many`).
-/

namespace BnfText

/-- A step that reads text. -/
abbrev Parser := EStateM ParseError Cursor

namespace Parser

variable {α β σ : Type}

/-! ## Looking, taking, expecting -/

/-- The next character, which stays where it is. -/
def peek? : Parser (Option Char) := fun c => .ok c.peek? c

/-- Takes the next character; nothing at the end of the text. -/
def next? : Parser (Option Char) := fun c => .ok c.peek? c.advance

/-- Skips `n` characters and takes the one after them. -/
def nth? (n : Nat) : Parser (Option Char) := fun c => next? (c.skip n)

/-- Takes `n` characters, or what is left if that is less. -/
def take (n : Nat) : Parser String := fun c => .ok (String.ofList (c.rest.take n)) (c.skip n)

/-- Reports a fault at the next character. -/
def fail (cause : Cause) : Parser α := fun c => .error (c.fault cause) c

/-- Reports that something else than the next character was expected. -/
def unexpected (expected : List Expected) : Parser α := fun c => .error (c.unexpected expected) c

/-- Takes the next character, which has to be `ch`. -/
def expect (ch : Char) : Parser Char := fun c =>
  if c.peek? = some ch then .ok ch c.advance else .error (c.unexpected [.char ch]) c

/-- Takes the characters `chars` one after the other; those before a mismatch stay taken. -/
def expectAll : List Char → Parser Unit
  | [] => pure ()
  | ch :: chars => do
    let _ ← expect ch
    expectAll chars

/-- Takes the text `value`, character by character. -/
def expectText (value : String) : Parser String := do
  expectAll value.toList
  return value

/-- Requires the text to end here. -/
def expectEnd : Parser Unit := fun c =>
  if c.peek? = none then .ok () c else .error (c.unexpected [.endOfInput]) c

/-! ## Runs of characters -/

/-- The longest run at the front of a text whose characters are all accepted, and the state that
is left of the test.  The test is asked from left to right, once about each character of the run
and about the one that ends it. -/
def acceptedRun (accepts : Char → StateM σ Bool) (s : σ) (cs : List Char) : List Char × σ :=
  go [] s cs
where
  go (taken : List Char) (s : σ) : List Char → List Char × σ
    | [] => (taken.reverse, s)
    | ch :: rest =>
      match accepts ch s with
      | (true, s) => go (ch :: taken) s rest
      | (false, s) => (taken.reverse, s)

section Run

variable (accepts : Char → StateM σ Bool) (s : σ)

/-- The run collected so far is put in front of what the rest of the text gives. -/
theorem acceptedRun_go (taken cs : List Char) :
    acceptedRun.go accepts taken s cs =
      (taken.reverse ++ (acceptedRun accepts s cs).1, (acceptedRun accepts s cs).2) := by
  induction cs generalizing s taken with
  | nil => simp [acceptedRun, acceptedRun.go]
  | cons ch cs ih =>
      unfold acceptedRun acceptedRun.go
      rcases accepts ch s with ⟨_ | _, s'⟩
      · simp
      · simp [ih s' (ch :: taken), ih s' [ch]]

/-- A run ends before the first character that is rejected; otherwise it goes on after it. -/
theorem acceptedRun_cons (ch : Char) (cs : List Char) :
    acceptedRun accepts s (ch :: cs) =
      match accepts ch s with
      | (true, s') => (ch :: (acceptedRun accepts s' cs).1, (acceptedRun accepts s' cs).2)
      | (false, s') => ([], s') := by
  show acceptedRun.go accepts [] s (ch :: cs) = _
  rw [acceptedRun.go]
  rcases accepts ch s with ⟨_ | _, s'⟩
  · rfl
  · exact acceptedRun_go accepts s' [ch] cs

end Run

/-- Takes characters for as long as they are accepted by a test that keeps a state. -/
def takeWhileFrom (accepts : Char → StateM σ Bool) (s : σ) : Parser (String × σ) := fun c =>
  let (taken, s) := acceptedRun accepts s c.rest
  .ok (String.ofList taken, s) (c.skip taken.length)

/-- Takes characters for as long as `accepts` holds of them. -/
def takeWhile (accepts : Char → Bool) : Parser String := do
  let (taken, _) ← takeWhileFrom (fun ch => pure (accepts ch)) ()
  return taken

/-! ## How far a step goes -/

/-- The cursor that a step leaves behind, whether it succeeded or not. -/
def cursorAfter : EStateM.Result ParseError Cursor α → Cursor
  | .ok _ c => c
  | .error _ c => c

/-- A step that only skips: nothing is passed over twice and nothing is put back. -/
def Advances (p : Parser α) : Prop := ∀ c, ∃ n, cursorAfter (p c) = c.skip n

/-- A step that only skips, and takes at least one character whenever it succeeds. -/
structure Consumes (p : Parser α) : Prop where
  advances : Advances p
  length_lt : ∀ {c a c'}, p c = .ok a c' → c'.rest.length < c.rest.length

/-- A step that only skips leaves no more text than it found. -/
theorem Advances.length_le {p : Parser α} (h : Advances p) {c a c'} (hp : p c = .ok a c') :
    c'.rest.length ≤ c.rest.length := by
  obtain ⟨n, hn⟩ := h c
  rw [hp] at hn
  rw [show c' = c.skip n from hn]
  simp

/-- One step after another succeeds if the first does and the second does on what it left. -/
theorem bind_eq_ok {p : Parser α} {f : α → Parser β} {c b c''} :
    (p >>= f) c = .ok b c'' ↔ ∃ a c', p c = .ok a c' ∧ f a c' = .ok b c'' := by
  show EStateM.bind p f c = _ ↔ _
  unfold EStateM.bind
  cases p c with
  | ok a c' =>
    constructor
    · exact fun h => ⟨a, c', rfl, h⟩
    · rintro ⟨_, _, h, hf⟩
      cases h
      exact hf
  | error e c' => simp

/-- Two steps that only skip do so one after the other, also where the first one fails. -/
theorem Advances.bind {p : Parser α} {f : α → Parser β} (hp : Advances p)
    (hf : ∀ a, Advances (f a)) : Advances (p >>= f) := by
  intro c
  show ∃ n, cursorAfter (EStateM.bind p f c) = c.skip n
  unfold EStateM.bind
  obtain ⟨m, hm⟩ := hp c
  cases h : p c with
  | ok a c' =>
    rw [h] at hm
    obtain ⟨n, hn⟩ := hf a c'
    exact ⟨m + n, by rw [Cursor.skip_add, ← show c' = c.skip m from hm, ← hn]⟩
  | error e c' =>
    rw [h] at hm
    exact ⟨m, hm⟩

/-- If the first of two steps consumes something, both together do. -/
theorem Consumes.bind {p : Parser α} {f : α → Parser β} (hp : Consumes p)
    (hf : ∀ a, Advances (f a)) : Consumes (p >>= f) where
  advances := hp.advances.bind hf
  length_lt h := by
    obtain ⟨a, c', h₁, h₂⟩ := bind_eq_ok.1 h
    exact Nat.lt_of_le_of_lt ((hf a).length_le h₂) (hp.length_lt h₁)

/-- If the second of two steps consumes something, both together do. -/
theorem Advances.bind_consumes {p : Parser α} {f : α → Parser β} (hp : Advances p)
    (hf : ∀ a, Consumes (f a)) : Consumes (p >>= f) where
  advances := hp.bind fun a => (hf a).advances
  length_lt h := by
    obtain ⟨a, c', h₁, h₂⟩ := bind_eq_ok.1 h
    exact Nat.lt_of_lt_of_le ((hf a).length_lt h₂) (hp.length_le h₁)

theorem advances_pure (a : α) : Advances (pure a) := fun _ => ⟨0, rfl⟩

theorem advances_throw (e : ParseError) : Advances (throw e : Parser α) := fun _ => ⟨0, rfl⟩

theorem advances_get : Advances (get : Parser Cursor) := fun _ => ⟨0, rfl⟩

theorem advances_peek? : Advances peek? := fun _ => ⟨0, rfl⟩

theorem advances_next? : Advances next? := fun _ => ⟨1, rfl⟩

/-- Taking the character after `n` others skips at most one more than `n`. -/
theorem advances_nth? (n : Nat) : Advances (nth? n) := fun c => ⟨n + 1, (c.skip_add n 1).symm⟩

theorem advances_take (n : Nat) : Advances (take n) := fun _ => ⟨n, rfl⟩

theorem advances_fail (cause : Cause) : Advances (fail cause : Parser α) := fun _ => ⟨0, rfl⟩

theorem advances_unexpected (expected : List Expected) :
    Advances (unexpected expected : Parser α) := fun _ => ⟨0, rfl⟩

/-- The character expected is skipped; any other is left. -/
theorem advances_expect (ch : Char) : Advances (expect ch) := by
  intro c
  unfold expect
  split
  · exact ⟨1, rfl⟩
  · exact ⟨0, rfl⟩

/-- Where a mismatch is met, the characters before it have been skipped. -/
theorem advances_expectAll (chars : List Char) : Advances (expectAll chars) := by
  induction chars with
  | nil => exact advances_pure ()
  | cons ch chars ih => exact (advances_expect ch).bind fun _ => ih

theorem advances_expectText (value : String) : Advances (expectText value) :=
  (advances_expectAll _).bind fun _ => advances_pure value

theorem advances_expectEnd : Advances expectEnd := by
  intro c
  unfold expectEnd
  split <;> exact ⟨0, rfl⟩

/-- What is skipped is the run that the test accepts. -/
theorem advances_takeWhileFrom (accepts : Char → StateM σ Bool) (s : σ) :
    Advances (takeWhileFrom accepts s) := fun _ => ⟨_, rfl⟩

theorem advances_takeWhile (accepts : Char → Bool) : Advances (takeWhile accepts) :=
  (advances_takeWhileFrom _ _).bind fun _ => advances_pure _

theorem consumes_fail (cause : Cause) : Consumes (fail cause : Parser α) :=
  ⟨advances_fail cause, nofun⟩

theorem consumes_unexpected (expected : List Expected) :
    Consumes (unexpected expected : Parser α) := ⟨advances_unexpected expected, nofun⟩

/-- The character expected is there to be consumed if it is found. -/
theorem consumes_expect (ch : Char) : Consumes (expect ch) where
  advances := advances_expect ch
  length_lt {c a c'} h := by
    unfold expect at h
    split at h
    · rename_i hc
      cases h
      obtain ⟨rest, pos, prev?⟩ := c
      cases rest with
      | nil => cases hc
      | cons => simp [Cursor.advance]
    · cases h

/-! ## Repetition -/

/-- Goes on reading items after `items`, the last of which comes first. -/
def manyFrom (begins : Char → Bool) (item : Parser α) (consumes : Consumes item)
    (items : List α) : Parser (List α) := fun c =>
  if c.peek?.any begins then
    match h : item c with
    | .ok a c' =>
      have : c'.rest.length < c.rest.length := consumes.length_lt h
      manyFrom begins item consumes (a :: items) c'
    | .error e c' => .error e c'
  else .ok items.reverse c
termination_by c => c.rest.length

/-- Reads items for as long as the next character begins one.  Reading an item has to consume
something, so the repetition ends. -/
def many (begins : Char → Bool) (item : Parser α) (consumes : Consumes item) :
    Parser (List α) := manyFrom begins item consumes []

/-- A repetition skips what its items skip, that which fails included. -/
theorem advances_many (begins : Char → Bool) {item : Parser α} (consumes : Consumes item) :
    Advances (many begins item consumes) := by
  intro c
  unfold many
  fun_induction manyFrom begins item consumes [] c with
  | case1 items c _ a c' h _ ih =>
    obtain ⟨m, hm⟩ := consumes.advances c
    obtain ⟨n, hn⟩ := ih
    rw [h] at hm
    exact ⟨m + n, by rw [Cursor.skip_add, ← show c' = c.skip m from hm, hn]⟩
  | case2 items c _ e c' h =>
    obtain ⟨m, hm⟩ := consumes.advances c
    rw [h] at hm
    exact ⟨m, hm⟩
  | case3 items c => exact ⟨0, rfl⟩

end Parser

end BnfText

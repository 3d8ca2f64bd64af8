/-!
# BnfText.Output

Text that is written out piece by piece.  A sink is given the pieces one after the other and may
refuse one; nothing is given to it after that.

* `writeAll_append` — writing goes on with what follows exactly if nothing was refused;
* `Writes` — a step that does at every sink what writing some pieces does, and steps that are put
  together from such.
-/

namespace BnfText

/-- Things that have a printed form, which is written in pieces. -/
class Printable (α : Type) where
  pieces : α → List String

export Printable (pieces)

/-- The printed form as one text. -/
def print {α : Type} [Printable α] (a : α) : String := String.join (pieces a)

/-- Something that text is written to.  `put` offers it a piece and tells whether it took the
whole of it. -/
class Sink (σ : Type) where
  put : String → σ → Bool × σ

/-- Writes pieces until one is refused; tells whether all were taken. -/
def writeAll {σ : Type} [Sink σ] : List String → σ → Bool × σ
  | [], s => (true, s)
  | piece :: pieces, s =>
    match Sink.put piece s with
    | (true, s) => writeAll pieces s
    | (false, s) => (false, s)

/-- Writing two lists of pieces writes the second only if the first was taken whole. -/
theorem writeAll_append {σ : Type} [Sink σ] (ps qs : List String) (s : σ) :
    writeAll (ps ++ qs) s =
      bif (writeAll ps s).1 then writeAll qs (writeAll ps s).2 else writeAll ps s := by
  induction ps generalizing s with
  | nil => rfl
  | cons p ps ih =>
    simp only [List.cons_append, writeAll]
    rcases Sink.put p s with ⟨_ | _, s'⟩
    · rfl
    · exact ih s'

/-! ## Steps that write -/

/-- A step that writes to a sink.  It ends at a piece that the sink refuses. -/
abbrev Writing (σ : Type) := EStateM Unit σ

/-- Whether all was taken of what a step writes, and the sink after it. -/
def Writing.outcome {σ : Type} (w : Writing σ Unit) (s : σ) : Bool × σ :=
  match w s with
  | .ok () s => (true, s)
  | .error () s => (false, s)

/-- Offers a piece. -/
def write {σ : Type} [Sink σ] (piece : String) : Writing σ Unit := fun s =>
  match Sink.put piece s with
  | (true, s) => .ok () s
  | (false, s) => .error () s

/-- A way to write items, each of which knows how to write itself, with a separator between them. -/
def Joining : Type 1 := (σ : Type) → [Sink σ] → String → List (Writing σ Unit) → Writing σ Unit

/-- The items are written in order, the separator before each but the first, up to the first piece
that is refused.  Nothing is said of an empty separator. -/
structure Joining.InOrder (join : Joining) : Prop where
  nil : ∀ (σ : Type) [Sink σ] {separator : String}, separator ≠ "" →
    join σ separator [] = pure ()
  cons : ∀ (σ : Type) [Sink σ] {separator : String}, separator ≠ "" →
    ∀ (w : Writing σ Unit) (ws : List (Writing σ Unit)),
      join σ separator (w :: ws) = do w; ws.forM fun w => do write separator; w

/-- Writes the items with the separator put between them. -/
def inTurn : Joining := fun _ _ separator ws => (ws.intersperse (write separator)).forM id

/-- By induction on the items after the first, since a separator comes before each of them. -/
theorem inTurn_inOrder : inTurn.InOrder where
  nil _ _ _ _ := rfl
  cons σ _ separator _ w ws := by
    induction ws generalizing w with
    | nil => rfl
    | cons w' ws ih =>
        have hrest := ih w'
        simp only [inTurn, List.forM_eq_forM, List.intersperse_cons_cons, List.forM_cons, id_eq,
          bind_assoc] at hrest ⊢
        rw [hrest]

/-! ## What the steps write -/

section Writes

variable {σ : Type} [Sink σ]

/-- A step does at every sink what writing `ps` does. -/
def Writes (w : Writing σ Unit) (ps : List String) : Prop := ∀ s, w.outcome s = writeAll ps s

/-- A step that does nothing writes no pieces. -/
theorem writes_pure : Writes (pure () : Writing σ Unit) [] := fun _ => rfl

/-- A piece is one piece. -/
theorem writes_write (piece : String) : Writes (write piece : Writing σ Unit) [piece] := by
  intro s
  rw [Writing.outcome, write, writeAll]
  rcases Sink.put piece s with ⟨_ | _, s'⟩ <;> rfl

/-- What is written by one step after another is written as by one, since nothing is offered after a
piece that was refused. -/
theorem Writes.bind {w w' : Writing σ Unit} {ps qs : List String} (h : Writes w ps)
    (h' : Writes w' qs) : Writes (do w; w') (ps ++ qs) := by
  intro s
  rw [writeAll_append, ← h s]
  unfold Writing.outcome
  show (match EStateM.bind w (fun _ => w') s with
    | .ok () s => (true, s)
    | .error () s => (false, s)) = _
  unfold EStateM.bind
  cases w s with
  | ok _ s' => exact h' s'
  | error _ s' => rfl

/-- A step for each of some items writes the pieces of all of them. -/
theorem writes_forM {α : Type} {f : α → Writing σ Unit} {ps : α → List String}
    (h : ∀ a, Writes (f a) (ps a)) (as : List α) : Writes (as.forM f) (as.flatMap ps) := by
  induction as with
  | nil => exact writes_pure
  | cons a as ih => exact (h a).bind ih

end Writes

/-! ## Sinks with little room -/

/-- A sink with room for some characters.  Of a piece that does not fit it takes the front that
does. -/
structure CharRoom where
  /-- What has been written. -/
  text : String
  /-- How many characters still fit. -/
  room : Nat

/-- A sink for `n` characters. -/
def CharRoom.empty (n : Nat) : CharRoom := ⟨"", n⟩

instance : Sink CharRoom where
  put piece s :=
    (piece.length ≤ s.room,
      { text := s.text ++ String.ofList (piece.toList.take s.room)
        room := s.room - piece.length })

/-- A sink with room for some UTF-8 bytes.  Of a piece that does not fit it takes nothing. -/
structure ByteRoom where
  /-- The pieces that have been taken. -/
  taken : Array String
  /-- How many bytes still fit. -/
  room : Nat

/-- A sink for `n` bytes. -/
def ByteRoom.empty (n : Nat) : ByteRoom := ⟨#[], n⟩

instance : Sink ByteRoom where
  put piece s :=
    if piece.utf8ByteSize ≤ s.room then
      (true, { taken := s.taken.push piece, room := s.room - piece.utf8ByteSize })
    else (false, s)

end BnfText

import BnfText.Grammar.Node
import BnfText.Proofs.Printing
import Mathlib.Order.Bounds.Defs

/-!
# BnfText.Proofs.Sinks

Trees that are written to a sink which may refuse.  The steps that write a tree end where something
is refused, and offer the pieces of its printed form up to there (`Node.writes_display`).

* `writeAll_charRoom` — of a text, a sink with room for some characters has the front that fits;
* `writeAll_logged` — whatever the sink, nothing is offered to it after a piece that it refused;
* `isGreatest_fitting`, `writeAll_logged_byteRoom` — of pieces, a sink with room for some bytes has
  as many as fit before the first that does not;
* `Node.outcome_display` — what becomes of a tree that is written to a sink;
* `writeSpelled_byteRoom` — what becomes of the text of a symbol, of which no escape is cut.
-/

namespace BnfText

/-! ## Sinks with room for some characters -/

/-- Of the text that is written, the sink has the front that fits; all is taken if all fits. -/
theorem writeAll_charRoom (ps : List String) (s : CharRoom) :
    writeAll ps s =
      (decide ((ps.flatMap String.toList).length ≤ s.room),
        { text := s.text ++ String.ofList ((ps.flatMap String.toList).take s.room)
          room := s.room - (ps.flatMap String.toList).length }) := by
  induction ps generalizing s with
  | nil => simp [writeAll]
  | cons p ps ih =>
      have hput : Sink.put p s = (decide (p.length ≤ s.room),
          { text := s.text ++ String.ofList (p.toList.take s.room)
            room := s.room - p.length }) := rfl
      have hlength : p.toList.length = p.length := String.length_toList
      rw [writeAll, hput, List.flatMap_cons, List.length_append, List.take_append, hlength]
      by_cases hfits : p.length ≤ s.room
      · have hiff : (ps.flatMap String.toList).length ≤ s.room - p.length ↔
            p.length + (ps.flatMap String.toList).length ≤ s.room := by omega
        simp only [hfits, decide_true, ih, hiff, Nat.sub_sub, String.ofList_append,
          String.append_assoc]
      · -- The piece takes what room there is, and nothing that comes after it fits.
        have hmore : ¬ p.length + (ps.flatMap String.toList).length ≤ s.room := by omega
        have hfull : s.room - p.length = 0 := by omega
        have hroom : s.room - (p.length + (ps.flatMap String.toList).length) = 0 := by omega
        simp only [hfits, hmore, decide_false, hfull, hroom, List.take_zero, List.append_nil]

/-! ## What a sink is offered -/

/-- A sink and what it has been offered, each piece with whether it was taken. -/
structure Logged (σ : Type) where
  sink : σ
  offers : List (String × Bool)

instance {σ : Type} [Sink σ] : Sink (Logged σ) where
  put piece s :=
    ((Sink.put piece s.sink).1,
      { sink := (Sink.put piece s.sink).2
        offers := s.offers ++ [(piece, (Sink.put piece s.sink).1)] })

/-- The first of the pieces are offered and taken, and one more is offered and refused unless these
are all. -/
theorem writeAll_logged {σ : Type} [Sink σ] (ps : List String) (s : Logged σ) :
    ∃ k ≤ ps.length, writeAll ps s =
      (decide (k = ps.length),
        { sink := (writeAll ps s.sink).2
          offers := s.offers ++ (ps.take k).map (·, true) ++
            ((ps.drop k).take 1).map (·, false) }) := by
  induction ps generalizing s with
  | nil => exact ⟨0, Nat.le_refl 0, by simp [writeAll]⟩
  | cons p ps ih =>
      have hput : Sink.put p s = ((Sink.put p s.sink).1,
          { sink := (Sink.put p s.sink).2
            offers := s.offers ++ [(p, (Sink.put p s.sink).1)] }) := rfl
      rw [writeAll, hput, writeAll]
      rcases Sink.put p s.sink with ⟨_ | _, sink⟩
      · exact ⟨0, Nat.zero_le _, by simp⟩
      · obtain ⟨k, hk, h⟩ := ih ⟨sink, s.offers ++ [(p, true)]⟩
        exact ⟨k + 1, Nat.succ_le_succ hk, by simp [h]⟩

/-- A sink is written to as if nobody kept a log of it. -/
theorem writeAll_sink {σ : Type} [Sink σ] (ps : List String) (s : Logged σ) :
    writeAll ps s.sink = ((writeAll ps s).1, (writeAll ps s).2.sink) := by
  induction ps generalizing s with
  | nil => rfl
  | cons p ps ih =>
      have hput : Sink.put p s = ((Sink.put p s.sink).1,
          { sink := (Sink.put p s.sink).2
            offers := s.offers ++ [(p, (Sink.put p s.sink).1)] }) := rfl
      rw [writeAll, writeAll, hput]
      rcases Sink.put p s.sink with ⟨_ | _, sink⟩
      · rfl
      · exact ih ⟨sink, s.offers ++ [(p, true)]⟩

/-! ## Sinks with room for some bytes -/

/-- How many pieces fit in `room` bytes, one after the other up to the first that does not. -/
def fitting (room : Nat) : List String → Nat
  | [] => 0
  | p :: ps => if p.utf8ByteSize ≤ room then fitting (room - p.utf8ByteSize) ps + 1 else 0

/-- No longer run of pieces fits, since a piece that does not fit is part of all that are longer. -/
theorem isGreatest_fitting (room : Nat) (ps : List String) :
    IsGreatest {k | k ≤ ps.length ∧ (String.join (ps.take k)).utf8ByteSize ≤ room}
      (fitting room ps) := by
  induction ps generalizing room with
  | nil =>
      refine ⟨⟨Nat.le_refl 0, ?_⟩, fun k hk => hk.1⟩
      simp [String.join_nil]
  | cons p ps ih =>
      have hsize (k : Nat) : (String.join ((p :: ps).take (k + 1))).utf8ByteSize =
          p.utf8ByteSize + (String.join (ps.take k)).utf8ByteSize := by
        rw [List.take_succ_cons, String.join_cons, String.utf8ByteSize_append]
      rw [fitting]
      by_cases hfits : p.utf8ByteSize ≤ room
      · obtain ⟨⟨hlen, hroom⟩, hmost⟩ := ih (room - p.utf8ByteSize)
        rw [if_pos hfits]
        refine ⟨⟨Nat.succ_le_succ hlen, ?_⟩, ?_⟩
        · rw [hsize]
          omega
        · -- A run that is not empty has `p` first, so it is a run of `ps` in the room left by `p`.
          rintro (_ | k) ⟨hk, hkroom⟩
          · exact Nat.zero_le _
          · rw [hsize] at hkroom
            have hle := hmost ⟨Nat.le_of_succ_le_succ hk, by omega⟩
            exact Nat.succ_le_succ hle
      · rw [if_neg hfits]
        refine ⟨⟨Nat.zero_le _, ?_⟩, ?_⟩
        · simp [String.join_nil]
        · rintro (_ | k) ⟨_, hkroom⟩
          · exact Nat.le_refl 0
          · rw [hsize] at hkroom
            omega

/-- The pieces that fit are offered and taken, and of the others the first is offered. -/
theorem writeAll_logged_byteRoom (ps : List String) (s : Logged ByteRoom) :
    let k := fitting s.sink.room ps
    writeAll ps s =
      (decide (k = ps.length),
        { sink :=
            { taken := s.sink.taken ++ (ps.take k).toArray
              room := s.sink.room - (String.join (ps.take k)).utf8ByteSize }
          offers := s.offers ++ (ps.take k).map (·, true) ++
            ((ps.drop k).take 1).map (·, false) }) := by
  induction ps generalizing s with
  | nil => simp [writeAll, fitting, String.join_nil]
  | cons p ps ih =>
      obtain ⟨⟨taken, room⟩, offers⟩ := s
      by_cases hfits : p.utf8ByteSize ≤ room
      · have hput : Sink.put p (⟨⟨taken, room⟩, offers⟩ : Logged ByteRoom) =
            (true, ⟨⟨taken.push p, room - p.utf8ByteSize⟩, offers ++ [(p, true)]⟩) := by
          simp [Sink.put, hfits]
        simp [writeAll, hput, ih, fitting, hfits, String.join_cons, Nat.sub_sub]
      · have hput : Sink.put p (⟨⟨taken, room⟩, offers⟩ : Logged ByteRoom) =
            (false, ⟨⟨taken, room⟩, offers ++ [(p, false)]⟩) := by
          simp [Sink.put, hfits]
        simp [writeAll, hput, fitting, hfits, String.join_nil]

/-! ## Trees that are written to a sink -/

/-- A tree is written to a sink as the pieces of its printed form.  A sink with room for `n`
characters gets the first `n` of that form, and takes all just if it has no more.  Whatever the
sink, no piece is offered to it after one that it refused. -/
theorem Node.outcome_display {join : Joining} (hjoin : join.InOrder) (node : Node) :
    (∀ n : Nat, (node.display join).outcome (CharRoom.empty n) =
      (decide ((print node).length ≤ n),
        { text := String.ofList ((print node).toList.take (min n (print node).length))
          room := n - (print node).length })) ∧
    (∀ {σ : Type} [Sink σ] (s : σ), ∃ k ≤ (pieces node).length,
      (node.display join).outcome (⟨s, []⟩ : Logged σ) =
        (decide (k = (pieces node).length),
          { sink := ((node.display join).outcome s).2
            offers := ((pieces node).take k).map (·, true) ++
              (((pieces node).drop k).take 1).map (·, false) })) ∧
    ∀ {σ : Type} [Sink σ] (s : σ), (node.display join).outcome s = writeAll (pieces node) s := by
  have hwrites {σ : Type} [Sink σ] (s : σ) := node.writes_display hjoin s
  refine ⟨fun n => ?_, fun s => ?_, hwrites⟩
  · have hprinted : (pieces node).flatMap String.toList = (print node).toList :=
      (printed_eq_flatMap node).symm
    have hlength : (print node).toList.length = (print node).length := String.length_toList
    rw [hwrites, writeAll_charRoom, hprinted, hlength, ← hlength, List.take_eq_take_min]
    rfl
  · simpa only [hwrites, List.nil_append] using writeAll_logged (pieces node) ⟨s, []⟩

/-- Room for ten characters ends inside an escape of `<a> ::= "\"" | ;`. -/
theorem Node.outcome_display_escape :
    inTurn.InOrder ∧
      (Node.display inTurn
          (.production ⟨⟨"a"⟩, [⟨[.ofSymbol (⟨"\""⟩ : Terminal)]⟩, ⟨[]⟩]⟩)).outcome
        (CharRoom.empty 10) = (false, ⟨"<a> ::= \"\\", 0⟩) := by
  refine ⟨inTurn_inOrder, ?_⟩
  rw [(Node.outcome_display inTurn_inOrder _).1 10]
  rfl

/-! ## Texts of symbols that are written to a sink -/

/-- The first characters of a text are spelled as the first of its pieces. -/
theorem spelledPieces_take (s : String) (k : Nat) :
    spelledPieces (String.ofList (s.toList.take k)) = (spelledPieces s).take k := by
  rw [spelledPieces, String.toList_ofList, List.map_take, spelledPieces]

/-- A sink with room for `n` bytes gets the spelling of as many characters of a text as fit, from
the first one on, and a piece for each of them; it takes all just if these are all characters.  The
character after them is offered to it, and no other: a shorter one further on that would fit is not
written, and no part of an escape is. -/
theorem writeSpelled_byteRoom (s : String) (n : Nat) :
    ∃ k taken,
      IsGreatest {j | j ≤ s.length ∧
        (spelled (String.ofList (s.toList.take j))).utf8ByteSize ≤ n} k ∧
      taken.toList = (s.toList.take k).map spell ∧
      String.join taken.toList = spelled (String.ofList (s.toList.take k)) ∧
      (writeSpelled s).outcome (ByteRoom.empty n) =
        (decide (k = s.length), ⟨taken, n - (String.join taken.toList).utf8ByteSize⟩) ∧
      ((writeSpelled s).outcome (⟨.empty n, []⟩ : Logged ByteRoom)).2.offers =
        taken.toList.map (·, true) ++ (((s.toList.drop k).take 1).map spell).map (·, false) ∧
      ∀ {σ : Type} [Sink σ] (sink : σ),
        (writeSpelled s).outcome sink = writeAll (spelledPieces s) sink := by
  have hwrites {σ : Type} [Sink σ] (sink : σ) := writes_spelled s sink
  have hlength : (spelledPieces s).length = s.length := by
    rw [spelledPieces, List.length_map, String.length_toList]
  have hjoin (j : Nat) : spelled (String.ofList (s.toList.take j)) =
      String.join ((spelledPieces s).take j) := by
    rw [spelled, spelledPieces_take]
  have hlogged := writeAll_logged_byteRoom (spelledPieces s) ⟨.empty n, []⟩
  have hsink := writeAll_sink (spelledPieces s) (⟨.empty n, []⟩ : Logged ByteRoom)
  simp only [hjoin, ← hlength]
  refine ⟨fitting n (spelledPieces s),
    ((spelledPieces s).take (fitting n (spelledPieces s))).toArray,
    isGreatest_fitting n (spelledPieces s), ?_, rfl, ?_, ?_, hwrites⟩
  · exact List.map_take.symm
  · rw [hwrites, hsink, hlogged, ByteRoom.empty, Array.empty_append]
  · rw [hwrites, hlogged]
    simp [ByteRoom.empty, spelledPieces]

/-- The escape does not fit in the byte that is left, where the letter after it would. -/
example : (writeAll (spelledPieces "a\"b") (ByteRoom.empty 2)).2.taken = #["a"] := by decide +kernel

end BnfText

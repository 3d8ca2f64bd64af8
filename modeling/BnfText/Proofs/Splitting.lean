import BnfText.Proofs.Printing

/-!
# BnfText.Proofs.Splitting

Texts that can be taken apart in one way only.  The texts of some values split off if a text that
begins with one of them, and goes on as it may, tells which one it is and where it ends.

* `SplitsOff.flatMap`, `SplitsOff.intercalate` — lists of texts that can be told from what follows;
* `PrefixFree` — texts that can be told from whatever follows;
* `splitsOff_until` — characters before one that is not among them.
-/

namespace BnfText

section SplitsOff

variable {α : Type} {valid : α → Prop} {shown : α → List Char} {follow stop : List Char → Prop}

/-- The texts of the values that are `valid` can be split off the front of a text in one way at
most, as long as what is left is something to `follow` them. -/
def SplitsOff (valid : α → Prop) (shown : α → List Char) (follow : List Char → Prop) : Prop :=
  ∀ ⦃a b : α⦄, valid a → valid b → ∀ ⦃u v : List Char⦄, follow u → follow v →
    shown a ++ u = shown b ++ v → a = b ∧ u = v

/-- No text of a `valid` value stands at the front of `w`. -/
def NoneBegins (valid : α → Prop) (shown : α → List Char) (w : List Char) : Prop :=
  ∀ a, valid a → ¬ shown a <+: w

namespace SplitsOff

/-- A whole text is split off where nothing may follow. -/
theorem eq_of_eq (h : SplitsOff valid shown follow) (hnil : follow []) {a b : α} (ha : valid a)
    (hb : valid b) (heq : shown a = shown b) : a = b :=
  (h ha hb hnil hnil (by rw [heq])).1

/-- With a separator that makes way for it, anything may follow. -/
theorem append (h : SplitsOff valid shown follow) {sep : List Char}
    (hsep : ∀ u, follow (sep ++ u)) : SplitsOff valid (fun a => shown a ++ sep) fun _ => True := by
  intro a b ha hb u v _ _ heq
  rw [List.append_assoc, List.append_assoc] at heq
  obtain ⟨hab, hrest⟩ := h ha hb (hsep u) (hsep v) heq
  exact ⟨hab, List.append_cancel_left hrest⟩

/-- What stands before every text does not matter. -/
theorem prepend (h : SplitsOff valid shown follow) (sep : List Char) :
    SplitsOff valid (fun a => sep ++ shown a) follow := by
  intro a b ha hb u v hu hv heq
  rw [List.append_assoc, List.append_assoc] at heq
  exact h ha hb hu hv (List.append_cancel_left heq)

/-- What is left of a run of values is something to follow a value, be the run empty or not. -/
theorem follow_flatMap (hnext : ∀ a u, valid a → follow (shown a ++ u)) {as : List α}
    {u : List Char} (has : ∀ a ∈ as, valid a) (hu : follow u) :
    follow (as.flatMap shown ++ u) := by
  cases as with
  | nil => exact hu
  | cons a as =>
      rw [List.flatMap_cons, List.append_assoc]
      exact hnext a _ (has a List.mem_cons_self)

/-- A list of values can be told from what follows it, if more of them may follow each value and
none begins what follows the list. -/
theorem flatMap (h : SplitsOff valid shown follow)
    (hnext : ∀ a u, valid a → follow (shown a ++ u))
    (hstop : ∀ u, stop u → follow u ∧ NoneBegins valid shown u) :
    SplitsOff (fun as : List α => ∀ a ∈ as, valid a) (List.flatMap shown) stop := by
  intro as
  induction as with
  | nil =>
      intro bs _ hbs u v hu _ heq
      cases bs with
      | nil => exact ⟨rfl, heq⟩
      | cons b bs =>
          rw [List.flatMap_cons, List.append_assoc] at heq
          exact absurd ⟨_, heq.symm⟩ ((hstop u hu).2 b (hbs b List.mem_cons_self))
  | cons a as ih =>
      intro bs has hbs u v hu hv heq
      rw [List.flatMap_cons, List.append_assoc] at heq
      cases bs with
      | nil => exact absurd ⟨_, heq⟩ ((hstop v hv).2 a (has a List.mem_cons_self))
      | cons b bs =>
          obtain ⟨ha, has'⟩ := List.forall_mem_cons.1 has
          obtain ⟨hb, hbs'⟩ := List.forall_mem_cons.1 hbs
          rw [List.flatMap_cons, List.append_assoc] at heq
          -- The first values are told apart first, since what is after them may follow a value.
          have hu' := follow_flatMap hnext has' (hstop u hu).1
          have hv' := follow_flatMap hnext hbs' (hstop v hv).1
          obtain ⟨rfl, hrest⟩ := h ha hb hu' hv' heq
          obtain ⟨rfl, rfl⟩ := ih has' hbs' hu hv hrest
          exact ⟨rfl, rfl⟩

/-- The same for a list that is not empty and has separators between the values. -/
theorem intercalate (h : SplitsOff valid shown follow) {sep : List Char}
    (hsep : ∀ u, follow (sep ++ u))
    (hstop : ∀ u, stop u → follow u ∧ NoneBegins valid (fun a => sep ++ shown a) u) :
    SplitsOff (fun as : List α => as ≠ [] ∧ ∀ a ∈ as, valid a)
      (fun as => sep.intercalate (as.map shown)) stop := by
  have hnext : ∀ a u, valid a → follow (sep ++ shown a ++ u) := by
    intro a u _
    rw [List.append_assoc]
    exact hsep _
  have hfurther := (h.prepend sep).flatMap hnext hstop
  rintro (_ | ⟨a, as⟩) (_ | ⟨b, bs⟩) ⟨hne, has⟩ ⟨hne', hbs⟩ u v hu hv heq
  · exact absurd rfl hne
  · exact absurd rfl hne
  · exact absurd rfl hne'
  · obtain ⟨ha, has'⟩ := List.forall_mem_cons.1 has
    obtain ⟨hb, hbs'⟩ := List.forall_mem_cons.1 hbs
    simp only [List.map_cons, intercalate_cons, List.flatMap_map] at heq
    rw [List.append_assoc, List.append_assoc] at heq
    have hu' := follow_flatMap hnext has' (hstop u hu).1
    have hv' := follow_flatMap hnext hbs' (hstop v hv).1
    obtain ⟨rfl, hrest⟩ := h ha hb hu' hv' heq
    obtain ⟨rfl, rfl⟩ := hfurther has' hbs' hu hv hrest
    exact ⟨rfl, rfl⟩

end SplitsOff

end SplitsOff

/-! ## Whatever follows -/

section PrefixFree

variable {α : Type} {shown : α → List Char}

/-- The texts of the values can be split off the front of a text, whatever is left. -/
def PrefixFree (shown : α → List Char) : Prop := SplitsOff (fun _ => True) shown fun _ => True

/-- Texts that differ cannot be made the same by what follows. -/
theorem PrefixFree.cancel (h : PrefixFree shown) {a b : α} {u v : List Char}
    (heq : shown a ++ u = shown b ++ v) : a = b ∧ u = v := h trivial trivial trivial trivial heq

theorem PrefixFree.injective (h : PrefixFree shown) : Function.Injective shown := fun _ _ heq =>
  h.eq_of_eq trivial trivial trivial heq

theorem PrefixFree.of_cancel
    (h : ∀ (a b : α) (u v : List Char), shown a ++ u = shown b ++ v → a = b ∧ u = v) :
    PrefixFree shown := fun a b _ _ u v _ _ heq => h a b u v heq

end PrefixFree

/-- Characters are told from what follows by one that is not among them. -/
theorem splitsOff_until (x : Char) :
    SplitsOff (fun cs : List Char => ∀ c ∈ cs, c ≠ x) id fun u => u.head? = some x := by
  have hchar : SplitsOff (· ≠ x) (fun c : Char => [c]) fun _ => True := by
    intro c d _ _ u v _ _ heq
    exact List.cons.inj heq
  have hrun := hchar.flatMap (fun _ _ _ => trivial) fun u (hu : u.head? = some x) => by
    refine ⟨trivial, fun c hc hbegins => ?_⟩
    obtain ⟨w, rfl⟩ := List.head?_eq_some_iff.1 hu
    exact hc (List.cons_prefix_cons.1 hbegins).1
  intro cs ds hcs hds u v hu hv heq
  rw [id, id] at heq
  refine hrun hcs hds hu hv ?_
  rwa [List.flatMap_singleton', List.flatMap_singleton']

end BnfText

import BnfText.Proofs.Reading.Grammar

/-!
# BnfText.Proofs.Completion

A fault is found as early as it can be.  What stands before the reported place can still be
completed to a text that is read, and nothing beyond the offending character has been looked at.

* `Grammar.Fault.completable` — before a fault the text can be completed;
* `Grammar.Fault.congr` — what follows the offending character does not matter to the fault;
* `Grammar.parse_prefix_correct` — both, and which faulty texts can be completed.
-/

namespace BnfText

open BnfText.Parser

/-! ## Completing a text -/

/-- `t` is the front of a text that `D` derives something with. -/
def Completable {α : Type} (D : List Char → α → Prop) (t : List Char) : Prop :=
  ∃ u a, D (t ++ u) a

/-- What completes a longer text completes its front. -/
theorem Completable.of_append {α : Type} {D : List Char → α → Prop} {t u : List Char}
    (h : Completable D (t ++ u)) : Completable D t := by
  obtain ⟨v, a, ha⟩ := h
  exact ⟨u ++ v, a, by rwa [← List.append_assoc]⟩

/-- A run of items can be completed if the item that is begun after it can. -/
theorem Star.completable {α : Type} {D : List Char → α → Prop} {t u : List Char} {as : List α}
    (hstar : Star (DerivesThenBlanks D) t as) (h : Completable D u) :
    ∃ v a, Star (DerivesThenBlanks D) (t ++ u ++ v) (as ++ [a]) := by
  obtain ⟨v, a, ha⟩ := h
  have hall := hstar.append (.singleton (DerivesThenBlanks.of_derives ha))
  rw [← List.append_assoc] at hall
  exact ⟨v, a, hall⟩

/-- A symbol that has begun can still be closed. -/
theorem SymbolKind.Fault.completable {kind : SymbolKind} {t w : List Char} {cause : Cause}
    (h : kind.Fault t cause w) : Completable (@Symbol.Derives kind) t := by
  cases h with
  | unterminated hstar => exact ⟨[kind.closing], _, Symbol.derives_of_star hstar⟩
  | unterminatedEscape hstar =>
      -- The escape that is begun can become that of a backslash.
      have hescape : kind.DerivesChar ['\\', '\\'] '\\' := .escape .backslash
      have hs := Symbol.derives_of_star (hstar.append (.singleton hescape))
      exact ⟨['\\', kind.closing], _, by simpa using hs⟩
  | invalidEscape hstar _ => exact ⟨[kind.closing], _, Symbol.derives_of_star hstar⟩
  | unexpected hstar _ _ => exact ⟨[kind.closing], _, Symbol.derives_of_star hstar⟩

/-- A symbol that begins can be empty. -/
theorem SymbolKind.completable_opening (kind : SymbolKind) :
    Completable (@Symbol.Derives kind) [kind.opening] :=
  ⟨[kind.closing], _, Symbol.derives_of_star .nil⟩

/-- A term can be completed if its symbol can. -/
theorem Term.completable_of_symbol {kind : SymbolKind} {t : List Char}
    (h : Completable (@Symbol.Derives kind) t) : Completable Term.Derives t := by
  obtain ⟨u, s, hs⟩ := h
  exact ⟨u, ⟨kind, s⟩, Term.derives_iff.2 hs⟩

/-- Where a term is due, an empty terminal will do. -/
theorem Term.completable_nil : Completable Term.Derives [] :=
  ⟨['"', '"'], _, .terminal (.terminal .nil)⟩

namespace Expression

variable {t u w : List Char} {cause : Cause}

/-- An alternative can be completed where a term of it can. -/
theorem completable_append {terms : List Term}
    (hstar : Star (DerivesThenBlanks Term.Derives) t terms) (h : Completable Term.Derives u) :
    Completable Expression.Derives (t ++ u) := by
  obtain ⟨v, term, hall⟩ := hstar.completable h
  exact ⟨v, ⟨terms ++ [term]⟩, derives_iff.2 ⟨by simp, hall⟩⟩

/-- Where an alternative is due, one of a single term will do. -/
theorem completable_nil : Completable Expression.Derives [] :=
  completable_append .nil Term.completable_nil

/-- Before a fault an alternative can be completed. -/
theorem Fault.completable (h : Fault t cause w) : Completable Expression.Derives t := by
  cases h with
  | empty _ => exact completable_nil
  | missing _ _ _ => exact completable_nil
  | symbol hstar hfault =>
      exact completable_append hstar (Term.completable_of_symbol hfault.completable)

/-- One alternative will do for a right-hand side. -/
theorem completableAll_of (h : Completable Expression.Derives t) :
    Completable Expression.DerivesAll t := by
  obtain ⟨v, e, he⟩ := h
  have hall := Expression.DerivesAll.mk he .nil
  rw [List.append_nil] at hall
  exact ⟨v, [e], hall⟩

/-- A right-hand side can be completed where an alternative after a bar can. -/
theorem completableAll_later {b : List Char} {es : List Expression}
    (hall : Expression.DerivesAll t es) (hb : DerivesBlanks b)
    (h : Completable Expression.Derives u) :
    Completable Expression.DerivesAll (t ++ '|' :: (b ++ u)) := by
  obtain ⟨v, e, he⟩ := h
  have hmore := hall.concat hb he
  exact ⟨v, _, by simpa using hmore⟩

/-- Before a fault a right-hand side can be completed. -/
theorem FaultAll.completable (h : FaultAll t cause w) : Completable Expression.DerivesAll t := by
  cases h with
  | none _ => exact completableAll_of completable_nil
  | first _ hfault => exact completableAll_of hfault.completable
  | later hall hb _ hfault => exact completableAll_later hall hb hfault.completable

end Expression

namespace Production

variable {t b₁ b₂ u v w : List Char} {lhs : Nonterminal} {cause : Cause}

/-- The rule for a production with its parts from left to right. -/
theorem derives_assoc {rhs : List Expression} (hlhs : Symbol.Derives t lhs)
    (hb₁ : DerivesBlanks b₁) (hb₂ : DerivesBlanks b₂) (hall : Expression.DerivesAll u rhs) :
    Production.Derives (t ++ (b₁ ++ ([':', ':', '='] ++ (b₂ ++ u))) ++ [';']) ⟨lhs, rhs⟩ := by
  have hderives := Production.Derives.mk hlhs hb₁ hb₂ hall
  simpa using hderives

/-- After a left-hand side the sign and any right-hand side will do. -/
theorem completable_rhs (hlhs : Symbol.Derives t lhs) (hb₁ : DerivesBlanks b₁)
    (hb₂ : DerivesBlanks b₂) (h : Completable Expression.DerivesAll u) :
    Completable Production.Derives (t ++ (b₁ ++ ([':', ':', '='] ++ (b₂ ++ u)))) := by
  obtain ⟨v, rhs, hall⟩ := h
  have hderives := derives_assoc hlhs hb₁ hb₂ hall
  exact ⟨v ++ [';'], ⟨lhs, rhs⟩, by simpa using hderives⟩

/-- A production can be completed where its left-hand side can: blanks, the sign and a right-hand
side follow. -/
theorem completable_lhs (h : Completable (@Symbol.Derives .nonterminal) t) :
    Completable Production.Derives t := by
  obtain ⟨v, lhs, hlhs⟩ := h
  obtain ⟨v', p, hp⟩ := completable_rhs hlhs derivesBlanks_nil derivesBlanks_nil
    (Expression.completableAll_of Expression.completable_nil)
  simp only [List.append_assoc] at hp
  exact ⟨_, p, hp⟩

/-- Before a fault a production can be completed. -/
theorem Fault.completable (h : Fault t cause w) : Completable Production.Derives t := by
  cases h with
  | missing _ => exact completable_lhs ⟨['<', '>'], _, .nonterminal .nil⟩
  | lhs hfault => exact completable_lhs hfault.completable
  | @sign t b x rest _ c lhs hlhs hb hsign _ _ =>
      obtain ⟨v, p, hp⟩ := completable_rhs hlhs hb derivesBlanks_nil
        (Expression.completableAll_of Expression.completable_nil)
      rw [hsign] at hp
      simp only [List.append_assoc] at hp
      exact ⟨c :: rest ++ v, p, by simpa using hp⟩
  | rhs hlhs hb₁ hb₂ _ hfault => exact completable_rhs hlhs hb₁ hb₂ hfault.completable
  | unfinished hlhs hb₁ hb₂ hall _ _ => exact ⟨[';'], _, derives_assoc hlhs hb₁ hb₂ hall⟩

end Production

namespace Grammar

variable {t w w' : List Char} {cause : Cause}

/-- A grammar can be completed where a production can that is due. -/
theorem completable_append {u : List Char} {ps : List Production}
    (hstar : Star (DerivesThenBlanks Production.Derives) t ps)
    (h : Completable Production.Derives u) : Completable Grammar.Derives (t ++ u) := by
  obtain ⟨v, p, hall⟩ := hstar.completable h
  exact ⟨v, ⟨ps ++ [p]⟩, derives_iff.2 ⟨by simp, hall⟩⟩

/-- What stands before a fault can be completed. -/
theorem Fault.completable (h : Fault t cause w) : Completable Grammar.Derives t := by
  cases h with
  | production hstar _ hfault => exact completable_append hstar hfault.completable
  | trailing hg _ _ => exact ⟨[], _, by rwa [List.append_nil]⟩

/-! ## What is looked at -/

/-- A fault shows the offending character, and what follows that does not matter. -/
theorem Fault.congr (h : Fault t cause w)
    (hw : w'.take (cause.overrun + 1) = w.take (cause.overrun + 1)) : Fault t cause w' := by
  have hfail := fails_readToEnd_iff.2 h
  exact fails_readToEnd_iff.1 (predictive_readToEnd.fails_congr hfail hw)

/-- The cause of a fault is what the text shows at its place. -/
theorem Fault.standsAt (h : Fault t cause w) : cause.StandsAt w :=
  predictive_readToEnd.standsAt (fails_readToEnd_iff.2 h)

end Grammar

/-- Whether the fault is that the text ends too early. -/
def Cause.isAtEnd : Cause → Bool
  | .unexpected _ none => true
  | .unterminated _ => true
  | _ => false

/-- A fault is that the text ends if nothing is left where it stands. -/
theorem Cause.StandsAt.eq_nil_iff {w : List Char} {cause : Cause} (h : cause.StandsAt w) :
    w = [] ↔ cause.isAtEnd = true := by
  cases cause with
  | unexpected expected actual =>
      have hactual : w.head? = actual := h
      subst hactual
      cases w <;> simp [isAtEnd]
  | invalidEscape letter =>
      obtain ⟨w', hw⟩ := h
      simp [hw, isAtEnd]
  | unterminated closing => simp [show w = [] from h, isAtEnd]
  | noAlternatives =>
      have hhead : w.head? = some ';' := h
      cases w with
      | nil => simp at hhead
      | cons => simp [isAtEnd]
  | emptyAlternative =>
      have hhead : w.head? = some '|' ∨ w.head? = some ';' := h
      cases w with
      | nil => simp at hhead
      | cons => simp [isAtEnd]

/-- The offending character, with the backslash of an escape before it, stands in the text. -/
theorem Cause.StandsAt.overrun_lt_length {w : List Char} {cause : Cause} (h : cause.StandsAt w)
    (hend : cause.isAtEnd = false) : cause.overrun < w.length := by
  have hne : w ≠ [] := fun hw => by simp [h.eq_nil_iff.1 hw] at hend
  have hpos := List.length_pos_iff.2 hne
  cases cause with
  | invalidEscape letter =>
      obtain ⟨w', hw⟩ := h
      simp [hw, overrun]
  | _ => simpa [overrun] using hpos

/-! ## Faulty texts -/

/-- The two ways of counting the bytes of a text agree. -/
theorem Position.byteLength_toList (s : String) : byteLength s.toList = s.utf8ByteSize := by
  suffices h : ∀ cs, byteLength cs = (String.ofList cs).utf8ByteSize by
    rw [h, String.ofList_toList]
  intro cs
  induction cs with
  | nil => rfl
  | cons c cs ih =>
      rw [byteLength_cons, ih, String.ofList_cons, String.utf8ByteSize_append,
        String.utf8ByteSize_singleton]

/-- The byte offset after a text is its size. -/
theorem Position.byte_after (s : String) : (after s.toList).byte = s.utf8ByteSize :=
  byteLength_toList s

namespace Grammar

variable {text front rest : String} {e : ParseError}

/-- Whether a text is read. -/
def Accepts (text : String) : Prop := ∃ g, parse text = .ok g

/-- Whether a text is read once something is appended to it. -/
def CanBeCompleted (text : String) : Prop := ∃ more, Accepts (text ++ more)

/-- A text can be completed to one that is read if it can be to one that is derived. -/
theorem canBeCompleted_iff : CanBeCompleted text ↔ Completable Grammar.Derives text.toList := by
  constructor
  · intro ⟨more, g, h⟩
    rw [parse_eq_ok_iff, String.toList_append] at h
    exact ⟨more.toList, g, h⟩
  · intro ⟨u, g, h⟩
    refine ⟨String.ofList u, g, parse_eq_ok_iff.2 ?_⟩
    rwa [String.toList_append, String.toList_ofList]

/-- The place of a fault splits the text: the fault is one of the front before the rest. -/
theorem exists_fault_of_parse (h : parse text = .error e) :
    ∃ front rest : String, text = front ++ rest ∧ Fault front.toList e.cause rest.toList ∧
      e.pos = .after front.toList := by
  obtain ⟨t, w, htext, hfault, hpos⟩ := parse_eq_error_iff.1 h
  have heq : text = String.ofList t ++ String.ofList w := by
    rw [← String.ofList_append, ← htext, String.ofList_toList]
  rw [← String.toList_ofList (l := t)] at hfault hpos
  rw [← String.toList_ofList (l := w)] at hfault
  exact ⟨_, _, heq, hfault, hpos⟩

/-- A fault of the rules is the fault that is reported, and at the place after the front. -/
theorem parse_of_fault (h : Fault front.toList e.cause rest.toList)
    (hpos : e.pos = .after front.toList) : parse (front ++ rest) = .error e :=
  parse_eq_error_iff.2 ⟨_, _, String.toList_append, h, hpos⟩

/-- Unless the text ends too early, reading it stops after the offending character. -/
theorem exists_seen_of_fault (h : Fault front.toList e.cause rest.toList)
    (hpos : e.pos = .after front.toList) (hend : e.cause.isAtEnd = false) :
    ∃ seen unseen : String, rest = seen ++ unseen ∧ seen.length = e.cause.overrun + 1 ∧
      ∀ more, parse (front ++ seen ++ more) = .error e := by
  have hlen := h.standsAt.overrun_lt_length hend
  let seen := rest.toList.take (e.cause.overrun + 1)
  have hseen : seen.length = e.cause.overrun + 1 := by
    rw [List.length_take]
    omega
  refine ⟨String.ofList seen, String.ofList (rest.toList.drop (e.cause.overrun + 1)), ?_, ?_, ?_⟩
  · rw [← String.ofList_append, List.take_append_drop, String.ofList_toList]
  · rw [String.length_ofList, hseen]
  · intro more
    rw [String.append_assoc]
    refine parse_of_fault (h.congr ?_) hpos
    rw [String.toList_append, String.toList_ofList, List.take_left' hseen]

/-- What stands before a fault can be completed to a text that is read. -/
theorem canBeCompleted_front (h : Fault front.toList e.cause rest.toList) :
    CanBeCompleted front := canBeCompleted_iff.2 h.completable

/-- A faulty text can be completed just if its fault is that it ends. -/
theorem canBeCompleted_iff_isAtEnd (h : parse text = .error e) :
    CanBeCompleted text ↔ e.cause.isAtEnd = true := by
  obtain ⟨front, rest, rfl, hfault, hpos⟩ := exists_fault_of_parse h
  constructor
  · intro ⟨more, g, hread⟩
    cases hend : e.cause.isAtEnd with
    | true => rfl
    | false =>
        obtain ⟨seen, unseen, rfl, _, hseen⟩ := exists_seen_of_fault hfault hpos hend
        have herror := hseen (unseen ++ more)
        simp only [← String.append_assoc] at herror
        rw [← String.append_assoc, herror] at hread
        cases hread
  · intro hend
    have hrest := hfault.standsAt.eq_nil_iff.2 hend
    rw [String.toList_eq_nil_iff.1 hrest, String.append_empty]
    exact canBeCompleted_front hfault

/-- What stands before the place of a fault can be completed.  Unless the text just ends too early,
the fault stays the same whatever follows the offending character; so the texts that can still be
completed are those that are read or end too early. -/
theorem parse_prefix_correct (text : String) :
    (∀ e, parse text = .error e →
      ∃ front rest, text = front ++ rest ∧ front.utf8ByteSize = e.pos.byte ∧
        CanBeCompleted front ∧
        (e.cause.isAtEnd = false →
          ∃ seen unseen, rest = seen ++ unseen ∧ seen.length = e.cause.overrun + 1 ∧
            ∀ more, parse (front ++ seen ++ more) = .error e) ∧
        (CanBeCompleted text ↔ e.cause.isAtEnd = true)) ∧
    ∀ more, Accepts (text ++ more) →
      Accepts text ∨ ∃ e, parse text = .error e ∧ e.cause.isAtEnd = true := by
  constructor
  · intro e h
    obtain ⟨front, rest, htext, hfault, hpos⟩ := exists_fault_of_parse h
    have hbyte : front.utf8ByteSize = e.pos.byte := by
      rw [hpos, ← Position.byteLength_toList]
      rfl
    exact ⟨front, rest, htext, hbyte, canBeCompleted_front hfault,
      exists_seen_of_fault hfault hpos, canBeCompleted_iff_isAtEnd h⟩
  · intro more hmore
    cases h : parse text with
    | ok g => exact .inl ⟨g, h⟩
    | error e => exact .inr ⟨e, rfl, (canBeCompleted_iff_isAtEnd h).1 ⟨more, hmore⟩⟩

/-- The fronts of a text are told by their sizes. -/
theorem eq_of_append_eq_of_utf8ByteSize_eq {s s' t t' : String} (h : s ++ t = s' ++ t')
    (hlen : s.utf8ByteSize = s'.utf8ByteSize) : s = s' ∧ t = t' := by
  have hlists := congrArg String.toList h
  rw [String.toList_append, String.toList_append] at hlists
  rw [← Position.byteLength_toList, ← Position.byteLength_toList] at hlen
  have hfront := Position.eq_of_append_eq_of_byteLength_eq hlists hlen
  rw [hfront] at hlists
  exact ⟨String.toList_injective hfront, String.toList_injective (List.append_cancel_left hlists)⟩

/-- An escape that there is not, in a terminal of the second production: what stands before it can
be completed, and it stays a fault whatever follows its letter.  A text that ends in the sign of a
production can be completed, as it must be if a text that goes on so is read. -/
theorem parse_prefix_correct_escape :
    parse "<a>::=\"\";<b>::=\"\\q" = .error ⟨.invalidEscape 'q', ⟨16, 1, 17⟩⟩ ∧
    CanBeCompleted "<a>::=\"\";<b>::=\"" ∧ ¬ CanBeCompleted "<a>::=\"\";<b>::=\"\\q" ∧
    (∀ more, parse ("<a>::=\"\";<b>::=\"" ++ "\\q" ++ more) =
      .error ⟨.invalidEscape 'q', ⟨16, 1, 17⟩⟩) ∧
    CanBeCompleted "<a>:" ∧ Accepts ("<a>:" ++ ":=\"\";") ∧
    ∃ e, parse "<a>:" = .error e ∧ e.cause.isAtEnd = true := by
  have hparse : parse "<a>::=\"\";<b>::=\"\\q" = .error ⟨.invalidEscape 'q', ⟨16, 1, 17⟩⟩ := by
    decide +kernel
  -- The front and what is seen of the rest are known by their sizes.
  obtain ⟨front, rest, htext, hbyte, hfront, hseen, hiff⟩ := (parse_prefix_correct _).1 _ hparse
  have hsplit : "<a>::=\"\";<b>::=\"\\q" = "<a>::=\"\";<b>::=\"" ++ "\\q" := by decide
  obtain ⟨rfl, rfl⟩ := eq_of_append_eq_of_utf8ByteSize_eq (htext.symm.trans hsplit) hbyte
  obtain ⟨seen, unseen, hrest, hlen, hmore⟩ := hseen rfl
  have hlists : ['\\', 'q'] ++ [] = seen.toList ++ unseen.toList := by
    rw [← String.toList_append, ← hrest]
    decide
  obtain ⟨hletter, _⟩ := List.append_inj hlists (by rw [String.length_toList, hlen]; rfl)
  obtain rfl : "\\q" = seen := String.toList_injective hletter
  have hend : parse "<a>:" = .error ⟨.unexpected [.char ':'] none, ⟨4, 1, 5⟩⟩ := by decide +kernel
  have hread : Accepts ("<a>:" ++ ":=\"\";") :=
    ⟨⟨[⟨⟨"a"⟩, [⟨[.ofSymbol (⟨""⟩ : Terminal)]⟩]⟩]⟩, by decide +kernel⟩
  obtain ⟨_, _, _, _, _, _, hbegun⟩ := (parse_prefix_correct _).1 _ hend
  refine ⟨hparse, hfront, fun h => absurd (hiff.1 h) Bool.false_ne_true, hmore, hbegun.2 rfl,
    hread, ((parse_prefix_correct _).2 _ hread).resolve_left fun ⟨g, hg⟩ => ?_⟩
  rw [hend] at hg
  cases hg

end Grammar

end BnfText

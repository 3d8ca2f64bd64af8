import BnfText.Proofs.Canonical
import BnfText.Proofs.Completion

/-!
# BnfText.Proofs.Diagnosis

What a fault says of the text it is found in.

* `Cause.Truthful` — what a cause says of what stands before the place of the fault and after it;
* `Grammar.parse_error_truthful` — that is so, and the place is counted from the text;
* `Cause.Offers` — what is listed as acceptable would do there, and does not stand there;
* `Grammar.parse_error_offers` — each thing that a fault lists can follow what stands before it.
-/

namespace BnfText

open BnfText.Parser

/-! ## The end of a text -/

/-- A text without the blanks at its end. -/
def trimEnd (t : List Char) : List Char := (t.reverse.dropWhile isBlank).reverse

/-- Whether `t` ends with `v`, the blanks at its end left out. -/
def EndsWith (v t : List Char) : Prop := v <:+ trimEnd t

section EndsWith

variable {b t u v : List Char} {c : Char}

/-- Blanks at the end of a text do not count for how it ends. -/
theorem trimEnd_append_blanks (hb : DerivesBlanks b) : trimEnd (t ++ b) = trimEnd t := by
  have hblank : ∀ c ∈ b.reverse, isBlank c = true := by
    simpa using derivesBlanks_iff.1 hb
  rw [trimEnd, List.reverse_append, List.dropWhile_append_of_pos hblank, trimEnd]

/-- A text that ends in a character that is no blank ends there. -/
theorem trimEnd_concat (hc : isBlank c = false) : trimEnd (t ++ [c]) = t ++ [c] := by
  simp [trimEnd, hc]

/-- What stands before blanks is what the text ends with. -/
theorem endsWith_concat (hc : isBlank c = false) (hb : DerivesBlanks b) :
    EndsWith (v ++ [c]) (u ++ (v ++ [c] ++ b)) := by
  have htrim : trimEnd (u ++ (v ++ [c] ++ b)) = u ++ v ++ [c] := by
    rw [← List.append_assoc, trimEnd_append_blanks hb, ← List.append_assoc, trimEnd_concat hc]
  rw [EndsWith, htrim, List.append_assoc]
  exact List.suffix_append u (v ++ [c])

/-- After the sign and blanks a text ends with the sign. -/
theorem endsWith_sign (hb : DerivesBlanks b) :
    EndsWith [':', ':', '='] (u ++ ([':', ':', '='] ++ b)) :=
  endsWith_concat (v := [':', ':']) (by decide) hb

theorem endsWith_bar (hb : DerivesBlanks b) : EndsWith ['|'] (u ++ (['|'] ++ b)) :=
  endsWith_concat (v := []) (by decide) hb

end EndsWith

/-! ## What a cause says -/

/-- What a cause says of the text it is found in, which is `front` and then `rest`. -/
def Cause.Truthful (front rest : List Char) : Cause → Prop
  | .unexpected _ actual => rest.head? = actual ∧ (rest = [] → Closed front)
  | .invalidEscape letter =>
    (∃ more, rest = '\\' :: letter :: more) ∧ letter ∉ ['"', 'n', 't', '\\'] ∧
      ∃ kind, Scan.outside.after front = .inside kind false
  | .unterminated closing =>
    rest = [] ∧ ∃ kind protecting, Scan.outside.after front = .inside kind protecting ∧
      closing = kind.closing
  | .noAlternatives => rest.head? = some ';' ∧ EndsWith [':', ':', '='] front
  | .emptyAlternative =>
    rest.head? = some '|' ∧ (EndsWith [':', ':', '='] front ∨ EndsWith ['|'] front) ∨
      rest.head? = some ';' ∧ EndsWith ['|'] front

section Truthful

variable {before t u w : List Char} {c : Char} {cause : Cause}

theorem Closed.append (ht : Closed t) (hu : Closed u) : Closed (t ++ u) := by
  rw [Closed, Scan.after_append, ht, hu]

/-- After a closed text a scan goes on as if the text began there. -/
theorem Closed.after_append (ht : Closed t) (u : List Char) :
    Scan.outside.after (t ++ u) = Scan.outside.after u := by
  rw [Scan.after_append, ht]

theorem closed_blanks (h : DerivesBlanks t) : Closed t := (Scan.strips_blanks h).closed

/-- No literal is opened without a delimiter that opens it. -/
theorem closed_of_forall (h : ∀ c ∈ t, SymbolKind.ofOpening? c = none) : Closed t := by
  induction t with
  | nil => rfl
  | cons c t ih =>
      have hstep : Scan.outside.step c = .outside := by
        simp [Scan.step, h c List.mem_cons_self]
      rw [Closed, Scan.after_cons, hstep]
      exact ih fun d hd => h d (List.mem_cons_of_mem _ hd)

/-- Every front of the sign stands outside the literals. -/
theorem closed_of_sign {rest : List Char} (h : [':', ':', '='] = t ++ rest) : Closed t := by
  refine closed_of_forall fun c hc => ?_
  have hmem : c ∈ [':', ':', '='] := by simp [h, hc]
  have hsign : c = ':' ∨ c = '=' := by simpa using hmem
  rcases hsign with rfl | rfl <;> rfl

/-- A letter that means nothing is none of those that mean something. -/
theorem not_mem_of_unescape? (h : unescape? c = none) : c ∉ ['"', 'n', 't', '\\'] := by
  intro hmem
  simp only [List.mem_cons, List.not_mem_nil, or_false] at hmem
  rcases hmem with rfl | rfl | rfl | rfl <;> simp [unescape?] at h

/-- An unexpected character is truthful outside the literals: the character is the one that stands
there, and if it is the end, no literal is open. -/
theorem truthful_unexpected (hclosed : Closed t) (expected : List Expected) :
    (Cause.unexpected expected w.head?).Truthful t w := ⟨rfl, fun _ => hclosed⟩

/-- The faults of a symbol are truthful wherever it stands outside other literals.  An open literal
is its own. -/
theorem SymbolKind.Fault.truthful {kind : SymbolKind} (h : kind.Fault t cause w)
    (hclosed : Closed before) : cause.Truthful (before ++ t) w := by
  have hafter := hclosed.after_append t
  cases h with
  | unterminated hstar =>
      rw [(strips_front hstar).after_eq] at hafter
      exact ⟨rfl, kind, false, hafter, rfl⟩
  | unterminatedEscape hstar =>
      rw [← List.cons_append, Scan.after_append _ (kind.opening :: _),
        (strips_front hstar).after_eq] at hafter
      exact ⟨rfl, kind, true, hafter, rfl⟩
  | invalidEscape hstar hletter =>
      rw [(strips_front hstar).after_eq] at hafter
      exact ⟨⟨_, rfl⟩, not_mem_of_unescape? hletter, kind, hafter⟩
  | unexpected _ _ _ => exact ⟨rfl, nofun⟩

namespace Expression

/-- An alternative is due after the sign, where it is not the semicolon that stands, or after a
bar. -/
theorem Fault.truthful (h : Fault t cause w) (hclosed : Closed before)
    (hdue : EndsWith [':', ':', '='] before ∧ (t ++ w).head? ≠ some ';' ∨ EndsWith ['|'] before) :
    cause.Truthful (before ++ t) w := by
  cases h with
  | empty hhead =>
      rw [List.append_nil]
      rcases hdue with ⟨hsign, hne⟩ | hbar
      · exact .inl ⟨hhead.resolve_right hne, .inl hsign⟩
      · exact hhead.imp (fun hhead => ⟨hhead, .inr hbar⟩) fun hhead => ⟨hhead, hbar⟩
  | missing _ _ _ =>
      rw [List.append_nil]
      exact truthful_unexpected hclosed _
  | symbol hstar hfault =>
      rw [← List.append_assoc]
      exact hfault.truthful (hclosed.append (Term.strips_of_star hstar).closed)

theorem FaultAll.truthful (h : FaultAll t cause w) (hclosed : Closed before)
    (hsign : EndsWith [':', ':', '='] before) : cause.Truthful (before ++ t) w := by
  cases h with
  | none hhead =>
      rw [List.append_nil]
      exact ⟨hhead, hsign⟩
  | first hhead hfault => exact hfault.truthful hclosed (.inl ⟨hsign, hhead⟩)
  | @later t b u w es cause hall hb _ hfault =>
      have hbar : Closed ['|'] := rfl
      have hclosed' := (hclosed.append (strips_of_derivesAll hall).closed).append
        (hbar.append (closed_blanks hb))
      have htruth := hfault.truthful hclosed' (.inr (endsWith_bar hb))
      simpa using htruth

end Expression

/-- The faults of a production are truthful wherever it stands outside the literals. -/
theorem Production.Fault.truthful (h : Production.Fault t cause w) (hclosed : Closed before) :
    cause.Truthful (before ++ t) w := by
  have hlhs : ∀ {t : List Char} {lhs : Nonterminal}, Symbol.Derives t lhs → Closed (before ++ t) :=
    fun h => hclosed.append (Symbol.strips_of_derives h).closed
  cases h with
  | missing _ =>
      rw [List.append_nil]
      exact truthful_unexpected hclosed _
  | lhs hfault => exact hfault.truthful hclosed
  | sign hs hb hsign _ _ =>
      have hfront := ((hlhs hs).append (closed_blanks hb)).append (closed_of_sign hsign)
      simp only [List.append_assoc] at hfront
      exact truthful_unexpected hfront _
  | rhs hs hb₁ hb₂ _ hfault =>
      have hbefore := ((hlhs hs).append (closed_blanks hb₁)).append
        (Scan.strips_sign.closed.append (closed_blanks hb₂))
      have htruth := hfault.truthful hbefore (endsWith_sign hb₂)
      simpa only [List.append_assoc] using htruth
  | unfinished hs hb₁ hb₂ hall _ _ =>
      have hrhs := (closed_blanks hb₂).append (Expression.strips_of_derivesAll hall).closed
      have hfront := ((hlhs hs).append (closed_blanks hb₁)).append
        (Scan.strips_sign.closed.append hrhs)
      simp only [List.append_assoc] at hfront
      exact truthful_unexpected hfront _

/-- Every fault of a text shows what its cause says. -/
theorem Grammar.Fault.truthful (h : Grammar.Fault t cause w) : cause.Truthful t w := by
  cases h with
  | production hstar _ hfault => exact hfault.truthful (Production.strips_of_star hstar).closed
  | trailing _ _ _ => exact ⟨rfl, nofun⟩

end Truthful

namespace Grammar

variable {text : String} {e : ParseError}

/-- The place of a fault is that of a character or the end of the text, and its line and its column
are those of the text before it.  What the cause says is what the text shows there. -/
theorem parse_error_truthful (h : parse text = .error e) :
    ∃ front rest : String, text = front ++ rest ∧ e.pos.byte = front.utf8ByteSize ∧
      e.pos.line = 1 + front.toList.count '\n' ∧
      e.pos.column = 1 + (front.toList.reverse.takeWhile (· ≠ '\n')).length ∧
      e.cause.Truthful front.toList rest.toList := by
  obtain ⟨front, rest, htext, hfault, hpos⟩ := exists_fault_of_parse h
  refine ⟨front, rest, htext, ?_, ?_, ?_, hfault.truthful⟩
  · rw [hpos, Position.byte_after]
  · rw [hpos, Nat.add_comm]
    rfl
  · rw [hpos, Nat.add_comm]
    rfl

/-- A bar with no alternative after it, and a text that ends in an escape. -/
theorem parse_error_truthful_bar :
    parse "<a>\n::= \"x\"\n|\t;" = .error ⟨.emptyAlternative, ⟨14, 3, 3⟩⟩ ∧
    parse "<a>\n::= \"x\\" = .error ⟨.unterminated '"', ⟨11, 2, 8⟩⟩ ∧
    (∃ front rest : String, "<a>\n::= \"x\"\n|\t;" = front ++ rest ∧ 14 = front.utf8ByteSize ∧
      Cause.emptyAlternative.Truthful front.toList rest.toList) ∧
    ∃ front rest : String, "<a>\n::= \"x\\" = front ++ rest ∧ 11 = front.utf8ByteSize ∧
      (Cause.unterminated '"').Truthful front.toList rest.toList := by
  have hbar : parse "<a>\n::= \"x\"\n|\t;" = .error ⟨.emptyAlternative, ⟨14, 3, 3⟩⟩ := by
    decide +kernel
  have hescape : parse "<a>\n::= \"x\\" = .error ⟨.unterminated '"', ⟨11, 2, 8⟩⟩ := by
    decide +kernel
  obtain ⟨front, rest, htext, hbyte, _, _, htruth⟩ := parse_error_truthful hbar
  obtain ⟨front', rest', htext', hbyte', _, _, htruth'⟩ := parse_error_truthful hescape
  exact ⟨hbar, hescape, ⟨front, rest, htext, hbyte, htruth⟩,
    ⟨front', rest', htext', hbyte', htruth'⟩⟩

end Grammar

/-! ## What would have been accepted -/

/-- The thing that stands where a text goes on: a character, or the end. -/
def Expected.ofNext : Option Char → Expected
  | some c => .char c
  | none => .endOfInput

/-- What the cause lists as acceptable after `t` are characters, at least one, with each of which
`t` can be completed to something that `D` derives.  None of them is the one that stands there. -/
def Cause.Offers {α : Type} (D : List Char → α → Prop) (t : List Char) (cause : Cause) : Prop :=
  ∀ expected actual, cause = .unexpected expected actual →
    ∃ cs : List Char, expected = cs.map .char ∧ cs ≠ [] ∧
      ∀ c ∈ cs, actual ≠ some c ∧ Completable D (t ++ [c])

section Offers

variable {α β : Type} {D : List Char → α → Prop} {D' : List Char → β → Prop}
  {t u w : List Char} {cause : Cause}

/-- A list of characters is offered if each of them can follow and none of them stands there. -/
theorem offers_chars (cs : List Char) {actual : Option Char} (hne : cs ≠ [])
    (h : ∀ c ∈ cs, actual ≠ some c ∧ Completable D (t ++ [c])) :
    (Cause.unexpected (cs.map .char) actual).Offers D t := by
  intro expected actual' hcause
  injection hcause with hexpected hactual
  exact ⟨cs, hexpected.symm, hne, hactual ▸ h⟩

/-- One character is offered if it can follow and does not stand there. -/
theorem offers_char {c : Char} {actual : Option Char} (hne : actual ≠ some c)
    (h : Completable D (t ++ [c])) : (Cause.unexpected [.char c] actual).Offers D t :=
  offers_chars [c] (by simp) (by simpa using ⟨hne, h⟩)

/-- What can follow a part can follow what the part completes. -/
theorem Cause.Offers.imp (h : cause.Offers D u)
    (hD : ∀ v, Completable D (u ++ v) → Completable D' (t ++ v)) : cause.Offers D' t := by
  intro expected actual hcause
  obtain ⟨cs, hexpected, hne, hcs⟩ := h expected actual hcause
  exact ⟨cs, hexpected, hne, fun c hc => ⟨(hcs c hc).1, hD _ (hcs c hc).2⟩⟩

/-- Where a symbol has a fault that lists something, it could be closed. -/
theorem SymbolKind.Fault.offers {kind : SymbolKind} (h : kind.Fault t cause w) :
    cause.Offers (@Symbol.Derives kind) t := by
  cases h with
  | unterminated _ => exact nofun
  | unterminatedEscape _ => exact nofun
  | invalidEscape _ _ => exact nofun
  | @unexpected t cs w c hstar _ hne =>
      have hchar : some c ≠ some kind.closing := fun hc => hne (Option.some.inj hc)
      have hsymbol := Symbol.derives_of_star hstar
      exact offers_char hchar ⟨[], _, by rwa [List.append_nil]⟩

/-- A term begins with the delimiter of either kind, so where none begins neither of the two stands.
-/
theorem Term.head?_ne_opening (h : nextIs Term.begins w = false) (kind : SymbolKind) :
    w.head? ≠ some kind.opening := by
  intro hhead
  rw [nextIs, hhead, Option.any_some, Term.begins_opening] at h
  cases h

/-- Where a term is due, either kind of symbol can begin. -/
theorem Term.offers_missing (h : nextIs Term.begins w = false) :
    (Cause.unexpected [.char '<', .char '"'] w.head?).Offers Term.Derives [] := by
  have hkind : ∀ kind : SymbolKind, w.head? ≠ some kind.opening ∧
      Completable Term.Derives ([] ++ [kind.opening]) := fun kind =>
    ⟨Term.head?_ne_opening h kind, Term.completable_of_symbol kind.completable_opening⟩
  exact offers_chars ['<', '"'] (by simp)
    (by simpa using ⟨hkind .nonterminal, hkind .terminal⟩)

namespace Expression

/-- What an alternative lists as acceptable can follow in an alternative. -/
theorem Fault.offers (h : Fault t cause w) : cause.Offers Expression.Derives t := by
  cases h with
  | empty _ => exact nofun
  | missing hnone _ _ =>
      exact (Term.offers_missing hnone).imp fun v hv => completable_append .nil hv
  | symbol hstar hfault =>
      refine hfault.offers.imp fun v hv => ?_
      rw [List.append_assoc]
      exact completable_append hstar (Term.completable_of_symbol hv)

theorem FaultAll.offers (h : FaultAll t cause w) : cause.Offers Expression.DerivesAll t := by
  cases h with
  | none _ => exact nofun
  | first _ hfault => exact hfault.offers.imp fun v hv => completableAll_of hv
  | later hall hb _ hfault =>
      refine hfault.offers.imp fun v hv => ?_
      simpa using completableAll_later hall hb hv

end Expression

namespace Production

/-- What a production lists as acceptable can follow in a production. -/
theorem Fault.offers (h : Fault t cause w) : cause.Offers Production.Derives t := by
  cases h with
  | missing hne =>
      exact offers_char hne (completable_lhs SymbolKind.nonterminal.completable_opening)
  | lhs hfault => exact hfault.offers.imp fun v hv => completable_lhs hv
  | @sign t b x rest _ c lhs hlhs hb hsign _ hne =>
      have hrhs := completable_rhs hlhs hb derivesBlanks_nil
        (Expression.completableAll_of Expression.completable_nil)
      rw [hsign] at hrhs
      refine offers_char hne (Completable.of_append (u := rest) ?_)
      simpa using hrhs
  | rhs hlhs hb₁ hb₂ _ hfault =>
      refine hfault.offers.imp fun v hv => ?_
      simpa using completable_rhs hlhs hb₁ hb₂ hv
  | unfinished hlhs hb₁ hb₂ hall _ hne =>
      have hderives := derives_assoc hlhs hb₁ hb₂ hall
      exact offers_char hne ⟨[], _, by rwa [List.append_nil]⟩

/-- A production can begin with its opening delimiter. -/
theorem completable_opening : Completable Production.Derives ['<'] :=
  completable_lhs SymbolKind.nonterminal.completable_opening

end Production

end Offers

namespace Grammar

variable {t w : List Char} {expected : List Expected} {actual : Option Char} {text : String}
  {e : ParseError}

/-- The end of the text is listed only where a grammar has been read. -/
theorem Fault.offers (h : Fault t (.unexpected expected actual) w) :
    expected ≠ [] ∧ Expected.ofNext actual ∉ expected ∧
      (∀ c, .char c ∈ expected → Completable Grammar.Derives (t ++ [c])) ∧
      (.endOfInput ∈ expected → ∃ g, Grammar.Derives t g) := by
  cases h with
  | production hstar _ hfault =>
      obtain ⟨cs, rfl, hne, hcs⟩ := hfault.offers _ _ rfl
      refine ⟨by simpa using hne, ?_, fun c hc => ?_, by simp⟩
      · cases actual with
        | none => simp [Expected.ofNext]
        | some c =>
            have hc : c ∉ cs := fun hc => (hcs c hc).1 rfl
            simpa [Expected.ofNext] using hc
      · have hc : c ∈ cs := by simpa using hc
        rw [List.append_assoc]
        exact completable_append hstar (hcs c hc).2
  | @trailing _ w g c hg hblank hbegins =>
      have hne : c ≠ '<' := of_decide_eq_false hbegins
      have hopening := completable_append (derives_iff.1 hg).2 Production.completable_opening
      refine ⟨by simp, by simpa [Expected.ofNext] using hne, fun d hd => ?_, fun _ => ⟨g, hg⟩⟩
      obtain rfl : d = '<' := by simpa using hd
      exact hopening

/-- Where a fault lists what would have been accepted, the list is not empty and what stands there
is not in it.  A text can be completed that goes on from there with a character of the list, and
where the end of the text is listed, the text is a grammar if it ends there. -/
theorem parse_error_offers (h : parse text = .error e)
    (hcause : e.cause = .unexpected expected actual) :
    ∃ front rest : String, text = front ++ rest ∧ e.pos.byte = front.utf8ByteSize ∧
      expected ≠ [] ∧ Expected.ofNext actual ∉ expected ∧
      (∀ c, .char c ∈ expected → CanBeCompleted (front ++ String.singleton c)) ∧
      (.endOfInput ∈ expected → Accepts front) := by
  obtain ⟨front, rest, htext, hfault, hpos⟩ := exists_fault_of_parse h
  rw [hcause] at hfault
  obtain ⟨hne, hnot, hchars, hend⟩ := hfault.offers
  refine ⟨front, rest, htext, ?_, hne, hnot, fun c hc => ?_, fun hmem => ?_⟩
  · rw [hpos, Position.byte_after]
  · rw [canBeCompleted_iff, String.toList_append, String.toList_singleton]
    exact hchars c hc
  · obtain ⟨g, hg⟩ := hend hmem
    exact ⟨g, parse_eq_ok_iff.2 hg⟩

/-- After a grammar either another production or the end of the text would do. -/
theorem parse_error_offers_trailing :
    parse "<a> ::= <b>;\nfoo" =
      .error ⟨.unexpected [.char '<', .endOfInput] (some 'f'), ⟨13, 2, 1⟩⟩ ∧
    ∃ front rest : String, "<a> ::= <b>;\nfoo" = front ++ rest ∧ 13 = front.utf8ByteSize ∧
      CanBeCompleted (front ++ "<") ∧ Accepts front := by
  have htrailing : parse "<a> ::= <b>;\nfoo" =
      .error ⟨.unexpected [.char '<', .endOfInput] (some 'f'), ⟨13, 2, 1⟩⟩ := by
    decide +kernel
  obtain ⟨front, rest, htext, hbyte, _, _, hchars, hend⟩ := parse_error_offers htrailing rfl
  exact ⟨htrailing, front, rest, htext, hbyte, hchars '<' (by simp), hend (by simp)⟩

end Grammar

end BnfText

import BnfText.Error
import BnfText.Proofs.Splitting

/-!
# BnfText.Proofs.Wording

A message tells the fault.  What varies in a wording stands where the text around it shows where it
ends: a character between quotes, of which none is shown as a quote; the things that would have been
accepted before a comma, an "or" or a bracket; the line and the column before a colon.

* `toDigits_injective`, `splitsOff_toDigits` — a number is told by its digits;
* `Unicode.prefixFree_visible` — a character is told by how it is shown, whatever follows;
* `Cause.expectation_injective` — enumerations of any length;
* `Cause.eq_of_message_eq` — the causes, of which each begins with a letter that few share;
* `ParseError.message_unambiguous` — causes and faults.
-/

namespace BnfText

open Unicode

/-! ## Numbers -/

section Digits

variable {b : Nat}

/-- The digits of a base up to sixteen are told apart. -/
theorem digitChar_injective : ∀ d < 16, ∀ e < 16, Nat.digitChar d = Nat.digitChar e → d = e := by
  decide

/-- The digits of a number are digits of its base. -/
theorem mem_toDigits (hb : 1 < b) {n : Nat} {c : Char} (hc : c ∈ b.toDigits n) :
    ∃ d < b, c = Nat.digitChar d := by
  induction n using Nat.strongRecOn with
  | _ n ih =>
      rw [Nat.toDigits_eq_if hb] at hc
      split at hc
      case isTrue hn => exact ⟨n, hn, List.mem_singleton.1 hc⟩
      case isFalse hn =>
        obtain hc | hc := List.mem_append.1 hc
        · exact ih (n / b) (Nat.div_lt_self (by omega) hb) hc
        · exact ⟨n % b, Nat.mod_lt _ (by omega), List.mem_singleton.1 hc⟩

/-- The last digit is the rest of a division by the base, and the digits before it are those of the
quotient. -/
theorem toDigits_injective (hb : 1 < b) (hb' : b ≤ 16) : Function.Injective b.toDigits := by
  intro n
  induction n using Nat.strongRecOn with
  | _ n ih =>
      intro m heq
      rw [Nat.toDigits_eq_if hb (n := n), Nat.toDigits_eq_if hb (n := m)] at heq
      -- A single digit is never the same as several, so both numbers are below the base or neither.
      split at heq <;> split at heq
      case isTrue.isTrue hn hm =>
        exact digitChar_injective n (by omega) m (by omega) (List.singleton_inj.1 heq)
      case isTrue.isFalse hn hm =>
        exact absurd (List.append_eq_singleton_iff.1 heq.symm) (by simp [Nat.toDigits_ne_nil])
      case isFalse.isTrue hn hm =>
        exact absurd (List.append_eq_singleton_iff.1 heq) (by simp [Nat.toDigits_ne_nil])
      case isFalse.isFalse hn hm =>
        have hdiv : n / b < n := Nat.div_lt_self (by omega) hb
        have hn' : n % b < b := Nat.mod_lt n (by omega)
        have hm' : m % b < b := Nat.mod_lt m (by omega)
        obtain ⟨hfront, hlast⟩ := List.append_inj' heq rfl
        have hquotient : n / b = m / b := ih _ hdiv hfront
        have hrest : n % b = m % b :=
          digitChar_injective _ (by omega) _ (by omega) (List.singleton_inj.1 hlast)
        rw [← Nat.div_add_mod n b, ← Nat.div_add_mod m b, hquotient, hrest]

/-- A number is told by its digits where a character follows that is no digit. -/
theorem splitsOff_toDigits (hb : 1 < b) (hb' : b ≤ 16) {x : Char}
    (hx : ∀ d < b, Nat.digitChar d ≠ x) :
    SplitsOff (fun _ : Nat => True) b.toDigits fun u => u.head? = some x := by
  have hdigits (n : Nat) : ∀ c ∈ b.toDigits n, c ≠ x := by
    intro c hc
    obtain ⟨d, hd, rfl⟩ := mem_toDigits hb hc
    exact hx d hd
  intro n m _ _ u v hu hv heq
  obtain ⟨hsame, rfl⟩ := splitsOff_until x (hdigits n) (hdigits m) hu hv heq
  exact ⟨toDigits_injective hb hb' hsame, rfl⟩

end Digits

/-! ## Characters -/

namespace Unicode

/-- The characters that are named by a letter have letters of their own. -/
theorem visibleLetter?_injective {c d letter : Char} (hc : visibleLetter? c = some letter)
    (hd : visibleLetter? d = some letter) : c = d := by
  unfold visibleLetter? at hc
  split at hc <;> cases hc <;> unfold visibleLetter? at hd <;> split at hd <;> cases hd <;> rfl

theorem visibleLetter?_ne {c : Char} : visibleLetter? c ≠ some 'u' := by
  intro h
  unfold visibleLetter? at h
  split at h <;> cases h

/-- How a character is shown: by a letter, by its code point or by itself. -/
theorem visible_cases (c : Char) :
    (∃ letter, visibleLetter? c = some letter ∧ (visible c).toList = ['\\', letter]) ∨
      (visible c).toList = '\\' :: 'u' :: '\x7b' :: (Nat.toDigits 16 c.toNat ++ ['\x7d']) ∨
        c ≠ '\\' ∧ (visible c).toList = [c] := by
  cases h : visibleLetter? c with
  | some letter => exact .inl ⟨letter, rfl, by simp [visible, h]⟩
  | none =>
      cases hc : isUnprintable c with
      | true => exact .inr (.inl (by simp [visible, codePoint, h, hc]))
      | false =>
          refine .inr (.inr ⟨?_, by simp [visible, h, hc]⟩)
          rintro rfl
          cases h

/-- The braces around a code point end it. -/
theorem splitsOff_codePoint :
    SplitsOff (fun _ : Nat => True) (Nat.toDigits 16) fun u => u.head? = some '\x7d' :=
  splitsOff_toDigits (by decide) (by decide) (by decide)

/-- A character is told by how it is shown, whatever follows. -/
theorem prefixFree_visible : PrefixFree fun c => (visible c).toList := by
  refine .of_cancel fun c d u v heq => ?_
  obtain ⟨letter, hc, hshown⟩ | hshown | ⟨hc, hshown⟩ := visible_cases c <;>
    obtain ⟨letter', hd, hshown'⟩ | hshown' | ⟨hd, hshown'⟩ := visible_cases d <;>
      simp only [hshown, hshown', List.cons_append, List.nil_append, List.append_assoc,
        List.cons.injEq, true_and] at heq
  · obtain ⟨rfl, rfl⟩ := heq
    exact ⟨visibleLetter?_injective hc hd, rfl⟩
  · obtain ⟨rfl, _⟩ := heq
    exact absurd hc visibleLetter?_ne
  · exact absurd heq.1.symm hd
  · obtain ⟨rfl, _⟩ := heq
    exact absurd hd visibleLetter?_ne
  · obtain ⟨hcode, hrest⟩ := splitsOff_codePoint trivial trivial rfl rfl heq
    exact ⟨Char.toNat_inj.1 hcode, List.tail_eq_of_cons_eq hrest⟩
  · exact absurd heq.1.symm hd
  · exact absurd heq.1 hc
  · exact absurd heq.1 hc
  · exact heq

/-- A quote ends what is shown between quotes. -/
theorem visible_quote_cancel {c d : Char} {u v : List Char}
    (heq : (visible c).toList ++ '\'' :: u = (visible d).toList ++ '\'' :: v) : c = d ∧ u = v := by
  obtain ⟨hsame, hrest⟩ := prefixFree_visible.cancel heq
  exact ⟨hsame, List.tail_eq_of_cons_eq hrest⟩

end Unicode

/-! ## Things that are expected -/

/-- A thing that would have been accepted is told by its wording, whatever follows. -/
theorem Expected.prefixFree_message : PrefixFree fun item : Expected => item.message.toList := by
  refine .of_cancel fun item item' u v heq => ?_
  cases item with
  | char c =>
      cases item' with
      | char d =>
          obtain ⟨rfl, hrest⟩ := visible_quote_cancel (by simpa [message] using heq)
          exact ⟨rfl, hrest⟩
      | endOfInput => simp [message] at heq
  | endOfInput =>
      cases item' with
      | char d => simp [message] at heq
      | endOfInput => exact ⟨rfl, by simpa [message] using heq⟩

namespace Cause

/-- The characters of an enumeration. -/
def enumerated (items : List Expected) : List Char := (String.join (enumeration items)).toList

theorem enumerated_last (last : Expected) :
    enumerated [last] = 'o' :: 'r' :: ' ' :: last.message.toList := by
  simp [enumerated, enumeration]

theorem enumerated_cons (item next : Expected) (items : List Expected) :
    enumerated (item :: next :: items) =
      item.message.toList ++ ',' :: ' ' :: enumerated (next :: items) := by
  simp [enumerated, enumeration]

/-- The "or" is no thing that is expected, so the last one is told from those before it. -/
theorem enumerated_last_ne_cons (last item next : Expected) (items : List Expected) :
    enumerated [last] ≠ enumerated (item :: next :: items) := by
  rw [enumerated_last, enumerated_cons]
  cases item <;> simp [Expected.message]

/-- An enumeration tells what it enumerates.  The induction is on the first list: each item ends at
a comma, and the last one is known by its "or". -/
theorem enumerated_injective {item item' : Expected} {items items' : List Expected}
    (heq : enumerated (item :: items) = enumerated (item' :: items')) :
    item :: items = item' :: items' := by
  induction items generalizing item item' items' with
  | nil =>
      cases items' with
      | nil =>
          rw [enumerated_last, enumerated_last] at heq
          have hlast : item.message.toList = item'.message.toList := by simpa using heq
          rw [Expected.prefixFree_message.injective hlast]
      | cons next' items' => exact absurd heq (enumerated_last_ne_cons _ _ _ _)
  | cons next items ih =>
      cases items' with
      | nil => exact absurd heq.symm (enumerated_last_ne_cons _ _ _ _)
      | cons next' items' =>
          rw [enumerated_cons, enumerated_cons] at heq
          obtain ⟨rfl, hrest⟩ := Expected.prefixFree_message.cancel heq
          rw [ih (by simpa using hrest)]

/-- What stands between the first of the things expected and the bracket. -/
def afterFirst : List Expected → List Char
  | [] => []
  | [second] => ' ' :: 'o' :: 'r' :: ' ' :: second.message.toList
  | items => ',' :: ' ' :: enumerated items

/-- What follows the first item tells the others, be there none, one or many. -/
theorem afterFirst_injective : Function.Injective afterFirst := by
  intro items items' heq
  obtain _ | ⟨second, _ | ⟨third, items⟩⟩ := items <;>
    obtain _ | ⟨second', _ | ⟨third', items'⟩⟩ := items' <;>
      simp only [afterFirst, List.cons.injEq, reduceCtorEq, true_and, Char.reduceEq,
        false_and] at heq
  · rfl
  · rw [Expected.prefixFree_message.injective heq]
  · exact enumerated_injective heq

/-- The wording of what would have been accepted has its first item apart, since the word after that
depends on how many there are. -/
theorem expectation_cons (item : Expected) (items : List Expected) :
    (expectation (item :: items)).toList =
      " (expected ".toList ++ (item.message.toList ++ (afterFirst items ++ [')'])) := by
  obtain _ | ⟨second, _ | ⟨third, items⟩⟩ := items
  · simp [expectation, afterFirst]
  · simp [expectation, afterFirst]
  · have hlist := enumerated_cons item second (third :: items)
    rw [enumerated] at hlist
    simp [expectation, afterFirst, hlist]

/-- What would have been accepted is told by its enumeration, of whatever length. -/
theorem expectation_injective : Function.Injective expectation := by
  intro items items' heq
  have hlists := congrArg String.toList heq
  obtain _ | ⟨item, items⟩ := items <;> obtain _ | ⟨item', items'⟩ := items'
  · rfl
  · rw [expectation_cons] at hlists
    simp [expectation] at hlists
  · rw [expectation_cons] at hlists
    simp [expectation] at hlists
  · rw [expectation_cons, expectation_cons] at hlists
    obtain ⟨rfl, hrest⟩ := Expected.prefixFree_message.cancel (List.append_cancel_left hlists)
    rw [afterFirst_injective (List.append_cancel_right hrest)]

/-! ## Causes -/

/-- What stands where it may not is told by its wording, whatever follows. -/
theorem prefixFree_actualMessage : PrefixFree fun actual => (actualMessage actual).toList := by
  refine .of_cancel fun actual actual' u v heq => ?_
  cases actual with
  | some c =>
      cases actual' with
      | some d =>
          obtain ⟨rfl, hrest⟩ := visible_quote_cancel (by simpa [actualMessage] using heq)
          exact ⟨rfl, hrest⟩
      | none => simp [actualMessage] at heq
  | none =>
      cases actual' with
      | some d => simp [actualMessage] at heq
      | none => exact ⟨rfl, by simpa [actualMessage] using heq⟩

/-- What stands in the text comes first, then what would have been accepted. -/
theorem message_unexpected (expected : List Expected) (actual : Option Char) :
    (unexpected expected actual).message.toList =
      "encountered an unexpected ".toList ++
        ((actualMessage actual).toList ++ (expectation expected).toList) := by
  have hmessage : (unexpected expected actual).message =
      "encountered an unexpected " ++ actualMessage actual ++ expectation expected := rfl
  rw [hmessage, String.toList_append, String.toList_append, List.append_assoc]

theorem message_invalidEscape (letter : Char) :
    (invalidEscape letter).message.toList =
      "invalid escape sequence '\\".toList ++ ((visible letter).toList ++ ['\'']) := by
  have hmessage : (invalidEscape letter).message =
      "invalid escape sequence '\\" ++ visible letter ++ "'" := rfl
  rw [hmessage, String.toList_append, String.toList_append, List.append_assoc]
  rfl

/-- The wording of a symbol that is not closed names the symbol, or else the delimiter. -/
theorem message_unterminated (closing : Char) :
    closing = '"' ∧ (unterminated closing).message = "the terminal is not terminated" ∨
      closing = '>' ∧ (unterminated closing).message = "the nonterminal is not terminated" ∨
        (unterminated closing).message =
          "the literal is not terminated (expected '" ++ visible closing ++ "')" := by
  unfold message
  split <;> simp_all

/-- The delimiter is told by the wording, also where that names the symbol. -/
theorem message_unterminated_injective {closing closing' : Char}
    (heq : (unterminated closing).message = (unterminated closing').message) :
    closing = closing' := by
  obtain ⟨hc, hmessage⟩ | ⟨hc, hmessage⟩ | hmessage := message_unterminated closing <;>
    obtain ⟨hc', hmessage'⟩ | ⟨hc', hmessage'⟩ | hmessage' := message_unterminated closing' <;>
      have hlists := congrArg String.toList heq <;>
        rw [hmessage, hmessage'] at hlists
  case inl.inl => rw [hc, hc']
  case inr.inl.inr.inl => rw [hc, hc']
  case inr.inr.inr.inr => exact prefixFree_visible.injective (by simpa using hlists)
  all_goals simp at hlists

/-- The wordings that share a first letter are apart. -/
theorem message_unterminated_ne (closing : Char) :
    (unterminated closing).message ≠ noAlternatives.message := by
  have hmessage' : noAlternatives.message = "the production has no alternatives" := rfl
  intro heq
  have hlists := congrArg String.toList heq
  obtain ⟨_, hmessage⟩ | ⟨_, hmessage⟩ | hmessage := message_unterminated closing <;>
    rw [hmessage, hmessage'] at hlists <;> simp at hlists

/-- The letter that the wording of a cause begins with. -/
def initial : Cause → Char
  | unexpected .. => 'e'
  | invalidEscape _ => 'i'
  | unterminated _ => 't'
  | noAlternatives => 't'
  | emptyAlternative => 'a'

/-- The first letter of the wording of a cause. -/
theorem head?_message (cause : Cause) : cause.message.toList.head? = some cause.initial := by
  cases cause with
  | unexpected expected actual =>
      rw [message_unexpected]
      simp [initial]
  | invalidEscape letter =>
      rw [message_invalidEscape]
      simp [initial]
  | unterminated closing =>
      obtain ⟨_, hmessage⟩ | ⟨_, hmessage⟩ | hmessage := message_unterminated closing <;>
        rw [hmessage] <;> simp [initial]
  | noAlternatives =>
      have hmessage : noAlternatives.message = "the production has no alternatives" := rfl
      simp [hmessage, initial]
  | emptyAlternative =>
      have hmessage : emptyAlternative.message =
          "an alternative must contain at least one term" := rfl
      simp [hmessage, initial]

/-- A cause is told by its wording. -/
theorem eq_of_message_eq {cause cause' : Cause} (heq : cause.message = cause'.message) :
    cause = cause' := by
  -- The first letter tells all causes apart but two, which have the lemma above.
  have hinitial : some cause.initial = some cause'.initial := by
    rw [← head?_message, ← head?_message, heq]
  cases cause with
  | unexpected expected actual =>
      cases cause' with
      | unexpected expected' actual' =>
          have hlists := congrArg String.toList heq
          rw [message_unexpected, message_unexpected] at hlists
          obtain ⟨rfl, hrest⟩ := prefixFree_actualMessage.cancel (List.append_cancel_left hlists)
          rw [expectation_injective (String.toList_injective hrest)]
      | _ => simp [initial] at hinitial
  | invalidEscape letter =>
      cases cause' with
      | invalidEscape letter' =>
          have hlists := congrArg String.toList heq
          rw [message_invalidEscape, message_invalidEscape] at hlists
          rw [(visible_quote_cancel (List.append_cancel_left hlists)).1]
      | _ => simp [initial] at hinitial
  | unterminated closing =>
      cases cause' with
      | unterminated closing' => rw [message_unterminated_injective heq]
      | noAlternatives => exact absurd heq (message_unterminated_ne closing)
      | _ => simp [initial] at hinitial
  | noAlternatives =>
      cases cause' with
      | noAlternatives => rfl
      | unterminated closing' => exact absurd heq.symm (message_unterminated_ne closing')
      | _ => simp [initial] at hinitial
  | emptyAlternative =>
      cases cause' with
      | emptyAlternative => rfl
      | _ => simp [initial] at hinitial

end Cause

/-! ## Faults -/

namespace ParseError

/-- A line or a column is told where a colon follows. -/
theorem splitsOff_counter :
    SplitsOff (fun _ : Nat => True) (Nat.toDigits 10) fun u => u.head? = some ':' :=
  splitsOff_toDigits (by decide) (by decide) (by decide)

/-- The wording of a fault has the line, the column and the cause in this order. -/
theorem toList_message (e : ParseError) :
    e.message.toList = Nat.toDigits 10 e.pos.line ++ ':' ::
      (Nat.toDigits 10 e.pos.column ++ ':' :: ' ' :: e.cause.message.toList) := by
  have hmessage : e.message =
      toString e.pos.line ++ ":" ++ toString e.pos.column ++ ": " ++ e.cause.message := rfl
  rw [hmessage]
  simp

/-- The place and the cause of a fault are told by its wording, but for the byte of the place. -/
theorem eq_of_message_eq {e e' : ParseError} (heq : e.message = e'.message) :
    e.pos.line = e'.pos.line ∧ e.pos.column = e'.pos.column ∧ e.cause = e'.cause := by
  have hlists := congrArg String.toList heq
  rw [toList_message, toList_message] at hlists
  obtain ⟨hline, hrest⟩ := splitsOff_counter trivial trivial rfl rfl hlists
  obtain ⟨hcolumn, hmessage⟩ :=
    splitsOff_counter trivial trivial rfl rfl (List.tail_eq_of_cons_eq hrest)
  have hcause := List.tail_eq_of_cons_eq (List.tail_eq_of_cons_eq hmessage)
  exact ⟨hline, hcolumn, Cause.eq_of_message_eq (String.toList_injective hcause)⟩

/-- Two causes have the same wording just if they are the same, whatever they list as acceptable;
two faults just if they are on the same line, in the same column and of the same cause. -/
theorem message_unambiguous :
    (∀ cause cause' : Cause, cause.message = cause'.message ↔ cause = cause') ∧
    ∀ e e' : ParseError, e.message = e'.message ↔
      e.pos.line = e'.pos.line ∧ e.pos.column = e'.pos.column ∧ e.cause = e'.cause := by
  refine ⟨fun _ _ => ⟨Cause.eq_of_message_eq, congrArg Cause.message⟩,
    fun e e' => ⟨eq_of_message_eq, ?_⟩⟩
  rintro ⟨hline, hcolumn, hcause⟩
  apply String.toList_injective
  rw [toList_message, toList_message, hline, hcolumn, hcause]

/-- A quote and a comma that are expected do not pass for those around them. -/
example :
    message ⟨.unexpected [.char '\'', .char ',', .endOfInput] (some 'a'), ⟨15, 2, 7⟩⟩ =
      "2:7: encountered an unexpected character 'a' (expected '\\'', ',', or end of input)" := by
  decide +kernel

end ParseError

end BnfText

import Mathlib.Data.List.Forall2
import Mathlib.Data.List.Nodup
import BnfText.Grammar.Data

/-!
# BnfText.Proofs.Encoding

Which data say a grammar.  At every level of the tree a structure may be a record of its fields,
which may hold more, or a list of just its fields in their order, whatever the levels above and
below it are.  All of it follows from what is expected of a reader and a writer for one level.

* `Data.Struct` — data that are a structure with given fields;
* `Grammar.Encodes`, and the same of the other nodes — data that say a tree;
* `Decodes` — a function that reads from data just what they say, and what a lawful reader makes
  such functions of (`Decodes.struct?`, `Decodes.list?`, `Decodes.variant?`);
* `Reader.plain_lawful` — the reader that is used where nothing else is asked for;
* `Grammar.ofData?_exact` — a grammar is read from just the data that say it; so what is stored is
  read back, and data say one grammar at most.
-/

namespace BnfText

/-! ## Structures -/

/-- The values of the fields of a structure of one field are that of the field. -/
theorem eq_const_of_singleton {α : Type} {name : String} (values : Fin [name].length → α) :
    values = fun _ => values ⟨0, Nat.zero_lt_one⟩ := by
  funext ⟨i, hi⟩
  congr
  simpa using hi

namespace Data

/-- Of some fields, the one called `name` has the value `value`. -/
def HasField (names : List String) (values : Fin names.length → Data) (name : String)
    (value : Data) : Prop :=
  ∃ k, names.get k = name ∧ values k = value

/-- The data are a structure whose fields `names` have the values `values`. -/
inductive Struct (names : List String) (values : Fin names.length → Data) : Data → Prop
  /-- A record that has every field, in any order and maybe with others. -/
  | record {names' : List String} {distinct : names'.Nodup} {values' : Fin names'.length → Data} :
      (∀ i, HasField names' values' (names.get i) (values i)) →
        Struct names values (.record names' distinct values')
  /-- A list of just the fields, in their order. -/
  | list : Struct names values (.list (List.ofFn values))

/-- A list of which the fields are known to be the items. -/
theorem Struct.of_list {names : List String} {values : Fin names.length → Data} {items : List Data}
    (h : List.ofFn values = items) : Struct names values (.list items) := h ▸ .list

end Data

/-! ## Reading what data say -/

/-- What `read?` reads from data is just what they say by `E`. -/
def Decodes {α : Type} (read? : Data → Option α) (E : Data → α → Prop) : Prop :=
  ∀ d a, read? d = some a ↔ E d a

namespace Decodes

variable {α β : Type} {read? : Data → Option α} {E : Data → α → Prop}

/-- Data say one thing at most, if they are read. -/
theorem unique (h : Decodes read? E) {d : Data} {a a' : α} (ha : E d a) (ha' : E d a') : a = a' :=
  Option.some.inj (((h d a).2 ha).symm.trans ((h d a').2 ha'))

/-- What is read may be put in another form. -/
theorem map (h : Decodes read? E) (f : α → β) :
    Decodes (fun d => (read? d).map f) fun d b => ∃ a, E d a ∧ f a = b := by
  intro d b
  rw [Option.map_eq_some_iff]
  exact exists_congr fun a => and_congr_left' (h d a)

/-- What data say may be told in another way. -/
theorem congr {E' : Data → α → Prop} (h : Decodes read? E) (hE : ∀ d a, E d a ↔ E' d a) :
    Decodes read? E' := fun d a => (h d a).trans (hE d a)

end Decodes

/-- That every item of a list is read can be said item by item. -/
theorem map_eq_map_some_iff {α β : Type} {f : α → Option β} {as : List α} {bs : List β} :
    as.map f = bs.map some ↔ List.Forall₂ (fun a b => f a = some b) as bs := by
  rw [← List.forall₂_eq_eq_eq, List.forall₂_map_left_iff, List.forall₂_map_right_iff]

section Lawful

variable {R : Reader}

theorem Reader.Lawful.decodes_text? (hR : R.Lawful) : Decodes R.text? fun d s => d = .text s :=
  hR.text

/-- A list says items if each of its own items says one of them. -/
theorem Reader.Lawful.decodes_list? (hR : R.Lawful) {α : Type} {read? : Data → Option α}
    {E : Data → α → Prop} (h : Decodes read? E) :
    Decodes (R.list? read?) fun d as => ∃ items, d = .list items ∧ List.Forall₂ E items as := by
  have hE : (fun item a => read? item = some a) = E := by
    funext item a
    exact propext (h item a)
  intro d as
  simp only [hR.list, map_eq_map_some_iff, hE]

/-- A structure, of whatever form, says what its fields say. -/
theorem Reader.Lawful.decodes_struct? (hR : R.Lawful) {names : List String}
    {distinct : names.Nodup} {β : Fin names.length → Type} {read? : ∀ i, Data → Option (β i)}
    {E : ∀ i, Data → β i → Prop} (h : ∀ i, Decodes (read? i) (E i)) :
    Decodes (R.struct? names distinct read?) fun d b =>
      ∃ values, d.Struct names values ∧ ∀ i, E i (values i) (b i) := by
  intro d b
  cases d with
  | record names' distinct' values' =>
      rw [hR.struct_record]
      constructor
      · intro hfields
        choose k hname hread using hfields
        exact ⟨fun i => values' (k i), .record fun i => ⟨k i, hname i, rfl⟩,
          fun i => (h i _ _).1 (hread i)⟩
      · intro hex
        obtain ⟨values, hstruct, hparts⟩ := hex
        cases hstruct with
        | record hfields =>
            intro i
            obtain ⟨k, hname, hvalue⟩ := hfields i
            refine ⟨k, hname, ?_⟩
            rw [hvalue]
            exact (h i _ _).2 (hparts i)
  | list items =>
      rw [hR.struct_list]
      constructor
      · intro hex
        obtain ⟨hlen, hread⟩ := hex
        -- The values of the fields are the items themselves, each at its place.
        have hitems : List.ofFn (fun i => items.get (i.cast hlen.symm)) = items := by
          apply List.ext_getElem
          · rw [List.length_ofFn, hlen]
          · simp
        exact ⟨_, .of_list hitems, fun i => (h i _ _).1 (hread i)⟩
      · intro hex
        obtain ⟨values, hstruct, hparts⟩ := hex
        cases hstruct with
        | list =>
            refine ⟨List.length_ofFn, fun i => ?_⟩
            simpa using (h i _ _).2 (hparts i)
  | _ =>
      rw [hR.struct_other read? rfl]
      constructor
      · intro hnone
        cases hnone
      · intro hex
        obtain ⟨_, hstruct, _⟩ := hex
        cases hstruct

/-- A structure of one field says what the field says. -/
theorem Reader.Lawful.decodes_only? (hR : R.Lawful) {α : Type} {name : String}
    {read? : Data → Option α} {E : Data → α → Prop} (h : Decodes read? E) :
    Decodes (R.only? name read?) fun d a =>
      ∃ value, (d.Struct [name] fun _ => value) ∧ E value a := by
  have hfields : Decodes (R.struct? [name] (List.nodup_singleton name) fun _ => read?) _ :=
    hR.decodes_struct? fun _ => h
  refine (hfields.map fun values => values ⟨0, Nat.zero_lt_one⟩).congr fun d a => ?_
  constructor
  · intro hex
    obtain ⟨b, ⟨values, hstruct, hparts⟩, rfl⟩ := hex
    rw [eq_const_of_singleton values] at hstruct
    exact ⟨values ⟨0, Nat.zero_lt_one⟩, hstruct, hparts ⟨0, Nat.zero_lt_one⟩⟩
  · intro hex
    obtain ⟨value, hstruct, hparts⟩ := hex
    exact ⟨fun _ => a, ⟨fun _ => value, hstruct, fun _ => hparts⟩, rfl⟩

/-- A record of one field that is called after a variant says what the field says. -/
theorem Reader.Lawful.decodes_variant? (hR : R.Lawful) {ι : Type} {variants : List ι}
    {name : ι → String} {distinct : (variants.map name).Nodup} {β : ι → Type}
    {read? : ∀ i, Data → Option (β i)} {E : ∀ i, Data → β i → Prop}
    (h : ∀ i, Decodes (read? i) (E i)) :
    Decodes (R.variant? variants name distinct read?) fun d b =>
      b.1 ∈ variants ∧ ∃ content, d = .single (name b.1) content ∧ E b.1 content b.2 := by
  intro d b
  rw [hR.variant]
  exact and_congr_right' (exists_congr fun content => and_congr_right' (h b.1 content b.2))

end Lawful

/-! ## The reader and the writer that are used -/

namespace Reader

/-- Options of which all are present make up a family of values, and one that is absent spoils it.
-/
theorem allSome_eq_some_iff {n : Nat} {β : Fin n → Type} {f : ∀ i, Option (β i)} {b : ∀ i, β i} :
    allSome f = some b ↔ ∀ i, f i = some (b i) := by
  induction n with
  | zero =>
      refine ⟨fun _ i => i.elim0, fun _ => congrArg some (funext fun i => i.elim0)⟩
  | succ n ih =>
      rw [Fin.forall_fin_succ, ← ih, allSome]
      simp only [Option.bind_eq_bind, Option.bind_eq_some_iff, Option.pure_def, Option.some.injEq]
      constructor
      · intro hex
        obtain ⟨b₀, h₀, bs, hbs, rfl⟩ := hex
        exact ⟨h₀, hbs⟩
      · intro ⟨h₀, hbs⟩
        exact ⟨b 0, h₀, _, hbs, funext fun i => Fin.cases rfl (fun _ => rfl) i⟩

theorem mapM_eq_some_iff {α β : Type} {f : α → Option β} {as : List α} {bs : List β} :
    as.mapM f = some bs ↔ as.map f = bs.map some := by
  induction as generalizing bs with
  | nil => cases bs <;> simp
  | cons a as ih =>
      cases bs <;>
        simp [List.mapM_cons, Option.bind_eq_some_iff, ih]

/-- Where a name stands among names of which no two are the same. -/
theorem finIdxOf?_eq_some_iff_of_nodup {names : List String} (h : names.Nodup) {name : String}
    {k : Fin names.length} : names.finIdxOf? name = some k ↔ names.get k = name := by
  rw [List.finIdxOf?_eq_some_iff]
  refine and_iff_left_of_imp fun hk j hj heq => ?_
  exact absurd ((List.Nodup.getElem_inj_iff h).1 (heq.trans hk.symm)) (Nat.ne_of_lt hj)

section Struct

variable {names : List String} {β : Fin names.length → Type} (read? : ∀ i, Data → Option (β i))
  (b : ∀ i, β i)

/-- From a record the plain reader takes each field by its name, wherever it stands and whatever
else there is. -/
theorem plainStruct?_record {names' : List String} (distinct' : names'.Nodup)
    (values : Fin names'.length → Data) :
    plainStruct? names read? (.record names' distinct' values) = some b ↔
      ∀ i, ∃ k, names'.get k = names.get i ∧ read? i (values k) = some (b i) := by
  rw [plainStruct?, allSome_eq_some_iff]
  simp only [Option.bind_eq_bind, Option.bind_eq_some_iff, finIdxOf?_eq_some_iff_of_nodup distinct']

/-- From a list the plain reader takes the fields in their order, and there have to be just as many
items. -/
theorem plainStruct?_list (items : List Data) :
    plainStruct? names read? (.list items) = some b ↔
      ∃ h : items.length = names.length, ∀ i, read? i (items.get (i.cast h.symm)) = some (b i) := by
  rw [plainStruct?]
  split
  · next h => simp only [allSome_eq_some_iff, h, exists_true_left]
  · next h => simp only [h, IsEmpty.exists_iff, reduceCtorEq]

end Struct

/-- Among variants of which no two have the same name, a name finds the variant that has it. -/
theorem find?_name_eq_some_iff {ι : Type} {variants : List ι} {name : ι → String}
    (h : (variants.map name).Nodup) {name' : String} {i : ι} :
    variants.find? (fun i => name i == name') = some i ↔ i ∈ variants ∧ name i = name' := by
  constructor
  · intro hfind
    exact ⟨List.mem_of_find?_eq_some hfind, by simpa using List.find?_some hfind⟩
  · intro ⟨hi, hname⟩
    cases hfind : variants.find? fun i => name i == name' with
    | none => simpa [hname] using List.find?_eq_none.1 hfind i hi
    | some j =>
        have hj : name j = name' := by simpa using List.find?_some hfind
        have hmem := List.mem_of_find?_eq_some hfind
        rw [List.inj_on_of_nodup_map h hmem hi (hj.trans hname.symm)]

/-- The plain reader takes a variant from a record of one field that has the name of the variant. -/
theorem plainVariant?_eq_some_iff {ι : Type} {variants : List ι} {name : ι → String}
    (h : (variants.map name).Nodup) {β : ι → Type} (read? : ∀ i, Data → Option (β i)) (d : Data)
    (i : ι) (b : β i) :
    plainVariant? variants name read? d = some ⟨i, b⟩ ↔
      i ∈ variants ∧ ∃ content, d = .single (name i) content ∧ read? i content = some b := by
  constructor
  · intro hread
    unfold plainVariant? at hread
    split at hread
    · next name' distinct values =>
        obtain ⟨j, hj, hread⟩ := Option.bind_eq_some_iff.1 hread
        obtain ⟨a, ha, heq⟩ := Option.bind_eq_some_iff.1 hread
        cases heq
        obtain ⟨hmem, rfl⟩ := (find?_name_eq_some_iff h).1 hj
        refine ⟨hmem, values ⟨0, Nat.zero_lt_one⟩, ?_, ha⟩
        rw [eq_const_of_singleton values]
        rfl
    · cases hread
  · rintro ⟨hmem, content, rfl, hread⟩
    have hfind := (find?_name_eq_some_iff h).2 ⟨hmem, rfl⟩
    simp [Data.single, plainVariant?, hfind, hread]

/-- The plain way of reading is a way of reading: the laws hold of it. -/
theorem plain_lawful : plain.Lawful where
  text d s := by cases d <;> simp [plain]
  list read? d as := by cases d <;> simp [plain, mapM_eq_some_iff]
  struct_record {_ _ _} read? {_ distinct' values} b := plainStruct?_record read? b distinct' values
  struct_list {_ _ _} read? {items} b := plainStruct?_list read? b items
  struct_other {_ _ _} _ {d} h := by cases d <;> first | rfl | cases h
  variant {_ _ _ distinct _} read? d i b := plainVariant?_eq_some_iff distinct read? d i b

end Reader

/-! ## Data that say a tree -/

/-- A symbol is a structure whose only field is its text. -/
def Symbol.Encodes {kind : SymbolKind} (d : Data) (s : Symbol kind) : Prop :=
  d.Struct ["text"] fun _ => .text s.text

/-- A term is a record of one field, which is called after the kind of its symbol. -/
inductive Term.Encodes : Data → Term → Prop
  | terminal {d : Data} {s : Terminal} : Symbol.Encodes d s →
      Term.Encodes (.single "Terminal" d) (.ofSymbol s)
  | nonterminal {d : Data} {s : Nonterminal} : Symbol.Encodes d s →
      Term.Encodes (.single "Nonterminal" d) (.ofSymbol s)

/-- An alternative is a structure whose only field is the list of its terms. -/
def Expression.Encodes (d : Data) (e : Expression) : Prop :=
  ∃ terms, (d.Struct ["terms"] fun _ => .list terms) ∧ List.Forall₂ Term.Encodes terms e.terms

/-- A production is a structure of its left-hand side and the list of its alternatives. -/
def Production.Encodes (d : Data) (p : Production) : Prop :=
  ∃ lhs rhs, d.Struct ["lhs", "rhs"] [lhs, .list rhs].get ∧ Symbol.Encodes lhs p.lhs ∧
    List.Forall₂ Expression.Encodes rhs p.rhs

/-- A grammar is a structure whose only field is the list of its productions. -/
def Grammar.Encodes (d : Data) (g : Grammar) : Prop :=
  ∃ productions, (d.Struct ["productions"] fun _ => .list productions) ∧
    List.Forall₂ Production.Encodes productions g.productions

/-- The two forms of a term are one form with the name of the kind. -/
theorem Term.encodes_iff {d : Data} {t : Term} :
    Term.Encodes d t ↔
      ∃ content, d = .single t.kind.dataName content ∧ Symbol.Encodes content t.symbol := by
  constructor
  · intro h
    cases h with
    | terminal h => exact ⟨_, rfl, h⟩
    | nonterminal h => exact ⟨_, rfl, h⟩
  · rintro ⟨content, rfl, h⟩
    obtain ⟨kind, s⟩ := t
    cases kind with
    | terminal => exact .terminal h
    | nonterminal => exact .nonterminal h

/-! ## What is read -/

section OfData

variable {R : Reader} (hR : R.Lawful)

include hR

theorem Symbol.decodes (kind : SymbolKind) : Decodes (Symbol.ofData? R kind) Symbol.Encodes := by
  refine ((hR.decodes_only? hR.decodes_text?).map Symbol.mk).congr fun d s => ?_
  constructor
  · rintro ⟨text, ⟨value, hstruct, rfl⟩, rfl⟩
    exact hstruct
  · intro hstruct
    exact ⟨s.text, ⟨_, hstruct, rfl⟩, rfl⟩

theorem Term.decodes : Decodes (Term.ofData? R) Term.Encodes := by
  refine ((hR.decodes_variant? (Symbol.decodes hR)).map _).congr fun d t => ?_
  rw [Term.encodes_iff]
  constructor
  · rintro ⟨⟨kind, s⟩, ⟨_, hparts⟩, rfl⟩
    exact hparts
  · intro hparts
    obtain ⟨kind, s⟩ := t
    exact ⟨⟨kind, s⟩, ⟨by cases kind <;> simp, hparts⟩, rfl⟩

/-- A structure whose only field is a list is read by reading the items of the list. -/
theorem decodes_onlyList {α β : Type} {name : String} {read? : Data → Option α}
    {E : Data → α → Prop} (h : Decodes read? E) (f : List α → β) :
    Decodes (fun d => (R.only? name (R.list? read?) d).map f) fun d b =>
      ∃ items as, (d.Struct [name] fun _ => .list items) ∧ List.Forall₂ E items as ∧ f as = b := by
  refine ((hR.decodes_only? (hR.decodes_list? h)).map f).congr fun d b => ?_
  constructor
  · rintro ⟨as, ⟨value, hstruct, items, rfl, hitems⟩, hb⟩
    exact ⟨items, as, hstruct, hitems, hb⟩
  · rintro ⟨items, as, hstruct, hitems, hb⟩
    exact ⟨as, ⟨_, hstruct, items, rfl, hitems⟩, hb⟩

theorem Expression.decodes : Decodes (Expression.ofData? R) Expression.Encodes := by
  refine (decodes_onlyList hR (Term.decodes hR) Expression.mk).congr fun d e => ?_
  constructor
  · rintro ⟨items, terms, hstruct, hitems, rfl⟩
    exact ⟨items, hstruct, hitems⟩
  · rintro ⟨items, hstruct, hitems⟩
    exact ⟨items, e.terms, hstruct, hitems, rfl⟩

/-- What the data of a field of a production have to say. -/
def Production.FieldEncodes : (i : Fin fieldNames.length) → Data → FieldType i → Prop
  | ⟨0, _⟩ => Symbol.Encodes
  | ⟨1, _⟩ => fun d rhs => ∃ items, d = .list items ∧ List.Forall₂ Expression.Encodes items rhs

theorem Production.decodes_field : ∀ i, Decodes (field? R i) (FieldEncodes i)
  | ⟨0, _⟩ => Symbol.decodes hR .nonterminal
  | ⟨1, _⟩ => hR.decodes_list? (Expression.decodes hR)

/-- A production is read from the data that say it.  Its fields are those of the structure, put into
a pair. -/
theorem Production.decodes : Decodes (Production.ofData? R) Production.Encodes := by
  refine ((hR.decodes_struct? (Production.decodes_field hR)).map _).congr fun d p => ?_
  constructor
  · rintro ⟨fields, ⟨values, hstruct, hparts⟩, rfl⟩
    obtain ⟨items, hitems, hrhs⟩ := hparts ⟨1, Nat.one_lt_two⟩
    have hvalues : values = [values ⟨0, Nat.zero_lt_two⟩, .list items].get := by
      funext i
      match i with
      | ⟨0, _⟩ => rfl
      | ⟨1, _⟩ => exact hitems
    rw [hvalues] at hstruct
    exact ⟨values ⟨0, Nat.zero_lt_two⟩, items, hstruct, hparts ⟨0, Nat.zero_lt_two⟩, hrhs⟩
  · rintro ⟨lhs, rhs, hstruct, hlhs, hrhs⟩
    let fields : ∀ i, Production.FieldType i
      | ⟨0, _⟩ => p.lhs
      | ⟨1, _⟩ => p.rhs
    refine ⟨fields, ⟨_, hstruct, fun i => ?_⟩, rfl⟩
    match i with
    | ⟨0, _⟩ => exact hlhs
    | ⟨1, _⟩ => exact ⟨rhs, rfl, hrhs⟩

/-- A grammar is read from the data that say it. -/
theorem Grammar.decodes : Decodes (Grammar.ofData? R) Grammar.Encodes := by
  refine (decodes_onlyList hR (Production.decodes hR) Grammar.mk).congr fun d g => ?_
  constructor
  · rintro ⟨items, productions, hstruct, hitems, rfl⟩
    exact ⟨items, hstruct, hitems⟩
  · rintro ⟨items, hstruct, hitems⟩
    exact ⟨items, g.productions, hstruct, hitems, rfl⟩

end OfData

/-! ## What is written -/

/-- A list of what is stored says the list, if each item says what it was stored for. -/
theorem forall₂_map_toData {α : Type} {toData : α → Data} {E : Data → α → Prop}
    (h : ∀ a, E (toData a) a) (as : List α) : List.Forall₂ E (as.map toData) as :=
  List.forall₂_map_left_iff.2 (List.forall₂_same.2 fun a _ => h a)

section ToData

variable {W : Writer} (hW : W.Lawful)

include hW

/-- What is stored as a structure is one. -/
theorem Writer.Lawful.struct_struct {names : List String} {distinct : names.Nodup}
    {values : Fin names.length → Data} : (W.struct names distinct values).Struct names values := by
  rw [hW.struct]
  exact .record fun i => ⟨i, rfl, rfl⟩

/-- What a symbol is stored as says the symbol. -/
theorem Symbol.encodes_toData {kind : SymbolKind} (s : Symbol kind) :
    Symbol.Encodes (s.toData W) s := by
  rw [Symbol.toData, hW.text]
  exact hW.struct_struct

theorem Term.encodes_toData (t : Term) : Term.Encodes (t.toData W) t := by
  rw [Term.toData, hW.variant]
  exact Term.encodes_iff.2 ⟨_, rfl, t.symbol.encodes_toData hW⟩

theorem Expression.encodes_toData (e : Expression) : Expression.Encodes (e.toData W) e := by
  rw [Expression.toData, hW.list]
  exact ⟨_, hW.struct_struct, forall₂_map_toData (Term.encodes_toData hW) e.terms⟩

theorem Production.encodes_toData (p : Production) : Production.Encodes (p.toData W) p := by
  rw [Production.toData, hW.list]
  exact ⟨_, _, hW.struct_struct, p.lhs.encodes_toData hW,
    forall₂_map_toData (Expression.encodes_toData hW) p.rhs⟩

/-- What a grammar is stored as says the grammar, the plain writer being only one that will do. -/
theorem Grammar.encodes_toData (g : Grammar) : Grammar.Encodes (g.toData W) g := by
  rw [Grammar.toData, hW.list]
  exact ⟨_, hW.struct_struct, forall₂_map_toData (Production.encodes_toData hW) g.productions⟩

end ToData

/-- Whatever reads and writes the forms of values as is expected, a grammar is read from just the
data that say it.  So a grammar that is stored is read back, data say one grammar at most, and
storing what was read and reading it again changes nothing. -/
theorem Grammar.ofData?_exact {R : Reader} {W : Writer} (hR : R.Lawful) (hW : W.Lawful) :
    (∀ d g, Grammar.ofData? R d = some g ↔ Grammar.Encodes d g) ∧
    (∀ g : Grammar, Grammar.ofData? R (g.toData W) = some g) ∧
    (∀ d g g', Grammar.Encodes d g → Grammar.Encodes d g' → g = g') ∧
    ∀ d g, Grammar.ofData? R d = some g →
      Grammar.ofData? R (g.toData W) = Grammar.ofData? R d := by
  have hdecodes := Grammar.decodes hR
  have hback (g : Grammar) : Grammar.ofData? R (g.toData W) = some g :=
    (hdecodes _ g).2 (g.encodes_toData hW)
  refine ⟨hdecodes, hback, fun d g g' => hdecodes.unique, fun d g h => ?_⟩
  rw [hback, h]

section Mixed

open Data

/-- A terminal as a record with a field more, and the production of it as a record in another order
with a field more. -/
def mixedTerminal : Data := record ["text", "quoted"] (by decide) [text "x", bool true].get

/-- A grammar as a list, with a production that is a record in another order and with a field more,
and symbols of both forms. -/
def mixedData : Data :=
  list [list [record ["note", "rhs", "lhs"] (by decide) [
    null,
    list [list [list [single "Terminal" mixedTerminal, single "Nonterminal" (list [text ""])]]],
    list [text "a"]].get]]

/-- The grammar that `mixedData` says. -/
def mixedTree : Grammar :=
  ⟨[⟨⟨"a"⟩, [⟨[.ofSymbol (⟨"x"⟩ : Terminal), .ofSymbol (⟨""⟩ : Nonterminal)]⟩]⟩]⟩

/-- Both forms of a structure may occur in one tree. -/
theorem Grammar.encodes_mixed : Grammar.Encodes mixedData mixedTree := by
  have hx : Symbol.Encodes mixedTerminal (⟨"x"⟩ : Terminal) :=
    .record fun _ => ⟨⟨0, by simp⟩, by simp, rfl⟩
  have hempty : Symbol.Encodes (list [text ""]) (⟨""⟩ : Nonterminal) := .of_list rfl
  have hlhs : Symbol.Encodes (list [text "a"]) (⟨"a"⟩ : Nonterminal) := .of_list rfl
  refine ⟨_, .of_list rfl, .cons ⟨_, _, .record fun i => ?_, hlhs,
    .cons ⟨_, .of_list rfl, .cons (.terminal hx) (.cons (.nonterminal hempty) .nil)⟩ .nil⟩ .nil⟩
  match i with
  | ⟨0, _⟩ => exact ⟨⟨2, by simp⟩, rfl, rfl⟩
  | ⟨1, _⟩ => exact ⟨⟨1, by simp⟩, rfl, rfl⟩

end Mixed

/-- The data with both forms are read, and they say nothing else; what is stored of the tree is read
as the same. -/
theorem Grammar.ofData?_mixed :
    Reader.plain.Lawful ∧ Writer.plain.Lawful ∧
    Grammar.ofData? .plain mixedData = some mixedTree ∧
    (∀ g, Grammar.Encodes mixedData g → g = mixedTree) ∧
    Grammar.ofData? .plain (mixedTree.toData .plain) = Grammar.ofData? .plain mixedData := by
  have hexact := Grammar.ofData?_exact Reader.plain_lawful Writer.plain_lawful
  have hread := (hexact.1 _ _).2 Grammar.encodes_mixed
  refine ⟨Reader.plain_lawful, Writer.plain_lawful, hread, fun g hg => ?_, hexact.2.2.2 _ _ hread⟩
  exact hexact.2.2.1 _ _ _ hg Grammar.encodes_mixed

end BnfText

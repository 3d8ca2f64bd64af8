/-!
# BnfText.Data

Structured data, in the shape that programs exchange: numbers, texts, lists and records.

How data are written and read is not for this library to say.  A `Writer` and a `Reader` are what it
is given for that: they know how each form of a value is stored, and the library tells them the
names and the parts of its own values.  What is expected of them is `Writer.Lawful` and
`Reader.Lawful`; `Writer.plain` and `Reader.plain` are the ones that are used where nothing else is
asked for.
-/

namespace BnfText

/-- Structured data. -/
inductive Data
  | null
  | bool (value : Bool)
  /-- The number `mantissa / 10 ^ scale`. -/
  | number (mantissa : Int) (scale : Nat)
  | text (value : String)
  | list (items : List Data)
  /-- A value for each of some names, of which no two are the same. -/
  | record (names : List String) (distinct : names.Nodup) (values : Fin names.length → Data)

namespace Data

instance : Inhabited Data := ⟨null⟩

/-- The record of one field. -/
def single (name : String) (value : Data) : Data := .record [name] (by simp) fun _ => value

/-- Whether the data are a list or a record, the forms that have parts. -/
def isCompound : Data → Bool
  | .list _ => true
  | .record .. => true
  | _ => false

end Data

/-! ## Writing -/

/-- How the forms of values are stored. -/
structure Writer where
  nat : Nat → Data
  char : Char → Data
  text : String → Data
  /-- A value that may be missing. -/
  optional : Option Data → Data
  list : List Data → Data
  /-- A structure, by the values of its fields in the order of their names. -/
  struct : (names : List String) → names.Nodup → (Fin names.length → Data) → Data
  /-- A variant that has no content, by its name. -/
  unit : String → Data
  /-- A variant, by its name and its content. -/
  variant : String → Data → Data

namespace Writer

/-- What the library relies on where it writes trees. -/
structure Lawful (W : Writer) : Prop where
  text : ∀ s, W.text s = .text s
  list : ∀ items, W.list items = .list items
  /-- A structure is stored as the record of its fields. -/
  struct : ∀ (names : List String) (distinct : names.Nodup) (values : Fin names.length → Data),
    W.struct names distinct values = .record names distinct values
  /-- A variant is stored as the record of one field that is called after it. -/
  variant : ∀ name content, W.variant name content = .single name content

/-- Stores a structure of one field. -/
def only (W : Writer) (name : String) (value : Data) : Data :=
  W.struct [name] (by simp) fun _ => value

/-- Stores a number as a number, and a character as a text; a missing value is null and a variant
without content its name. -/
def plain : Writer where
  nat n := .number n 0
  char c := .text (String.singleton c)
  text := .text
  optional
    | some d => d
    | none => .null
  list := .list
  struct := .record
  unit := .text
  variant := .single

/-- The plain way of writing data is a way of writing data: the laws hold of it. -/
theorem plain_lawful : plain.Lawful where
  text _ := rfl
  list _ := rfl
  struct _ _ _ := rfl
  variant _ _ := rfl

end Writer

/-! ## Reading -/

/-- How the forms of values are read, the values of their parts being read by the functions given.
Nothing is read where the data are not stored so. -/
structure Reader where
  text? : Data → Option String
  list? : {α : Type} → (Data → Option α) → Data → Option (List α)
  /-- A structure, by the names of its fields in their order. -/
  struct? : (names : List String) → names.Nodup → {β : Fin names.length → Type} →
    (∀ i, Data → Option (β i)) → Data → Option (∀ i, β i)
  /-- One of some variants, each of which has a name and a content. -/
  variant? : {ι : Type} → (variants : List ι) → (name : ι → String) →
    (variants.map name).Nodup → {β : ι → Type} → (∀ i, Data → Option (β i)) → Data →
      Option (Σ i, β i)

namespace Reader

/-- What the library relies on where it reads trees. -/
structure Lawful (R : Reader) : Prop where
  text : ∀ d s, R.text? d = some s ↔ d = .text s
  /-- A list is read from a list, item by item. -/
  list : ∀ {α : Type} (read? : Data → Option α) d as,
    R.list? read? d = some as ↔ ∃ items, d = .list items ∧ items.map read? = as.map some
  /-- A structure is read from a record that has each of its fields, whatever else it has. -/
  struct_record : ∀ {names : List String} {distinct : names.Nodup} {β : Fin names.length → Type}
      (read? : ∀ i, Data → Option (β i)) {names' : List String} {distinct' : names'.Nodup}
      {values : Fin names'.length → Data} b,
    R.struct? names distinct read? (.record names' distinct' values) = some b ↔
      ∀ i, ∃ k, names'.get k = names.get i ∧ read? i (values k) = some (b i)
  /-- A structure is read from a list of just its fields, in their order. -/
  struct_list : ∀ {names : List String} {distinct : names.Nodup} {β : Fin names.length → Type}
      (read? : ∀ i, Data → Option (β i)) {items : List Data} b,
    R.struct? names distinct read? (.list items) = some b ↔
      ∃ h : items.length = names.length, ∀ i, read? i (items.get (i.cast h.symm)) = some (b i)
  struct_other : ∀ {names : List String} {distinct : names.Nodup} {β : Fin names.length → Type}
      (read? : ∀ i, Data → Option (β i)) {d : Data},
    d.isCompound = false → R.struct? names distinct read? d = none
  /-- A variant is read from a record of one field that is called after it. -/
  variant : ∀ {ι : Type} {variants : List ι} {name : ι → String}
      {distinct : (variants.map name).Nodup} {β : ι → Type}
      (read? : ∀ i, Data → Option (β i)) d i b,
    R.variant? variants name distinct read? d = some ⟨i, b⟩ ↔
      i ∈ variants ∧ ∃ content, d = .single (name i) content ∧ read? i content = some b

/-- The value of the field of a structure of one field. -/
def only? (R : Reader) {α : Type} (name : String) (read? : Data → Option α) (d : Data) : Option α :=
  (R.struct? [name] (by simp) (fun _ => read?) d).map fun values => values ⟨0, Nat.zero_lt_one⟩

/-- What the members of a family are, if all of them are something. -/
def allSome : {n : Nat} → {β : Fin n → Type} → (∀ i, Option (β i)) → Option (∀ i, β i)
  | 0, _, _ => some fun i => i.elim0
  | n + 1, _, f => do
    let b ← f 0
    let bs ← allSome fun i : Fin n => f i.succ
    return Fin.cases b bs

/-- Reads a structure, field by field, from a record or a list. -/
def plainStruct? (names : List String) {β : Fin names.length → Type}
    (read? : ∀ i, Data → Option (β i)) : Data → Option (∀ i, β i)
  | .record names' _ values =>
    allSome fun i => do read? i (values (← names'.finIdxOf? (names.get i)))
  | .list items =>
    if h : items.length = names.length then
      allSome fun i => read? i (items.get (i.cast h.symm))
    else none
  | _ => none

/-- Reads a variant from a record of one field. -/
def plainVariant? {ι : Type} (variants : List ι) (name : ι → String) {β : ι → Type}
    (read? : ∀ i, Data → Option (β i)) : Data → Option (Σ i, β i)
  | .record [name'] _ values => do
    let i ← variants.find? fun i => name i == name'
    return ⟨i, ← read? i (values ⟨0, Nat.zero_lt_one⟩)⟩
  | _ => none

/-- Reads what `Writer.plain` stores, and lists of fields for records. -/
def plain : Reader where
  text?
    | .text s => some s
    | _ => none
  list? read?
    | .list items => items.mapM read?
    | _ => none
  struct? names _ _ := plainStruct? names
  variant? variants name _ _ := plainVariant? variants name

end Reader

end BnfText

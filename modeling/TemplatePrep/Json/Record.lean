import TemplatePrep.Json.Decode

/-!
# Records

A record is written as an object, with its entries in any order, or as an array of its fields in their declared order.
A record is read in reading order, so of several faults the first decides: a field given twice, a value that its field
refuses, or, in a closed record, a key that is no field. Only at the end is a field missed. An open record passes over
the entries whose keys it does not know; what it passes over is not read either, so it may be unreadable.

An array with items left over is refused by its length where the record stands inside a node, whose parts are held
back until its kind is known, and as malformed text elsewhere.
-/

namespace TemplatePrep.Json

/-- The description of a record: what messages call it, its fields in declared order with their keys, and how the
value of each field is decoded. -/
structure Record (ι : Type) (τ : ι → Type) where
  title : String
  fields : List ι
  key : ι → String
  decode : (i : ι) → Decoder (τ i)
  /-- Whether unknown keys are refused. -/
  closed : Bool
  /-- Whether the record stands inside a node. -/
  held : Bool

/-- The fields read so far. -/
abbrev Slots {ι : Type} (τ : ι → Type) := (i : ι) → Option (τ i)

/-- No field read. -/
def Slots.empty {ι : Type} {τ : ι → Type} : Slots τ := fun _ => none

/-- The slots with one more field. -/
def Slots.set {ι : Type} {τ : ι → Type} [DecidableEq ι] (slots : Slots τ) (i : ι) (x : τ i) : Slots τ :=
  fun j => if h : i = j then some (h ▸ x) else slots j

section Slots

variable {ι : Type} {τ : ι → Type} [DecidableEq ι]

@[simp]
theorem Slots.set_self (slots : Slots τ) (i : ι) (x : τ i) : slots.set i x i = some x := by
  rw [Slots.set, dif_pos rfl]

@[simp]
theorem Slots.set_of_ne (slots : Slots τ) {i j : ι} (h : i ≠ j) (x : τ i) : slots.set i x j = slots j := by
  rw [Slots.set, dif_neg h]

end Slots

/-- A record that has been read: its fields, and the error that a missing field raises. -/
structure Reading {ι : Type} (τ : ι → Type) where
  slots : Slots τ
  absent : ι → DecodeError

/-- A field that has to be there. -/
def Reading.require {ι : Type} {τ : ι → Type} (r : Reading τ) (i : ι) : Except DecodeError (τ i) :=
  match r.slots i with
  | some x => .ok x
  | none => .error (r.absent i)

/-- A field that may be missing, with the value it then has. -/
def Reading.getD {ι : Type} {τ : ι → Type} (r : Reading τ) (i : ι) (default : τ i) : τ i :=
  (r.slots i).getD default

theorem Reading.require_of_eq_some {ι : Type} {τ : ι → Type} {r : Reading τ} {i : ι} {x : τ i}
    (h : r.slots i = some x) : r.require i = .ok x := by
  rw [Reading.require, h]

namespace Record

variable {ι : Type} {τ : ι → Type} [DecidableEq ι]

/-- The field with the given key. -/
def field? (r : Record ι τ) (key : String) : Option ι :=
  r.fields.find? fun i => r.key i == key

/-- Reads the entries of an object into the slots. -/
def readEntries (r : Record ι τ) : Slots τ → List (String × Json) → Except DecodeError (Slots τ)
  | slots, [] => .ok slots
  | slots, (key, v) :: rest =>
    match r.field? key with
    | none => if r.closed then .error (.unknownField key (r.fields.map r.key)) else readEntries r slots rest
    | some i =>
      match slots i with
      | some _ => .error (.duplicateField key)
      | none => do
        let x ← r.decode i v
        readEntries r (slots.set i x) rest

/-- An entry for a field that was not read yet fills its slot. -/
theorem readEntries_field {r : Record ι τ} {slots : Slots τ} {key : String} {v : Json} {i : ι} {x : τ i}
    (hi : r.field? key = some i) (hslot : slots i = none) (hv : r.decode i v = .ok x)
    (rest : List (String × Json)) :
    r.readEntries slots ((key, v) :: rest) = r.readEntries (slots.set i x) rest := by
  rw [readEntries, hi]
  simp only [hslot, hv]
  rfl

/-- Reads the items of an array into the slots of the given fields. `length` is that of the whole array. -/
def readItems (r : Record ι τ) (length : Nat) : Slots τ → List ι → List Json → Except DecodeError (Slots τ)
  | slots, _, [] => .ok slots
  | _, [], _ :: _ =>
    .error (if r.held then .wrongLength length (toString r.fields.length ++ " elements in sequence") else .malformed)
  | slots, i :: fields, v :: rest => do
    let x ← r.decode i v
    readItems r length (slots.set i x) fields rest

/-- Reads a record. -/
def read (r : Record ι τ) : Json → Except DecodeError (Reading τ)
  | object entries => do
    let slots ← r.readEntries Slots.empty entries
    .ok ⟨slots, fun i => .missingField (r.key i)⟩
  | array items => do
    let slots ← r.readItems items.length Slots.empty r.fields items
    let expected := "struct " ++ r.title ++ " with " ++ toString r.fields.length ++ " elements"
    .ok ⟨slots, fun _ => .wrongLength items.length expected⟩
  | v => .error (v.mismatch ("struct " ++ r.title))

end Record

end TemplatePrep.Json

import TemplatePrep.Json.DecodeError
import TemplatePrep.Json.Reader

/-!
# Decoding plain values

Strings, booleans, 32-bit numbers, lists, optional values and names out of a fixed list.
-/

namespace TemplatePrep.Json

/-- A decoder of JSON values. -/
abbrev Decoder (α : Type) := Json → Except DecodeError α

/-- Reads a text and decodes its value. -/
def decodeText {α : Type} (decode : Decoder α) (text : String) : Except DecodeError α :=
  match parse? text with
  | none => .error .malformed
  | some v => decode v

/-- Decodes a string. -/
def decodeString : Decoder String
  | string s => .ok s
  | v => .error (v.mismatch "a string")

/-- Decodes a boolean. -/
def decodeBool : Decoder Bool
  | bool b => .ok b
  | v => .error (v.mismatch "a boolean")

/-- Decodes an integer of 32 bits without sign. -/
def decodeUInt32 : Decoder UInt32
  | integer i => if 0 ≤ i ∧ i < Nat.pow 2 32 then .ok (UInt32.ofNat i.toNat) else .error (.outOfRange i "u32")
  | v => .error (v.mismatch "u32")

/-- Decodes every item in order, up to the first that is refused. -/
def decodeItems {α : Type} (decode : Decoder α) : List Json → Except DecodeError (List α)
  | [] => .ok []
  | v :: rest => do
    let x ← decode v
    let xs ← decodeItems decode rest
    .ok (x :: xs)

/-- Items that decode to what they encode are decoded as a whole list. -/
theorem decodeItems_map {α : Type} {decode : Decoder α} {encode : α → Json} {xs : List α}
    (h : ∀ x ∈ xs, decode (encode x) = .ok x) : decodeItems decode (xs.map encode) = .ok xs := by
  induction xs with
  | nil => rfl
  | cons x xs ih =>
    rw [List.map_cons, decodeItems, h x List.mem_cons_self, ih fun y hy => h y (List.mem_cons_of_mem x hy)]
    rfl

/-- Decodes an array. -/
def decodeList {α : Type} (decode : Decoder α) : Decoder (List α)
  | array items => decodeItems decode items
  | v => .error (v.mismatch "a sequence")

/-- Decodes null as nothing and any other value as something. -/
def decodeOption {α : Type} (decode : Decoder α) : Decoder (Option α)
  | null => .ok none
  | v => (decode v).map some

theorem decodeOption_of_ne_null {α : Type} (decode : Decoder α) {v : Json} (hv : v ≠ null) :
    decodeOption decode v = (decode v).map some := by
  rw [decodeOption]
  exact hv

/-- Finds a name among the choices. -/
def findChoice {α : Type} (choices : List (String × α)) (name : String) : Except DecodeError α :=
  match choices.lookup name with
  | some x => .ok x
  | none => .error (.unknownVariant name (choices.map Prod.fst))

/-- Decodes one of a fixed list of choices: its name, or an object whose only entry has that name and null. -/
def decodeChoice {α : Type} (choices : List (String × α)) : Decoder α
  | string name => findChoice choices name
  | object ((name, payload) :: rest) => do
    let x ← findChoice choices name
    match payload with
    | null => if rest.isEmpty then .ok x else .error .malformed
    | v => .error (v.mismatch "unit")
  | _ => .error .malformed

/-- An optional value, null standing for nothing. -/
def ofOption {α : Type} (encode : α → Json) : Option α → Json
  | none => null
  | some x => encode x

end TemplatePrep.Json

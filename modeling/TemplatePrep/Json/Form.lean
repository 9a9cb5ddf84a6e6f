import TemplatePrep.Json.Basic

/-!
# Forms of records

Which values stand for a record, said without reading any. A record has fields under distinct keys in a declared order.
An object gives each field the values of the entries with its key, however the entries are ordered. An array gives its
items to the fields in their declared order and must not be longer than that. So an array is short for an object without
repeated keys, and one rule for the values that a field accepts covers both ways of writing the record.
-/

namespace TemplatePrep.Json

/-- The values of the entries with the given key, in reading order. -/
def valuesAt (key : String) (entries : List (String × Json)) : List Json :=
  (entries.filter fun e => e.1 = key).map Prod.snd

/-- The entries that a value gives to a record with fields under the given keys. -/
def entriesUnder? (keys : List String) : Json → Option (List (String × Json))
  | object entries => some entries
  | array items => if items.length ≤ keys.length then some (keys.zip items) else none
  | _ => none

/-- A field by its key and the values that may be given to it. -/
structure FieldForm where
  key : String
  Allows : List Json → Prop

/-- Exactly one value is given, and it has the given form. -/
def Once (form : Json → Prop) (given : List Json) : Prop :=
  ∃ v, given = [v] ∧ form v

/-- What may be given for a setting: nothing or null where there is none, and otherwise one value of its form. -/
def GivenAs {α : Type} (form : α → Json → Prop) : Option α → List Json → Prop
  | none, given => given = [] ∨ given = [null]
  | some x, given => Once (form x) given

/-- The value stands for a record with the given fields. Entries under other keys are passed over. -/
def IsRecord (fields : List FieldForm) (v : Json) : Prop :=
  ∃ entries, v.entriesUnder? (fields.map FieldForm.key) = some entries ∧
    ∀ f ∈ fields, f.Allows (valuesAt f.key entries)

/-! ## The values given to a field -/

@[simp]
theorem valuesAt_nil (key : String) : valuesAt key [] = [] := rfl

theorem valuesAt_cons_self (key : String) (v : Json) (entries : List (String × Json)) :
    valuesAt key ((key, v) :: entries) = v :: valuesAt key entries := by
  rw [valuesAt, List.filter_cons_of_pos (by simp), List.map_cons, valuesAt]

theorem valuesAt_cons_of_ne {key other : String} (h : other ≠ key) (v : Json) (entries : List (String × Json)) :
    valuesAt key ((other, v) :: entries) = valuesAt key entries := by
  rw [valuesAt, List.filter_cons_of_neg (by simpa using h), valuesAt]

theorem valuesAt_eq_nil {key : String} {entries : List (String × Json)} (h : ∀ e ∈ entries, e.1 ≠ key) :
    valuesAt key entries = [] := by
  rw [valuesAt, List.map_eq_nil_iff, List.filter_eq_nil_iff]
  simpa using h

theorem exists_entry_of_mem_valuesAt {key : String} {entries : List (String × Json)} {v : Json}
    (h : v ∈ valuesAt key entries) : ∃ e ∈ entries, e.2 = v := by
  obtain ⟨e, he, hv⟩ := List.mem_map.mp h
  exact ⟨e, (List.mem_filter.mp he).1, hv⟩

/-- Entries that are left out make no difference to a key that none of them has. -/
theorem valuesAt_filter_ne {key other : String} (h : other ≠ key) (entries : List (String × Json)) :
    valuesAt key (entries.filter fun e => e.1 ≠ other) = valuesAt key entries := by
  rw [valuesAt, valuesAt, List.filter_filter]
  congr 1
  apply List.filter_congr
  intro e _
  by_cases he : e.1 = key
  · simp [he, Ne.symm h]
  · simp [he]

/-! ## Fields one by one -/

theorem isRecord_object {fields : List FieldForm} {entries : List (String × Json)} :
    IsRecord fields (object entries) ↔ ∀ f ∈ fields, f.Allows (valuesAt f.key entries) := by
  simp [IsRecord, entriesUnder?]

theorem isRecord_cons_object {f : FieldForm} {fields : List FieldForm} {entries : List (String × Json)} :
    IsRecord (f :: fields) (object entries) ↔ f.Allows (valuesAt f.key entries) ∧ IsRecord fields (object entries) := by
  rw [isRecord_object, isRecord_object, List.forall_mem_cons]

theorem isRecord_filter_ne_iff {fields : List FieldForm} {key : String} (hkey : key ∉ fields.map FieldForm.key)
    {entries : List (String × Json)} :
    IsRecord fields (object (entries.filter fun e => e.1 ≠ key)) ↔ IsRecord fields (object entries) := by
  have hvalues : ∀ f ∈ fields, valuesAt f.key (entries.filter fun e => e.1 ≠ key) = valuesAt f.key entries := by
    intro f hf
    apply valuesAt_filter_ne
    rintro rfl
    exact hkey (List.mem_map_of_mem hf)
  rw [isRecord_object, isRecord_object]
  constructor
  · intro h f hf
    exact hvalues f hf ▸ h f hf
  · intro h f hf
    exact (hvalues f hf).symm ▸ h f hf

/-- An array gives its first item to the first field and stands for the other fields with the rest. -/
theorem isRecord_cons_array {f : FieldForm} {fields : List FieldForm} (hf : f.key ∉ fields.map FieldForm.key)
    {v : Json} {rest : List Json} :
    IsRecord (f :: fields) (array (v :: rest)) ↔ f.Allows [v] ∧ IsRecord fields (array rest) := by
  have hself : valuesAt f.key ((f.key, v) :: (fields.map FieldForm.key).zip rest) = [v] := by
    rw [valuesAt_cons_self, valuesAt_eq_nil]
    intro e he hkey
    exact hf (hkey ▸ (List.of_mem_zip he).1)
  have hothers : ∀ g ∈ fields, valuesAt g.key ((f.key, v) :: (fields.map FieldForm.key).zip rest) =
      valuesAt g.key ((fields.map FieldForm.key).zip rest) := by
    intro g hg
    apply valuesAt_cons_of_ne
    intro hkey
    exact hf (hkey ▸ List.mem_map_of_mem hg)
  simp only [IsRecord, entriesUnder?, List.map_cons, List.zip_cons_cons, List.length_cons, Nat.add_le_add_iff_right,
    Option.ite_none_right_eq_some, Option.some.injEq, List.forall_mem_cons]
  constructor
  · rintro ⟨_, ⟨hlength, rfl⟩, hv, hfields⟩
    rw [hself] at hv
    exact ⟨hv, _, ⟨hlength, rfl⟩, fun g hg => hothers g hg ▸ hfields g hg⟩
  · rintro ⟨hv, _, ⟨hlength, rfl⟩, hfields⟩
    exact ⟨_, ⟨hlength, rfl⟩, hself.symm ▸ hv, fun g hg => (hothers g hg).symm ▸ hfields g hg⟩

end TemplatePrep.Json

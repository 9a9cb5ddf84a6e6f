import TemplatePrep.Preprocessor
import TemplatePrep.Proofs.Json.Record

/-!
# Which values are read as options

Options are a closed record whose two fields may both be missing. So a value stands for options if it gives them no key
but the two, neither of them twice, and under each key null or what the option can be set to; an array gives its items
under the keys in declared order.

Reading fills the slot of each field from the values under its key, and a slot cannot be filled twice. Where all keys are
known that is to say that the keys are distinct (`nodup_keys`), so nothing needs to be said about the order in which the
entries are read.
-/

namespace TemplatePrep

open Json (Fills GivenAs Record valuesAt bind_eq_ok_iff)

/-! ## Forms -/

/-- The value stands for a mode: its name, or an object whose only entry has that name for a key and null. -/
def MapMode.IsForm (m : MapMode) (v : Json) : Prop :=
  v = .string m.name ∨ v = .object [(m.name, .null)]

/-- The value stands for options: its keys are distinct and among the two, and each option is given as it is set. -/
def Options.IsForm (o : Options) (v : Json) : Prop :=
  ∃ entries, v.entriesUnder? ["sourcemap", "jsx"] = some entries ∧
    (entries.map Prod.fst).Nodup ∧ (∀ e ∈ entries, e.1 ∈ ["sourcemap", "jsx"]) ∧
    GivenAs MapMode.IsForm o.sourcemap (valuesAt "sourcemap" entries) ∧
    GivenAs (fun b v => v = .bool b) o.jsx (valuesAt "jsx" entries)

/-! ## Keys given once -/

namespace Json

variable {entries entries' : List (String × Json)}

theorem count_keys (key : String) (entries : List (String × Json)) :
    (entries.map Prod.fst).count key = (valuesAt key entries).length := by
  rw [valuesAt, List.length_map, List.count_eq_countP, List.countP_map, List.countP_eq_length_filter]
  rfl

/-- Keys are distinct if under each that may occur there is one value at most. -/
theorem nodup_keys {keys : List String} (hkeys : ∀ e ∈ entries, e.1 ∈ keys)
    (hvalues : ∀ key ∈ keys, (valuesAt key entries).length ≤ 1) : (entries.map Prod.fst).Nodup := by
  rw [List.nodup_iff_count_le_one]
  intro key
  by_cases hkey : key ∈ entries.map Prod.fst
  · obtain ⟨e, he, rfl⟩ := List.mem_map.mp hkey
    rw [count_keys]
    exact hvalues e.1 (hkeys e he)
  · rw [List.count_eq_zero.mpr hkey]
    exact Nat.zero_le 1

/-- What a setting is given as does not depend on the order of the entries. -/
theorem GivenAs.perm {α : Type} {form : α → Json → Prop} {setting : Option α} {key : String}
    (hperm : entries.Perm entries') (h : GivenAs form setting (valuesAt key entries)) :
    GivenAs form setting (valuesAt key entries') := by
  have hvalues : (valuesAt key entries).Perm (valuesAt key entries') := (hperm.filter _).map _
  cases setting with
  | none =>
    rcases h with h | h
    · exact .inl (List.nil_perm.mp (h ▸ hvalues))
    · exact .inr (List.singleton_perm.mp (h ▸ hvalues)).symm
  | some x =>
    obtain ⟨v, h, hv⟩ := h
    exact ⟨v, (List.singleton_perm.mp (h ▸ hvalues)).symm, hv⟩

end Json

/-! ## Decoding -/

theorem MapMode.mem_choices_iff {name : String} {m : MapMode} : (name, m) ∈ choices ↔ name = m.name := by
  cases m <;> simp [choices]

theorem MapMode.decode_eq_ok_iff {v : Json} {m : MapMode} : decode v = .ok m ↔ m.IsForm v := by
  have hnames : (choices.map Prod.fst).Nodup := by decide
  rw [decode, Json.decodeChoice_eq_ok_iff hnames, IsForm]
  simp only [mem_choices_iff, exists_eq_left]

theorem MapMode.not_isForm_null (m : MapMode) : ¬ m.IsForm .null := by
  rintro (h | h) <;> cases h

namespace Options

/-- What the slot of a field holds when options are made from it. -/
def SlotHolds (o : Options) : (i : Field) → Option i.Content → Prop
  | .sourcemap, slot => Option.getD slot none = o.sourcemap
  | .jsx, slot => Option.getD slot none = o.jsx

theorem decode_eq_ok_iff_slotHolds {v : Json} {o : Options} :
    decode v = .ok o ↔ ∃ r, record.read v = .ok r ∧ ∀ i ∈ record.fields, o.SlotHolds i (r.slots i) := by
  rw [decode, bind_eq_ok_iff]
  apply exists_congr
  intro r
  apply and_congr_right
  intro _
  constructor
  · intro h i _
    obtain rfl := Except.ok.inj h
    cases i <;> rfl
  · intro h
    have hsourcemap : Option.getD (r.slots .sourcemap) none = o.sourcemap := h .sourcemap List.mem_cons_self
    have hjsx : Option.getD (r.slots .jsx) none = o.jsx := h .jsx (List.mem_cons_of_mem _ List.mem_cons_self)
    exact congrArg Except.ok (congrArg₂ Options.mk hsourcemap hjsx)

section Fields

variable {o : Options} {values : List Json}

theorem exists_fills_sourcemap_iff :
    (∃ slot, Fills (record.decode .sourcemap) none values slot ∧ o.SlotHolds .sourcemap slot) ↔
      GivenAs MapMode.IsForm o.sourcemap values := by
  have hdecode (v : Json) (m : MapMode) : MapMode.decode v = .ok m ↔ m.IsForm v := MapMode.decode_eq_ok_iff
  exact Json.exists_fills_option_iff hdecode MapMode.not_isForm_null

theorem exists_fills_jsx_iff :
    (∃ slot, Fills (record.decode .jsx) none values slot ∧ o.SlotHolds .jsx slot) ↔
      GivenAs (fun b v => v = .bool b) o.jsx values := by
  have hdecode (v : Json) (b : Bool) : Json.decodeBool v = .ok b ↔ v = .bool b := Json.decodeBool_eq_ok_iff
  exact Json.exists_fills_option_iff hdecode fun b => nofun

end Fields

/-- The slots of both fields can be filled exactly if both options are given as they are set. -/
theorem forall_exists_fills_iff {o : Options} {entries : List (String × Json)} :
    (∀ i ∈ record.fields,
      ∃ slot, Fills (record.decode i) none (valuesAt (record.key i) entries) slot ∧ o.SlotHolds i slot) ↔
    GivenAs MapMode.IsForm o.sourcemap (valuesAt "sourcemap" entries) ∧
      GivenAs (fun b v => v = .bool b) o.jsx (valuesAt "jsx" entries) := by
  rw [← exists_fills_sourcemap_iff, ← exists_fills_jsx_iff]
  exact List.forall_mem_cons.trans (and_congr_right' List.forall_mem_singleton)

/-- A value is decoded as options exactly if it is a form of them. -/
theorem decode_eq_ok_iff {v : Json} {o : Options} : decode v = .ok o ↔ o.IsForm v := by
  have hkeys : (record.fields.map record.key).Nodup := by
    show ["sourcemap", "jsx"].Nodup
    decide
  rw [decode_eq_ok_iff_slotHolds, Record.exists_read_fields_iff hkeys, IsForm]
  apply exists_congr
  intro entries
  apply and_congr_right
  intro _
  rw [← forall_exists_fills_iff]
  constructor
  · rintro ⟨hknown, hfills⟩
    refine ⟨Json.nodup_keys (hknown rfl) ?_, hknown rfl, hfills⟩
    intro key hkey
    obtain ⟨i, hi, rfl⟩ := List.mem_map.mp hkey
    obtain ⟨slot, hslot, -⟩ := hfills i hi
    exact hslot.length_le_one
  · rintro ⟨-, hknown, hfills⟩
    exact ⟨fun _ => hknown, hfills⟩

/-- The entries of an object may stand in any order. -/
theorem IsForm.perm {o : Options} {entries entries' : List (String × Json)} (hperm : entries.Perm entries')
    (h : o.IsForm (.object entries)) : o.IsForm (.object entries') := by
  obtain ⟨_, ⟨⟩, hnodup, hknown, hsourcemap, hjsx⟩ := h
  exact ⟨entries', rfl, (hperm.map Prod.fst).nodup_iff.mp hnodup, fun e he => hknown e (hperm.mem_iff.mpr he),
    hsourcemap.perm hperm, hjsx.perm hperm⟩

/-- Text is read as options if and only if it is the text of a value that stands for them. With every other text
preprocessing ends before any call, since its options are invalid. The order of the keys makes no difference. -/
theorem ofText_accepts_forms :
    (∀ (v : Json) (o : Options), decode v = .ok o ↔ o.IsForm v) ∧
    (∀ (text : String) (o : Options), ofText text = .ok o ↔ ∃ v, Json.parse? text = some v ∧ o.IsForm v) ∧
    (∀ (σ : Type) (p : Preprocessor σ) (source text : String),
      (∀ v o, Json.parse? text = some v → ¬ IsForm o v) →
      ∃ cause, ofText text = .error cause ∧ p.preprocessText source text = some ⟨[], .error (.invalidOptions cause)⟩) ∧
    ∀ (entries entries' : List (String × Json)) (o : Options), entries.Perm entries' →
      (decode (.object entries) = .ok o ↔ decode (.object entries') = .ok o) := by
  have htext (text : String) (o : Options) : ofText text = .ok o ↔ ∃ v, Json.parse? text = some v ∧ o.IsForm v := by
    rw [ofText, Json.decodeText]
    cases Json.parse? text with
    | none => simp
    | some v => simp [decode_eq_ok_iff]
  refine ⟨fun _ _ => decode_eq_ok_iff, htext, fun σ p source text hnone => ?_, fun entries entries' o hperm => ?_⟩
  · cases hread : ofText text with
    | ok o =>
      obtain ⟨v, hv, hform⟩ := (htext text o).mp hread
      exact absurd hform (hnone v o hv)
    | error cause => exact ⟨cause, rfl, by rw [Preprocessor.preprocessText, hread]⟩
  · rw [decode_eq_ok_iff, decode_eq_ok_iff]
    exact ⟨IsForm.perm hperm, IsForm.perm hperm.symm⟩

/-- A preprocessor whose parser refuses everything. -/
def refusing : Preprocessor Unit where
  parse _ _ := .error (.parse "refused")
  generate _ _ := .error (.codegen "refused")
  rules := RuleSet.empty
  state := ()
  limit := 0

/-- Three items are one too many, which is found before the parser is called. A mode may be written as an object, and
stand behind the other option. -/
theorem ofText_accepts_forms_pair :
    (∀ v o, Json.parse? "[null,null,null]" = some v → ¬ IsForm o v) ∧
    (∃ cause, ofText "[null,null,null]" = .error cause ∧
      refusing.preprocessText "a" "[null,null,null]" = some ⟨[], .error (.invalidOptions cause)⟩) ∧
    [("sourcemap", Json.object [("append", .null)]), ("jsx", .bool true)].Perm
      [("jsx", .bool true), ("sourcemap", Json.object [("append", .null)])] ∧
    decode (.object [("jsx", .bool true), ("sourcemap", .object [("append", .null)])]) = .ok ⟨some .append, some true⟩ := by
  obtain ⟨hforms, -, hothers, horder⟩ := ofText_accepts_forms
  have hparse : Json.parse? "[null,null,null]" = some (.array [.null, .null, .null]) := by rfl
  have hnone : ∀ v o, Json.parse? "[null,null,null]" = some v → ¬ IsForm o v := by
    intro v o hv hform
    obtain rfl := Option.some.inj (hparse.symm.trans hv)
    cases (hforms _ _).mpr hform
  have hperm : [("sourcemap", Json.object [("append", .null)]), ("jsx", .bool true)].Perm
      [("jsx", .bool true), ("sourcemap", Json.object [("append", .null)])] := List.Perm.swap _ _ []
  exact ⟨hnone, hothers Unit refusing "a" _ hnone, hperm, (horder _ _ _ hperm).mp rfl⟩

end Options

end TemplatePrep

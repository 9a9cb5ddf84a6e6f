import TemplatePrep.Json.Form
import TemplatePrep.Json.Record
import TemplatePrep.Proofs.Json.Decode

/-!
# Which values are read as a record

Reading a record goes through its entries once and fills slots, so whether it succeeds looks like a question of order.
It is not. The field with a given key is found from the key alone, a slot is filled only while it is empty, and an entry
is refused for its own value only. So each field sees nothing but the values given under its key: no value leaves the
slot as it was, one value that is decoded fills it, and anything else is an error (`Fills`). An array is read as the
object that gives its items under the keys in declared order, by the same steps.

What is asked of each slot afterwards can so be asked of the values given to each field (`exists_read_fields_iff`), and
two forms of one record are compared field by field (`isRecord_congr`). That is how the decoder of a particular record
is compared with what it is meant to accept. Decoders are recursive, and two forms need to agree on such values only as
stand inside the one that is read.
-/

namespace TemplatePrep.Json

/-! ## One slot -/

/-- From a slot and the values given to its field, what is in the slot afterwards. -/
inductive Fills {α : Type} (decode : Decoder α) : Option α → List Json → Option α → Prop
  | untouched (o : Option α) : Fills decode o [] o
  | filled {v : Json} {x : α} (hv : decode v = .ok x) : Fills decode none [v] (some x)

section Fills

variable {α : Type} {decode : Decoder α}

theorem fills_nil_iff {o o' : Option α} : Fills decode o [] o' ↔ o' = o := by
  constructor
  · rintro ⟨⟩
    rfl
  · rintro rfl
    exact .untouched o'

/-- The first value finds the slot empty and fills it; after that no other value may come. -/
theorem fills_cons_iff {o o' : Option α} {v : Json} {given : List Json} :
    Fills decode o (v :: given) o' ↔ o = none ∧ ∃ x, decode v = .ok x ∧ Fills decode (some x) given o' := by
  constructor
  · intro h
    cases h with
    | filled hv => exact ⟨rfl, _, hv, .untouched _⟩
  · rintro ⟨rfl, x, hv, ⟨⟩⟩
    exact .filled hv

/-- An empty slot is filled from exactly one value. -/
theorem fills_some_iff {x : α} {given : List Json} :
    Fills decode none given (some x) ↔ Once (fun v => decode v = .ok x) given := by
  constructor
  · intro h
    cases h with
    | filled hv => exact ⟨_, rfl, hv⟩
  · rintro ⟨v, rfl, hv⟩
    exact .filled hv

theorem exists_fills_some_iff {P : α → Prop} {given : List Json} :
    (∃ o, Fills decode none given o ∧ ∃ x, o = some x ∧ P x) ↔ Once (fun v => ∃ x, decode v = .ok x ∧ P x) given := by
  constructor
  · rintro ⟨_, hfills, x, rfl, hP⟩
    obtain ⟨v, rfl, hv⟩ := fills_some_iff.mp hfills
    exact ⟨v, rfl, x, hv, hP⟩
  · rintro ⟨v, rfl, x, hv, hP⟩
    exact ⟨some x, .filled hv, x, rfl, hP⟩

theorem Fills.length_le_one {o o' : Option α} {given : List Json} (h : Fills decode o given o') : given.length ≤ 1 := by
  cases h with
  | untouched => exact Nat.zero_le 1
  | filled => exact Nat.le_refl 1

/-- A slot holds a setting exactly if it is given as it is set. -/
theorem exists_fills_option_iff {form : α → Json → Prop} (hdecode : ∀ v x, decode v = .ok x ↔ form x v)
    (hnull : ∀ x, ¬ form x null) {given : List Json} {setting : Option α} :
    (∃ slot, Fills (decodeOption decode) none given slot ∧ slot.getD none = setting) ↔ GivenAs form setting given := by
  constructor
  · rintro ⟨slot, hfills, rfl⟩
    cases hfills with
    | untouched => exact .inl rfl
    | @filled v x hv =>
      by_cases hv' : v = null
      · subst hv'
        obtain rfl := Except.ok.inj hv
        exact .inr rfl
      · rw [decodeOption_of_ne_null decode hv'] at hv
        cases hx : decode v with
        | error e =>
          rw [hx] at hv
          cases hv
        | ok x =>
          rw [hx] at hv
          obtain rfl := Except.ok.inj hv
          exact ⟨v, rfl, (hdecode v x).mp hx⟩
  · intro h
    cases setting with
    | none =>
      rcases h with rfl | rfl
      · exact ⟨none, .untouched none, rfl⟩
      · exact ⟨some none, .filled rfl, rfl⟩
    | some x =>
      obtain ⟨v, rfl, hv⟩ := h
      have hv' : v ≠ null := fun hv' => hnull x (hv' ▸ hv)
      refine ⟨some (some x), .filled ?_, rfl⟩
      rw [decodeOption_of_ne_null decode hv', (hdecode v x).mpr hv]
      rfl

end Fills

/-! ## The entries of a record -/

namespace Record

variable {ι : Type} {τ : ι → Type} {r : Record ι τ}

theorem field?_eq_some_iff (hkeys : (r.fields.map r.key).Nodup) {key : String} {i : ι} :
    r.field? key = some i ↔ i ∈ r.fields ∧ r.key i = key := by
  constructor
  · intro h
    exact ⟨List.mem_of_find?_eq_some h, by simpa using List.find?_some h⟩
  · rintro ⟨hi, rfl⟩
    cases h : r.field? (r.key i) with
    | none => simpa using List.find?_eq_none.mp h i hi
    | some j =>
      have hj : r.key j = r.key i := by simpa using List.find?_some h
      rw [List.inj_on_of_nodup_map hkeys (List.mem_of_find?_eq_some h) hi hj]

theorem field?_eq_none_iff {key : String} : r.field? key = none ↔ key ∉ r.fields.map r.key := by
  rw [field?, List.find?_eq_none]
  simp

variable [DecidableEq ι] {slots slots' : Slots τ} {key : String} {v : Json} {rest : List (String × Json)}

/-- An entry under an unknown key is passed over or refused. -/
theorem readEntries_unknown_iff (hkey : key ∉ r.fields.map r.key) :
    r.readEntries slots ((key, v) :: rest) = .ok slots' ↔ r.closed = false ∧ r.readEntries slots rest = .ok slots' := by
  rw [readEntries, field?_eq_none_iff.mpr hkey]
  cases r.closed <;> simp

/-- An entry for a field finds the slot empty and fills it. -/
theorem readEntries_known_iff {i : ι} (hi : r.field? key = some i) :
    r.readEntries slots ((key, v) :: rest) = .ok slots' ↔
      slots i = none ∧ ∃ x, r.decode i v = .ok x ∧ r.readEntries (slots.set i x) rest = .ok slots' := by
  rw [readEntries, hi]
  cases hslot : slots i with
  | none => simp only [hslot, bind_eq_ok_iff, true_and]
  | some y => simp [hslot]

/-- Once an entry has filled its slot, each field is filled from what is left of the values under its key. -/
theorem fills_set_iff (hkeys : (r.fields.map r.key).Nodup) {i j : ι} (hi : i ∈ r.fields) (hj : j ∈ r.fields)
    (hslot : slots i = none) {x : τ i} (hv : r.decode i v = .ok x) {o : Option (τ j)} :
    Fills (r.decode j) (slots j) (valuesAt (r.key j) ((r.key i, v) :: rest)) o ↔
      Fills (r.decode j) (slots.set i x j) (valuesAt (r.key j) rest) o := by
  by_cases hij : i = j
  · subst hij
    rw [valuesAt_cons_self, Slots.set_self, fills_cons_iff, hslot, hv]
    simp
  · have hne : r.key i ≠ r.key j := fun h => hij (List.inj_on_of_nodup_map hkeys hi hj h)
    rw [valuesAt_cons_of_ne hne, slots.set_of_ne hij]

/-- What reading entries leaves in the slots, one field at a time: each is filled from the values under its key. -/
theorem readEntries_eq_ok_iff (hkeys : (r.fields.map r.key).Nodup) {entries : List (String × Json)} :
    r.readEntries slots entries = .ok slots' ↔
      (r.closed = true → ∀ e ∈ entries, e.1 ∈ r.fields.map r.key) ∧
      (∀ i ∈ r.fields, Fills (r.decode i) (slots i) (valuesAt (r.key i) entries) (slots' i)) ∧
      ∀ i ∉ r.fields, slots' i = slots i := by
  induction entries generalizing slots with
  | nil =>
    simp only [readEntries, Except.ok.injEq, valuesAt_nil, fills_nil_iff, List.not_mem_nil, false_implies, implies_true,
      true_and]
    constructor
    · rintro rfl
      exact ⟨fun _ _ => rfl, fun _ _ => rfl⟩
    · rintro ⟨hfields, hothers⟩
      funext i
      by_cases hi : i ∈ r.fields
      · exact (hfields i hi).symm
      · exact (hothers i hi).symm
  | cons e entries ih =>
    obtain ⟨key, v⟩ := e
    by_cases hkey : key ∈ r.fields.map r.key
    · obtain ⟨i, hi, rfl⟩ := List.mem_map.mp hkey
      have hother (x : τ i) : ∀ j ∉ r.fields, slots.set i x j = slots j := by
        intro j hj
        apply slots.set_of_ne
        rintro rfl
        exact hj hi
      rw [readEntries_known_iff ((field?_eq_some_iff hkeys).mpr ⟨hi, rfl⟩)]
      simp only [ih, List.forall_mem_cons, hkey, true_and]
      constructor
      · rintro ⟨hslot, x, hv, hclosed, hfields, hothers⟩
        exact ⟨hclosed, fun j hj => (fills_set_iff hkeys hi hj hslot hv).mpr (hfields j hj),
          fun j hj => (hothers j hj).trans (hother x j hj)⟩
      · rintro ⟨hclosed, hfields, hothers⟩
        have hfills := hfields i hi
        rw [valuesAt_cons_self, fills_cons_iff] at hfills
        obtain ⟨hslot, x, hv, -⟩ := hfills
        exact ⟨hslot, x, hv, hclosed, fun j hj => (fills_set_iff hkeys hi hj hslot hv).mp (hfields j hj),
          fun j hj => (hothers j hj).trans (hother x j hj).symm⟩
    · have hvalues : ∀ i ∈ r.fields, valuesAt (r.key i) ((key, v) :: entries) = valuesAt (r.key i) entries :=
        fun i hi => valuesAt_cons_of_ne (ne_of_mem_of_not_mem (List.mem_map_of_mem hi) hkey).symm v entries
      rw [readEntries_unknown_iff hkey, ih]
      simp only [List.forall_mem_cons, hkey, false_and, imp_false, Bool.not_eq_true]
      constructor
      · rintro ⟨hclosed, -, hfields, hothers⟩
        exact ⟨hclosed, fun i hi => (hvalues i hi).symm ▸ hfields i hi, hothers⟩
      · rintro ⟨hclosed, hfields, hothers⟩
        refine ⟨hclosed, fun h => ?_, fun i hi => hvalues i hi ▸ hfields i hi, hothers⟩
        exact absurd h (Bool.eq_false_iff.mp hclosed)

/-- The items of an array are read as the entries that give them to the fields in order. -/
theorem readItems_eq_ok_iff (hkeys : (r.fields.map r.key).Nodup) (length : Nat) {fields : List ι} {items : List Json}
    (hfields : ∀ i ∈ fields, i ∈ r.fields) (hnodup : fields.Nodup) (hslots : ∀ i ∈ fields, slots i = none) :
    r.readItems length slots fields items = .ok slots' ↔
      items.length ≤ fields.length ∧ r.readEntries slots ((fields.map r.key).zip items) = .ok slots' := by
  induction fields generalizing slots items with
  | nil => cases items <;> simp [readItems, readEntries]
  | cons i fields ih =>
    cases items with
    | nil => simp [readItems, readEntries]
    | cons v items =>
      have hi : r.field? (r.key i) = some i := (field?_eq_some_iff hkeys).mpr ⟨hfields i List.mem_cons_self, rfl⟩
      rw [List.nodup_cons] at hnodup
      have hset (x : τ i) : ∀ j ∈ fields, slots.set i x j = none := by
        intro j hj
        rw [slots.set_of_ne (ne_of_mem_of_not_mem hj hnodup.1).symm]
        exact hslots j (List.mem_cons_of_mem i hj)
      have hrest : ∀ j ∈ fields, j ∈ r.fields := fun j hj => hfields j (List.mem_cons_of_mem i hj)
      rw [readItems, List.map_cons, List.zip_cons_cons, readEntries_known_iff hi, bind_eq_ok_iff]
      simp only [ih hrest hnodup.2 (hset _), hslots i List.mem_cons_self, List.length_cons, Nat.add_le_add_iff_right,
        true_and]
      constructor
      · rintro ⟨x, hv, hlength, hread⟩
        exact ⟨hlength, x, hv, hread⟩
      · rintro ⟨hlength, x, hv, hread⟩
        exact ⟨x, hv, hlength, hread⟩

/-- A value is read as a record through the entries that it gives to one. An array brings no unknown keys. -/
theorem exists_read_iff (hkeys : (r.fields.map r.key).Nodup) {P : Slots τ → Prop} :
    (∃ reading, r.read v = .ok reading ∧ P reading.slots) ↔
      ∃ entries, v.entriesUnder? (r.fields.map r.key) = some entries ∧
        ∃ slots, r.readEntries Slots.empty entries = .ok slots ∧ P slots := by
  have hnodup : r.fields.Nodup := List.Nodup.of_map r.key hkeys
  cases v with
  | object entries =>
    simp only [read, bind_eq_ok_iff, entriesUnder?, Option.some.injEq, exists_eq_left']
    constructor
    · rintro ⟨_, ⟨slots, hread, ⟨⟩⟩, hP⟩
      exact ⟨slots, hread, hP⟩
    · rintro ⟨slots, hread, hP⟩
      exact ⟨_, ⟨slots, hread, rfl⟩, hP⟩
  | array items =>
    have hitems (slots : Slots τ) : r.readItems items.length Slots.empty r.fields items = .ok slots ↔
        items.length ≤ r.fields.length ∧ r.readEntries Slots.empty ((r.fields.map r.key).zip items) = .ok slots :=
      readItems_eq_ok_iff hkeys items.length (fun _ h => h) hnodup fun _ _ => rfl
    simp only [read, bind_eq_ok_iff, hitems, entriesUnder?, List.length_map, Option.ite_none_right_eq_some,
      Option.some.injEq]
    constructor
    · rintro ⟨_, ⟨slots, ⟨hlength, hread⟩, ⟨⟩⟩, hP⟩
      exact ⟨_, ⟨hlength, rfl⟩, slots, hread, hP⟩
    · rintro ⟨_, ⟨hlength, rfl⟩, slots, hread, hP⟩
      exact ⟨_, ⟨slots, ⟨hlength, hread⟩, rfl⟩, hP⟩
  | _ => simp [read, entriesUnder?]

/-- What can be asked of the slots, each on its own, is asked of the values given to the fields. A closed record must be
given nothing else. -/
theorem exists_read_fields_iff (hkeys : (r.fields.map r.key).Nodup) {P : (i : ι) → Option (τ i) → Prop} :
    (∃ reading, r.read v = .ok reading ∧ ∀ i ∈ r.fields, P i (reading.slots i)) ↔
      ∃ entries, v.entriesUnder? (r.fields.map r.key) = some entries ∧
        (r.closed = true → ∀ e ∈ entries, e.1 ∈ r.fields.map r.key) ∧
        ∀ i ∈ r.fields, ∃ o, Fills (r.decode i) none (valuesAt (r.key i) entries) o ∧ P i o := by
  have hslots (entries : List (String × Json)) (slots : Slots τ) :
      r.readEntries Slots.empty entries = .ok slots ↔
        (r.closed = true → ∀ e ∈ entries, e.1 ∈ r.fields.map r.key) ∧
        (∀ i ∈ r.fields, Fills (r.decode i) none (valuesAt (r.key i) entries) (slots i)) ∧
        ∀ i ∉ r.fields, slots i = none :=
    readEntries_eq_ok_iff hkeys
  rw [exists_read_iff hkeys (P := fun slots => ∀ i ∈ r.fields, P i (slots i))]
  simp only [hslots]
  apply exists_congr
  intro entries
  apply and_congr_right
  intro _
  constructor
  · rintro ⟨slots, ⟨hclosed, hfills, -⟩, hP⟩
    exact ⟨hclosed, fun i hi => ⟨slots i, hfills i hi, hP i hi⟩⟩
  · rintro ⟨hclosed, h⟩
    choose slots hfills hP using h
    refine ⟨fun i => if hi : i ∈ r.fields then slots i hi else none,
      ⟨hclosed, fun i hi => ?_, fun i hi => ?_⟩, fun i hi => ?_⟩
    · simp only [dif_pos hi, hfills]
    · simp only [dif_neg hi]
    · simp only [dif_pos hi, hP]

/-- Of an open record nothing else is asked, so that it has a form field by field. -/
theorem exists_read_slots_iff (hkeys : (r.fields.map r.key).Nodup) (hopen : r.closed = false)
    {P : (i : ι) → Option (τ i) → Prop} :
    (∃ reading, r.read v = .ok reading ∧ ∀ i ∈ r.fields, P i (reading.slots i)) ↔
      IsRecord (r.fields.map fun i => ⟨r.key i, fun given => ∃ o, Fills (r.decode i) none given o ∧ P i o⟩) v := by
  have hforms : (r.fields.map fun i => (⟨r.key i, fun given => ∃ o, Fills (r.decode i) none given o ∧ P i o⟩ :
      FieldForm)).map FieldForm.key = r.fields.map r.key := List.map_map
  rw [exists_read_fields_iff hkeys, IsRecord, hforms, hopen]
  simp only [Bool.false_eq_true, false_implies, true_and, List.forall_mem_map]

end Record

/-! ## What stands inside a value -/

theorem depthItems_le_iff {items : List Json} {d : Nat} : depthItems items ≤ d ↔ ∀ v ∈ items, v.depth ≤ d := by
  induction items with
  | nil => simp [depthItems]
  | cons v items ih => rw [depthItems, Nat.max_le, ih, List.forall_mem_cons]

theorem depthEntries_le_iff {entries : List (String × Json)} {d : Nat} :
    depthEntries entries ≤ d ↔ ∀ e ∈ entries, e.2.depth ≤ d := by
  induction entries with
  | nil => simp [depthEntries]
  | cons e entries ih => rw [depthEntries, Nat.max_le, ih, List.forall_mem_cons]

theorem entriesReadable_iff {entries : List (String × Json)} :
    entriesReadable entries = true ↔ ∀ e ∈ entries, e.2.isReadable = true := by
  induction entries with
  | nil => simp [entriesReadable]
  | cons e entries ih => rw [entriesReadable, Bool.and_eq_true, ih, List.forall_mem_cons]

/-- Nothing is lost for reading by leaving out entries whose values are readable. -/
theorem entriesReadable_filter_ne_iff {key : String} {entries : List (String × Json)}
    (h : ∀ v ∈ valuesAt key entries, v.isReadable = true) :
    entriesReadable (entries.filter fun e => e.1 ≠ key) = true ↔ entriesReadable entries = true := by
  rw [entriesReadable_iff, entriesReadable_iff]
  constructor
  · intro hothers e he
    by_cases hkey : e.1 = key
    · exact h e.2 (List.mem_map_of_mem (List.mem_filter.mpr ⟨he, by simpa using hkey⟩))
    · exact hothers e (List.mem_filter.mpr ⟨he, by simpa using hkey⟩)
  · intro hentries e he
    exact hentries e (List.mem_filter.mp he).1

/-- What a value gives to a record stands inside it. -/
theorem depth_lt_of_entriesUnder? {keys : List String} {v : Json} {entries : List (String × Json)}
    (h : v.entriesUnder? keys = some entries) {e : String × Json} (he : e ∈ entries) : e.2.depth < v.depth := by
  cases v with
  | object entries' =>
    obtain rfl : entries' = entries := by simpa [entriesUnder?] using h
    exact Nat.lt_succ_of_le (depthEntries_le_iff.mp (Nat.le_refl _) e he)
  | array items =>
    obtain ⟨-, rfl⟩ : items.length ≤ keys.length ∧ keys.zip items = entries := by simpa [entriesUnder?] using h
    exact Nat.lt_succ_of_le (depthItems_le_iff.mp (Nat.le_refl _) e.2 (List.of_mem_zip he).2)
  | _ => simp [entriesUnder?] at h

/-! ## Comparing forms -/

/-- Two fields have the same key and accept the same of all values that are less deep than `d`. -/
structure FieldForm.AgreeBelow (d : Nat) (f f' : FieldForm) : Prop where
  key : f.key = f'.key
  allows : ∀ given, (∀ v ∈ given, v.depth < d) → (f.Allows given ↔ f'.Allows given)

/-- Fields that agree on what stands inside a value make the same record of it. -/
theorem isRecord_congr {fields fields' : List FieldForm} {v : Json}
    (h : List.Forall₂ (FieldForm.AgreeBelow v.depth) fields fields') : IsRecord fields v ↔ IsRecord fields' v := by
  have hkeys : fields.map FieldForm.key = fields'.map FieldForm.key := by
    induction h with
    | nil => rfl
    | cons hf _ ih => rw [List.map_cons, List.map_cons, hf.key, ih]
  rw [IsRecord, IsRecord, hkeys]
  apply exists_congr
  intro entries
  apply and_congr_right
  intro hentries
  have hinside (key : String) : ∀ w ∈ valuesAt key entries, w.depth < v.depth := by
    intro w hw
    obtain ⟨e, he, rfl⟩ := exists_entry_of_mem_valuesAt hw
    exact depth_lt_of_entriesUnder? hentries he
  clear hkeys hentries
  induction h with
  | nil => simp
  | @cons f f' fields fields' hf _ ih =>
    rw [List.forall_mem_cons, List.forall_mem_cons, hf.key]
    exact and_congr (hf.allows _ (hinside f'.key)) ih

theorem once_congr {form form' : Json → Prop} {given : List Json} (h : ∀ v ∈ given, form v ↔ form' v) :
    Once form given ↔ Once form' given := by
  apply exists_congr
  intro v
  apply and_congr_right
  rintro rfl
  exact h v List.mem_cons_self

end TemplatePrep.Json

import Mathlib.Data.List.Nodup
import TemplatePrep.Json.Decode

/-!
# Which plain values are decoded

Each decoder of a plain value is met by an equivalence: what it accepts, and for what it accepts the value that it
makes of it. A name out of a fixed list is looked up, and where no name is listed twice that is membership in the list.
-/

namespace TemplatePrep.Json

theorem bind_eq_ok_iff {ε α β : Type} {x : Except ε α} {f : α → Except ε β} {b : β} :
    (x >>= f) = .ok b ↔ ∃ a, x = .ok a ∧ f a = .ok b := by
  cases x with
  | error e =>
    constructor
    · intro h
      cases h
    · rintro ⟨_, ⟨⟩, _⟩
  | ok a =>
    constructor
    · intro h
      exact ⟨a, rfl, h⟩
    · rintro ⟨_, ⟨⟩, h⟩
      exact h

theorem decodeString_eq_ok_iff {v : Json} {s : String} : decodeString v = .ok s ↔ v = .string s := by
  cases v <;> simp [decodeString]

theorem decodeBool_eq_ok_iff {v : Json} {b : Bool} : decodeBool v = .ok b ↔ v = .bool b := by
  cases v <;> simp [decodeBool]

theorem decodeList_eq_ok_iff {α : Type} {decode : Decoder α} {v : Json} {xs : List α} :
    decodeList decode v = .ok xs ↔ ∃ items, v = .array items ∧ decodeItems decode items = .ok xs := by
  cases v <;> simp [decodeList]

/-! ## Names out of a list -/

/-- Where no key comes twice, looking a key up finds what is listed under it. -/
theorem lookup_eq_some_iff_mem {α : Type} {entries : List (String × α)} (hkeys : (entries.map Prod.fst).Nodup)
    {key : String} {x : α} : entries.lookup key = some x ↔ (key, x) ∈ entries := by
  induction entries with
  | nil => simp
  | cons e entries ih =>
    obtain ⟨other, y⟩ := e
    rw [List.map_cons, List.nodup_cons] at hkeys
    by_cases hkey : key = other
    · subst hkey
      have hrest : (key, x) ∉ entries := fun hx => hkeys.1 (List.mem_map.mpr ⟨(key, x), hx, rfl⟩)
      rw [List.lookup_cons_self, List.mem_cons, Option.some.injEq, Prod.mk.injEq]
      simp [hrest, eq_comm]
    · rw [List.lookup_cons, beq_eq_false_iff_ne.mpr hkey, List.mem_cons, Prod.mk.injEq]
      simp [hkey, ih hkeys.2]

section Choice

variable {α : Type} {choices : List (String × α)} (hnames : (choices.map Prod.fst).Nodup) {name : String} {x : α}

include hnames

theorem findChoice_eq_ok_iff : findChoice choices name = .ok x ↔ (name, x) ∈ choices := by
  rw [← lookup_eq_some_iff_mem hnames, findChoice]
  cases choices.lookup name <;> simp

/-- A choice is made by its name, alone or as the only key of an object with null under it. -/
theorem decodeChoice_eq_ok_iff {v : Json} :
    decodeChoice choices v = .ok x ↔
      ∃ name, (name, x) ∈ choices ∧ (v = .string name ∨ v = .object [(name, .null)]) := by
  constructor
  · intro h
    cases v with
    | string name => exact ⟨name, (findChoice_eq_ok_iff hnames).mp h, .inl rfl⟩
    | object entries =>
      cases entries with
      | nil => cases h
      | cons e rest =>
        obtain ⟨name, payload⟩ := e
        obtain ⟨y, hy, h⟩ := bind_eq_ok_iff.mp h
        cases payload with
        | null =>
          dsimp only at h
          split at h
          · next hrest =>
            obtain rfl := Except.ok.inj h
            obtain rfl := List.isEmpty_iff.mp hrest
            exact ⟨name, (findChoice_eq_ok_iff hnames).mp hy, .inr rfl⟩
          · cases h
        | _ => cases h
    | _ => cases h
  · rintro ⟨name, hname, rfl | rfl⟩
    · exact (findChoice_eq_ok_iff hnames).mpr hname
    · rw [decodeChoice, (findChoice_eq_ok_iff hnames).mpr hname]
      rfl

end Choice

end TemplatePrep.Json

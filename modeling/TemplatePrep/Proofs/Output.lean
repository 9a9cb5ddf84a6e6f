import TemplatePrep.Output
import TemplatePrep.Proofs.SourceMap

/-!
# Results can be told apart by their text

The JSON of a result does not name its variant. It need not: a source alone is a string and a source with its map is an
object, and no string is an object, not even one that holds the text of an object, for its quotes are escaped. Both are
plain values, so the text of a result is read as the JSON that was written (`parse?_print_toJson`), and everything else
is said of the JSON: it has one shape for each variant, and each shape gives back what it was made from.
-/

namespace TemplatePrep

namespace Output

theorem isPlain_toJson (o : Output) : o.toJson.isPlain = true := by
  cases o with
  | source src => rw [toJson, Json.isPlain]
  | mapped src m =>
    simp only [toJson, Json.isPlain, Json.entriesPlain, SourceMap.isPlain_toJson, Bool.and_true]

/-- The text of a result is read as its JSON. -/
theorem parse?_print_toJson (o : Output) : Json.parse? o.toJson.print = some o.toJson :=
  Json.parse?_print o.isPlain_toJson

theorem toJson_eq_string_iff {o : Output} {src : String} : o.toJson = .string src ↔ o = .source src := by
  cases o <;> simp [toJson]

theorem toJson_eq_object_iff {o : Output} {entries : List (String × Json)} :
    o.toJson = .object entries ↔
      ∃ src m, o = .mapped src m ∧ entries = [("src", .string src), ("map", m.toJson)] := by
  cases o with
  | source src => simp [toJson]
  | mapped src m =>
    rw [toJson, Json.object.injEq]
    constructor
    · rintro rfl
      exact ⟨src, m, rfl, rfl⟩
    · rintro ⟨_, _, ⟨⟩, rfl⟩
      rfl

/-- Different results have different JSON: the shape gives the variant, and a map is decoded from its own JSON. -/
theorem toJson_injective : Function.Injective toJson := by
  intro o o' h
  cases o with
  | source src => exact (toJson_eq_string_iff.mp h.symm).symm
  | mapped src m =>
    obtain ⟨src', m', rfl, hentries⟩ := toJson_eq_object_iff.mp h.symm
    simp only [List.cons.injEq, Prod.mk.injEq, Json.string.injEq, true_and, and_true] at hentries
    have hmap := congrArg SourceMap.decode hentries.2
    rw [SourceMap.decode_toJson, SourceMap.decode_toJson] at hmap
    rw [hentries.1, Except.ok.inj hmap]

/-- The text of a result tells which result it is. It is a string exactly if the result is a source, and then that source.
It is an object exactly if the result has a map, and then its two entries are the source and the map, the fields of the
map standing under their names in camel case. A source is not mistaken for a result with a map even if it holds the text
of one. -/
theorem print_unambiguous :
    Function.Injective (fun o : Output => o.toJson.print) ∧
    (∀ (o : Output) (src : String), Json.parse? o.toJson.print = some (.string src) ↔ o = .source src) ∧
    (∀ (o : Output) (entries : List (String × Json)), Json.parse? o.toJson.print = some (.object entries) ↔
      ∃ src m map, o = .mapped src m ∧ entries = [("src", .string src), ("map", map)] ∧
        SourceMap.decode map = .ok m ∧
        map = .object [("version", .integer m.version.toNat), ("file", .string m.file),
          ("sources", .array (m.sources.map .string)), ("sourcesContent", .array (m.sourcesContent.map .string)),
          ("names", .array (m.names.map .string)), ("mappings", .string m.mappings)]) ∧
    ∀ (o : Output) (src : String) (m : SourceMap), (source o.toJson.print).toJson.print ≠ (mapped src m).toJson.print := by
  have hread (o : Output) (v : Json) : Json.parse? o.toJson.print = some v ↔ o.toJson = v := by
    rw [parse?_print_toJson, Option.some.injEq]
  have hinjective : Function.Injective (fun o : Output => o.toJson.print) := by
    intro o o' h
    exact toJson_injective ((hread o o'.toJson).mp ((congrArg Json.parse? h).trans o'.parse?_print_toJson))
  refine ⟨hinjective, fun o src => ?_, fun o entries => ?_, fun o src m h => ?_⟩
  · rw [hread, toJson_eq_string_iff]
  · rw [hread, toJson_eq_object_iff]
    constructor
    · rintro ⟨src, m, ho, hentries⟩
      exact ⟨src, m, m.toJson, ho, hentries, m.decode_toJson, rfl⟩
    · rintro ⟨src, m, _, ho, hentries, -, rfl⟩
      exact ⟨src, m, ho, hentries⟩
  · cases hinjective h

end Output

end TemplatePrep

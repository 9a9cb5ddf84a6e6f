import TemplatePrep.SourceMap
import TemplatePrep.Proofs.Node.RoundTrip
import TemplatePrep.Proofs.Text.Percent

/-!
# An appended source map loses nothing

A source map is carried through three codes: JSON, UTF-8 and percent encoding. The last of them leaves a single line, so
the line of the map starts behind the last newline, whatever the source before it holds; and each code can be taken back,
so the source and the map are both found again.
-/

namespace TemplatePrep

open Json (Record Slots)

/-! ## The last newline -/

namespace Text

/-- What stands before and after the last occurrence of a character. -/
def splitLast? (c : Char) : List Char → Option (List Char × List Char)
  | [] => none
  | d :: rest =>
    match splitLast? c rest with
    | some (before, after) => some (d :: before, after)
    | none => if d = c then some ([], rest) else none

theorem splitLast?_eq_none {c : Char} {cs : List Char} (h : c ∉ cs) : splitLast? c cs = none := by
  induction cs with
  | nil => rfl
  | cons d rest ih =>
    rw [List.mem_cons, not_or] at h
    rw [splitLast?, ih h.2, if_neg (Ne.symm h.1)]

/-- The last occurrence is the one with none after it. -/
theorem splitLast?_append (before : List Char) {c : Char} {after : List Char} (h : c ∉ after) :
    splitLast? c (before ++ c :: after) = some (before, after) := by
  induction before with
  | nil => rw [List.nil_append, splitLast?, splitLast?_eq_none h, if_pos rfl]
  | cons d before ih => rw [List.cons_append, splitLast?, ih]

/-- The text before the last newline and the line after it. -/
def splitLastLine? (s : String) : Option (String × String) :=
  (splitLast? '\n' s.toList).map fun p => (String.ofList p.1, String.ofList p.2)

theorem splitLastLine?_append (s : String) {line : String} (h : '\n' ∉ line.toList) :
    splitLastLine? (s ++ "\n" ++ line) = some (s, line) := by
  have hchars : (s ++ "\n" ++ line).toList = s.toList ++ '\n' :: line.toList := by
    rw [String.toList_append, String.toList_append, List.append_assoc]
    rfl
  rw [splitLastLine?, hchars, splitLast?_append _ h, Option.map_some, String.ofList_toList, String.ofList_toList]

end Text

/-! ## The JSON of a source map -/

namespace SourceMap

theorem isPlain_ofStrings (ss : List String) : (ofStrings ss).isPlain = true := by
  rw [ofStrings, Json.isPlain]
  induction ss with
  | nil => rfl
  | cons s ss ih => rw [List.map_cons, Json.itemsPlain, Json.isPlain, ih, Bool.and_true]

theorem isPlain_toJson (m : SourceMap) : m.toJson.isPlain = true := by
  simp only [toJson, Json.isPlain, Json.entriesPlain, Span.isPlain_ofWord, isPlain_ofStrings, Bool.and_true]

theorem decodeList_ofStrings (ss : List String) : Json.decodeList Json.decodeString (ofStrings ss) = .ok ss :=
  Json.decodeItems_map fun _ _ => rfl

/-- A source map is decoded from its JSON. -/
theorem decode_toJson (m : SourceMap) : decode m.toJson = .ok m := by
  have hdecode : record.decode .version = Json.decodeUInt32 := rfl
  have hversion : record.decode .version (Span.ofWord m.version) = .ok m.version := by
    rw [hdecode]
    exact Span.decodeUInt32_ofWord m.version
  have hread : record.readEntries Slots.empty
      [(Field.version.key, Span.ofWord m.version), (Field.file.key, .string m.file),
        (Field.sources.key, ofStrings m.sources), (Field.sourcesContent.key, ofStrings m.sourcesContent),
        (Field.names.key, ofStrings m.names), (Field.mappings.key, .string m.mappings)] =
      .ok ((((((Slots.empty.set .version m.version).set .file m.file).set .sources m.sources).set .sourcesContent
        m.sourcesContent).set .names m.names).set .mappings m.mappings) := by
    rw [Record.readEntries_field rfl rfl hversion, Record.readEntries_field rfl rfl rfl,
      Record.readEntries_field rfl rfl (decodeList_ofStrings m.sources),
      Record.readEntries_field rfl rfl (decodeList_ofStrings m.sourcesContent),
      Record.readEntries_field rfl rfl (decodeList_ofStrings m.names), Record.readEntries_field rfl rfl rfl,
      Record.readEntries]
  rw [decode, toJson, Record.read, hread]
  rfl

theorem ofText_print (m : SourceMap) : ofText m.print = .ok m := by
  rw [ofText, print, Json.decodeText_print decode m.isPlain_toJson, decode_toJson]

/-- The comment begins the line, and the scheme the URL in it. -/
theorem appendTo_eq (m : SourceMap) (source : String) :
    m.appendTo source =
      source ++ "\n" ++ ("//# sourceMappingURL=data:application/json," ++ Text.percentEncode m.print) := by
  have hstart : commentStart ++ urlScheme = "//# sourceMappingURL=data:application/json," := by decide
  simp only [appendTo, dataUrl, ← hstart, String.append_assoc]

theorem splitLastLine?_appendTo (m : SourceMap) (source : String) :
    Text.splitLastLine? (m.appendTo source) =
      some (source, "//# sourceMappingURL=data:application/json," ++ Text.percentEncode m.print) := by
  have hpayload : '\n' ∉ (Text.percentEncode m.print).toList :=
    Text.newline_notMem_of_isComponent (Text.isComponent_percentEncode m.print)
  have hstart : '\n' ∉ "//# sourceMappingURL=data:application/json,".toList := by decide
  rw [appendTo_eq, Text.splitLastLine?_append]
  rw [String.toList_append, List.mem_append, not_or]
  exact ⟨hstart, hpayload⟩

/-- Behind the last newline of a source with an appended source map stands the map: a URI component in a data URL,
whose bytes are the text of the map. Before that newline stands the source, so nothing of either is lost. -/
theorem appendTo_lossless :
    (∀ (m : SourceMap) (source : String), ∃ payload : String,
      Text.splitLastLine? (m.appendTo source) =
        some (source, "//# sourceMappingURL=data:application/json," ++ payload) ∧
      Text.isComponent payload.toList = true ∧
      Text.percentDecode payload = m.print.toUTF8 ∧
      ofText m.print = .ok m) ∧
    Function.Injective fun p : String × SourceMap => p.2.appendTo p.1 := by
  constructor
  · intro m source
    exact ⟨Text.percentEncode m.print, m.splitLastLine?_appendTo source, Text.isComponent_percentEncode _,
      Text.percentDecode_percentEncode _, m.ofText_print⟩
  · rintro ⟨source₁, m₁⟩ ⟨source₂, m₂⟩ h
    have hsplit := congrArg Text.splitLastLine? h
    simp only [splitLastLine?_appendTo, Option.some.injEq, Prod.mk.injEq] at hsplit
    obtain ⟨hsource, hline⟩ := hsplit
    have hbytes := congrArg Text.percentDecode ((String.append_right_inj _).mp hline)
    rw [Text.percentDecode_percentEncode, Text.percentDecode_percentEncode, String.toUTF8_eq_toByteArray,
      String.toUTF8_eq_toByteArray, String.toByteArray_inj] at hbytes
    have hmap : m₁ = m₂ := by
      have hread := congrArg ofText hbytes
      rw [ofText_print, ofText_print] at hread
      exact Except.ok.inj hread
    rw [hsource, hmap]

end SourceMap

end TemplatePrep

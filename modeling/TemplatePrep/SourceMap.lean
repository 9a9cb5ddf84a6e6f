import TemplatePrep.Json.Printer
import TemplatePrep.Json.Record
import TemplatePrep.Span
import TemplatePrep.Text.Percent

/-!
# Source maps

A source map of revision 3 leads from generated source back to the template. Its mappings come from the code generator
and are only carried. It is written as JSON, as a data URL, or as a comment with that URL at the end of the source.
-/

namespace TemplatePrep

/-- A source map. -/
structure SourceMap where
  version : UInt32
  file : String
  sources : List String
  sourcesContent : List String
  names : List String
  mappings : String
deriving DecidableEq, Inhabited

namespace SourceMap

/-- The source map of a single template. -/
def single (file sourceName sourceContent mappings : String) : SourceMap :=
  ⟨3, file, [sourceName], [sourceContent], [], mappings⟩

/-! ## JSON -/

/-- The fields of a source map in JSON. -/
inductive Field where
  | version
  | file
  | sources
  | sourcesContent
  | names
  | mappings
deriving DecidableEq

/-- The key of a field. -/
def Field.key : Field → String
  | version => "version"
  | file => "file"
  | sources => "sources"
  | sourcesContent => "sourcesContent"
  | names => "names"
  | mappings => "mappings"

/-- What the value of each field is. -/
def Field.Content : Field → Type
  | version => UInt32
  | file | mappings => String
  | sources | sourcesContent | names => List String

/-- A list of strings in JSON. -/
def ofStrings (ss : List String) : Json := .array (ss.map .string)

/-- A source map in JSON. -/
def toJson (m : SourceMap) : Json :=
  .object [(Field.version.key, Span.ofWord m.version), (Field.file.key, .string m.file),
    (Field.sources.key, ofStrings m.sources), (Field.sourcesContent.key, ofStrings m.sourcesContent),
    (Field.names.key, ofStrings m.names), (Field.mappings.key, .string m.mappings)]

/-- The record of a source map. -/
def record : Json.Record Field Field.Content where
  title := "SourceMap"
  fields := [.version, .file, .sources, .sourcesContent, .names, .mappings]
  key := Field.key
  decode
    | .version => Json.decodeUInt32
    | .file => Json.decodeString
    | .sources => Json.decodeList Json.decodeString
    | .sourcesContent => Json.decodeList Json.decodeString
    | .names => Json.decodeList Json.decodeString
    | .mappings => Json.decodeString
  closed := false
  held := false

/-- Decodes a source map. -/
def decode : Json.Decoder SourceMap := fun v => do
  let r ← record.read v
  let version : UInt32 ← r.require .version
  let file : String ← r.require .file
  let sources : List String ← r.require .sources
  let sourcesContent : List String ← r.require .sourcesContent
  let names : List String ← r.require .names
  let mappings : String ← r.require .mappings
  .ok ⟨version, file, sources, sourcesContent, names, mappings⟩

/-- The text of a source map. -/
def print (m : SourceMap) : String := m.toJson.print

/-- Reads a source map from text. -/
def ofText (text : String) : Except DecodeError SourceMap := Json.decodeText decode text

/-! ## In generated source -/

/-- What a data URL of JSON begins with. -/
def urlScheme : String := "data:application/json,"

/-- The source map as a data URL. -/
def dataUrl (m : SourceMap) : String := urlScheme ++ Text.percentEncode m.print

/-- What the comment with the URL of a source map begins with. -/
def commentStart : String := "//# sourceMappingURL="

/-- A source followed by a line with the source map. -/
def appendTo (m : SourceMap) (source : String) : String := source ++ "\n" ++ commentStart ++ m.dataUrl

end SourceMap

end TemplatePrep

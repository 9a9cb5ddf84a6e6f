import TemplatePrep.Json.Printer
import TemplatePrep.Json.Record

/-!
# Options and parameters

Options are what a caller says and may leave out; parameters are the same with every gap filled. Options are read
strictly: a key that is no option is refused.
-/

namespace TemplatePrep

/-- How a source map is returned. -/
inductive MapMode where
  /-- Beside the generated source. -/
  | extract
  /-- At the end of the generated source, as a comment. -/
  | append
deriving DecidableEq, Inhabited

namespace MapMode

/-- The name of a mode. -/
def name : MapMode → String
  | extract => "extract"
  | append => "append"

/-- The modes by their names. -/
def choices : List (String × MapMode) := [(extract.name, extract), (append.name, append)]

/-- A mode in JSON. -/
def toJson (m : MapMode) : Json := .string m.name

/-- Decodes a mode. -/
def decode : Json.Decoder MapMode := Json.decodeChoice choices

end MapMode

/-- Parameters of a run. -/
structure Params where
  sourcemap : Option MapMode
  jsx : Bool
deriving DecidableEq, Inhabited

/-- Options as a caller gives them. -/
structure Options where
  sourcemap : Option MapMode
  jsx : Option Bool
deriving DecidableEq, Inhabited

namespace Options

/-- No option given. -/
def default : Options := ⟨none, none⟩

/-- The options with a mode. -/
def withSourcemap (o : Options) (m : MapMode) : Options := ⟨some m, o.jsx⟩

/-- The options with a choice of attribute syntax. -/
def withJsx (o : Options) (b : Bool) : Options := ⟨o.sourcemap, some b⟩

/-- The parameters that options stand for: no source map and no JSX unless asked for. -/
def resolve (o : Options) : Params := ⟨o.sourcemap, o.jsx.getD false⟩

/-! ## JSON -/

/-- The fields of options and parameters in JSON. -/
inductive Field where
  | sourcemap
  | jsx
deriving DecidableEq

/-- The key of a field. -/
def Field.key : Field → String
  | sourcemap => "sourcemap"
  | jsx => "jsx"

/-- What the value of each field of options is. -/
def Field.Content : Field → Type
  | sourcemap => Option MapMode
  | jsx => Option Bool

/-- Options in JSON. -/
def toJson (o : Options) : Json :=
  .object [(Field.sourcemap.key, Json.ofOption MapMode.toJson o.sourcemap), (Field.jsx.key, Json.ofOption .bool o.jsx)]

/-- The record of options. -/
def record : Json.Record Field Field.Content where
  title := "Options"
  fields := [.sourcemap, .jsx]
  key := Field.key
  decode
    | .sourcemap => Json.decodeOption MapMode.decode
    | .jsx => Json.decodeOption Json.decodeBool
  closed := true
  held := false

/-- Decodes options. A missing field is not given. -/
def decode : Json.Decoder Options := fun v => do
  let r ← record.read v
  .ok ⟨r.getD .sourcemap none, r.getD .jsx none⟩

/-- Reads options from text. -/
def ofText (text : String) : Except DecodeError Options := Json.decodeText decode text

end Options

namespace Params

/-- Parameters in JSON. -/
def toJson (p : Params) : Json :=
  .object [(Options.Field.sourcemap.key, Json.ofOption MapMode.toJson p.sourcemap),
    (Options.Field.jsx.key, .bool p.jsx)]

/-- What the value of each field of parameters is. -/
def Content : Options.Field → Type
  | .sourcemap => Option MapMode
  | .jsx => Bool

/-- The record of parameters. -/
def record : Json.Record Options.Field Content where
  title := "Params"
  fields := [.sourcemap, .jsx]
  key := Options.Field.key
  decode
    | .sourcemap => Json.decodeOption MapMode.decode
    | .jsx => Json.decodeBool
  closed := false
  held := false

/-- Decodes parameters. In an object the mode may be missing. -/
def decode : Json.Decoder Params := fun v => do
  let r ← record.read v
  let jsx : Bool ← r.require .jsx
  .ok ⟨r.getD .sourcemap none, jsx⟩

end Params

end TemplatePrep

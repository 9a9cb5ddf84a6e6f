import TemplatePrep.Options
import TemplatePrep.SourceMap

/-!
# Results of preprocessing

What a code generator hands back is shaped by the mode that was asked for. Without a mode the source alone is kept,
whatever map came with it; with a mode a map has to be there.
-/

namespace TemplatePrep

/-- Why preprocessing failed. The pass over the tree cannot fail. -/
inductive Failure where
  /-- The options cannot be read. -/
  | invalidOptions (cause : DecodeError)
  /-- The parser refused the source. -/
  | parse (message : String)
  /-- The code generator failed. -/
  | codegen (message : String)
  /-- A mode was given and the code generator made no map. -/
  | missingSourceMap (mode : MapMode)

/-- The message of a failure. -/
def Failure.message : Failure → String
  | invalidOptions cause => "invalid preprocess options: " ++ cause.message
  | parse message => "parse error: " ++ message
  | codegen message => "code generation error: " ++ message
  | missingSourceMap mode => "source map mode '" ++ mode.name ++ "' requires the code generator to produce a map"

/-- What a code generator hands back. -/
structure Generated where
  src : String
  map : Option SourceMap
deriving DecidableEq, Inhabited

/-- The result of preprocessing: a source, or a source with its map beside it. -/
inductive Output where
  | source (src : String)
  | mapped (src : String) (map : SourceMap)
deriving DecidableEq, Inhabited

namespace Output

/-- The source. -/
def src : Output → String
  | source s => s
  | mapped s _ => s

/-- The map beside the source. -/
def map? : Output → Option SourceMap
  | source _ => none
  | mapped _ m => some m

/-- A result in JSON: a bare string, or an object with source and map. -/
def toJson : Output → Json
  | source s => .string s
  | mapped s m => .object [("src", .string s), ("map", m.toJson)]

end Output

/-- Shapes what a code generator handed back for a mode. -/
def Generated.shape (g : Generated) : Option MapMode → Except Failure Output
  | none => .ok (.source g.src)
  | some mode =>
    match g.map with
    | none => .error (.missingSourceMap mode)
    | some m =>
      match mode with
      | .extract => .ok (.mapped g.src m)
      | .append => .ok (.source (m.appendTo g.src))

end TemplatePrep

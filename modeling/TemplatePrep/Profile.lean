import TemplatePrep.Json.Printer
import TemplatePrep.Json.Record
import TemplatePrep.Rule.Builtin

/-!
# Target profiles

A profile says what a target keeps when it parses markup, and thereby which built-in rules to attach. Blank text is
always stripped, unless the target loses blank text: then it is preserved by a mark instead, the preserving rule being
attached after the stripping one.
-/

namespace TemplatePrep

/-- What a target keeps. -/
structure Profile where
  /-- Blank text survives. -/
  keepsBlankText : Bool
  /-- A comment that comes first in its container survives. -/
  keepsInitialComments : Bool
deriving DecidableEq, Inhabited

namespace Profile

/-- A target that keeps everything. -/
def default : Profile := ⟨true, true⟩

/-- A target that loses both. -/
def legacy : Profile := ⟨false, false⟩

/-- The built-in rules to attach for a target, in order. -/
def rules (p : Profile) : List Builtin :=
  .stripWhitespaceText :: (if p.keepsBlankText then [] else [.preserveWhitespaceText]) ++
    (if p.keepsInitialComments then [] else [.markInitialComments])

/-- Whether a built-in rule makes up for what a target loses. Blank text is stripped for every target. -/
def needs (p : Profile) : Builtin → Bool
  | .stripWhitespaceText => true
  | .preserveWhitespaceText => !p.keepsBlankText
  | .markInitialComments => !p.keepsInitialComments

/-- The rules for a target are the built-in rules that it needs, in their fixed order. -/
theorem rules_eq_filter (p : Profile) : p.rules = Builtin.all.filter p.needs := by
  obtain ⟨keepsBlankText, keepsInitialComments⟩ := p
  cases keepsBlankText <;> cases keepsInitialComments <;> rfl

/-- The rule set for a target. -/
def ruleSet {σ : Type} (p : Profile) : RuleSet σ := RuleSet.ofBuiltins p.rules

/-! ## JSON -/

/-- The fields of a profile in JSON. -/
inductive Field where
  | blankText
  | initialComments
deriving DecidableEq

/-- The key of a field. -/
def Field.key : Field → String
  | blankText => "preservesWhitespaceTextNodes"
  | initialComments => "preservesInitialComments"

/-- A profile in JSON. -/
def toJson (p : Profile) : Json :=
  .object [(Field.blankText.key, .bool p.keepsBlankText), (Field.initialComments.key, .bool p.keepsInitialComments)]

/-- The record of a profile. -/
def record : Json.Record Field fun _ => Bool where
  title := "TargetProfile"
  fields := [.blankText, .initialComments]
  key := Field.key
  decode _ := Json.decodeBool
  closed := false
  held := false

/-- Decodes a profile. A missing field is as in the default profile. -/
def decode : Json.Decoder Profile := fun v => do
  let r ← record.read v
  .ok ⟨r.getD .blankText default.keepsBlankText, r.getD .initialComments default.keepsInitialComments⟩

end Profile

end TemplatePrep

import TemplatePrep.Rule.Basic
import TemplatePrep.Text.Blank

/-!
# Built-in rules

Some targets lose markup when they parse it: they drop or collapse blank text, or drop a comment that comes first in
its container. Stripping takes blank text out of the tree; preserving marks it with the zero-width marker, so that it
is blank no longer. A static property's blank text is part of its value and left alone by both. Of the two the one
attached last decides: it is called first, and text that it removed or marked is out of the other's reach. The third
rule puts a marker in front of a comment that comes first.
-/

namespace TemplatePrep

/-- The names of the built-in rules. -/
inductive Builtin where
  | stripWhitespaceText
  | preserveWhitespaceText
  | markInitialComments
deriving DecidableEq, Inhabited

namespace Builtin

/-- Whether a visited text is blank and not the value of a static property. -/
def losesText (v : View) (n : Node) : Bool :=
  n.label?.any Text.isBlank && !v.parent.isProperty

variable {σ : Type}

/-- Removes blank text. -/
def strip : Rule σ .text := fun v n s =>
  ⟨n, if losesText v n then Edits.prune else Edits.none, s⟩

/-- Puts the marker at the front of blank text. -/
def preserve : Rule σ .text := fun v n s =>
  ⟨if losesText v n then n.mapLabel (Text.marker ++ ·) else n, Edits.none, s⟩

/-- Puts a marker before a comment that comes first in its container. -/
def markInitial : Rule σ .comment := fun v n s =>
  ⟨n, if v.index = 0 then Edits.insertBefore (Node.text Text.marker) else Edits.none, s⟩

/-- Attaches a built-in rule to its kind. -/
def attach (rules : RuleSet σ) : Builtin → RuleSet σ
  | stripWhitespaceText => rules.attach .text strip
  | preserveWhitespaceText => rules.attach .text preserve
  | markInitialComments => rules.attach .comment markInitial

/-! ## Names -/

/-- Every built-in rule, in its fixed order. -/
def all : List Builtin := [stripWhitespaceText, preserveWhitespaceText, markInitialComments]

/-- The name of a built-in rule. -/
def name : Builtin → String
  | stripWhitespaceText => "strip-whitespace-text"
  | preserveWhitespaceText => "preserve-whitespace-text"
  | markInitialComments => "mark-initial-comments"

/-- The built-in rules by their names. -/
def choices : List (String × Builtin) := all.map fun b => (b.name, b)

/-- The built-in rule with a given name. -/
def ofName? (name : String) : Option Builtin := choices.lookup name

/-- The message that there is no built-in rule with a given name. -/
def unknownMessage (name : String) : String := "unknown shim rule: " ++ name

/-- A built-in rule in JSON. -/
def toJson (b : Builtin) : Json := .string b.name

/-- Decodes a built-in rule. -/
def decode : Json.Decoder Builtin := Json.decodeChoice choices

theorem ofName?_name (b : Builtin) : ofName? b.name = some b := by
  cases b <;> rfl

end Builtin

/-- The rule set with the given built-in rules attached in order. -/
def RuleSet.ofBuiltins {σ : Type} (bs : List Builtin) : RuleSet σ :=
  bs.foldl Builtin.attach RuleSet.empty

end TemplatePrep

import TemplatePrep.Json.Form
import TemplatePrep.Node.Basic

/-!
# Forms of nodes

Which JSON values stand for a node, said of the node and its keys. A node is a record whose first field is its kind, a
string. Children are an array of nodes. A span may be left out or be null where there is none. The root of a template
and a block of code inside an insert are records without the kind. A node must also be readable to its end, entries that
its record passes over included; every value without an unreadable part is.
-/

namespace TemplatePrep

/-- The value stands for a span: a record of its four numbers. -/
def Span.IsForm (s : Span) : Json → Prop :=
  Json.IsRecord [
    ⟨"start_line", Json.Once (· = .integer s.start.line.toNat)⟩,
    ⟨"start_col", Json.Once (· = .integer s.start.col.toNat)⟩,
    ⟨"end_line", Json.Once (· = .integer s.stop.line.toNat)⟩,
    ⟨"end_col", Json.Once (· = .integer s.stop.col.toNat)⟩]

/-- What may be given where a span may be missing. -/
def Span.GivenAs : Option Span → List Json → Prop
  | none, given => given = [] ∨ given = [.null]
  | some s, given => Json.Once s.IsForm given

namespace Node

/-- The fields of a branch between its kind and its span, `children` being what stands for its children. -/
def headForms (children : Json → Prop) : Head → List Json.FieldForm
  | .topLevel | .embeddedCode => [⟨"segments", Json.Once children⟩]
  | .element tag => [⟨"tag", Json.Once (· = .string tag)⟩, ⟨"content", Json.Once children⟩]
  | .insert codeSpan =>
    [⟨"code", Json.Once (Json.IsRecord [⟨"segments", Json.Once children⟩, ⟨"span", Span.GivenAs codeSpan⟩])⟩]
  | .property name => [⟨"name", Json.Once (· = .string name)⟩, ⟨"content", Json.Once children⟩]

/-- The value stands for a node of the given kind with the given fields: a record with its kind in front. -/
def IsTagged (k : Kind) (fields : List Json.FieldForm) (v : Json) : Prop :=
  v.isReadable = true ∧ Json.IsRecord (⟨"kind", Json.Once (· = .string k.tag)⟩ :: fields) v

mutual
/-- The fields of a node without its kind. -/
def fieldForms : Node → List Json.FieldForm
  | leaf _ text span => [⟨"text", Json.Once (· = .string text)⟩, ⟨"span", Span.GivenAs span⟩]
  | branch head children span =>
    headForms (fun v => ∃ items, v = .array items ∧ AreForms children items) head ++ [⟨"span", Span.GivenAs span⟩]

/-- The items stand for the nodes, one for each in order. -/
def AreForms : List Node → List Json → Prop
  | [], items => items = []
  | n :: rest, items => ∃ v others, items = v :: others ∧ IsTagged n.kind n.fieldForms v ∧ AreForms rest others
end

/-- The value stands for a node. -/
def IsForm (n : Node) (v : Json) : Prop := IsTagged n.kind n.fieldForms v

end Node

/-- The value stands for a template: its root without the kind. -/
def Template.IsForm (t : Template) (v : Json) : Prop := Json.IsRecord t.root.fieldForms v

end TemplatePrep

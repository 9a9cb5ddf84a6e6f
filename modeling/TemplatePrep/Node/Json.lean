import TemplatePrep.Node.Basic

/-!
# Nodes in JSON

A node is written as an object: its kind, then its fields, then its span where it has one. It is read from that object
with the entries in any order, or from an array whose first item is the kind. A block of code inside an insert and the
root of a template are written and read the same way without the kind; there an entry for the kind is like any unknown
one. While a node is read its kind is looked for first, and so are faults in it. Everything else is held back until the
kind is known, and what is held back has to be readable, whether the kind has a use for it or not.
-/

namespace TemplatePrep

namespace Node

/-! ## Writing -/

/-- The entry for a span, or none. -/
def spanEntry : Option Span → List (String × Json)
  | none => []
  | some s => [("span", s.toJson)]

/-- The fields of a branch between its kind and its span, its children being given in JSON. -/
def headEntries (children : Json) : Head → List (String × Json)
  | .topLevel | .embeddedCode => [("segments", children)]
  | .element tag => [("tag", .string tag), ("content", children)]
  | .insert codeSpan => [("code", .object (("segments", children) :: spanEntry codeSpan))]
  | .property name => [("name", .string name), ("content", children)]

mutual
/-- The fields of a node without its kind. -/
def entries : Node → List (String × Json)
  | leaf _ text span => ("text", .string text) :: spanEntry span
  | branch head children span => headEntries (.array (allToJson children)) head ++ spanEntry span

/-- A node in JSON. -/
def toJson : Node → Json
  | leaf k text span => .object (("kind", k.kind.toJson) :: entries (leaf k text span))
  | branch head children span => .object (("kind", head.kind.toJson) :: entries (branch head children span))

/-- Several nodes in JSON. -/
def allToJson : List Node → List Json
  | [] => []
  | n :: rest => n.toJson :: allToJson rest
end

/-- A node is written as its kind followed by what is written of it without the kind. -/
theorem toJson_eq (n : Node) : n.toJson = .object (("kind", n.kind.toJson) :: n.entries) := by
  cases n with
  | leaf => rw [toJson, kind]
  | branch => rw [toJson, kind]

end Node

/-- A template in JSON. -/
def Template.toJson (t : Template) : Json := .object t.root.entries

namespace Node

/-! ## Reading -/

/-- The fields that nodes have in JSON. -/
inductive Field where
  | label
  | children
  | code
  | span
deriving DecidableEq

/-- What the value of each field is. Code is kept as the node it would be on its own. -/
def Field.Content : Field → Type
  | label => String
  | children => List Node
  | code => Node
  | span => Option Span

/-- The fields of each kind in declared order. -/
def fieldsOf : Kind → List Field
  | .topLevel | .embeddedCode => [.children, .span]
  | .element | .property => [.label, .children, .span]
  | .insert => [.code, .span]
  | .codeText | .text | .comment => [.label, .span]

/-- The key of a field in a node of the given kind. -/
def keyOf (k : Kind) : Field → String
  | .label =>
    match k with
    | .element => "tag"
    | .property => "name"
    | _ => "text"
  | .children =>
    match k with
    | .topLevel | .embeddedCode => "segments"
    | _ => "content"
  | .code => "code"
  | .span => "span"

/-- Puts a node of the given kind together from its fields. -/
def assemble (k : Kind) (r : Json.Reading Field.Content) : Except DecodeError Node := do
  let span : Option Span := r.getD .span none
  match k with
  | .topLevel => return .branch .topLevel (← r.require .children) span
  | .embeddedCode => return .branch .embeddedCode (← r.require .children) span
  | .element =>
    let tag : String ← r.require .label
    return .branch (.element tag) (← r.require .children) span
  | .property =>
    let name : String ← r.require .label
    return .branch (.property name) (← r.require .children) span
  | .insert =>
    let code : Node ← r.require .code
    return .branch (.insert code.span) code.children span
  | .codeText => return .leaf .codeText (← r.require .label) span
  | .text => return .leaf .text (← r.require .label) span
  | .comment => return .leaf .comment (← r.require .label) span

/-- Decodes the kind of a node where it stands. Only names are covered. In what is held back while an outer kind is looked
for, a kind may also be given by its number in declared order; here a number is refused there as everywhere. -/
def decodeTag : Json.Decoder Kind
  | .string name => Json.findChoice Kind.choices name
  | v => .error (v.mismatch "variant identifier")

/-- Takes the entry for the kind out of the entries of a node and holds the others back. -/
def splitTag (tag : Option Kind) : List (String × Json) → Except DecodeError (Option Kind × List (String × Json))
  | [] => .ok (tag, [])
  | (key, v) :: rest =>
    if key = "kind" then
      match tag with
      | some _ => .error (.duplicateField "kind")
      | none => do
        let k ← decodeTag v
        splitTag (some k) rest
    else if v.isReadable then do
      let (k, others) ← splitTag tag rest
      .ok (k, (key, v) :: others)
    else .error .malformed

/-- Decodes a node, given how the fields of each kind are decoded. -/
def decodeTagged (fields : Kind → Json.Decoder Node) : Json.Decoder Node
  | .object entries => do
    let (tag, others) ← splitTag none entries
    match tag with
    | some k => fields k (.object others)
    | none => .error (.missingField "kind")
  | .array [] => .error (.missingField "kind")
  | .array (v :: rest) => do
    let k ← decodeTag v
    if Json.itemsReadable rest then fields k (.array rest) else .error .malformed
  | v => .error (v.mismatch "internally tagged enum Node")

/-- The record of a kind, given how the fields of each kind are decoded further inside. -/
def record (inner : Kind → Json.Decoder Node) (held : Bool) (k : Kind) : Json.Record Field Field.Content where
  title := k.tag
  fields := fieldsOf k
  key := keyOf k
  decode
    | .label => Json.decodeString
    | .children => Json.decodeList (decodeTagged inner)
    | .code => inner .embeddedCode
    | .span => Json.decodeOption (Span.decode held)
  closed := false
  held := held

/-- Decodes the fields of a node of the given kind. The fuel bounds how deep records stand inside one another. -/
def decodeFields : Nat → Bool → Kind → Json.Decoder Node
  | 0, _, _ => fun _ => .error .malformed
  | fuel + 1, held, k => fun v => do
    let r ← (record (decodeFields fuel true) held k).read v
    assemble k r

/-- Decodes a node. -/
def decode : Json.Decoder Node := fun v =>
  decodeTagged (decodeFields (v.depth + 1) true) v

end Node

/-- Decodes a template. -/
def Template.decode : Json.Decoder Template := fun v => do
  let n ← Node.decodeFields (v.depth + 1) false .topLevel v
  .ok (.ofRoot n)

end TemplatePrep

import TemplatePrep.Json.Printer
import TemplatePrep.Json.Decode

/-!
# Kinds of nodes

The eight kinds, each with its tag in JSON and the name by which it is shown.
-/

namespace TemplatePrep

/-- The kind of a node. -/
inductive Kind where
  | topLevel
  | element
  | insert
  | embeddedCode
  | codeText
  | text
  | comment
  | property
deriving DecidableEq, Inhabited

namespace Kind

/-- Every kind, in its fixed order. -/
def all : List Kind :=
  [topLevel, element, insert, embeddedCode, codeText, text, comment, property]

theorem mem_all (k : Kind) : k ∈ all := by
  cases k <;> decide

/-- The tag of a kind in JSON. -/
def tag : Kind → String
  | topLevel => "CodeTopLevel"
  | element => "HtmlElement"
  | insert => "HtmlInsert"
  | embeddedCode => "EmbeddedCode"
  | codeText => "CodeText"
  | text => "HtmlText"
  | comment => "HtmlComment"
  | property => "StaticProperty"

/-- The name by which a kind is shown. -/
def name : Kind → String
  | topLevel => "code-top-level"
  | element => "html-element"
  | insert => "html-insert"
  | embeddedCode => "embedded-code"
  | codeText => "code-text"
  | text => "html-text"
  | comment => "html-comment"
  | property => "static-property"

/-- Whether nodes of a kind have children. -/
def isContainer : Kind → Bool
  | codeText | text | comment => false
  | _ => true

/-- A kind in JSON. -/
def toJson (k : Kind) : Json := .string k.tag

/-- The kinds by their tags. -/
def choices : List (String × Kind) := all.map fun k => (k.tag, k)

/-- Decodes a kind. -/
def decode : Json.Decoder Kind := Json.decodeChoice choices

/-- Each tag names its own kind. -/
theorem findChoice_tag (k : Kind) : Json.findChoice choices k.tag = .ok k := by
  cases k <;> rfl

end Kind

end TemplatePrep

import TemplatePrep.Json.Basic
import TemplatePrep.Decimal.Real
import TemplatePrep.Text.Quoted

/-!
# Why a JSON text is refused

Either the text is not one well-formed value (or has an item too many, or names a choice by something other than a
string, or something in it that has to be read is unreadable), and then no more is said; or the value has the wrong
content, and the cause is kept.
-/

namespace TemplatePrep

/-- What stands where something else was expected. -/
inductive Found where
  | null
  | bool (b : Bool)
  | integer (i : Int)
  | real (x : Float)
  | string (s : String)
  | sequence
  | map

/-- The kind of a value, with its content where that is short. Nothing can be said of what is unreadable. -/
def Json.found? : Json → Option Found
  | null => some .null
  | bool b => some (.bool b)
  | integer i => some (.integer i)
  | real x => some (.real x)
  | string s => some (.string s)
  | array _ => some .sequence
  | object _ => some .map
  | unreadable => none

/-- How messages show what was found. -/
def Found.describe : Found → String
  | null => "null"
  | bool b => "boolean `" ++ (if b then "true" else "false") ++ "`"
  | integer i => "integer `" ++ toString i ++ "`"
  | real x => "floating point `" ++ Decimal.realText x ++ "`"
  | string s => "string " ++ Text.quote s
  | sequence => "sequence"
  | map => "map"

/-- The cause of a refusal. -/
inductive DecodeError where
  /-- The text is not one well-formed value of an acceptable shape, or cannot be read where it has to be. -/
  | malformed
  /-- A value of another type stands where `expected` should. -/
  | wrongType (found : Found) (expected : String)
  /-- An integer is outside the range of `expected`. -/
  | outOfRange (value : Int) (expected : String)
  /-- A sequence has `length` items where `expected` says how many belong. -/
  | wrongLength (length : Nat) (expected : String)
  /-- A name is none of the known choices. -/
  | unknownVariant (name : String) (known : List String)
  /-- A key is none of the known ones of a record that has no others. -/
  | unknownField (name : String) (known : List String)
  /-- A record lacks a field. -/
  | missingField (name : String)
  /-- A record gives a field twice. -/
  | duplicateField (name : String)

namespace DecodeError

/-- Whether the text itself or its content is refused. -/
inductive Category where
  | text
  | content
deriving DecidableEq

/-- The category of a cause. -/
def category : DecodeError → Category
  | malformed => .text
  | _ => .content

/-- A name as messages show it. -/
def ticked (name : String) : String := "`" ++ name ++ "`"

/-- A list of names as messages show it: two are joined by "or", more are listed after "one of". -/
def choices : List String → String
  | [a] => ticked a
  | [a, b] => ticked a ++ " or " ++ ticked b
  | names => "one of " ++ ", ".intercalate (names.map ticked)

/-- The message of a cause. -/
def message : DecodeError → String
  | malformed => "malformed text"
  | wrongType found expected => "invalid type: " ++ found.describe ++ ", expected " ++ expected
  | outOfRange value expected => "invalid value: integer " ++ ticked (toString value) ++ ", expected " ++ expected
  | wrongLength length expected => "invalid length " ++ toString length ++ ", expected " ++ expected
  | unknownVariant name known => "unknown variant " ++ ticked name ++ ", expected " ++ choices known
  | unknownField name known => "unknown field " ++ ticked name ++ ", expected " ++ choices known
  | missingField name => "missing field " ++ ticked name
  | duplicateField name => "duplicate field " ++ ticked name

end DecodeError

/-- The cause where a value is not of the expected type. -/
def Json.mismatch (v : Json) (expected : String) : DecodeError :=
  match v.found? with
  | some found => .wrongType found expected
  | none => .malformed

end TemplatePrep

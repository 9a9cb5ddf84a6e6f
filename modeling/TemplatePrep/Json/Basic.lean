/-!
# JSON values

A value keeps what its text says: the entries of an object stand in reading order and may repeat a key, and a number is
an integer or a real depending on how it was written. What a record makes of repeated or unknown keys is decided where
records are read, not here.

Some well-formed text stands for nothing that can be held: a number too large for a double, a string with half of a
surrogate pair, an object with such a string for a key. The value of that text is `unreadable`. It does no harm where
nobody looks at it, so it is a value like any other here, and refused only by who has to read it.
-/

namespace TemplatePrep

/-- A JSON value. A number written without point and exponent that fits 64 bits is an integer, any other is a real. -/
inductive Json where
  | null
  | bool (b : Bool)
  | integer (i : Int)
  | real (x : Float)
  | string (s : String)
  | array (items : List Json)
  | object (entries : List (String × Json))
  /-- Well-formed text that stands for nothing that can be held. -/
  | unreadable
deriving Inhabited

namespace Json

mutual
/-- How deep arrays and objects stand inside one another. -/
def depth : Json → Nat
  | array items => depthItems items + 1
  | object entries => depthEntries entries + 1
  | _ => 0

/-- The depth of the deepest item. -/
def depthItems : List Json → Nat
  | [] => 0
  | v :: rest => max v.depth (depthItems rest)

/-- The depth of the deepest value of an entry. -/
def depthEntries : List (String × Json) → Nat
  | [] => 0
  | (_, v) :: rest => max v.depth (depthEntries rest)
end

mutual
/-- Whether a value can be read to its end: nothing in it is unreadable. -/
def isReadable : Json → Bool
  | array items => itemsReadable items
  | object entries => entriesReadable entries
  | unreadable => false
  | _ => true

/-- Whether every item can be read to its end. -/
def itemsReadable : List Json → Bool
  | [] => true
  | v :: rest => v.isReadable && itemsReadable rest

/-- Whether the value of every entry can be read to its end. -/
def entriesReadable : List (String × Json) → Bool
  | [] => true
  | (_, v) :: rest => v.isReadable && entriesReadable rest
end

/-- The value of the first entry with the given key. -/
def entry? (v : Json) (key : String) : Option Json :=
  match v with
  | object entries => entries.lookup key
  | _ => none

end Json

end TemplatePrep

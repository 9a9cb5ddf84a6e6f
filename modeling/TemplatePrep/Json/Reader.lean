import TemplatePrep.Json.Literal

/-!
# Reading JSON text

A text holds one value, with blanks around it and between its tokens; blanks are space, tab, line feed and carriage
return. Every reader takes the text in front of it and returns what it read with the text that is left.
-/

namespace TemplatePrep.Json

/-- The blanks between tokens. -/
def isSpace (c : Char) : Bool :=
  c == ' ' || c == '\t' || c == '\n' || c == '\r'

/-- The text from its first character that is not blank. -/
def skipSpace (cs : List Char) : List Char :=
  cs.dropWhile isSpace

/-- A string as a value. -/
def ofString? : Option String → Json
  | some s => string s
  | none => unreadable

/-- The entries under their keys, or nothing where a key has no text. -/
def keyed? : List (Option String × Json) → Option (List (String × Json))
  | [] => some []
  | (some key, v) :: rest => (keyed? rest).map ((key, v) :: ·)
  | (none, _) :: _ => none

/-- An object as a value. -/
def ofEntries (entries : List (Option String × Json)) : Json :=
  match keyed? entries with
  | some entries => object entries
  | none => unreadable

mutual
/-- Reads a value at the front of a text without leading blanks. The fuel bounds how many values, items and entries
are read one inside or after another; the length of the text is enough. -/
def readValue : Nat → List Char → Option (Json × List Char)
  | 0, _ => none
  | fuel + 1, cs =>
    match cs with
    | 'n' :: 'u' :: 'l' :: 'l' :: rest => some (null, rest)
    | 't' :: 'r' :: 'u' :: 'e' :: rest => some (bool true, rest)
    | 'f' :: 'a' :: 'l' :: 's' :: 'e' :: rest => some (bool false, rest)
    | '"' :: rest => do
      let (s, rest) ← readString rest
      some (ofString? s, rest)
    | '[' :: rest =>
      match skipSpace rest with
      | ']' :: rest => some (array [], rest)
      | cs => do
        let (v, rest) ← readValue fuel cs
        let (items, rest) ← readItems fuel (skipSpace rest)
        some (array (v :: items), rest)
    | '{' :: rest =>
      match skipSpace rest with
      | '}' :: rest => some (object [], rest)
      | cs => do
        let (entry, rest) ← readEntry fuel cs
        let (entries, rest) ← readEntries fuel (skipSpace rest)
        some (ofEntries (entry :: entries), rest)
    | cs => readNumber cs

/-- Reads the items after the first of an array and its closing bracket. -/
def readItems : Nat → List Char → Option (List Json × List Char)
  | 0, _ => none
  | fuel + 1, cs =>
    match cs with
    | ']' :: rest => some ([], rest)
    | ',' :: rest => do
      let (v, rest) ← readValue fuel (skipSpace rest)
      let (items, rest) ← readItems fuel (skipSpace rest)
      some (v :: items, rest)
    | _ => none

/-- Reads a key, a colon and a value. -/
def readEntry : Nat → List Char → Option ((Option String × Json) × List Char)
  | 0, _ => none
  | fuel + 1, cs =>
    match cs with
    | '"' :: rest => do
      let (key, rest) ← readString rest
      match skipSpace rest with
      | ':' :: rest =>
        let (v, rest) ← readValue fuel (skipSpace rest)
        some ((key, v), rest)
      | _ => none
    | _ => none

/-- Reads the entries after the first of an object and its closing brace. -/
def readEntries : Nat → List Char → Option (List (Option String × Json) × List Char)
  | 0, _ => none
  | fuel + 1, cs =>
    match cs with
    | '}' :: rest => some ([], rest)
    | ',' :: rest => do
      let (entry, rest) ← readEntry fuel (skipSpace rest)
      let (entries, rest) ← readEntries fuel (skipSpace rest)
      some (entry :: entries, rest)
    | _ => none
end

/-- The value of a text that holds one value and blanks around it. -/
def parse? (text : String) : Option Json :=
  let cs := text.toList
  match readValue (cs.length + 1) (skipSpace cs) with
  | some (v, rest) => if (skipSpace rest).isEmpty then some v else none
  | none => none

end TemplatePrep.Json

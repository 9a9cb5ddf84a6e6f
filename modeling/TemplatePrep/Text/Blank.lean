/-!
# Blank text

Markup drops or collapses text that is white space throughout. White space is the Unicode property White_Space less
U+0085 (next line), which markup treats as ordinary text: U+0009 to U+000D, U+0020, U+00A0, U+1680, U+2000 to U+200A,
U+2028, U+2029, U+202F, U+205F and U+3000. The zero-width marker U+FEFF is not white space.
-/

namespace TemplatePrep.Text

/-- Whether a character is white space in markup. -/
def isBlankChar (c : Char) : Bool :=
  let n := c.toNat
  (0x09 ≤ n && n ≤ 0x0D) || n == 0x20 || n == 0xA0 || n == 0x1680 || (0x2000 ≤ n && n ≤ 0x200A) ||
    n == 0x2028 || n == 0x2029 || n == 0x202F || n == 0x205F || n == 0x3000

/-- Whether every character of a text is white space. The empty text counts. -/
def isBlank (s : String) : Bool :=
  s.toList.all isBlankChar

/-- The zero-width marker, which keeps a text from being blank without showing. -/
def marker : String := "\uFEFF"

/-- A marked text is not blank. -/
theorem isBlank_marker_append (s : String) : isBlank (marker ++ s) = false := by
  simp [isBlank, marker, isBlankChar]

end TemplatePrep.Text

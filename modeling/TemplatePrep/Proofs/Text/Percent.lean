import TemplatePrep.Json.Literal
import TemplatePrep.Text.Percent

/-!
# Percent encoding taken back

What `percentEncode` writes is a URI component, and decoding it gives the UTF-8 bytes of what was encoded. The decoder is
the usual lenient one: a percent sign and two hexadecimal digits of either case stand for a byte, and every other
character, a stray percent sign among them, for its own bytes. The component is the strict form: certain ASCII
characters, and percent signs only in front of two digits in upper case.
-/

namespace TemplatePrep.Text

open Json (hexValue?)

/-! ## Components and their bytes -/

/-- Whether a character is one of `A` to `Z`, `a` to `z`, `0` to `9`, or one of the nine marks of a URI component. -/
def isComponentChar (c : Char) : Bool :=
  ('A' ≤ c && c ≤ 'Z') || ('a' ≤ c && c ≤ 'z') || ('0' ≤ c && c ≤ '9') ||
    c ∈ ['-', '_', '.', '!', '~', '*', '\'', '(', ')']

/-- Whether a character is a hexadecimal digit in upper case. -/
def isUpperHexDigit (c : Char) : Bool :=
  ('0' ≤ c && c ≤ '9') || ('A' ≤ c && c ≤ 'F')

/-- Whether a text is made only of component characters and of percent signs with two digits in upper case. -/
def isComponent : List Char → Bool
  | [] => true
  | '%' :: a :: b :: rest => isUpperHexDigit a && isUpperHexDigit b && isComponent rest
  | c :: rest => isComponentChar c && isComponent rest

/-- The bytes that a percent-encoded text stands for. -/
def percentBytes : List Char → List UInt8
  | [] => []
  | '%' :: a :: b :: rest =>
    match hexValue? a, hexValue? b with
    | some high, some low => UInt8.ofNat (high * 16 + low) :: percentBytes rest
    | _, _ => String.utf8EncodeChar '%' ++ percentBytes (a :: b :: rest)
  | c :: rest => String.utf8EncodeChar c ++ percentBytes rest

/-- Decodes a percent-encoded text. -/
def percentDecode (s : String) : ByteArray := (percentBytes s.toList).toByteArray

/-! ## One character -/

theorem hexValue?_upperHexDigit : ∀ n < 16, hexValue? (upperHexDigit n) = some n := by decide

theorem isUpperHexDigit_upperHexDigit : ∀ n < 16, isUpperHexDigit (upperHexDigit n) = true := by decide

/-- The characters that the encoder leaves alone are those that a component may hold. -/
theorem isUnreserved_eq (c : Char) : isUnreserved c = isComponentChar c := by
  rw [Bool.eq_iff_iff]
  delta isUnreserved isComponentChar Char.isAlphanum Char.isAlpha Char.isUpper Char.isLower Char.isDigit
  simp only [Bool.or_eq_true, Bool.and_eq_true, decide_eq_true_eq, Char.le_def, ge_iff_le]

theorem isComponent_cons {c : Char} (hc : isComponentChar c = true) (rest : List Char) :
    isComponent (c :: rest) = isComponent rest := by
  rw [isComponent, hc, Bool.true_and]
  rintro a b cs rfl -
  exact absurd hc (by decide)

theorem percentBytes_cons {c : Char} (hc : c ≠ '%') (rest : List Char) :
    percentBytes (c :: rest) = String.utf8EncodeChar c ++ percentBytes rest := by
  rw [percentBytes]
  exact fun _ _ _ h _ => hc h

/-- A byte is written as a percent sign with two digits, and read from them. -/
theorem percentByte_append (b : UInt8) (rest : List Char) :
    isComponent (percentByte b ++ rest) = isComponent rest ∧
      percentBytes (percentByte b ++ rest) = b :: percentBytes rest := by
  have hb : b.toNat < 256 := b.toNat_lt
  have hhigh : b.toNat / 16 < 16 := by omega
  have hlow : b.toNat % 16 < 16 := by omega
  constructor
  · simp only [percentByte, List.cons_append, List.nil_append, isComponent, isUpperHexDigit_upperHexDigit _ hhigh,
      isUpperHexDigit_upperHexDigit _ hlow, Bool.true_and]
  · simp only [percentByte, List.cons_append, List.nil_append, percentBytes, hexValue?_upperHexDigit _ hhigh,
      hexValue?_upperHexDigit _ hlow]
    rw [show b.toNat / 16 * 16 + b.toNat % 16 = b.toNat by omega, UInt8.ofNat_toNat]

theorem percentByte_flatMap_append (bytes : List UInt8) (rest : List Char) :
    isComponent (bytes.flatMap percentByte ++ rest) = isComponent rest ∧
      percentBytes (bytes.flatMap percentByte ++ rest) = bytes ++ percentBytes rest := by
  induction bytes with
  | nil => exact ⟨rfl, rfl⟩
  | cons b bytes ih =>
    obtain ⟨hcomponent, hbytes⟩ := percentByte_append b (bytes.flatMap percentByte ++ rest)
    rw [List.flatMap_cons, List.append_assoc]
    exact ⟨hcomponent.trans ih.1, hbytes.trans (congrArg (b :: ·) ih.2)⟩

/-- A character is written as part of a component, and its bytes are read from that. -/
theorem percentChar_append (c : Char) (rest : List Char) :
    isComponent (percentChar c ++ rest) = isComponent rest ∧
      percentBytes (percentChar c ++ rest) = String.utf8EncodeChar c ++ percentBytes rest := by
  rw [percentChar]
  split
  · next hc =>
    have hne : c ≠ '%' := by
      rintro rfl
      exact absurd hc (by decide)
    rw [isUnreserved_eq] at hc
    exact ⟨isComponent_cons hc rest, percentBytes_cons hne rest⟩
  · exact percentByte_flatMap_append (String.utf8EncodeChar c) rest

/-! ## Strings -/

theorem percentChar_flatMap (cs : List Char) :
    isComponent (cs.flatMap percentChar) = true ∧
      percentBytes (cs.flatMap percentChar) = cs.flatMap String.utf8EncodeChar := by
  induction cs with
  | nil => exact ⟨rfl, rfl⟩
  | cons c cs ih =>
    obtain ⟨hcomponent, hbytes⟩ := percentChar_append c (cs.flatMap percentChar)
    rw [List.flatMap_cons, List.flatMap_cons]
    exact ⟨hcomponent.trans ih.1, hbytes.trans (congrArg (String.utf8EncodeChar c ++ ·) ih.2)⟩

theorem isComponent_percentEncode (s : String) : isComponent (percentEncode s).toList = true := by
  rw [percentEncode, String.toList_ofList]
  exact (percentChar_flatMap s.toList).1

theorem percentDecode_percentEncode (s : String) : percentDecode (percentEncode s) = s.toUTF8 := by
  rw [percentDecode, percentEncode, String.toList_ofList, (percentChar_flatMap s.toList).2]
  exact String.utf8Encode_toList

/-- A component is a single line. -/
theorem newline_notMem_of_isComponent {cs : List Char} (h : isComponent cs = true) : '\n' ∉ cs := by
  have hdigit {c : Char} (hc : isUpperHexDigit c = true) : '\n' ≠ c := by
    rintro rfl
    exact absurd hc (by decide)
  have hchar {c : Char} (hc : isComponentChar c = true) : '\n' ≠ c := by
    rintro rfl
    exact absurd hc (by decide)
  induction cs using isComponent.induct with
  | case1 => exact List.not_mem_nil
  | case2 a b rest ih =>
    simp only [isComponent, Bool.and_eq_true] at h
    simp only [List.mem_cons, not_or]
    exact ⟨by decide, hdigit h.1.1, hdigit h.1.2, ih h.2⟩
  | case3 c rest hc ih =>
    rw [isComponent, Bool.and_eq_true] at h
    · rw [List.mem_cons, not_or]
      exact ⟨hchar h.1, ih h.2⟩
    · exact hc

end TemplatePrep.Text

import TemplatePrep.Json.Literal
import TemplatePrep.Json.Printer

/-!
# Strings and integers read back

What is written for a string is read as that string, whatever characters it holds, and what is written for an integer of
64 bits is read as that integer. Both readers stop right behind what was written. For a string the closing quote sees to
that, since an escaped character never shows a bare one; a number has to be followed by something that cannot go on it.

A string is read in pieces, and a control character without a short escape comes back as a code unit. So the pieces of a
string are not its characters, and the two steps of reading are followed side by side: each character gives a piece
that is read in front of whatever pieces come after it, and that joins as the character in front of whatever text they
join to.
-/

namespace TemplatePrep.Json

/-! ## Strings -/

theorem hexValue?_hexDigit : ∀ n < 16, hexValue? (hexDigit n) = some n := by decide

/-- The four digits by which a control character is escaped. -/
theorem hexFour?_hexDigit {n : Nat} (h : n < 0x20) :
    hexFour? '0' '0' (hexDigit (n / 16)) (hexDigit (n % 16)) = some n := by
  have hzero : hexValue? '0' = some 0 := by decide
  have hhigh := hexValue?_hexDigit (n / 16) (by omega)
  have hlow := hexValue?_hexDigit (n % 16) (by omega)
  simp only [hexFour?, hzero, hhigh, hlow, Option.bind_eq_bind, Option.bind_some, Option.some.injEq]
  omega

/-- The three forms of an escaped character: a short escape, a code unit, or the character itself. -/
theorem escapeChar_cases (c : Char) :
    (∃ e, shortEscape? e = some c ∧ escapeChar c = ['\\', e]) ∨
    (c.toNat < 0x20 ∧ escapeChar c = ['\\', 'u', '0', '0', hexDigit (c.toNat / 16), hexDigit (c.toNat % 16)]) ∨
    (c ≠ '"' ∧ c ≠ '\\' ∧ ¬ c.toNat < 0x20 ∧ escapeChar c = [c]) := by
  rw [escapeChar]
  split
  · next h => exact .inl ⟨'"', congrArg some h.symm, rfl⟩
  next hquote =>
  split
  · next h => exact .inl ⟨'\\', congrArg some h.symm, rfl⟩
  next hslash =>
  split
  · next h => exact .inl ⟨'b', congrArg some h.symm, rfl⟩
  split
  · next h => exact .inl ⟨'t', congrArg some h.symm, rfl⟩
  split
  · next h => exact .inl ⟨'n', congrArg some h.symm, rfl⟩
  split
  · next h => exact .inl ⟨'f', congrArg some h.symm, rfl⟩
  split
  · next h => exact .inl ⟨'r', congrArg some h.symm, rfl⟩
  split
  · next h => exact .inr (.inl ⟨h, rfl⟩)
  · next h => exact .inr (.inr ⟨hquote, hslash, h, rfl⟩)

theorem readPieces_shortEscape {e c : Char} (h : shortEscape? e = some c) (cs : List Char) :
    readPieces ('\\' :: e :: cs) = (readPieces cs).map (consPiece (.char c)) := by
  rw [readPieces]
  · rw [h]
  · rintro _ _ _ _ _ rfl
    simp [shortEscape?] at h

theorem readPieces_codeUnit {a b c d : Char} {n : Nat} (h : hexFour? a b c d = some n) (cs : List Char) :
    readPieces ('\\' :: 'u' :: a :: b :: c :: d :: cs) = (readPieces cs).map (consPiece (.unit n)) := by
  rw [readPieces, h]

theorem readPieces_cons {c : Char} (hquote : c ≠ '"') (hslash : c ≠ '\\') (hcontrol : ¬ c.toNat < 0x20)
    (cs : List Char) : readPieces (c :: cs) = (readPieces cs).map (consPiece (.char c)) := by
  rw [readPieces]
  · rw [if_neg]
    rintro (h | h)
    · exact hslash h
    · exact hcontrol h
  · exact hquote
  · intro _ _ _ _ _ h
    exact absurd h hslash
  · intro _ _ h
    exact absurd h hslash

/-- A code unit below the surrogates joins as its own character. -/
theorem joinPieces?_unit {n : Nat} (h : n < 0xD800) (rest : List Piece) :
    joinPieces? (.unit n :: rest) = (joinPieces? rest).map (Char.ofNat n :: ·) := by
  have hhigh : isHighHalf n = false := by
    rw [isHighHalf, Bool.and_eq_false_iff, decide_eq_false_iff_not]
    omega
  have hlow : isLowHalf n = false := by
    rw [isLowHalf, Bool.and_eq_false_iff, decide_eq_false_iff_not]
    omega
  rw [joinPieces?.eq_def]
  simp [hhigh, hlow]

/-- An escaped character is read as one piece, and the piece joins as the character. -/
theorem exists_piece (c : Char) :
    ∃ p, (∀ cs, readPieces (escapeChar c ++ cs) = (readPieces cs).map (consPiece p)) ∧
      ∀ rest, joinPieces? (p :: rest) = (joinPieces? rest).map (c :: ·) := by
  obtain ⟨e, hshort, hescape⟩ | ⟨hcontrol, hescape⟩ | ⟨hquote, hslash, hcontrol, hescape⟩ := escapeChar_cases c
  · rw [hescape]
    exact ⟨.char c, readPieces_shortEscape hshort, fun _ => rfl⟩
  · rw [hescape]
    refine ⟨.unit c.toNat, readPieces_codeUnit (hexFour?_hexDigit hcontrol), fun rest => ?_⟩
    rw [joinPieces?_unit (by omega), Char.ofNat_toNat]
  · rw [hescape]
    exact ⟨.char c, readPieces_cons hquote hslash hcontrol, fun _ => rfl⟩

/-- The pieces of an escaped text end at its quote and join to the text. -/
theorem exists_pieces (cs rest : List Char) :
    ∃ pieces, readPieces (cs.flatMap escapeChar ++ '"' :: rest) = some (pieces, rest) ∧
      joinPieces? pieces = some cs := by
  induction cs with
  | nil => exact ⟨[], rfl, rfl⟩
  | cons c cs ih =>
    obtain ⟨p, hread, hjoin⟩ := exists_piece c
    obtain ⟨pieces, hpieces, hcs⟩ := ih
    refine ⟨p :: pieces, ?_, ?_⟩
    · rw [List.flatMap_cons, List.append_assoc, hread, hpieces]
      rfl
    · rw [hjoin, hcs]
      rfl

/-- A string is read back, from behind its opening quote to behind its closing one. -/
theorem readString_escaped (s : String) (rest : List Char) :
    readString (s.toList.flatMap escapeChar ++ '"' :: rest) = some (some s, rest) := by
  obtain ⟨pieces, hpieces, hjoin⟩ := exists_pieces s.toList rest
  rw [readString, hpieces]
  simp only [hjoin, Option.map_some, String.ofList_toList]

/-! ## Integers -/

/-- Whether a text cannot go on a number in front of it. -/
def endsNumber : List Char → Bool
  | [] => true
  | c :: _ => !(c.isDigit || c == '.' || c == 'e' || c == 'E')

theorem isDigit_iff (c : Char) : c.isDigit = true ↔ '0' ≤ c ∧ c ≤ '9' := by
  rw [Char.isDigit, Bool.and_eq_true, decide_eq_true_eq, decide_eq_true_eq]
  rfl

/-- The digits in front of a text are all that is taken for digits. -/
theorem spanDigits_append {ds rest : List Char} (hds : ∀ c ∈ ds, c.isDigit = true) (hrest : endsNumber rest = true) :
    spanDigits (ds ++ rest) = (ds.map fun c => c.toNat - 0x30, rest) := by
  induction ds with
  | nil =>
    cases rest with
    | nil => rfl
    | cons c rest =>
      have hc : ¬ ('0' ≤ c ∧ c ≤ '9') := by
        rw [← isDigit_iff]
        simp only [endsNumber, Bool.not_eq_true', Bool.or_eq_false_iff] at hrest
        simp [hrest.1.1.1]
      rw [List.nil_append, spanDigits, if_neg hc]
      rfl
  | cons d ds ih =>
    rw [List.forall_mem_cons] at hds
    rw [List.cons_append, spanDigits, if_pos ((isDigit_iff d).mp hds.1), ih hds.2]
    rfl

/-- The digits that are written for a number write it. -/
theorem ofDigits_toDigits (n : Nat) : ofDigits ((Nat.toDigits 10 n).map fun c => c.toNat - 0x30) = n := by
  rw [ofDigits, List.foldl_map]
  have hn := Nat.ofDigitChars_ten_toDigits (n := n)
  rw [Nat.ofDigitChars_eq_foldl] at hn
  simp only [Nat.mul_comm _ 10]
  exact hn

/-- What is written for a number starts with a digit. -/
theorem exists_toDigits_eq_cons (n : Nat) : ∃ c cs, Nat.toDigits 10 n = c :: cs ∧ c.isDigit = true := by
  obtain ⟨c, cs, hdigits⟩ := List.exists_cons_of_ne_nil (Nat.toDigits_ne_nil (n := n) (b := 10))
  refine ⟨c, cs, hdigits, Nat.isDigit_of_mem_toDigits (b := 10) (n := n) (by decide) (by decide) ?_⟩
  rw [hdigits]
  exact List.mem_cons_self

/-- No number but zero is written with a leading zero. -/
theorem head?_toDigits_ne {n : Nat} (h : 0 < n) : (Nat.toDigits 10 n).head? ≠ some '0' := by
  induction n using Nat.strongRecOn with
  | ind n ih =>
    rw [Nat.toDigits_eq_if (by decide)]
    split
    · next hn =>
      rw [List.head?_cons, ne_eq, Option.some.injEq, Nat.digitChar_eq_zero]
      omega
    · next hn =>
      rw [List.head?_append, Option.or_of_isSome]
      · exact ih (n / 10) (by omega) (by omega)
      · rw [List.isSome_head?]
        simp

/-- The digits that are written for a number have no needless zero in front. -/
theorem map_toDigits_ne_zero_cons (n d : Nat) (ds : List Nat) :
    ((Nat.toDigits 10 n).map fun c => c.toNat - 0x30) ≠ 0 :: d :: ds := by
  intro heq
  obtain ⟨c, cs, hdigits, hdigit⟩ := exists_toDigits_eq_cons n
  rw [hdigits, List.map_cons] at heq
  obtain ⟨hc, hcs⟩ := List.cons.inj heq
  have hzero : c = '0' := by
    apply Char.le_antisymm _ ((isDigit_iff c).mp hdigit).1
    rw [Char.le_def, UInt32.le_iff_toNat_le]
    show c.toNat ≤ 0x30
    omega
  cases n with
  | zero =>
    rw [Nat.toDigits_zero] at hdigits
    obtain ⟨-, rfl⟩ := List.cons.inj hdigits
    exact absurd hcs (List.cons_ne_nil d ds).symm
  | succ n =>
    apply head?_toDigits_ne n.succ_pos
    rw [hdigits, hzero, List.head?_cons]

/-- A number ends where neither a point nor an exponent follows its digits. -/
theorem readUnsigned_of_spanDigits (negative : Bool) {cs rest : List Char} {whole : List Nat}
    (hspan : spanDigits cs = (whole, rest)) (hne : whole ≠ []) (hzero : ∀ d ds, whole ≠ 0 :: d :: ds)
    (hrest : endsNumber rest = true) :
    readUnsigned negative cs = some (ofParts negative whole none none, rest) := by
  have hfraction : readFraction rest = some (none, rest) := by
    rw [readFraction]
    rintro rest rfl
    simp [endsNumber] at hrest
  have hexponent : readExponent rest = some (none, rest) := by
    cases rest with
    | nil => rfl
    | cons c rest =>
      simp only [endsNumber, Bool.not_eq_true', Bool.or_eq_false_iff, beq_eq_false_iff_ne] at hrest
      rw [readExponent, if_neg]
      rintro (h | h)
      · exact hrest.1.2 h
      · exact hrest.2 h
  rw [readUnsigned, hspan]
  split
  · next h => exact absurd (congrArg Prod.fst h) hne
  · next h => exact absurd (congrArg Prod.fst h) (hzero _ _)
  · next h =>
    cases h
    simp only [hfraction, hexponent, Option.bind_eq_bind, Option.bind_some]

theorem readUnsigned_toDigits (negative : Bool) (n : Nat) {rest : List Char} (hrest : endsNumber rest = true) :
    readUnsigned negative (Nat.toDigits 10 n ++ rest) =
      some (ofParts negative ((Nat.toDigits 10 n).map fun c => c.toNat - 0x30) none none, rest) := by
  apply readUnsigned_of_spanDigits negative _ _ (map_toDigits_ne_zero_cons n) hrest
  · exact spanDigits_append (fun c hc => Nat.isDigit_of_mem_toDigits (by decide) (by decide) hc) hrest
  · rw [ne_eq, List.map_eq_nil_iff]
    exact Nat.toDigits_ne_nil

/-- Whether an integer fits 64 bits, as one with a sign or as one without. -/
def fitsWord (i : Int) : Bool := -(Nat.pow 2 63 : Int) ≤ i && i < (Nat.pow 2 64 : Int)

/-- An integer of 64 bits is read back. -/
theorem readNumber_integerChars {i : Int} (hi : fitsWord i = true) {rest : List Char} (hrest : endsNumber rest = true) :
    readNumber (integerChars i ++ rest) = some (integer i, rest) := by
  rw [fitsWord, Bool.and_eq_true, decide_eq_true_eq, decide_eq_true_eq] at hi
  cases i with
  | ofNat n =>
    have hn : n < Nat.pow 2 64 := Int.ofNat_lt.mp hi.2
    rw [integerChars, readNumber, readUnsigned_toDigits false n hrest, ofParts, ofDigits_toDigits]
    · simp only [hn, and_self, if_true]
      rfl
    · -- a digit is no sign
      rintro cs hcs
      obtain ⟨c, ds, hdigits, hdigit⟩ := exists_toDigits_eq_cons n
      rw [hdigits, List.cons_append] at hcs
      obtain ⟨rfl, -⟩ := List.cons.inj hcs
      exact absurd hdigit (by decide)
  | negSucc n =>
    have hn : n + 1 ≤ Nat.pow 2 63 := by omega
    rw [integerChars, List.cons_append, readNumber, readUnsigned_toDigits true (n + 1) hrest, ofParts, ofDigits_toDigits]
    simp only [hn, Bool.true_eq_false, false_and, if_false, if_true, true_and, Nat.succ_pos]
    rfl

end TemplatePrep.Json

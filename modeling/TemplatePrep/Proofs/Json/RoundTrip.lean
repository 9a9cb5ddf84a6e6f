import TemplatePrep.Json.Decode
import TemplatePrep.Proofs.Json.Literal

/-!
# Values read back

The text of a plain value is read as that value. Plain are the values that the compact text keeps whole: of a real the
text keeps only the shortest digits, an integer beyond 64 bits comes back as a real, and what is unreadable is written
as null.

The reader takes fuel and leaves what follows a value. So the statement proved along the value is about any fuel that the
length of the text does not exceed, and about any rest that cannot go on a number. Behind an item or an entry that rest
starts with a comma or a closing bracket.
-/

namespace TemplatePrep.Json

mutual
/-- Whether the text of a value keeps all of it. -/
def isPlain : Json → Bool
  | integer i => fitsWord i
  | array items => itemsPlain items
  | object entries => entriesPlain entries
  | real _ | unreadable => false
  | null | bool _ | string _ => true

/-- Whether the text of every item keeps all of it. -/
def itemsPlain : List Json → Bool
  | [] => true
  | v :: rest => v.isPlain && itemsPlain rest

/-- Whether the text of the value of every entry keeps all of it. -/
def entriesPlain : List (String × Json) → Bool
  | [] => true
  | (_, v) :: rest => v.isPlain && entriesPlain rest
end

/-! ## The front of a text -/

theorem skipSpace_cons {c : Char} (hc : isSpace c = false) (cs : List Char) : skipSpace (c :: cs) = c :: cs := by
  rw [skipSpace, List.dropWhile_cons_of_neg (by simp [hc])]

/-- The text of an integer starts with a digit or a sign. -/
theorem exists_integerChars_eq_cons (i : Int) : ∃ c cs, integerChars i = c :: cs ∧ (c.isDigit = true ∨ c = '-') := by
  cases i with
  | ofNat n =>
    obtain ⟨c, cs, hdigits, hdigit⟩ := exists_toDigits_eq_cons n
    exact ⟨c, cs, hdigits, .inl hdigit⟩
  | negSucc n => exact ⟨'-', _, rfl, .inr rfl⟩

/-- No digit and no sign stands at the front of another kind of value, between values, or behind them. -/
theorem ne_of_isDigit_or_minus {c : Char} (hc : c.isDigit = true ∨ c = '-') {d : Char}
    (hd : (d.isDigit || d == '-') = false) : c ≠ d := by
  rintro rfl
  rw [Bool.or_eq_false_iff, beq_eq_false_iff_ne] at hd
  rcases hc with hc | hc
  · rw [hc] at hd
    exact absurd hd.1 (by decide)
  · exact hd.2 hc

/-- The text of a plain value starts neither with a blank nor with a closing bracket. -/
theorem exists_chars_eq_cons {v : Json} (hv : v.isPlain = true) :
    ∃ c cs, v.chars = c :: cs ∧ isSpace c = false ∧ c ≠ ']' := by
  cases v with
  | null => exact ⟨'n', _, rfl, by decide, by decide⟩
  | bool b =>
    cases b with
    | true => exact ⟨'t', _, rfl, by decide, by decide⟩
    | false => exact ⟨'f', _, rfl, by decide, by decide⟩
  | integer i =>
    obtain ⟨c, cs, hchars, hc⟩ := exists_integerChars_eq_cons i
    refine ⟨c, cs, hchars, ?_, ne_of_isDigit_or_minus hc (by decide)⟩
    simp only [isSpace, Bool.or_eq_false_iff, beq_eq_false_iff_ne]
    refine ⟨⟨⟨?_, ?_⟩, ?_⟩, ?_⟩
    all_goals exact ne_of_isDigit_or_minus hc (by decide)
  | real => exact absurd hv (by simp [isPlain])
  | string s => exact ⟨'"', _, rfl, by decide, by decide⟩
  | array items => cases items <;> exact ⟨'[', _, rfl, by decide, by decide⟩
  | object entries => rcases entries with _ | ⟨⟨key, v⟩, entries⟩ <;> exact ⟨'{', _, rfl, by decide, by decide⟩
  | unreadable => exact absurd hv (by simp [isPlain])

theorem skipSpace_chars {v : Json} (hv : v.isPlain = true) (rest : List Char) :
    skipSpace (v.chars ++ rest) = v.chars ++ rest := by
  obtain ⟨c, cs, hchars, hspace, -⟩ := exists_chars_eq_cons hv
  rw [hchars, List.cons_append, skipSpace_cons hspace]

/-- What follows an item is neither blank nor part of a number. -/
theorem front_itemChars (items : List Json) (rest : List Char) :
    skipSpace (itemChars items ++ ']' :: rest) = itemChars items ++ ']' :: rest ∧
      endsNumber (itemChars items ++ ']' :: rest) = true := by
  cases items <;> exact ⟨rfl, rfl⟩

/-- What follows an entry is neither blank nor part of a number. -/
theorem front_entryChars (entries : List (String × Json)) (rest : List Char) :
    skipSpace (entryChars entries ++ '}' :: rest) = entryChars entries ++ '}' :: rest ∧
      endsNumber (entryChars entries ++ '}' :: rest) = true := by
  cases entries <;> exact ⟨rfl, rfl⟩

/-! ## Steps of the reader -/

/-- What starts with a digit or a sign can only be read as a number. -/
theorem readValue_number {c : Char} (hc : c.isDigit = true ∨ c = '-') (fuel : Nat) (cs : List Char) :
    readValue (fuel + 1) (c :: cs) = readNumber (c :: cs) := by
  rw [readValue]
  all_goals
    intro rest h
    exact absurd (List.cons.inj h).1 (ne_of_isDigit_or_minus hc (by decide))

theorem readValue_string {s : String} (fuel : Nat) (rest : List Char) :
    readValue (fuel + 1) (stringChars s ++ rest) = some (string s, rest) := by
  rw [stringChars, List.cons_append, List.cons_append, List.append_assoc, List.singleton_append, readValue,
    readString_escaped]
  rfl

/-- An array is read as its first item and the items behind it. -/
theorem readValue_array {fuel : Nat} {cs middle rest : List Char} {v : Json} {items : List Json}
    (hcs : skipSpace cs = cs) (hopen : ∀ ds, cs ≠ ']' :: ds) (hv : readValue fuel cs = some (v, middle))
    (hmiddle : skipSpace middle = middle) (hitems : readItems fuel middle = some (items, rest)) :
    readValue (fuel + 1) ('[' :: cs) = some (array (v :: items), rest) := by
  rw [readValue, hcs]
  split
  · next ds => exact absurd rfl (hopen ds)
  · simp only [hv, hmiddle, hitems, Option.bind_eq_bind, Option.bind_some]

theorem readItems_cons {fuel : Nat} {cs middle rest : List Char} {v : Json} {items : List Json}
    (hcs : skipSpace cs = cs) (hv : readValue fuel cs = some (v, middle)) (hmiddle : skipSpace middle = middle)
    (hitems : readItems fuel middle = some (items, rest)) :
    readItems (fuel + 1) (',' :: cs) = some (v :: items, rest) := by
  rw [readItems, hcs]
  simp only [hv, hmiddle, hitems, Option.bind_eq_bind, Option.bind_some]

theorem readEntry_cons {fuel : Nat} {cs rest : List Char} {v : Json} (key : String) (hcs : skipSpace cs = cs)
    (hv : readValue fuel cs = some (v, rest)) :
    readEntry (fuel + 1) (stringChars key ++ ':' :: cs) = some ((some key, v), rest) := by
  have hcolon : skipSpace (':' :: cs) = ':' :: cs := skipSpace_cons (by decide) cs
  rw [stringChars, List.cons_append, List.cons_append, List.append_assoc, List.singleton_append, readEntry,
    readString_escaped]
  simp only [hcolon, hcs, hv, Option.bind_eq_bind, Option.bind_some]

/-- An object is read as its first entry and the entries behind it. -/
theorem readValue_object {fuel : Nat} {cs middle rest : List Char} {key : String} {e : Option String × Json}
    {entries : List (Option String × Json)} (he : readEntry fuel (stringChars key ++ cs) = some (e, middle))
    (hmiddle : skipSpace middle = middle) (hentries : readEntries fuel middle = some (entries, rest)) :
    readValue (fuel + 1) ('{' :: (stringChars key ++ cs)) = some (ofEntries (e :: entries), rest) := by
  have hfront : skipSpace (stringChars key ++ cs) = stringChars key ++ cs := skipSpace_cons (by decide) _
  rw [readValue, hfront]
  split
  · next h => exact absurd (List.cons.inj h).1 (by decide)
  · simp only [he, hmiddle, hentries, Option.bind_eq_bind, Option.bind_some]

theorem readEntries_cons {fuel : Nat} {cs middle rest : List Char} {key : String} {e : Option String × Json}
    {entries : List (Option String × Json)} (he : readEntry fuel (stringChars key ++ cs) = some (e, middle))
    (hmiddle : skipSpace middle = middle) (hentries : readEntries fuel middle = some (entries, rest)) :
    readEntries (fuel + 1) (',' :: (stringChars key ++ cs)) = some (e :: entries, rest) := by
  have hfront : skipSpace (stringChars key ++ cs) = stringChars key ++ cs := skipSpace_cons (by decide) _
  rw [readEntries, hfront]
  simp only [he, hmiddle, hentries, Option.bind_eq_bind, Option.bind_some]

/-- Entries whose keys all have a text make an object. -/
theorem ofEntries_map (entries : List (String × Json)) :
    ofEntries (entries.map fun e => (some e.1, e.2)) = object entries := by
  have hkeyed : keyed? (entries.map fun e => (some e.1, e.2)) = some entries := by
    induction entries with
    | nil => rfl
    | cons e rest ih =>
      rw [List.map_cons, keyed?, ih]
      rfl
  rw [ofEntries, hkeyed]

/-! ## Values -/

theorem one_le_length_chars {v : Json} (hv : v.isPlain = true) : 1 ≤ v.chars.length := by
  obtain ⟨c, cs, hchars, -⟩ := exists_chars_eq_cons hv
  rw [hchars]
  exact Nat.succ_pos _

mutual
/-- A plain value is read back, and what follows it is left. -/
theorem readValue_chars : (v : Json) → v.isPlain = true → ∀ (fuel : Nat) (rest : List Char),
    v.chars.length ≤ fuel → endsNumber rest = true → readValue fuel (v.chars ++ rest) = some (v, rest)
  | v, hv, 0, rest, hfuel, hrest => by
    have := one_le_length_chars hv
    omega
  | .null, _, fuel + 1, rest, _, _ => rfl
  | .bool true, _, fuel + 1, rest, _, _ => rfl
  | .bool false, _, fuel + 1, rest, _, _ => rfl
  | .integer i, hv, fuel + 1, rest, _, hrest => by
    obtain ⟨c, cs, hchars, hc⟩ := exists_integerChars_eq_cons i
    have hread := readNumber_integerChars hv hrest
    rw [hchars, List.cons_append] at hread
    rw [chars, hchars, List.cons_append, readValue_number hc, hread]
  | .string s, _, fuel + 1, rest, _, _ => readValue_string fuel rest
  | .array [], _, fuel + 1, rest, _, _ => rfl
  | .array (v :: items), hv, fuel + 1, rest, hfuel, hrest => by
    rw [isPlain, itemsPlain, Bool.and_eq_true] at hv
    rw [chars, List.length_append, List.length_append, List.length_cons, List.length_singleton] at hfuel
    obtain ⟨hfront, hends⟩ := front_itemChars items rest
    rw [chars, List.append_assoc, List.append_assoc, List.singleton_append, List.cons_append]
    apply readValue_array (skipSpace_chars hv.1 _) _ (readValue_chars v hv.1 _ _ (by omega) hends) hfront
      (readItems_itemChars items hv.2 _ _ (by omega))
    obtain ⟨c, cs, hchars, -, hc⟩ := exists_chars_eq_cons hv.1
    rw [hchars]
    exact fun ds h => hc (List.cons.inj h).1
  | .object [], _, fuel + 1, rest, _, _ => rfl
  | .object ((key, v) :: entries), hv, fuel + 1, rest, hfuel, hrest => by
    rw [isPlain, entriesPlain, Bool.and_eq_true] at hv
    rw [chars] at hfuel ⊢
    simp only [List.length_append, List.length_cons, List.length_nil, stringChars] at hfuel
    obtain ⟨fuel, rfl⟩ : ∃ f, fuel = f + 1 := ⟨fuel - 1, by omega⟩
    obtain ⟨hfront, hends⟩ := front_entryChars entries rest
    have hvalue := readValue_chars v hv.1 fuel _ (by omega) hends
    have hentry := readEntry_cons key (skipSpace_chars hv.1 _) hvalue
    have hread := readValue_object hentry hfront (readEntries_entryChars entries hv.2 _ _ (by omega))
    rw [← ofEntries_map]
    simpa only [List.append_assoc, List.cons_append, List.nil_append, List.map_cons] using hread

/-- Plain items are read back up to the closing bracket. -/
theorem readItems_itemChars : (items : List Json) → itemsPlain items = true → ∀ (fuel : Nat) (rest : List Char),
    (itemChars items).length < fuel → readItems fuel (itemChars items ++ ']' :: rest) = some (items, rest)
  | _, _, 0, _, hfuel => absurd hfuel (Nat.not_lt_zero _)
  | [], _, fuel + 1, rest, _ => rfl
  | v :: items, hitems, fuel + 1, rest, hfuel => by
    rw [itemsPlain, Bool.and_eq_true] at hitems
    rw [itemChars, List.length_append, List.length_cons] at hfuel
    obtain ⟨hfront, hends⟩ := front_itemChars items rest
    rw [itemChars, List.append_assoc, List.cons_append]
    exact readItems_cons (skipSpace_chars hitems.1 _) (readValue_chars v hitems.1 _ _ (by omega) hends) hfront
      (readItems_itemChars items hitems.2 _ _ (by omega))

/-- Plain entries are read back up to the closing brace. -/
theorem readEntries_entryChars : (entries : List (String × Json)) → entriesPlain entries = true →
    ∀ (fuel : Nat) (rest : List Char), (entryChars entries).length < fuel →
      readEntries fuel (entryChars entries ++ '}' :: rest) = some (entries.map fun e => (some e.1, e.2), rest)
  | _, _, 0, _, hfuel => absurd hfuel (Nat.not_lt_zero _)
  | [], _, fuel + 1, rest, _ => rfl
  | (key, v) :: entries, hentries, fuel + 1, rest, hfuel => by
    rw [entriesPlain, Bool.and_eq_true] at hentries
    rw [entryChars] at hfuel ⊢
    simp only [List.length_append, List.length_cons, List.length_nil, stringChars] at hfuel
    obtain ⟨fuel, rfl⟩ : ∃ f, fuel = f + 1 := ⟨fuel - 1, by omega⟩
    obtain ⟨hfront, hends⟩ := front_entryChars entries rest
    have hvalue := readValue_chars v hentries.1 fuel _ (by omega) hends
    have hentry := readEntry_cons key (skipSpace_chars hentries.1 _) hvalue
    have hread := readEntries_cons hentry hfront (readEntries_entryChars entries hentries.2 _ _ (by omega))
    simpa only [List.append_assoc, List.cons_append, List.nil_append, List.map_cons] using hread
end

/-- The text of a plain value is read as that value. -/
theorem parse?_print {v : Json} (hv : v.isPlain = true) : parse? v.print = some v := by
  have hread := readValue_chars v hv (v.chars.length + 1) [] (by omega) rfl
  have hfront := skipSpace_chars hv []
  rw [List.append_nil] at hread hfront
  rw [parse?, print, String.toList_ofList, hfront, hread]
  rfl

/-- What is decoded from the text of a plain value is what is decoded from the value. -/
theorem decodeText_print {α : Type} (decode : Decoder α) {v : Json} (hv : v.isPlain = true) :
    decodeText decode v.print = decode v := by
  rw [decodeText, parse?_print hv]

end TemplatePrep.Json

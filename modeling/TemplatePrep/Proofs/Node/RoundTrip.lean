import TemplatePrep.Node.Json
import TemplatePrep.Proofs.Json.RoundTrip

/-!
# Trees read back

The JSON text of a node or a template is decoded as that node or template. The text is read as the value that was
written, because nothing in it is a real. What is left is the way from the value to the tree: the kind is found first
and everything else is readable, the fields of the kind fill their slots one after the other, and the span, written last
and only where there is one, fills its own.

Decoding takes fuel for records inside records. A node and its list of children go down together; an insert takes two
steps, because its code is a record between the insert and the children.
-/

namespace TemplatePrep

open Json (Record Reading Slots)

/-! ## Everything written is plain -/

theorem Json.entriesPlain_append (es fs : List (String × Json)) :
    entriesPlain (es ++ fs) = (entriesPlain es && entriesPlain fs) := by
  induction es with
  | nil => rfl
  | cons e es ih => rw [List.cons_append, entriesPlain, entriesPlain, ih, Bool.and_assoc]

mutual
/-- What the text keeps can be read to its end. -/
theorem Json.isReadable_of_isPlain : (v : Json) → v.isPlain = true → v.isReadable = true
  | .null, _ | .bool _, _ | .integer _, _ | .string _, _ => rfl
  | .array items, hv => itemsReadable_of_itemsPlain items hv
  | .object entries, hv => entriesReadable_of_entriesPlain entries hv

theorem Json.itemsReadable_of_itemsPlain : (items : List Json) → itemsPlain items = true → itemsReadable items = true
  | [], _ => rfl
  | v :: items, hitems => by
    rw [itemsPlain, Bool.and_eq_true] at hitems
    rw [itemsReadable, isReadable_of_isPlain v hitems.1, itemsReadable_of_itemsPlain items hitems.2, Bool.and_true]

theorem Json.entriesReadable_of_entriesPlain :
    (entries : List (String × Json)) → entriesPlain entries = true → entriesReadable entries = true
  | [], _ => rfl
  | (_, v) :: entries, hentries => by
    rw [entriesPlain, Bool.and_eq_true] at hentries
    rw [entriesReadable, isReadable_of_isPlain v hentries.1, entriesReadable_of_entriesPlain entries hentries.2,
      Bool.and_true]
end

theorem Span.isPlain_ofWord (n : UInt32) : (ofWord n).isPlain = true := by
  have hn : n.toNat < 4294967296 := n.toNat_lt
  rw [ofWord, Json.isPlain, Json.fitsWord, Bool.and_eq_true, decide_eq_true_eq, decide_eq_true_eq]
  have hlow : (0 : Int) ≤ Nat.pow 2 63 := Int.natCast_nonneg _
  have hhigh : (4294967296 : Int) ≤ Nat.pow 2 64 := by decide
  omega

theorem Span.isPlain_toJson (s : Span) : s.toJson.isPlain = true := by
  simp only [toJson, Json.isPlain, Json.entriesPlain, isPlain_ofWord, Bool.and_true]

namespace Node

theorem entriesPlain_spanEntry (span : Option Span) : Json.entriesPlain (spanEntry span) = true := by
  cases span with
  | none => rfl
  | some s => rw [spanEntry, Json.entriesPlain, s.isPlain_toJson, Json.entriesPlain, Bool.and_true]

theorem entriesPlain_headEntries {children : Json} (hchildren : children.isPlain = true) (head : Head) :
    Json.entriesPlain (headEntries children head) = true := by
  cases head with
  | topLevel | embeddedCode | element | property =>
    simp only [headEntries, Json.entriesPlain, Json.isPlain, hchildren, Bool.and_true]
  | insert codeSpan =>
    simp only [headEntries, Json.entriesPlain, Json.isPlain, hchildren, entriesPlain_spanEntry, Bool.and_true]

theorem isPlain_toJson_eq (n : Node) : n.toJson.isPlain = Json.entriesPlain n.entries := by
  rw [toJson_eq, Json.isPlain, Json.entriesPlain, Kind.toJson, Json.isPlain, Bool.true_and]

mutual
theorem entriesPlain_entries : (n : Node) → Json.entriesPlain n.entries = true
  | leaf _ text span => by rw [entries, Json.entriesPlain, entriesPlain_spanEntry, Json.isPlain, Bool.true_and]
  | branch head children span => by
    have hchildren : (Json.array (allToJson children)).isPlain = true := itemsPlain_allToJson children
    rw [entries, Json.entriesPlain_append, entriesPlain_headEntries hchildren, entriesPlain_spanEntry, Bool.and_true]

theorem itemsPlain_allToJson : (ns : List Node) → Json.itemsPlain (allToJson ns) = true
  | [] => by rw [allToJson, Json.itemsPlain]
  | n :: rest => by
    rw [allToJson, Json.itemsPlain, isPlain_toJson_eq, entriesPlain_entries n, itemsPlain_allToJson rest, Bool.and_true]
end

theorem isPlain_toJson (n : Node) : n.toJson.isPlain = true := by
  rw [isPlain_toJson_eq, entriesPlain_entries]

/-! ## The kind -/

/-- No field of a node has the key of the kind. -/
theorem kind_notMem_keys (n : Node) : "kind" ∉ n.entries.map Prod.fst := by
  have hspan (span : Option Span) : "kind" ∉ (spanEntry span).map Prod.fst := by
    cases span <;> simp [spanEntry]
  cases n with
  | leaf k text span => simp [entries, hspan]
  | branch head children span =>
    rw [entries, List.map_append, List.mem_append, not_or]
    refine ⟨?_, hspan span⟩
    cases head <;> simp [headEntries]

/-- Readable entries under other keys are all held back. -/
theorem splitTag_of_readable (tag : Option Kind) {entries : List (String × Json)}
    (hread : Json.entriesReadable entries = true) (hkeys : "kind" ∉ entries.map Prod.fst) :
    splitTag tag entries = .ok (tag, entries) := by
  induction entries with
  | nil => rw [splitTag]
  | cons e entries ih =>
    obtain ⟨key, v⟩ := e
    rw [Json.entriesReadable, Bool.and_eq_true] at hread
    rw [List.map_cons, List.mem_cons, not_or] at hkeys
    unfold splitTag
    rw [if_neg (Ne.symm hkeys.1), if_pos hread.1, ih hread.2 hkeys.2]
    rfl

/-- From the JSON of a node its kind is taken out, and the rest is decoded as the fields of that kind. -/
theorem decodeTagged_toJson (fields : Kind → Json.Decoder Node) (n : Node) :
    decodeTagged fields n.toJson = fields n.kind (.object n.entries) := by
  have hread := Json.entriesReadable_of_entriesPlain n.entries (entriesPlain_entries n)
  have htag : decodeTag n.kind.toJson = .ok n.kind := Kind.findChoice_tag n.kind
  have hsplit : splitTag none (("kind", n.kind.toJson) :: n.entries) = .ok (some n.kind, n.entries) := by
    rw [splitTag, if_pos rfl, htag]
    exact splitTag_of_readable (some n.kind) hread (kind_notMem_keys n)
  rw [toJson_eq, decodeTagged, hsplit]
  rfl

/-! ## The fields -/

/-- The entry for a span fills its slot, and without a span there is none to fill. -/
theorem readEntries_spanEntry (inner : Kind → Json.Decoder Node) (held : Bool) (k : Kind) {slots : Slots Field.Content}
    (hslot : slots .span = none) (span : Option Span) :
    ∃ slots', (record inner held k).readEntries slots (spanEntry span) = .ok slots' ∧
      (slots' .span).getD none = span ∧ ∀ i, i ≠ .span → slots' i = slots i := by
  cases span with
  | none => exact ⟨slots, rfl, by rw [hslot]; rfl, fun i _ => rfl⟩
  | some s =>
    obtain ⟨x, hx⟩ : ∃ x : Field.Content .span, x = (some s : Option Span) := ⟨_, rfl⟩
    have hfield : (record inner held k).field? "span" = some .span := by cases k <;> rfl
    have hdecode : (record inner held k).decode .span = Json.decodeOption (Span.decode held) := rfl
    have hvalue : (record inner held k).decode .span s.toJson = .ok x := by
      rw [hdecode, hx, Json.decodeOption_of_ne_null _ (by simp [Span.toJson]), Span.decode_toJson]
      rfl
    refine ⟨slots.set .span x, Record.readEntries_field hfield hslot hvalue [], ?_, ?_⟩
    · exact (congrArg (Option.getD · none) (Slots.set_self slots .span x)).trans hx
    · intro i hi
      exact Slots.set_of_ne slots (Ne.symm hi) x

/-- Entries that fill some slots, with a span behind them, are decoded as what these slots and the span assemble. -/
theorem decodeFields_object {fuel : Nat} {held : Bool} {k : Kind} (front : List (String × Json))
    (slots : Slots Field.Content) {span : Option Span} {n : Node}
    (hfront : ∀ rest, (record (decodeFields fuel true) held k).readEntries Slots.empty (front ++ rest) =
      (record (decodeFields fuel true) held k).readEntries slots rest)
    (hslot : slots .span = none)
    (hn : ∀ r : Reading Field.Content, (∀ i, i ≠ .span → r.slots i = slots i) → r.getD .span none = span →
      assemble k r = .ok n) :
    decodeFields (fuel + 1) held k (.object (front ++ spanEntry span)) = .ok n := by
  obtain ⟨slots', hread, hspan, hothers⟩ := readEntries_spanEntry (decodeFields fuel true) held k hslot span
  simp only [decodeFields, Record.read, hfront, hread]
  exact hn _ hothers hspan

/-- A field that stands in its slot when the span is read is there when the node is assembled. -/
theorem require_of_slots {slots : Slots Field.Content} {r : Reading Field.Content} {i : Field} {x : i.Content}
    (hslots : ∀ i, i ≠ .span → r.slots i = slots i) (hi : i ≠ .span) (hx : slots i = some x) : r.require i = .ok x :=
  Reading.require_of_eq_some ((hslots i hi).trans hx)

theorem decodeFields_leaf (fuel : Nat) (held : Bool) (k : LeafKind) (text : String) (span : Option Span) :
    decodeFields (fuel + 1) held k.kind (.object (("text", .string text) :: spanEntry span)) =
      .ok (.leaf k text span) := by
  apply decodeFields_object [("text", .string text)] (Slots.empty.set .label text)
  · intro rest
    cases k <;> exact Record.readEntries_field rfl rfl rfl rest
  · rfl
  · intro r hslots hspan
    have hlabel : r.require .label = .ok text := require_of_slots hslots (by decide) (Slots.set_self _ _ _)
    cases k <;> simp only [LeafKind.kind, assemble, hlabel, hspan] <;> rfl

section Children

variable {fuel : Nat} {items : List Json} {children : List Node}

/-- Top-level code and a block of code, which have nothing but children. -/
theorem decodeFields_block (hchildren : Json.decodeItems (decodeTagged (decodeFields fuel true)) items = .ok children)
    (held : Bool) {head : Head} (hhead : head = .topLevel ∨ head = .embeddedCode) (span : Option Span) :
    decodeFields (fuel + 1) held head.kind (.object (headEntries (.array items) head ++ spanEntry span)) =
      .ok (.branch head children span) := by
  apply decodeFields_object _ (Slots.empty.set .children children)
  · intro rest
    rcases hhead with rfl | rfl <;> exact Record.readEntries_field rfl rfl hchildren rest
  · rfl
  · intro r hslots hspan
    have hfield : r.require .children = .ok children := require_of_slots hslots (by decide) (Slots.set_self _ _ _)
    rcases hhead with rfl | rfl <;> simp only [Head.kind, assemble, hfield, hspan] <;> rfl

/-- An element and a property, which have a label before their children. -/
theorem decodeFields_labelled
    (hchildren : Json.decodeItems (decodeTagged (decodeFields fuel true)) items = .ok children) (held : Bool)
    {head : Head} {label : String} (hhead : head = .element label ∨ head = .property label) (span : Option Span) :
    decodeFields (fuel + 1) held head.kind (.object (headEntries (.array items) head ++ spanEntry span)) =
      .ok (.branch head children span) := by
  apply decodeFields_object _ ((Slots.empty.set .label label).set .children children)
  · intro rest
    rcases hhead with rfl | rfl
    all_goals
      rw [headEntries, List.cons_append, List.cons_append, Record.readEntries_field rfl rfl rfl]
      exact Record.readEntries_field rfl rfl hchildren rest
  · rfl
  · intro r hslots hspan
    have hlabel : r.require .label = .ok label := require_of_slots hslots (by decide) rfl
    have hfield : r.require .children = .ok children := require_of_slots hslots (by decide) (Slots.set_self _ _ _)
    rcases hhead with rfl | rfl <;> simp only [Head.kind, assemble, hlabel, hfield, hspan] <;> rfl

/-- An insert, whose code is a record of its own and is decoded one step further inside. -/
theorem decodeFields_insert (hchildren : Json.decodeItems (decodeTagged (decodeFields fuel true)) items = .ok children)
    (held : Bool) (codeSpan span : Option Span) :
    decodeFields (fuel + 2) held .insert
        (.object (headEntries (.array items) (.insert codeSpan) ++ spanEntry span)) =
      .ok (.branch (.insert codeSpan) children span) := by
  have hcode := decodeFields_block hchildren true (.inr rfl) codeSpan
  apply decodeFields_object _ (Slots.empty.set .code (.branch .embeddedCode children codeSpan))
  · intro rest
    exact Record.readEntries_field rfl rfl hcode rest
  · rfl
  · intro r hslots hspan
    have hfield : r.require .code = .ok (.branch .embeddedCode children codeSpan) :=
      require_of_slots hslots (by decide) (Slots.set_self _ _ _)
    simp only [assemble, hfield, hspan]
    rfl

end Children

/-! ## Nodes -/

/-- The kind of a node stands no deeper than the node. -/
theorem depth_toJson (n : Node) : n.toJson.depth = (Json.object n.entries).depth := by
  simp only [toJson_eq, Kind.toJson, Json.depth, Json.depthEntries, Nat.zero_max]

/-- The children stand in an array inside the record of their branch, or, in an insert, inside the record of its
code. -/
theorem depth_headEntries (head : Head) (items : List Json) (span : Option Span) :
    Json.depthItems items + 1 + ownCount head ≤
      (Json.object (headEntries (.array items) head ++ spanEntry span)).depth := by
  cases head
  all_goals
    simp only [headEntries, List.cons_append, Json.depth, Json.depthEntries, ownCount]
    omega

/-- The fields of a branch are decoded as the branch once its children are, with fuel for how deep they go. -/
theorem decodeFields_branch {items : List Json} {children : List Node}
    (hchildren : ∀ fuel, Json.depthItems items ≤ fuel →
      Json.decodeItems (decodeTagged (decodeFields fuel true)) items = .ok children)
    (head : Head) (span : Option Span) (fuel : Nat) (held : Bool)
    (hfuel : (Json.object (headEntries (.array items) head ++ spanEntry span)).depth ≤ fuel) :
    decodeFields fuel held head.kind (.object (headEntries (.array items) head ++ spanEntry span)) =
      .ok (.branch head children span) := by
  have hdepth := Nat.le_trans (depth_headEntries head items span) hfuel
  obtain ⟨fuel, rfl⟩ : ∃ f, fuel = f + 1 := ⟨fuel - 1, by omega⟩
  have hitems := hchildren fuel (by omega)
  cases head with
  | topLevel => exact decodeFields_block hitems held (.inl rfl) span
  | embeddedCode => exact decodeFields_block hitems held (.inr rfl) span
  | element tag => exact decodeFields_labelled hitems held (.inl rfl) span
  | property name => exact decodeFields_labelled hitems held (.inr rfl) span
  | insert codeSpan =>
    simp only [ownCount] at hdepth
    obtain ⟨fuel, rfl⟩ : ∃ f, fuel = f + 1 := ⟨fuel - 1, by omega⟩
    exact decodeFields_insert (hchildren fuel (by omega)) held codeSpan span

mutual
/-- The fields of a node are decoded as the node. -/
theorem decodeFields_entries : (n : Node) → ∀ (fuel : Nat) (held : Bool), (Json.object n.entries).depth ≤ fuel →
    decodeFields fuel held n.kind (.object n.entries) = .ok n
  | leaf k text span, fuel, held, hfuel => by
    rw [entries] at hfuel ⊢
    obtain ⟨fuel, rfl⟩ : ∃ f, fuel = f + 1 := ⟨fuel - 1, by rw [Json.depth] at hfuel; omega⟩
    exact decodeFields_leaf fuel held k text span
  | branch head children span, fuel, held, hfuel => by
    rw [entries] at hfuel ⊢
    exact decodeFields_branch (decodeItems_allToJson children) head span fuel held hfuel

/-- Written nodes are decoded in their order. -/
theorem decodeItems_allToJson : (ns : List Node) → ∀ fuel : Nat, Json.depthItems (allToJson ns) ≤ fuel →
    Json.decodeItems (decodeTagged (decodeFields fuel true)) (allToJson ns) = .ok ns
  | [], _, _ => by rw [allToJson, Json.decodeItems]
  | n :: rest, fuel, hfuel => by
    rw [allToJson, Json.depthItems, depth_toJson] at hfuel
    rw [allToJson, Json.decodeItems, decodeTagged_toJson, decodeFields_entries n fuel true (by omega),
      decodeItems_allToJson rest fuel (by omega)]
    rfl
end

end Node

/-- The text of a template is decoded as the template, and the text of a node as the node. -/
theorem decodeText_print_toJson :
    (∀ t : Template, Json.decodeText Template.decode t.toJson.print = .ok t) ∧
      ∀ n : Node, Json.decodeText Node.decode n.toJson.print = .ok n := by
  constructor
  · intro t
    have hplain : t.toJson.isPlain = true := t.root.entriesPlain_entries
    have hroot : Node.decodeFields (t.toJson.depth + 1) false .topLevel t.toJson = .ok t.root :=
      t.root.decodeFields_entries (t.toJson.depth + 1) false (Nat.le_succ _)
    rw [Json.decodeText_print _ hplain, Template.decode, hroot]
    rfl
  · intro n
    have hdepth : (Json.object n.entries).depth ≤ n.toJson.depth + 1 := by
      rw [n.depth_toJson]
      exact Nat.le_succ _
    rw [Json.decodeText_print _ n.isPlain_toJson, Node.decode, Node.decodeTagged_toJson]
    exact n.decodeFields_entries _ true hdepth

end TemplatePrep

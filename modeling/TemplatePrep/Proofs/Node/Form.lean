import TemplatePrep.Node.Form
import TemplatePrep.Node.Json
import TemplatePrep.Proofs.Json.Record

/-!
# Decoding accepts exactly the forms of a node

A value is decoded as a node exactly if it is a form of that node, and as a template exactly if it is a form of that
template.

Each decoder is met by an equivalence for its own part: strings, numbers, lists and spans first, then what a reading has
to hold for a node to be assembled from it. With these a record of a kind is decoded as a node exactly if the values
given to its fields have the forms of the node's fields. The induction is on the fuel, over values that are less deep
than that: children and an insert's code stand inside the record, so they are met with less fuel and less depth.
-/

namespace TemplatePrep

open Json (Decoder Record Reading Slots Fills Once IsRecord valuesAt bind_eq_ok_iff)

/-! ## Plain values -/

theorem Json.decodeUInt32_eq_ok_iff {v : Json} {n : UInt32} : decodeUInt32 v = .ok n ↔ v = .integer n.toNat := by
  constructor
  · intro h
    cases v with
    | integer i =>
      rw [decodeUInt32] at h
      split at h
      · next hi =>
        have hbound : i.toNat < 4294967296 := by
          have hpow : (Nat.pow 2 32 : Int) = 4294967296 := rfl
          omega
        obtain rfl := Except.ok.inj h
        rw [UInt32.toNat_ofNat_of_lt' hbound, Int.toNat_of_nonneg hi.1]
      · cases h
    | _ => cases h
  · rintro rfl
    exact Span.decodeUInt32_ofWord n

theorem Json.Reading.require_eq_ok_iff {ι : Type} {τ : ι → Type} {r : Reading τ} {i : ι} {x : τ i} :
    r.require i = .ok x ↔ r.slots i = some x := by
  rw [Reading.require]
  cases r.slots i <;> simp

theorem Json.Reading.require_bind_eq_ok_iff {ι : Type} {τ : ι → Type} {r : Reading τ} {i : ι} {α : Type}
    {f : τ i → Except DecodeError α} {a : α} :
    (r.require i >>= f) = .ok a ↔ ∃ x, r.slots i = some x ∧ f x = .ok a := by
  simp only [bind_eq_ok_iff, require_eq_ok_iff]

theorem Kind.findChoice_eq_ok_iff {name : String} {k : Kind} :
    Json.findChoice choices name = .ok k ↔ name = k.tag := by
  have hnames : (choices.map Prod.fst).Nodup := by decide
  rw [Json.findChoice_eq_ok_iff hnames, choices, List.mem_map]
  constructor
  · rintro ⟨k, -, hk⟩
    obtain ⟨rfl, rfl⟩ := Prod.mk.inj hk
    rfl
  · rintro rfl
    exact ⟨k, k.mem_all, rfl⟩

theorem Node.decodeTag_eq_ok_iff {v : Json} {k : Kind} : decodeTag v = .ok k ↔ v = .string k.tag := by
  cases v <;> simp [decodeTag, Kind.findChoice_eq_ok_iff]

/-! ## Spans -/

/-- The number of a span that stands in a field. -/
def Span.number (s : Span) : Field → UInt32
  | .startLine => s.start.line
  | .startCol => s.start.col
  | .endLine => s.stop.line
  | .endCol => s.stop.col

theorem Span.decode_eq_ok_iff {held : Bool} {v : Json} {s : Span} : Span.decode held v = .ok s ↔ s.IsForm v := by
  have hkeys : ((record held).fields.map (record held).key).Nodup := by
    show ["start_line", "start_col", "end_line", "end_col"].Nodup
    decide
  have hnumbers : Span.decode held v = .ok s ↔
      ∃ r, (record held).read v = .ok r ∧ ∀ i ∈ (record held).fields, ∃ n, r.slots i = some n ∧ n = s.number i := by
    obtain ⟨⟨startLine, startCol⟩, ⟨endLine, endCol⟩⟩ := s
    simp only [Span.decode, bind_eq_ok_iff, Json.Reading.require_eq_ok_iff, Except.ok.injEq, Span.mk.injEq,
      Position.mk.injEq, record, List.forall_mem_cons, Span.number, exists_eq_right]
    apply exists_congr
    intro r
    apply and_congr_right
    intro _
    constructor
    · rintro ⟨_, h₁, _, h₂, _, h₃, _, h₄, ⟨rfl, rfl⟩, rfl, rfl⟩
      exact ⟨h₁, h₂, h₃, h₄, by simp⟩
    · rintro ⟨h₁, h₂, h₃, h₄, -⟩
      exact ⟨_, h₁, _, h₂, _, h₃, _, h₄, ⟨rfl, rfl⟩, rfl, rfl⟩
  have hnumber (i : Field) (given : List Json) :
      (∃ o, Fills ((record held).decode i) none given o ∧ ∃ n, o = some n ∧ n = s.number i) ↔
        Once (· = .integer (s.number i).toNat) given := by
    have hdecode : (record held).decode i = Json.decodeUInt32 := rfl
    rw [hdecode, Json.exists_fills_some_iff]
    simp only [Json.decodeUInt32_eq_ok_iff, exists_eq_right]
  rw [hnumbers, Record.exists_read_slots_iff hkeys rfl (P := fun i o => ∃ n, o = some n ∧ n = s.number i)]
  simp only [hnumber]
  rfl

theorem Span.not_isForm_null (s : Span) : ¬ s.IsForm .null := by
  rintro ⟨_, h, -⟩
  cases h

/-- What has to be given for the slot of a span to hold the given one. -/
theorem Span.exists_fills_iff {held : Bool} {given : List Json} {span : Option Span} :
    (∃ o, Fills (Json.decodeOption (Span.decode held)) none given o ∧ o.getD none = span) ↔
      Span.GivenAs span given := by
  have hdecode (v : Json) (s : Span) : Span.decode held v = .ok s ↔ Span.IsForm s v := Span.decode_eq_ok_iff
  rw [Json.exists_fills_option_iff hdecode Span.not_isForm_null]
  cases span <;> rfl

namespace Node

/-! ## Assembling -/

/-- What the slot of a field holds when the node is assembled from it. -/
def SlotHolds (n : Node) : (i : Field) → Option i.Content → Prop
  | .label, slot => ∃ label : String, slot = some label ∧ n.label? = some label
  | .children, slot => ∃ children : List Node, slot = some children ∧ children = n.children
  | .code, slot => ∃ code : Node, slot = some code ∧ n = .branch (.insert code.span) code.children n.span
  | .span, slot => Option.getD slot none = n.span

theorem assemble_of_slotHolds {n : Node} {r : Reading Field.Content}
    (h : ∀ i ∈ fieldsOf n.kind, n.SlotHolds i (r.slots i)) : assemble n.kind r = .ok n := by
  cases n with
  | leaf k text span =>
    cases k
    all_goals
      simp only [kind, LeafKind.kind, fieldsOf, List.forall_mem_cons] at h
      obtain ⟨⟨_, hslot, ⟨⟩⟩, hspan, -⟩ := h
      have hrequire : r.require .label = .ok text := Json.Reading.require_of_eq_some hslot
      have hgetD : r.getD .span none = span := hspan
      simp only [kind, LeafKind.kind, assemble, hrequire, hgetD]
      rfl
  | branch head cs span =>
    cases head
    all_goals simp only [kind, Head.kind, fieldsOf, List.forall_mem_cons] at h
    case topLevel | embeddedCode =>
      obtain ⟨⟨cs, hslot, rfl⟩, hspan, -⟩ := h
      have hrequire : r.require .children = .ok cs := Json.Reading.require_of_eq_some hslot
      have hgetD : r.getD .span none = span := hspan
      simp only [kind, Head.kind, assemble, hrequire, hgetD]
      rfl
    case element label | property label =>
      obtain ⟨⟨_, hslot, ⟨⟩⟩, ⟨cs, hslot', rfl⟩, hspan, -⟩ := h
      have hrequire : r.require .label = .ok label := Json.Reading.require_of_eq_some hslot
      have hrequire' : r.require .children = .ok cs := Json.Reading.require_of_eq_some hslot'
      have hgetD : r.getD .span none = span := hspan
      simp only [kind, Head.kind, assemble, hrequire, hrequire', hgetD]
      rfl
    case insert codeSpan =>
      obtain ⟨⟨code, hslot, hcode⟩, hspan, -⟩ := h
      have hrequire : r.require .code = .ok code := Json.Reading.require_of_eq_some hslot
      have hgetD : r.getD .span none = span := hspan
      simp only [kind, Head.kind, assemble, hrequire, hgetD]
      exact congrArg Except.ok hcode.symm

theorem slotHolds_of_assemble {k : Kind} {r : Reading Field.Content} {n : Node} (h : assemble k r = .ok n) :
    n.kind = k ∧ ∀ i ∈ fieldsOf k, n.SlotHolds i (r.slots i) := by
  cases k with
  | topLevel | embeddedCode =>
    obtain ⟨children, hslot, h⟩ := Json.Reading.require_bind_eq_ok_iff.mp h
    obtain rfl := Except.ok.inj h
    refine ⟨rfl, ?_⟩
    simp only [fieldsOf, List.forall_mem_cons]
    exact ⟨⟨children, hslot, rfl⟩, rfl, by simp⟩
  | element | property =>
    obtain ⟨label, hslot, h⟩ := Json.Reading.require_bind_eq_ok_iff.mp h
    obtain ⟨children, hslot', h⟩ := Json.Reading.require_bind_eq_ok_iff.mp h
    obtain rfl := Except.ok.inj h
    refine ⟨rfl, ?_⟩
    simp only [fieldsOf, List.forall_mem_cons]
    exact ⟨⟨label, hslot, rfl⟩, ⟨children, hslot', rfl⟩, rfl, by simp⟩
  | insert =>
    obtain ⟨code, hslot, h⟩ := Json.Reading.require_bind_eq_ok_iff.mp h
    obtain rfl := Except.ok.inj h
    refine ⟨rfl, ?_⟩
    simp only [fieldsOf, List.forall_mem_cons]
    exact ⟨⟨code, hslot, rfl⟩, rfl, by simp⟩
  | codeText | text | comment =>
    obtain ⟨text, hslot, h⟩ := Json.Reading.require_bind_eq_ok_iff.mp h
    obtain rfl := Except.ok.inj h
    refine ⟨rfl, ?_⟩
    simp only [fieldsOf, List.forall_mem_cons]
    exact ⟨⟨text, hslot, rfl⟩, rfl, by simp⟩

theorem assemble_eq_ok_iff {k : Kind} {r : Reading Field.Content} {n : Node} :
    assemble k r = .ok n ↔ n.kind = k ∧ ∀ i ∈ fieldsOf k, n.SlotHolds i (r.slots i) := by
  constructor
  · exact slotHolds_of_assemble
  · rintro ⟨rfl, h⟩
    exact assemble_of_slotHolds h

/-! ## Fields -/

/-- The fields of each kind are decoded from the value exactly as the forms of nodes want them. -/
def DecodesFields (fields : Kind → Decoder Node) (v : Json) : Prop :=
  ∀ (k : Kind) (n : Node), fields k v = .ok n ↔ n.kind = k ∧ IsRecord n.fieldForms v

section Fields

variable {inner : Kind → Decoder Node} {held : Bool} {k : Kind} {given : List Json}

theorem exists_fills_label_iff {n : Node} {label : String} (hlabel : n.label? = some label) :
    (∃ o, Fills ((record inner held k).decode .label) none given o ∧ n.SlotHolds .label o) ↔
      Once (· = .string label) given := by
  have hfills : (∃ o, Fills Json.decodeString none given o ∧ ∃ x, o = some x ∧ n.label? = some x) ↔
      Once (· = .string label) given := by
    rw [Json.exists_fills_some_iff]
    simp only [Json.decodeString_eq_ok_iff, hlabel, Option.some.injEq, exists_eq_right']
  exact hfills

theorem exists_fills_span_iff {n : Node} :
    (∃ o, Fills ((record inner held k).decode .span) none given o ∧ n.SlotHolds .span o) ↔
      Span.GivenAs n.span given :=
  Span.exists_fills_iff

/-- Decoding items one by one accepts the forms of nodes if decoding each of them does. -/
theorem decodeItems_eq_ok_iff {decode : Decoder Node} {items : List Json}
    (h : ∀ v ∈ items, ∀ n, decode v = .ok n ↔ n.IsForm v) {ns : List Node} :
    Json.decodeItems decode items = .ok ns ↔ AreForms ns items := by
  induction items generalizing ns with
  | nil => cases ns <;> simp [Json.decodeItems, AreForms]
  | cons v items ih =>
    have hv (n : Node) : decode v = .ok n ↔ IsTagged n.kind n.fieldForms v := h v List.mem_cons_self n
    have hitems (ns : List Node) : Json.decodeItems decode items = .ok ns ↔ AreForms ns items :=
      ih fun w hw => h w (List.mem_cons_of_mem v hw)
    cases ns <;> simp [Json.decodeItems, AreForms, bind_eq_ok_iff, hv, hitems]

theorem exists_fills_children_iff {n : Node}
    (h : ∀ w ∈ given, ∀ items, w = .array items → ∀ v ∈ items, ∀ m : Node,
      decodeTagged inner v = .ok m ↔ m.IsForm v) :
    (∃ o, Fills ((record inner held k).decode .children) none given o ∧ n.SlotHolds .children o) ↔
      Once (fun w => ∃ items, w = .array items ∧ AreForms n.children items) given := by
  have hlist : ∀ w ∈ given, Json.decodeList (decodeTagged inner) w = .ok n.children ↔
      ∃ items, w = .array items ∧ AreForms n.children items := by
    intro w hw
    rw [Json.decodeList_eq_ok_iff]
    exact exists_congr fun items => and_congr_right fun hitems => decodeItems_eq_ok_iff (h w hw items hitems)
  have hfills : (∃ o, Fills (Json.decodeList (decodeTagged inner)) none given o ∧ ∃ x, o = some x ∧ x = n.children) ↔
      Once (fun w => ∃ items, w = .array items ∧ AreForms n.children items) given := by
    rw [Json.exists_fills_some_iff]
    simp only [exists_eq_right]
    exact Json.once_congr hlist
  exact hfills

/-- Of top-level code and of a block of code the kind is the whole head. -/
theorem eq_branch_of_kind {n : Node} {head : Head} (hhead : head = .topLevel ∨ head = .embeddedCode)
    (h : n.kind = head.kind) : n = branch head n.children n.span := by
  cases n with
  | leaf k => rcases hhead with rfl | rfl <;> cases k <;> cases h
  | branch head' children span =>
    have hsame : head' = head := by
      rcases hhead with rfl | rfl <;> cases head' <;> simp [kind, Head.kind] at h ⊢
    rw [hsame]
    rfl

/-- The code of an insert is decoded as a block of code, which the insert takes apart. -/
theorem exists_fills_code_iff {codeSpan span : Option Span} {children : List Node}
    (h : ∀ w ∈ given, DecodesFields inner w) :
    (∃ o, Fills ((record inner held k).decode .code) none given o ∧
        (branch (.insert codeSpan) children span).SlotHolds .code o) ↔
      Once (IsRecord (branch .embeddedCode children codeSpan).fieldForms) given := by
  refine Json.exists_fills_some_iff.trans (Json.once_congr fun w hw => ?_)
  constructor
  · rintro ⟨code, hcode, hn⟩
    obtain ⟨hkind, hrecord⟩ := (h w hw _ code).mp hcode
    injection hn with hhead hchildren
    injection hhead with hspan
    obtain rfl : code = branch .embeddedCode children codeSpan := by
      rw [hspan, hchildren]
      exact eq_branch_of_kind (.inr rfl) hkind
    exact hrecord
  · intro hrecord
    exact ⟨branch .embeddedCode children codeSpan, (h w hw _ _).mpr ⟨rfl, hrecord⟩, rfl⟩

end Fields

/-! ## Kinds -/

section Tagged

variable {fields : Kind → Decoder Node}

/-- Splitting off the kind leaves the other entries as they were, which must be readable. -/
theorem splitTag_eq_ok_iff {tag tag' : Option Kind} {entries others : List (String × Json)} :
    splitTag tag entries = .ok (tag', others) ↔
      Fills decodeTag tag (valuesAt "kind" entries) tag' ∧ Json.entriesReadable others = true ∧
        others = entries.filter fun e => e.1 ≠ "kind" := by
  induction entries generalizing tag others with
  | nil =>
    simp only [splitTag, Except.ok.injEq, Prod.mk.injEq, Json.valuesAt_nil, Json.fills_nil_iff, List.filter_nil]
    constructor
    · rintro ⟨rfl, rfl⟩
      exact ⟨rfl, rfl, rfl⟩
    · rintro ⟨rfl, -, rfl⟩
      exact ⟨rfl, rfl⟩
  | cons e entries ih =>
    obtain ⟨key, v⟩ := e
    unfold splitTag
    by_cases hkey : key = "kind"
    · subst hkey
      rw [if_pos rfl, Json.valuesAt_cons_self, Json.fills_cons_iff, List.filter_cons_of_neg (by simp)]
      cases tag with
      | some k => simp
      | none => simp only [bind_eq_ok_iff, ih, true_and, ← exists_and_right, and_assoc]
    · rw [if_neg hkey, Json.valuesAt_cons_of_ne hkey, List.filter_cons_of_pos (by simpa using hkey)]
      by_cases hread : v.isReadable = true
      · rw [if_pos hread]
        constructor
        · intro h
          obtain ⟨⟨k, others'⟩, hsplit, h⟩ := bind_eq_ok_iff.mp h
          obtain ⟨rfl, rfl⟩ := Prod.mk.inj (Except.ok.inj h)
          obtain ⟨hfills, hothers, rfl⟩ := ih.mp hsplit
          exact ⟨hfills, by rw [Json.entriesReadable, hread, hothers, Bool.and_true], rfl⟩
        · rintro ⟨hfills, hothers, rfl⟩
          rw [Json.entriesReadable, hread, Bool.true_and] at hothers
          exact bind_eq_ok_iff.mpr ⟨_, ih.mpr ⟨hfills, hothers, rfl⟩, rfl⟩
      · rw [if_neg hread]
        constructor
        · intro h
          cases h
        · rintro ⟨-, hothers, rfl⟩
          rw [Json.entriesReadable, Bool.and_eq_true] at hothers
          exact absurd hothers.1 hread

theorem kind_notMem_keys_fieldForms (n : Node) : "kind" ∉ n.fieldForms.map Json.FieldForm.key := by
  cases n with
  | leaf => simp [fieldForms]
  | branch head => cases head <;> simp [fieldForms, headForms]

/-- The kind of a node in an object. -/
theorem decodeTagged_object_eq_ok_iff {entries : List (String × Json)} {n : Node}
    (h : ∀ w, w.depth ≤ (Json.object entries).depth → DecodesFields fields w) :
    decodeTagged fields (.object entries) = .ok n ↔ n.IsForm (.object entries) := by
  have hfields (k : Kind) : fields k (.object (entries.filter fun e => e.1 ≠ "kind")) = .ok n ↔
      n.kind = k ∧ IsRecord n.fieldForms (.object entries) := by
    rw [← Json.isRecord_filter_ne_iff (kind_notMem_keys_fieldForms n)]
    apply h
    exact Nat.succ_le_succ (Json.depthEntries_le_iff.mpr fun e he =>
      Json.depthEntries_le_iff.mp (Nat.le_refl _) e (List.mem_filter.mp he).1)
  have hreadable (htag : Once (· = .string n.kind.tag) (valuesAt "kind" entries)) :
      Json.entriesReadable (entries.filter fun e => e.1 ≠ "kind") = true ↔ Json.entriesReadable entries = true := by
    obtain ⟨_, hvalues, rfl⟩ := htag
    exact Json.entriesReadable_filter_ne_iff (by simp [hvalues, Json.isReadable])
  rw [IsForm, IsTagged, Json.isReadable, Json.isRecord_cons_object, decodeTagged, bind_eq_ok_iff]
  constructor
  · rintro ⟨⟨tag, _⟩, hsplit, hdecode⟩
    obtain ⟨hfills, hothers, rfl⟩ := splitTag_eq_ok_iff.mp hsplit
    cases tag with
    | none => cases hdecode
    | some k =>
      obtain ⟨rfl, hrecord⟩ := (hfields k).mp hdecode
      have htag : Once (· = .string n.kind.tag) (valuesAt "kind" entries) := by
        simpa only [Json.fills_some_iff, decodeTag_eq_ok_iff] using hfills
      exact ⟨(hreadable htag).mp hothers, htag, hrecord⟩
  · rintro ⟨hread, htag, hrecord⟩
    have hfills : Fills decodeTag none (valuesAt "kind" entries) (some n.kind) := by
      simpa only [Json.fills_some_iff, decodeTag_eq_ok_iff] using htag
    exact ⟨_, splitTag_eq_ok_iff.mpr ⟨hfills, (hreadable htag).mpr hread, rfl⟩, (hfields n.kind).mpr ⟨rfl, hrecord⟩⟩

/-- The kind of a node in an array. -/
theorem decodeTagged_array_eq_ok_iff {items : List Json} {n : Node}
    (h : ∀ w, w.depth ≤ (Json.array items).depth → DecodesFields fields w) :
    decodeTagged fields (.array items) = .ok n ↔ n.IsForm (.array items) := by
  cases items with
  | nil =>
    constructor
    · intro h
      cases h
    · rintro ⟨-, _, ⟨⟩, hfields⟩
      obtain ⟨_, hv, -⟩ := hfields _ List.mem_cons_self
      cases hv
  | cons v rest =>
    have hrest (k : Kind) : fields k (.array rest) = .ok n ↔ n.kind = k ∧ IsRecord n.fieldForms (.array rest) :=
      h (.array rest) (Nat.succ_le_succ (Nat.le_max_right _ _)) k n
    rw [IsForm, IsTagged, Json.isRecord_cons_array (kind_notMem_keys_fieldForms n), Json.isReadable, Json.itemsReadable,
      decodeTagged, bind_eq_ok_iff]
    simp only [decodeTag_eq_ok_iff, Bool.and_eq_true]
    constructor
    · rintro ⟨k, rfl, hfields⟩
      split at hfields
      · next hread =>
        obtain ⟨rfl, hrecord⟩ := (hrest k).mp hfields
        exact ⟨⟨rfl, hread⟩, ⟨_, rfl, rfl⟩, hrecord⟩
      · cases hfields
    · rintro ⟨⟨-, hread⟩, ⟨_, ⟨⟩, rfl⟩, hrecord⟩
      exact ⟨n.kind, rfl, by rw [if_pos hread, hrest]; exact ⟨rfl, hrecord⟩⟩

/-- A node is decoded exactly from its forms once records without their kind are. -/
theorem decodeTagged_eq_ok_iff {v : Json} {n : Node}
    (h : ∀ w, w.depth ≤ v.depth → DecodesFields fields w) :
    decodeTagged fields v = .ok n ↔ n.IsForm v := by
  cases v with
  | object entries => exact decodeTagged_object_eq_ok_iff h
  | array items => exact decodeTagged_array_eq_ok_iff h
  | _ => simp [decodeTagged, IsForm, IsTagged, IsRecord, Json.entriesUnder?]

end Tagged

/-! ## Nodes -/

theorem nodup_keys (inner : Kind → Decoder Node) (held : Bool) (k : Kind) :
    ((record inner held k).fields.map (record inner held k).key).Nodup := by
  show ((fieldsOf k).map (keyOf k)).Nodup
  cases k <;> decide

/-- The fields of a node by what has to be given for their slots to hold what the node is assembled from. -/
def slotForms (inner : Kind → Decoder Node) (held : Bool) (n : Node) : List Json.FieldForm :=
  (fieldsOf n.kind).map fun i => ⟨keyOf n.kind i, fun given =>
    ∃ o, Fills ((record inner held n.kind).decode i) none given o ∧ n.SlotHolds i o⟩

theorem decodeFields_succ_eq_ok_iff {fuel : Nat} {held : Bool} {k : Kind} {v : Json} {n : Node} :
    decodeFields (fuel + 1) held k v = .ok n ↔ n.kind = k ∧ IsRecord (slotForms (decodeFields fuel true) held n) v := by
  rw [decodeFields, bind_eq_ok_iff]
  simp only [assemble_eq_ok_iff, and_left_comm (b := n.kind = k), exists_and_left]
  apply and_congr_right
  rintro rfl
  exact Record.exists_read_slots_iff (nodup_keys _ held n.kind) rfl

/-- Field by field, what the slots need is what the form of the node asks for. -/
theorem agreeBelow_fieldForms {inner : Kind → Decoder Node} (held : Bool) {d : Nat}
    (h : ∀ w, w.depth < d → DecodesFields inner w) (n : Node) :
    List.Forall₂ (Json.FieldForm.AgreeBelow d) (slotForms inner held n) n.fieldForms := by
  have hchildren {given : List Json} (hgiven : ∀ w ∈ given, w.depth < d) : ∀ w ∈ given, ∀ items, w = .array items →
      ∀ v ∈ items, ∀ m : Node, decodeTagged inner v = .ok m ↔ m.IsForm v := by
    rintro _ hw items rfl v hv m
    have hdepth : v.depth ≤ Json.depthItems items := Json.depthItems_le_iff.mp (Nat.le_refl _) v hv
    have harray : Json.depthItems items + 1 < d := hgiven _ hw
    exact decodeTagged_eq_ok_iff fun u hu => h u (by omega)
  cases n with
  | leaf k text span =>
    rw [fieldForms]
    cases k
    all_goals
      exact .cons ⟨rfl, fun _ _ => exists_fills_label_iff rfl⟩ (.cons ⟨rfl, fun _ _ => exists_fills_span_iff⟩ .nil)
  | branch head children span =>
    rw [fieldForms]
    cases head with
    | topLevel | embeddedCode =>
      exact .cons ⟨rfl, fun _ hgiven => exists_fills_children_iff (hchildren hgiven)⟩
        (.cons ⟨rfl, fun _ _ => exists_fills_span_iff⟩ .nil)
    | element label | property label =>
      exact .cons ⟨rfl, fun _ _ => exists_fills_label_iff rfl⟩
        (.cons ⟨rfl, fun _ hgiven => exists_fills_children_iff (hchildren hgiven)⟩
          (.cons ⟨rfl, fun _ _ => exists_fills_span_iff⟩ .nil))
    | insert codeSpan =>
      exact .cons ⟨rfl, fun _ hgiven => exists_fills_code_iff fun w hw => h w (hgiven w hw)⟩
        (.cons ⟨rfl, fun _ _ => exists_fills_span_iff⟩ .nil)

theorem decodesFields_decodeFields {fuel : Nat} (held : Bool) {v : Json} (hv : v.depth < fuel) :
    DecodesFields (decodeFields fuel held) v := by
  induction fuel generalizing held v with
  | zero => cases hv
  | succ fuel ih =>
    intro k n
    rw [decodeFields_succ_eq_ok_iff]
    apply and_congr_right
    rintro rfl
    apply Json.isRecord_congr
    exact agreeBelow_fieldForms held (fun w hw => ih true (by omega)) n

/-- Decoding accepts exactly the forms of what it returns, of nodes as of templates. -/
theorem decode_eq_ok_iff_isForm :
    (∀ (v : Json) (n : Node), decode v = .ok n ↔ n.IsForm v) ∧
    ∀ (v : Json) (t : Template), Template.decode v = .ok t ↔ t.IsForm v := by
  constructor
  · intro v n
    rw [decode]
    exact decodeTagged_eq_ok_iff fun w hw => decodesFields_decodeFields true (by omega)
  · intro v t
    have hroots := decodesFields_decodeFields false (Nat.lt_succ_self v.depth) .topLevel
    rw [Template.decode, bind_eq_ok_iff]
    constructor
    · rintro ⟨n, hn, ⟨⟩⟩
      obtain ⟨hkind, hrecord⟩ := (hroots n).mp hn
      have hroot : (Template.ofRoot n).root = n := (eq_branch_of_kind (.inl rfl) hkind).symm
      rw [Template.IsForm, hroot]
      exact hrecord
    · intro hform
      exact ⟨t.root, (hroots t.root).mpr ⟨rfl, hform⟩, congrArg Except.ok (Template.ofRoot_root t)⟩

/-- The kind may come late, what is not known is passed over however often it comes, and an array may stand for a
record inside an object. -/
example : decode (.object [("note", .null), ("text", .string "a"), ("note", .bool true), ("kind", .string "HtmlText"),
      ("span", .array [.integer 1, .integer 0, .integer 1, .integer 1])]) =
    .ok (.leaf .text "a" (some ⟨⟨1, 0⟩, ⟨1, 1⟩⟩)) := by
  rfl

end Node

end TemplatePrep

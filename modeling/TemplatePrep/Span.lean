import TemplatePrep.Json.Printer
import TemplatePrep.Json.Record

/-!
# Positions and spans

A span is the region of the source that a node was read from. Its two ends are positions, compared by line and then by
column, never column by column; nothing requires the start to come before the end.
-/

namespace TemplatePrep

/-- A place in the source. -/
structure Position where
  line : UInt32
  col : UInt32
deriving DecidableEq, Inhabited

namespace Position

/-- Line first, then column. -/
instance : LE Position where
  le p q := p.line < q.line ∨ (p.line = q.line ∧ p.col ≤ q.col)

instance : DecidableLE Position := fun p q =>
  inferInstanceAs (Decidable (p.line < q.line ∨ (p.line = q.line ∧ p.col ≤ q.col)))

/-- The earlier of two positions. -/
instance : Min Position where
  min p q := if p ≤ q then p else q

/-- The later of two positions. -/
instance : Max Position where
  max p q := if p ≤ q then q else p

theorem le_iff {p q : Position} : p ≤ q ↔ p.line < q.line ∨ (p.line = q.line ∧ p.col ≤ q.col) := Iff.rfl

theorem min_def (p q : Position) : min p q = if p ≤ q then p else q := rfl

theorem max_def (p q : Position) : max p q = if p ≤ q then q else p := rfl

end Position

/-- A region of the source, from its start to its end. -/
structure Span where
  start : Position
  stop : Position
deriving DecidableEq, Inhabited

namespace Span

/-- The span of a single position. -/
def point (p : Position) : Span := ⟨p, p⟩

/-- The smallest span that covers both. -/
def merge (a b : Span) : Span := ⟨min a.start b.start, max a.stop b.stop⟩

/-- Whether a span starts where it ends. -/
def isEmpty (s : Span) : Bool := s.start == s.stop

/-- Line and column of the start. -/
def describe (s : Span) : String :=
  toString s.start.line.toNat ++ ":" ++ toString s.start.col.toNat

/-! ## JSON -/

/-- The fields of a span in JSON. -/
inductive Field where
  | startLine
  | startCol
  | endLine
  | endCol
deriving DecidableEq

/-- The key of a field. -/
def Field.key : Field → String
  | startLine => "start_line"
  | startCol => "start_col"
  | endLine => "end_line"
  | endCol => "end_col"

/-- A 32-bit number in JSON. -/
def ofWord (n : UInt32) : Json := .integer n.toNat

theorem decodeUInt32_ofWord (n : UInt32) : Json.decodeUInt32 (ofWord n) = .ok n := by
  have hn : (0 : Int) ≤ n.toNat ∧ (n.toNat : Int) < Nat.pow 2 32 := ⟨Int.natCast_nonneg _, Int.ofNat_lt.mpr n.toNat_lt⟩
  rw [ofWord, Json.decodeUInt32, if_pos hn, Int.toNat_natCast, UInt32.ofNat_toNat]

/-- A span in JSON. -/
def toJson (s : Span) : Json :=
  .object [(Field.startLine.key, ofWord s.start.line), (Field.startCol.key, ofWord s.start.col),
    (Field.endLine.key, ofWord s.stop.line), (Field.endCol.key, ofWord s.stop.col)]

/-- The record of a span. -/
def record (held : Bool) : Json.Record Field fun _ => UInt32 where
  title := "Span"
  fields := [.startLine, .startCol, .endLine, .endCol]
  key := Field.key
  decode _ := Json.decodeUInt32
  closed := false
  held := held

/-- Decodes a span, which stands inside a node or not. -/
def decode (held : Bool) : Json.Decoder Span := fun v => do
  let r ← (record held).read v
  let startLine ← r.require .startLine
  let startCol ← r.require .startCol
  let endLine ← r.require .endLine
  let endCol ← r.require .endCol
  .ok ⟨⟨startLine, startCol⟩, ⟨endLine, endCol⟩⟩

/-- A span is decoded from its JSON, wherever it stands. -/
theorem decode_toJson (held : Bool) (s : Span) : decode held s.toJson = .ok s := by
  have hdecode (i : Field) : (record held).decode i = Json.decodeUInt32 := rfl
  have hword (i : Field) (n : UInt32) : (record held).decode i (ofWord n) = .ok n := by
    rw [hdecode, decodeUInt32_ofWord]
  have hread : (record held).readEntries Json.Slots.empty
      [(Field.startLine.key, ofWord s.start.line), (Field.startCol.key, ofWord s.start.col),
        (Field.endLine.key, ofWord s.stop.line), (Field.endCol.key, ofWord s.stop.col)] =
      .ok ((((Json.Slots.empty.set .startLine s.start.line).set .startCol s.start.col).set .endLine s.stop.line).set
        .endCol s.stop.col) := by
    rw [Json.Record.readEntries_field rfl rfl (hword .startLine _),
      Json.Record.readEntries_field rfl rfl (hword .startCol _),
      Json.Record.readEntries_field rfl rfl (hword .endLine _),
      Json.Record.readEntries_field rfl rfl (hword .endCol _), Json.Record.readEntries]
  rw [decode, toJson, Json.Record.read, hread]
  rfl

end Span

end TemplatePrep

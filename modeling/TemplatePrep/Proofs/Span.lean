import Mathlib.Order.Bounds.Basic
import TemplatePrep.Span

/-!
# Merging is taking the least cover

One span covers another if it starts no later and stops no earlier. Positions are in a linear order, line before column,
so covering is an order on spans, and in it the merge of two spans is their join: of all spans that cover both, it is the
one that every other covers. Nothing of this needs a span to start before it stops.

From there on a merge of many spans is known by what covers it. A span covers the merge exactly if it covers every single
one of them (`covers_total_iff`), and this does not speak of the order in which they were merged, of how they were
grouped, or of how often one of them occurs.
-/

namespace TemplatePrep

namespace Position

/-- Positions compare as pairs of numbers do. -/
theorem le_iff_toNat {p q : Position} :
    p ≤ q ↔ p.line.toNat < q.line.toNat ∨ (p.line.toNat = q.line.toNat ∧ p.col.toNat ≤ q.col.toNat) := by
  rw [le_iff, UInt32.lt_iff_toNat_lt, ← UInt32.toNat_inj, UInt32.le_iff_toNat_le]

theorem eq_of_toNat_eq {p q : Position} (hline : p.line.toNat = q.line.toNat) (hcol : p.col.toNat = q.col.toNat) :
    p = q := by
  cases p
  cases q
  rw [mk.injEq]
  exact ⟨UInt32.toNat_inj.mp hline, UInt32.toNat_inj.mp hcol⟩

/-- Positions are in a linear order. -/
instance : LinearOrder Position where
  le_refl p := le_iff_toNat.mpr (.inr ⟨rfl, Nat.le_refl _⟩)
  le_trans p q r hpq hqr := by
    rw [le_iff_toNat] at hpq hqr ⊢
    omega
  le_antisymm p q hpq hqp := by
    rw [le_iff_toNat] at hpq hqp
    apply eq_of_toNat_eq <;> omega
  le_total p q := by
    rw [le_iff_toNat, le_iff_toNat]
    omega
  toDecidableLE := inferInstance
  min_def := min_def
  max_def := max_def

end Position

namespace Span

/-! ## Covering -/

/-- A span covers another if it starts no later and stops no earlier. -/
def Covers (a b : Span) : Prop := a.start ≤ b.start ∧ b.stop ≤ a.stop

instance : DecidableRel Covers := fun a b => inferInstanceAs (Decidable (a.start ≤ b.start ∧ b.stop ≤ a.stop))

/-- Spans are ordered by being covered, and the merge is the join. -/
instance : SemilatticeSup Span where
  le a b := b.Covers a
  le_refl a := ⟨le_refl a.start, le_refl a.stop⟩
  le_trans a b c hab hbc := ⟨hbc.1.trans hab.1, hab.2.trans hbc.2⟩
  le_antisymm a b hab hba := by
    cases a
    cases b
    exact congrArg₂ Span.mk (le_antisymm hba.1 hab.1) (le_antisymm hab.2 hba.2)
  sup := merge
  le_sup_left a b := ⟨min_le_left a.start b.start, le_max_left a.stop b.stop⟩
  le_sup_right a b := ⟨min_le_right a.start b.start, le_max_right a.stop b.stop⟩
  sup_le a b c hac hbc := ⟨le_min hac.1 hbc.1, max_le hac.2 hbc.2⟩

theorem covers_merge_iff {a b c : Span} : c.Covers (a.merge b) ↔ c.Covers a ∧ c.Covers b :=
  (sup_le_iff : a ⊔ b ≤ c ↔ a ≤ c ∧ b ≤ c)

/-- A span is known by the spans that cover it. -/
theorem eq_of_covers_iff {a b : Span} (h : ∀ c : Span, c.Covers a ↔ c.Covers b) : a = b :=
  eq_of_forall_ge_iff h

/-! ## Merging many -/

/-- A way of merging spans two at a time. -/
inductive Grouping where
  | single (s : Span)
  | both (left right : Grouping)

namespace Grouping

/-- The spans that are merged, from left to right. -/
def spans : Grouping → List Span
  | single s => [s]
  | both left right => left.spans ++ right.spans

/-- What they are merged into. -/
def total : Grouping → Span
  | single s => s
  | both left right => left.total.merge right.total

/-- The grouping of a list from the left, the first span apart. -/
def fromLeft (first : Span) (rest : List Span) : Grouping := rest.foldl (fun g s => both g (single s)) (single first)

theorem foldl_both (g : Grouping) (rest : List Span) :
    (rest.foldl (fun g s => both g (single s)) g).spans = g.spans ++ rest ∧
      (rest.foldl (fun g s => both g (single s)) g).total = rest.foldl merge g.total := by
  induction rest generalizing g with
  | nil => exact ⟨(List.append_nil _).symm, rfl⟩
  | cons s rest ih =>
    obtain ⟨hspans, htotal⟩ := ih (both g (single s))
    rw [List.foldl_cons, List.foldl_cons, hspans, htotal, spans, spans, List.append_assoc]
    exact ⟨rfl, rfl⟩

theorem spans_fromLeft (first : Span) (rest : List Span) : (fromLeft first rest).spans = first :: rest :=
  (foldl_both (single first) rest).1

/-- Folding the merge over a list is merging it from the left. -/
theorem total_fromLeft (first : Span) (rest : List Span) : (fromLeft first rest).total = rest.foldl merge first :=
  (foldl_both (single first) rest).2

theorem covers_total_iff {c : Span} {g : Grouping} : c.Covers g.total ↔ ∀ s ∈ g.spans, c.Covers s := by
  induction g with
  | single s => rw [total, spans, List.forall_mem_singleton]
  | both left right ihl ihr => rw [total, spans, covers_merge_iff, ihl, ihr, List.forall_mem_append]

/-- The total depends only on which spans there are. -/
theorem total_eq_of_mem_iff {g h : Grouping} (hmem : ∀ s, s ∈ g.spans ↔ s ∈ h.spans) : g.total = h.total := by
  apply eq_of_covers_iff
  intro c
  rw [covers_total_iff, covers_total_iff]
  simp only [hmem]

/-- An end of the spans of two groups is an end of the spans of one of them. -/
theorem image_spans_both (f : Span → Position) (left right : Grouping) :
    f '' {s | s ∈ (both left right).spans} = f '' {s | s ∈ left.spans} ∪ f '' {s | s ∈ right.spans} := by
  rw [← Set.image_union]
  exact congrArg (Set.image f) (Set.ext fun _ => List.mem_append)

theorem isLeast_start_total (g : Grouping) : IsLeast (start '' {s | s ∈ g.spans}) g.total.start := by
  induction g with
  | single s => simp [spans, total]
  | both left right ihl ihr =>
    rw [image_spans_both]
    exact ihl.union ihr

theorem isGreatest_stop_total (g : Grouping) : IsGreatest (stop '' {s | s ∈ g.spans}) g.total.stop := by
  induction g with
  | single s => simp [spans, total]
  | both left right ihl ihr =>
    rw [image_spans_both]
    exact ihl.union ihr

theorem total_covers {g : Grouping} {s : Span} (hs : s ∈ g.spans) : g.total.Covers s :=
  covers_total_iff.mp (le_refl g.total) s hs

/-- Spans that do not stop before they start are merged into such a span. -/
theorem start_le_stop_total {g : Grouping} (h : ∀ s ∈ g.spans, s.start ≤ s.stop) : g.total.start ≤ g.total.stop := by
  obtain ⟨s, hs, -⟩ := g.isLeast_start_total.1
  have hcovers := total_covers hs
  exact hcovers.1.trans ((h s hs).trans hcovers.2)

/-- Such spans are merged into an empty one only if each of them is that empty span. -/
theorem eq_total_of_isEmpty {g : Grouping} (h : ∀ s ∈ g.spans, s.start ≤ s.stop) (hempty : g.total.isEmpty = true)
    {s : Span} (hs : s ∈ g.spans) : s = g.total := by
  have hsame : g.total.start = g.total.stop := by simpa [isEmpty] using hempty
  have hcovers := total_covers hs
  -- start and stop of `s` lie between the two ends of the total, which are the same position
  have hback : s.Covers g.total := ⟨(h s hs).trans (hcovers.2.trans hsame.ge), hsame.ge.trans (hcovers.1.trans (h s hs))⟩
  exact (le_antisymm hcovers hback : s = g.total)

end Grouping

/-- The merge of two spans is the least span that covers both, and merging is commutative, associative and idempotent.
So the merge of a list is the same for every way of ordering, grouping and repeating its spans. It starts where the first
of them starts and stops where the last of them stops. If none of them stops before it starts, neither does the merge,
which is then empty only if each of them is that same empty span. -/
theorem leastCover_merge :
    (∀ a b : Span, (a.merge b).Covers a ∧ (a.merge b).Covers b) ∧
    (∀ a b c : Span, c.Covers a → c.Covers b → c.Covers (a.merge b)) ∧
    (∀ a b : Span, a.merge b = b.merge a) ∧
    (∀ a b c : Span, (a.merge b).merge c = a.merge (b.merge c)) ∧
    (∀ a : Span, a.merge a = a) ∧
    (∀ (first : Span) (rest : List Span) (g : Grouping), (∀ s, s ∈ g.spans ↔ s ∈ first :: rest) →
      g.total = rest.foldl merge first) ∧
    ∀ (first : Span) (rest : List Span),
      IsLeast (start '' {s | s ∈ first :: rest}) (rest.foldl merge first).start ∧
      IsGreatest (stop '' {s | s ∈ first :: rest}) (rest.foldl merge first).stop ∧
      ((∀ s ∈ first :: rest, s.start ≤ s.stop) →
        (rest.foldl merge first).start ≤ (rest.foldl merge first).stop ∧
        ((rest.foldl merge first).isEmpty = true → ∀ s ∈ first :: rest, s = rest.foldl merge first)) := by
  refine ⟨fun a b => covers_merge_iff.mp (le_refl (a.merge b)), fun a b c ha hb => covers_merge_iff.mpr ⟨ha, hb⟩,
    fun a b => sup_comm a b, fun a b c => sup_assoc a b c, fun a => sup_idem a, fun first rest g hmem => ?_,
    fun first rest => ?_⟩
  · rw [← Grouping.total_fromLeft]
    apply Grouping.total_eq_of_mem_iff
    simpa only [Grouping.spans_fromLeft] using hmem
  · rw [← Grouping.total_fromLeft, ← Grouping.spans_fromLeft]
    exact ⟨Grouping.isLeast_start_total _, Grouping.isGreatest_stop_total _, fun h =>
      ⟨Grouping.start_le_stop_total h, fun hempty _ hs => Grouping.eq_total_of_isEmpty h hempty hs⟩⟩

/-- A span on the first line. -/
def onFirstLine : Span := ⟨⟨1, 5⟩, ⟨1, 10⟩⟩

/-- A span on the second line that lies further left. -/
def onSecondLine : Span := ⟨⟨2, 3⟩, ⟨2, 8⟩⟩

/-- The second of them twice, the first in between. -/
def aroundFirstLine : Grouping := .both (.single onSecondLine) (.both (.single onFirstLine) (.single onSecondLine))

/-- Over two lines the merge has the columns of its two ends, not the least and the greatest column of the spans. A point
merged with itself is that point. -/
theorem leastCover_merge_twoLines :
    (∀ s, s ∈ aroundFirstLine.spans ↔ s ∈ [onFirstLine, onSecondLine]) ∧
    aroundFirstLine.total = [onSecondLine].foldl merge onFirstLine ∧
    [onSecondLine].foldl merge onFirstLine = ⟨⟨1, 5⟩, ⟨2, 8⟩⟩ ∧
    (mk ⟨1, 5⟩ ⟨3, 0⟩).Covers onFirstLine ∧ (mk ⟨1, 5⟩ ⟨3, 0⟩).Covers onSecondLine ∧
    (mk ⟨1, 5⟩ ⟨3, 0⟩).Covers (onFirstLine.merge onSecondLine) ∧
    (∀ s ∈ [point ⟨2, 7⟩, point ⟨2, 7⟩], s.start ≤ s.stop) ∧
    ([point ⟨2, 7⟩].foldl merge (point ⟨2, 7⟩)).isEmpty = true ∧
    ∀ s ∈ [point ⟨2, 7⟩, point ⟨2, 7⟩], s = [point ⟨2, 7⟩].foldl merge (point ⟨2, 7⟩) := by
  obtain ⟨-, hleast, -, -, -, hfold, hends⟩ := leastCover_merge
  have hmem : ∀ s, s ∈ aroundFirstLine.spans ↔ s ∈ [onFirstLine, onSecondLine] := by
    intro s
    show s ∈ [onSecondLine, onFirstLine, onSecondLine] ↔ _
    simp only [List.mem_cons, List.not_mem_nil, or_false]
    tauto
  have hfirst : (mk ⟨1, 5⟩ ⟨3, 0⟩).Covers onFirstLine := by decide
  have hsecond : (mk ⟨1, 5⟩ ⟨3, 0⟩).Covers onSecondLine := by decide
  have hpoints : ∀ s ∈ [point ⟨2, 7⟩, point ⟨2, 7⟩], s.start ≤ s.stop := by decide
  have hempty : ([point ⟨2, 7⟩].foldl merge (point ⟨2, 7⟩)).isEmpty = true := by decide
  obtain ⟨-, -, hordered⟩ := hends (point ⟨2, 7⟩) [point ⟨2, 7⟩]
  exact ⟨hmem, hfold _ _ _ hmem, by decide, hfirst, hsecond, hleast _ _ _ hfirst hsecond, hpoints, hempty,
    (hordered hpoints).2 hempty⟩

end Span

end TemplatePrep

import TemplatePrep.Pass.Trace
import Mathlib.Data.List.Lex
import Mathlib.Data.List.Sort
import Mathlib.Data.Prod.Lex

/-!
# When things happen

The time of an event can be read off its origin. Seen from one node, everything under it and around it happens in a
fixed order: its visit begins, its chain runs, its children are walked, its visit is over, the nodes asked for in front
of it follow in the order of the requests, and those asked for behind it in the reverse order. `Step.rank` and
`Event.stage` are the numbers of this order. The moment of an event lists them along its origin, and of two moments the
earlier is the one that comes first in the lexicographic order.

A list of events is chronological if each event is followed by later ones only. In such a list no event occurs twice,
and which of two events comes first is decided by their moments alone.
-/

namespace TemplatePrep

/-- The time of an event: where it falls in the order around each node on its way from the root. -/
abbrev Moment := List (ℕ ×ₗ ℤ)

/-- Where what a step leads to falls in the order around a node. -/
def Step.rank : Step → ℕ ×ₗ ℤ
  | code => toLex (3, 0)
  | child i => toLex (4, i)
  | before j => toLex (6, j)
  | after j => toLex (7, -j)

/-- Where an event on a node falls in the order around it. -/
def Event.stage : Event → ℕ ×ₗ ℤ
  | enter _ _ => toLex (0, 0)
  | ran _ _ => toLex (1, 0)
  | walk _ _ => toLex (2, 0)
  | leave _ _ => toLex (5, 0)

/-- The time at which a node comes into play. -/
def Origin.moment (o : Origin) : Moment := o.map Step.rank

/-- The time of an event. -/
def Event.moment (e : Event) : Moment := e.origin.moment ++ [e.stage]

/-! ## Ranks -/

theorem Step.rank_lt_leave {s : Step} (h : s.isInner = true) : s.rank < toLex (5, 0) := by
  cases s with
  | code | child => simp [rank, Prod.Lex.toLex_lt_toLex]
  | before | after => simp [isInner] at h

theorem Step.leave_lt_rank {s : Step} (h : s.isInner = false) : toLex (5, 0) < s.rank := by
  cases s with
  | code | child => simp [isInner] at h
  | before | after => simp [rank, Prod.Lex.toLex_lt_toLex]

theorem Step.rank_child_lt {i j : Nat} : (child i).rank < (child j).rank ↔ i < j := by
  simp [rank, Prod.Lex.toLex_lt_toLex]

theorem Step.rank_before_lt {i j : Nat} : (before i).rank < (before j).rank ↔ i < j := by
  simp [rank, Prod.Lex.toLex_lt_toLex]

theorem Step.rank_after_lt {i j : Nat} : (after i).rank < (after j).rank ↔ j < i := by
  simp [rank, Prod.Lex.toLex_lt_toLex]

theorem Step.rank_before_lt_after (i j : Nat) : (before i).rank < (after j).rank := by
  simp [rank, Prod.Lex.toLex_lt_toLex]

theorem Step.enter_lt_rank (s : Step) : toLex (0, 0) < s.rank := by
  cases s <;> simp [rank, Prod.Lex.toLex_lt_toLex]

theorem Step.ran_lt_rank (s : Step) : toLex (1, 0) < s.rank := by
  cases s <;> simp [rank, Prod.Lex.toLex_lt_toLex]

theorem Event.stage_le_leave (e : Event) : e.stage ≤ toLex (5, 0) := by
  cases e <;> simp [stage, Prod.Lex.toLex_le_toLex]

/-! ## Events around a node -/

namespace Event

/-- `e.At o k`: seen from the node at `o`, the event falls on `k` in the order around that node. -/
def At (e : Event) (o : Origin) (k : ℕ ×ₗ ℤ) : Prop := ∃ rest, e.moment = o.moment ++ k :: rest

theorem at_stage (e : Event) : e.At e.origin e.stage := ⟨[], rfl⟩

theorem at_rank_of_isPrefix {e : Event} {o : Origin} {s : Step} (h : o ++ [s] <+: e.origin) : e.At o s.rank := by
  obtain ⟨rest, h⟩ := h
  refine ⟨rest.map Step.rank ++ [e.stage], ?_⟩
  rw [moment, ← h, Origin.moment, Origin.moment, List.map_append, List.map_append, List.append_assoc, List.append_assoc]
  rfl

/-- Of two events around a node the one that falls on the smaller number is earlier. -/
theorem At.moment_lt {e f : Event} {o : Origin} {k l : ℕ ×ₗ ℤ} (he : e.At o k) (hf : f.At o l) (h : k < l) :
    e.moment < f.moment := by
  obtain ⟨r, he⟩ := he
  obtain ⟨u, hf⟩ := hf
  rw [he, hf]
  exact List.append_left_lt (List.cons_lt_cons_iff.mpr (.inl h))

/-- Whatever happens on a node or inside of it happens by the end of its visit. -/
theorem exists_at_of_holds {e : Event} {o : Origin} (h : o.Holds e.origin) : ∃ k, e.At o k ∧ k ≤ toLex (5, 0) := by
  rcases h with rfl | ⟨s, rest, hs, h⟩
  · exact ⟨e.stage, e.at_stage, e.stage_le_leave⟩
  · refine ⟨s.rank, at_rank_of_isPrefix ⟨rest, ?_⟩, (Step.rank_lt_leave hs).le⟩
    rw [h, List.append_assoc, List.singleton_append]

end Event

/-! ## Earlier nodes -/

namespace Origin

/-- Whatever happens on the first node and under it is over when the second comes into play: on their way from the root
the two part at some node, and the first goes on with the step of smaller rank. -/
def Earlier (a b : Origin) : Prop := ∃ base x y, x.rank < y.rank ∧ base ++ [x] <+: a ∧ base ++ [y] <+: b

theorem Earlier.of_rank_lt (o : Origin) {x y : Step} (h : x.rank < y.rank) : Earlier (o ++ [x]) (o ++ [y]) :=
  ⟨o, x, y, h, List.prefix_refl _, List.prefix_refl _⟩

/-- What is under an earlier node is earlier. -/
theorem Earlier.of_isPrefix {a b c d : Origin} (h : Earlier a b) (hac : a <+: c) (hbd : b <+: d) : Earlier c d := by
  obtain ⟨base, x, y, hxy, hx, hy⟩ := h
  exact ⟨base, x, y, hxy, hx.trans hac, hy.trans hbd⟩

theorem Earlier.moment_lt {a b : Origin} {e f : Event} (h : Earlier a b) (he : a <+: e.origin) (hf : b <+: f.origin) :
    e.moment < f.moment := by
  obtain ⟨base, x, y, hxy, hx, hy⟩ := h.of_isPrefix he hf
  exact (Event.at_rank_of_isPrefix hx).moment_lt (Event.at_rank_of_isPrefix hy) hxy

end Origin

theorem pairwise_arrivals {r : Arrival → Arrival → Prop} {o : Origin} {step : Nat → Step} (ns : List Node)
    (h : ∀ i j m n, i < j → r ⟨o ++ [step i], m⟩ ⟨o ++ [step j], n⟩) : (arrivals o step ns).Pairwise r := by
  rw [List.pairwise_iff_getElem]
  intro i j hi hj hij
  simp only [arrivals, List.getElem_mapIdx]
  exact h i j _ _ hij

/-- The time at which the visit of a node begins, if it is visited. -/
def Arrival.moment (a : Arrival) : Moment := a.origin.moment ++ [toLex (0, 0)]

/-- One arrival is over before another comes into play. -/
def Arrival.Earlier (a b : Arrival) : Prop := Origin.Earlier a.origin b.origin

theorem earlier_arrivals_child (o : Origin) (ns : List Node) : (arrivals o .child ns).Pairwise Arrival.Earlier :=
  pairwise_arrivals ns fun _ _ _ _ h => Origin.Earlier.of_rank_lt o (Step.rank_child_lt.mpr h)

theorem earlier_arrivals_before (o : Origin) (ns : List Node) : (arrivals o .before ns).Pairwise Arrival.Earlier :=
  pairwise_arrivals ns fun _ _ _ _ h => Origin.Earlier.of_rank_lt o (Step.rank_before_lt.mpr h)

theorem earlier_arrivals_after (o : Origin) (ns : List Node) :
    (arrivals o .after ns).reverse.Pairwise Arrival.Earlier := by
  rw [List.pairwise_reverse]
  exact pairwise_arrivals ns fun _ _ _ _ h => Origin.Earlier.of_rank_lt o (Step.rank_after_lt.mpr h)

theorem Arrival.Earlier.moment_lt {a b : Arrival} (h : a.Earlier b) : a.moment < b.moment :=
  Origin.Earlier.moment_lt (e := .enter a .root) (f := .enter b .root) h (List.prefix_refl _) (List.prefix_refl _)

/-- The nodes asked for behind the first of some siblings come into play before the others. -/
theorem earlier_ahead {a : Arrival} {rest : List Arrival} (h : (a :: rest).Pairwise Arrival.Earlier) (ns : List Node) :
    ((arrivals a.origin .after ns).reverse ++ rest).Pairwise Arrival.Earlier := by
  rw [List.pairwise_cons] at h
  obtain ⟨hfirst, hrest⟩ := h
  refine List.pairwise_append.mpr ⟨earlier_arrivals_after a.origin ns, hrest, ?_⟩
  intro c hc d hd
  obtain ⟨j, _, rfl⟩ := mem_arrivals.mp (List.mem_reverse.mp hc)
  exact (hfirst d hd).of_isPrefix (List.prefix_append _ _) (List.prefix_refl _)

/-! ## Chronological events -/

section Increasing

variable {α β : Type} [LinearOrder β] {f : α → β}

/-- Elements with increasing times are told apart by their times. -/
theorem eq_of_increasing {l : List α} (h : l.Pairwise fun a b => f a < f b) {a b : α} (ha : a ∈ l) (hb : b ∈ l)
    (heq : f a = f b) : a = b := by
  induction l with
  | nil => exact absurd ha List.not_mem_nil
  | cons c l ih =>
    obtain ⟨hfirst, hrest⟩ := List.pairwise_cons.mp h
    rcases List.mem_cons.mp ha with rfl | ha'
    · rcases List.mem_cons.mp hb with rfl | hb'
      · rfl
      · exact absurd heq (hfirst b hb').ne
    · rcases List.mem_cons.mp hb with rfl | hb'
      · exact absurd heq.symm (hfirst a ha').ne
      · exact ih hrest ha' hb'

theorem nodup_of_increasing {l : List α} (h : l.Pairwise fun a b => f a < f b) : l.Nodup := by
  refine h.imp ?_
  intro a b hlt heq
  rw [heq] at hlt
  exact lt_irrefl (f b) hlt

/-- Elements that are themselves in order of time stand among the others in this order. -/
theorem sublist_of_increasing {l part : List α} (h : l.Pairwise fun a b => f a < f b)
    (hpart : part.Pairwise fun a b => f a < f b) (hmem : ∀ a ∈ part, a ∈ l) : part.Sublist l := by
  -- the part is contained in the list up to order, and both have the same order
  have hperm : part.Subperm l := List.subperm_of_subset (nodup_of_increasing hpart) hmem
  have : Std.Antisymm fun a b : α => f a < f b := ⟨fun _ _ hab hba => absurd hba hab.asymm⟩
  exact List.sublist_of_subperm_of_pairwise hperm hpart h

end Increasing

/-- Every event is followed by later ones only. -/
def Chronological (events : List Event) : Prop := events.Pairwise fun e f => e.moment < f.moment

/-- `Precedes events e f`: among the events one stands before the other. -/
def Precedes (events : List Event) (e f : Event) : Prop := [e, f].Sublist events

theorem Chronological.precedes {events : List Event} (h : Chronological events) {e f : Event} (he : e ∈ events)
    (hf : f ∈ events) (hef : e.moment < f.moment) : Precedes events e f := by
  apply sublist_of_increasing h
  · exact List.pairwise_pair.mpr hef
  · simp [he, hf]

/-- The chain of a node runs once, and asks for one thing. -/
theorem Chronological.ran_unique {events : List Event} (h : Chronological events) {o : Origin} {edits asked : Edits}
    (hran : .ran o edits ∈ events) (hasked : .ran o asked ∈ events) : edits = asked :=
  (Event.ran.inj (eq_of_increasing h hran hasked rfl)).2

/-- Nodes are visited in the order in which they come into play. -/
theorem Chronological.visited_increasing {events : List Event} (h : Chronological events) :
    (visited events).Pairwise fun a b => a.moment < b.moment := by
  rw [visited, List.pairwise_filterMap]
  refine h.imp ?_
  intro e f hef a ha b hb
  cases e with
  | enter =>
    cases f with
    | enter =>
      cases ha
      cases hb
      exact hef
    | ran | walk | leave => simp [Event.visited?] at hb
  | ran | walk | leave => simp [Event.visited?] at ha

end TemplatePrep

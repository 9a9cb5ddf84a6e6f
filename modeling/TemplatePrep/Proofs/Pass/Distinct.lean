import TemplatePrep.Proofs.Pass.Moment
import TemplatePrep.Proofs.Pass.TraceInduction

/-!
# Nodes of a tree have different origins

The trees that a pass leaves hold no two nodes of the same origin. So an origin names at most one node of the final
tree, and what is said about a container at some point of the pass is about that node.
-/

namespace TemplatePrep

/-- `In trees x`: the node stands in one of the trees. -/
def Tracked.In (trees : List Tracked) (x : Tracked) : Prop := ∃ m ∈ trees, m.Holds x

/-- No two nodes in the trees have the same origin. -/
def Tracked.Distinct (trees : List Tracked) : Prop :=
  ∀ x y, In trees x → In trees y → x.origin = y.origin → x = y

namespace Tracked

theorem in_append {trees others : List Tracked} {x : Tracked} : In (trees ++ others) x ↔ In trees x ∨ In others x := by
  simp only [In, List.mem_append, or_and_right, exists_or]

theorem in_singleton {m x : Tracked} : In [m] x ↔ x = m ∨ In m.children x := by
  simp only [In, List.mem_singleton, exists_eq_left]
  exact holds_iff

theorem in_map_fresh {as : List Arrival} {x : Tracked} : In (as.map .fresh) x ↔ ∃ a ∈ as, x = .fresh a := by
  constructor
  · rintro ⟨m, hm, hx⟩
    obtain ⟨a, ha, rfl⟩ := List.mem_map.mp hm
    rcases holds_iff.mp hx with rfl | ⟨c, hc, -⟩
    · exact ⟨a, ha, rfl⟩
    · exact absurd hc List.not_mem_nil
  · rintro ⟨a, ha, rfl⟩
    exact ⟨.fresh a, List.mem_map_of_mem ha, Holds.self⟩

theorem not_in_nil (x : Tracked) : ¬ In [] x := by
  rintro ⟨m, hm, -⟩
  exact List.not_mem_nil hm

theorem distinct_nil : Distinct [] := fun x _ hx => absurd hx (not_in_nil x)

theorem Distinct.append {trees others : List Tracked} (h : Distinct trees) (hothers : Distinct others)
    (hne : ∀ x y, In trees x → In others y → x.origin ≠ y.origin) : Distinct (trees ++ others) := by
  intro x y hx hy heq
  rcases in_append.mp hx with hx | hx
  · rcases in_append.mp hy with hy | hy
    · exact h x y hx hy heq
    · exact absurd heq (hne x y hx hy)
  · rcases in_append.mp hy with hy | hy
    · exact absurd heq.symm (hne y x hy hx)
    · exact hothers x y hx hy heq

theorem Distinct.of_append_left {trees others : List Tracked} (h : Distinct (trees ++ others)) : Distinct trees :=
  fun x y hx hy => h x y (in_append.mpr (.inl hx)) (in_append.mpr (.inl hy))

/-- A node is told apart from what is inside of it, where all of that has other origins. -/
theorem Distinct.singleton {m : Tracked} (h : Distinct m.children) (hne : ∀ x, In m.children x → x.origin ≠ m.origin) :
    Distinct [m] := by
  intro x y hx hy heq
  rcases in_singleton.mp hx with rfl | hx
  · rcases in_singleton.mp hy with rfl | hy
    · rfl
    · exact absurd heq.symm (hne y hy)
  · rcases in_singleton.mp hy with rfl | hy
    · exact absurd heq (hne x hx)
    · exact h x y hx hy heq

end Tracked

/-- The step after which a node and one that has come from it part is the same for both. -/
theorem Origin.eq_of_concat_isPrefix {o rest : Origin} {s t : Step} (h : o ++ [t] <+: o ++ s :: rest) : t = s := by
  rw [List.prefix_append_right_inj, List.singleton_prefix_cons_iff] at h
  exact h

/-- Nothing has come from two nodes of which one is earlier. -/
theorem Origin.Earlier.not_isPrefix {a b x : Origin} (h : Earlier a b) (ha : a <+: x) : ¬ b <+: x := by
  intro hb
  exact lt_irrefl _ (h.moment_lt (e := .walk x []) (f := .walk x []) ha hb)

namespace Trace

open Tracked

variable {σ : Type}

/-- What a visit leaves: the node and, one step further in at least, nodes of different origins. -/
structure VisitDistinct (a : Arrival) (m : Tracked) : Prop where
  origin_eq : m.origin = a.origin
  inside : ∀ x, In m.children x → ∃ s rest, s.isInner = true ∧ x.origin = a.origin ++ s :: rest
  distinct : Distinct m.children

/-- What a settled child leaves: nodes of different origins, in its stead none asked for behind it. -/
structure SettledDistinct (a : Arrival) (b : Settled σ) : Prop where
  below : ∀ x, In b.block x → a.origin <+: x.origin
  not_after : ∀ x, In b.placed x → ∀ k, ¬ a.origin ++ [.after k] <+: x.origin
  distinct : Distinct b.block

/-- What a settled queue leaves: nodes that have come from the queue, of different origins. -/
structure QueueDistinct (queue : List Arrival) (nodes : List Tracked) : Prop where
  below : ∀ x, In nodes x → ∃ a ∈ queue, a.origin <+: x.origin
  distinct : queue.Pairwise Arrival.Earlier → Distinct nodes

theorem VisitDistinct.singleton {a : Arrival} {m : Tracked} (h : VisitDistinct a m) : Distinct [m] := by
  refine h.distinct.singleton ?_
  intro x hx heq
  obtain ⟨s, rest, -, horigin⟩ := h.inside x hx
  rw [heq, h.origin_eq] at horigin
  simp at horigin

theorem distinct_map_fresh {as : List Arrival} (h : as.Pairwise Arrival.Earlier) : Distinct (as.map .fresh) := by
  induction as with
  | nil => exact distinct_nil
  | cons a rest ih =>
    obtain ⟨hfirst, hrest⟩ := List.pairwise_cons.mp h
    rw [List.map_cons, ← List.singleton_append]
    have ha : Distinct [.fresh a] := Distinct.singleton distinct_nil fun x hx => absurd hx (not_in_nil x)
    refine ha.append (ih hrest) ?_
    intro x y hx hy heq
    obtain rfl := (in_singleton.mp hx).resolve_right (not_in_nil x)
    obtain ⟨b, hb, rfl⟩ := in_map_fresh.mp hy
    have hle : a.origin <+: b.origin := ⟨[], (List.append_nil _).trans heq⟩
    exact (hfirst b hb).not_isPrefix hle (List.prefix_refl _)

/-- What a queue of nodes asked for in front of one leaves has come from there. -/
theorem QueueDistinct.exists_origin_eq {o : Origin} {ns : List Node} {nodes : List Tracked}
    (h : QueueDistinct (arrivals o .before ns) nodes) {x : Tracked} (hx : In nodes x) :
    ∃ j rest, x.origin = o ++ .before j :: rest := by
  obtain ⟨c, hc, rest, horigin⟩ := h.below x hx
  obtain ⟨j, hj⟩ := exists_origin_eq_of_mem_arrivals hc
  exact ⟨j, rest, by rw [← horigin, hj, List.append_assoc, List.singleton_append]⟩

theorem exists_origin_eq_of_ahead {o : Origin} {ns : List Node} {x : Tracked}
    (hx : In ((arrivals o .after ns).reverse.map .fresh) x) : ∃ k, x.origin = o ++ [.after k] := by
  obtain ⟨c, hc, rfl⟩ := in_map_fresh.mp hx
  exact exists_origin_eq_of_mem_arrivals (List.mem_reverse.mp hc)

theorem VisitDistinct.holds {a : Arrival} {v : Visited σ} (h : VisitDistinct a v.node) {x : Tracked} (hx : In v.kept x) :
    a.origin.Holds x.origin := by
  obtain ⟨m, hm, hx⟩ := hx
  unfold Visited.kept at hm
  split at hm
  · exact absurd hm List.not_mem_nil
  · rw [List.mem_singleton.mp hm] at hx
    rcases in_singleton.mp ⟨v.node, List.mem_singleton_self _, hx⟩ with rfl | hx
    · exact .inl h.origin_eq
    · exact .inr (h.inside x hx)

theorem VisitDistinct.kept {a : Arrival} {v : Visited σ} (h : VisitDistinct a v.node) : Distinct v.kept := by
  unfold Visited.kept
  split
  · exact distinct_nil
  · exact h.singleton

/-- What stands in the stead of a settled child has come from nodes asked for in front of it, or it is the child itself
or inside of it. -/
theorem VisitDistinct.placed {a : Arrival} {v : Visited σ} {nodes : List Tracked} (hv : VisitDistinct a v.node)
    (hq : QueueDistinct (arrivals a.origin .before v.edits.before) nodes) :
    (∀ x, In (nodes ++ v.kept) x → a.origin <+: x.origin ∧ ∀ k, ¬ a.origin ++ [.after k] <+: x.origin) ∧
      Distinct (nodes ++ v.kept) := by
  constructor
  · intro x hx
    rcases in_append.mp hx with hx | hx
    · obtain ⟨j, rest, horigin⟩ := hq.exists_origin_eq hx
      refine ⟨⟨_, horigin.symm⟩, fun k hle => ?_⟩
      rw [horigin] at hle
      exact absurd (Origin.eq_of_concat_isPrefix hle) Step.noConfusion
    · refine ⟨(hv.holds hx).isPrefix, fun k hle => ?_⟩
      rcases hv.holds hx with horigin | ⟨s, rest, hs, horigin⟩
      · have hlength := hle.length_le
        rw [horigin, List.length_append, List.length_singleton] at hlength
        omega
      · rw [horigin] at hle
        rw [← Origin.eq_of_concat_isPrefix hle] at hs
        exact absurd hs Bool.noConfusion
  · refine (hq.distinct (earlier_arrivals_before a.origin v.edits.before)).append hv.kept ?_
    intro x y hx hy heq
    obtain ⟨j, rest, horigin⟩ := hq.exists_origin_eq hx
    rw [heq] at horigin
    rcases hv.holds hy with hy | ⟨s, more, hs, hy⟩
    · rw [hy] at horigin
      simp at horigin
    · rw [hy, List.append_cancel_left_eq] at horigin
      rw [(List.cons.inj horigin).1] at hs
      exact absurd hs Bool.noConfusion

theorem VisitDistinct.settled {a : Arrival} {v : Visited σ} {q : Swept σ} (hv : VisitDistinct a v.node)
    (hq : QueueDistinct (arrivals a.origin .before v.edits.before) q.nodes) :
    SettledDistinct a (v.settled a.origin q) := by
  obtain ⟨hplaced, hdistinct⟩ := hv.placed hq
  refine ⟨?_, fun x hx => (hplaced x hx).2, ?_⟩
  · intro x hx
    rcases in_append.mp hx with hx | hx
    · exact (hplaced x hx).1
    · obtain ⟨k, horigin⟩ := exists_origin_eq_of_ahead hx
      exact ⟨_, horigin.symm⟩
  · refine hdistinct.append (distinct_map_fresh (earlier_arrivals_after a.origin v.edits.after)) ?_
    intro x y hx hy heq
    obtain ⟨k, horigin⟩ := exists_origin_eq_of_ahead hy
    exact (hplaced x hx).2 k ⟨[], by rw [List.append_nil, heq, horigin]⟩

/-- What is left of a walk: what was settled before, and what has come from the siblings that were ahead. -/
structure SweepDistinct (settled : List Tracked) (rest : List Arrival) (nodes : List Tracked) : Prop where
  below : ∀ x, In nodes x → In settled x ∨ ∃ a ∈ rest, a.origin <+: x.origin
  distinct : Distinct settled → rest.Pairwise Arrival.Earlier →
    (∀ x, In settled x → ∀ a ∈ rest, ¬ a.origin <+: x.origin) → Distinct nodes

theorem SettledDistinct.sweep {settled : List Tracked} {a : Arrival} {rest : List Arrival} {b : Settled σ}
    {nodes : List Tracked} (hb : SettledDistinct a b) (ns : List Node)
    (hahead : b.ahead = (arrivals a.origin .after ns).reverse)
    (hw : SweepDistinct (settled ++ b.placed) (b.ahead ++ rest) nodes) : SweepDistinct settled (a :: rest) nodes := by
  have hafter : ∀ c ∈ b.ahead, ∃ k, c.origin = a.origin ++ [.after k] := by
    intro c hc
    rw [hahead, List.mem_reverse] at hc
    exact exists_origin_eq_of_mem_arrivals hc
  have hplaced : ∀ x, In b.placed x → a.origin <+: x.origin := fun x hx => hb.below x (in_append.mpr (.inl hx))
  constructor
  · intro x hx
    rcases hw.below x hx with hx | ⟨c, hc, hle⟩
    · rcases in_append.mp hx with hx | hx
      · exact .inl hx
      · exact .inr ⟨a, List.mem_cons_self, hplaced x hx⟩
    · rcases List.mem_append.mp hc with hc | hc
      · obtain ⟨k, hk⟩ := hafter c hc
        rw [hk] at hle
        exact .inr ⟨a, List.mem_cons_self, (List.prefix_append _ _).trans hle⟩
      · exact .inr ⟨c, List.mem_cons_of_mem a hc, hle⟩
  · intro hsettled hrest hapart
    have hearlier := (List.pairwise_cons.mp hrest).1
    refine hw.distinct ?_ ?_ ?_
    · refine hsettled.append hb.distinct.of_append_left ?_
      intro x y hx hy heq
      apply hapart x hx a List.mem_cons_self
      rw [heq]
      exact hplaced y hy
    · rw [hahead]
      exact earlier_ahead hrest ns
    · intro x hx c hc hle
      rcases in_append.mp hx with hx | hx
      · rcases List.mem_append.mp hc with hc | hc
        · obtain ⟨k, hk⟩ := hafter c hc
          rw [hk] at hle
          exact hapart x hx a List.mem_cons_self ((List.prefix_append _ _).trans hle)
        · exact hapart x hx c (List.mem_cons_of_mem a hc) hle
      · rcases List.mem_append.mp hc with hc | hc
        · obtain ⟨k, hk⟩ := hafter c hc
          rw [hk] at hle
          exact hb.not_after x hx k hle
        · exact (hearlier c hc).not_isPrefix (hplaced x hx) hle

/-- The trees of the traced pass hold nodes of different origins. -/
theorem preserved_distinct (rules : RuleSet σ) : Preserved rules (fun _ _ a _ v => VisitDistinct a v.node)
    (fun _ a _ b => SettledDistinct a b) (fun _ _ _ queue _ q => QueueDistinct queue q.nodes)
    (fun _ settled rest _ w => SweepDistinct settled rest w.nodes) where
  still _ := ⟨rfl, fun x hx => absurd hx (not_in_nil x), distinct_nil⟩
  insert {_ _ a _ _ _ span v} _ _ h := by
    refine ⟨Tracked.origin_withCode _ _ _, ?_, ?_⟩
    · intro x hx
      rw [Tracked.children_withCode] at hx
      obtain ⟨s, rest, -, horigin⟩ := h.inside x hx
      refine ⟨.code, s :: rest, rfl, ?_⟩
      rw [horigin, List.append_assoc, List.singleton_append]
    · rw [Tracked.children_withCode]
      exact h.distinct
  branch {_ _ a _ _ children _ w} _ _ _ h := by
    refine ⟨rfl, ?_, ?_⟩
    · intro x hx
      rcases h.below x hx with hx | ⟨c, hc, rest, horigin⟩
      · exact absurd hx (not_in_nil x)
      · obtain ⟨i, hi⟩ := exists_origin_eq_of_mem_arrivals hc
        refine ⟨.child i, rest, rfl, ?_⟩
        rw [← horigin, hi, List.append_assoc, List.singleton_append]
    · refine h.distinct distinct_nil (earlier_arrivals_child a.origin children) ?_
      exact fun x hx => absurd hx (not_in_nil x)
  settled hv hq := hv.settled hq
  queue_nil := ⟨fun x hx => absurd hx (not_in_nil x), fun _ => distinct_nil⟩
  queue_cons {_ _ _ a queue _ b q} hb hq := by
    constructor
    · intro x hx
      rcases in_append.mp hx with hx | hx
      · exact ⟨a, List.mem_cons_self, hb.below x hx⟩
      · obtain ⟨c, hc, hle⟩ := hq.below x hx
        exact ⟨c, List.mem_cons_of_mem a hc, hle⟩
    · intro hqueue
      obtain ⟨hfirst, hrest⟩ := List.pairwise_cons.mp hqueue
      refine hb.distinct.append (hq.distinct hrest) ?_
      intro x y hx hy heq
      obtain ⟨c, hc, hle⟩ := hq.below y hy
      rw [← heq] at hle
      exact (hfirst c hc).not_isPrefix (hb.below x hx) hle
  sweep_nil := ⟨fun x hx => .inl hx, fun h _ _ => h⟩
  sweep_cons ns hahead hb hw := hb.sweep ns hahead hw

end Trace

end TemplatePrep

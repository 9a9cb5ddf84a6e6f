import TemplatePrep.Proofs.Pass.Moment
import TemplatePrep.Proofs.Pass.TraceInduction

/-!
# Who stands where

When the visit of a child begins, the siblings behind it are of two sorts. If a walk has come to the child, they are all
yet to be visited. If the child was asked for in front of another node, then that node stands behind it and has been
visited, perhaps with others that it was itself asked for in front of; the siblings behind these are yet to be visited.
No event is about a node that a walk has passed over, and the tree holds nothing but what has come from its root.
-/

namespace TemplatePrep

/-- Whether the node has come from one that was asked for behind a node asked for in front of another. -/
def Origin.IsSkipped (o : Origin) : Prop := ∃ x j k rest, o = x ++ .before j :: .after k :: rest

/-- `o.Faces x`: seen from the node at `o`, the other stands behind it. It comes into play later, unless the first was
asked for in front of it. -/
def Origin.Faces (o x : Origin) : Prop :=
  Origin.Earlier o x ∨ o.isBefore = true ∧ ∃ s rest, o = x ++ s :: rest

/-- What the place of a visit and the origin of an event satisfy. -/
def Event.WellPlaced (e : Event) : Prop :=
  ¬ e.origin.IsSkipped ∧
    ∀ a place, e = .enter a place → a.origin.isCode = false → ∀ m ∈ place.after, a.origin.Faces m.origin

theorem Origin.IsSkipped.of_concat {o : Origin} {s : Step} (h : Origin.IsSkipped (o ++ [s])) :
    o.IsSkipped ∨ o.isBefore = true ∧ ∃ k, s = .after k := by
  obtain ⟨x, j, k, rest, h⟩ := h
  rcases List.eq_nil_or_concat rest with rfl | ⟨rest, t, rfl⟩
  · have hsplit : o ++ [s] = (x ++ [.before j]) ++ [.after k] := by
      rw [h, List.append_assoc, List.singleton_append]
    obtain ⟨rfl, hs⟩ := List.append_inj' hsplit rfl
    exact .inr ⟨Origin.isBefore_concat x (.before j), k, List.singleton_inj.mp hs⟩
  · have hsplit : o ++ [s] = (x ++ .before j :: .after k :: rest) ++ [t] := by
      rw [h, List.append_assoc, List.concat_eq_append]
      rfl
    obtain ⟨rfl, -⟩ := List.append_inj' hsplit rfl
    exact .inl ⟨x, j, k, rest, rfl⟩

theorem Origin.not_isSkipped_concat {o : Origin} (h : ¬ o.IsSkipped) {s : Step}
    (hs : o.isBefore = false ∨ ∀ k, s ≠ .after k) : ¬ Origin.IsSkipped (o ++ [s]) := by
  intro hskipped
  rcases hskipped.of_concat with ho | ⟨hbefore, k, hk⟩
  · exact h ho
  · rcases hs with hs | hs
    · exact absurd (hs.symm.trans hbefore) Bool.false_ne_true
    · exact hs k hk

/-- No event is about what was asked for behind a node asked for in front of another, or about anything inside of it. -/
theorem Event.WellPlaced.not_isPrefix {e : Event} (h : e.WellPlaced) {o : Origin} (ho : o.isBefore = true) (k : Nat) :
    ¬ o ++ [.after k] <+: e.origin := by
  rintro ⟨rest, hrest⟩
  obtain ⟨x, j, rfl⟩ := Origin.exists_eq_of_isBefore ho
  apply h.1
  refine ⟨x, j, k, rest, ?_⟩
  rw [← hrest, List.append_assoc, List.append_assoc]
  rfl

/-- A node asked for in front of another faces that node and all that the other faces. -/
theorem Origin.Faces.before {o x : Origin} (h : o.Faces x) (j : Nat) : Origin.Faces (o ++ [.before j]) x := by
  rcases h with h | ⟨-, s, rest, rfl⟩
  · exact .inl (h.of_isPrefix (List.prefix_append _ _) (List.prefix_refl x))
  · refine .inr ⟨Origin.isBefore_concat _ _, s, rest ++ [.before j], ?_⟩
    rw [List.append_assoc, List.cons_append]

namespace Trace

variable {σ : Type}

/-- A node whose siblings behind it are as they should be and that a walk does not pass over. -/
structure Enters (a : Arrival) (after : List Tracked) : Prop where
  isCode : a.origin.isCode = false
  not_isSkipped : ¬ a.origin.IsSkipped
  faces : ∀ m ∈ after, a.origin.Faces m.origin

theorem wellPlaced_of_origin_eq {o : Origin} {e : Event} (ho : ¬ o.IsSkipped) (he : e.origin = o)
    (henter : ∀ a place, e ≠ .enter a place) : e.WellPlaced := by
  refine ⟨?_, fun a place h => absurd h (henter a place)⟩
  rwa [he]

theorem wellPlaced_opening {a : Arrival} {place : Tracked.Place} {edits : Edits} (ha : ¬ a.origin.IsSkipped)
    (hfaces : a.origin.isCode = false → ∀ m ∈ place.after, a.origin.Faces m.origin) {later : List Event}
    (hlater : ∀ e ∈ later, e.WellPlaced) : ∀ e ∈ opening a place edits ++ later, e.WellPlaced := by
  intro e he
  rcases List.mem_cons.mp he with rfl | he
  · refine ⟨ha, ?_⟩
    rintro b place' h
    cases h
    exact hfaces
  · rcases List.mem_cons.mp he with rfl | he
    · exact wellPlaced_of_origin_eq ha rfl (by simp)
    · exact hlater e he

/-- The traced pass comes to nodes in their places only. -/
theorem preserved_wellPlaced (rules : RuleSet σ) : Preserved rules
    (fun place _ a _ v => v.node.origin = a.origin ∧
      (¬ a.origin.IsSkipped → (a.origin.isCode = false → ∀ m ∈ place.after, a.origin.Faces m.origin) →
        ∀ e ∈ v.events, e.WellPlaced))
    (fun place a _ b => Enters a place.after → ∀ e ∈ b.events, e.WellPlaced)
    (fun _ _ after queue _ q => (∀ a ∈ queue, Enters a after) → ∀ e ∈ q.events, e.WellPlaced)
    (fun _ _ rest _ w => rest.Pairwise Arrival.Earlier →
      (∀ a ∈ rest, a.origin.isCode = false ∧ ¬ a.origin.IsSkipped ∧ a.origin.isBefore = false) →
      ∀ e ∈ w.events, e.WellPlaced) where
  still _ := ⟨rfl, fun ha hfaces => by
    simpa using wellPlaced_opening ha hfaces (List.forall_mem_nil _)⟩
  insert {_ _ a _ _ _ _ _} _ _ h := by
    refine ⟨Tracked.origin_withCode _ _ _, fun ha hfaces => wellPlaced_opening ha hfaces (h.2 ?_ ?_)⟩
    · exact Origin.not_isSkipped_concat ha (.inr (by simp))
    · intro hcode
      rw [Origin.isCode_concat] at hcode
      exact absurd hcode (by decide)
  branch {_ _ a _ _ children _ _} _ _ _ h := by
    refine ⟨rfl, fun ha hfaces => wellPlaced_opening ha hfaces ?_⟩
    have hchild : ∀ c ∈ arrivals a.origin .child children,
        c.origin.isCode = false ∧ ¬ c.origin.IsSkipped ∧ c.origin.isBefore = false := by
      intro c hc
      obtain ⟨i, hi⟩ := exists_origin_eq_of_mem_arrivals hc
      rw [hi]
      exact ⟨Origin.isCode_concat _ _, Origin.not_isSkipped_concat ha (.inr (by simp)), Origin.isBefore_concat _ _⟩
    refine List.forall_mem_cons.mpr ⟨wellPlaced_of_origin_eq ha rfl (by simp), ?_⟩
    exact h (earlier_arrivals_child a.origin children) hchild
  settled {place a _ v _} hv hq ha := by
    obtain ⟨horigin, hv⟩ := hv
    have hqueue : ∀ c ∈ arrivals a.origin .before v.edits.before, Enters c (v.node :: place.after) := by
      intro c hc
      obtain ⟨j, _, rfl⟩ := mem_arrivals.mp hc
      refine ⟨Origin.isCode_concat _ _, Origin.not_isSkipped_concat ha.not_isSkipped (.inr (by simp)), ?_⟩
      refine List.forall_mem_cons.mpr ⟨?_, fun m hm => (ha.faces m hm).before j⟩
      -- the node in front of which it was asked for has been visited, so it is faced though it is not later
      rw [horigin]
      exact .inr ⟨Origin.isBefore_concat _ _, .before j, [], rfl⟩
    refine List.forall_mem_append.mpr ⟨hv ha.not_isSkipped fun _ => ha.faces, ?_⟩
    exact List.forall_mem_cons.mpr ⟨wellPlaced_of_origin_eq ha.not_isSkipped rfl (by simp), hq hqueue⟩
  queue_nil _ := List.forall_mem_nil _
  queue_cons hb hq hqueue := by
    rw [List.forall_mem_cons] at hqueue
    exact List.forall_mem_append.mpr ⟨hb hqueue.1, hq hqueue.2⟩
  sweep_nil _ _ := List.forall_mem_nil _
  sweep_cons {_ _ a rest _ b w} ns hahead hb hw hrest hall := by
    rw [List.forall_mem_cons] at hall
    obtain ⟨⟨hcode, hskipped, hbefore⟩, hall⟩ := hall
    have ha : Enters a (rest.map .fresh) := by
      refine ⟨hcode, hskipped, ?_⟩
      rw [List.forall_mem_map]
      exact fun c hc => .inl ((List.pairwise_cons.mp hrest).1 c hc)
    have hnext : ∀ c ∈ b.ahead, c.origin.isCode = false ∧ ¬ c.origin.IsSkipped ∧ c.origin.isBefore = false := by
      intro c hc
      rw [hahead, List.mem_reverse] at hc
      obtain ⟨j, hj⟩ := exists_origin_eq_of_mem_arrivals hc
      rw [hj]
      exact ⟨Origin.isCode_concat _ _, Origin.not_isSkipped_concat hskipped (.inl hbefore), Origin.isBefore_concat _ _⟩
    refine List.forall_mem_append.mpr ⟨hb ha, hw ?_ (List.forall_mem_append.mpr ⟨hnext, hall⟩)⟩
    rw [hahead]
    exact earlier_ahead hrest ns

/-- Everything in the trees has come from one of the given nodes. -/
def AllFrom (as : List Arrival) (trees : List Tracked) : Prop :=
  ∀ m ∈ trees, ∀ x, m.Holds x → ∃ a ∈ as, a.origin <+: x.origin

/-- Everything that a visit leaves is the node itself or has come from inside of it. -/
structure VisitFrom (a : Arrival) (m : Tracked) : Prop where
  origin_eq : m.origin = a.origin
  children : ∀ c ∈ m.children, ∀ x, c.Holds x → a.origin.Holds x.origin

theorem VisitFrom.holds {a : Arrival} {m x : Tracked} (h : VisitFrom a m) (hx : m.Holds x) :
    a.origin.Holds x.origin := by
  rcases Tracked.holds_iff.mp hx with rfl | ⟨c, hc, hx⟩
  · exact .inl h.origin_eq
  · exact h.children c hc x hx

theorem AllFrom.fresh (as : List Arrival) : AllFrom as (as.map .fresh) := by
  intro m hm x hx
  obtain ⟨a, ha, rfl⟩ := List.mem_map.mp hm
  rcases Tracked.holds_iff.mp hx with rfl | ⟨c, hc, -⟩
  · exact ⟨a, ha, List.prefix_refl a.origin⟩
  · exact absurd hc List.not_mem_nil

/-- The trees of the traced pass hold what has come from their nodes. -/
theorem preserved_from (rules : RuleSet σ) : Preserved rules (fun _ _ a _ v => VisitFrom a v.node)
    (fun _ a _ b => AllFrom [a] b.block)
    (fun _ _ _ queue _ q => AllFrom queue q.nodes)
    (fun _ settled rest _ w => ∀ m ∈ w.nodes, m ∈ settled ∨ ∀ x, m.Holds x → ∃ a ∈ rest, a.origin <+: x.origin) where
  still _ := ⟨rfl, List.forall_mem_nil _⟩
  insert {_ _ a _ _ _ _ v} _ _ h := by
    refine ⟨Tracked.origin_withCode _ _ _, ?_⟩
    intro c hc x hx
    rw [Tracked.children_withCode] at hc
    rcases h.children c hc x hx with heq | ⟨s, rest, -, heq⟩
    · exact .inr ⟨.code, [], rfl, heq⟩
    · refine .inr ⟨.code, s :: rest, rfl, ?_⟩
      rw [heq, List.append_assoc, List.singleton_append]
  branch {_ _ a _ _ children _ w} _ _ _ h := by
    refine ⟨rfl, ?_⟩
    intro c hc x hx
    rcases h c hc with hc | hc
    · exact absurd hc List.not_mem_nil
    · obtain ⟨b, hb, rest, heq⟩ := hc x hx
      obtain ⟨i, hi⟩ := exists_origin_eq_of_mem_arrivals hb
      refine .inr ⟨.child i, rest, rfl, ?_⟩
      rw [← heq, hi, List.append_assoc, List.singleton_append]
  settled {_ a _ v q} hv hq := by
    have hneighbour : ∀ {step : Nat → Step} {ns : List Node} {trees : List Tracked},
        AllFrom (arrivals a.origin step ns) trees → AllFrom [a] trees := by
      intro step ns trees h m hm x hx
      obtain ⟨b, hb, hprefix⟩ := h m hm x hx
      obtain ⟨j, hj⟩ := exists_origin_eq_of_mem_arrivals hb
      rw [hj] at hprefix
      exact ⟨a, List.mem_singleton_self a, (List.prefix_append _ _).trans hprefix⟩
    have hkept : AllFrom [a] v.kept := by
      intro m hm x hx
      unfold Visited.kept at hm
      split at hm
      · exact absurd hm List.not_mem_nil
      · rw [List.mem_singleton.mp hm] at hx
        exact ⟨a, List.mem_singleton_self a, (hv.holds hx).isPrefix⟩
    have hahead := AllFrom.fresh (arrivals a.origin .after v.edits.after)
    intro m hm
    rcases List.mem_append.mp hm with hm | hm
    · rcases List.mem_append.mp hm with hm | hm
      · exact hneighbour hq m hm
      · exact hkept m hm
    · rw [Visited.settled, List.map_reverse, List.mem_reverse] at hm
      exact hneighbour hahead m hm
  queue_nil := List.forall_mem_nil _
  queue_cons hb hq := by
    intro m hm x hx
    rcases List.mem_append.mp hm with hm | hm
    · obtain ⟨c, hc, hprefix⟩ := hb m hm x hx
      exact ⟨c, List.mem_append_left _ hc, hprefix⟩
    · obtain ⟨c, hc, hprefix⟩ := hq m hm x hx
      exact ⟨c, List.mem_append_right [_] hc, hprefix⟩
  sweep_nil := fun m hm => .inl hm
  sweep_cons {_ _ a rest _ b w} ns hahead hb hw := by
    intro m hm
    rcases hw m hm with hm | hm
    · rcases List.mem_append.mp hm with hm | hm
      · exact .inl hm
      · refine .inr fun x hx => ?_
        obtain ⟨c, hc, hprefix⟩ := hb m (List.mem_append_left _ hm) x hx
        exact ⟨c, List.mem_append_left rest hc, hprefix⟩
    · refine .inr fun x hx => ?_
      obtain ⟨c, hc, hprefix⟩ := hm x hx
      rcases List.mem_append.mp hc with hc | hc
      · rw [hahead, List.mem_reverse] at hc
        obtain ⟨j, hj⟩ := exists_origin_eq_of_mem_arrivals hc
        rw [hj] at hprefix
        exact ⟨a, List.mem_cons_self, (List.prefix_append _ _).trans hprefix⟩
      · exact ⟨c, List.mem_cons_of_mem a hc, hprefix⟩

end Trace

end TemplatePrep

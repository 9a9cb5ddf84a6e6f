import TemplatePrep.Proofs.Pass.TraceInduction

/-!
# What becomes of requests

A walk owes a visit to each of its children, and the end of a child's visit owes one to every node that was asked for
in front of the child. To the nodes asked for behind it a visit is owed only if a walk came to the child; if the child
was itself asked for in front of another, the walk goes past them, and they are owed a place in the tree instead. A
finished pass owes nothing.
-/

namespace TemplatePrep

/-- The nodes to which an event promises a visit. -/
def Event.promised : Event → List Arrival
  | walk o children => arrivals o .child children
  | leave o edits => arrivals o .before edits.before ++ if o.isBefore then [] else arrivals o .after edits.after
  | _ => []

/-- The nodes that are put in with an event but passed over. -/
def Event.passedOver : Event → List Arrival
  | leave o edits => if o.isBefore then arrivals o .after edits.after else []
  | _ => []

namespace Trace

variable {σ : Type}

/-- All of the nodes are visited. -/
def AllVisited (as : List Arrival) (events : List Event) : Prop := ∀ a ∈ as, a ∈ visited events

/-- All of the nodes stand in one of the trees, untouched. -/
def AllKept (as : List Arrival) (trees : List Tracked) : Prop := ∀ a ∈ as, ∃ m ∈ trees, m.Holds (.fresh a)

/-- A finished visit owes nothing. What it has passed over is among the children that it has walked, and there are none
if the node is to be removed. -/
structure VisitAnswered (a : Arrival) (v : Visited σ) : Prop where
  visited : a ∈ visited v.events
  promised : ∀ e ∈ v.events, AllVisited e.promised v.events
  passedOver : ∀ e ∈ v.events, AllKept e.passedOver v.node.children
  children_eq_nil : v.edits.pruned = true → v.node.children = []

/-- A settled child may owe a visit to the nodes behind it that a walk comes to next. -/
structure SettledAnswered (a : Arrival) (b : Settled σ) : Prop where
  visited : a ∈ visited b.events
  promised : ∀ e ∈ b.events, ∀ x ∈ e.promised,
    x ∈ TemplatePrep.visited b.events ∨ a.origin.isBefore = false ∧ x ∈ b.ahead
  passedOver : ∀ e ∈ b.events, ∀ x ∈ e.passedOver,
    (∃ m ∈ b.placed, m.Holds (.fresh x)) ∨ a.origin.isBefore = true ∧ x ∈ b.ahead

/-- A finished queue or walk owes nothing. -/
structure SweptAnswered (as : List Arrival) (w : Swept σ) : Prop where
  visited : AllVisited as w.events
  promised : ∀ e ∈ w.events, AllVisited e.promised w.events
  passedOver : ∀ e ∈ w.events, AllKept e.passedOver w.nodes

theorem AllVisited.append_left {as : List Arrival} {events : List Event} (h : AllVisited as events)
    (later : List Event) : AllVisited as (events ++ later) := by
  intro a ha
  rw [visited_append]
  exact List.mem_append_left _ (h a ha)

theorem AllVisited.append_right {as : List Arrival} {events : List Event} (h : AllVisited as events)
    (earlier : List Event) : AllVisited as (earlier ++ events) := by
  intro a ha
  rw [visited_append]
  exact List.mem_append_right _ (h a ha)

/-- The events on a node itself before its children are walked promise nothing. -/
theorem promised_opening {a : Arrival} {place : Tracked.Place} {edits : Edits} {e : Event}
    (he : e ∈ opening a place edits) : e.promised = [] ∧ e.passedOver = [] := by
  simp only [opening, List.mem_cons, List.not_mem_nil, or_false] at he
  rcases he with rfl | rfl
  · exact ⟨rfl, rfl⟩
  · exact ⟨rfl, rfl⟩

theorem mem_visited_opening (a : Arrival) (place : Tracked.Place) (edits : Edits) (later : List Event) :
    a ∈ visited (opening a place edits ++ later) := by
  rw [mem_visited]
  exact ⟨place, List.mem_cons_self⟩

theorem answered_still {a : Arrival} {place : Tracked.Place} {edits : Edits} {n : Node} {p : Progress σ} :
    VisitAnswered a ⟨.fresh ⟨a.origin, n⟩, edits, p, opening a place edits⟩ := by
  refine ⟨List.mem_cons_self, ?_, ?_, fun _ => rfl⟩
  · intro e he
    rw [(promised_opening he).1]
    exact List.forall_mem_nil _
  · intro e he
    rw [(promised_opening he).2]
    exact List.forall_mem_nil _

theorem answered_insert {a : Arrival} {place : Tracked.Place} {edits : Edits} {code : Arrival} {span : Option Span}
    {v : Visited σ} (h : VisitAnswered code v) :
    VisitAnswered a ⟨v.node.withCode a.origin span, v.edits, v.progress, opening a place edits ++ v.events⟩ := by
  refine ⟨mem_visited_opening a place edits v.events, ?_, ?_, ?_⟩
  · intro e he
    rcases List.mem_append.mp he with he | he
    · rw [(promised_opening he).1]
      exact List.forall_mem_nil _
    · exact (h.promised e he).append_right _
  · intro e he
    rw [Tracked.children_withCode]
    rcases List.mem_append.mp he with he | he
    · rw [(promised_opening he).2]
      exact List.forall_mem_nil _
    · exact h.passedOver e he
  · intro hp
    rw [Tracked.children_withCode]
    exact h.children_eq_nil hp

theorem answered_branch {a : Arrival} {place : Tracked.Place} {edits : Edits} {head : Head} {children : List Node}
    {span : Option Span} {w : Swept σ} (hp : edits.pruned = false)
    (h : SweptAnswered (arrivals a.origin .child children) w) :
    VisitAnswered a ⟨.walked a.origin head w.nodes span, edits, w.progress,
      opening a place edits ++ .walk a.origin children :: w.events⟩ := by
  refine ⟨mem_visited_opening a place edits _, ?_, ?_, ?_⟩
  · intro e he
    rcases List.mem_append.mp he with he | he
    · rw [(promised_opening he).1]
      exact List.forall_mem_nil _
    · apply AllVisited.append_right
      rcases List.mem_cons.mp he with rfl | he
      · exact h.visited.append_right [_]
      · exact (h.promised e he).append_right [_]
  · intro e he
    rcases List.mem_append.mp he with he | he
    · rw [(promised_opening he).2]
      exact List.forall_mem_nil _
    · rcases List.mem_cons.mp he with rfl | he
      · exact List.forall_mem_nil _
      · exact h.passedOver e he
  · intro hpruned
    exact absurd (hp.symm.trans hpruned) Bool.false_ne_true

/-- The end of a visit is answered by the queue that follows, short of the nodes that a walk comes to next. -/
theorem answered_settled {a : Arrival} {v : Visited σ} {q : Swept σ} (hv : VisitAnswered a v)
    (hq : SweptAnswered (arrivals a.origin .before v.edits.before) q) : SettledAnswered a (v.settled a.origin q) := by
  have hlater : ∀ {as : List Arrival}, AllVisited as q.events → AllVisited as (v.settled a.origin q).events :=
    fun h => (h.append_right [Event.leave a.origin v.edits]).append_right v.events
  refine ⟨?_, ?_, ?_⟩
  · rw [Visited.settled, visited_append]
    exact List.mem_append_left _ hv.visited
  · intro e he x hx
    rcases List.mem_append.mp he with he | he
    · exact .inl ((hv.promised e he).append_left _ x hx)
    · rcases List.mem_cons.mp he with rfl | he
      · rcases List.mem_append.mp hx with hx | hx
        · exact .inl (hlater hq.visited x hx)
        -- the nodes behind are left to the walk that has come here, if there is one
        · by_cases hbefore : a.origin.isBefore = true
          · rw [if_pos hbefore] at hx
            exact absurd hx List.not_mem_nil
          · rw [if_neg hbefore] at hx
            rw [Bool.not_eq_true] at hbefore
            exact .inr ⟨hbefore, List.mem_reverse.mpr hx⟩
      · exact .inl (hlater (hq.promised e he) x hx)
  · intro e he x hx
    rcases List.mem_append.mp he with he | he
    · obtain ⟨m, hm, hholds⟩ := hv.passedOver e he x hx
      -- a removed node has had no walk, so nothing was passed over under it
      have hkept : v.kept = [v.node] := by
        rw [Visited.kept, if_neg]
        intro hp
        rw [hv.children_eq_nil hp] at hm
        exact absurd hm List.not_mem_nil
      refine .inl ⟨v.node, ?_, Tracked.Holds.of_mem_children hm hholds⟩
      rw [Visited.settled, hkept]
      exact List.mem_append_right _ (List.mem_singleton_self _)
    · rcases List.mem_cons.mp he with rfl | he
      · rw [Event.passedOver] at hx
        by_cases hbefore : a.origin.isBefore = true
        · rw [if_pos hbefore] at hx
          exact .inr ⟨hbefore, List.mem_reverse.mpr hx⟩
        · rw [if_neg hbefore] at hx
          exact absurd hx List.not_mem_nil
      · obtain ⟨m, hm, hholds⟩ := hq.passedOver e he x hx
        exact .inl ⟨m, List.mem_append_left _ hm, hholds⟩

/-- A node asked for in front of another leaves nothing to be visited. -/
theorem answered_queue_cons {a : Arrival} {queue : List Arrival} {b : Settled σ} {q : Swept σ}
    (ha : a.origin.isBefore = true) (hb : SettledAnswered a b) (hq : SweptAnswered queue q) :
    SweptAnswered (a :: queue) ⟨b.block ++ q.nodes, q.progress, b.events ++ q.events⟩ := by
  refine ⟨?_, ?_, ?_⟩
  · intro x hx
    rcases List.mem_cons.mp hx with rfl | hx
    · rw [visited_append]
      exact List.mem_append_left _ hb.visited
    · exact hq.visited.append_right _ x hx
  · intro e he x hx
    rcases List.mem_append.mp he with he | he
    · rcases hb.promised e he x hx with hx | ⟨hbefore, -⟩
      · rw [visited_append]
        exact List.mem_append_left _ hx
      · exact absurd (hbefore.symm.trans ha) Bool.false_ne_true
    · exact (hq.promised e he).append_right _ x hx
  · intro e he x hx
    rcases List.mem_append.mp he with he | he
    · rcases hb.passedOver e he x hx with ⟨m, hm, hholds⟩ | ⟨-, hx⟩
      · exact ⟨m, List.mem_append_left _ (List.mem_append_left _ hm), hholds⟩
      · have hfresh : Tracked.fresh x ∈ b.block := List.mem_append_right _ (List.mem_map_of_mem hx)
        exact ⟨.fresh x, List.mem_append_left _ hfresh, Tracked.Holds.self⟩
    · obtain ⟨m, hm, hholds⟩ := hq.passedOver e he x hx
      exact ⟨m, List.mem_append_right _ hm, hholds⟩

/-- The rest of a walk visits what its first child still owes. -/
theorem answered_sweep_cons {a : Arrival} {rest : List Arrival} {settled : List Tracked} {b : Settled σ} {w : Swept σ}
    (ha : a.origin.isBefore = false) (hb : SettledAnswered a b) (hw : SweptAnswered (b.ahead ++ rest) w)
    (hsettled : ∀ m ∈ settled ++ b.placed, m ∈ w.nodes) :
    SweptAnswered (a :: rest) ⟨w.nodes, w.progress, b.events ++ w.events⟩ := by
  have hahead : AllVisited b.ahead w.events := fun x hx => hw.visited x (List.mem_append_left _ hx)
  refine ⟨?_, ?_, ?_⟩
  · intro x hx
    rcases List.mem_cons.mp hx with rfl | hx
    · rw [visited_append]
      exact List.mem_append_left _ hb.visited
    · exact hw.visited.append_right _ x (List.mem_append_right _ hx)
  · intro e he x hx
    rcases List.mem_append.mp he with he | he
    · rcases hb.promised e he x hx with hx | ⟨-, hx⟩
      · rw [visited_append]
        exact List.mem_append_left _ hx
      · exact hahead.append_right _ x hx
    · exact (hw.promised e he).append_right _ x hx
  · intro e he x hx
    rcases List.mem_append.mp he with he | he
    · rcases hb.passedOver e he x hx with ⟨m, hm, hholds⟩ | ⟨hbefore, -⟩
      · exact ⟨m, hsettled m (List.mem_append_right _ hm), hholds⟩
      · exact absurd (ha.symm.trans hbefore) Bool.false_ne_true
    · exact hw.passedOver e he x hx

/-- The traced pass owes nothing. -/
theorem preserved_answered (rules : RuleSet σ) : Preserved rules (fun _ _ a _ v => VisitAnswered a v)
    (fun _ a _ b => SettledAnswered a b)
    (fun _ _ _ queue _ q => (∀ a ∈ queue, a.origin.isBefore = true) → SweptAnswered queue q)
    (fun _ settled rest _ w => (∀ a ∈ rest, a.origin.isBefore = false) →
      SweptAnswered rest w ∧ ∀ m ∈ settled, m ∈ w.nodes) where
  still _ := answered_still
  insert _ _ h := answered_insert h
  branch {_ _ a _ _ children _ _} hp _ _ h := by
    have hchildren : ∀ c ∈ arrivals a.origin .child children, c.origin.isBefore = false :=
      forall_mem_arrivals (fun o => o.isBefore = false) (fun i => Origin.isBefore_concat _ (.child i)) children
    exact answered_branch hp (h hchildren).1
  settled {_ a _ v _} hv hq := by
    have hqueue : ∀ c ∈ arrivals a.origin .before v.edits.before, c.origin.isBefore = true :=
      forall_mem_arrivals (fun o => o.isBefore = true) (fun j => Origin.isBefore_concat _ (.before j)) _
    exact answered_settled hv (hq hqueue)
  queue_nil _ := ⟨List.forall_mem_nil _, List.forall_mem_nil _, List.forall_mem_nil _⟩
  queue_cons hb hq hqueue := by
    rw [List.forall_mem_cons] at hqueue
    exact answered_queue_cons hqueue.1 hb (hq hqueue.2)
  sweep_nil _ := ⟨⟨List.forall_mem_nil _, List.forall_mem_nil _, List.forall_mem_nil _⟩, fun _ hm => hm⟩
  sweep_cons {_ _ a _ _ b _} ns hahead hb hw hrest := by
    rw [List.forall_mem_cons] at hrest
    have hnext : ∀ c ∈ b.ahead, c.origin.isBefore = false := by
      intro c hc
      rw [hahead, List.mem_reverse] at hc
      exact forall_mem_arrivals (fun o => o.isBefore = false) (fun j => Origin.isBefore_concat _ (.after j)) ns c hc
    obtain ⟨hswept, hsettled⟩ := hw (List.forall_mem_append.mpr ⟨hnext, hrest.2⟩)
    exact ⟨answered_sweep_cons hrest.1 hb hswept hsettled, fun m hm => hsettled m (List.mem_append_left _ hm)⟩

end Trace

end TemplatePrep

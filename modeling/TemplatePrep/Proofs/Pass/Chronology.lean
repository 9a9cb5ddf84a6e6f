import TemplatePrep.Proofs.Pass.Moment
import TemplatePrep.Proofs.Pass.TraceInduction

/-!
# Traces are chronological

The events of a traced pass come in the order of their moments. The induction goes with what the events are about: those
of a visit concern the node and what is inside it, those of a settled child concern the node and what was asked for in
front of it, and those of a queue or a walk concern the nodes given, which are earlier and later among themselves.
-/

namespace TemplatePrep.Trace

variable {σ : Type}

/-- An event on a node or inside it, before its visit is over. -/
def During (o : Origin) (e : Event) : Prop := o.Holds e.origin ∧ ∃ k, e.At o k ∧ k < toLex (5, 0)

theorem During.of_inner {o : Origin} {s : Step} (hs : s.isInner = true) {e : Event} (he : o ++ [s] <+: e.origin) :
    During o e := by
  have hat := Event.at_rank_of_isPrefix he
  obtain ⟨rest, he⟩ := he
  rw [List.append_assoc] at he
  exact ⟨.inr ⟨s, rest, hs, he.symm⟩, s.rank, hat, Step.rank_lt_leave hs⟩

theorem During.of_stage {e : Event} (h : e.stage < toLex (5, 0)) : During e.origin e :=
  ⟨.inl rfl, e.stage, e.at_stage, h⟩

/-- Events are about one of the given nodes or about what has come from them. -/
def About (as : List Arrival) (events : List Event) : Prop := ∀ e ∈ events, ∃ a ∈ as, a.origin <+: e.origin

/-- A finished visit: its events concern the node and what is inside it. -/
structure VisitOrdered (a : Arrival) (v : Visited σ) : Prop where
  during : ∀ e ∈ v.events, During a.origin e
  chronological : Chronological v.events

/-- A settled child: its events are over before the nodes asked for behind it come into play. -/
structure SettledOrdered (a : Arrival) (b : Settled σ) : Prop where
  about : ∀ e ∈ b.events, a.origin <+: e.origin
  before_after : ∀ e ∈ b.events, ∃ k, e.At a.origin k ∧ ∀ j, k < (Step.after j).rank
  chronological : Chronological b.events

theorem During.lt_rank {o : Origin} {e f : Event} {s : Step} (he : During o e) (hs : s.isInner = false)
    (hf : o ++ [s] <+: f.origin) : e.moment < f.moment := by
  obtain ⟨-, k, hat, hk⟩ := he
  exact hat.moment_lt (Event.at_rank_of_isPrefix hf) (hk.trans (Step.leave_lt_rank hs))

theorem During.lt_leave {o : Origin} {e : Event} (he : During o e) (edits : Edits) :
    e.moment < (Event.leave o edits).moment := by
  obtain ⟨-, k, hat, hk⟩ := he
  exact hat.moment_lt (Event.leave o edits).at_stage hk

theorem leave_lt_rank {o : Origin} {edits : Edits} {f : Event} {s : Step} (hs : s.isInner = false)
    (hf : o ++ [s] <+: f.origin) : (Event.leave o edits).moment < f.moment :=
  (Event.leave o edits).at_stage.moment_lt (Event.at_rank_of_isPrefix hf) (Step.leave_lt_rank hs)

/-- A visit begins with events on the node itself, before anything inside it. -/
theorem ordered_opening (a : Arrival) (place : Tracked.Place) (edits : Edits) {inside : List Event}
    (hinside : ∀ e ∈ inside, During a.origin e) (hstage : ∀ e ∈ inside, ∃ k, e.At a.origin k ∧ toLex (1, 0) < k)
    (h : Chronological inside) :
    (∀ e ∈ opening a place edits ++ inside, During a.origin e) ∧ Chronological (opening a place edits ++ inside) := by
  have henter : (Event.enter a place).moment < (Event.ran a.origin edits).moment :=
    (Event.enter a place).at_stage.moment_lt (Event.ran a.origin edits).at_stage
      (by simp [Event.stage, Prod.Lex.toLex_lt_toLex])
  have hran : ∀ e ∈ inside, (Event.ran a.origin edits).moment < e.moment := by
    intro e he
    obtain ⟨k, hat, hk⟩ := hstage e he
    exact (Event.ran a.origin edits).at_stage.moment_lt hat hk
  simp only [opening, List.cons_append, List.nil_append, Chronological, List.pairwise_cons, List.forall_mem_cons]
  refine ⟨⟨?_, ?_, hinside⟩, ⟨henter, ?_⟩, hran, h⟩
  · exact During.of_stage (by simp [Event.stage, Prod.Lex.toLex_lt_toLex])
  · exact During.of_stage (by simp [Event.stage, Prod.Lex.toLex_lt_toLex])
  · intro e he
    exact henter.trans (hran e he)

theorem ordered_still {a : Arrival} {place : Tracked.Place} {edits : Edits} {n : Node} {p : Progress σ} :
    VisitOrdered a ⟨.fresh ⟨a.origin, n⟩, edits, p, opening a place edits⟩ := by
  have hopening := ordered_opening a place edits (List.forall_mem_nil _) (List.forall_mem_nil _) List.Pairwise.nil
  rw [List.append_nil] at hopening
  exact ⟨hopening.1, hopening.2⟩

theorem ordered_insert {a : Arrival} {place : Tracked.Place} {edits : Edits} {code : Node} {span : Option Span}
    {v : Visited σ} (h : VisitOrdered ⟨a.origin ++ [.code], code⟩ v) :
    VisitOrdered a ⟨v.node.withCode a.origin span, v.edits, v.progress, opening a place edits ++ v.events⟩ := by
  have hcode : ∀ e ∈ v.events, a.origin ++ [.code] <+: e.origin := fun e he => (h.during e he).1.isPrefix
  have hopening := ordered_opening a place edits (fun e he => During.of_inner rfl (hcode e he))
    (fun e he => ⟨_, Event.at_rank_of_isPrefix (hcode e he), by decide⟩) h.chronological
  exact ⟨hopening.1, hopening.2⟩

theorem ordered_branch {a : Arrival} {place : Tracked.Place} {edits : Edits} {head : Head} {children : List Node}
    {span : Option Span} {w : Swept σ} (habout : About (arrivals a.origin .child children) w.events)
    (h : Chronological w.events) :
    VisitOrdered a ⟨.walked a.origin head w.nodes span, edits, w.progress,
      opening a place edits ++ .walk a.origin children :: w.events⟩ := by
  have hchild : ∀ e ∈ w.events, ∃ i, a.origin ++ [.child i] <+: e.origin := by
    intro e he
    obtain ⟨c, hc, hprefix⟩ := habout e he
    obtain ⟨i, hi⟩ := exists_origin_eq_of_mem_arrivals hc
    exact ⟨i, hi ▸ hprefix⟩
  have hinside : ∀ e ∈ Event.walk a.origin children :: w.events, During a.origin e := by
    intro e he
    rcases List.mem_cons.mp he with rfl | he
    · exact During.of_stage (by simp [Event.stage, Prod.Lex.toLex_lt_toLex])
    · obtain ⟨i, hi⟩ := hchild e he
      exact During.of_inner rfl hi
  have hwalk : Chronological (Event.walk a.origin children :: w.events) := by
    refine List.pairwise_cons.mpr ⟨?_, h⟩
    intro e he
    obtain ⟨i, hi⟩ := hchild e he
    exact (Event.walk a.origin children).at_stage.moment_lt (Event.at_rank_of_isPrefix hi)
      (by simp [Event.stage, Step.rank, Prod.Lex.toLex_lt_toLex])
  have hstage : ∀ e ∈ Event.walk a.origin children :: w.events, ∃ k, e.At a.origin k ∧ toLex (1, 0) < k := by
    intro e he
    rcases List.mem_cons.mp he with rfl | he
    · exact ⟨_, Event.at_stage _, by simp [Event.stage, Prod.Lex.toLex_lt_toLex]⟩
    · obtain ⟨i, hi⟩ := hchild e he
      exact ⟨_, Event.at_rank_of_isPrefix hi, by simp [Step.rank, Prod.Lex.toLex_lt_toLex]⟩
  have hopening := ordered_opening a place edits hinside hstage hwalk
  exact ⟨hopening.1, hopening.2⟩

theorem ordered_settled {a : Arrival} {v : Visited σ} {q : Swept σ} (hv : VisitOrdered a v)
    (habout : About (arrivals a.origin .before v.edits.before) q.events) (hq : Chronological q.events) :
    SettledOrdered a (v.settled a.origin q) := by
  have hbefore : ∀ e ∈ q.events, ∃ j, a.origin ++ [.before j] <+: e.origin := by
    intro e he
    obtain ⟨c, hc, hprefix⟩ := habout e he
    obtain ⟨j, hj⟩ := exists_origin_eq_of_mem_arrivals hc
    exact ⟨j, hj ▸ hprefix⟩
  refine ⟨?_, ?_, ?_⟩
  · intro e he
    rcases List.mem_append.mp he with he | he
    · exact (hv.during e he).1.isPrefix
    · rcases List.mem_cons.mp he with rfl | he
      · exact List.prefix_refl a.origin
      · obtain ⟨j, hj⟩ := hbefore e he
        exact (List.prefix_append _ _).trans hj
  · intro e he
    rcases List.mem_append.mp he with he | he
    · obtain ⟨-, k, hat, hk⟩ := hv.during e he
      exact ⟨k, hat, fun _ => hk.trans (Step.leave_lt_rank rfl)⟩
    · rcases List.mem_cons.mp he with rfl | he
      · exact ⟨_, Event.at_stage _, fun _ => Step.leave_lt_rank rfl⟩
      · obtain ⟨j, hj⟩ := hbefore e he
        exact ⟨_, Event.at_rank_of_isPrefix hj, fun _ => Step.rank_before_lt_after j _⟩
  · -- the visit comes before its end, and this before the nodes asked for in front
    refine List.pairwise_append.mpr ⟨hv.chronological, List.pairwise_cons.mpr ⟨?_, hq⟩, ?_⟩
    · intro f hf
      obtain ⟨j, hj⟩ := hbefore f hf
      exact leave_lt_rank rfl hj
    · intro e he f hf
      rcases List.mem_cons.mp hf with rfl | hf
      · exact (hv.during e he).lt_leave v.edits
      · obtain ⟨j, hj⟩ := hbefore f hf
        exact (hv.during e he).lt_rank rfl hj

theorem About.append {as bs : List Arrival} {events later : List Event} (h : About as events)
    (hlater : About bs later) : About (as ++ bs) (events ++ later) := by
  intro e he
  rcases List.mem_append.mp he with he | he
  · obtain ⟨a, ha, hprefix⟩ := h e he
    exact ⟨a, List.mem_append_left bs ha, hprefix⟩
  · obtain ⟨a, ha, hprefix⟩ := hlater e he
    exact ⟨a, List.mem_append_right as ha, hprefix⟩

theorem ordered_queue_cons {a : Arrival} {queue : List Arrival} {b : Settled σ} {q : Swept σ}
    (hb : SettledOrdered a b) (hqueue : (a :: queue).Pairwise Arrival.Earlier)
    (hq : queue.Pairwise Arrival.Earlier → About queue q.events ∧ Chronological q.events) :
    About (a :: queue) (b.events ++ q.events) ∧ Chronological (b.events ++ q.events) := by
  rw [List.pairwise_cons] at hqueue
  obtain ⟨hfirst, hqueue⟩ := hqueue
  obtain ⟨habout, hq⟩ := hq hqueue
  refine ⟨About.append (fun e he => ⟨a, List.mem_singleton_self a, hb.about e he⟩) habout, ?_⟩
  refine List.pairwise_append.mpr ⟨hb.chronological, hq, ?_⟩
  intro e he f hf
  obtain ⟨c, hc, hprefix⟩ := habout f hf
  exact Origin.Earlier.moment_lt (hfirst c hc) (hb.about e he) hprefix

theorem ordered_sweep_cons {a : Arrival} {rest : List Arrival} {b : Settled σ} {w : Swept σ} {ns : List Node}
    (hahead : b.ahead = (arrivals a.origin .after ns).reverse) (hb : SettledOrdered a b)
    (hrest : (a :: rest).Pairwise Arrival.Earlier)
    (hw : (b.ahead ++ rest).Pairwise Arrival.Earlier → About (b.ahead ++ rest) w.events ∧ Chronological w.events) :
    About (a :: rest) (b.events ++ w.events) ∧ Chronological (b.events ++ w.events) := by
  have hafter : ∀ c ∈ b.ahead, ∃ j, c.origin = a.origin ++ [.after j] := by
    intro c hc
    rw [hahead, List.mem_reverse] at hc
    exact exists_origin_eq_of_mem_arrivals hc
  obtain ⟨habout, hw⟩ := hw (hahead ▸ earlier_ahead hrest ns)
  rw [List.pairwise_cons] at hrest
  obtain ⟨hfirst, -⟩ := hrest
  constructor
  · intro e he
    rcases List.mem_append.mp he with he | he
    · exact ⟨a, List.mem_cons_self, hb.about e he⟩
    · obtain ⟨c, hc, hprefix⟩ := habout e he
      -- what was asked for behind the first node has come from it
      rcases List.mem_append.mp hc with hc | hc
      · obtain ⟨j, hj⟩ := hafter c hc
        rw [hj] at hprefix
        exact ⟨a, List.mem_cons_self, (List.prefix_append _ _).trans hprefix⟩
      · exact ⟨c, List.mem_cons_of_mem a hc, hprefix⟩
  · refine List.pairwise_append.mpr ⟨hb.chronological, hw, ?_⟩
    intro e he f hf
    obtain ⟨c, hc, hprefix⟩ := habout f hf
    rcases List.mem_append.mp hc with hc | hc
    · obtain ⟨j, hj⟩ := hafter c hc
      obtain ⟨k, hat, hk⟩ := hb.before_after e he
      rw [hj] at hprefix
      exact hat.moment_lt (Event.at_rank_of_isPrefix hprefix) (hk j)
    · exact Origin.Earlier.moment_lt (hfirst c hc) (hb.about e he) hprefix

/-- The traced pass keeps its events in order. -/
theorem preserved_order (rules : RuleSet σ) : Preserved rules (fun _ _ a _ v => VisitOrdered a v)
    (fun _ a _ b => SettledOrdered a b)
    (fun _ _ _ queue _ q => queue.Pairwise Arrival.Earlier → About queue q.events ∧ Chronological q.events)
    (fun _ _ rest _ w => rest.Pairwise Arrival.Earlier → About rest w.events ∧ Chronological w.events) where
  still _ := ordered_still
  insert _ _ h := ordered_insert h
  branch {_ _ a _ _ children _ _} _ _ _ h := by
    obtain ⟨habout, hw⟩ := h (earlier_arrivals_child a.origin children)
    exact ordered_branch habout hw
  settled {_ a _ v _} hv hq := by
    obtain ⟨habout, hq⟩ := hq (earlier_arrivals_before a.origin v.edits.before)
    exact ordered_settled hv habout hq
  queue_nil _ := ⟨List.forall_mem_nil _, List.Pairwise.nil⟩
  queue_cons hb hq hqueue := ordered_queue_cons hb hqueue hq
  sweep_nil _ := ⟨List.forall_mem_nil _, List.Pairwise.nil⟩
  sweep_cons _ hahead hb hw hrest := ordered_sweep_cons hahead hb hrest hw

end TemplatePrep.Trace

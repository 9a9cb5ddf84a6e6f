import TemplatePrep.Proofs.Pass.Accounted
import TemplatePrep.Proofs.Pass.Answered
import TemplatePrep.Proofs.Pass.Chronology
import TemplatePrep.Proofs.Pass.Erasure
import TemplatePrep.Proofs.Pass.Layout
import TemplatePrep.Proofs.Pass.Placed

/-!
# Every node is visited exactly once

A pass that finishes visits each child of a walked container once, and each node asked for around a child once, with one
exception: what is asked for behind a node that was itself asked for in front of another is put in and passed over. When
the visits come is fixed as well. The nodes asked for in front of a child follow its visit at once, before any sibling
behind it; those asked for behind it come next, the last one first, before the sibling that stood there.

All of it is read off the trace, in which nodes are told apart by their origins. That each visit runs its chain and walks
what the chain has left is in `Accounted`, what the trace owes after that in `Answered`, and the order of events in
`Chronology`; here they are put together.
-/

namespace TemplatePrep

/-- The visits among some events of the node at an origin. -/
def visitsOf (events : List Event) (o : Origin) : List Arrival := (visited events).filter fun a => a.origin = o

/-- The event is the beginning of the visit of the node at an origin. -/
def Event.Begins (e : Event) (o : Origin) : Prop := ∃ n place, e = .enter ⟨o, n⟩ place

/-- Each of the nodes is visited exactly once, as it came into being, and they are visited in the order of the list. -/
structure VisitedInTurn (events : List Event) (as : List Arrival) : Prop where
  once : ∀ a ∈ as, visitsOf events a.origin = [a]
  order : as.Sublist (visited events)

/-- What a finished pass over a template has visited and when, from the rules, the tree that it leaves and its events. -/
structure ExactlyOnce {σ : Type} (rules : RuleSet σ) (t : Template) (tree : Tracked) (events : List Event) : Prop where
  /-- The root is visited. -/
  begins : .enter ⟨[], t.root⟩ Tracked.Place.root ∈ events
  /-- No node is visited twice. -/
  once : ∀ a ∈ visited events, visitsOf events a.origin = [a]
  /-- Every visit runs the chain of its node. If the chain keeps the node, a container is walked with the children that
  the chain has left, and for an insert its code is visited. -/
  ran : ∀ a place, .enter a place ∈ events → RunsChain rules events a place
  /-- The chain runs when the visit has begun, and before all else that happens on the node or inside of it. -/
  ran_first : ∀ o edits, .ran o edits ∈ events → ∀ e ∈ events, o.Holds e.origin →
    e.Begins o ∨ e = .ran o edits ∨ Precedes events (.ran o edits) e
  /-- The children that a container has when its walk starts are visited from left to right. -/
  children : ∀ o children, .walk o children ∈ events → VisitedInTurn events (arrivals o .child children)
  /-- The nodes asked for in front of a child are visited in the order of the requests. -/
  before : ∀ o edits, .leave o edits ∈ events → VisitedInTurn events (arrivals o .before edits.before)
  /-- They are visited when the child has been visited, with its chain and all that is inside of it. -/
  before_follows_visit : ∀ o : Origin, ∀ e ∈ events, o.Holds e.origin →
    ∀ j, ∀ f ∈ events, f.Begins (o ++ [.before j]) → Precedes events e f
  /-- They are visited before the siblings behind the child, unless these were visited before the child. -/
  before_precedes_siblings : ∀ a place, .enter a place ∈ events → a.origin.isCode = false →
    ∀ m ∈ place.after, ∀ f ∈ events, f.Begins m.origin → Precedes events f (.enter a place) ∨
      ∀ j, ∀ g ∈ events, g.Begins (a.origin ++ [.before j]) → Precedes events g f
  /-- The nodes asked for behind a child that a walk has come to are visited, the last one first. -/
  after : ∀ o edits, .leave o edits ∈ events → o.isBefore = false →
    VisitedInTurn events (arrivals o .after edits.after).reverse
  /-- They are visited when all that was put before the child has been visited. -/
  after_follows_before : ∀ o : Origin, ∀ e ∈ events, (o.Holds e.origin ∨ ∃ j, o ++ [.before j] <+: e.origin) →
    ∀ k, ∀ f ∈ events, f.Begins (o ++ [.after k]) → Precedes events e f
  /-- They are visited before the siblings that stood behind the child. -/
  after_precedes_siblings : ∀ a place, .enter a place ∈ events → a.origin.isCode = false → a.origin.isBefore = false →
    ∀ m ∈ place.after, ∀ f ∈ events, f.Begins m.origin →
      ∀ k, ∀ g ∈ events, g.Begins (a.origin ++ [.after k]) → Precedes events g f
  /-- The nodes asked for behind a node that was asked for in front of another stay in the tree as they are, and no
  event is about them or anything inside of them. -/
  passedOver : ∀ o edits, .leave o edits ∈ events → o.isBefore = true → ∀ a ∈ arrivals o .after edits.after,
    tree.Holds (.fresh a) ∧ ∀ e ∈ events, ¬ a.origin <+: e.origin
  /-- Inside of a node that its own chain removes nothing is visited. -/
  pruned : ∀ o edits, .ran o edits ∈ events → edits.pruned = true → ∀ e ∈ events, o.Holds e.origin → e.origin = o
  /-- Nothing that was asked for around the root is visited or put in. -/
  root : (∀ e ∈ events, Origin.Holds [] e.origin) ∧ ∀ m, tree.Holds m → Origin.Holds [] m.origin
  /-- What the chains have asked for is carried out, around the root excepted, and with the insert if it was asked for
  on the insert's code. -/
  carriedOut : ∀ o edits, .ran o edits ∈ events → o ≠ [] → CarriedOut events o edits

/-! ## In order of time -/

section Chronological

variable {events : List Event} (h : Chronological events)

include h

/-- A node is visited once at most. -/
theorem Chronological.visitsOf_eq {a : Arrival} (ha : a ∈ visited events) : visitsOf events a.origin = [a] := by
  have hincreasing := h.visited_increasing
  -- no two visits begin at the same moment, so those of an origin are the occurrences of one arrival
  have hsame : ∀ b ∈ visited events, decide (b.origin = a.origin) = (b == a) := by
    intro b hb
    by_cases horigin : b.origin = a.origin
    · have hmoment : b.moment = a.moment := by rw [Arrival.moment, horigin, ← Arrival.moment]
      rw [eq_of_increasing hincreasing hb ha hmoment]
      simp
    · have hne : b ≠ a := fun heq => horigin (by rw [heq])
      simp [horigin, hne]
  rw [visitsOf, List.filter_congr hsame, List.filter_beq, List.count_eq_one_of_mem (nodup_of_increasing hincreasing) ha]
  rfl

/-- Nodes that come into play one after another and are all visited are visited in turn. -/
theorem Chronological.visitedInTurn {as : List Arrival} (hvisited : Trace.AllVisited as events)
    (has : as.Pairwise Arrival.Earlier) : VisitedInTurn events as where
  once a ha := h.visitsOf_eq (hvisited a ha)
  order := sublist_of_increasing h.visited_increasing (has.imp Arrival.Earlier.moment_lt) hvisited

/-- The nodes asked for around a node come into play when it has been visited. -/
theorem Chronological.precedes_of_holds {o : Origin} {e f : Event} (he : e ∈ events) (hf : f ∈ events)
    (hholds : o.Holds e.origin) {s : Step} (hs : s.isInner = false) (hbegins : f.Begins (o ++ [s])) :
    Precedes events e f := by
  obtain ⟨n, place, rfl⟩ := hbegins
  obtain ⟨k, hat, hk⟩ := Event.exists_at_of_holds hholds
  apply h.precedes he hf
  exact hat.moment_lt (Event.at_rank_of_isPrefix (List.prefix_refl _)) (hk.trans_lt (Step.leave_lt_rank hs))

/-- The nodes asked for in front of a node are done with when those asked for behind it come into play. -/
theorem Chronological.precedes_of_before {o : Origin} {e f : Event} (he : e ∈ events) (hf : f ∈ events) {j k : Nat}
    (hbefore : o ++ [.before j] <+: e.origin) (hbegins : f.Begins (o ++ [.after k])) : Precedes events e f := by
  obtain ⟨n, place, rfl⟩ := hbegins
  apply h.precedes he hf
  exact (Event.at_rank_of_isPrefix hbefore).moment_lt (Event.at_rank_of_isPrefix (List.prefix_refl _))
    (Step.rank_before_lt_after j k)

/-- What was asked for around a node precedes the visit of any node that comes into play later. -/
theorem Chronological.precedes_of_earlier {o x : Origin} (hearlier : Origin.Earlier o x) {f g : Event} (hf : f ∈ events)
    (hg : g ∈ events) {s : Step} (hgbegins : g.Begins (o ++ [s])) (hfbegins : f.Begins x) : Precedes events g f := by
  obtain ⟨n, place, rfl⟩ := hgbegins
  obtain ⟨m, place', rfl⟩ := hfbegins
  exact h.precedes hg hf (hearlier.moment_lt (List.prefix_append _ _) (List.prefix_refl _))

/-- Seen from a node that was asked for in front of another, the other has been visited. -/
theorem Chronological.precedes_of_owner {a : Arrival} {place : Tracked.Place} {x : Origin} {s : Step} {rest : Origin}
    (ha : a.origin = x ++ s :: rest) {f : Event} (hf : f ∈ events) (he : Event.enter a place ∈ events)
    (hbegins : f.Begins x) : Precedes events f (.enter a place) := by
  obtain ⟨n, place', rfl⟩ := hbegins
  have hat : (Event.enter a place).At x s.rank := by
    refine Event.at_rank_of_isPrefix ⟨rest, ?_⟩
    rw [List.append_assoc, List.singleton_append, ← ha]
    rfl
  exact h.precedes hf he ((Event.enter ⟨x, n⟩ place').at_stage.moment_lt hat s.enter_lt_rank)

/-- Behind the beginning of a visit the chain comes first, then the walk and what is inside, and the end of the visit. -/
theorem Chronological.precedes_of_ran {o : Origin} {edits : Edits} (hran : .ran o edits ∈ events) {e : Event}
    (he : e ∈ events) (hholds : o.Holds e.origin) :
    e.Begins o ∨ e = .ran o edits ∨ Precedes events (.ran o edits) e := by
  have hafter {k : ℕ ×ₗ ℤ} (hat : e.At o k) (hk : toLex (1, 0) < k) : Precedes events (.ran o edits) e :=
    h.precedes hran he ((Event.ran o edits).at_stage.moment_lt hat hk)
  rcases hholds with rfl | ⟨s, rest, hs, hinside⟩
  · cases e with
    | enter a place => exact .inl ⟨a.node, place, rfl⟩
    | ran x asked =>
      obtain rfl := h.ran_unique hran he
      exact .inr (.inl rfl)
    | walk | leave => exact .inr (.inr (hafter (Event.at_stage _) (by simp [Event.stage, Prod.Lex.toLex_lt_toLex])))
  · have hprefix : o ++ [s] <+: e.origin := ⟨rest, by rw [hinside, List.append_assoc, List.singleton_append]⟩
    exact .inr (.inr (hafter (Event.at_rank_of_isPrefix hprefix) (Step.ran_lt_rank s)))

/-- A chain runs once on each node, so a node that its chain removes has not been opened by another run. -/
theorem Chronological.eq_of_pruned {root : Node} (hopened : Trace.OpenedBelow [⟨[], root⟩] events) {o : Origin}
    {edits : Edits} (hran : .ran o edits ∈ events) (hp : edits.pruned = true) {e : Event} (he : e ∈ events)
    (hholds : o.Holds e.origin) : e.origin = o := by
  rcases hholds with heq | ⟨s, rest, hs, hinside⟩
  · exact heq
  · rcases hopened e he o s rest hs hinside with ⟨kept, hkept, hnot⟩ | ⟨a, ha, hprefix⟩
    · rw [h.ran_unique hran hkept] at hp
      exact absurd (hnot.symm.trans hp) Bool.false_ne_true
    · rw [List.mem_singleton.mp ha] at hprefix
      simp at hprefix

end Chronological

/-! ## Finished passes -/

/-- The trace of a pass over a template visits every node exactly once. -/
theorem exactlyOnce_of_trace? {σ : Type} {rules : RuleSet σ} {limit : Nat} {t : Template} {s : σ}
    {v : Trace.Visited σ} (hv : rules.trace? limit t s = some v) : ExactlyOnce rules t v.node v.events := by
  have hordered := (Trace.preserved_order rules).preserved_visit hv
  have hanswered := (Trace.preserved_answered rules).preserved_visit hv
  obtain ⟨haccounted, henter⟩ := (Trace.preserved_accounted rules).preserved_visit hv
  have hfrom := (Trace.preserved_from rules).preserved_visit hv
  have hplaced : ∀ e ∈ v.events, e.WellPlaced := by
    refine ((Trace.preserved_wellPlaced rules).preserved_visit hv).2 ?_ fun _ => List.forall_mem_nil _
    rintro ⟨x, j, k, rest, hroot⟩
    simp at hroot
  have hchronological := hordered.chronological
  constructor
  case begins => exact henter
  case once => exact fun a ha => hchronological.visitsOf_eq ha
  case ran => exact haccounted.ran fun _ => rfl
  case ran_first =>
    intro o edits hran e he hholds
    exact hchronological.precedes_of_ran hran he hholds
  case children =>
    intro o children hwalk
    exact hchronological.visitedInTurn (hanswered.promised _ hwalk) (earlier_arrivals_child o children)
  case before =>
    intro o edits hleave
    refine hchronological.visitedInTurn ?_ (earlier_arrivals_before o edits.before)
    exact fun a ha => hanswered.promised _ hleave a (List.mem_append_left _ ha)
  case before_follows_visit =>
    intro o e he hholds j f hf hbegins
    exact hchronological.precedes_of_holds he hf hholds rfl hbegins
  case before_precedes_siblings =>
    intro a place he hcode m hm f hf hfbegins
    rcases (hplaced _ he).2 a place rfl hcode m hm with hearlier | ⟨-, s, rest, ha⟩
    · exact .inr fun j g hg hgbegins => hchronological.precedes_of_earlier hearlier hf hg hgbegins hfbegins
    · exact .inl (hchronological.precedes_of_owner ha hf he hfbegins)
  case after =>
    intro o edits hleave hbefore
    refine hchronological.visitedInTurn ?_ (earlier_arrivals_after o edits.after)
    intro a ha
    have hpromised : a ∈ (Event.leave o edits).promised := by
      rw [Event.promised, if_neg (by simp [hbefore])]
      exact List.mem_append_right _ (List.mem_reverse.mp ha)
    exact hanswered.promised _ hleave a hpromised
  case after_follows_before =>
    rintro o e he (hholds | ⟨j, hbefore⟩) k f hf hbegins
    · exact hchronological.precedes_of_holds he hf hholds rfl hbegins
    · exact hchronological.precedes_of_before he hf hbefore hbegins
  case after_precedes_siblings =>
    intro a place he hcode hbefore m hm f hf hfbegins k g hg hgbegins
    rcases (hplaced _ he).2 a place rfl hcode m hm with hearlier | ⟨hisBefore, -⟩
    · exact hchronological.precedes_of_earlier hearlier hf hg hgbegins hfbegins
    · exact absurd (hbefore.symm.trans hisBefore) Bool.false_ne_true
  case passedOver =>
    intro o edits hleave hbefore a ha
    have hpassed : a ∈ (Event.leave o edits).passedOver := by
      rwa [Event.passedOver, if_pos hbefore]
    obtain ⟨m, hm, hholds⟩ := hanswered.passedOver _ hleave a hpassed
    refine ⟨Tracked.Holds.of_mem_children hm hholds, ?_⟩
    intro e he
    obtain ⟨k, hk⟩ := exists_origin_eq_of_mem_arrivals ha
    rw [hk]
    exact (hplaced e he).not_isPrefix hbefore k
  case pruned =>
    intro o edits hran hp e he hholds
    exact hchronological.eq_of_pruned haccounted.openedBelow hran hp he hholds
  case root => exact ⟨fun e he => (hordered.during e he).1, fun m hm => hfrom.holds hm⟩
  case carriedOut =>
    intro o edits hran hne
    -- what is asked for around the root is left over, but the root has no code that could ask for more
    rcases haccounted.carriedOut o edits hran with hcarried | ⟨hroot, -⟩ | ⟨-, hkind, -⟩
    · exact hcarried
    · exact absurd hroot hne
    · simp [Template.root, Node.kind, Head.kind] at hkind

/-- A pass that finishes has visited every node exactly once: it has a trace that ends with the same tree, counts as
many visits, and holds every one of them. -/
theorem RuleSet.exactlyOnce_of_run? {σ : Type} {rules : RuleSet σ} {limit : Nat} {t : Template} {s : σ}
    {r : PassResult σ} (h : rules.run? limit t s = some r) :
    ∃ v, rules.trace? limit t s = some v ∧ r = ⟨.ofRoot v.node.erase, v.progress.stats, v.progress.state⟩ ∧
      r.stats.visited = (visited v.events).length ∧ ExactlyOnce rules t v.node v.events := by
  obtain ⟨v, hv, rfl⟩ := RuleSet.exists_trace?_of_run? h
  have hcounted := (Trace.preserved_counted rules).preserved_visit hv
  refine ⟨v, hv, rfl, ?_, exactlyOnce_of_trace? hv⟩
  exact hcounted.trans (Nat.zero_add _)

/-- The comment `Y`, asked for behind a text that was itself put before the comment `C`, is the one node not visited. -/
theorem RuleSet.exactlyOnce_bothSides :
    Pass.bothSides.run? 14 ⟨[.comment "A", .comment "C", .comment "B"], none⟩ [] =
      some ⟨⟨[.comment "A", .text "W", .text "X", .comment "Y", .comment "Z", .comment "B"], none⟩, ⟨7, 1, 4⟩, []⟩ ∧
    ∃ v, Pass.bothSides.trace? 14 ⟨[.comment "A", .comment "C", .comment "B"], none⟩ [] = some v ∧
      (visited v.events).length = 7 ∧
      ExactlyOnce Pass.bothSides ⟨[.comment "A", .comment "C", .comment "B"], none⟩ v.node v.events := by
  have hrun : Pass.bothSides.run? 14 ⟨[.comment "A", .comment "C", .comment "B"], none⟩ [] =
      some ⟨⟨[.comment "A", .text "W", .text "X", .comment "Y", .comment "Z", .comment "B"], none⟩, ⟨7, 1, 4⟩, []⟩ := by
    cbv
  obtain ⟨v, hv, _, hlength, honce⟩ := RuleSet.exactlyOnce_of_run? hrun
  exact ⟨hrun, v, hv, hlength.symm, honce⟩

end TemplatePrep

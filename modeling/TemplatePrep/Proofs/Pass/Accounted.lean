import TemplatePrep.Proofs.Pass.TraceInduction

/-!
# Every event is accounted for

Whenever a visit begins, its chain runs, and if the chain keeps the node, its walk begins with what the chain has left.
What a chain has asked for around a child is carried out when the child's visit is over; what the chain of an insert's
code has asked for is carried out with the insert. And nothing inside a node happens unless the node's own chain has
kept it.
-/

namespace TemplatePrep

variable {σ : Type}

/-- The walk of a node begins: the code of an insert is visited, and the children of any other branch are walked. -/
def WalkBegins (events : List Event) (o : Origin) : Node → Prop
  | .leaf _ _ _ => True
  | .branch (.insert codeSpan) segments _ =>
    ∃ place, Event.enter ⟨o ++ [.code], .branch .embeddedCode segments codeSpan⟩ place ∈ events
  | .branch _ children _ => Event.walk o children ∈ events

/-- The chain of a node runs where the node stands, with nothing asked for before unless the node is the code of an
insert. If it keeps the node, the walk of what it has left begins. -/
def RunsChain (rules : RuleSet σ) (events : List Event) (a : Arrival) (place : Tracked.Place) : Prop :=
  ∃ asked s, (a.origin.isCode = false → asked = Edits.none) ∧
    Event.ran a.origin (rules.call place.erase asked a.node s).edits ∈ events ∧
    ((rules.call place.erase asked a.node s).edits.pruned = false →
      WalkBegins events a.origin (rules.call place.erase asked a.node s).node)

/-- The chain of a node has run and has not removed it. -/
def Opened (events : List Event) (o : Origin) : Prop := ∃ edits, Event.ran o edits ∈ events ∧ edits.pruned = false

/-- What had been asked for when the chain of a node was over is carried out: with the insert if the node is its code,
else with the node itself, where more may have been asked for by then. -/
def CarriedOut (events : List Event) (o : Origin) (edits : Edits) : Prop :=
  (∃ x, o = x ++ [.code] ∧ Event.leave x edits ∈ events) ∨
    (o.isCode = false ∧ ∃ more, Event.leave o (edits ++ more) ∈ events)

theorem walkBegins_branch_iff {events : List Event} {o : Origin} {head : Head} {children : List Node}
    {span : Option Span} (hhead : head.kind ≠ .insert) :
    WalkBegins events o (.branch head children span) ↔ Event.walk o children ∈ events := by
  cases head with
  | insert => exact absurd rfl hhead
  | topLevel | element | embeddedCode | property => exact Iff.rfl

theorem WalkBegins.mono {events later : List Event} {o : Origin} {n : Node} (h : WalkBegins events o n)
    (hle : events ⊆ later) : WalkBegins later o n := by
  cases n with
  | leaf => trivial
  | branch head children span =>
    cases head with
    | insert codeSpan =>
      obtain ⟨place, henter⟩ := h
      exact ⟨place, hle henter⟩
    | topLevel | element | embeddedCode | property => exact hle h

theorem RunsChain.mono {rules : RuleSet σ} {events later : List Event} {a : Arrival} {place : Tracked.Place}
    (h : RunsChain rules events a place) (hle : events ⊆ later) : RunsChain rules later a place := by
  obtain ⟨asked, s, hasked, hran, hwalk⟩ := h
  exact ⟨asked, s, hasked, hle hran, fun hp => (hwalk hp).mono hle⟩

theorem Opened.mono {events later : List Event} {o : Origin} (h : Opened events o) (hle : events ⊆ later) :
    Opened later o := by
  obtain ⟨edits, hran, hp⟩ := h
  exact ⟨edits, hle hran, hp⟩

theorem CarriedOut.mono {events later : List Event} {o : Origin} {edits : Edits} (h : CarriedOut events o edits)
    (hle : events ⊆ later) : CarriedOut later o edits := by
  rcases h with ⟨x, hx, hleave⟩ | ⟨hcode, more, hleave⟩
  · exact .inl ⟨x, hx, hle hleave⟩
  · exact .inr ⟨hcode, more, hle hleave⟩

namespace Trace

/-- Nothing happens inside a node that has not been opened, unless it is one that the given nodes are inside of. -/
def OpenedBelow (as : List Arrival) (events : List Event) : Prop :=
  ∀ e ∈ events, ∀ x s rest, s.isInner = true → e.origin = x ++ s :: rest →
    Opened events x ∨ ∃ a ∈ as, x ++ [s] <+: a.origin

/-- The events of finished parts of a pass that are about the given nodes. -/
structure Accounted (rules : RuleSet σ) (as : List Arrival) (events : List Event) : Prop where
  ran : ∀ a place, .enter a place ∈ events → RunsChain rules events a place
  carriedOut : ∀ o edits, .ran o edits ∈ events → CarriedOut events o edits
  openedBelow : OpenedBelow as events

/-- The events of a finished visit. What has been asked for around the node is still to be carried out. -/
structure VisitAccounted (rules : RuleSet σ) (edits : Edits) (a : Arrival) (v : Visited σ) : Prop where
  edits_eq : ∃ more, v.edits = edits ++ more
  ran : (a.origin.isCode = false → edits = Edits.none) →
    ∀ b place, .enter b place ∈ v.events → RunsChain rules v.events b place
  carriedOut : ∀ o edits, .ran o edits ∈ v.events → CarriedOut v.events o edits ∨
    (o = a.origin ∧ ∃ more, v.edits = edits ++ more ∧ (a.node.kind ≠ .insert → more = Edits.none)) ∨
    (o = a.origin ++ [.code] ∧ a.node.kind = .insert ∧ v.edits = edits)
  openedBelow : OpenedBelow [a] v.events

theorem OpenedBelow.append {as bs : List Arrival} {events later : List Event} (h : OpenedBelow as events)
    (hlater : OpenedBelow bs later) : OpenedBelow (as ++ bs) (events ++ later) := by
  intro e he x s rest hs hx
  rcases List.mem_append.mp he with he | he
  · rcases h e he x s rest hs hx with hopen | ⟨a, ha, hprefix⟩
    · exact .inl (hopen.mono (List.subset_append_left _ _))
    · exact .inr ⟨a, List.mem_append_left _ ha, hprefix⟩
  · rcases hlater e he x s rest hs hx with hopen | ⟨a, ha, hprefix⟩
    · exact .inl (hopen.mono (List.subset_append_right _ _))
    · exact .inr ⟨a, List.mem_append_right _ ha, hprefix⟩

variable {rules : RuleSet σ}

theorem Accounted.append {as bs : List Arrival} {events later : List Event} (h : Accounted rules as events)
    (hlater : Accounted rules bs later) : Accounted rules (as ++ bs) (events ++ later) := by
  refine ⟨?_, ?_, h.openedBelow.append hlater.openedBelow⟩
  · intro a place ha
    rcases List.mem_append.mp ha with ha | ha
    · exact (h.ran a place ha).mono (List.subset_append_left _ _)
    · exact (hlater.ran a place ha).mono (List.subset_append_right _ _)
  · intro o edits ho
    rcases List.mem_append.mp ho with ho | ho
    · exact (h.carriedOut o edits ho).mono (List.subset_append_left _ _)
    · exact (hlater.carriedOut o edits ho).mono (List.subset_append_right _ _)

/-- Neighbours that were asked for are inside of the same nodes. -/
theorem OpenedBelow.of_neighbours {as bs : List Arrival} {events : List Event} (h : OpenedBelow bs events)
    (hbs : ∀ b ∈ bs, b ∈ as ∨ ∃ a ∈ as, ∃ s, s.isInner = false ∧ b.origin = a.origin ++ [s]) :
    OpenedBelow as events := by
  intro e he x s rest hs hx
  rcases h e he x s rest hs hx with hopen | ⟨b, hb, hprefix⟩
  · exact .inl hopen
  · rcases hbs b hb with hb | ⟨a, ha, t, ht, heq⟩
    · exact .inr ⟨b, hb, hprefix⟩
    · rw [heq, List.prefix_concat_iff] at hprefix
      -- the step to the neighbour does not lead inside, so the step inside was taken before it
      rcases hprefix with hsame | hprefix
      · obtain ⟨-, rfl⟩ := List.append_inj' hsame rfl |>.imp id List.singleton_inj.mp
        exact absurd (hs.symm.trans ht) Bool.noConfusion
      · exact .inr ⟨a, ha, hprefix⟩

/-- What is inside a node that has been opened is inside of the same nodes as the node itself. -/
theorem OpenedBelow.of_opened {a : Arrival} {bs : List Arrival} {events : List Event}
    (h : OpenedBelow (a :: bs) events) (hopened : Opened events a.origin)
    (hbs : ∀ b ∈ bs, ∃ s, b.origin = a.origin ++ [s]) : OpenedBelow [a] events := by
  intro e he x s rest hs hx
  rcases h e he x s rest hs hx with hopen | ⟨b, hb, hprefix⟩
  · exact .inl hopen
  · rcases List.mem_cons.mp hb with rfl | hb
    · exact .inr ⟨b, List.mem_singleton_self b, hprefix⟩
    · obtain ⟨t, heq⟩ := hbs b hb
      rw [heq, List.prefix_concat_iff] at hprefix
      -- the step inside is the last one, or it was taken before the node was reached
      rcases hprefix with hsame | hprefix
      · obtain ⟨rfl, -⟩ := List.append_inj' hsame rfl
        exact .inl hopened
      · exact .inr ⟨a, List.mem_singleton_self a, hprefix⟩

/-- Events on a node itself. -/
theorem openedBelow_own {a : Arrival} {events : List Event} (h : ∀ e ∈ events, e.origin = a.origin) :
    OpenedBelow [a] events := by
  intro e he x s rest _ hx
  refine .inr ⟨a, List.mem_singleton_self a, rest, ?_⟩
  rw [← h e he, hx, List.append_assoc, List.singleton_append]

theorem origin_opening {a : Arrival} {place : Tracked.Place} {edits : Edits} {e : Event}
    (he : e ∈ opening a place edits) : e.origin = a.origin := by
  simp only [opening, List.mem_cons, List.not_mem_nil, or_false] at he
  rcases he with rfl | rfl
  · rfl
  · rfl

theorem ran_mem_opening (a : Arrival) (place : Tracked.Place) (edits : Edits) :
    Event.ran a.origin edits ∈ opening a place edits :=
  List.mem_cons_of_mem _ List.mem_cons_self

theorem eq_of_enter_mem_opening {a b : Arrival} {place place' : Tracked.Place} {edits : Edits}
    (h : Event.enter b place' ∈ opening a place edits) : b = a ∧ place' = place := by
  simp only [opening, List.mem_cons, Event.enter.injEq, List.not_mem_nil, or_false, reduceCtorEq] at h
  exact h

theorem eq_of_ran_mem_opening {a : Arrival} {place : Tracked.Place} {o : Origin} {edits asked : Edits}
    (h : Event.ran o asked ∈ opening a place edits) : o = a.origin ∧ asked = edits := by
  simp only [opening, List.mem_cons, Event.ran.injEq, List.not_mem_nil, or_false, reduceCtorEq, false_or] at h
  exact h

section Visit

variable {place : Tracked.Place} {edits : Edits} {a : Arrival} {state : σ} {o : Outcome σ a.node.kind}
  (ho : rules.call place.erase edits a.node state = o)

include ho

/-- The visit begins with the run of the chain. -/
theorem runsChain_opening {events : List Event} (hasked : a.origin.isCode = false → edits = Edits.none)
    (hopening : opening a place o.edits ⊆ events) (hwalk : o.edits.pruned = false → WalkBegins events a.origin o.node) :
    RunsChain rules events a place := by
  subst ho
  exact ⟨edits, state, hasked, hopening (ran_mem_opening a place _), hwalk⟩

theorem exists_edits_of_call : ∃ more, o.edits = edits ++ more := by
  subst ho
  exact rules.exists_edits_call _ _ _ _

theorem accounted_still {p : Progress σ}
    (hstill : o.edits.pruned = true ∨ ∃ k text span, o.node.val = .leaf k text span) :
    VisitAccounted rules edits a ⟨.fresh ⟨a.origin, o.node⟩, o.edits, p, opening a place o.edits⟩ := by
  refine ⟨exists_edits_of_call ho, ?_, ?_, openedBelow_own fun e he => origin_opening he⟩
  · intro hasked b place' hb
    obtain ⟨rfl, rfl⟩ := eq_of_enter_mem_opening hb
    refine runsChain_opening ho hasked (List.Subset.refl _) fun hp => ?_
    rcases hstill with hremoved | ⟨k, text, span, hleaf⟩
    · exact absurd (hp.symm.trans hremoved) Bool.false_ne_true
    · rw [hleaf, WalkBegins]
      trivial
  · intro x e hx
    obtain ⟨rfl, rfl⟩ := eq_of_ran_mem_opening hx
    exact .inr (.inl ⟨rfl, Edits.none, (Edits.append_none _).symm, fun _ => rfl⟩)

/-- The code of an insert may ask for more, and this is carried out with the insert. -/
theorem accounted_insert {codeSpan span : Option Span} {segments : List Node} {v : Visited σ}
    (hp : o.edits.pruned = false) (hn : o.node.val = .branch (.insert codeSpan) segments span)
    (henter : ∃ place', Event.enter ⟨a.origin ++ [.code], .branch .embeddedCode segments codeSpan⟩ place' ∈ v.events)
    (h : VisitAccounted rules o.edits ⟨a.origin ++ [.code], .branch .embeddedCode segments codeSpan⟩ v) :
    VisitAccounted rules edits a
      ⟨v.node.withCode a.origin span, v.edits, v.progress, opening a place o.edits ++ v.events⟩ := by
  have hkind : a.node.kind = .insert := (o.node.property.symm.trans (congrArg Node.kind hn))
  obtain ⟨own, hown⟩ := h.edits_eq
  have hopened : Opened (opening a place o.edits ++ v.events) a.origin :=
    ⟨o.edits, List.mem_append_left _ (ran_mem_opening a place o.edits), hp⟩
  refine ⟨?_, ?_, ?_, ?_⟩
  · obtain ⟨more, hmore⟩ := exists_edits_of_call ho
    exact ⟨more ++ own, hown.trans (by rw [hmore, Edits.append_assoc])⟩
  · intro hasked b place' hb
    rcases List.mem_append.mp hb with hb | hb
    · obtain ⟨rfl, rfl⟩ := eq_of_enter_mem_opening hb
      refine runsChain_opening ho hasked (List.subset_append_left _ _) fun _ => ?_
      obtain ⟨place', henter⟩ := henter
      rw [hn]
      exact ⟨place', List.mem_append_right _ henter⟩
    · have hcode : (a.origin ++ [Step.code]).isCode ≠ false := by simp [Origin.isCode_concat]
      exact (h.ran (fun hnot => absurd hnot hcode) b place' hb).mono (List.subset_append_right _ _)
  · intro x e hx
    rcases List.mem_append.mp hx with hx | hx
    · obtain ⟨rfl, rfl⟩ := eq_of_ran_mem_opening hx
      exact .inr (.inl ⟨rfl, own, hown, fun hne => absurd hkind hne⟩)
    · rcases h.carriedOut x e hx with hcarried | ⟨rfl, more, hmore, hnone⟩ | ⟨-, hne, -⟩
      · exact .inl (hcarried.mono (List.subset_append_right _ _))
      · rw [hnone (by simp [Node.kind, Head.kind]), Edits.append_none] at hmore
        exact .inr (.inr ⟨rfl, hkind, hmore⟩)
      · simp [Node.kind, Head.kind] at hne
  · have hown : OpenedBelow [a] (opening a place o.edits) := openedBelow_own fun _ he => origin_opening he
    have hall := hown.append h.openedBelow
    refine OpenedBelow.of_opened hall hopened ?_
    intro b hb
    rw [List.mem_singleton.mp hb]
    exact ⟨.code, rfl⟩

theorem accounted_branch {head : Head} {children : List Node} {span : Option Span} {w : Swept σ}
    (hp : o.edits.pruned = false) (hn : o.node.val = .branch head children span) (hhead : head.kind ≠ .insert)
    (h : Accounted rules (arrivals a.origin .child children) w.events) :
    VisitAccounted rules edits a ⟨.walked a.origin head w.nodes span, o.edits, w.progress,
      opening a place o.edits ++ .walk a.origin children :: w.events⟩ := by
  have hopened : Opened (opening a place o.edits ++ .walk a.origin children :: w.events) a.origin :=
    ⟨o.edits, List.mem_append_left _ (ran_mem_opening a place o.edits), hp⟩
  refine ⟨exists_edits_of_call ho, ?_, ?_, ?_⟩
  · intro hasked b place' hb
    rcases List.mem_append.mp hb with hb | hb
    · obtain ⟨rfl, rfl⟩ := eq_of_enter_mem_opening hb
      refine runsChain_opening ho hasked (List.subset_append_left _ _) fun _ => ?_
      rw [hn, walkBegins_branch_iff hhead]
      exact List.mem_append_right _ List.mem_cons_self
    · have hinside := h.ran b place' (List.mem_of_ne_of_mem (by simp) hb)
      exact hinside.mono (List.Subset.trans (List.subset_cons_self _ _) (List.subset_append_right _ _))
  · intro x e hx
    rcases List.mem_append.mp hx with hx | hx
    · obtain ⟨rfl, rfl⟩ := eq_of_ran_mem_opening hx
      exact .inr (.inl ⟨rfl, Edits.none, (Edits.append_none _).symm, fun _ => rfl⟩)
    · have hcarried := h.carriedOut x e (List.mem_of_ne_of_mem (by simp) hx)
      exact .inl ((hcarried.mono (List.subset_cons_self _ _)).mono (List.subset_append_right _ _))
  · have hown : ∀ e ∈ opening a place o.edits ++ [.walk a.origin children], e.origin = a.origin := by
      intro e he
      rcases List.mem_append.mp he with he | he
      · exact origin_opening he
      · rw [List.mem_singleton.mp he]
        rfl
    have hall := (openedBelow_own hown).append h.openedBelow
    rw [List.append_assoc] at hall
    refine OpenedBelow.of_opened hall hopened ?_
    intro b hb
    obtain ⟨i, hi⟩ := exists_origin_eq_of_mem_arrivals hb
    exact ⟨.child i, hi⟩

end Visit

/-- The end of a child's visit carries out what has been asked for around it. -/
theorem accounted_settled {a : Arrival} {v : Visited σ} {q : Swept σ} (ha : a.origin.isCode = false)
    (hv : VisitAccounted rules Edits.none a v)
    (hq : Accounted rules (arrivals a.origin .before v.edits.before) q.events) :
    Accounted rules [a] (v.settled a.origin q).events := by
  have hleave : Event.leave a.origin v.edits ∈ (v.settled a.origin q).events :=
    List.mem_append_right _ List.mem_cons_self
  have hvisit : v.events ⊆ (v.settled a.origin q).events := List.subset_append_left _ _
  have hqueue : q.events ⊆ (v.settled a.origin q).events :=
    fun _ he => List.mem_append_right _ (List.mem_cons_of_mem _ he)
  refine ⟨?_, ?_, ?_⟩
  · intro b place hb
    rcases List.mem_append.mp hb with hb | hb
    · exact (hv.ran (fun _ => rfl) b place hb).mono hvisit
    · exact (hq.ran b place (List.mem_of_ne_of_mem (by simp) hb)).mono hqueue
  · intro o e ho
    rcases List.mem_append.mp ho with ho | ho
    · rcases hv.carriedOut o e ho with hcarried | ⟨rfl, more, hmore, -⟩ | ⟨rfl, -, rfl⟩
      · exact hcarried.mono hvisit
      · rw [hmore] at hleave
        exact .inr ⟨ha, more, hleave⟩
      · exact .inl ⟨a.origin, rfl, hleave⟩
    · exact (hq.carriedOut o e (List.mem_of_ne_of_mem (by simp) ho)).mono hqueue
  · have hown : OpenedBelow [a] [Event.leave a.origin v.edits] :=
      openedBelow_own fun e he => by rw [List.mem_singleton.mp he]; rfl
    have hall := hv.openedBelow.append (hown.append hq.openedBelow)
    refine hall.of_neighbours ?_
    intro b hb
    rcases List.mem_cons.mp hb with rfl | hb
    · exact .inl (List.mem_singleton_self b)
    · rcases List.mem_cons.mp hb with rfl | hb
      · exact .inl (List.mem_singleton_self b)
      · obtain ⟨j, hj⟩ := exists_origin_eq_of_mem_arrivals hb
        exact .inr ⟨a, List.mem_singleton_self a, .before j, rfl, hj⟩

/-- Every event of the traced pass is accounted for. -/
theorem preserved_accounted (rules : RuleSet σ) : Preserved rules
    (fun place edits a _ v => VisitAccounted rules edits a v ∧ .enter a place ∈ v.events)
    (fun _ a _ b => a.origin.isCode = false → Accounted rules [a] b.events)
    (fun _ _ _ queue _ q => (∀ a ∈ queue, a.origin.isCode = false) → Accounted rules queue q.events)
    (fun _ _ rest _ w => (∀ a ∈ rest, a.origin.isCode = false) → Accounted rules rest w.events) where
  still hstill := ⟨accounted_still rfl hstill, List.mem_cons_self⟩
  insert hp hn h := ⟨accounted_insert rfl hp hn ⟨_, h.2⟩ h.1, List.mem_cons_self⟩
  branch {_ _ a _ _ children _ _} hp hn hhead h := by
    have hchildren : ∀ c ∈ arrivals a.origin .child children, c.origin.isCode = false :=
      forall_mem_arrivals (fun o => o.isCode = false) (fun i => Origin.isCode_concat _ (.child i)) children
    exact ⟨accounted_branch rfl hp hn hhead (h hchildren), List.mem_cons_self⟩
  settled {_ a _ v _} hv hq ha := by
    have hqueue : ∀ c ∈ arrivals a.origin .before v.edits.before, c.origin.isCode = false :=
      forall_mem_arrivals (fun o => o.isCode = false) (fun j => Origin.isCode_concat _ (.before j)) _
    exact accounted_settled ha hv.1 (hq hqueue)
  queue_nil _ := ⟨by simp, by simp, by simp [OpenedBelow]⟩
  queue_cons hb hq hqueue := by
    rw [List.forall_mem_cons] at hqueue
    exact (hb hqueue.1).append (hq hqueue.2)
  sweep_nil _ := ⟨by simp, by simp, by simp [OpenedBelow]⟩
  sweep_cons {_ _ a rest _ b w} ns hahead hb hw hrest := by
    rw [List.forall_mem_cons] at hrest
    have hnext : ∀ c ∈ b.ahead, ∃ j, c.origin = a.origin ++ [.after j] := by
      intro c hc
      rw [hahead, List.mem_reverse] at hc
      exact exists_origin_eq_of_mem_arrivals hc
    have hcode : ∀ c ∈ b.ahead, c.origin.isCode = false := by
      intro c hc
      obtain ⟨j, hj⟩ := hnext c hc
      rw [hj]
      exact Origin.isCode_concat a.origin (.after j)
    have hall := (hb hrest.1).append (hw (List.forall_mem_append.mpr ⟨hcode, hrest.2⟩))
    refine ⟨hall.ran, hall.carriedOut, hall.openedBelow.of_neighbours ?_⟩
    intro c hc
    rcases List.mem_append.mp hc with hc | hc
    · rw [List.mem_singleton.mp hc]
      exact .inl List.mem_cons_self
    · rcases List.mem_append.mp hc with hc | hc
      · obtain ⟨j, hj⟩ := hnext c hc
        exact .inr ⟨a, List.mem_cons_self, .after j, rfl, hj⟩
      · exact .inl (List.mem_cons_of_mem a hc)

/-- The pass counts a visit for each that its trace begins, and no others. -/
theorem preserved_counted (rules : RuleSet σ) : Preserved rules
    (fun _ _ _ p v => v.progress.stats.visited = p.stats.visited + (visited v.events).length)
    (fun _ _ p b => b.progress.stats.visited = p.stats.visited + (visited b.events).length)
    (fun _ _ _ _ p q => q.progress.stats.visited = p.stats.visited + (visited q.events).length)
    (fun _ _ _ p w => w.progress.stats.visited = p.stats.visited + (visited w.events).length) where
  still _ := rfl
  insert {_ _ a p _ _ _ v} _ _ h := by
    show v.progress.stats.visited = p.stats.visited + (a :: visited v.events).length
    have hvisit : v.progress.stats.visited = (p.stats.visited + 1) + (visited v.events).length := h
    rw [hvisit, List.length_cons]
    omega
  branch {_ _ a p _ _ _ w} _ _ _ h := by
    show w.progress.stats.visited = p.stats.visited + (a :: visited w.events).length
    have hvisit : w.progress.stats.visited = (p.stats.visited + 1) + (visited w.events).length := h
    rw [hvisit, List.length_cons]
    omega
  settled {_ a p v q} hv hq := by
    show q.progress.stats.visited = p.stats.visited + (visited (v.events ++ .leave a.origin v.edits :: q.events)).length
    have hleave : visited (.leave a.origin v.edits :: q.events) = visited q.events := rfl
    rw [hq, hv, visited_append, hleave, List.length_append]
    omega
  queue_nil := rfl
  queue_cons {_ _ _ _ _ p b q} hb hq := by
    have hinsert : b.progress.stats.visited = p.stats.visited + (visited b.events).length := hb
    show q.progress.stats.visited = p.stats.visited + (visited (b.events ++ q.events)).length
    rw [hq, hinsert, visited_append, List.length_append]
    omega
  sweep_nil := rfl
  sweep_cons {_ _ _ _ p b w} _ _ hb hw := by
    show w.progress.stats.visited = p.stats.visited + (visited (b.events ++ w.events)).length
    rw [hw, hb, visited_append, List.length_append]
    omega

end Trace

end TemplatePrep

import TemplatePrep.Pass.Trace

/-!
# Induction over traces

What holds of the parts of a trace holds of the whole, if putting parts together preserves it. There are eight ways in
which the traced pass puts its parts together, and `Preserved` lists what each has to preserve; `preserved_visit` is the
induction itself.
-/

namespace TemplatePrep.Trace

variable {σ : Type}

/-- What the traced pass preserves in putting its parts together. The four predicates speak of finished visits, settled
children, settled queues and walks. -/
structure Preserved (rules : RuleSet σ) (V : Tracked.Place → Edits → Arrival → Progress σ → Visited σ → Prop)
    (S : Tracked.Place → Arrival → Progress σ → Settled σ → Prop)
    (Q : Parent → List Tracked → List Tracked → List Arrival → Progress σ → Swept σ → Prop)
    (W : Parent → List Tracked → List Arrival → Progress σ → Swept σ → Prop) : Prop where
  still : ∀ {place edits a p}, (rules.call place.erase edits a.node p.state).edits.pruned = true ∨
    (∃ k text span, (rules.call place.erase edits a.node p.state).node.val = .leaf k text span) →
    V place edits a p ⟨.fresh ⟨a.origin, (rules.call place.erase edits a.node p.state).node⟩,
      (rules.call place.erase edits a.node p.state).edits,
      p.visit.withState (rules.call place.erase edits a.node p.state).state,
      opening a place (rules.call place.erase edits a.node p.state).edits⟩
  insert : ∀ {place edits a p codeSpan segments span v},
    (rules.call place.erase edits a.node p.state).edits.pruned = false →
    (rules.call place.erase edits a.node p.state).node.val = .branch (.insert codeSpan) segments span →
    V place (rules.call place.erase edits a.node p.state).edits
      ⟨a.origin ++ [.code], .branch .embeddedCode segments codeSpan⟩
      (p.visit.withState (rules.call place.erase edits a.node p.state).state) v →
    V place edits a p ⟨v.node.withCode a.origin span, v.edits, v.progress,
      opening a place (rules.call place.erase edits a.node p.state).edits ++ v.events⟩
  branch : ∀ {place edits a p head children span w},
    (rules.call place.erase edits a.node p.state).edits.pruned = false →
    (rules.call place.erase edits a.node p.state).node.val = .branch head children span → head.kind ≠ .insert →
    W head.parent [] (arrivals a.origin .child children)
      (p.visit.withState (rules.call place.erase edits a.node p.state).state) w →
    V place edits a p ⟨.walked a.origin head w.nodes span, (rules.call place.erase edits a.node p.state).edits,
      w.progress,
      opening a place (rules.call place.erase edits a.node p.state).edits ++ .walk a.origin children :: w.events⟩
  settled : ∀ {place a p v q}, V place Edits.none a p v →
    Q place.parent place.before (v.node :: place.after) (arrivals a.origin .before v.edits.before) v.progress q →
    S place a p (v.settled a.origin q)
  queue_nil : ∀ {parent before after p}, Q parent before after [] p ⟨[], p, []⟩
  queue_cons : ∀ {parent before after a queue p b q}, S ⟨parent, before, after⟩ a (p.insert 1) b →
    Q parent (before ++ b.block) after queue b.progress q →
    Q parent before after (a :: queue) p ⟨b.block ++ q.nodes, q.progress, b.events ++ q.events⟩
  sweep_nil : ∀ {parent settled p}, W parent settled [] p ⟨settled, p, []⟩
  sweep_cons : ∀ {parent settled a rest p b w} (ns : List Node),
    b.ahead = (arrivals a.origin .after ns).reverse → S ⟨parent, settled, rest.map .fresh⟩ a p b →
    W parent (settled ++ b.placed) (b.ahead ++ rest) b.progress w →
    W parent settled (a :: rest) p ⟨w.nodes, w.progress, b.events ++ w.events⟩

/-- The nodes that a walk comes to behind a settled child are those asked for there, the last one first. -/
theorem exists_ahead_eq {rules : RuleSet σ} {limit : Nat} {place : Tracked.Place} {a : Arrival} {p : Progress σ}
    {b : Settled σ} (hb : settle rules limit place a p = some b) :
    ∃ ns, b.ahead = (arrivals a.origin .after ns).reverse := by
  cases limit with
  | zero => simp [settle] at hb
  | succ limit =>
    unfold settle at hb
    obtain ⟨v, _, hb⟩ := Option.bind_eq_some_iff.mp hb
    obtain ⟨q, _, hb⟩ := Option.bind_eq_some_iff.mp hb
    cases hb
    exact ⟨v.edits.after, rfl⟩

variable {rules : RuleSet σ} {V : Tracked.Place → Edits → Arrival → Progress σ → Visited σ → Prop}
  {S : Tracked.Place → Arrival → Progress σ → Settled σ → Prop}
  {Q : Parent → List Tracked → List Tracked → List Arrival → Progress σ → Swept σ → Prop}
  {W : Parent → List Tracked → List Arrival → Progress σ → Swept σ → Prop}

/-- One more step of limit for visits, from what holds of visits and walks within the limit. -/
theorem Preserved.visit_succ (h : Preserved rules V S Q W) {limit : Nat}
    (ihv : ∀ place edits a p v, visit rules limit place edits a p = some v → V place edits a p v)
    (ihw : ∀ parent settled rest p w, sweep rules limit parent settled rest p = some w → W parent settled rest p w)
    {place : Tracked.Place} {edits : Edits} {a : Arrival} {p : Progress σ} {v : Visited σ}
    (hv : visit rules (limit + 1) place edits a p = some v) : V place edits a p v := by
  rw [visit] at hv
  by_cases hp : (rules.call place.erase edits a.node p.state).edits.pruned = true
  · rw [if_pos hp] at hv
    cases hv
    exact h.still (.inl hp)
  · rw [if_neg hp] at hv
    rw [Bool.not_eq_true] at hp
    cases hn : (rules.call place.erase edits a.node p.state).node.val with
    | leaf k text span =>
      rw [hn] at hv
      cases hv
      rw [← hn]
      exact h.still (.inr ⟨k, text, span, hn⟩)
    | branch head children span =>
      rw [hn] at hv
      cases head with
      | insert codeSpan =>
        obtain ⟨w, hw, hv⟩ := Option.bind_eq_some_iff.mp hv
        cases hv
        exact h.insert hp hn (ihv _ _ _ _ _ hw)
      | topLevel | element | embeddedCode | property =>
        obtain ⟨w, hw, hv⟩ := Option.bind_eq_some_iff.mp hv
        cases hv
        exact h.branch hp hn (by simp [Head.kind]) (ihw _ _ _ _ _ hw)

/-- What is preserved in putting parts together holds of every part of a traced pass. -/
theorem Preserved.complete_induction (h : Preserved rules V S Q W) (limit : Nat) :
    (∀ place edits a p v, visit rules limit place edits a p = some v → V place edits a p v) ∧
    (∀ place a p b, settle rules limit place a p = some b → S place a p b) ∧
    (∀ parent before after queue p q, settleQueue rules limit parent before after queue p = some q →
      Q parent before after queue p q) ∧
    (∀ parent settled rest p w, sweep rules limit parent settled rest p = some w → W parent settled rest p w) := by
  -- on the limit, for all four at once
  induction limit with
  | zero => simp [visit, settle, settleQueue, sweep]
  | succ limit ih =>
    obtain ⟨ihv, ihs, ihq, ihw⟩ := ih
    refine ⟨?_, ?_, ?_, ?_⟩
    · intro place edits a p v hv
      exact h.visit_succ ihv ihw hv
    · intro place a p b hb
      unfold settle at hb
      obtain ⟨v, hv, hb⟩ := Option.bind_eq_some_iff.mp hb
      obtain ⟨q, hq, hb⟩ := Option.bind_eq_some_iff.mp hb
      cases hb
      exact h.settled (ihv _ _ _ _ _ hv) (ihq _ _ _ _ _ _ hq)
    · intro parent before after queue p q hq
      cases queue with
      | nil =>
        unfold settleQueue at hq
        cases hq
        exact h.queue_nil
      | cons a queue =>
        unfold settleQueue at hq
        obtain ⟨b, hb, hq⟩ := Option.bind_eq_some_iff.mp hq
        obtain ⟨r, hr, hq⟩ := Option.bind_eq_some_iff.mp hq
        cases hq
        exact h.queue_cons (ihs _ _ _ _ hb) (ihq _ _ _ _ _ _ hr)
    · intro parent settled rest p w hw
      cases rest with
      | nil =>
        unfold sweep at hw
        cases hw
        exact h.sweep_nil
      | cons a rest =>
        unfold sweep at hw
        obtain ⟨b, hb, hw⟩ := Option.bind_eq_some_iff.mp hw
        obtain ⟨x, hx, hw⟩ := Option.bind_eq_some_iff.mp hw
        cases hw
        obtain ⟨ns, hahead⟩ := exists_ahead_eq hb
        exact h.sweep_cons ns hahead (ihs _ _ _ _ hb) (ihw _ _ _ _ _ hx)

theorem Preserved.preserved_visit (h : Preserved rules V S Q W) {limit : Nat} {place : Tracked.Place} {edits : Edits}
    {a : Arrival} {p : Progress σ} {v : Visited σ} (hv : visit rules limit place edits a p = some v) :
    V place edits a p v :=
  (h.complete_induction limit).1 _ _ _ _ _ hv

end TemplatePrep.Trace

import TemplatePrep.Proofs.Pass.Limit

/-!
# Finished parts of a pass

`Visits`, `Settles`, `Queues` and `Sweeps` say what a visit, a settled child, a settled queue and a walk end with, the
limit left out. Each comes with the rules by which it is composed of smaller finished parts, and `complete_induction`
is the converse: what the rules preserve holds of every finished part.
-/

namespace TemplatePrep

namespace Blocks

variable {σ : Type}

/-- A visit ends, within some limit. -/
def Visits (rules : RuleSet σ) (place : Place) (edits : Edits) (n : Node) (p : Progress σ) (v : Visited σ) : Prop :=
  ∃ limit, visit rules limit place edits n p = some v

/-- A child is settled, within some limit. -/
def Settles (rules : RuleSet σ) (place : Place) (n : Node) (p : Progress σ) (b : Settled σ) : Prop :=
  ∃ limit, settle rules limit place n p = some b

/-- The nodes asked for in front of a child are settled, within some limit. -/
def Queues (rules : RuleSet σ) (parent : Parent) (before after queue : List Node) (p : Progress σ) (q : Swept σ) :
    Prop :=
  ∃ limit, settleQueue rules limit parent before after queue p = some q

/-- A walk ends, within some limit. -/
def Sweeps (rules : RuleSet σ) (parent : Parent) (settled rest : List Node) (p : Progress σ) (w : Swept σ) : Prop :=
  ∃ limit, sweep rules limit parent settled rest p = some w

variable {rules : RuleSet σ}

/-- A visit ends in one way at most. -/
theorem Visits.unique {place : Place} {edits : Edits} {n : Node} {p : Progress σ} {v w : Visited σ}
    (hv : Visits rules place edits n p v) (hw : Visits rules place edits n p w) : v = w := by
  obtain ⟨small, hv⟩ := hv
  obtain ⟨large, hw⟩ := hw
  have hv' := (extends_of_le (Nat.le_max_left small large)).visit hv
  have hw' := (extends_of_le (Nat.le_max_right small large)).visit hw
  exact Option.some.inj (hv'.symm.trans hw')

/-- All that a visit can do: it is over with the chain or at a leaf, or it goes on to the code or to the children. -/
theorem visit_cases {limit : Nat} {place : Place} {edits : Edits} {n : Node} {p : Progress σ} {v : Visited σ}
    (hv : visit rules (limit + 1) place edits n p = some v) :
    (rules.call place edits n p.state).edits.pruned = true ∧
      v = ⟨(rules.call place edits n p.state).node, (rules.call place edits n p.state).edits,
        p.visit.withState (rules.call place edits n p.state).state⟩ ∨
    (rules.call place edits n p.state).edits.pruned = false ∧
      ((∃ k text span, (rules.call place edits n p.state).node.val = .leaf k text span ∧
        v = ⟨.leaf k text span, (rules.call place edits n p.state).edits,
          p.visit.withState (rules.call place edits n p.state).state⟩) ∨
      (∃ codeSpan segments span w,
        (rules.call place edits n p.state).node.val = .branch (.insert codeSpan) segments span ∧
        visit rules limit place (rules.call place edits n p.state).edits (.branch .embeddedCode segments codeSpan)
          (p.visit.withState (rules.call place edits n p.state).state) = some w ∧
        v = ⟨withCode span w.node, w.edits, w.progress⟩) ∨
      (∃ head children span w,
        (rules.call place edits n p.state).node.val = .branch head children span ∧ head.kind ≠ .insert ∧
        sweep rules limit head.parent [] children
          (p.visit.withState (rules.call place edits n p.state).state) = some w ∧
        v = ⟨.branch head w.nodes span, (rules.call place edits n p.state).edits, w.progress⟩)) := by
  rw [visit_succ] at hv
  by_cases hp : (rules.call place edits n p.state).edits.pruned = true
  · rw [if_pos hp] at hv
    exact .inl ⟨hp, (Option.some.inj hv).symm⟩
  · rw [if_neg hp, Behaviour.walk] at hv
    refine .inr ⟨by simpa using hp, ?_⟩
    cases hn : (rules.call place edits n p.state).node.val with
    | leaf k text span =>
      rw [hn] at hv
      exact .inl ⟨k, text, span, rfl, (Option.some.inj hv).symm⟩
    | branch head children span =>
      rw [hn] at hv
      cases head with
      | insert codeSpan =>
        obtain ⟨w, hw, hv⟩ := Option.bind_eq_some_iff.mp hv
        exact .inr (.inl ⟨codeSpan, children, span, w, rfl, hw, (Option.some.inj hv).symm⟩)
      | topLevel | element | embeddedCode | property =>
        obtain ⟨w, hw, hv⟩ := Option.bind_eq_some_iff.mp hv
        exact .inr (.inr ⟨_, children, span, w, rfl, by simp [Head.kind], hw, (Option.some.inj hv).symm⟩)

/-! ## Composition -/

section Visit

variable {place : Place} {edits : Edits} {n : Node} {p : Progress σ}

/-- A visit whose chain removes the node is over. -/
theorem Visits.pruned (hp : (rules.call place edits n p.state).edits.pruned = true) :
    Visits rules place edits n p ⟨(rules.call place edits n p.state).node,
      (rules.call place edits n p.state).edits, p.visit.withState (rules.call place edits n p.state).state⟩ := by
  refine ⟨1, ?_⟩
  rw [visit_succ, if_pos hp]

/-- A leaf has nothing to walk. -/
theorem Visits.leaf {k : LeafKind} {text : String} {span : Option Span}
    (hp : (rules.call place edits n p.state).edits.pruned = false)
    (hn : (rules.call place edits n p.state).node.val = .leaf k text span) :
    Visits rules place edits n p ⟨.leaf k text span,
      (rules.call place edits n p.state).edits, p.visit.withState (rules.call place edits n p.state).state⟩ := by
  refine ⟨1, ?_⟩
  rw [visit_succ, if_neg (by simp [hp]), Behaviour.walk]
  simp only [hn]

/-- An insert goes on to its code, with the requests made so far. -/
theorem Visits.insert {codeSpan span : Option Span} {segments : List Node} {v : Visited σ}
    (hp : (rules.call place edits n p.state).edits.pruned = false)
    (hn : (rules.call place edits n p.state).node.val = .branch (.insert codeSpan) segments span)
    (hv : Visits rules place (rules.call place edits n p.state).edits (.branch .embeddedCode segments codeSpan)
      (p.visit.withState (rules.call place edits n p.state).state) v) :
    Visits rules place edits n p ⟨withCode span v.node, v.edits, v.progress⟩ := by
  obtain ⟨limit, hv⟩ := hv
  refine ⟨limit + 1, ?_⟩
  rw [visit_succ, if_neg (by simp [hp]), Behaviour.walk]
  simp only [hn, hv]
  rfl

/-- Any other branch goes on to its children. -/
theorem Visits.branch {head : Head} {children : List Node} {span : Option Span} {w : Swept σ}
    (hp : (rules.call place edits n p.state).edits.pruned = false)
    (hn : (rules.call place edits n p.state).node.val = .branch head children span) (hhead : head.kind ≠ .insert)
    (hw : Sweeps rules head.parent [] children (p.visit.withState (rules.call place edits n p.state).state) w) :
    Visits rules place edits n p
      ⟨.branch head w.nodes span, (rules.call place edits n p.state).edits, w.progress⟩ := by
  obtain ⟨limit, hw⟩ := hw
  refine ⟨limit + 1, ?_⟩
  rw [visit_succ, if_neg (by simp [hp]), Behaviour.walk]
  cases head with
  | insert => exact absurd rfl hhead
  | topLevel | element | embeddedCode | property =>
    simp only [hn, hw]
    rfl

end Visit

/-- The visit of a leaf is over with its chain. -/
theorem Visits.of_leaf (rules : RuleSet σ) (place : Place) (edits : Edits) (kind : LeafKind) (text : String)
    (span : Option Span) (p : Progress σ) :
    Visits rules place edits (.leaf kind text span) p
      ⟨(rules.call place edits (.leaf kind text span) p.state).node,
        (rules.call place edits (.leaf kind text span) p.state).edits,
        p.visit.withState (rules.call place edits (.leaf kind text span) p.state).state⟩ := by
  by_cases hp : (rules.call place edits (.leaf kind text span) p.state).edits.pruned = true
  · exact Visits.pruned hp
  · rw [Bool.not_eq_true] at hp
    have hk := (rules.call place edits (.leaf kind text span) p.state).node.property
    cases hn : (rules.call place edits (.leaf kind text span) p.state).node.val with
    | leaf => exact Visits.leaf hp hn
    | branch head =>
      rw [hn] at hk
      cases head <;> cases kind <;> simp [Node.kind, Head.kind, LeafKind.kind] at hk

/-- A visited child is settled once the nodes asked for in front of it are. -/
theorem Visits.settles {place : Place} {n : Node} {p : Progress σ} {v : Visited σ} {q : Swept σ}
    (hv : Visits rules place Edits.none n p v)
    (hq : Queues rules place.parent place.before (v.node :: place.after) v.edits.before v.progress q) :
    Settles rules place n p (v.settled q) := by
  obtain ⟨small, hv⟩ := hv
  obtain ⟨large, hq⟩ := hq
  refine ⟨max small large + 1, ?_⟩
  rw [settle, (extends_of_le (Nat.le_max_left small large)).visit hv]
  simp only [Option.bind_eq_bind, Option.bind_some]
  rw [(extends_of_le (Nat.le_max_right small large)).queue hq]
  rfl

theorem Queues.nil {parent : Parent} {before after : List Node} {p : Progress σ} :
    Queues rules parent before after [] p ⟨[], p⟩ :=
  ⟨1, rfl⟩

/-- The first node of a queue is settled, then the others behind what it has become. -/
theorem Queues.cons {parent : Parent} {before after queue : List Node} {n : Node} {p : Progress σ} {b : Settled σ}
    {q : Swept σ} (hb : Settles rules ⟨parent, before, after⟩ n (p.insert 1) b)
    (hq : Queues rules parent (before ++ b.block) after queue b.progress q) :
    Queues rules parent before after (n :: queue) p ⟨b.block ++ q.nodes, q.progress⟩ := by
  obtain ⟨small, hb⟩ := hb
  obtain ⟨large, hq⟩ := hq
  refine ⟨max small large + 1, ?_⟩
  rw [settleQueue, (extends_of_le (Nat.le_max_left small large)).settle hb]
  simp only [Option.bind_eq_bind, Option.bind_some]
  rw [(extends_of_le (Nat.le_max_right small large)).queue hq]
  rfl

/-- A child around which nothing is asked for is settled at once. -/
theorem Visits.settles_alone {place : Place} {n : Node} {p : Progress σ} {v : Visited σ}
    (hv : Visits rules place Edits.none n p v) (hbefore : v.edits.before = []) (hafter : v.edits.after = []) :
    Settles rules place n p ⟨v.kept, [], v.progress.prune v.edits.pruned⟩ := by
  have hq : Queues rules place.parent place.before (v.node :: place.after) v.edits.before v.progress
      ⟨[], v.progress⟩ := by
    rw [hbefore]
    exact Queues.nil
  have hs := hv.settles hq
  rw [Visited.settled, hafter] at hs
  exact hs

section Alone

variable {place : Place} {edits : Edits} {head : Head} {children nodes : List Node} {span : Option Span} {c : Stats}

/-- A branch other than an insert that its chain leaves alone keeps its head and its span, and its children become what
a walk makes of them. -/
theorem Visits.branch_alone_of_ne_insert (hp : edits.pruned = false) (hhead : head.kind ≠ .insert)
    (hcall : ∀ s, rules.call place edits (.branch head children span) s =
      ⟨⟨.branch head children span, rfl⟩, edits, s⟩)
    (hw : ∀ q : Progress σ, Sweeps rules head.parent [] children q ⟨nodes, q.add c⟩) (p : Progress σ) :
    Visits rules place edits (.branch head children span) p
      ⟨.branch head nodes span, edits, p.add (⟨1, 0, 0⟩ + c)⟩ := by
  have hv : Visits rules place edits (.branch head children span) p _ :=
    Visits.branch (by rw [hcall]; exact hp) (by rw [hcall]) hhead (by rw [hcall]; exact hw (p.add ⟨1, 0, 0⟩))
  rw [hcall, Progress.add_add] at hv
  exact hv

/-- So does an insert if the chain of its code leaves the code alone too. The insert and its code are two visits. -/
theorem Visits.branch_alone (hp : edits.pruned = false)
    (hcall : ∀ s, rules.call place edits (.branch head children span) s =
      ⟨⟨.branch head children span, rfl⟩, edits, s⟩)
    (hcode : ∀ codeSpan s, rules.call place edits (.branch .embeddedCode children codeSpan) s =
      ⟨⟨.branch .embeddedCode children codeSpan, rfl⟩, edits, s⟩)
    (hw : ∀ q : Progress σ, Sweeps rules head.parent [] children q ⟨nodes, q.add c⟩) (p : Progress σ) :
    Visits rules place edits (.branch head children span) p
      ⟨.branch head nodes span, edits, p.add (⟨Node.ownCount head, 0, 0⟩ + c)⟩ := by
  by_cases hhead : head.kind = .insert
  · obtain ⟨codeSpan, rfl⟩ := Head.exists_eq_insert hhead
    -- the walk belongs to the code
    have hinner : Visits rules place edits (.branch .embeddedCode children codeSpan) (p.add ⟨1, 0, 0⟩)
        ⟨.branch .embeddedCode nodes codeSpan, edits, (p.add ⟨1, 0, 0⟩).add (⟨1, 0, 0⟩ + c)⟩ :=
      Visits.branch_alone_of_ne_insert hp Kind.noConfusion (hcode codeSpan) hw _
    have hv : Visits rules place edits (.branch (.insert codeSpan) children span) p _ :=
      Visits.insert (by rw [hcall]; exact hp) (by rw [hcall]) (by rw [hcall]; exact hinner)
    rw [Progress.add_add, ← Stats.add_assoc] at hv
    exact hv
  · have hown : Node.ownCount head = 1 := by
      cases head with
      | insert => exact absurd rfl hhead
      | topLevel | element | embeddedCode | property => rfl
    rw [hown]
    exact Visits.branch_alone_of_ne_insert hp hhead hcall hw p

end Alone

theorem Sweeps.nil {parent : Parent} {settled : List Node} {p : Progress σ} :
    Sweeps rules parent settled [] p ⟨settled, p⟩ :=
  ⟨1, rfl⟩

/-- The first of the siblings ahead is settled, then the walk goes on with what now follows. -/
theorem Sweeps.cons {parent : Parent} {settled rest : List Node} {n : Node} {p : Progress σ} {b : Settled σ}
    {w : Swept σ} (hb : Settles rules ⟨parent, settled, rest⟩ n p b)
    (hw : Sweeps rules parent (settled ++ b.placed) (b.ahead ++ rest) b.progress w) :
    Sweeps rules parent settled (n :: rest) p w := by
  obtain ⟨small, hb⟩ := hb
  obtain ⟨large, hw⟩ := hw
  refine ⟨max small large + 1, ?_⟩
  rw [sweep, (extends_of_le (Nat.le_max_left small large)).settle hb]
  exact (extends_of_le (Nat.le_max_right small large)).sweep hw

/-! ## Induction -/

/-- What the rules of composition preserve. The four predicates speak of finished visits, settled children, settled
queues and walks; each rule may use that its parts have finished. -/
structure Preserved (rules : RuleSet σ) (V : Place → Edits → Node → Progress σ → Visited σ → Prop)
    (S : Place → Node → Progress σ → Settled σ → Prop)
    (Q : Parent → List Node → List Node → List Node → Progress σ → Swept σ → Prop)
    (W : Parent → List Node → List Node → Progress σ → Swept σ → Prop) : Prop where
  pruned : ∀ {place edits n p}, (rules.call place edits n p.state).edits.pruned = true →
    V place edits n p ⟨(rules.call place edits n p.state).node, (rules.call place edits n p.state).edits,
      p.visit.withState (rules.call place edits n p.state).state⟩
  leaf : ∀ {place edits n p k text span}, (rules.call place edits n p.state).edits.pruned = false →
    (rules.call place edits n p.state).node.val = .leaf k text span →
    V place edits n p ⟨.leaf k text span, (rules.call place edits n p.state).edits,
      p.visit.withState (rules.call place edits n p.state).state⟩
  insert : ∀ {place edits n p codeSpan segments span v}, (rules.call place edits n p.state).edits.pruned = false →
    (rules.call place edits n p.state).node.val = .branch (.insert codeSpan) segments span →
    Visits rules place (rules.call place edits n p.state).edits (.branch .embeddedCode segments codeSpan)
      (p.visit.withState (rules.call place edits n p.state).state) v →
    V place (rules.call place edits n p.state).edits (.branch .embeddedCode segments codeSpan)
      (p.visit.withState (rules.call place edits n p.state).state) v →
    V place edits n p ⟨withCode span v.node, v.edits, v.progress⟩
  branch : ∀ {place edits n p head children span w}, (rules.call place edits n p.state).edits.pruned = false →
    (rules.call place edits n p.state).node.val = .branch head children span → head.kind ≠ .insert →
    Sweeps rules head.parent [] children (p.visit.withState (rules.call place edits n p.state).state) w →
    W head.parent [] children (p.visit.withState (rules.call place edits n p.state).state) w →
    V place edits n p ⟨.branch head w.nodes span, (rules.call place edits n p.state).edits, w.progress⟩
  settled : ∀ {place n p v q}, Visits rules place Edits.none n p v → V place Edits.none n p v →
    Queues rules place.parent place.before (v.node :: place.after) v.edits.before v.progress q →
    Q place.parent place.before (v.node :: place.after) v.edits.before v.progress q → S place n p (v.settled q)
  queue_nil : ∀ {parent before after p}, Q parent before after [] p ⟨[], p⟩
  queue_cons : ∀ {parent before after n queue p b q}, Settles rules ⟨parent, before, after⟩ n (p.insert 1) b →
    S ⟨parent, before, after⟩ n (p.insert 1) b →
    Queues rules parent (before ++ b.block) after queue b.progress q →
    Q parent (before ++ b.block) after queue b.progress q →
    Q parent before after (n :: queue) p ⟨b.block ++ q.nodes, q.progress⟩
  sweep_nil : ∀ {parent settled p}, W parent settled [] p ⟨settled, p⟩
  sweep_cons : ∀ {parent settled n rest p b w}, Settles rules ⟨parent, settled, rest⟩ n p b →
    S ⟨parent, settled, rest⟩ n p b →
    Sweeps rules parent (settled ++ b.placed) (b.ahead ++ rest) b.progress w →
    W parent (settled ++ b.placed) (b.ahead ++ rest) b.progress w → W parent settled (n :: rest) p w

variable {V : Place → Edits → Node → Progress σ → Visited σ → Prop}
  {S : Place → Node → Progress σ → Settled σ → Prop}
  {Q : Parent → List Node → List Node → List Node → Progress σ → Swept σ → Prop}
  {W : Parent → List Node → List Node → Progress σ → Swept σ → Prop}

/-- What the rules of composition preserve holds of every finished part of a pass. -/
theorem Preserved.complete_induction (h : Preserved rules V S Q W) (limit : Nat) :
    (∀ place edits n p v, visit rules limit place edits n p = some v → V place edits n p v) ∧
    (∀ place n p b, settle rules limit place n p = some b → S place n p b) ∧
    (∀ parent before after queue p q, settleQueue rules limit parent before after queue p = some q →
      Q parent before after queue p q) ∧
    (∀ parent settled rest p w, sweep rules limit parent settled rest p = some w → W parent settled rest p w) := by
  -- on the limit, for all four at once; that the parts have finished is what the limit says of them
  induction limit with
  | zero => simp [visit, settle, settleQueue, sweep]
  | succ limit ih =>
    obtain ⟨ihv, ihs, ihq, ihw⟩ := ih
    refine ⟨?_, ?_, ?_, ?_⟩
    · intro place edits n p v hv
      obtain ⟨hp, rfl⟩ | ⟨hp, ⟨k, text, span, hn, rfl⟩ | ⟨codeSpan, segments, span, w, hn, hw, rfl⟩ |
        ⟨head, children, span, w, hn, hhead, hw, rfl⟩⟩ := visit_cases hv
      · exact h.pruned hp
      · exact h.leaf hp hn
      · exact h.insert hp hn ⟨limit, hw⟩ (ihv _ _ _ _ _ hw)
      · exact h.branch hp hn hhead ⟨limit, hw⟩ (ihw _ _ _ _ _ hw)
    · intro place n p b hb
      unfold settle at hb
      obtain ⟨v, hv, hb⟩ := Option.bind_eq_some_iff.mp hb
      obtain ⟨q, hq, hb⟩ := Option.bind_eq_some_iff.mp hb
      cases hb
      exact h.settled ⟨limit, hv⟩ (ihv _ _ _ _ _ hv) ⟨limit, hq⟩ (ihq _ _ _ _ _ _ hq)
    · intro parent before after queue p q hq
      cases queue with
      | nil =>
        unfold settleQueue at hq
        cases hq
        exact h.queue_nil
      | cons n queue =>
        unfold settleQueue at hq
        obtain ⟨b, hb, hq⟩ := Option.bind_eq_some_iff.mp hq
        obtain ⟨r, hr, hq⟩ := Option.bind_eq_some_iff.mp hq
        cases hq
        exact h.queue_cons ⟨limit, hb⟩ (ihs _ _ _ _ hb) ⟨limit, hr⟩ (ihq _ _ _ _ _ _ hr)
    · intro parent settled rest p w hw
      cases rest with
      | nil =>
        unfold sweep at hw
        cases hw
        exact h.sweep_nil
      | cons n rest =>
        unfold sweep at hw
        obtain ⟨b, hb, hw⟩ := Option.bind_eq_some_iff.mp hw
        exact h.sweep_cons ⟨limit, hb⟩ (ihs _ _ _ _ hb) ⟨limit, hw⟩ (ihw _ _ _ _ _ hw)

theorem Preserved.visits (h : Preserved rules V S Q W) {place : Place} {edits : Edits} {n : Node} {p : Progress σ}
    {v : Visited σ} (hv : Visits rules place edits n p v) : V place edits n p v :=
  hv.elim fun limit hv => (h.complete_induction limit).1 _ _ _ _ _ hv

theorem Preserved.settles (h : Preserved rules V S Q W) {place : Place} {n : Node} {p : Progress σ} {b : Settled σ}
    (hb : Settles rules place n p b) : S place n p b :=
  hb.elim fun limit hb => (h.complete_induction limit).2.1 _ _ _ _ hb

end Blocks

/-- A pass finishes if and only if the visit of its root does. -/
theorem RuleSet.exists_run?_iff {σ : Type} {rules : RuleSet σ} {t : Template} {s : σ} {r : PassResult σ} :
    (∃ limit, rules.run? limit t s = some r) ↔
      ∃ v, Blocks.Visits rules Place.root Edits.none t.root ⟨Stats.zero, s⟩ v ∧
        r = ⟨.ofRoot v.node, v.progress.stats, v.progress.state⟩ := by
  constructor
  · rintro ⟨limit, h⟩
    obtain ⟨v, hv, hr⟩ := RuleSet.run?_eq_some_iff.mp h
    exact ⟨v, ⟨limit, hv⟩, hr⟩
  · rintro ⟨v, ⟨limit, hv⟩, hr⟩
    exact ⟨limit, RuleSet.run?_eq_some_iff.mpr ⟨v, hv, hr⟩⟩

end TemplatePrep

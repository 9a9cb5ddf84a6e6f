import TemplatePrep.Pass.Journal
import TemplatePrep.Proofs.Pass.TraceInduction

/-!
# Induction over journals

The pass that keeps a journal edits its siblings in place, the traced pass only appends. Both leave the same trees,
edits and counts at the same limit, so wherever the one finishes, the other does. `Preserved` lists what the eight ways
of putting parts together have to preserve in terms of what the traced pass leaves and of the entries noted meanwhile;
`Preserved.follows` proves by one induction that the
journal is there and that it has the property.
-/

namespace TemplatePrep

/-! ## Changes at the cursor -/

theorem Change.apply_replace (before after : List Tracked) (n m : Tracked) :
    (replace before.length m).apply (before ++ n :: after) = before ++ m :: after := by
  rw [apply, List.set_append_right _ _ (Nat.le_refl _), Nat.sub_self, List.set_cons_zero]

theorem Change.apply_put (before after : List Tracked) (a : Arrival) :
    (put before.length a).apply (before ++ after) = before ++ .fresh a :: after := by
  rw [apply]
  induction before with
  | nil => rfl
  | cons m rest ih => rw [List.cons_append, List.length_cons, List.insertIdx_succ_cons, ih, List.cons_append]

theorem Change.apply_take (before after : List Tracked) (n : Tracked) :
    (take before.length).apply (before ++ n :: after) = before ++ after := by
  rw [apply, List.eraseIdx_append_of_length_le (Nat.le_refl _), Nat.sub_self, List.eraseIdx_cons_zero]

/-- Nodes put at one index after another stand there with the last first. -/
theorem Change.foldl_apply_put (before after : List Tracked) (as : List Arrival) :
    (as.map (put before.length)).foldl Change.apply (before ++ after) =
      before ++ (as.reverse.map .fresh ++ after) := by
  induction as generalizing after with
  | nil => rfl
  | cons a rest ih =>
    rw [List.map_cons, List.foldl_cons, apply_put, ih, List.reverse_cons, List.map_append, List.append_assoc]
    rfl

/-- The end of a visit leaves the node unless it is removed, and behind it the nodes asked for there. -/
theorem Edits.foldl_apply_closing (edits : Edits) (o : Origin) (before after : List Tracked) (n : Tracked) :
    (edits.closing o before.length).foldl Change.apply (before ++ n :: after) =
      before ++ ((if edits.pruned then [] else [n]) ++
        ((arrivals o .after edits.after).reverse.map .fresh ++ after)) := by
  have hput := Change.foldl_apply_put (before ++ [n]) after (arrivals o .after edits.after)
  rw [List.length_append, List.length_singleton, List.append_assoc, List.append_assoc] at hput
  rw [closing, List.foldl_append, ← List.singleton_append, hput]
  by_cases hp : edits.pruned
  · rw [if_pos hp, if_pos hp, List.foldl_cons, List.foldl_nil]
    exact Change.apply_take before _ n
  · rw [if_neg hp, if_neg hp, List.foldl_nil]

namespace Journal

variable {σ : Type}

/-! ## What entries are noted -/

/-- The entries of a settled child: those of its visit, what it becomes, those of the nodes asked for in front of it,
and what is done behind these. -/
def settledEntries (container : Origin) (before : List Tracked) (o : Origin) (v : Trace.Visited σ) (q : Trace.Swept σ)
    (visit front : List Entry) : List Entry :=
  visit ++ .change container (.replace before.length v.node) ::
    (front ++ (v.edits.closing o (before ++ q.nodes).length).map (.change container))

/-- The entry with which a visit begins. -/
def opening (rules : RuleSet σ) (container : Option Origin) (place : Tracked.Place) (edits : Edits) (a : Arrival)
    (s : σ) : Entry :=
  .visit a container place edits (rules.calls place.erase edits a.node s)

section

variable (rules : RuleSet σ)
  (V : Option Origin → Tracked.Place → Edits → Arrival → Progress σ → Trace.Visited σ → List Entry → Prop)
  (S : Origin → Tracked.Place → Arrival → Progress σ → Trace.Settled σ → List Entry → Prop)
  (Q : Origin → Parent → List Tracked → List Tracked → List Arrival → Progress σ → Trace.Swept σ → List Entry → Prop)
  (W : Origin → Parent → List Tracked → List Arrival → Progress σ → Trace.Swept σ → List Entry → Prop)

/-- What a pass preserves in putting its parts together. The four predicates speak of finished visits, settled children,
settled queues and walks, each as the traced pass leaves it and with the entries noted in it. -/
structure Preserved : Prop where
  still : ∀ {container place edits a p},
    (rules.call place.erase edits a.node p.state).edits.pruned = true ∨
    (∃ k text span, (rules.call place.erase edits a.node p.state).node.val = .leaf k text span) →
    V container place edits a p ⟨.fresh ⟨a.origin, (rules.call place.erase edits a.node p.state).node⟩,
      (rules.call place.erase edits a.node p.state).edits,
      p.visit.withState (rules.call place.erase edits a.node p.state).state,
      Trace.opening a place (rules.call place.erase edits a.node p.state).edits⟩
      [opening rules container place edits a p.state]
  insert : ∀ {container place edits a p codeSpan segments span v entries},
    (rules.call place.erase edits a.node p.state).edits.pruned = false →
    (rules.call place.erase edits a.node p.state).node.val = .branch (.insert codeSpan) segments span →
    V container place (rules.call place.erase edits a.node p.state).edits
      ⟨a.origin ++ [.code], .branch .embeddedCode segments codeSpan⟩
      (p.visit.withState (rules.call place.erase edits a.node p.state).state) v entries →
    V container place edits a p ⟨v.node.withCode a.origin span, v.edits, v.progress,
      Trace.opening a place (rules.call place.erase edits a.node p.state).edits ++ v.events⟩
      (opening rules container place edits a p.state :: entries)
  branch : ∀ {container place edits a p head children span w entries},
    (rules.call place.erase edits a.node p.state).edits.pruned = false →
    (rules.call place.erase edits a.node p.state).node.val = .branch head children span → head.kind ≠ .insert →
    W a.origin head.parent [] (arrivals a.origin .child children)
      (p.visit.withState (rules.call place.erase edits a.node p.state).state) w entries →
    V container place edits a p ⟨.walked a.origin head w.nodes span,
      (rules.call place.erase edits a.node p.state).edits, w.progress,
      Trace.opening a place (rules.call place.erase edits a.node p.state).edits ++
        .walk a.origin children :: w.events⟩
      (opening rules container place edits a p.state ::
        .walk a.origin head.parent (arrivals a.origin .child children) :: entries)
  settled : ∀ {container place a p v q visit front}, V (some container) place Edits.none a p v visit →
    Q container place.parent place.before (v.node :: place.after) (arrivals a.origin .before v.edits.before) v.progress
      q front →
    S container place a p (v.settled a.origin q) (settledEntries container place.before a.origin v q visit front)
  queue_nil : ∀ {container parent before after p}, Q container parent before after [] p ⟨[], p, []⟩ []
  queue_cons : ∀ {container parent before after a queue p b q block entries},
    S container ⟨parent, before, after⟩ a (p.insert 1) b block →
    Q container parent (before ++ b.block) after queue b.progress q entries →
    Q container parent before after (a :: queue) p ⟨b.block ++ q.nodes, q.progress, b.events ++ q.events⟩
      (.change container (.put before.length a) :: (block ++ entries))
  sweep_nil : ∀ {container parent settled p}, W container parent settled [] p ⟨settled, p, []⟩ []
  sweep_cons : ∀ {container parent settled a rest p b w block entries} (ns : List Node),
    b.ahead = (arrivals a.origin .after ns).reverse →
    S container ⟨parent, settled, rest.map .fresh⟩ a p b block →
    W container parent (settled ++ b.placed) (b.ahead ++ rest) b.progress w entries →
    W container parent settled (a :: rest) p ⟨w.nodes, w.progress, b.events ++ w.events⟩ (block ++ entries)

/-- Where a part of the traced pass finishes within a limit, so does its counterpart with a journal. It leaves the same,
and the entries it notes are as preserved. -/
structure Follows (limit : Nat) : Prop where
  visit : ∀ container {place edits a p v}, Trace.visit rules limit place edits a p = some v →
    ∃ entries, visit rules limit container place edits a p = some ⟨v.node, v.edits, v.progress, entries⟩ ∧
      V container place edits a p v entries
  settle : ∀ container {parent before after a p b}, Trace.settle rules limit ⟨parent, before, after⟩ a p = some b →
    ∃ entries, settleAt rules limit container parent (before ++ .fresh a :: after) before.length p =
      some ⟨before ++ (b.block ++ after), (before ++ b.placed).length, b.progress, entries⟩ ∧
      S container ⟨parent, before, after⟩ a p b entries
  queue : ∀ container {parent before after queue p q},
    Trace.settleQueue rules limit parent before after queue p = some q →
    ∃ entries, settleQueueAt rules limit container parent queue (before ++ after) before.length p =
      some ⟨before ++ (q.nodes ++ after), (before ++ q.nodes).length, q.progress, entries⟩ ∧
      Q container parent before after queue p q entries
  sweep : ∀ container {parent settled rest p w}, Trace.sweep rules limit parent settled rest p = some w →
    ∃ entries, sweepFrom rules limit container parent (settled ++ rest.map .fresh) settled.length p =
      some ⟨w.nodes, w.progress, entries⟩ ∧ W container parent settled rest p w entries

variable {rules V S Q W} {limit : Nat}

theorem follows_zero : Follows rules V S Q W 0 where
  visit := by simp [Trace.visit]
  settle := by simp [Trace.settle]
  queue := by simp [Trace.settleQueue]
  sweep := by simp [Trace.sweep]

theorem Follows.visit_succ (h : Follows rules V S Q W limit) (hp : Preserved rules V S Q W) (container : Option Origin)
    {place : Tracked.Place} {edits : Edits} {a : Arrival} {p : Progress σ} {v : Trace.Visited σ}
    (hv : Trace.visit rules (limit + 1) place edits a p = some v) :
    ∃ entries, Journal.visit rules (limit + 1) container place edits a p =
      some ⟨v.node, v.edits, v.progress, entries⟩ ∧ V container place edits a p v entries := by
  rw [Trace.visit] at hv
  rw [Journal.visit]
  by_cases hpruned : (rules.call place.erase edits a.node p.state).edits.pruned = true
  · rw [if_pos hpruned] at hv
    cases hv
    exact ⟨_, if_pos hpruned, hp.still (.inl hpruned)⟩
  · rw [if_neg hpruned] at hv
    rw [if_neg hpruned]
    rw [Bool.not_eq_true] at hpruned
    cases hn : (rules.call place.erase edits a.node p.state).node.val with
    | leaf k text span =>
      rw [hn] at hv
      cases hv
      refine ⟨[opening rules container place edits a p.state], rfl, ?_⟩
      rw [← hn]
      exact hp.still (.inr ⟨k, text, span, hn⟩)
    | branch head children span =>
      rw [hn] at hv
      cases head with
      | insert codeSpan =>
        obtain ⟨w, hw, hv⟩ := Option.bind_eq_some_iff.mp hv
        cases hv
        obtain ⟨entries, heq, hpreserved⟩ := h.visit container hw
        refine ⟨_, ?_, hp.insert hpruned hn hpreserved⟩
        exact Option.bind_eq_some_iff.mpr ⟨_, heq, rfl⟩
      | topLevel | element | embeddedCode | property =>
        obtain ⟨w, hw, hv⟩ := Option.bind_eq_some_iff.mp hv
        cases hv
        obtain ⟨entries, heq, hpreserved⟩ := h.sweep a.origin hw
        refine ⟨_, ?_, hp.branch hpruned hn (by simp [Head.kind]) hpreserved⟩
        exact Option.bind_eq_some_iff.mpr ⟨_, heq, rfl⟩

theorem Follows.settle_succ (h : Follows rules V S Q W limit) (hp : Preserved rules V S Q W) (container : Origin)
    {parent : Parent} {before after : List Tracked} {a : Arrival} {p : Progress σ} {b : Trace.Settled σ}
    (hb : Trace.settle rules (limit + 1) ⟨parent, before, after⟩ a p = some b) :
    ∃ entries, settleAt rules (limit + 1) container parent (before ++ .fresh a :: after) before.length p =
      some ⟨before ++ (b.block ++ after), (before ++ b.placed).length, b.progress, entries⟩ ∧
      S container ⟨parent, before, after⟩ a p b entries := by
  unfold Trace.settle at hb
  obtain ⟨v, hv, hb⟩ := Option.bind_eq_some_iff.mp hb
  obtain ⟨q, hq, hb⟩ := Option.bind_eq_some_iff.mp hb
  cases hb
  obtain ⟨visit, hvisit, hV⟩ := h.visit (some container) hv
  obtain ⟨front, hfront, hQ⟩ := h.queue container hq
  refine ⟨_, ?_, hp.settled hV hQ⟩
  rw [settleAt, List.drop_left, List.take_left]
  refine Option.bind_eq_some_iff.mpr ⟨_, hvisit, ?_⟩
  dsimp only
  rw [Change.apply_replace]
  refine Option.bind_eq_some_iff.mpr ⟨_, hfront, ?_⟩
  dsimp only [Tracked.origin]
  -- the cursor stands at the child, behind what has been settled in front of it
  have hclosing := Edits.foldl_apply_closing v.edits a.origin (before ++ q.nodes) after v.node
  rw [List.append_assoc] at hclosing
  rw [hclosing]
  by_cases hpruned : v.edits.pruned
  · simp only [if_pos hpruned, Trace.Settled.block, Trace.Visited.settled, Trace.Visited.kept, settledEntries,
      List.append_assoc, List.nil_append, List.append_nil]
  · simp only [if_neg hpruned, Trace.Settled.block, Trace.Visited.settled, Trace.Visited.kept, settledEntries,
      List.append_assoc, List.length_append, List.length_singleton, Nat.add_assoc]

theorem Follows.queue_succ (h : Follows rules V S Q W limit) (hp : Preserved rules V S Q W) (container : Origin)
    {parent : Parent} {before after : List Tracked} {queue : List Arrival} {p : Progress σ} {q : Trace.Swept σ}
    (hq : Trace.settleQueue rules (limit + 1) parent before after queue p = some q) :
    ∃ entries, settleQueueAt rules (limit + 1) container parent queue (before ++ after) before.length p =
      some ⟨before ++ (q.nodes ++ after), (before ++ q.nodes).length, q.progress, entries⟩ ∧
      Q container parent before after queue p q entries := by
  cases queue with
  | nil =>
    unfold Trace.settleQueue at hq
    cases hq
    refine ⟨[], ?_, hp.queue_nil⟩
    rw [settleQueueAt, List.append_nil, List.nil_append]
  | cons a queue =>
    unfold Trace.settleQueue at hq
    obtain ⟨b, hb, hq⟩ := Option.bind_eq_some_iff.mp hq
    obtain ⟨r, hr, hq⟩ := Option.bind_eq_some_iff.mp hq
    cases hq
    obtain ⟨block, hblock, hS⟩ := h.settle container hb
    obtain ⟨entries, hentries, hQ⟩ := h.queue container hr
    refine ⟨_, ?_, hp.queue_cons hS hQ⟩
    rw [settleQueueAt]
    dsimp only
    rw [Change.apply_put]
    refine Option.bind_eq_some_iff.mpr ⟨_, hblock, ?_⟩
    -- the siblings have grown by the block that the node has become, so the cursor moves behind it
    have hgrown : before.length + ((before ++ (b.block ++ after)).length - (before ++ after).length) =
        (before ++ b.block).length := by
      simp only [List.length_append]
      omega
    dsimp only
    rw [hgrown, ← List.append_assoc]
    refine Option.bind_eq_some_iff.mpr ⟨_, hentries, ?_⟩
    simp only [List.append_assoc]

theorem Follows.sweep_succ (h : Follows rules V S Q W limit) (hp : Preserved rules V S Q W) (container : Origin)
    {parent : Parent} {settled : List Tracked} {rest : List Arrival} {p : Progress σ} {w : Trace.Swept σ}
    (hw : Trace.sweep rules (limit + 1) parent settled rest p = some w) :
    ∃ entries, sweepFrom rules (limit + 1) container parent (settled ++ rest.map .fresh) settled.length p =
      some ⟨w.nodes, w.progress, entries⟩ ∧ W container parent settled rest p w entries := by
  cases rest with
  | nil =>
    unfold Trace.sweep at hw
    cases hw
    refine ⟨[], ?_, hp.sweep_nil⟩
    rw [sweepFrom, List.map_nil, List.append_nil, if_neg (Nat.lt_irrefl _)]
  | cons a rest =>
    unfold Trace.sweep at hw
    obtain ⟨b, hb, hw⟩ := Option.bind_eq_some_iff.mp hw
    obtain ⟨x, hx, hw⟩ := Option.bind_eq_some_iff.mp hw
    cases hw
    obtain ⟨ns, hahead⟩ := Trace.exists_ahead_eq hb
    obtain ⟨block, hblock, hS⟩ := h.settle container hb
    obtain ⟨entries, hentries, hW⟩ := h.sweep container hx
    refine ⟨_, ?_, hp.sweep_cons ns hahead hS hW⟩
    rw [sweepFrom, List.map_cons, if_pos (by simp)]
    refine Option.bind_eq_some_iff.mpr ⟨_, hblock, ?_⟩
    have hsplit : settled ++ (b.block ++ rest.map .fresh) = (settled ++ b.placed) ++ (b.ahead ++ rest).map .fresh := by
      rw [Trace.Settled.block, List.map_append, List.append_assoc, List.append_assoc]
    dsimp only
    rw [hsplit]
    exact Option.bind_eq_some_iff.mpr ⟨_, hentries, rfl⟩

/-- What is preserved in putting parts together holds of the journal of every part. -/
theorem Preserved.follows (hp : Preserved rules V S Q W) (limit : Nat) : Follows rules V S Q W limit := by
  -- for all four parts at once, since each goes on with others within a limit of one less
  induction limit with
  | zero => exact follows_zero
  | succ limit ih =>
    refine ⟨?_, ?_, ?_, ?_⟩
    · exact fun container => ih.visit_succ hp container
    · exact fun container => ih.settle_succ hp container
    · exact fun container => ih.queue_succ hp container
    · exact fun container => ih.sweep_succ hp container

theorem Preserved.preserved_visit (h : Preserved rules V S Q W) {container : Option Origin} {place : Tracked.Place}
    {edits : Edits} {a : Arrival} {p : Progress σ} {v : Trace.Visited σ} {w : Visited σ}
    (hv : Trace.visit rules limit place edits a p = some v)
    (hw : visit rules limit container place edits a p = some w) : V container place edits a p v w.entries := by
  obtain ⟨entries, heq, hpreserved⟩ := (h.follows limit).visit container hv
  cases heq.symm.trans hw
  exact hpreserved

end

end Journal

end TemplatePrep

import TemplatePrep.Pass.Blocks

/-!
# Editing in place agrees with settling by blocks

The pass edits siblings by index; the pass by blocks only appends. `Agree` says what each part of the one computes in
terms of the other, at the same limit, and `agree` proves it for every limit by one induction over all four parts. In
particular no edit in place is ever out of bounds: the pass ends early for want of limit only (`visit_ne_bounds`).
-/

namespace TemplatePrep

/-- A result that can only be missing for want of limit. -/
def limited {α : Type} : Option α → Except Halt α
  | none => .error .limit
  | some a => .ok a

theorem limited_ne_bounds {α : Type} (x : Option α) : limited x ≠ .error .bounds := by
  cases x <;> simp [limited]

@[simp]
theorem limited_eq_ok_iff {α : Type} {x : Option α} {a : α} : limited x = .ok a ↔ x = some a := by
  cases x <;> simp [limited]

/-- A step that goes on from a result goes on inside the result. -/
theorem limited_bind {α β : Type} (x : Option α) (f : α → Option β) :
    (limited x >>= fun a => limited (f a)) = limited (x >>= f) := by
  cases x <;> rfl

namespace Blocks

variable {σ : Type}

/-- The siblings after a child that stood between `before` and `after` has been settled. -/
def Settled.between (before after : List Node) (b : Settled σ) : Spliced σ :=
  ⟨before ++ (b.block ++ after), (before ++ b.placed).length, b.progress⟩

/-- The siblings after nodes asked for have been settled between `before` and `after`. -/
def Swept.between (before after : List Node) (q : Swept σ) : Spliced σ :=
  ⟨before ++ (q.nodes ++ after), (before ++ q.nodes).length, q.progress⟩

/-- Within a limit, each part of the pass computes what its counterpart by blocks does. -/
structure Agree (rules : RuleSet σ) (limit : Nat) : Prop where
  visit : ∀ place edits n p, Pass.visit rules limit place edits n p = limited (visit rules limit place edits n p)
  settle : ∀ parent before n after p, Pass.settleAt rules limit parent (before ++ n :: after) before.length p =
    limited ((settle rules limit ⟨parent, before, after⟩ n p).map (Settled.between before after))
  queue : ∀ parent queue before after p, Pass.settleQueueAt rules limit parent queue (before ++ after) before.length p =
    limited ((settleQueue rules limit parent before after queue p).map (Swept.between before after))
  sweep : ∀ parent settled rest p, Pass.sweepFrom rules limit parent (settled ++ rest) settled.length p =
    limited (sweep rules limit parent settled rest p)

variable {rules : RuleSet σ} {limit : Nat}

theorem agree_zero : Agree rules 0 where
  visit := by intros; simp only [Pass.visit, Blocks.visit, limited]
  settle := by intros; simp only [Pass.settleAt, Blocks.settle, Option.map_none, limited]
  queue := by intros; simp only [Pass.settleQueueAt, Blocks.settleQueue, Option.map_none, limited]
  sweep := by intros; simp only [Pass.sweepFrom, Blocks.sweep, limited]

/-- A walk in place from the first sibling is a walk by blocks with nothing settled. -/
theorem Agree.sweep_nil (h : Agree rules limit) (parent : Parent) (children : List Node) (p : Progress σ) :
    Pass.sweepFrom rules limit parent children 0 p = limited (Blocks.sweep rules limit parent [] children p) :=
  h.sweep parent [] children p

theorem Agree.visit_succ (h : Agree rules limit) (place : Place) (edits : Edits) (n : Node) (p : Progress σ) :
    Pass.visit rules (limit + 1) place edits n p = limited (Blocks.visit rules (limit + 1) place edits n p) := by
  rw [Pass.visit, Blocks.visit_succ]
  generalize rules.call place edits n p.state = o
  obtain ⟨⟨m, _⟩, edits, s⟩ := o
  by_cases hp : edits.pruned
  · simp only [if_pos hp, limited]
  · simp only [if_neg hp]
    cases m with
    | leaf => rfl
    | branch head children span =>
      cases head with
      | insert =>
        dsimp only [Behaviour.walk]
        rw [h.visit, ← limited_bind]
        rfl
      | topLevel | element | embeddedCode | property =>
        dsimp only [Behaviour.walk]
        rw [h.sweep_nil, ← limited_bind]
        rfl

theorem Agree.settle_succ (h : Agree rules limit) (parent : Parent) (before : List Node) (n : Node)
    (after : List Node) (p : Progress σ) :
    Pass.settleAt rules (limit + 1) parent (before ++ n :: after) before.length p =
      limited ((Blocks.settle rules (limit + 1) ⟨parent, before, after⟩ n p).map (Settled.between before after)) := by
  rw [Pass.settleAt, Blocks.settle, if_neg (by simp)]
  simp only [List.drop_left, List.take_left, h.visit]
  cases hv : Blocks.visit rules limit ⟨parent, before, after⟩ Edits.none n p with
  | none => rfl
  | some v =>
    have hset : (before ++ n :: after).set before.length v.node = before ++ v.node :: after := by
      simp [List.set_append_right]
    show (do let q ← Pass.settleQueueAt rules limit parent v.edits.before _ _ _; _) = _
    rw [hset, h.queue]
    simp only [Option.bind_eq_bind, Option.bind_some]
    cases hq : Blocks.settleQueue rules limit parent before (v.node :: after) v.edits.before v.progress with
    | none => rfl
    | some q =>
      -- the cursor stands at the child, behind what has been settled in front of it
      have hinsert := Splice.insertEach_append (before ++ q.nodes ++ [v.node]) after v.edits.after
      have hremove := Splice.removeAt_append (before ++ q.nodes) (v.edits.after.reverse ++ after) v.node
      simp only [List.append_assoc, List.singleton_append, List.length_append, List.length_singleton, ← Nat.add_assoc]
        at hinsert hremove
      show (do let siblings ← Splice.insertEach (before ++ (q.nodes ++ v.node :: after)) _ _; _) = _
      simp only [Swept.between, List.length_append]
      rw [hinsert]
      dsimp only [bind, Except.bind]
      by_cases hp : v.edits.pruned
      · rw [if_pos hp, hremove]
        simp [limited, Settled.between, Settled.block, Visited.settled, Visited.kept, hp]
      · rw [if_neg hp]
        simp [limited, Settled.between, Settled.block, Visited.settled, Visited.kept, hp, Nat.add_assoc]

theorem Agree.queue_succ (h : Agree rules limit) (parent : Parent) (queue before after : List Node) (p : Progress σ) :
    Pass.settleQueueAt rules (limit + 1) parent queue (before ++ after) before.length p =
      limited
        ((Blocks.settleQueue rules (limit + 1) parent before after queue p).map (Swept.between before after)) := by
  cases queue with
  | nil => simp [Pass.settleQueueAt, Blocks.settleQueue, Swept.between, limited]
  | cons n queue =>
    rw [Pass.settleQueueAt, Blocks.settleQueue, Splice.insertAt_append]
    show (do let b ← Pass.settleAt rules limit parent _ _ _; _) = _
    rw [h.settle]
    cases hb : Blocks.settle rules limit ⟨parent, before, after⟩ n (p.insert 1) with
    | none => rfl
    | some b =>
      -- the siblings have grown by the block that the node has become
      have hgrown : (before ++ (b.block ++ after)).length = (before ++ after).length + b.block.length := by
        simp only [List.length_append]
        omega
      show (do let grown ← Splice.growth _ (before ++ (b.block ++ after)).length; _) = _
      rw [hgrown, Splice.growth_add]
      -- so the cursor moves behind the block, where the next node of the queue is put
      have hqueue := h.queue parent queue (before ++ b.block) after b.progress
      rw [List.append_assoc, List.length_append] at hqueue
      refine hqueue.trans ?_
      cases hq : Blocks.settleQueue rules limit parent (before ++ b.block) after queue b.progress with
      | none => simp [hq, limited]
      | some q => simp [hq, limited, Swept.between]

theorem Agree.sweep_succ (h : Agree rules limit) (parent : Parent) (settled rest : List Node) (p : Progress σ) :
    Pass.sweepFrom rules (limit + 1) parent (settled ++ rest) settled.length p =
      limited (Blocks.sweep rules (limit + 1) parent settled rest p) := by
  cases rest with
  | nil => simp [Pass.sweepFrom, Blocks.sweep, limited]
  | cons n rest =>
    rw [Pass.sweepFrom, Blocks.sweep, if_pos (by simp), h.settle]
    cases hb : Blocks.settle rules limit ⟨parent, settled, rest⟩ n p with
    | none => rfl
    | some b =>
      have hsweep := h.sweep parent (settled ++ b.placed) (b.ahead ++ rest) b.progress
      rw [List.append_assoc, ← List.append_assoc b.placed] at hsweep
      exact hsweep

/-- Editing in place and settling by blocks agree at every limit. -/
theorem agree (rules : RuleSet σ) (limit : Nat) : Agree rules limit := by
  -- for all four parts at once, since each goes on with others within a limit of one less
  induction limit with
  | zero => exact agree_zero
  | succ limit ih =>
    exact ⟨ih.visit_succ, ih.settle_succ, ih.queue_succ, ih.sweep_succ⟩

end Blocks

namespace Pass

variable {σ : Type}

/-- No edit in place that a visit makes is out of bounds, however deep it stands inside the visit. -/
theorem visit_ne_bounds (rules : RuleSet σ) (limit : Nat) (place : Place) (edits : Edits) (n : Node) (p : Progress σ) :
    visit rules limit place edits n p ≠ .error .bounds := by
  rw [(Blocks.agree rules limit).visit]
  exact limited_ne_bounds _

/-- A child settled in place becomes its block, between the siblings that stood on its two sides. -/
theorem settleAt_eq (rules : RuleSet σ) (limit : Nat) (parent : Parent) {siblings : List Node} {i : Nat}
    (hi : i < siblings.length) (p : Progress σ) :
    settleAt rules limit parent siblings i p =
      limited ((Blocks.settle rules limit ⟨parent, siblings.take i, siblings.drop (i + 1)⟩ siblings[i] p).map
        (Blocks.Settled.between (siblings.take i) (siblings.drop (i + 1)))) := by
  have hagree := (Blocks.agree rules limit).settle parent (siblings.take i) siblings[i] (siblings.drop (i + 1)) p
  have hsplit : siblings.take i ++ siblings[i] :: siblings.drop (i + 1) = siblings := by
    rw [← List.drop_eq_getElem_cons hi, List.take_append_drop]
  have hlength : (siblings.take i).length = i := List.length_take_of_le (by omega)
  rw [hsplit, hlength] at hagree
  exact hagree

end Pass

/-- A pass over a template is the pass by blocks with the behaviours of the rule set. -/
theorem RuleSet.run?_eq_behaviours {σ : Type} (rules : RuleSet σ) (limit : Nat) (t : Template) (s : σ) :
    rules.run? limit t s = rules.behaviours.run? limit t s := by
  rw [RuleSet.run?, (Blocks.agree rules limit).visit, Behaviours.run?]
  cases Blocks.visit rules limit Place.root Edits.none t.root ⟨Stats.zero, s⟩ <;> rfl

/-- A pass finishes with what the visit of the root by blocks leaves. -/
theorem RuleSet.run?_eq_some_iff {σ : Type} {rules : RuleSet σ} {limit : Nat} {t : Template} {s : σ}
    {r : PassResult σ} :
    rules.run? limit t s = some r ↔
      ∃ v, Blocks.visit rules limit Place.root Edits.none t.root ⟨Stats.zero, s⟩ = some v ∧
        r = ⟨.ofRoot v.node, v.progress.stats, v.progress.state⟩ := by
  rw [RuleSet.run?_eq_behaviours, Behaviours.run?, Option.map_eq_some_iff]
  exact exists_congr fun v => and_congr_right' eq_comm

end TemplatePrep

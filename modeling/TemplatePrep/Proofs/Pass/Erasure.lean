import TemplatePrep.Pass.Blocks
import TemplatePrep.Pass.Trace
import TemplatePrep.Proofs.Pass.InPlace

/-!
# Leaving out the trace

Without origins and events the traced pass is the pass by blocks, step for step and at the same limit. So every pass
that finishes has a trace, and the trace ends with the tree that the pass leaves.
-/

namespace TemplatePrep

open Tracked

variable {σ : Type}

theorem Tracked.erase_withCode (o : Origin) (span : Option Span) (m : Tracked) :
    (m.withCode o span).erase = TemplatePrep.withCode span m.erase := by
  cases m <;> rfl

namespace Trace

/-- A finished visit without its events. -/
def Visited.erase (v : Visited σ) : TemplatePrep.Visited σ := ⟨v.node.erase, v.edits, v.progress⟩

/-- A settled child without its events. -/
def Settled.erase (b : Settled σ) : TemplatePrep.Settled σ :=
  ⟨eraseAll b.placed, b.ahead.map Arrival.node, b.progress⟩

/-- Siblings that are done without their events. -/
def Swept.erase (w : Swept σ) : TemplatePrep.Swept σ := ⟨eraseAll w.nodes, w.progress⟩

theorem Visited.eraseAll_kept (v : Visited σ) : eraseAll v.kept = v.erase.kept := by
  rw [Visited.kept, TemplatePrep.Visited.kept]
  by_cases hp : v.edits.pruned = true
  · rw [if_pos hp, Visited.erase, if_pos hp]
    rfl
  · rw [if_neg hp, Visited.erase, if_neg hp]
    rfl

theorem Settled.eraseAll_block (b : Settled σ) : eraseAll b.block = b.erase.block := by
  rw [Settled.block, eraseAll_append, eraseAll_map_fresh]
  rfl

theorem Visited.erase_settled (v : Visited σ) (o : Origin) (q : Swept σ) :
    (v.settled o q).erase = v.erase.settled q.erase := by
  have hplaced : eraseAll (q.nodes ++ v.kept) = q.erase.nodes ++ v.erase.kept := by
    rw [eraseAll_append, Visited.eraseAll_kept]
    rfl
  have hahead : (arrivals o .after v.edits.after).reverse.map Arrival.node = v.edits.after.reverse := by
    rw [List.map_reverse, map_node_arrivals]
  rw [Visited.settled, Settled.erase, hplaced, hahead]
  rfl

/-- Within a limit, each part of the traced pass computes what its counterpart by blocks does. -/
structure Erases (rules : RuleSet σ) (limit : Nat) : Prop where
  visit : ∀ place edits a p, (visit rules limit place edits a p).map Visited.erase =
    Blocks.visit rules limit place.erase edits a.node p
  settle : ∀ place a p, (settle rules limit place a p).map Settled.erase =
    Blocks.settle rules limit place.erase a.node p
  queue : ∀ parent before after queue p, (settleQueue rules limit parent before after queue p).map Swept.erase =
    Blocks.settleQueue rules limit parent (eraseAll before) (eraseAll after) (queue.map Arrival.node) p
  sweep : ∀ parent settled rest p, (sweep rules limit parent settled rest p).map Swept.erase =
    Blocks.sweep rules limit parent (eraseAll settled) (rest.map Arrival.node) p

variable {rules : RuleSet σ} {limit : Nat}

theorem erases_zero : Erases rules 0 where
  visit := by intros; rfl
  settle := by intros; rfl
  queue := by intros; rfl
  sweep := by intros; rfl

theorem Erases.visit_succ (h : Erases rules limit) (place : Tracked.Place) (edits : Edits) (a : Arrival)
    (p : Progress σ) : (Trace.visit rules (limit + 1) place edits a p).map Visited.erase =
      Blocks.visit rules (limit + 1) place.erase edits a.node p := by
  rw [Trace.visit, Blocks.visit_succ]
  generalize rules.call place.erase edits a.node p.state = o
  obtain ⟨⟨m, _⟩, edits, s⟩ := o
  by_cases hp : edits.pruned
  · simp only [if_pos hp]
    rfl
  · simp only [if_neg hp]
    cases m with
    | leaf => rfl
    | branch head children span =>
      cases head with
      | insert codeSpan =>
        have hcode := h.visit place edits ⟨a.origin ++ [.code], .branch .embeddedCode children codeSpan⟩
          (p.visit.withState s)
        dsimp only [Behaviour.walk] at hcode ⊢
        rw [← hcode]
        cases Trace.visit rules limit place edits _ (p.visit.withState s) with
        | none => rfl
        | some v =>
          show some (Visited.erase _) = _
          rw [Visited.erase, erase_withCode]
          rfl
      | topLevel | element | embeddedCode | property =>
        dsimp only [Behaviour.walk]
        rw [← map_node_arrivals a.origin .child children, ← eraseAll, ← h.sweep, map_node_arrivals]
        cases Trace.sweep rules limit _ [] (arrivals a.origin .child children) (p.visit.withState s) with
        | none => rfl
        | some w => rfl

theorem Erases.settle_succ (h : Erases rules limit) (place : Tracked.Place) (a : Arrival) (p : Progress σ) :
    (Trace.settle rules (limit + 1) place a p).map Settled.erase =
      Blocks.settle rules (limit + 1) place.erase a.node p := by
  rw [Trace.settle, Blocks.settle, ← h.visit]
  cases Trace.visit rules limit place Edits.none a p with
  | none => rfl
  | some v =>
    -- the queue is given its origins only now, so they are left out of it before it is compared
    have hq := h.queue place.parent place.before (v.node :: place.after) (arrivals a.origin .before v.edits.before)
      v.progress
    rw [map_node_arrivals] at hq
    show Option.map Settled.erase (do let q ← settleQueue rules limit _ _ _ _ _; some (v.settled a.origin q)) =
      (do let q ← Blocks.settleQueue rules limit place.parent (eraseAll place.before)
                    (eraseAll (v.node :: place.after)) v.edits.before v.progress
          some (v.erase.settled q))
    rw [← hq]
    cases settleQueue rules limit place.parent place.before (v.node :: place.after)
        (arrivals a.origin .before v.edits.before) v.progress with
    | none => rfl
    | some q =>
      show some (Visited.settled v a.origin q).erase = some _
      rw [Visited.erase_settled]

theorem Erases.queue_succ (h : Erases rules limit) (parent : Parent) (before after : List Tracked)
    (queue : List Arrival) (p : Progress σ) :
    (Trace.settleQueue rules (limit + 1) parent before after queue p).map Swept.erase =
      Blocks.settleQueue rules (limit + 1) parent (eraseAll before) (eraseAll after) (queue.map Arrival.node) p := by
  cases queue with
  | nil => rfl
  | cons a queue =>
    rw [List.map_cons, Trace.settleQueue, Blocks.settleQueue]
    have hb := h.settle ⟨parent, before, after⟩ a (p.insert 1)
    unfold Place.erase at hb
    rw [← hb]
    cases Trace.settle rules limit ⟨parent, before, after⟩ a (p.insert 1) with
    | none => rfl
    | some b =>
      have hq := h.queue parent (before ++ b.block) after queue b.progress
      rw [eraseAll_append, Settled.eraseAll_block] at hq
      show Option.map Swept.erase (do let q ← settleQueue rules limit parent (before ++ b.block) after queue b.progress
                                      some ⟨b.block ++ q.nodes, q.progress, b.events ++ q.events⟩) =
        (do let q ← Blocks.settleQueue rules limit parent (eraseAll before ++ b.erase.block) _ _ b.progress
            some ⟨b.erase.block ++ q.nodes, q.progress⟩)
      rw [← hq]
      cases settleQueue rules limit parent (before ++ b.block) after queue b.progress with
      | none => rfl
      | some q =>
        show some (Swept.mk (b.block ++ q.nodes) q.progress (b.events ++ q.events)).erase = some _
        rw [Swept.erase, eraseAll_append, Settled.eraseAll_block]
        rfl

theorem Erases.sweep_succ (h : Erases rules limit) (parent : Parent) (settled : List Tracked) (rest : List Arrival)
    (p : Progress σ) : (Trace.sweep rules (limit + 1) parent settled rest p).map Swept.erase =
      Blocks.sweep rules (limit + 1) parent (eraseAll settled) (rest.map Arrival.node) p := by
  cases rest with
  | nil => rfl
  | cons a rest =>
    rw [List.map_cons, Trace.sweep, Blocks.sweep]
    have hb := h.settle ⟨parent, settled, rest.map .fresh⟩ a p
    rw [Place.erase, eraseAll_map_fresh] at hb
    rw [← hb]
    cases Trace.settle rules limit ⟨parent, settled, rest.map .fresh⟩ a p with
    | none => rfl
    | some b =>
      have hw := h.sweep parent (settled ++ b.placed) (b.ahead ++ rest) b.progress
      rw [eraseAll_append, List.map_append] at hw
      refine Eq.trans ?_ hw
      show Option.map Swept.erase (do let w ← Trace.sweep rules limit parent (settled ++ b.placed) _ b.progress
                                      some ⟨w.nodes, w.progress, b.events ++ w.events⟩) = _
      cases Trace.sweep rules limit parent (settled ++ b.placed) (b.ahead ++ rest) b.progress with
      | none => rfl
      | some w => rfl

/-- Leaving out the trace gives the pass by blocks at every limit. -/
theorem erases (rules : RuleSet σ) (limit : Nat) : Erases rules limit := by
  induction limit with
  | zero => exact erases_zero
  | succ limit ih =>
    exact ⟨ih.visit_succ, ih.settle_succ, ih.queue_succ, ih.sweep_succ⟩

end Trace

/-- A pass that finishes has a trace within the same limit, which ends with the same tree, counts and state. -/
theorem RuleSet.exists_trace?_of_run? {rules : RuleSet σ} {limit : Nat} {t : Template} {s : σ} {r : PassResult σ}
    (h : rules.run? limit t s = some r) :
    ∃ v, rules.trace? limit t s = some v ∧ r = ⟨.ofRoot v.node.erase, v.progress.stats, v.progress.state⟩ := by
  obtain ⟨v, hv, rfl⟩ := RuleSet.run?_eq_some_iff.mp h
  have herase := (Trace.erases rules limit).visit Tracked.Place.root Edits.none ⟨[], t.root⟩ ⟨Stats.zero, s⟩
  rw [← RuleSet.trace?] at herase
  obtain ⟨w, hw, rfl⟩ := Option.map_eq_some_iff.mp (herase.trans hv)
  exact ⟨w, hw, rfl⟩

end TemplatePrep

import TemplatePrep.Proofs.Pass.InPlace

/-!
# Behaviours that cannot be told apart

A pass knows behaviours only through what they do on its visits, and a behaviour knows the others only through what it is
handed for going on below its node. So if two sets of behaviours do the same on a visit whenever they go on alike below
it, then they have the same passes, however deep the nodes stand and whatever is asked for on the way.

Settling a child, settling a queue and walking siblings do not look at the behaviours. They are put together from visits
in one way, and the induction over them is made here once (`Blocks.alike`), for whatever changes in the visits.
-/

namespace TemplatePrep

variable {σ : Type}

/-- Both go on alike below a node that is not to be removed. -/
structure Below.Alike (below below' : Below σ) : Prop where
  visit : ∀ place edits n p, edits.pruned = false → below.visit place edits n p = below'.visit place edits n p
  sweep : ∀ parent children p, below.sweep parent children p = below'.sweep parent children p

/-- The walk of a node that is not to be removed depends only on how it goes on below the node. -/
theorem Behaviour.walk_congr {k : Kind} {below below' : Below σ} (h : below.Alike below') (place : Place)
    {edits : Edits} (hp : edits.pruned = false) (n : NodeOf k) (p : Progress σ) :
    walk k below place edits n p = walk k below' place edits n p := by
  obtain ⟨m, _⟩ := n
  cases m with
  | leaf => rfl
  | branch head children span =>
    cases head with
    | insert codeSpan =>
      dsimp only [walk]
      rw [h.visit _ _ _ _ hp]
    | topLevel | element | embeddedCode | property =>
      dsimp only [walk]
      rw [h.sweep]

/-- Both do the same with a node of any kind that is not to be removed, if they go on alike below it. -/
def Behaviours.Alike (bs bs' : Behaviours σ) : Prop :=
  ∀ (k : Kind) (below below' : Below σ), below.Alike below' →
    ∀ place edits (n : NodeOf k) p, edits.pruned = false →
      bs.on k below place edits n p = bs'.on k below' place edits n p

/-- What a rule set does on a visit depends only on how it goes on below the node. -/
theorem RuleSet.behaviours_congr (rules : RuleSet σ) : rules.behaviours.Alike rules.behaviours := by
  intro k below below' hbelow place edits n p _
  dsimp only [RuleSet.behaviours]
  split
  · rfl
  · next hkept => exact Behaviour.walk_congr hbelow place (by simpa using hkept) _ _

namespace Blocks

/-- Within a limit, each part of a pass ends alike with either behaviours. -/
structure Alike (bs bs' : Behaviours σ) (limit : Nat) : Prop where
  visit : ∀ place edits n p, edits.pruned = false → visit bs limit place edits n p = visit bs' limit place edits n p
  settle : ∀ place n p, settle bs limit place n p = settle bs' limit place n p
  queue : ∀ parent before after queue p,
    settleQueue bs limit parent before after queue p = settleQueue bs' limit parent before after queue p
  sweep : ∀ parent settled rest p, sweep bs limit parent settled rest p = sweep bs' limit parent settled rest p

variable {bs bs' : Behaviours σ} {limit : Nat}

theorem alike_zero : Alike bs bs' 0 where
  visit _ _ _ _ _ := by rw [Blocks.visit, Blocks.visit]
  settle _ _ _ := by rw [Blocks.settle, Blocks.settle]
  queue _ _ _ _ _ := by rw [Blocks.settleQueue, Blocks.settleQueue]
  sweep _ _ _ _ := by rw [Blocks.sweep, Blocks.sweep]

/-- A visit goes on below its node within a limit of one less. -/
theorem Alike.below (h : Alike bs bs' limit) :
    Below.Alike ⟨Blocks.visit bs limit, fun parent children => Blocks.sweep bs limit parent [] children⟩
      ⟨Blocks.visit bs' limit, fun parent children => Blocks.sweep bs' limit parent [] children⟩ where
  visit := h.visit
  sweep parent := h.sweep parent []

/-- Behaviours that do the same have every part of a pass in common. -/
theorem alike (h : bs.Alike bs') (limit : Nat) : Alike bs bs' limit := by
  induction limit with
  | zero => exact alike_zero
  | succ limit ih =>
    constructor
    case visit =>
      intro place edits n p hp
      unfold Blocks.visit
      exact h n.kind _ _ ih.below place edits _ _ hp
    case settle =>
      intro place n p
      unfold Blocks.settle
      rw [ih.visit place Edits.none n p rfl]
      simp only [ih.queue]
    case queue =>
      intro parent before after queue p
      cases queue with
      | nil => rfl
      | cons n queue =>
        unfold Blocks.settleQueue
        rw [ih.settle]
        simp only [ih.queue]
    case sweep =>
      intro parent settled rest p
      cases rest with
      | nil => rfl
      | cons n rest =>
        unfold Blocks.sweep
        rw [ih.settle]
        simp only [ih.sweep]

end Blocks

/-- Behaviours that do the same have the same passes. -/
theorem Behaviours.Alike.run?_eq {bs bs' : Behaviours σ} (h : bs.Alike bs') (limit : Nat) (t : Template) (s : σ) :
    bs.run? limit t s = bs'.run? limit t s := by
  rw [Behaviours.run?, Behaviours.run?, (Blocks.alike h limit).visit _ _ _ _ rfl]

end TemplatePrep

import TemplatePrep.Proofs.Pass.InPlace

/-!
# The limit of a pass

A pass that ends within a limit ends within every larger one, with the same result. The limit therefore decides only
whether there is a result, and statements about finished passes need not name it.
-/

namespace TemplatePrep

namespace Blocks

variable {σ : Type} {rules : RuleSet σ}

/-- What a limit settles, a larger one settles alike, in each of the four mutually recursive parts of a pass. -/
structure Extends (rules : RuleSet σ) (small large : Nat) : Prop where
  visit : ∀ {place edits n} {p : Progress σ} {v}, visit rules small place edits n p = some v →
    visit rules large place edits n p = some v
  settle : ∀ {place n} {p : Progress σ} {b}, settle rules small place n p = some b → settle rules large place n p = some b
  queue : ∀ {parent before after queue} {p : Progress σ} {q},
    settleQueue rules small parent before after queue p = some q →
    settleQueue rules large parent before after queue p = some q
  sweep : ∀ {parent settled rest} {p : Progress σ} {w}, sweep rules small parent settled rest p = some w →
    sweep rules large parent settled rest p = some w

theorem extends_zero (large : Nat) : Extends rules 0 large where
  visit h := by simp [Blocks.visit] at h
  settle h := by simp [Blocks.settle] at h
  queue h := by simp [Blocks.settleQueue] at h
  sweep h := by simp [Blocks.sweep] at h

theorem Extends.succ {small large : Nat} (h : Extends rules small large) : Extends rules (small + 1) (large + 1) where
  visit := by
    intro place edits n p v hv
    rw [Blocks.visit_succ] at hv ⊢
    dsimp only at hv ⊢
    split at hv
    · next hp => rw [if_pos hp]; exact hv
    · next hp =>
      rw [if_neg hp]
      unfold Behaviour.walk at hv ⊢
      split at hv
      · exact hv
      · obtain ⟨w, hw, hv⟩ := Option.bind_eq_some_iff.mp hv
        exact Option.bind_eq_some_iff.mpr ⟨w, h.visit hw, hv⟩
      · obtain ⟨w, hw, hv⟩ := Option.bind_eq_some_iff.mp hv
        exact Option.bind_eq_some_iff.mpr ⟨w, h.sweep hw, hv⟩
  settle := by
    intro place n p b hb
    unfold Blocks.settle at hb ⊢
    obtain ⟨v, hv, hb⟩ := Option.bind_eq_some_iff.mp hb
    obtain ⟨q, hq, hb⟩ := Option.bind_eq_some_iff.mp hb
    exact Option.bind_eq_some_iff.mpr ⟨v, h.visit hv, Option.bind_eq_some_iff.mpr ⟨q, h.queue hq, hb⟩⟩
  queue := by
    intro parent before after queue p w hw
    cases queue with
    | nil => simpa [Blocks.settleQueue] using hw
    | cons n queue =>
      unfold Blocks.settleQueue at hw ⊢
      obtain ⟨b, hb, hw⟩ := Option.bind_eq_some_iff.mp hw
      obtain ⟨q, hq, hw⟩ := Option.bind_eq_some_iff.mp hw
      exact Option.bind_eq_some_iff.mpr ⟨b, h.settle hb, Option.bind_eq_some_iff.mpr ⟨q, h.queue hq, hw⟩⟩
  sweep := by
    intro parent settled rest p w hw
    cases rest with
    | nil => simpa [Blocks.sweep] using hw
    | cons n rest =>
      unfold Blocks.sweep at hw ⊢
      obtain ⟨b, hb, hw⟩ := Option.bind_eq_some_iff.mp hw
      exact Option.bind_eq_some_iff.mpr ⟨b, h.settle hb, h.sweep hw⟩

/-- A larger limit settles alike all that a smaller one settles. -/
theorem extends_of_le {small large : Nat} (hle : small ≤ large) : Extends rules small large := by
  -- on the smaller limit: every part of the pass goes on within a limit of one less
  induction small generalizing large with
  | zero => exact extends_zero large
  | succ small ih =>
    obtain ⟨large, rfl⟩ : ∃ l, large = l + 1 := ⟨large - 1, by omega⟩
    exact (ih (by omega)).succ

end Blocks

/-- A finished pass stays as it is under a larger limit. -/
theorem RuleSet.run?_mono {σ : Type} {rules : RuleSet σ} {small large : Nat} (hle : small ≤ large) {t : Template}
    {s : σ} {r : PassResult σ} (h : rules.run? small t s = some r) : rules.run? large t s = some r := by
  obtain ⟨v, hv, rfl⟩ := RuleSet.run?_eq_some_iff.mp h
  exact RuleSet.run?_eq_some_iff.mpr ⟨v, (Blocks.extends_of_le hle).visit hv, rfl⟩

/-- A pass over a template ends in one way at most, whatever the limits. -/
theorem RuleSet.run?_unique {σ : Type} {rules : RuleSet σ} {limit limit' : Nat} {t : Template} {s : σ}
    {r r' : PassResult σ} (h : rules.run? limit t s = some r) (h' : rules.run? limit' t s = some r') : r = r' := by
  have hlarge := RuleSet.run?_mono (Nat.le_max_left limit limit') h
  have hlarge' := RuleSet.run?_mono (Nat.le_max_right limit limit') h'
  exact Option.some.inj (hlarge.symm.trans hlarge')

end TemplatePrep

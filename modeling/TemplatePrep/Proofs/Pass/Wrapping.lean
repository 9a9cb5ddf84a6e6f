import TemplatePrep.Proofs.Pass.Alike
import TemplatePrep.Rule.Script

/-!
# Attaching is wrapping

A rule set keeps its rules in chains and a visit goes through the chain of a kind, up to a rule that removes the node;
composed behaviours keep no rules at all. Attached in the same order the same rules do the same in both.

For one kind this needs only that a chain is put around the walk rule by rule, the last one called first (`Wraps`). Going
through the chain and then walking is then the composed behaviour, whatever is done below the node (`foldr_wrap`). The
walk of one kind leads to the behaviours of others, and of an insert to that of its code; so the passes are the same
because the behaviours are alike whatever they go on with (`Wraps.alike`).
-/

namespace TemplatePrep

variable {σ : Type}

/-! ## One kind -/

namespace Behaviour

variable {k : Kind}

/-- Rules around a behaviour are gone through as a chain, and then the node is left to the behaviour unless it is
removed. -/
theorem foldr_wrap (chain : List (Rule σ k)) (inner : Behaviour σ k) (below : Below σ) (place : Place) {edits : Edits}
    (hp : edits.pruned = false) (n : NodeOf k) (p : Progress σ) :
    chain.foldr wrap inner below place edits n p =
      let o := runChain place chain n edits p.state
      if o.edits.pruned then some ⟨o.node, o.edits, p.withState o.state⟩
      else inner below place o.edits o.node (p.withState o.state) := by
  induction chain generalizing edits n p with
  | nil => exact (if_neg (by simp [runChain, hp])).symm
  | cons rule chain ih =>
    rw [List.foldr_cons, wrap, runChain]
    by_cases hremoved : (edits ++ (rule ⟨place, edits.before.length⟩ n p.state).edits).pruned = true
    · simp only [if_pos hremoved]
    · simp only [if_neg hremoved]
      exact ih (by simpa using hremoved) _ _

end Behaviour

/-- The behaviours are the chains of a rule set put around the walks, each from its end. -/
def Behaviours.Wraps (bs : Behaviours σ) (rules : RuleSet σ) : Prop :=
  ∀ k, bs.on k = (rules.chain k).foldr Behaviour.wrap (Behaviour.walk k)

namespace Behaviours

theorem wraps_builtin : (builtin : Behaviours σ).Wraps RuleSet.empty := on_builtin

/-- They stay so when a rule is attached to both. -/
theorem Wraps.attach {bs : Behaviours σ} {rules : RuleSet σ} (h : bs.Wraps rules) (k : Kind) (rule : Rule σ k) :
    (bs.attach k rule).Wraps (rules.attach k rule) := by
  intro j
  by_cases hj : k = j
  · subst hj
    rw [on_attach_self, RuleSet.chain_attach_self, List.foldr_cons, h k]
  · rw [on_attach_of_ne _ _ hj, RuleSet.chain_attach_of_ne _ _ hj, h j]

theorem wraps_ofAttachments (as : List (Attachment σ)) : (ofAttachments as).Wraps (RuleSet.ofAttachments as) := by
  have hfrom : ∀ (bs : Behaviours σ) (rules : RuleSet σ), bs.Wraps rules →
      (as.foldl (fun bs a => bs.attach a.kind a.rule) bs).Wraps (rules.attachAll as) := by
    induction as with
    | nil => exact fun _ _ h => h
    | cons a as ih => exact fun bs rules h => ih _ _ (h.attach a.kind a.rule)
  exact hfrom _ _ wraps_builtin

/-- Wrapped around the walks, chains do on every visit what the rule set does. -/
theorem Wraps.alike {bs : Behaviours σ} {rules : RuleSet σ} (h : bs.Wraps rules) : rules.behaviours.Alike bs := by
  intro k below below' hbelow place edits n p hp
  rw [rules.behaviours_congr k below below' hbelow place edits n p hp, h k, Behaviour.foldr_wrap _ _ _ _ hp]
  rfl

end Behaviours

/-- Attaching is wrapping. For each kind, going through the rules attached to it, the last first, and then walking the
node is what its behaviour does, composed rule by rule; this is so whatever goes on below the node. A visit leaves the
same node with the same requests, counts and state, and so does every pass, or there is no result within the limit on
either side. A visit that is under way may have asked for edits before, as that of an insert has when its code is
visited, but not for the removal of its node. -/
theorem RuleSet.pass_ofAttachments_wrapped (as : List (Attachment σ)) :
    (∀ (k : Kind) (below : Below σ) (place : Place) (edits : Edits) (n : NodeOf k) (p : Progress σ),
      edits.pruned = false →
      (Behaviours.ofAttachments as).on k below place edits n p =
        let o := runChain place (rulesFor k as).reverse n edits p.state
        if o.edits.pruned then some ⟨o.node, o.edits, p.withState o.state⟩
        else Behaviour.walk k below place o.edits o.node (p.withState o.state)) ∧
    (∀ (limit : Nat) (place : Place) (edits : Edits) (n : Node) (p : Progress σ), edits.pruned = false →
      Pass.visit (ofAttachments as) limit place edits n p =
        limited (Blocks.visit (Behaviours.ofAttachments as) limit place edits n p)) ∧
    ∀ (limit : Nat) (t : Template) (s : σ),
      (ofAttachments as).run? limit t s = (Behaviours.ofAttachments as).run? limit t s := by
  have hwraps := Behaviours.wraps_ofAttachments as
  refine ⟨fun k below place edits n p hp => ?_, fun limit place edits n p hp => ?_, fun limit t s => ?_⟩
  · rw [hwraps k, Behaviour.foldr_wrap _ _ _ _ hp, chain_ofAttachments]
  · rw [(Blocks.agree _ limit).visit, (Blocks.alike hwraps.alike limit).visit place edits n p hp]
  · rw [run?_eq_behaviours, hwraps.alike.run?_eq]

/-- Rules for three kinds, attached in turns. -/
def inTurns : List (Attachment (List Script.Note)) :=
  [⟨.text, Script.rule [.blank true] [.prune]⟩, ⟨.embeddedCode, Script.rule [] [.insertBefore (.comment "c")]⟩,
    ⟨.text, Script.rule [.label "trim"] [.setLabel " "]⟩, ⟨.insert, Script.rule [] [.insertAfter (.comment "d")]⟩]

/-- The place of an insert that is alone in a paragraph. -/
def aloneInParagraph : Place := ⟨.element "p", [], []⟩

/-- The code of an insert is visited with what was asked for before it, and adds to that. In the code a text is made
blank by the rule attached later, and is then removed by the one attached earlier. -/
theorem RuleSet.pass_ofAttachments_wrapped_inTurns :
    (Edits.insertBefore (.comment "b")).pruned = false ∧
    Pass.visit (ofAttachments inTurns) 8 aloneInParagraph (Edits.insertBefore (.comment "b"))
        (.insert [.text "trim", .codeText "e"]) ⟨Stats.zero, []⟩ =
      limited (Blocks.visit (Behaviours.ofAttachments inTurns) 8 aloneInParagraph (Edits.insertBefore (.comment "b"))
        (.insert [.text "trim", .codeText "e"]) ⟨Stats.zero, []⟩) ∧
    Blocks.visit (Behaviours.ofAttachments inTurns) 8 aloneInParagraph (Edits.insertBefore (.comment "b"))
        (.insert [.text "trim", .codeText "e"]) ⟨Stats.zero, []⟩ =
      some ⟨.insert [.codeText "e"], ⟨false, [.comment "b", .comment "c"], [.comment "d"]⟩, ⟨⟨4, 1, 0⟩, []⟩⟩ := by
  have hp : (Edits.insertBefore (.comment "b")).pruned = false := rfl
  obtain ⟨-, hvisit, -⟩ := pass_ofAttachments_wrapped inTurns
  exact ⟨hp, hvisit 8 _ _ _ _ hp, by rfl⟩

end TemplatePrep

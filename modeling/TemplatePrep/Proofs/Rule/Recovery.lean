import TemplatePrep.Profile
import TemplatePrep.Proofs.Rule.Effect
import TemplatePrep.Rule.Recovery

/-!
# Profiles differ in marked text only

The profiles agree on what they look for: text that is blank, outside of static properties, and comments that come
first. Where the default profile removes blank text another may mark it, and another may put a marker in front of a
comment. Both leave marked text, so recovery brings every profile back to what the default profile leaves, as long as
the template has no marked text of its own.
-/

namespace TemplatePrep

namespace Effect

/-- The effect of removing blank text and doing nothing else. -/
def removing : Effect := ⟨.removed, false⟩

variable {e : Effect}

/-- Recovery takes out the marker that stands in front of siblings. -/
theorem recoverAll_marker (e : Effect) (siblings : List Node) : Node.recoverAll (e.marker siblings) = [] := by
  rw [marker]
  split
  · rfl
  · rfl

/-- An effect that removes or marks blank text differs on a leaf in marked text only. -/
theorem recoverAll_onLeaf (he : e.blankText ≠ .kept) {parent : Parent} {kind : LeafKind} {text : String}
    {span : Option Span} (h : (Node.leaf kind text span).isMarked = false) :
    Node.recoverAll (e.onLeaf parent kind text span) = removing.onLeaf parent kind text span := by
  rw [onLeaf, onLeaf]
  by_cases hblank : isBlankText parent kind text = true
  · rw [if_pos hblank, if_pos hblank]
    cases hb : e.blankText with
    | kept => exact absurd hb he
    | removed => rfl
    | marked =>
      rw [isBlankText, Bool.and_eq_true, Bool.and_eq_true, beq_iff_eq] at hblank
      obtain ⟨⟨rfl, hblank⟩, -⟩ := hblank
      have hmarked : (Node.leaf .text (Text.marker ++ text) span).isMarked = true :=
        Text.isMarked_iff.mpr ⟨text, hblank, rfl⟩
      show Node.recoverAll [_] = []
      rw [Node.recoverAll, if_pos hmarked]
      rfl
  · rw [if_neg hblank, if_neg hblank, Node.recoverAll, h, if_neg Bool.false_ne_true]
    rfl

mutual
/-- An effect that removes or marks blank text differs on a child in marked text only. -/
theorem recoverAll_onChild (he : e.blankText ≠ .kept) (parent : Parent) : (n : Node) →
    (∀ m ∈ n.subtree, m.isMarked = false) → Node.recoverAll (e.onChild parent n) = removing.onChild parent n
  | .leaf kind text span, h => by
    rw [onChild, onChild]
    exact recoverAll_onLeaf he (h _ (List.mem_singleton_self _))
  | .branch head children span, h => by
    rw [Node.subtree_eq_cons, List.forall_mem_cons] at h
    have hchildren := recoverAll_onChildren he head.parent children h.2
    -- the default effect puts no marker in front of siblings, and recovery takes out any other
    have hsiblings :
        Node.recoverAll (e.marker (e.onChildren head.parent children) ++ e.onChildren head.parent children) =
        removing.marker (removing.onChildren head.parent children) ++ removing.onChildren head.parent children := by
      rw [Node.recoverAll_append, recoverAll_marker, hchildren]
      rfl
    rw [onChild, onChild, ← hsiblings]
    rfl

theorem recoverAll_onChildren (he : e.blankText ≠ .kept) (parent : Parent) : (ns : List Node) →
    (∀ m ∈ ns.flatMap Node.subtree, m.isMarked = false) →
    Node.recoverAll (e.onChildren parent ns) = removing.onChildren parent ns
  | [], _ => by rw [onChildren, onChildren, Node.recoverAll]
  | n :: rest, h => by
    rw [List.flatMap_cons, List.forall_mem_append] at h
    rw [onChildren, onChildren, Node.recoverAll_append, recoverAll_onChild he parent n h.1,
      recoverAll_onChildren he parent rest h.2]
end

/-- An effect that removes or marks blank text differs on a template in marked text only. -/
theorem recover_onTemplate (he : e.blankText ≠ .kept) {t : Template} (h : ∀ n ∈ t.root.subtree, n.isMarked = false) :
    (e.onTemplate t).recover = removing.onTemplate t := by
  rw [Node.subtree_eq_cons, List.forall_mem_cons] at h
  rw [Template.recover, onTemplate, onTemplate, Node.recoverAll_append, recoverAll_marker]
  dsimp only
  rw [recoverAll_onChildren he .topLevel t.segments h.2]
  rfl

end Effect

namespace Profile

variable {σ τ : Type}

/-- Every profile looks after blank text. -/
theorem blankText_rules_ne_kept (p : Profile) : (Effect.ofBuiltins p.rules).blankText ≠ .kept := by
  obtain ⟨keepsBlankText, keepsInitialComments⟩ := p
  cases keepsBlankText <;> cases keepsInitialComments <;> decide

theorem ofBuiltins_rules_default : Effect.ofBuiltins default.rules = Effect.removing := rfl

/-- On a template without marked text a pass for any profile ends with a tree that recovery turns into what a pass for
the default profile leaves. So whatever the default profile leaves, every profile leaves too, in the same order. -/
theorem recover_tree_eq_default (p : Profile) {t : Template} (h : ∀ n ∈ t.root.subtree, n.isMarked = false) (s : σ)
    (s' : τ) :
    (∃ limit r, p.ruleSet.run? limit t s = some r) ∧ (∃ limit r, default.ruleSet.run? limit t s' = some r) ∧
      ∀ limit r limit' r', p.ruleSet.run? limit t s = some r → default.ruleSet.run? limit' t s' = some r' →
        r.tree.recover = r'.tree ∧ r'.tree.outline.Sublist r.tree.outline := by
  obtain ⟨limit, hrun⟩ := Effect.exists_run?_counts p.rules t s
  obtain ⟨limit', hdefault⟩ := Effect.exists_run?_counts default.rules t s'
  refine ⟨⟨limit, _, hrun⟩, ⟨limit', _, hdefault⟩, ?_⟩
  intro _ r _ r' hr hr'
  have hrecover : r.tree.recover = r'.tree := by
    rw [RuleSet.run?_unique hr hrun, RuleSet.run?_unique hr' hdefault, ofBuiltins_rules_default]
    exact Effect.recover_onTemplate p.blankText_rules_ne_kept h
  refine ⟨hrecover, ?_⟩
  rw [← hrecover]
  exact Template.outline_recover_sublist r.tree

/-- A paragraph that starts with a comment, with blank text behind it and inside a static property. -/
def paragraph : Template := ⟨[.element "p" [.comment "c", .text " ", .property "title" [.text " "]]], none⟩

/-- For a target that loses both, the comment and the blank text behind it stand behind marks, and recovery takes out
both of these texts. -/
theorem recover_tree_eq_default_paragraph :
    (∀ n ∈ paragraph.root.subtree, n.isMarked = false) ∧
    (∃ limit, (legacy.ruleSet : RuleSet Unit).run? limit paragraph () =
      some ⟨⟨[.element "p" [.text Text.marker, .comment "c", .text (Text.marker ++ " "),
        .property "title" [.text " "]]], none⟩, ⟨7, 0, 1⟩, ()⟩) ∧
    (∃ limit, (default.ruleSet : RuleSet Unit).run? limit paragraph () =
      some ⟨⟨[.element "p" [.comment "c", .property "title" [.text " "]]], none⟩, ⟨6, 1, 0⟩, ()⟩) ∧
    (⟨[.element "p" [.text Text.marker, .comment "c", .text (Text.marker ++ " "), .property "title" [.text " "]]],
        none⟩ : Template).recover = ⟨[.element "p" [.comment "c", .property "title" [.text " "]]], none⟩ := by
  have hmarked : ∀ n ∈ paragraph.root.subtree, n.isMarked = false := by decide
  obtain ⟨limit, hlegacy⟩ := Effect.exists_run?_counts legacy.rules paragraph ()
  have hlegacyTree : (Effect.ofBuiltins legacy.rules).onTemplate paragraph =
      ⟨[.element "p" [.text Text.marker, .comment "c", .text (Text.marker ++ " "), .property "title" [.text " "]]],
        none⟩ := by
    decide
  obtain ⟨limit', hdefault⟩ := Effect.exists_run?_counts default.rules paragraph ()
  have hdefaultTree : (Effect.ofBuiltins default.rules).onTemplate paragraph =
      ⟨[.element "p" [.comment "c", .property "title" [.text " "]]], none⟩ := by
    decide
  rw [hlegacyTree] at hlegacy
  rw [hdefaultTree] at hdefault
  obtain ⟨-, -, hrecover⟩ := recover_tree_eq_default legacy hmarked () ()
  exact ⟨hmarked, ⟨limit, hlegacy⟩, ⟨limit', hdefault⟩, (hrecover limit _ limit' _ hlegacy hdefault).1⟩

end Profile

end TemplatePrep

import TemplatePrep.Rule.Basic

/-!
# Replacements

A rule can replace the visited node by another one: it asks for the other node on one side and for the removal of its
own. On either side the result should be the same, and it can be said without rules and visits. From the root down,
every node that the replacement is for gives way to its image, with all that stands under it, and every other node is
kept and has its children replaced in their turn. Nothing in an image may be up for replacement again.
-/

namespace TemplatePrep

/-- A side of the visited node. -/
inductive Side where
  | before
  | after
deriving DecidableEq

/-- The request to put a node on a side of the visited one. -/
def Side.insert : Side → Node → Edits
  | before, n => Edits.insertBefore n
  | after, n => Edits.insertAfter n

/-- What nodes of one kind are replaced by. Top-level code and blocks of code are not replaced, since the root and the
code of an insert have no siblings of their own. -/
structure Replacement where
  kind : Kind
  /-- Which nodes of the kind are replaced. -/
  applies : NodeOf kind → Bool
  /-- What a replaced node gives way to. -/
  image : NodeOf kind → Node
  kind_ne_topLevel : kind ≠ .topLevel
  kind_ne_embeddedCode : kind ≠ .embeddedCode
  /-- Neither an image nor anything under it is replaced. -/
  image_spent : ∀ n, applies n = true → ∀ d ∈ (image n).subtree, ∀ h : d.kind = kind, applies ⟨d, h⟩ = false

namespace Replacement

/-- The node that a node gives way to, if it is replaced. -/
def image? (x : Replacement) (n : Node) : Option Node :=
  if h : n.kind = x.kind then if x.applies ⟨n, h⟩ then some (x.image ⟨n, h⟩) else none else none

/-- The rule that asks for the image of its node on a side, and for the removal of the node. -/
def rule {σ : Type} (x : Replacement) (side : Side) : Rule σ x.kind := fun _ n s =>
  ⟨n, if x.applies n then side.insert (x.image n) ++ Edits.prune else Edits.none, s⟩

/-- The rule set with this rule only. -/
def rules {σ : Type} (x : Replacement) (side : Side) : RuleSet σ := RuleSet.empty.attach x.kind (x.rule side)

/-! ## From the root down -/

mutual
/-- What becomes of a node: its image, or itself with its children replaced. -/
def onNode (x : Replacement) : Node → Node
  | .leaf kind text span => (x.image? (.leaf kind text span)).getD (.leaf kind text span)
  | .branch head children span =>
    (x.image? (.branch head children span)).getD (.branch head (x.onNodes children) span)

/-- What becomes of several siblings. -/
def onNodes (x : Replacement) : List Node → List Node
  | [] => []
  | n :: rest => x.onNode n :: x.onNodes rest
end

mutual
/-- The number of nodes replaced in a subtree. -/
def replaced (x : Replacement) : Node → Nat
  | .leaf kind text span => if (x.image? (.leaf kind text span)).isSome then 1 else 0
  | .branch head children span =>
    if (x.image? (.branch head children span)).isSome then 1 else x.replacedAll children

/-- The number of nodes replaced in several subtrees. -/
def replacedAll (x : Replacement) : List Node → Nat
  | [] => 0
  | n :: rest => x.replaced n + x.replacedAll rest
end

/-- What becomes of a template. -/
def onTemplate (x : Replacement) (t : Template) : Template := ⟨x.onNodes t.segments, t.span⟩

/-! ## One node -/

variable {x : Replacement} {n m : Node}

theorem image?_eq_some_iff :
    x.image? n = some m ↔ ∃ h : n.kind = x.kind, x.applies ⟨n, h⟩ = true ∧ x.image ⟨n, h⟩ = m := by
  rw [image?]
  by_cases h : n.kind = x.kind
  · simp [h]
  · simp [h]

theorem image?_eq_none_iff : x.image? n = none ↔ ∀ h : n.kind = x.kind, x.applies ⟨n, h⟩ = false := by
  rw [image?]
  by_cases h : n.kind = x.kind
  · simp [h]
  · simp [h]

/-- Only nodes of the one kind are replaced. -/
theorem image?_of_kind_ne (h : n.kind ≠ x.kind) : x.image? n = none :=
  image?_eq_none_iff.mpr fun hkind => absurd hkind h

/-- Nothing in an image is replaced. -/
theorem image?_of_mem_image (h : x.image? n = some m) : ∀ d ∈ m.subtree, x.image? d = none := by
  obtain ⟨_, happlies, rfl⟩ := image?_eq_some_iff.mp h
  intro d hd
  exact image?_eq_none_iff.mpr fun hkind => x.image_spent _ happlies d hd hkind

theorem onNode_of_image (h : x.image? n = some m) : x.onNode n = m := by
  cases n with
  | leaf => rw [onNode, h, Option.getD_some]
  | branch => rw [onNode, h, Option.getD_some]

theorem onNode_leaf {kind : LeafKind} {text : String} {span : Option Span}
    (h : x.image? (.leaf kind text span) = none) : x.onNode (.leaf kind text span) = .leaf kind text span := by
  rw [onNode, h, Option.getD_none]

theorem onNode_branch {head : Head} {children : List Node} {span : Option Span}
    (h : x.image? (.branch head children span) = none) :
    x.onNode (.branch head children span) = .branch head (x.onNodes children) span := by
  rw [onNode, h, Option.getD_none]

theorem replaced_of_image (h : x.image? n = some m) : x.replaced n = 1 := by
  cases n with
  | leaf => rw [replaced, h, Option.isSome_some, if_pos rfl]
  | branch => rw [replaced, h, Option.isSome_some, if_pos rfl]

theorem replaced_leaf {kind : LeafKind} {text : String} {span : Option Span}
    (h : x.image? (.leaf kind text span) = none) : x.replaced (.leaf kind text span) = 0 := by
  rw [replaced, h, Option.isSome_none, if_neg Bool.false_ne_true]

theorem replaced_branch {head : Head} {children : List Node} {span : Option Span}
    (h : x.image? (.branch head children span) = none) :
    x.replaced (.branch head children span) = x.replacedAll children := by
  rw [replaced, h, Option.isSome_none, if_neg Bool.false_ne_true]

mutual
/-- Where nothing is replaced, everything stays. -/
theorem onNode_eq_self : (n : Node) → (∀ d ∈ n.subtree, x.image? d = none) → x.onNode n = n ∧ x.replaced n = 0
  | .leaf kind text span, h => by
    have hown := h _ (Node.mem_subtree _)
    exact ⟨onNode_leaf hown, replaced_leaf hown⟩
  | .branch head children span, h => by
    rw [Node.subtree_eq_cons, List.forall_mem_cons] at h
    obtain ⟨hchildren, hnone⟩ := onNodes_eq_self children h.2
    exact ⟨(onNode_branch h.1).trans (by rw [hchildren]), (replaced_branch h.1).trans hnone⟩

theorem onNodes_eq_self : (ns : List Node) → (∀ d ∈ ns.flatMap Node.subtree, x.image? d = none) →
    x.onNodes ns = ns ∧ x.replacedAll ns = 0
  | [], _ => ⟨by rw [onNodes], by rw [replacedAll]⟩
  | n :: rest, h => by
    rw [List.flatMap_cons, List.forall_mem_append] at h
    obtain ⟨hn, hnone⟩ := onNode_eq_self n h.1
    obtain ⟨hrest, hnoneRest⟩ := onNodes_eq_self rest h.2
    exact ⟨by rw [onNodes, hn, hrest], by rw [replacedAll, hnone, hnoneRest]⟩
end

/-! ## Calls -/

/-- What is asked for around a node: its image and its removal, or nothing. -/
def requests (x : Replacement) (side : Side) (n : Node) : Edits :=
  match x.image? n with
  | some m => side.insert m ++ Edits.prune
  | none => Edits.none

theorem requests_of_image (side : Side) (h : x.image? n = some m) :
    x.requests side n = side.insert m ++ Edits.prune := by
  rw [requests, h]

theorem requests_of_none (side : Side) (h : x.image? n = none) : x.requests side n = Edits.none := by
  rw [requests, h]

/-- The rule of a replacement leaves its node as it is. -/
theorem call_rules {σ : Type} (x : Replacement) (side : Side) (place : Place) (n : Node) (s : σ) :
    (x.rules side).call place Edits.none n s = ⟨⟨n, rfl⟩, x.requests side n, s⟩ := by
  by_cases hkind : n.kind = x.kind
  · -- the kind of the replacement is the kind of the node, so its chain is the one rule
    obtain ⟨k, applies, image, htopLevel, hcode, hspent⟩ := x
    obtain rfl : n.kind = k := hkind
    rw [RuleSet.call, rules, RuleSet.chain_attach_self, RuleSet.chain_empty, runChain, runChain, ite_self, rule,
      requests, image?, dif_pos rfl]
    by_cases happlies : applies ⟨n, rfl⟩ = true
    · simp only [if_pos happlies]
      rfl
    · simp only [if_neg happlies]
      rfl
  · rw [requests_of_none side (image?_of_kind_ne hkind)]
    apply RuleSet.call_of_chain_eq_nil
    rw [rules, RuleSet.chain_attach_of_ne _ _ (Ne.symm hkind), RuleSet.chain_empty]

end Replacement

end TemplatePrep

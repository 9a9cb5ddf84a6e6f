import TemplatePrep.Rule.Pruning

/-!
# Sieves

A sieve holds tests for removal that look at a node and its container only, not at the siblings. What a sieve does to a
tree can be said without a pass. A child is rejected or stays as it stands, before anything inside it is removed; of a
child that stays, the head and the span are kept and the children are sieved in their turn. An insert is rejected
through its code as well.

What is removed are the rejected nodes above which everything stays. A lineage is the way up from a node, so that this
can be said of each node by itself.
-/

namespace TemplatePrep

/-- A node with its container, and behind it the nodes above it up to a child of the root, each with its container. -/
abbrev Lineage := List (Parent × Node)

namespace Node

mutual
/-- The lineages of a node and of all under it, in preorder. -/
def lineages (above : Lineage) (parent : Parent) : Node → List Lineage
  | leaf kind text span => [(parent, leaf kind text span) :: above]
  | branch head children span =>
    ((parent, branch head children span) :: above) ::
      lineagesAll ((parent, branch head children span) :: above) head.parent children

/-- The lineages of several siblings and of all under them. -/
def lineagesAll (above : Lineage) (parent : Parent) : List Node → List Lineage
  | [] => []
  | n :: rest => n.lineages above parent ++ lineagesAll above parent rest
end

mutual
/-- Every node has one lineage. -/
theorem filterMap_lineages (above : Lineage) (parent : Parent) : (n : Node) →
    (n.lineages above parent).filterMap (fun l => l.head?.map Prod.snd) = n.subtree
  | leaf kind text span => by
    rw [lineages, subtree_eq_cons]
    rfl
  | branch head children span => by
    rw [lineages, subtree_eq_cons, List.filterMap_cons, filterMap_lineagesAll _ head.parent children]
    rfl

theorem filterMap_lineagesAll (above : Lineage) (parent : Parent) : (ns : List Node) →
    (lineagesAll above parent ns).filterMap (fun l => l.head?.map Prod.snd) = ns.flatMap subtree
  | [] => rfl
  | n :: rest => by
    rw [lineagesAll, List.filterMap_append, filterMap_lineages above parent n,
      filterMap_lineagesAll above parent rest, List.flatMap_cons]
end

end Node

/-- The lineages of all nodes under the root. -/
def Template.lineages (t : Template) : List Lineage := Node.lineagesAll [] .topLevel t.segments

/-- Tests on a node and its container, for each kind of node. -/
structure Sieve where
  tests : (k : Kind) → List (Parent → NodeOf k → Bool)

namespace Sieve

/-- The rule set that removes nodes by the tests of a sieve. -/
def rules {σ : Type} (x : Sieve) : RuleSet σ :=
  ⟨fun k => (x.tests k).map fun test => Rule.pruneIf fun v n => test v.parent n⟩

/-- Whether a test for a node's own kind holds. -/
def catches (x : Sieve) (parent : Parent) (n : Node) : Bool :=
  (x.tests n.kind).any fun test => test parent (NodeOf.self n)

/-- Whether a child of a container is rejected. An insert is also rejected if its code is caught where the insert
stands. -/
def rejects (x : Sieve) (parent : Parent) : Node → Bool
  | .branch (.insert codeSpan) segments span =>
    x.catches parent (.branch (.insert codeSpan) segments span) ||
      x.catches parent (.branch .embeddedCode segments codeSpan)
  | n => x.catches parent n

mutual
/-- What is left of a node that stays. -/
def onNode (x : Sieve) : Node → Node
  | .leaf kind text span => .leaf kind text span
  | .branch head children span => .branch head (x.sift head.parent children) span

/-- What is left of the children of a container. -/
def sift (x : Sieve) (parent : Parent) : List Node → List Node
  | [] => []
  | n :: rest => if x.rejects parent n then x.sift parent rest else x.onNode n :: x.sift parent rest
end

/-- Whether the node of a lineage is removed: it is rejected, and all above it stay. -/
def removes (x : Sieve) : Lineage → Bool
  | [] => false
  | (parent, n) :: above => x.rejects parent n && above.all fun a => !x.rejects a.1 a.2

/-! ## Siblings -/

theorem sift_eq_map_filter (x : Sieve) (parent : Parent) (ns : List Node) :
    x.sift parent ns = (ns.filter fun n => !x.rejects parent n).map x.onNode := by
  induction ns with
  | nil => rfl
  | cons n rest ih =>
    rw [sift, List.filter_cons, ih]
    by_cases hn : x.rejects parent n = true
    · rw [if_pos hn, if_neg (by simp [hn])]
    · rw [if_neg hn, if_pos (by simp [hn]), List.map_cons]

/-- Of M siblings, N of them rejected, M - N are left. -/
theorem length_sift (x : Sieve) (parent : Parent) (ns : List Node) :
    (x.sift parent ns).length = ns.length - ns.countP (x.rejects parent) := by
  have hsplit := List.length_eq_countP_add_countP (x.rejects parent) (l := ns)
  rw [sift_eq_map_filter, List.length_map, ← List.countP_eq_length_filter]
  simp only [Bool.not_eq_true, Bool.decide_eq_false] at hsplit
  omega

/-! ## Removals -/

mutual
/-- The number of removals inside a node that stays. -/
def removals (x : Sieve) : Node → Nat
  | .leaf _ _ _ => 0
  | .branch head children _ => x.removalsAll head.parent children

/-- The number of removals among some siblings and inside those that stay. -/
def removalsAll (x : Sieve) (parent : Parent) : List Node → Nat
  | [] => 0
  | n :: rest => (if x.rejects parent n then 1 else x.removals n) + x.removalsAll parent rest
end

mutual
/-- Inside a node that has all of its lineage stay, the removed nodes are those counted, and elsewhere there are none. -/
theorem countP_lineages (x : Sieve) (above : Lineage) (parent : Parent) : (n : Node) →
    (n.lineages above parent).countP x.removes =
      if above.all (fun a => !x.rejects a.1 a.2) then if x.rejects parent n then 1 else x.removals n else 0
  | .leaf kind text span => by
    rw [Node.lineages, List.countP_singleton, removes, removals]
    generalize above.all (fun a => !x.rejects a.1 a.2) = stays
    cases stays <;> cases x.rejects parent (.leaf kind text span) <;> rfl
  | .branch head children span => by
    rw [Node.lineages, List.countP_cons, countP_lineagesAll x _ head.parent children, removes, removals, List.all_cons]
    generalize above.all (fun a => !x.rejects a.1 a.2) = stays
    cases stays <;> cases x.rejects parent (.branch head children span) <;> rfl

theorem countP_lineagesAll (x : Sieve) (above : Lineage) (parent : Parent) : (ns : List Node) →
    (Node.lineagesAll above parent ns).countP x.removes =
      if above.all (fun a => !x.rejects a.1 a.2) then x.removalsAll parent ns else 0
  | [] => by
    rw [Node.lineagesAll, removalsAll]
    simp
  | n :: rest => by
    rw [Node.lineagesAll, List.countP_append, countP_lineages x above parent n, countP_lineagesAll x above parent rest,
      removalsAll]
    split <;> rfl
end

/-- The removals in a template are its removed nodes. -/
theorem countP_lineages_template (x : Sieve) (t : Template) :
    t.lineages.countP x.removes = x.removalsAll .topLevel t.segments := by
  rw [Template.lineages, countP_lineagesAll]
  rfl

end Sieve

end TemplatePrep

import TemplatePrep.Pass
import TemplatePrep.Pass.Behaviour

/-!
# The pass by blocks

The same pass without indices. Siblings are kept in two lists, those that are settled and those still ahead. Settling
a child gives a block of nodes that now stand in its stead, which joins the settled ones, and the nodes put behind it,
which come ahead of the rest. No list is edited in place, so that nothing has to be said about indices.

The pass is given the behaviours of the kinds. For a rule set they are to go through the chains and then walk the node.
-/

namespace TemplatePrep

/-- A settled child: the nodes that now stand in its stead, and those behind it that a walk comes to next. -/
structure Settled (σ : Type) where
  placed : List Node
  ahead : List Node
  progress : Progress σ

/-- All that a settled child leaves, in order. -/
def Settled.block {σ : Type} (b : Settled σ) : List Node := b.placed ++ b.ahead

/-- What a visited child leaves once the nodes asked for in front of it are settled: those, the child unless removed,
and the nodes asked for behind it, the last first. -/
def Visited.settled {σ : Type} (v : Visited σ) (q : Swept σ) : Settled σ :=
  ⟨q.nodes ++ v.kept, v.edits.after.reverse, (q.progress.insert v.edits.after.length).prune v.edits.pruned⟩

namespace Blocks

variable {σ : Type}

mutual
/-- Visits a node: counts the visit and does what is done with a node of its kind. -/
def visit (bs : Behaviours σ) : Nat → Place → Edits → Node → Progress σ → Option (Visited σ)
  | 0, _, _, _, _ => none
  | limit + 1, place, edits, n, p =>
    bs.on n.kind ⟨visit bs limit, fun parent children => sweep bs limit parent [] children⟩ place edits (NodeOf.self n)
      p.visit

/-- Visits a child and settles it. -/
def settle (bs : Behaviours σ) : Nat → Place → Node → Progress σ → Option (Settled σ)
  | 0, _, _, _ => none
  | limit + 1, place, n, p => do
    let v ← visit bs limit place Edits.none n p
    let q ← settleQueue bs limit place.parent place.before (v.node :: place.after) v.edits.before v.progress
    some (v.settled q)

/-- Settles the nodes asked for in front of a child, each behind what is settled by then and before the child. -/
def settleQueue (bs : Behaviours σ) :
    Nat → Parent → List Node → List Node → List Node → Progress σ → Option (Swept σ)
  | 0, _, _, _, _, _ => none
  | _ + 1, _, _, _, [], p => some ⟨[], p⟩
  | limit + 1, parent, before, after, n :: queue, p => do
    let b ← settle bs limit ⟨parent, before, after⟩ n (p.insert 1)
    let q ← settleQueue bs limit parent (before ++ b.block) after queue b.progress
    some ⟨b.block ++ q.nodes, q.progress⟩

/-- Walks the siblings that are still ahead, those in front of them being settled. -/
def sweep (bs : Behaviours σ) : Nat → Parent → List Node → List Node → Progress σ → Option (Swept σ)
  | 0, _, _, _, _ => none
  | _ + 1, _, settled, [], p => some ⟨settled, p⟩
  | limit + 1, parent, settled, n :: rest, p => do
    let b ← settle bs limit ⟨parent, settled, rest⟩ n p
    sweep bs limit parent (settled ++ b.placed) (b.ahead ++ rest) b.progress
end

/-- The visit of a node by a rule set: the chain of its kind is called, and then the node is walked. -/
theorem visit_succ (rules : RuleSet σ) (limit : Nat) (place : Place) (edits : Edits) (n : Node) (p : Progress σ) :
    visit rules (limit + 1) place edits n p =
      let o := rules.call place edits n p.state
      let p := p.visit.withState o.state
      if o.edits.pruned then some ⟨o.node, o.edits, p⟩
      else
        Behaviour.walk n.kind ⟨visit rules limit, fun parent children => sweep rules limit parent [] children⟩ place
          o.edits o.node p := rfl

end Blocks

/-- Runs a pass with the given behaviours over a template within a limit. Edits asked for on the root are dropped. -/
def Behaviours.run? {σ : Type} (bs : Behaviours σ) (limit : Nat) (t : Template) (s : σ) : Option (PassResult σ) :=
  (Blocks.visit bs limit Place.root Edits.none t.root ⟨Stats.zero, s⟩).map fun v =>
    ⟨.ofRoot v.node, v.progress.stats, v.progress.state⟩

end TemplatePrep

import TemplatePrep.Pass.Progress
import TemplatePrep.Pass.Splice

/-!
# The pass

A pass visits the nodes of a template depth first and carries out the edits that rules ask for. Visiting a node runs
the chain of its kind and then, unless the node was removed, visits its children from left to right. The code of an
insert is visited right after the insert and shares its place and its requests.

The children of a container are edited in place while a cursor goes over them. When the visit of a child is over, the
nodes asked for in front of it are put at the cursor and settled one after another, each by the same procedure; the
cursor then moves up by as much as the siblings have grown, so that it stands at the child again. The nodes asked for
behind the child are put right behind the cursor, and the child is taken out if it was removed. The walk goes on with
the node that now follows; so it comes to nodes put behind a child of the walk, but not to nodes put behind a node that
was itself put before a child, which are passed over with the rest of what that node has become.

Rules can ask for nodes that make them ask again, without end, so the pass is given a limit on how deep its steps may
stand inside and after one another. Where the limit is too small there is no answer; a larger limit never changes an
answer.
-/

namespace TemplatePrep

/-- Siblings after the cursor's node has been settled: the cursor stands at the next node to visit. -/
structure Spliced (σ : Type) where
  siblings : List Node
  cursor : Nat
  progress : Progress σ

namespace Pass

variable {σ : Type}

mutual
/-- Visits a node: runs the chain of its kind and then walks its children. -/
def visit (rules : RuleSet σ) : Nat → Place → Edits → Node → Progress σ → Except Halt (Visited σ)
  | 0, _, _, _, _ => .error .limit
  | limit + 1, place, edits, n, p =>
    let o := rules.call place edits n p.state
    let p := p.visit.withState o.state
    if o.edits.pruned then .ok ⟨o.node, o.edits, p⟩
    else
      match o.node.val with
      | .leaf _ _ _ => .ok ⟨o.node, o.edits, p⟩
      | .branch (.insert codeSpan) segments span => do
        let v ← visit rules limit place o.edits (.branch .embeddedCode segments codeSpan) p
        .ok ⟨withCode span v.node, v.edits, v.progress⟩
      | .branch head children span => do
        let w ← sweepFrom rules limit head.parent children 0 p
        .ok ⟨.branch head w.nodes span, o.edits, w.progress⟩

/-- Visits the sibling at an index and carries out the edits asked for. Behind the last sibling nothing is done. -/
def settleAt (rules : RuleSet σ) : Nat → Parent → List Node → Nat → Progress σ → Except Halt (Spliced σ)
  | 0, _, _, _, _ => .error .limit
  | limit + 1, parent, siblings, i, p =>
    if siblings.length < i then .error .bounds
    else
      match siblings.drop i with
      | [] => .ok ⟨siblings, i, p⟩
      | n :: after => do
        let v ← visit rules limit ⟨parent, siblings.take i, after⟩ Edits.none n p
        let q ← settleQueueAt rules limit parent v.edits.before (siblings.set i v.node) i v.progress
        let siblings ← Splice.insertEach q.siblings (q.cursor + 1) v.edits.after
        let p := (q.progress.insert v.edits.after.length).prune v.edits.pruned
        if v.edits.pruned then do
          let siblings ← Splice.removeAt siblings q.cursor
          .ok ⟨siblings, q.cursor, p⟩
        else .ok ⟨siblings, q.cursor + 1, p⟩

/-- Puts the nodes asked for in front of the sibling at the cursor there and settles them. Afterwards the cursor stands
at that sibling again. -/
def settleQueueAt (rules : RuleSet σ) :
    Nat → Parent → List Node → List Node → Nat → Progress σ → Except Halt (Spliced σ)
  | 0, _, _, _, _, _ => .error .limit
  | _ + 1, _, [], siblings, cursor, p => .ok ⟨siblings, cursor, p⟩
  | limit + 1, parent, n :: queue, siblings, cursor, p => do
    let longer ← Splice.insertAt siblings cursor n
    let b ← settleAt rules limit parent longer cursor (p.insert 1)
    let grown ← Splice.growth siblings.length b.siblings.length
    settleQueueAt rules limit parent queue b.siblings (cursor + grown) b.progress

/-- Walks the siblings from an index on. -/
def sweepFrom (rules : RuleSet σ) : Nat → Parent → List Node → Nat → Progress σ → Except Halt (Swept σ)
  | 0, _, _, _, _ => .error .limit
  | limit + 1, parent, siblings, i, p =>
    if i < siblings.length then do
      let b ← settleAt rules limit parent siblings i p
      sweepFrom rules limit parent b.siblings b.cursor b.progress
    else .ok ⟨siblings, p⟩
end

end Pass

/-- A finished pass. -/
structure PassResult (σ : Type) where
  tree : Template
  stats : Stats
  state : σ

/-- Runs a pass over a template within a limit. The root has no siblings and cannot be removed: edits asked for on it
are dropped, though a request to remove it still ends its visit. -/
def RuleSet.run? {σ : Type} (rules : RuleSet σ) (limit : Nat) (t : Template) (s : σ) : Option (PassResult σ) :=
  match Pass.visit rules limit Place.root Edits.none t.root ⟨Stats.zero, s⟩ with
  | .ok v => some ⟨.ofRoot v.node, v.progress.stats, v.progress.state⟩
  | .error _ => none

end TemplatePrep

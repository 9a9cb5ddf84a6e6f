import TemplatePrep.Pass.Origin
import TemplatePrep.Rule.Calls

/-!
# The journal of a pass

The pass once more as it runs, with its siblings edited in place, every node tracked, and a journal of what happens to
the child lists. The journal notes each visit, with the place that its rules are shown and with the calls of these
rules, the beginning of each walk, and each change of a child list. Carrying the noted changes out again gives the child
list of any container at any point of the pass. Nothing depends on the journal; leaving it out gives the pass.
-/

namespace TemplatePrep

/-! ## Changes of child lists -/

/-- A change of one child list. -/
inductive Change where
  /-- The node at an index becomes what its visit has left. -/
  | replace (i : Nat) (m : Tracked)
  /-- A node that was asked for is put at an index. -/
  | put (i : Nat) (a : Arrival)
  /-- The node at an index is taken out. -/
  | take (i : Nat)

/-- The child list after a change. -/
def Change.apply (ms : List Tracked) : Change → List Tracked
  | replace i m => ms.set i m
  | put i a => ms.insertIdx i (.fresh a)
  | take i => ms.eraseIdx i

/-- The changes with which the visit of a child at an index ends: the nodes asked for behind it are put there, and it is
taken out if it is to be removed. -/
def Edits.closing (edits : Edits) (o : Origin) (i : Nat) : List Change :=
  (arrivals o .after edits.after).map (.put (i + 1)) ++ if edits.pruned then [.take i] else []

/-! ## Entries -/

/-- What a journal notes. -/
inductive Entry where
  /-- A visit begins: in a container, or at the root in none, at a place, with some edits asked for around the node
  already. Its chain makes the given calls. -/
  | visit (arrival : Arrival) (container : Option Origin) (place : Tracked.Place) (asked : Edits)
    (calls : List RuleCall)
  /-- The walk of a container starts, with these children. -/
  | walk (container : Origin) (parent : Parent) (children : List Arrival)
  /-- The child list of a container changes. -/
  | change (container : Origin) (c : Change)

namespace Entry

/-- The node whose visit begins with an entry, if one does. -/
def visited? : Entry → Option Arrival
  | visit a _ _ _ _ => some a
  | _ => none

/-- The child lists after an entry. -/
def update (lists : Origin → List Tracked) : Entry → Origin → List Tracked
  | visit _ _ _ _ _, o => lists o
  | walk container _ children, o => if o = container then children.map .fresh else lists o
  | change container c, o => if o = container then c.apply (lists o) else lists o

end Entry

/-- The child lists of all containers after some entries. -/
def childLists (entries : List Entry) : Origin → List Tracked := entries.foldl Entry.update fun _ => []

/-- A tracked node as it comes up for a visit. -/
def Tracked.arrival (m : Tracked) : Arrival := ⟨m.origin, m.erase⟩

/-- The origin under which a container stands in a tree: the code of an insert stands there as part of the insert. -/
def Origin.owner (o : Origin) : Origin := if o.isCode then o.dropLast else o

/-! ## The pass -/

namespace Journal

variable {σ : Type}

/-- A finished visit with its entries. -/
structure Visited (σ : Type) where
  node : Tracked
  edits : Edits
  progress : Progress σ
  entries : List Entry

/-- Siblings after the cursor's node has been settled, with the entries. -/
structure Spliced (σ : Type) where
  siblings : List Tracked
  cursor : Nat
  progress : Progress σ
  entries : List Entry

/-- A list of siblings that is done, with its entries. -/
structure Swept (σ : Type) where
  nodes : List Tracked
  progress : Progress σ
  entries : List Entry

mutual
/-- Visits a node: runs the chain of its kind and then walks its children. -/
def visit (rules : RuleSet σ) :
    Nat → Option Origin → Tracked.Place → Edits → Arrival → Progress σ → Option (Visited σ)
  | 0, _, _, _, _, _ => none
  | limit + 1, container, place, edits, a, p =>
    let o := rules.call place.erase edits a.node p.state
    let entry := Entry.visit a container place edits (rules.calls place.erase edits a.node p.state)
    let p := p.visit.withState o.state
    if o.edits.pruned then some ⟨.fresh ⟨a.origin, o.node⟩, o.edits, p, [entry]⟩
    else
      match o.node.val with
      | .leaf _ _ _ => some ⟨.fresh ⟨a.origin, o.node⟩, o.edits, p, [entry]⟩
      | .branch (.insert codeSpan) segments span => do
        let v ← visit rules limit container place o.edits
          ⟨a.origin ++ [.code], .branch .embeddedCode segments codeSpan⟩ p
        some ⟨v.node.withCode a.origin span, v.edits, v.progress, entry :: v.entries⟩
      | .branch head children span => do
        let w ← sweepFrom rules limit a.origin head.parent ((arrivals a.origin .child children).map .fresh) 0 p
        some ⟨.walked a.origin head w.nodes span, o.edits, w.progress,
          entry :: .walk a.origin head.parent (arrivals a.origin .child children) :: w.entries⟩

/-- Visits the sibling at an index and carries out the edits asked for. -/
def settleAt (rules : RuleSet σ) :
    Nat → Origin → Parent → List Tracked → Nat → Progress σ → Option (Spliced σ)
  | 0, _, _, _, _, _ => none
  | limit + 1, container, parent, siblings, i, p =>
    match siblings.drop i with
    | [] => some ⟨siblings, i, p, []⟩
    | m :: after => do
      let v ← visit rules limit (some container) ⟨parent, siblings.take i, after⟩ Edits.none m.arrival p
      let visited := Change.replace i v.node
      let q ← settleQueueAt rules limit container parent (arrivals m.origin .before v.edits.before)
        (visited.apply siblings) i v.progress
      let closing := v.edits.closing m.origin q.cursor
      some ⟨closing.foldl Change.apply q.siblings, if v.edits.pruned then q.cursor else q.cursor + 1,
        (q.progress.insert v.edits.after.length).prune v.edits.pruned,
        v.entries ++ .change container visited :: (q.entries ++ closing.map (.change container))⟩

/-- Puts the nodes asked for in front of the sibling at the cursor there and settles them. -/
def settleQueueAt (rules : RuleSet σ) :
    Nat → Origin → Parent → List Arrival → List Tracked → Nat → Progress σ → Option (Spliced σ)
  | 0, _, _, _, _, _, _ => none
  | _ + 1, _, _, [], siblings, cursor, p => some ⟨siblings, cursor, p, []⟩
  | limit + 1, container, parent, a :: queue, siblings, cursor, p => do
    let put := Change.put cursor a
    let b ← settleAt rules limit container parent (put.apply siblings) cursor (p.insert 1)
    let q ← settleQueueAt rules limit container parent queue b.siblings
      (cursor + (b.siblings.length - siblings.length)) b.progress
    some ⟨q.siblings, q.cursor, q.progress, .change container put :: (b.entries ++ q.entries)⟩

/-- Walks the siblings from an index on. -/
def sweepFrom (rules : RuleSet σ) :
    Nat → Origin → Parent → List Tracked → Nat → Progress σ → Option (Swept σ)
  | 0, _, _, _, _, _ => none
  | limit + 1, container, parent, siblings, i, p =>
    if i < siblings.length then do
      let b ← settleAt rules limit container parent siblings i p
      let w ← sweepFrom rules limit container parent b.siblings b.cursor b.progress
      some ⟨w.nodes, w.progress, b.entries ++ w.entries⟩
    else some ⟨siblings, p, []⟩
end

end Journal

/-- Runs a pass over a template within a limit and keeps its journal. -/
def RuleSet.journal? {σ : Type} (rules : RuleSet σ) (limit : Nat) (t : Template) (s : σ) : Option (Journal.Visited σ) :=
  Journal.visit rules limit none Tracked.Place.root Edits.none ⟨[], t.root⟩ ⟨Stats.zero, s⟩

end TemplatePrep

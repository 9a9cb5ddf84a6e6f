import TemplatePrep.Pass.Origin

/-!
# The trace of a pass

The pass by blocks once more, with every node tracked and every event noted down: that a visit begins and at which
place, that its chain has run and what has been asked for by then, that the children are walked, and that the visit of a
child is over and its requests are carried out. Nothing depends on the trace; leaving it out gives the pass by blocks.
-/

namespace TemplatePrep

/-- What happens in a pass. -/
inductive Event where
  /-- A visit begins at a place. -/
  | enter (arrival : Arrival) (place : Tracked.Place)
  /-- The chain has run, and this has been asked for on the visit so far. -/
  | ran (origin : Origin) (edits : Edits)
  /-- The walk of a branch starts, with these children. -/
  | walk (origin : Origin) (children : List Node)
  /-- The visit of a child is over, its children walked, and all that was asked for is now carried out. -/
  | leave (origin : Origin) (edits : Edits)

namespace Event

/-- The origin of the node that an event is about. -/
def origin : Event → Origin
  | enter a _ => a.origin
  | ran o _ => o
  | walk o _ => o
  | leave o _ => o

/-- The node whose visit begins with an event, if one does. -/
def visited? : Event → Option Arrival
  | enter a _ => some a
  | _ => none

end Event

/-- The visits among some events, in order. -/
def visited (events : List Event) : List Arrival := events.filterMap Event.visited?

theorem visited_append (events later : List Event) : visited (events ++ later) = visited events ++ visited later := by
  rw [visited, List.filterMap_append]
  rfl

theorem mem_visited {events : List Event} {a : Arrival} :
    a ∈ visited events ↔ ∃ place, Event.enter a place ∈ events := by
  rw [visited, List.mem_filterMap]
  constructor
  · rintro ⟨e, he, h⟩
    cases e with
    | enter b place =>
      cases h
      exact ⟨place, he⟩
    | ran | walk | leave => simp [Event.visited?] at h
  · rintro ⟨place, h⟩
    exact ⟨_, h, rfl⟩

namespace Trace

/-- A finished visit with its events. -/
structure Visited (σ : Type) where
  node : Tracked
  edits : Edits
  progress : Progress σ
  events : List Event

/-- What the visit leaves at the node's own place: the node, unless it is to be removed. -/
def Visited.kept {σ : Type} (v : Visited σ) : List Tracked := if v.edits.pruned then [] else [v.node]

/-- A settled child with its events. -/
structure Settled (σ : Type) where
  placed : List Tracked
  ahead : List Arrival
  progress : Progress σ
  events : List Event

/-- All that a settled child leaves, in order. -/
def Settled.block {σ : Type} (b : Settled σ) : List Tracked := b.placed ++ b.ahead.map .fresh

/-- A list of siblings that is done, with its events. -/
structure Swept (σ : Type) where
  nodes : List Tracked
  progress : Progress σ
  events : List Event

/-- What a visited child leaves once the nodes asked for in front of it are settled. -/
def Visited.settled {σ : Type} (v : Visited σ) (o : Origin) (q : Swept σ) : Settled σ :=
  ⟨q.nodes ++ v.kept, (arrivals o .after v.edits.after).reverse,
    (q.progress.insert v.edits.after.length).prune v.edits.pruned, v.events ++ .leave o v.edits :: q.events⟩

/-- The events with which every visit begins. -/
def opening (a : Arrival) (place : Tracked.Place) (edits : Edits) : List Event :=
  [.enter a place, .ran a.origin edits]

variable {σ : Type}

mutual
/-- Visits a node: runs the chain of its kind and then walks its children. -/
def visit (rules : RuleSet σ) : Nat → Tracked.Place → Edits → Arrival → Progress σ → Option (Visited σ)
  | 0, _, _, _, _ => none
  | limit + 1, place, edits, a, p =>
    let o := rules.call place.erase edits a.node p.state
    let p := p.visit.withState o.state
    let events := opening a place o.edits
    if o.edits.pruned then some ⟨.fresh ⟨a.origin, o.node⟩, o.edits, p, events⟩
    else
      match o.node.val with
      | .leaf _ _ _ => some ⟨.fresh ⟨a.origin, o.node⟩, o.edits, p, events⟩
      | .branch (.insert codeSpan) segments span => do
        let v ← visit rules limit place o.edits ⟨a.origin ++ [.code], .branch .embeddedCode segments codeSpan⟩ p
        some ⟨v.node.withCode a.origin span, v.edits, v.progress, events ++ v.events⟩
      | .branch head children span => do
        let w ← sweep rules limit head.parent [] (arrivals a.origin .child children) p
        some ⟨.walked a.origin head w.nodes span, o.edits, w.progress,
          events ++ .walk a.origin children :: w.events⟩

/-- Visits a child and settles it. -/
def settle (rules : RuleSet σ) : Nat → Tracked.Place → Arrival → Progress σ → Option (Settled σ)
  | 0, _, _, _ => none
  | limit + 1, place, a, p => do
    let v ← visit rules limit place Edits.none a p
    let q ← settleQueue rules limit place.parent place.before (v.node :: place.after)
      (arrivals a.origin .before v.edits.before) v.progress
    some (v.settled a.origin q)

/-- Settles the nodes asked for in front of a child. -/
def settleQueue (rules : RuleSet σ) :
    Nat → Parent → List Tracked → List Tracked → List Arrival → Progress σ → Option (Swept σ)
  | 0, _, _, _, _, _ => none
  | _ + 1, _, _, _, [], p => some ⟨[], p, []⟩
  | limit + 1, parent, before, after, a :: queue, p => do
    let b ← settle rules limit ⟨parent, before, after⟩ a (p.insert 1)
    let q ← settleQueue rules limit parent (before ++ b.block) after queue b.progress
    some ⟨b.block ++ q.nodes, q.progress, b.events ++ q.events⟩

/-- Walks the siblings that are still ahead. -/
def sweep (rules : RuleSet σ) : Nat → Parent → List Tracked → List Arrival → Progress σ → Option (Swept σ)
  | 0, _, _, _, _ => none
  | _ + 1, _, settled, [], p => some ⟨settled, p, []⟩
  | limit + 1, parent, settled, a :: rest, p => do
    let b ← settle rules limit ⟨parent, settled, rest.map .fresh⟩ a p
    let w ← sweep rules limit parent (settled ++ b.placed) (b.ahead ++ rest) b.progress
    some ⟨w.nodes, w.progress, b.events ++ w.events⟩
end

end Trace

/-- Runs a pass over a template within a limit and keeps its trace. -/
def RuleSet.trace? {σ : Type} (rules : RuleSet σ) (limit : Nat) (t : Template) (s : σ) : Option (Trace.Visited σ) :=
  Trace.visit rules limit Tracked.Place.root Edits.none ⟨[], t.root⟩ ⟨Stats.zero, s⟩

end TemplatePrep

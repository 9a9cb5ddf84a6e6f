import TemplatePrep.Rule.Basic
import TemplatePrep.Text.Blank

/-!
# Rules as data

A scripted rule is a list of conditions and a list of actions. Called on a node it looks at all conditions first; if
all hold, the actions are carried out in order, those after a removal too. What an action sees takes the actions before
it into account, in the node and in the requests. Actions can also take notes, which form the state of such rules.
-/

namespace TemplatePrep.Script

/-- A condition on a visited node and its place. -/
inductive Condition where
  /-- The label is the given one. -/
  | label (s : String)
  /-- There is a label, and it is blank or not as said. -/
  | blank (b : Bool)
  /-- The index is the given one. -/
  | index (n : Nat)
  /-- The container is shown as the given text. -/
  | parent (s : String)
  /-- The sibling before is shown as the given text, or there is none. -/
  | previous (s : Option String)
  /-- The sibling after is shown as the given text, or there is none. -/
  | next (s : Option String)
  /-- The node is a container, and it has no children or some as said. -/
  | empty (b : Bool)
  /-- The node has a span or not as said. -/
  | spanned (b : Bool)
deriving DecidableEq

/-- Whether a condition holds. -/
def Condition.holds (v : View) (n : Node) : Condition → Bool
  | label s => n.label? == some s
  | blank b => n.label?.any fun text => Text.isBlank text == b
  | index i => v.index == i
  | parent s => v.parent.describe == s
  | previous s => v.previous?.map Node.describe == s
  | next s => v.next?.map Node.describe == s
  | empty b => n.kind.isContainer && n.children.isEmpty == b
  | spanned b => n.span.isSome == b

/-- An action on a visited node. -/
inductive Action where
  | prune
  | insertBefore (n : Node)
  | insertAfter (n : Node)
  | setLabel (s : String)
  | appendLabel (s : String)
  | pushChild (n : Node)
  | clearChildren
  /-- Takes a note under a name, with the siblings listed or only counted. -/
  | note (name : String) (listed : Bool)

/-- A note on a visited node: what a rule saw when it took it. -/
structure Note where
  name : String
  node : String
  index : Nat
  parent : String
  inProperty : Bool
  previous : Option String
  next : Option String
  before : List String
  after : List String
  pruned : Bool
  listed : Bool
deriving DecidableEq

/-- The note taken after the given requests of the same call. -/
def takeNote (v : View) (n : Node) (edits : Edits) (name : String) (listed : Bool) : Note where
  name := name
  node := n.describe
  index := v.index + edits.before.length
  parent := v.parent.describe
  inProperty := v.parent.isProperty
  previous := v.previous?.map Node.describe
  next := v.next?.map Node.describe
  before := v.place.before.map Node.describe
  after := v.place.after.map Node.describe
  pruned := edits.pruned
  listed := listed

/-- Carries an action out after what the actions before it have left. -/
def Action.run {k : Kind} (v : View) (o : Outcome (List Note) k) : Action → Outcome (List Note) k
  | prune => ⟨o.node, o.edits ++ Edits.prune, o.state⟩
  | insertBefore n => ⟨o.node, o.edits ++ Edits.insertBefore n, o.state⟩
  | insertAfter n => ⟨o.node, o.edits ++ Edits.insertAfter n, o.state⟩
  | setLabel s => ⟨o.node.mapLabel fun _ => s, o.edits, o.state⟩
  | appendLabel s => ⟨o.node.mapLabel fun label => label ++ s, o.edits, o.state⟩
  | pushChild n => ⟨o.node.mapChildren fun children => children ++ [n], o.edits, o.state⟩
  | clearChildren => ⟨o.node.mapChildren fun _ => [], o.edits, o.state⟩
  | note name listed => ⟨o.node, o.edits, o.state ++ [takeNote v o.node o.edits name listed]⟩

/-- The rule with the given conditions and actions. -/
def rule {k : Kind} (conditions : List Condition) (actions : List Action) : Rule (List Note) k := fun v n s =>
  if conditions.all fun c => c.holds v n then actions.foldl (Action.run v) ⟨n, Edits.none, s⟩
  else ⟨n, Edits.none, s⟩

end TemplatePrep.Script

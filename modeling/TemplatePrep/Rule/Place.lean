import TemplatePrep.Node.Basic

/-!
# Where a visited node stands

A rule sees the container of the visited node, the siblings on both sides, and how many nodes have been asked for in
front of it so far. It sees them as they stood when the visit began; its own requests are carried out later.
-/

namespace TemplatePrep

/-- The container whose child is visited. -/
inductive Parent where
  /-- The visited node is the root of the template. -/
  | root
  | topLevel
  | element (tag : String)
  | embeddedCode
  | property (name : String)
deriving DecidableEq, Inhabited

namespace Parent

/-- Whether the container is a static property. -/
def isProperty : Parent → Bool
  | property _ => true
  | _ => false

/-- The kind's name, followed by the tag or name where there is one. -/
def describe : Parent → String
  | root => "root"
  | topLevel => Kind.topLevel.name
  | element tag => Kind.element.name ++ ":" ++ tag
  | embeddedCode => Kind.embeddedCode.name
  | property name => Kind.property.name ++ ":" ++ name

end Parent

/-- The container as the children of a branch see it. The children of an insert stand in its code. -/
def Head.parent : Head → Parent
  | topLevel => .topLevel
  | element tag => .element tag
  | insert _ => .embeddedCode
  | embeddedCode => .embeddedCode
  | property name => .property name

theorem Head.parent_ne_root (head : Head) : head.parent ≠ .root := by
  cases head <;> simp [Head.parent]

/-- The place of a node among its siblings. -/
structure Place where
  parent : Parent
  before : List Node
  after : List Node

/-- The place of the root. -/
def Place.root : Place := ⟨.root, [], []⟩

/-- What a rule is shown: the place, and the number of nodes asked for in front of the visited node. -/
structure View where
  place : Place
  queued : Nat

namespace View

/-- The index that the visited node will have once the nodes asked for stand in front of it. -/
def index (v : View) : Nat := v.place.before.length + v.queued

/-- The container. -/
def parent (v : View) : Parent := v.place.parent

/-- The sibling right before the visited node. -/
def previous? (v : View) : Option Node := v.place.before.getLast?

/-- The sibling right after the visited node. -/
def next? (v : View) : Option Node := v.place.after.head?

end View

end TemplatePrep

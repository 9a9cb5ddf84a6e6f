import TemplatePrep.Kind
import TemplatePrep.Span

/-!
# Template trees

A template mixes host code with markup. Its tree has leaves, which hold a text, and branches, which hold an ordered
list of children behind a head that says what they are children of. A branch for an insert stands for two things at
once: the insert and the one block of code that it owns, whose segments are the children and whose span is kept in the
head. A node read from source has a span, a node made later has none.
-/

namespace TemplatePrep

/-- What the text of a leaf is. -/
inductive LeafKind where
  | codeText
  | text
  | comment
deriving DecidableEq, Inhabited

/-- The kind of node that a leaf is. -/
def LeafKind.kind : LeafKind → Kind
  | codeText => .codeText
  | text => .text
  | comment => .comment

/-- What the children of a branch belong to. -/
inductive Head where
  | topLevel
  | element (tag : String)
  /-- An insert with the span of its code. -/
  | insert (codeSpan : Option Span)
  | embeddedCode
  | property (name : String)
deriving DecidableEq, Inhabited

/-- The kind of node that a branch is. -/
def Head.kind : Head → Kind
  | topLevel => .topLevel
  | element _ => .element
  | insert _ => .insert
  | embeddedCode => .embeddedCode
  | property _ => .property

theorem Head.exists_eq_insert {head : Head} (h : head.kind = .insert) : ∃ codeSpan, head = .insert codeSpan := by
  cases head with
  | insert codeSpan => exact ⟨codeSpan, rfl⟩
  | topLevel | element | embeddedCode | property => simp [Head.kind] at h

theorem Head.exists_eq_property {head : Head} (h : head.kind = .property) : ∃ name, head = .property name := by
  cases head with
  | property name => exact ⟨name, rfl⟩
  | topLevel | element | insert | embeddedCode => simp [Head.kind] at h

/-- A node of a template tree. -/
inductive Node where
  | leaf (kind : LeafKind) (text : String) (span : Option Span)
  | branch (head : Head) (children : List Node) (span : Option Span)
deriving Inhabited

namespace Node

/-! ## Parts -/

/-- The kind of a node. -/
def kind : Node → Kind
  | leaf k _ _ => k.kind
  | branch head _ _ => head.kind

/-- Where a node was read from. -/
def span : Node → Option Span
  | leaf _ _ span => span
  | branch _ _ span => span

/-- The children in order: none of a leaf, of an insert the segments of its code. -/
def children : Node → List Node
  | leaf _ _ _ => []
  | branch _ children _ => children

/-- The text of a leaf. -/
def text? : Node → Option String
  | leaf _ text _ => some text
  | branch _ _ _ => none

/-- The text of a leaf, the tag of an element or the name of a property. -/
def label? : Node → Option String
  | leaf _ text _ => some text
  | branch (.element tag) _ _ => some tag
  | branch (.property name) _ _ => some name
  | branch _ _ _ => none

/-- The kind's name, followed by the label where there is one. -/
def describe (n : Node) : String :=
  match n.label? with
  | some label => n.kind.name ++ ":" ++ label
  | none => n.kind.name

/-! ## Changes to one node -/

/-- The node at another place in the source. -/
def withSpan (s : Option Span) : Node → Node
  | leaf k text _ => leaf k text s
  | branch head children _ => branch head children s

/-- The node with its label changed, or as it is without one. -/
def mapLabel (f : String → String) : Node → Node
  | leaf k text span => leaf k (f text) span
  | branch (.element tag) children span => branch (.element (f tag)) children span
  | branch (.property name) children span => branch (.property (f name)) children span
  | n => n

/-- The node with its children changed, or as it is for a leaf. -/
def mapChildren (f : List Node → List Node) : Node → Node
  | branch head children span => branch head (f children) span
  | n => n

@[simp]
theorem kind_mapLabel (f : String → String) (n : Node) : (n.mapLabel f).kind = n.kind := by
  cases n with
  | leaf => rfl
  | branch head => cases head <;> rfl

@[simp]
theorem kind_mapChildren (f : List Node → List Node) (n : Node) : (n.mapChildren f).kind = n.kind := by
  cases n <;> rfl

/-! ## Whole subtrees -/

/-- How many nodes a branch stands for without its children: an insert owns a block of code. -/
def ownCount : Head → Nat
  | .insert _ => 2
  | _ => 1

mutual
/-- The number of nodes of a subtree. -/
def count : Node → Nat
  | leaf _ _ _ => 1
  | branch head children _ => ownCount head + countAll children

/-- The number of nodes of several subtrees. -/
def countAll : List Node → Nat
  | [] => 0
  | n :: rest => n.count + countAll rest
end

mutual
/-- The nodes of a subtree in preorder, each with its depth below the first. -/
def preorder (depth : Nat) : Node → List (Nat × Node)
  | leaf k text span => [(depth, leaf k text span)]
  | branch head children span => (depth, branch head children span) :: preorderAll (depth + 1) children

/-- The nodes of several subtrees in preorder. -/
def preorderAll (depth : Nat) : List Node → List (Nat × Node)
  | [] => []
  | n :: rest => n.preorder depth ++ preorderAll depth rest
end

/-- A node and all that stands under it, in preorder. -/
def subtree (n : Node) : List Node := (n.preorder 0).map Prod.snd

mutual
/-- The depth from which a preorder counts does not change its nodes. -/
theorem map_snd_preorder (depth : Nat) (n : Node) : (n.preorder depth).map Prod.snd = n.subtree := by
  cases n with
  | leaf => rfl
  | branch head children span =>
    rw [subtree, preorder, preorder, List.map_cons, List.map_cons, map_snd_preorderAll (depth + 1),
      map_snd_preorderAll (0 + 1)]

theorem map_snd_preorderAll (depth : Nat) (ns : List Node) :
    (preorderAll depth ns).map Prod.snd = ns.flatMap subtree := by
  cases ns with
  | nil => rfl
  | cons n rest =>
    rw [preorderAll, List.map_append, map_snd_preorder depth n, map_snd_preorderAll depth rest, List.flatMap_cons]
end

theorem subtree_eq_cons (n : Node) : n.subtree = n :: n.children.flatMap subtree := by
  cases n with
  | leaf => rfl
  | branch head children span => rw [subtree, preorder, List.map_cons, map_snd_preorderAll, Node.children]

theorem mem_subtree (n : Node) : n ∈ n.subtree := by
  rw [subtree_eq_cons]
  exact List.mem_cons_self

theorem countAll_append (ms ns : List Node) : countAll (ms ++ ns) = countAll ms + countAll ns := by
  induction ms with
  | nil => simp [countAll]
  | cons m rest ih => simp [countAll, ih, Nat.add_assoc]

mutual
/-- Equality of nodes can be decided. -/
def decEq : (m n : Node) → Decidable (m = n)
  | leaf k text span, leaf k' text' span' =>
    if h : k = k' ∧ text = text' ∧ span = span' then isTrue (by obtain ⟨rfl, rfl, rfl⟩ := h; rfl)
    else isFalse (by intro e; injection e with e₁ e₂ e₃; exact h ⟨e₁, e₂, e₃⟩)
  | branch head children span, branch head' children' span' =>
    match decEqAll children children' with
    | isFalse h => isFalse (by intro e; injection e with _ e _; exact h e)
    | isTrue hc =>
      if h : head = head' ∧ span = span' then isTrue (by obtain ⟨rfl, rfl⟩ := h; rw [hc])
      else isFalse (by intro e; injection e with e₁ _ e₃; exact h ⟨e₁, e₃⟩)
  | leaf _ _ _, branch _ _ _ => isFalse (by intro e; cases e)
  | branch _ _ _, leaf _ _ _ => isFalse (by intro e; cases e)

/-- Equality of lists of nodes can be decided. -/
def decEqAll : (ms ns : List Node) → Decidable (ms = ns)
  | [], [] => isTrue rfl
  | m :: ms, n :: ns =>
    match decEq m n, decEqAll ms ns with
    | isTrue h, isTrue h' => isTrue (by rw [h, h'])
    | isFalse h, _ => isFalse (by intro e; injection e with e _; exact h e)
    | _, isFalse h => isFalse (by intro e; injection e with _ e; exact h e)
  | [], _ :: _ => isFalse (by intro e; cases e)
  | _ :: _, [] => isFalse (by intro e; cases e)
end

instance : DecidableEq Node := decEq

/-! ## Making nodes

Nodes made here have no span.
-/

/-- A text leaf of markup. -/
def text (s : String) : Node := leaf .text s none

/-- A leaf of host code. -/
def codeText (s : String) : Node := leaf .codeText s none

/-- A comment. -/
def comment (s : String) : Node := leaf .comment s none

/-- An element. -/
def element (tag : String) (content : List Node) : Node := branch (.element tag) content none

/-- An insert and its code, which has the given segments. -/
def insert (segments : List Node) : Node := branch (.insert none) segments none

/-- A static property. -/
def property (name : String) (content : List Node) : Node := branch (.property name) content none

/-- Top-level code as a node. -/
def topLevel (segments : List Node) : Node := branch .topLevel segments none

/-- A block of embedded code as a node. -/
def embeddedCode (segments : List Node) : Node := branch .embeddedCode segments none

end Node

/-! ## Templates -/

/-- A whole template: top-level code, whose segments are host code and markup. -/
structure Template where
  segments : List Node
  span : Option Span
deriving DecidableEq, Inhabited

namespace Template

/-- The root as a node. -/
def root (t : Template) : Node := .branch .topLevel t.segments t.span

/-- The template whose root is the given node. -/
def ofRoot (n : Node) : Template := ⟨n.children, n.span⟩

@[simp]
theorem ofRoot_root (t : Template) : ofRoot t.root = t := rfl

/-- The number of nodes, the root included. -/
def count (t : Template) : Nat := t.root.count

end Template

end TemplatePrep

import TemplatePrep.Rule.Builtin

/-!
# What built-in rules do to a template

A list of built-in rules, of any length and with any repetitions, has one of six effects, and each can be said without
rules, visits or edits. It is a rewriting of child lists. Every child list of the template is rewritten in the same way,
from the inside out: blank text is removed or marked or kept, and if the list then starts with a comment, a marker may
be put in front of it.
-/

namespace TemplatePrep

/-- What becomes of blank text. -/
inductive BlankText where
  | kept
  | removed
  | marked
deriving DecidableEq

/-- What a built-in rule says about blank text, if anything. -/
def Builtin.blankText? : Builtin → Option BlankText
  | stripWhitespaceText => some .removed
  | preserveWhitespaceText => some .marked
  | markInitialComments => none

/-- What built-in rules do together: what becomes of blank text, and whether initial comments are marked. -/
structure Effect where
  blankText : BlankText
  marksComments : Bool
deriving DecidableEq

namespace Effect

/-- The effect of built-in rules attached in order. The last of them to say something about blank text decides. -/
def ofBuiltins (bs : List Builtin) : Effect :=
  ⟨(bs.filterMap Builtin.blankText?).getLast?.getD .kept, bs.contains .markInitialComments⟩

/-- Whether a leaf is blank text, static properties excepted. -/
def isBlankText (parent : Parent) (kind : LeafKind) (text : String) : Bool :=
  kind == .text && Text.isBlank text && !parent.isProperty

/-- Whether siblings start with a comment. -/
def startsWithComment : List Node → Bool
  | .leaf .comment _ _ :: _ => true
  | _ => false

/-- The marker that rewritten siblings get in front of them, or nothing. -/
def marker (e : Effect) (siblings : List Node) : List Node :=
  if e.marksComments && startsWithComment siblings then [Node.text Text.marker] else []

/-- What becomes of a leaf. -/
def onLeaf (e : Effect) (parent : Parent) (kind : LeafKind) (text : String) (span : Option Span) : List Node :=
  if isBlankText parent kind text then
    match e.blankText with
    | .kept => [.leaf kind text span]
    | .removed => []
    | .marked => [.leaf kind (Text.marker ++ text) span]
  else [.leaf kind text span]

mutual
/-- What becomes of a child of a container. -/
def onChild (e : Effect) (parent : Parent) : Node → List Node
  | .leaf kind text span => e.onLeaf parent kind text span
  | .branch head children span =>
    let siblings := onChildren e head.parent children
    [.branch head (e.marker siblings ++ siblings) span]

/-- What becomes of the children of a container, short of the marker in front of them. -/
def onChildren (e : Effect) (parent : Parent) : List Node → List Node
  | [] => []
  | n :: rest => onChild e parent n ++ onChildren e parent rest
end

mutual
/-- The number of texts removed from a child of a container. -/
def removals (e : Effect) (parent : Parent) : Node → Nat
  | .leaf kind text _ => if isBlankText parent kind text && e.blankText == .removed then 1 else 0
  | .branch head children _ => removalsAll e head.parent children

/-- The number of texts removed from the children of a container. -/
def removalsAll (e : Effect) (parent : Parent) : List Node → Nat
  | [] => 0
  | n :: rest => removals e parent n + removalsAll e parent rest
end

mutual
/-- The number of markers put in front of siblings inside a node. -/
def markers (e : Effect) : Node → Nat
  | .leaf _ _ _ => 0
  | .branch head children _ => (e.marker (e.onChildren head.parent children)).length + markersAll e children

/-- The number of markers put in front of siblings inside several nodes. -/
def markersAll (e : Effect) : List Node → Nat
  | [] => 0
  | n :: rest => markers e n + markersAll e rest
end

/-- The rewritten template. -/
def onTemplate (e : Effect) (t : Template) : Template :=
  let siblings := e.onChildren .topLevel t.segments
  ⟨e.marker siblings ++ siblings, t.span⟩

end Effect

end TemplatePrep

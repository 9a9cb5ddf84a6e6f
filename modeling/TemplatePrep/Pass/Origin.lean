import TemplatePrep.Pass.Progress

/-!
# Where nodes come from

Nodes are values, and a pass can meet the same value in many places and at many times. What tells nodes apart is where
they came from: a node was among the children of a container when its walk started, or it was asked for on the visit of
another node, or it is the code of an insert. Following this back to the root gives every node an origin of its own.
-/

namespace TemplatePrep

/-- One step on the way from the root to a node. -/
inductive Step where
  /-- The node had the given index among the children of a container when their walk started. -/
  | child (i : Nat)
  /-- The node is the code of an insert. -/
  | code
  /-- The node had the given index among the nodes asked for in front of a child. -/
  | before (j : Nat)
  /-- The node had the given index among the nodes asked for behind a child. -/
  | after (j : Nat)
deriving DecidableEq

namespace Step

/-- Whether a step leads to a part of a node, and not to a neighbour that was asked for. -/
def isInner : Step → Bool
  | child _ | code => true
  | before _ | after _ => false

/-- Whether a step leads to a node asked for in front of another. -/
def isBefore : Step → Bool
  | before _ => true
  | _ => false

end Step

/-- The steps from the root to a node, which is the root itself if there are none. -/
abbrev Origin := List Step

namespace Origin

/-- Whether the node was asked for in front of another. -/
def isBefore (o : Origin) : Bool := o.getLast?.any Step.isBefore

/-- Whether the node is the code of an insert. -/
def isCode (o : Origin) : Bool := o.getLast? == some .code

/-- `o.Holds x`: the second origin is the first or that of something inside. -/
def Holds (o x : Origin) : Prop := x = o ∨ ∃ s rest, s.isInner = true ∧ x = o ++ s :: rest

theorem Holds.isPrefix {o x : Origin} (h : o.Holds x) : o <+: x := by
  obtain rfl | ⟨s, rest, -, rfl⟩ := h
  · exact List.prefix_refl x
  · exact List.prefix_append o (s :: rest)

theorem isBefore_concat (o : Origin) (s : Step) : Origin.isBefore (o ++ [s]) = s.isBefore := by
  rw [isBefore, List.getLast?_concat, Option.any_some]

theorem exists_eq_of_isBefore {o : Origin} (h : o.isBefore = true) : ∃ x j, o = x ++ [.before j] := by
  rcases List.eq_nil_or_concat o with rfl | ⟨x, s, rfl⟩
  · simp [isBefore] at h
  · rw [List.concat_eq_append] at h ⊢
    rw [isBefore_concat] at h
    cases s with
    | before j => exact ⟨x, j, rfl⟩
    | child | code | after => simp [Step.isBefore] at h

theorem isCode_concat (o : Origin) (s : Step) : Origin.isCode (o ++ [s]) = (s == .code) := by
  rw [isCode, List.getLast?_concat]
  cases s <;> rfl

end Origin

/-- A node that has come into being, with its origin. -/
structure Arrival where
  origin : Origin
  node : Node
deriving DecidableEq

/-- Nodes that come into being together. -/
def arrivals (o : Origin) (step : Nat → Step) (ns : List Node) : List Arrival :=
  ns.mapIdx fun i n => ⟨o ++ [step i], n⟩

/-- A node of a tree that a pass is working on. -/
inductive Tracked where
  /-- A node as it came into being or as its rules have left it; no walk has gone over its children. -/
  | fresh (arrival : Arrival)
  /-- A branch whose children have been walked. -/
  | walked (origin : Origin) (head : Head) (children : List Tracked) (span : Option Span)

namespace Tracked

/-- The origin of a tracked node. -/
def origin : Tracked → Origin
  | fresh a => a.origin
  | walked o _ _ _ => o

/-- The children that a walk has left, none without a walk. -/
def children : Tracked → List Tracked
  | fresh _ => []
  | walked _ _ children _ => children

mutual
/-- The node without its tracks. -/
def erase : Tracked → Node
  | fresh a => a.node
  | walked _ head children span => .branch head (eraseAll children) span

/-- The nodes without their tracks. -/
def eraseAll : List Tracked → List Node
  | [] => []
  | m :: rest => m.erase :: eraseAll rest
end

/-- `m.Holds x`: the second node is the first or stands somewhere under it. -/
inductive Holds : Tracked → Tracked → Prop where
  | self {m} : Holds m m
  | child {o head children span m x} (hm : m ∈ children) (hx : Holds m x) : Holds (walked o head children span) x

/-- An insert with its code as a visit left it. -/
def withCode (o : Origin) (span : Option Span) : Tracked → Tracked
  | fresh a => fresh ⟨o, TemplatePrep.withCode span a.node⟩
  | walked _ _ children codeSpan => walked o (.insert codeSpan) children span

/-- The place of a node among tracked siblings. -/
structure Place where
  parent : Parent
  before : List Tracked
  after : List Tracked

/-- The place as rules see it. -/
def Place.erase (place : Tracked.Place) : TemplatePrep.Place :=
  ⟨place.parent, eraseAll place.before, eraseAll place.after⟩

/-- The place of the root. -/
def Place.root : Tracked.Place := ⟨.root, [], []⟩

theorem Holds.of_mem_children {m c x : Tracked} (hc : c ∈ m.children) (hx : Holds c x) : Holds m x := by
  cases m with
  | fresh => simp [children] at hc
  | walked => exact Holds.child hc hx

theorem holds_iff {m x : Tracked} : m.Holds x ↔ x = m ∨ ∃ c ∈ m.children, c.Holds x := by
  constructor
  · intro h
    cases h with
    | self => exact .inl rfl
    | child hm hx => exact .inr ⟨_, hm, hx⟩
  · rintro (rfl | ⟨c, hc, hx⟩)
    · exact Holds.self
    · exact Holds.of_mem_children hc hx

theorem origin_withCode (o : Origin) (span : Option Span) (m : Tracked) : (m.withCode o span).origin = o := by
  cases m <;> rfl

theorem children_withCode (o : Origin) (span : Option Span) (m : Tracked) :
    (m.withCode o span).children = m.children := by
  cases m <;> rfl

theorem eraseAll_eq_map (ms : List Tracked) : eraseAll ms = ms.map erase := by
  induction ms with
  | nil => rfl
  | cons m rest ih => rw [eraseAll, ih, List.map_cons]

theorem eraseAll_append (ms xs : List Tracked) : eraseAll (ms ++ xs) = eraseAll ms ++ eraseAll xs := by
  rw [eraseAll_eq_map, eraseAll_eq_map, eraseAll_eq_map, List.map_append]

theorem eraseAll_map_fresh (as : List Arrival) : eraseAll (as.map fresh) = as.map Arrival.node := by
  rw [eraseAll_eq_map, List.map_map]
  rfl

end Tracked

theorem length_arrivals (o : Origin) (step : Nat → Step) (ns : List Node) :
    (arrivals o step ns).length = ns.length := by
  rw [arrivals, List.length_mapIdx]

theorem map_node_arrivals (o : Origin) (step : Nat → Step) (ns : List Node) :
    (arrivals o step ns).map Arrival.node = ns := by
  apply List.ext_getElem
  · rw [List.length_map, length_arrivals]
  · intro i _ _
    simp only [arrivals, List.getElem_map, List.getElem_mapIdx]

theorem mem_arrivals {o : Origin} {step : Nat → Step} {ns : List Node} {a : Arrival} :
    a ∈ arrivals o step ns ↔ ∃ i, ∃ h : i < ns.length, a = ⟨o ++ [step i], ns[i]⟩ := by
  rw [arrivals, List.mem_mapIdx]
  constructor
  · rintro ⟨i, h, rfl⟩
    exact ⟨i, h, rfl⟩
  · rintro ⟨i, h, rfl⟩
    exact ⟨i, h, rfl⟩

theorem exists_origin_eq_of_mem_arrivals {o : Origin} {step : Nat → Step} {ns : List Node} {a : Arrival}
    (h : a ∈ arrivals o step ns) : ∃ i, a.origin = o ++ [step i] := by
  obtain ⟨i, _, rfl⟩ := mem_arrivals.mp h
  exact ⟨i, rfl⟩

/-- What holds of all origins one step from a node holds of whatever has come from it by such steps. -/
theorem forall_mem_arrivals (P : Origin → Prop) {o : Origin} {step : Nat → Step} (h : ∀ i, P (o ++ [step i]))
    (ns : List Node) : ∀ a ∈ arrivals o step ns, P a.origin := by
  intro a ha
  obtain ⟨i, hi⟩ := exists_origin_eq_of_mem_arrivals ha
  rw [hi]
  exact h i

end TemplatePrep

import TemplatePrep.Rule.Place

/-!
# Rules and rule sets

A rule belongs to one kind. Called on a node of that kind it may change the node itself, though not its kind, and ask
for edits around it: that the node be removed, and that others be put before or after it. It can add to the requests
of the rules called before it on the same visit but neither see nor withdraw them. Rules may also keep a state of
their own, of any type, which is handed from call to call.

A rule set holds a chain of rules for each kind. Attaching puts a rule at the front of its chain, where it is called
first. The first rule that removes the node ends the chain.
-/

namespace TemplatePrep

/-! ## Edits -/

/-- The edits asked for on one visit. `before` and `after` hold nodes in the order in which they were asked for. -/
structure Edits where
  pruned : Bool
  before : List Node
  after : List Node
deriving DecidableEq

namespace Edits

/-- No edits. -/
def none : Edits := ⟨false, [], []⟩

/-- The request to remove the visited node. -/
def prune : Edits := ⟨true, [], []⟩

/-- The request to put a node before the visited one. -/
def insertBefore (n : Node) : Edits := ⟨false, [n], []⟩

/-- The request to put a node after the visited one. -/
def insertAfter (n : Node) : Edits := ⟨false, [], [n]⟩

/-- Earlier edits followed by later ones. -/
instance : Append Edits where
  append e f := ⟨e.pruned || f.pruned, e.before ++ f.before, e.after ++ f.after⟩

@[simp]
theorem pruned_append (e f : Edits) : (e ++ f).pruned = (e.pruned || f.pruned) := rfl

@[simp]
theorem before_append (e f : Edits) : (e ++ f).before = e.before ++ f.before := rfl

@[simp]
theorem after_append (e f : Edits) : (e ++ f).after = e.after ++ f.after := rfl

@[simp]
theorem append_none (e : Edits) : e ++ Edits.none = e := by
  cases e
  show Edits.mk _ _ _ = _
  simp [none]

theorem append_assoc (e f g : Edits) : e ++ f ++ g = e ++ (f ++ g) := by
  show Edits.mk _ _ _ = Edits.mk _ _ _
  simp [Bool.or_assoc]

end Edits

/-! ## Rules -/

/-- A node of the given kind. -/
abbrev NodeOf (k : Kind) := { n : Node // n.kind = k }

namespace NodeOf

/-- A node as one of its own kind. -/
def self (n : Node) : NodeOf n.kind := ⟨n, rfl⟩

/-- The node with its label changed. -/
def mapLabel {k : Kind} (f : String → String) (n : NodeOf k) : NodeOf k :=
  ⟨n.val.mapLabel f, by rw [Node.kind_mapLabel, n.property]⟩

/-- The node with its children changed. -/
def mapChildren {k : Kind} (f : List Node → List Node) (n : NodeOf k) : NodeOf k :=
  ⟨n.val.mapChildren f, by rw [Node.kind_mapChildren, n.property]⟩

end NodeOf

/-- What a call of a rule leaves: the node, the edits asked for in this call, and the state. -/
structure Outcome (σ : Type) (k : Kind) where
  node : NodeOf k
  edits : Edits
  state : σ

/-- A call leaves a node of the same kind. -/
theorem Outcome.kind_eq {σ : Type} {k : Kind} {o : Outcome σ k} {n : Node} (h : o.node.val = n) : n.kind = k := by
  rw [← h, o.node.property]

/-- A rule for nodes of one kind. -/
abbrev Rule (σ : Type) (k : Kind) := View → NodeOf k → σ → Outcome σ k

variable {σ : Type}

/-- Calls the rules of a chain in order, each on the node that the one before it left and with its requests added to
the ones before, up to the first that removes the node. -/
def runChain {k : Kind} (place : Place) : List (Rule σ k) → NodeOf k → Edits → σ → Outcome σ k
  | [], n, edits, s => ⟨n, edits, s⟩
  | rule :: rest, n, edits, s =>
    let o := rule ⟨place, edits.before.length⟩ n s
    let edits := edits ++ o.edits
    if edits.pruned then ⟨o.node, edits, o.state⟩ else runChain place rest o.node edits o.state

/-- A chain only adds to the edits asked for before. -/
theorem exists_edits_runChain {k : Kind} (place : Place) (chain : List (Rule σ k)) (n : NodeOf k) (edits : Edits)
    (s : σ) : ∃ more, (runChain place chain n edits s).edits = edits ++ more := by
  induction chain generalizing n edits s with
  | nil => exact ⟨Edits.none, (Edits.append_none edits).symm⟩
  | cons rule rest ih =>
    rw [runChain]
    split
    · exact ⟨_, rfl⟩
    · obtain ⟨more, h⟩ := ih _ _ _
      exact ⟨_, h.trans (Edits.append_assoc _ _ _)⟩

/-! ## Rule sets -/

/-- A chain of rules for each kind, the rule attached last standing first. -/
structure RuleSet (σ : Type) where
  chain : (k : Kind) → List (Rule σ k)

namespace RuleSet

/-- The rule set without rules. -/
def empty : RuleSet σ := ⟨fun _ => []⟩

/-- Attaches a rule to a kind. -/
def attach (rules : RuleSet σ) (k : Kind) (rule : Rule σ k) : RuleSet σ :=
  ⟨fun j => if h : k = j then h ▸ (rule :: rules.chain k) else rules.chain j⟩

/-- Calls the chain of a node's own kind on it. -/
def call (rules : RuleSet σ) (place : Place) (edits : Edits) (n : Node) (s : σ) : Outcome σ n.kind :=
  runChain place (rules.chain n.kind) ⟨n, rfl⟩ edits s

/-- The number of rules attached to a kind. -/
def size (rules : RuleSet σ) (k : Kind) : Nat := (rules.chain k).length

/-- Whether any rule is attached. -/
def isActive (rules : RuleSet σ) : Bool := Kind.all.any fun k => 0 < rules.size k

/-- The kinds that have rules, with the number of their rules. -/
def sizes (rules : RuleSet σ) : List (Kind × Nat) :=
  (Kind.all.map fun k => (k, rules.size k)).filter fun entry => 0 < entry.2

/-- The sizes as text. -/
def describe (rules : RuleSet σ) : String :=
  "\x7b" ++ ", ".intercalate (rules.sizes.map fun (k, n) => "\"" ++ k.name ++ "\": " ++ toString n) ++ "\x7d"

@[simp]
theorem chain_empty (k : Kind) : (empty : RuleSet σ).chain k = [] := rfl

/-- What the rules of a node's kind ask for comes after what was asked for before. -/
theorem exists_edits_call (rules : RuleSet σ) (place : Place) (edits : Edits) (n : Node) (s : σ) :
    ∃ more, (rules.call place edits n s).edits = edits ++ more :=
  exists_edits_runChain place _ _ edits s

/-- Without rules for its kind a node is left alone. -/
theorem call_of_chain_eq_nil {rules : RuleSet σ} {place : Place} {edits : Edits} {n : Node} {s : σ}
    (h : rules.chain n.kind = []) : rules.call place edits n s = ⟨⟨n, rfl⟩, edits, s⟩ := by
  rw [call, h, runChain]

@[simp]
theorem chain_attach_self (rules : RuleSet σ) (k : Kind) (rule : Rule σ k) :
    (rules.attach k rule).chain k = rule :: rules.chain k := by
  simp [attach]

theorem chain_attach_of_ne (rules : RuleSet σ) {j k : Kind} (rule : Rule σ k) (h : k ≠ j) :
    (rules.attach k rule).chain j = rules.chain j := by
  simp [attach, h]

end RuleSet

end TemplatePrep

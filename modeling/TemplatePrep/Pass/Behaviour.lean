import TemplatePrep.Pass.Progress
import TemplatePrep.Rule.Attachment

/-!
# Behaviours

What a pass does with a node on a visit is up to the kind of the node; it is the behaviour of that kind. How siblings are
walked and how edits are carried out is the same whatever the behaviours are.

A behaviour that goes on below its node meets the behaviours of other kinds there. It does not hold them; how to go on
is handed to it with each call. So it can be put together before the others are.

A rule set gives to each kind the behaviour of going through its chain and then walking the node. Rules can also be
attached without keeping a list of them. Then every node is walked at first, and attaching a rule puts it around the
behaviour of its kind: the rule is called, and what was done before is done unless the node is removed by then. The
behaviours of the other kinds stay as they are.
-/

namespace TemplatePrep

variable {σ : Type}

/-- How a visit goes on below its node. -/
structure Below (σ : Type) where
  /-- Visits a node at a place, with what has been asked for so far. -/
  visit : Place → Edits → Node → Progress σ → Option (Visited σ)
  /-- Walks the children of a container. -/
  sweep : Parent → List Node → Progress σ → Option (Swept σ)

/-- What is done with a node of a kind on a visit. -/
abbrev Behaviour (σ : Type) (k : Kind) := Below σ → Place → Edits → NodeOf k → Progress σ → Option (Visited σ)

namespace Behaviour

/-- The walk of a node. The code of an insert is visited where the insert stands, and what it asks for joins the requests
of the insert. -/
def walk (k : Kind) : Behaviour σ k := fun below place edits n p =>
  match n.val with
  | .leaf _ _ _ => some ⟨n, edits, p⟩
  | .branch (.insert codeSpan) segments span => do
    let v ← below.visit place edits (.branch .embeddedCode segments codeSpan) p
    some ⟨withCode span v.node, v.edits, v.progress⟩
  | .branch head children span => do
    let w ← below.sweep head.parent children p
    some ⟨.branch head w.nodes span, edits, w.progress⟩

/-- A rule around a behaviour: the rule is called, and then the node is left to the behaviour unless it is removed. -/
def wrap {k : Kind} (rule : Rule σ k) (inner : Behaviour σ k) : Behaviour σ k := fun below place edits n p =>
  let o := rule ⟨place, edits.before.length⟩ n p.state
  let edits := edits ++ o.edits
  let p := p.withState o.state
  if edits.pruned then some ⟨o.node, edits, p⟩ else inner below place edits o.node p

end Behaviour

/-- A behaviour for each kind. -/
structure Behaviours (σ : Type) where
  on : (k : Kind) → Behaviour σ k

/-- The behaviours that a rule set gives: the chain of a kind is gone through, and then the node is walked unless it is
removed. -/
def RuleSet.behaviours (rules : RuleSet σ) : Behaviours σ :=
  ⟨fun k below place edits n p =>
    let o := runChain place (rules.chain k) n edits p.state
    let p := p.withState o.state
    if o.edits.pruned then some ⟨o.node, o.edits, p⟩ else Behaviour.walk k below place o.edits o.node p⟩

instance : Coe (RuleSet σ) (Behaviours σ) := ⟨RuleSet.behaviours⟩

namespace Behaviours

/-- Without rules every node is walked. -/
def builtin : Behaviours σ := ⟨Behaviour.walk⟩

/-- Puts a rule around the behaviour of a kind. -/
def attach (bs : Behaviours σ) (k : Kind) (rule : Rule σ k) : Behaviours σ :=
  ⟨fun j => if h : k = j then h ▸ (bs.on k).wrap rule else bs.on j⟩

/-- The behaviours that some attachments leave, made in order. -/
def ofAttachments (as : List (Attachment σ)) : Behaviours σ :=
  as.foldl (fun bs a => bs.attach a.kind a.rule) builtin

@[simp]
theorem on_builtin (k : Kind) : (builtin : Behaviours σ).on k = Behaviour.walk k := rfl

@[simp]
theorem on_attach_self (bs : Behaviours σ) (k : Kind) (rule : Rule σ k) :
    (bs.attach k rule).on k = (bs.on k).wrap rule := by
  simp [attach]

theorem on_attach_of_ne (bs : Behaviours σ) {j k : Kind} (rule : Rule σ k) (h : k ≠ j) :
    (bs.attach k rule).on j = bs.on j := by
  simp [attach, h]

end Behaviours

end TemplatePrep

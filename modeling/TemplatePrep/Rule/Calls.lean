import TemplatePrep.Rule.Basic

/-!
# The calls of a chain

What a rule is shown and given depends on the rules called before it on the same visit: it gets the node that they have
left and sees how many nodes they have asked for. The list of the calls that a chain makes keeps this apart, call by
call.
-/

namespace TemplatePrep

/-- A call of a rule on a visit: what the rule is shown and given, and what it leaves and asks for. -/
structure RuleCall where
  view : View
  node : Node
  left : Node
  edits : Edits

/-- What the rule is shown within a call, once it has asked for some nodes in front of the visited one. -/
def RuleCall.viewAfter (c : RuleCall) (asked : Nat) : View := ⟨c.view.place, c.view.queued + asked⟩

/-- The visited node as some calls have left it. -/
def nodeAfter (n : Node) (calls : List RuleCall) : Node := calls.foldl (fun _ c => c.left) n

/-- What has been asked for after some calls. -/
def askedAfter (edits : Edits) (calls : List RuleCall) : Edits := calls.foldl (fun e c => e ++ c.edits) edits

variable {σ : Type}

/-- The calls that a chain makes. -/
def chainCalls {k : Kind} (place : Place) : List (Rule σ k) → NodeOf k → Edits → σ → List RuleCall
  | [], _, _, _ => []
  | rule :: rest, n, edits, s =>
    let o := rule ⟨place, edits.before.length⟩ n s
    let asked := edits ++ o.edits
    ⟨⟨place, edits.before.length⟩, n, o.node, o.edits⟩ ::
      if asked.pruned then [] else chainCalls place rest o.node asked o.state

/-- The calls of the chain of a node's own kind. -/
def RuleSet.calls (rules : RuleSet σ) (place : Place) (edits : Edits) (n : Node) (s : σ) : List RuleCall :=
  chainCalls place (rules.chain n.kind) (NodeOf.self n) edits s

/-- A rule that keeps a log of its calls in the state. -/
def Rule.logged {k : Kind} (rule : Rule σ k) : Rule (σ × List RuleCall) k := fun v n s =>
  let o := rule v n s.1
  ⟨o.node, o.edits, (o.state, s.2 ++ [⟨v, n, o.node, o.edits⟩])⟩

/-- The same rules with a log of their calls. -/
def RuleSet.logged (rules : RuleSet σ) : RuleSet (σ × List RuleCall) := ⟨fun k => (rules.chain k).map Rule.logged⟩

/-- A rule is shown the place of the visit and what the calls before it have asked for, and given the node that they
have left. -/
theorem chainCalls_split {k : Kind} {place : Place} {chain : List (Rule σ k)} {n : NodeOf k} {edits : Edits} {s : σ}
    {earlier later : List RuleCall} {c : RuleCall} (h : chainCalls place chain n edits s = earlier ++ c :: later) :
    c.view = ⟨place, (askedAfter edits earlier).before.length⟩ ∧ c.node = nodeAfter n earlier := by
  induction chain generalizing n edits s earlier with
  | nil => simp [chainCalls] at h
  | cons rule rest ih =>
    rw [chainCalls] at h
    cases earlier with
    | nil =>
      obtain ⟨rfl, -⟩ := List.cons.inj h
      exact ⟨rfl, rfl⟩
    | cons d earlier =>
      obtain ⟨rfl, hrest⟩ := List.cons.inj h
      split at hrest
      · simp at hrest
      · have hshown := ih hrest
        exact hshown

/-- What a chain asks for is what its calls ask for. -/
theorem edits_runChain {k : Kind} (place : Place) (chain : List (Rule σ k)) (n : NodeOf k) (edits : Edits) (s : σ) :
    (runChain place chain n edits s).edits = askedAfter edits (chainCalls place chain n edits s) := by
  induction chain generalizing n edits s with
  | nil => rfl
  | cons rule rest ih =>
    rw [runChain, chainCalls]
    split
    · rfl
    · exact ih _ _ _

/-- What the rules of a node's kind ask for is what their calls ask for. -/
theorem RuleSet.edits_call (rules : RuleSet σ) (place : Place) (edits : Edits) (n : Node) (s : σ) :
    (rules.call place edits n s).edits = askedAfter edits (rules.calls place edits n s) :=
  edits_runChain place _ _ edits s

/-- With a log, a chain leaves and asks for the same and logs its calls. -/
theorem runChain_logged {k : Kind} (place : Place) (chain : List (Rule σ k)) (n : NodeOf k) (edits : Edits) (s : σ)
    (log : List RuleCall) :
    runChain place (chain.map Rule.logged) n edits (s, log) =
      ⟨(runChain place chain n edits s).node, (runChain place chain n edits s).edits,
        ((runChain place chain n edits s).state, log ++ chainCalls place chain n edits s)⟩ := by
  induction chain generalizing n edits s log with
  | nil => simp only [List.map_nil, runChain, chainCalls, List.append_nil]
  | cons rule rest ih =>
    rw [List.map_cons, runChain, runChain, chainCalls, Rule.logged]
    dsimp only
    split
    · rfl
    · rw [ih, List.append_assoc, List.singleton_append]

/-- With a log, the chain of a node's own kind leaves and asks for the same and logs its calls. -/
theorem RuleSet.call_logged (rules : RuleSet σ) (place : Place) (edits : Edits) (n : Node) (s : σ)
    (log : List RuleCall) :
    rules.logged.call place edits n (s, log) =
      ⟨(rules.call place edits n s).node, (rules.call place edits n s).edits,
        ((rules.call place edits n s).state, log ++ rules.calls place edits n s)⟩ :=
  runChain_logged place _ _ edits s log

end TemplatePrep

import TemplatePrep.Preprocessor
import TemplatePrep.Proofs.Pass.Completion
import TemplatePrep.Proofs.Pass.Erasure
import TemplatePrep.Proofs.Pass.TraceInduction
import TemplatePrep.Rule.Script

/-!
# Rules that only observe

A rule observes if it leaves its node as it was and asks for nothing; it may still take notes in its state. A pass of
such rules ends for every template and leaves it as it was. It counts every node once and visits the nodes in preorder,
the code of an insert right after the insert. So a pass without rules can be skipped, and no one can tell.

That the pass ends and what it leaves is proved along the tree. In which order it visits the nodes is read off its trace.
-/

namespace TemplatePrep

/-! ## The order of nodes -/

namespace Node

/-- A node and, for an insert, the block of code that it owns. -/
def parts : Node → List Node
  | branch (.insert codeSpan) segments span =>
    [branch (.insert codeSpan) segments span, branch .embeddedCode segments codeSpan]
  | n => [n]

mutual
/-- The nodes of a subtree with their origins, as a walk comes to them that changes nothing. -/
def tour (o : Origin) : Node → List Arrival
  | leaf k text span => [⟨o, leaf k text span⟩]
  | branch (.insert codeSpan) segments span =>
    ⟨o, branch (.insert codeSpan) segments span⟩ :: ⟨o ++ [.code], branch .embeddedCode segments codeSpan⟩ ::
      tourAll (o ++ [.code]) 0 segments
  | branch head children span => ⟨o, branch head children span⟩ :: tourAll o 0 children

/-- The nodes of several subtrees, the first of which is the child with the given index. -/
def tourAll (o : Origin) (i : Nat) : List Node → List Arrival
  | [] => []
  | n :: rest => n.tour (o ++ [.child i]) ++ tourAll o (i + 1) rest
end

theorem tour_branch {head : Head} (h : head.kind ≠ .insert) (o : Origin) (children : List Node) (span : Option Span) :
    (branch head children span).tour o = ⟨o, branch head children span⟩ :: tourAll o 0 children := by
  cases head with
  | insert => exact absurd rfl h
  | topLevel | element | embeddedCode | property => rw [tour]; simp

theorem parts_branch {head : Head} (h : head.kind ≠ .insert) (children : List Node) (span : Option Span) :
    (branch head children span).parts = [branch head children span] := by
  cases head with
  | insert => exact absurd rfl h
  | topLevel | element | embeddedCode | property => rfl

mutual
/-- A tour goes through the nodes in preorder, each insert followed by its code. -/
theorem map_node_tour (o : Origin) : (n : Node) → (n.tour o).map Arrival.node = n.subtree.flatMap parts
  | leaf k text span => by
    rw [tour, subtree_eq_cons]
    rfl
  | branch head children span => by
    rw [subtree_eq_cons, List.flatMap_cons, Node.children]
    by_cases h : head.kind = .insert
    · obtain ⟨codeSpan, rfl⟩ := Head.exists_eq_insert h
      rw [tour, List.map_cons, List.map_cons, map_node_tourAll (o ++ [Step.code]) 0 children]
      rfl
    · rw [tour_branch h, List.map_cons, map_node_tourAll o 0 children, parts_branch h]
      rfl

theorem map_node_tourAll (o : Origin) (i : Nat) :
    (ns : List Node) → (tourAll o i ns).map Arrival.node = (ns.flatMap subtree).flatMap parts
  | [] => rfl
  | n :: rest => by
    rw [tourAll, List.map_append, map_node_tour _ n, map_node_tourAll o (i + 1) rest, List.flatMap_cons,
      List.flatMap_append]
end

end Node

/-- The children of a branch, each with its origin, are toured one after another. -/
theorem flatMap_tour_arrivals (o : Origin) (ns : List Node) :
    (arrivals o .child ns).flatMap (fun a => a.node.tour a.origin) = Node.tourAll o 0 ns := by
  have hfrom : ∀ i, (ns.mapIdx fun j n => Arrival.mk (o ++ [.child (i + j)]) n).flatMap
      (fun a => a.node.tour a.origin) = Node.tourAll o i ns := by
    induction ns with
    | nil =>
      intro i
      rw [Node.tourAll]
      rfl
    | cons n rest ih =>
      intro i
      have hnext : (fun j n => Arrival.mk (o ++ [.child (i + (j + 1))]) n) =
          fun j n => Arrival.mk (o ++ [.child (i + 1 + j)]) n := by
        funext j n
        rw [Nat.add_assoc i 1 j, Nat.add_comm 1 j]
      rw [List.mapIdx_cons, List.flatMap_cons, hnext, ih (i + 1), Node.tourAll]
      rfl
  rw [arrivals, ← hfrom 0]
  simp only [Nat.zero_add]

/-! ## Observing rules -/

variable {σ : Type}

/-- Every rule leaves its node as it was and asks for nothing. -/
def RuleSet.Observes (rules : RuleSet σ) : Prop :=
  ∀ k, ∀ rule ∈ rules.chain k, ∀ v n s, (rule v n s).node = n ∧ (rule v n s).edits = Edits.none

theorem RuleSet.observes_empty : (RuleSet.empty : RuleSet σ).Observes :=
  fun _ _ hrule => absurd hrule List.not_mem_nil

theorem RuleSet.Observes.attach {rules : RuleSet σ} (h : rules.Observes) {k : Kind} {rule : Rule σ k}
    (hrule : ∀ v n s, (rule v n s).node = n ∧ (rule v n s).edits = Edits.none) : (rules.attach k rule).Observes := by
  intro j r hr
  by_cases hj : k = j
  · subst hj
    rw [chain_attach_self, List.mem_cons] at hr
    obtain rfl | hr := hr
    · exact hrule
    · exact h k r hr
  · rw [chain_attach_of_ne rules rule hj] at hr
    exact h j r hr

/-- A chain of observing rules does nothing but change the state. -/
theorem exists_runChain_eq_of_observes {k : Kind} (place : Place) {chain : List (Rule σ k)}
    (h : ∀ rule ∈ chain, ∀ v n s, (rule v n s).node = n ∧ (rule v n s).edits = Edits.none) (n : NodeOf k)
    (edits : Edits) (s : σ) : ∃ s', runChain place chain n edits s = ⟨n, edits, s'⟩ := by
  induction chain generalizing s with
  | nil => exact ⟨s, rfl⟩
  | cons rule rest ih =>
    obtain ⟨hnode, hedits⟩ := h rule List.mem_cons_self ⟨place, edits.before.length⟩ n s
    rw [runChain]
    simp only [hnode, hedits, Edits.append_none]
    split
    · exact ⟨_, rfl⟩
    · exact ih (fun r hr => h r (List.mem_cons_of_mem rule hr)) _

theorem RuleSet.Observes.call {rules : RuleSet σ} (h : rules.Observes) (place : Place) (edits : Edits) (n : Node)
    (s : σ) : ∃ s', rules.call place edits n s = ⟨⟨n, rfl⟩, edits, s'⟩ :=
  exists_runChain_eq_of_observes place (h n.kind) _ edits s

/-- Visits counted one after another. -/
theorem Stats.add_visits (c : Stats) (m n : Nat) : c + ⟨m, 0, 0⟩ + ⟨n, 0, 0⟩ = c + ⟨m + n, 0, 0⟩ := by
  rw [Stats.add_assoc]
  rfl

namespace Blocks

variable {rules : RuleSet σ}

/-- The visit of a branch that is no insert, from what the walk of its children ends with. -/
theorem exists_visits_branch_of_observes (h : rules.Observes) (head : Head) (hhead : head.kind ≠ .insert)
    {children : List Node}
    (hwalk : ∀ p : Progress σ, ∃ q, Sweeps rules head.parent [] children p ⟨children, q⟩ ∧
      q.stats = p.stats + ⟨Node.countAll children, 0, 0⟩)
    (place : Place) {edits : Edits} (hp : edits.pruned = false) (span : Option Span) (p : Progress σ) :
    ∃ q, Visits rules place edits (.branch head children span) p ⟨.branch head children span, edits, q⟩ ∧
      q.stats = p.stats + ⟨1 + Node.countAll children, 0, 0⟩ := by
  obtain ⟨s, hcall⟩ := h.call place edits (.branch head children span) p.state
  obtain ⟨q, hw, hstats⟩ := hwalk (p.visit.withState s)
  have hv : Visits rules place edits (.branch head children span) p
      ⟨.branch head children span, (rules.call place edits (.branch head children span) p.state).edits, q⟩ :=
    Visits.branch (by rw [hcall]; exact hp) (by rw [hcall]) hhead (by rw [hcall]; exact hw)
  rw [hcall] at hv
  exact ⟨q, hv, hstats.trans (p.stats.add_visits 1 (Node.countAll children))⟩

/-- The visit of an insert, from what the visit of its code ends with. -/
theorem exists_visits_insert_of_observes (h : rules.Observes) {codeSpan : Option Span} {segments : List Node}
    (place : Place) {edits : Edits} (hp : edits.pruned = false)
    (hcode : ∀ p : Progress σ, ∃ q, Visits rules place edits (.branch .embeddedCode segments codeSpan) p
      ⟨.branch .embeddedCode segments codeSpan, edits, q⟩ ∧ q.stats = p.stats + ⟨1 + Node.countAll segments, 0, 0⟩)
    (span : Option Span) (p : Progress σ) :
    ∃ q, Visits rules place edits (.branch (.insert codeSpan) segments span) p
      ⟨.branch (.insert codeSpan) segments span, edits, q⟩ ∧
      q.stats = p.stats + ⟨2 + Node.countAll segments, 0, 0⟩ := by
  obtain ⟨s, hcall⟩ := h.call place edits (.branch (.insert codeSpan) segments span) p.state
  obtain ⟨q, hv, hstats⟩ := hcode (p.visit.withState s)
  refine ⟨q, Visits.insert (by rw [hcall]; exact hp) (by rw [hcall]) (by rw [hcall]; exact hv), ?_⟩
  rw [hstats, Nat.add_assoc 1 1]
  exact p.stats.add_visits 1 (1 + Node.countAll segments)

mutual
/-- The visit of a node ends with the node and the requests that were made before, every node under it counted once. -/
theorem exists_visits_of_observes (h : rules.Observes) : (n : Node) → ∀ (place : Place) {edits : Edits},
    edits.pruned = false → ∀ p : Progress σ,
      ∃ q, Visits rules place edits n p ⟨n, edits, q⟩ ∧ q.stats = p.stats + ⟨n.count, 0, 0⟩
  | .leaf k text span, place, edits, _, p => by
    obtain ⟨s, hcall⟩ := h.call place edits (.leaf k text span) p.state
    have hv := Visits.of_leaf rules place edits k text span p
    rw [hcall] at hv
    exact ⟨_, hv, rfl⟩
  | .branch head children span, place, edits, hp, p => by
    have hwalk (parent : Parent) (p : Progress σ) := exists_sweeps_of_observes h children parent [] p
    cases head with
    | insert codeSpan =>
      have hcode := exists_visits_branch_of_observes h .embeddedCode (by simp [Head.kind])
        (hwalk .embeddedCode) place hp codeSpan
      exact exists_visits_insert_of_observes h place hp hcode span p
    | topLevel | element | embeddedCode | property =>
      exact exists_visits_branch_of_observes h _ (by simp [Head.kind]) (hwalk _) place hp span p

/-- The walk of some siblings ends with all of them, every node under them counted once. -/
theorem exists_sweeps_of_observes (h : rules.Observes) : (ns : List Node) → ∀ (parent : Parent) (settled : List Node)
    (p : Progress σ), ∃ q, Sweeps rules parent settled ns p ⟨settled ++ ns, q⟩ ∧
      q.stats = p.stats + ⟨Node.countAll ns, 0, 0⟩
  | [], parent, settled, p => ⟨p, by rw [List.append_nil]; exact Sweeps.nil, rfl⟩
  | n :: rest, parent, settled, p => by
    have hnone : Edits.none.pruned = false := rfl
    obtain ⟨q, hv, hcount⟩ := exists_visits_of_observes h n ⟨parent, settled, rest⟩ hnone p
    obtain ⟨r, hw, hrest⟩ := exists_sweeps_of_observes h rest parent (settled ++ [n]) (q.prune false)
    rw [List.append_assoc] at hw
    refine ⟨r, Sweeps.cons (hv.settles_alone rfl rfl) hw, ?_⟩
    rw [hrest, Node.countAll, ← Stats.add_visits, ← hcount]
    rfl
end

end Blocks

/-! ## The order of visits -/

namespace Trace

/-- A visit begins with its node. -/
theorem visited_opening_append (a : Arrival) (place : Tracked.Place) (edits : Edits) (events : List Event) :
    visited (opening a place edits ++ events) = a :: visited events := rfl

/-- Around a child of observing rules nothing is asked for, and its visit goes through the tour of the node. -/
theorem preserved_tour {rules : RuleSet σ} (h : rules.Observes) : Preserved rules
    (fun _ edits a _ v => edits.pruned = false → v.edits = edits ∧ visited v.events = a.node.tour a.origin)
    (fun _ a _ b => b.ahead = [] ∧ visited b.events = a.node.tour a.origin)
    (fun _ _ _ queue _ q => queue = [] → visited q.events = [])
    (fun _ _ rest _ w => visited w.events = rest.flatMap fun a => a.node.tour a.origin) where
  still {place edits a p} hstill hp := by
    obtain ⟨s, hcall⟩ := h.call place.erase edits a.node p.state
    rw [hcall] at hstill ⊢
    refine ⟨rfl, ?_⟩
    obtain hpruned | ⟨k, text, span, hleaf⟩ := hstill
    · exact absurd (hp.symm.trans hpruned) Bool.false_ne_true
    · obtain ⟨o, n⟩ := a
      obtain rfl : n = .leaf k text span := hleaf
      rw [Node.tour]
      rfl
  insert {place edits a p codeSpan segments span v} _ hinsert hv hp := by
    obtain ⟨s, hcall⟩ := h.call place.erase edits a.node p.state
    rw [hcall] at hinsert hv ⊢
    obtain ⟨o, n⟩ := a
    obtain rfl : n = .branch (.insert codeSpan) segments span := hinsert
    obtain ⟨hedits, hvisited⟩ := hv hp
    refine ⟨hedits, ?_⟩
    rw [visited_opening_append, hvisited, Node.tour, Node.tour_branch (by simp [Head.kind])]
  branch {place edits a p head children span w} _ hbranch hhead hw _ := by
    obtain ⟨s, hcall⟩ := h.call place.erase edits a.node p.state
    refine ⟨congrArg Outcome.edits hcall, ?_⟩
    rw [hcall] at hbranch
    obtain ⟨o, n⟩ := a
    obtain rfl : n = .branch head children span := hbranch
    rw [flatMap_tour_arrivals] at hw
    rw [visited_opening_append, Node.tour_branch hhead, ← hw]
    rfl
  settled {place a p v q} hv hq := by
    obtain ⟨hedits, hvisited⟩ := hv rfl
    have hqueue : visited q.events = [] := hq (by rw [hedits]; rfl)
    constructor
    · rw [Visited.settled, hedits]
      rfl
    · rw [Visited.settled, visited_append, hvisited]
      show _ ++ visited q.events = _
      rw [hqueue, List.append_nil]
  queue_nil _ := rfl
  queue_cons _ _ hqueue := absurd hqueue (List.cons_ne_nil _ _)
  sweep_nil := rfl
  sweep_cons {parent settled a rest p b w} ns _ hb hw := by
    rw [visited_append, hb.2, hw, hb.1, List.nil_append, List.flatMap_cons]

end Trace

/-! ## Finished passes -/

/-- A pass of observing rules ends with the template as it was, and its trace is a tour of the nodes. -/
theorem RuleSet.Observes.exists_run? {rules : RuleSet σ} (h : rules.Observes) (t : Template) (s : σ) :
    ∃ limit state v, rules.run? limit t s = some ⟨t, ⟨t.count, 0, 0⟩, state⟩ ∧ rules.trace? limit t s = some v ∧
      visited v.events = t.root.tour [] := by
  have hnone : Edits.none.pruned = false := rfl
  obtain ⟨q, hv, hstats⟩ := Blocks.exists_visits_of_observes h t.root Place.root hnone ⟨Stats.zero, s⟩
  obtain ⟨limit, hrun⟩ := RuleSet.exists_run?_iff.mpr ⟨_, hv, rfl⟩
  rw [Template.ofRoot_root, hstats, Stats.zero_add] at hrun
  obtain ⟨v, htrace, -⟩ := RuleSet.exists_trace?_of_run? hrun
  exact ⟨limit, q.state, v, hrun, htrace, ((Trace.preserved_tour h).preserved_visit htrace hnone).2⟩

theorem RuleSet.isActive_empty : (RuleSet.empty : RuleSet σ).isActive = false := rfl

/-- Between a parser and a code generator, the pass of observing rules may as well be left out. -/
theorem Collaborators.preprocessBy_of_observes (c : Collaborators) {rules : RuleSet σ} (h : rules.Observes) (s : σ)
    (source : String) (options : Options) : ∃ small, ∀ limit, small ≤ limit →
      c.preprocessBy (fun t => (rules.run? limit t s).map PassResult.tree) source options =
        c.preprocessBy some source options := by
  cases hparse : c.parse source options.resolve with
  | error e =>
    refine ⟨0, fun limit _ => ?_⟩
    rw [preprocessBy, preprocessBy, hparse]
  | ok tree =>
    obtain ⟨small, state, -, hrun, -⟩ := h.exists_run? tree s
    refine ⟨small, fun limit hle => ?_⟩
    simp only [preprocessBy, hparse, RuleSet.run?_mono hle hrun, Option.map_some]

/-- Rules that only observe change nothing: every pass of them ends with the template as it was, has counted its nodes
and has visited them in preorder, each insert followed by its code. So it is all the same whether such a pass is run
every time, only where there is a rule, or never. -/
theorem RuleSet.Observes.unnoticed {rules : RuleSet σ} (h : rules.Observes) (s : σ) :
    (∀ t : Template, ∃ limit state v,
      rules.run? limit t s = some ⟨t, ⟨t.count, 0, 0⟩, state⟩ ∧
      rules.trace? limit t s = some v ∧
      visited v.events = t.root.tour [] ∧
      (visited v.events).map Arrival.node = t.root.subtree.flatMap Node.parts) ∧
    ∀ (c : Collaborators) (source : String) (options : Options), ∃ small, ∀ limit, small ≤ limit →
      (Preprocessor.mk c rules s limit).preprocess source options =
        c.preprocessBy (fun t => (rules.run? limit t s).map PassResult.tree) source options ∧
      (Preprocessor.mk c RuleSet.empty s limit).preprocess source options =
        c.preprocessBy (fun t => (rules.run? limit t s).map PassResult.tree) source options := by
  constructor
  · intro t
    obtain ⟨limit, state, v, hrun, htrace, htour⟩ := h.exists_run? t s
    exact ⟨limit, state, v, hrun, htrace, htour, htour ▸ Node.map_node_tour [] t.root⟩
  · intro c source options
    obtain ⟨small, hsmall⟩ := c.preprocessBy_of_observes h s source options
    refine ⟨small, fun limit hle => ?_⟩
    constructor
    · rw [Preprocessor.preprocess]
      by_cases hactive : rules.isActive = true
      · rw [Preprocessor.runPass_of_isActive hactive]
      · rw [Preprocessor.runPass_of_not_isActive (by simpa using hactive), hsmall limit hle]
    · rw [Preprocessor.preprocess, Preprocessor.runPass_of_not_isActive RuleSet.isActive_empty, hsmall limit hle]

/-- Rules that take a note of every insert, every block of code and every text, and do nothing else. -/
def watching : RuleSet (List Script.Note) :=
  ((RuleSet.empty.attach .insert (Script.rule [] [.note "insert" false])).attach .embeddedCode
    (Script.rule [] [.note "code" false])).attach .text (Script.rule [] [.note "text" true])

theorem watching_observes : watching.Observes := by
  have hnote (k : Kind) (name : String) (listed : Bool) (v : View) (n : NodeOf k) (s : List Script.Note) :
      (Script.rule [] [.note name listed] v n s).node = n ∧
        (Script.rule [] [.note name listed] v n s).edits = Edits.none := ⟨rfl, rfl⟩
  exact ((RuleSet.observes_empty.attach (hnote .insert "insert" false)).attach
    (hnote .embeddedCode "code" false)).attach (hnote .text "text" true)

/-- The block of code is visited right after its insert, before what stands in it and before the text behind it. -/
theorem RuleSet.unnoticed_watching :
    watching.Observes ∧
    ∃ limit state v,
      watching.run? limit ⟨[.element "p" [.insert [.codeText "x"], .text "y"]], none⟩ [] =
        some ⟨⟨[.element "p" [.insert [.codeText "x"], .text "y"]], none⟩, ⟨6, 0, 0⟩, state⟩ ∧
      watching.trace? limit ⟨[.element "p" [.insert [.codeText "x"], .text "y"]], none⟩ [] = some v ∧
      (visited v.events).map (fun a => a.node.describe) =
        ["code-top-level", "html-element:p", "html-insert", "embedded-code", "code-text:x", "html-text:y"] := by
  refine ⟨watching_observes, ?_⟩
  obtain ⟨limit, state, v, hrun, htrace, -, hnodes⟩ := (RuleSet.Observes.unnoticed watching_observes []).1
    ⟨[.element "p" [.insert [.codeText "x"], .text "y"]], none⟩
  refine ⟨limit, state, v, hrun, htrace, ?_⟩
  have hdescribe := congrArg (List.map Node.describe) hnodes
  rw [List.map_map] at hdescribe
  exact hdescribe

end TemplatePrep

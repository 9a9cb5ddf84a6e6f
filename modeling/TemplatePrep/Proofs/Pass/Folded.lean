import TemplatePrep.Proofs.Pass.Erasure
import TemplatePrep.Proofs.Pass.Completion
import TemplatePrep.Proofs.Pass.TraceInduction
import TemplatePrep.Rule.OnCode
import TemplatePrep.Rule.Script

/-!
# Rules for embedded code as the last rules for inserts

Where no block of code stands on its own among the children of something, a pass does the same with the folded rule set:
it ends with the same tree, the same state, and the same counts of removals and insertions. Only visits are counted
otherwise, since an insert that the rules for its code remove is then removed before its code is visited.

The two passes are followed side by side along the trace of the first. On an insert the second runs both chains in one
visit and then finds nothing to call on the code. So the visit of the code is related to what is left of it once its chain
has run, and every other visit to the same visit.
-/

namespace TemplatePrep

open Tracked

variable {σ : Type}

/-! ## Progress but for visits -/

/-- The same state and the same counts of removals and insertions. -/
structure Progress.Agrees (p q : Progress σ) : Prop where
  state : p.state = q.state
  pruned : p.stats.pruned = q.stats.pruned
  inserted : p.stats.inserted = q.stats.inserted

namespace Progress.Agrees

variable {p q : Progress σ}

theorem refl (p : Progress σ) : p.Agrees p := ⟨rfl, rfl, rfl⟩

theorem visit_left (h : p.Agrees q) : p.visit.Agrees q := ⟨h.state, h.pruned, h.inserted⟩

theorem visit_right (h : p.Agrees q) : p.Agrees q.visit := ⟨h.state, h.pruned, h.inserted⟩

theorem visit (h : p.Agrees q) : p.visit.Agrees q.visit := h.visit_left.visit_right

theorem withState (h : p.Agrees q) (s : σ) : (p.withState s).Agrees (q.withState s) := ⟨rfl, h.pruned, h.inserted⟩

theorem insert (h : p.Agrees q) (n : Nat) : (p.insert n).Agrees (q.insert n) :=
  ⟨h.state, h.pruned, congrArg (· + n) h.inserted⟩

theorem prune (h : p.Agrees q) (b : Bool) : (p.prune b).Agrees (q.prune b) :=
  ⟨h.state, congrArg (· + if b then 1 else 0) h.pruned, h.inserted⟩

end Progress.Agrees

/-! ## Where code stands -/

/-- No block of code is visited but as the code of an insert. -/
def CodeInInserts (events : List Event) : Prop :=
  ∀ a ∈ visited events, a.node.kind = .embeddedCode → a.origin.isCode = true

instance : DecidablePred CodeInInserts := fun events =>
  inferInstanceAs (Decidable (∀ a ∈ visited events, a.node.kind = .embeddedCode → a.origin.isCode = true))

theorem codeInInserts_append {events later : List Event} :
    CodeInInserts (events ++ later) ↔ CodeInInserts events ∧ CodeInInserts later := by
  simp only [CodeInInserts, visited_append, List.mem_append, or_imp, forall_and]

namespace Trace

/-! ## The second pass beside the trace -/

/-- The folded rules end a visit in the same way. -/
def FoldedVisits (rules : RuleSet σ) (place : TemplatePrep.Place) (edits : Edits) (n : Node) (p : Progress σ)
    (v : Visited σ) : Prop :=
  ∀ p', p.Agrees p' → ∃ q', Blocks.Visits rules.folded place edits n p' ⟨v.node.erase, v.edits, q'⟩ ∧
    v.progress.Agrees q'

/-- The folded rules settle a child in the same way. -/
def FoldedSettles (rules : RuleSet σ) (place : Tracked.Place) (n : Node) (p : Progress σ) (b : Settled σ) : Prop :=
  ∀ p', p.Agrees p' → ∃ q', Blocks.Settles rules.folded place.erase n p'
    ⟨eraseAll b.placed, b.ahead.map Arrival.node, q'⟩ ∧ b.progress.Agrees q'

/-- The folded rules settle a queue in the same way. -/
def FoldedQueues (rules : RuleSet σ) (parent : Parent) (before after : List Tracked) (queue : List Arrival)
    (p : Progress σ) (q : Swept σ) : Prop :=
  ∀ p', p.Agrees p' → ∃ q', Blocks.Queues rules.folded parent (eraseAll before) (eraseAll after)
    (queue.map Arrival.node) p' ⟨eraseAll q.nodes, q'⟩ ∧ q.progress.Agrees q'

/-- The folded rules walk some siblings in the same way. -/
def FoldedSweeps (rules : RuleSet σ) (parent : Parent) (settled : List Tracked) (rest : List Arrival) (p : Progress σ)
    (w : Swept σ) : Prop :=
  ∀ p', p.Agrees p' → ∃ q', Blocks.Sweeps rules.folded parent (eraseAll settled) (rest.map Arrival.node) p'
    ⟨eraseAll w.nodes, q'⟩ ∧ w.progress.Agrees q'

/-- What the visits of the two passes have to do with each other. -/
structure FoldsVisit (rules : RuleSet σ) (place : Tracked.Place) (edits : Edits) (a : Arrival) (p : Progress σ)
    (v : Visited σ) : Prop where
  mem_visited : a ∈ visited v.events
  /-- Anything but code is visited alike. -/
  alike : edits.pruned = false → CodeInInserts v.events → a.node.kind ≠ .embeddedCode →
    FoldedVisits rules place.erase edits a.node p v
  /-- The visit of code is over with its chain if that removes it. -/
  code_pruned : a.node.kind = .embeddedCode → (rules.call place.erase edits a.node p.state).edits.pruned = true →
    v.node.erase = (rules.call place.erase edits a.node p.state).node ∧
      v.edits = (rules.call place.erase edits a.node p.state).edits ∧
      v.progress = p.visit.withState (rules.call place.erase edits a.node p.state).state
  /-- If not, what its chain has left is visited by the folded rules, which do nothing more to it, and ends alike. -/
  code_kept : a.node.kind = .embeddedCode → CodeInInserts v.events →
    (rules.call place.erase edits a.node p.state).edits.pruned = false →
      FoldedVisits rules place.erase (rules.call place.erase edits a.node p.state).edits
        (rules.call place.erase edits a.node p.state).node
        (p.withState (rules.call place.erase edits a.node p.state).state) v

variable {rules : RuleSet σ}

/-! ## Visits -/

section Visit

variable {place : Tracked.Place} {edits : Edits} {a : Arrival} {p : Progress σ}

theorem mem_visited_opening_append (events : List Event) (asked : Edits) :
    a ∈ visited (opening a place asked ++ events) := by
  rw [visited_append]
  exact List.mem_append_left _ List.mem_cons_self

/-- A visit that is over with the chain. -/
theorem foldedVisits_of_pruned (hkind : a.node.kind ≠ .embeddedCode) (hedits : edits.pruned = false)
    (hp : (rules.call place.erase edits a.node p.state).edits.pruned = true) (events : List Event) :
    FoldedVisits rules place.erase edits a.node p
      ⟨.fresh ⟨a.origin, (rules.call place.erase edits a.node p.state).node⟩,
        (rules.call place.erase edits a.node p.state).edits,
        p.visit.withState (rules.call place.erase edits a.node p.state).state, events⟩ := by
  intro p' h
  have hcall : rules.folded.call place.erase edits a.node p'.state = rules.call place.erase edits a.node p.state := by
    rw [← h.state]
    by_cases hinsert : a.node.kind = .insert
    · exact RuleSet.call_folded_of_pruned hinsert hedits hp
    · exact RuleSet.call_folded_of_ne hinsert hkind
  have hv : Blocks.Visits rules.folded place.erase edits a.node p' _ := Blocks.Visits.pruned (by rw [hcall]; exact hp)
  rw [hcall] at hv
  exact ⟨_, hv, h.visit.withState _⟩

/-- A visit of anything but an insert or code, from what is the same in both passes. -/
theorem foldedVisits_leaf {k : LeafKind} {text : String} {span : Option Span}
    (hp : (rules.call place.erase edits a.node p.state).edits.pruned = false)
    (hn : (rules.call place.erase edits a.node p.state).node.val = .leaf k text span) (events : List Event) :
    FoldedVisits rules place.erase edits a.node p
      ⟨.fresh ⟨a.origin, (rules.call place.erase edits a.node p.state).node⟩,
        (rules.call place.erase edits a.node p.state).edits,
        p.visit.withState (rules.call place.erase edits a.node p.state).state, events⟩ := by
  intro p' h
  have hkind : a.node.kind = k.kind := (Outcome.kind_eq hn).symm
  have hcall : rules.folded.call place.erase edits a.node p'.state = rules.call place.erase edits a.node p.state := by
    rw [← h.state]
    apply RuleSet.call_folded_of_ne
    all_goals
      rw [hkind]
      cases k <;> simp [LeafKind.kind]
  have hv : Blocks.Visits rules.folded place.erase edits a.node p' _ :=
    Blocks.Visits.leaf (by rw [hcall]; exact hp) (by rw [hcall]; exact hn)
  rw [hcall, ← hn] at hv
  exact ⟨_, hv, h.visit.withState _⟩

/-- A branch that is neither an insert nor code, from the walk of its children. -/
theorem foldedVisits_branch {head : Head} {children : List Node} {span : Option Span} {w : Swept σ}
    (hkind : a.node.kind ≠ .embeddedCode)
    (hp : (rules.call place.erase edits a.node p.state).edits.pruned = false)
    (hn : (rules.call place.erase edits a.node p.state).node.val = .branch head children span)
    (hhead : head.kind ≠ .insert)
    (hw : FoldedSweeps rules head.parent [] (arrivals a.origin .child children)
      (p.visit.withState (rules.call place.erase edits a.node p.state).state) w) (events : List Event) :
    FoldedVisits rules place.erase edits a.node p
      ⟨.walked a.origin head w.nodes span, (rules.call place.erase edits a.node p.state).edits, w.progress,
        events⟩ := by
  intro p' h
  have hhead' : a.node.kind ≠ .insert := (Outcome.kind_eq hn) ▸ hhead
  have hcall : rules.folded.call place.erase edits a.node p'.state = rules.call place.erase edits a.node p.state := by
    rw [← h.state]
    exact RuleSet.call_folded_of_ne hhead' hkind
  obtain ⟨q', hsweep, hq'⟩ := hw (p'.visit.withState _) (h.visit.withState _)
  rw [map_node_arrivals] at hsweep
  have hv : Blocks.Visits rules.folded place.erase edits a.node p' _ :=
    Blocks.Visits.branch (by rw [hcall]; exact hp) (by rw [hcall]; exact hn) hhead (by rw [hcall]; exact hsweep)
  rw [hcall] at hv
  exact ⟨q', hv, hq'⟩

/-- Code that its chain has left, from the walk of its segments: no rule is called on it again. -/
theorem foldedVisits_code {n : Node} {asked : Edits} {s : σ} {segments : List Node} {span : Option Span} {w : Swept σ}
    (hn : n = .branch .embeddedCode segments span) (hasked : asked.pruned = false) (o : Origin)
    (hw : FoldedSweeps rules .embeddedCode [] (arrivals o .child segments) (p.visit.withState s) w)
    (events : List Event) :
    FoldedVisits rules place.erase asked n (p.withState s)
      ⟨.walked o .embeddedCode w.nodes span, asked, w.progress, events⟩ := by
  intro p' h
  have hcall : rules.folded.call place.erase asked n p'.state = ⟨⟨n, rfl⟩, asked, p'.state⟩ :=
    RuleSet.call_folded_embeddedCode (by rw [hn]; rfl)
  obtain ⟨q', hsweep, hq'⟩ := hw (p'.visit.withState p'.state) ⟨h.state, h.pruned, h.inserted⟩
  rw [map_node_arrivals] at hsweep
  have hv : Blocks.Visits rules.folded place.erase asked n p' _ :=
    Blocks.Visits.branch (by rw [hcall]; exact hasked) (by rw [hcall]; exact hn) (by simp [Head.kind])
      (by rw [hcall]; exact hsweep)
  rw [hcall] at hv
  exact ⟨q', hv, hq'⟩

/-- An insert, from what the visit of its code has to do with the second pass. -/
theorem foldedVisits_insert {codeSpan span : Option Span} {segments : List Node} {v : Visited σ}
    (hp : (rules.call place.erase edits a.node p.state).edits.pruned = false)
    (hn : (rules.call place.erase edits a.node p.state).node.val = .branch (.insert codeSpan) segments span)
    (hv : FoldsVisit rules place (rules.call place.erase edits a.node p.state).edits
      ⟨a.origin ++ [.code], .branch .embeddedCode segments codeSpan⟩
      (p.visit.withState (rules.call place.erase edits a.node p.state).state) v)
    (hfree : CodeInInserts v.events) (events : List Event) :
    FoldedVisits rules place.erase edits a.node p
      ⟨v.node.withCode a.origin span, v.edits, v.progress, events⟩ := by
  intro p' h
  obtain ⟨hnode, hasked, hstate⟩ := RuleSet.call_folded_of_kept hp hn
  have hcall : rules.folded.call place.erase edits a.node p'.state =
      rules.folded.call place.erase edits a.node p.state := by rw [h.state]
  rw [← hcall] at hnode hasked hstate
  rw [erase_withCode]
  generalize hc : rules.call place.erase (rules.call place.erase edits a.node p.state).edits
    (.branch .embeddedCode segments codeSpan) (rules.call place.erase edits a.node p.state).state = c
    at hnode hasked hstate
  by_cases hpruned : c.edits.pruned = true
  · obtain ⟨herase, hedits, hprogress⟩ := hv.code_pruned rfl (hc ▸ hpruned)
    have hvisits : Blocks.Visits rules.folded place.erase edits a.node p' _ :=
      Blocks.Visits.pruned (by rw [hasked]; exact hpruned)
    rw [hnode, hasked, hstate, ← hc] at hvisits
    rw [herase, hedits, hprogress]
    exact ⟨_, hvisits, ⟨rfl, h.pruned, h.inserted⟩⟩
  · rw [Bool.not_eq_true] at hpruned
    obtain ⟨q', hcode, hq'⟩ := hv.code_kept rfl hfree (hc ▸ hpruned) (p'.visit.withState c.state)
      ⟨congrArg Outcome.state hc, h.pruned, h.inserted⟩
    obtain ⟨segments', codeSpan', hleft⟩ := Node.exists_eq_embeddedCode c.node.property
    have hrest : Blocks.Visits rules.folded place.erase (rules.folded.call place.erase edits a.node p'.state).edits
        (.branch .embeddedCode segments' codeSpan')
        (p'.visit.withState (rules.folded.call place.erase edits a.node p'.state).state)
        ⟨v.node.erase, v.edits, q'⟩ := by
      rw [hasked, hstate, ← hleft]
      exact hc ▸ hcode
    exact ⟨q', Blocks.Visits.insert (by rw [hasked]; exact hpruned) (by rw [hnode, hleft]; rfl) hrest, hq'⟩

/-- A visit that is over with its chain or at a leaf. -/
theorem foldsVisit_still (hstill : (rules.call place.erase edits a.node p.state).edits.pruned = true ∨
      ∃ k text span, (rules.call place.erase edits a.node p.state).node.val = .leaf k text span) :
    FoldsVisit rules place edits a p ⟨.fresh ⟨a.origin, (rules.call place.erase edits a.node p.state).node⟩,
      (rules.call place.erase edits a.node p.state).edits,
      p.visit.withState (rules.call place.erase edits a.node p.state).state,
      opening a place (rules.call place.erase edits a.node p.state).edits⟩ where
  mem_visited := List.mem_cons_self
  alike hedits _ hkind := by
    by_cases hp : (rules.call place.erase edits a.node p.state).edits.pruned = true
    · exact foldedVisits_of_pruned hkind hedits hp _
    · obtain hpruned | ⟨k, text, span, hn⟩ := hstill
      · exact absurd hpruned hp
      · exact foldedVisits_leaf (by simpa using hp) hn _
  code_pruned _ _ := ⟨rfl, rfl, rfl⟩
  code_kept hkind _ hp := by
    obtain hpruned | ⟨k, text, span, hn⟩ := hstill
    · exact absurd (hp.symm.trans hpruned) Bool.false_ne_true
    · have hleaf := (Outcome.kind_eq hn).trans hkind
      cases k <;> simp [Node.kind, LeafKind.kind] at hleaf

/-- A visit that goes on to the code of an insert. -/
theorem foldsVisit_insert {codeSpan span : Option Span} {segments : List Node} {v : Visited σ}
    (hp : (rules.call place.erase edits a.node p.state).edits.pruned = false)
    (hn : (rules.call place.erase edits a.node p.state).node.val = .branch (.insert codeSpan) segments span)
    (hv : FoldsVisit rules place (rules.call place.erase edits a.node p.state).edits
      ⟨a.origin ++ [.code], .branch .embeddedCode segments codeSpan⟩
      (p.visit.withState (rules.call place.erase edits a.node p.state).state) v) :
    FoldsVisit rules place edits a p ⟨v.node.withCode a.origin span, v.edits, v.progress,
      opening a place (rules.call place.erase edits a.node p.state).edits ++ v.events⟩ := by
  have hkind : a.node.kind = .insert := (Outcome.kind_eq hn).symm
  constructor
  case mem_visited => exact mem_visited_opening_append _ _
  case alike =>
    intro _ hfree _
    exact foldedVisits_insert hp hn hv (codeInInserts_append.mp hfree).2 _
  case code_pruned =>
    intro hcode
    rw [hkind] at hcode
    exact absurd hcode (by decide)
  case code_kept =>
    intro hcode
    rw [hkind] at hcode
    exact absurd hcode (by decide)

/-- A visit that goes on to the children of a branch. -/
theorem foldsVisit_branch {head : Head} {children : List Node} {span : Option Span} {w : Swept σ}
    (hp : (rules.call place.erase edits a.node p.state).edits.pruned = false)
    (hn : (rules.call place.erase edits a.node p.state).node.val = .branch head children span)
    (hhead : head.kind ≠ .insert)
    (hw : CodeInInserts w.events → FoldedSweeps rules head.parent [] (arrivals a.origin .child children)
      (p.visit.withState (rules.call place.erase edits a.node p.state).state) w) :
    FoldsVisit rules place edits a p ⟨.walked a.origin head w.nodes span,
      (rules.call place.erase edits a.node p.state).edits, w.progress,
      opening a place (rules.call place.erase edits a.node p.state).edits ++ .walk a.origin children :: w.events⟩ where
  mem_visited := mem_visited_opening_append _ _
  alike _ hfree hkind := foldedVisits_branch hkind hp hn hhead (hw (codeInInserts_append.mp hfree).2) _
  code_pruned _ hpruned := absurd (hp.symm.trans hpruned) Bool.false_ne_true
  code_kept hkind hfree _ := by
    have hhead : head.kind = .embeddedCode := (Outcome.kind_eq hn).trans hkind
    obtain rfl : head = .embeddedCode := by cases head <;> simp [Head.kind] at hhead ⊢
    exact foldedVisits_code hn hp a.origin (hw (codeInInserts_append.mp hfree).2) _

end Visit

/-! ## Siblings -/

/-- A child that is not the code of an insert is settled alike, once its visit and its queue are over alike. -/
theorem foldedSettles {place : Tracked.Place} {a : Arrival} {p : Progress σ} {v : Visited σ} {q : Swept σ}
    (hv : FoldedVisits rules place.erase Edits.none a.node p v)
    (hq : FoldedQueues rules place.parent place.before (v.node :: place.after)
      (arrivals a.origin .before v.edits.before) v.progress q) :
    FoldedSettles rules place a.node p (v.settled a.origin q) := by
  intro p' h
  obtain ⟨r, hvisits, hr⟩ := hv p' h
  obtain ⟨q', hqueue, hq'⟩ := hq r hr
  rw [map_node_arrivals] at hqueue
  have hkept : eraseAll v.kept = TemplatePrep.Visited.kept ⟨v.node.erase, v.edits, r⟩ := Visited.eraseAll_kept v
  refine ⟨_, ?_, (hq'.insert v.edits.after.length).prune v.edits.pruned⟩
  have hsettles := hvisits.settles hqueue
  rw [TemplatePrep.Visited.settled] at hsettles
  rw [Visited.settled, eraseAll_append, List.map_reverse, map_node_arrivals, hkept]
  exact hsettles

theorem foldedQueues_cons {parent : Parent} {before after : List Tracked} {a : Arrival} {queue : List Arrival}
    {p : Progress σ} {b : Settled σ} {q : Swept σ} (hb : FoldedSettles rules ⟨parent, before, after⟩ a.node (p.insert 1) b)
    (hq : FoldedQueues rules parent (before ++ b.block) after queue b.progress q) (events : List Event) :
    FoldedQueues rules parent before after (a :: queue) p ⟨b.block ++ q.nodes, q.progress, events⟩ := by
  intro p' h
  obtain ⟨r, hsettles, hr⟩ := hb (p'.insert 1) (h.insert 1)
  obtain ⟨q', hqueue, hq'⟩ := hq r hr
  have hblock : eraseAll b.block = TemplatePrep.Settled.block ⟨eraseAll b.placed, b.ahead.map Arrival.node, r⟩ :=
    Settled.eraseAll_block b
  rw [eraseAll_append, hblock] at hqueue
  refine ⟨q', ?_, hq'⟩
  rw [eraseAll_append, hblock]
  exact Blocks.Queues.cons hsettles hqueue

theorem foldedSweeps_cons {parent : Parent} {settled : List Tracked} {a : Arrival} {rest : List Arrival}
    {p : Progress σ} {b : Settled σ} {w : Swept σ}
    (hb : FoldedSettles rules ⟨parent, settled, rest.map .fresh⟩ a.node p b)
    (hw : FoldedSweeps rules parent (settled ++ b.placed) (b.ahead ++ rest) b.progress w) (events : List Event) :
    FoldedSweeps rules parent settled (a :: rest) p ⟨w.nodes, w.progress, events⟩ := by
  intro p' h
  obtain ⟨r, hsettles, hr⟩ := hb p' h
  obtain ⟨q', hsweep, hq'⟩ := hw r hr
  rw [eraseAll_append, List.map_append] at hsweep
  rw [Place.erase, eraseAll_map_fresh] at hsettles
  exact ⟨q', Blocks.Sweeps.cons hsettles hsweep, hq'⟩

/-- Putting parts of the trace together keeps the passes side by side. -/
theorem preserved_folded (rules : RuleSet σ) : Preserved rules (FoldsVisit rules)
    (fun place a p b => a.origin.isCode = false → CodeInInserts b.events → FoldedSettles rules place a.node p b)
    (fun parent before after queue p q => (∀ a ∈ queue, a.origin.isCode = false) → CodeInInserts q.events →
      FoldedQueues rules parent before after queue p q)
    (fun parent settled rest p w => (∀ a ∈ rest, a.origin.isCode = false) → CodeInInserts w.events →
      FoldedSweeps rules parent settled rest p w) where
  still := foldsVisit_still
  insert hp hn hv := foldsVisit_insert hp hn hv
  branch {place edits a p head children span w} hp hn hhead hw := by
    refine foldsVisit_branch hp hn hhead (hw ?_)
    exact forall_mem_arrivals (·.isCode = false) (fun i => Origin.isCode_concat a.origin (.child i)) children
  settled {place a p v q} hv hq horigin hfree := by
    obtain ⟨hvfree, hqfree⟩ := codeInInserts_append.mp hfree
    have hkind : a.node.kind ≠ .embeddedCode := fun h =>
      Bool.false_ne_true (horigin.symm.trans (hvfree a hv.mem_visited h))
    refine foldedSettles (hv.alike rfl hvfree hkind) (hq ?_ hqfree)
    exact forall_mem_arrivals (·.isCode = false) (fun i => Origin.isCode_concat a.origin (.before i)) _
  queue_nil _ _ := fun p' h => ⟨p', Blocks.Queues.nil, h⟩
  queue_cons {parent before after a queue p b q} hb hq horigins hfree := by
    obtain ⟨hbfree, hqfree⟩ := codeInInserts_append.mp hfree
    exact foldedQueues_cons (hb (horigins a List.mem_cons_self) hbfree)
      (hq (fun c hc => horigins c (List.mem_cons_of_mem a hc)) hqfree) _
  sweep_nil _ _ := fun p' h => ⟨p', Blocks.Sweeps.nil, h⟩
  sweep_cons {parent settled a rest p b w} ns hahead hb hw horigins hfree := by
    obtain ⟨hbfree, hwfree⟩ := codeInInserts_append.mp hfree
    refine foldedSweeps_cons (hb (horigins a List.mem_cons_self) hbfree) (hw ?_ hwfree) _
    have hafter : ∀ c ∈ arrivals a.origin .after ns, c.origin.isCode = false :=
      forall_mem_arrivals (·.isCode = false) (fun i => Origin.isCode_concat a.origin (.after i)) ns
    intro c hc
    rw [List.mem_append, hahead, List.mem_reverse] at hc
    rcases hc with hc | hc
    · exact hafter c hc
    · exact horigins c (List.mem_cons_of_mem a hc)

end Trace

/-! ## An insert and its code -/

/-- Both chains on an insert and its code are settled as one: `v` is the visit of the insert at its place, `q` what the
queue in front of it becomes, and `r` the siblings afterwards. -/
structure SettledAsOne (rules : RuleSet σ) (place : Place) (n : Node) (p : Progress σ) (v : Visited σ) (q : Swept σ)
    (r : Spliced σ) : Prop where
  visit : Blocks.Visits rules place Edits.none n p v
  /-- What both chains ask for is what the joint chain asks for, and makes one queue. -/
  edits : v.edits = (rules.folded.call place Edits.none n p.state).edits
  queue : Blocks.Queues rules place.parent place.before (v.node :: place.after) v.edits.before v.progress q
  siblings : r.siblings = place.before ++ (q.nodes ++ v.kept ++ v.edits.after.reverse) ++ place.after
  progress : r.progress = (q.progress.insert v.edits.after.length).prune v.edits.pruned
  /-- After a removal by either chain the insert is gone. It was left as the chains have left it, and nothing but the
  insert and its code has been visited by then. -/
  removed : v.edits.pruned = true → v.kept = [] ∧ v.node = (rules.folded.call place Edits.none n p.state).node ∧
    ∃ visits ≤ 2, v.progress = ⟨⟨p.stats.visited + visits, p.stats.pruned, p.stats.inserted⟩,
      (rules.folded.call place Edits.none n p.state).state⟩

namespace Blocks

variable {rules : RuleSet σ} {place : Place} {p : Progress σ}

/-- The visit of code asks for what its chain asks for, and is over with the chain if that removes the code. -/
theorem Visits.of_code {edits : Edits} {segments : List Node} {codeSpan : Option Span} {w : Visited σ}
    (h : Visits rules place edits (.branch .embeddedCode segments codeSpan) p w) :
    let c := rules.call place edits (.branch .embeddedCode segments codeSpan) p.state
    w.edits = c.edits ∧ (c.edits.pruned = true → w.node = c.node ∧ w.progress = p.visit.withState c.state) := by
  obtain ⟨limit, h⟩ := h
  cases limit with
  | zero => simp [visit] at h
  | succ limit =>
    have hkind := (rules.call place edits (.branch .embeddedCode segments codeSpan) p.state).node.property
    obtain ⟨hp, rfl⟩ | ⟨hp, ⟨k, text, span, hn, rfl⟩ | ⟨_, _, span, w, hn, -, rfl⟩ |
      ⟨head, children, span, w, hn, -, -, rfl⟩⟩ := visit_cases h
    · exact ⟨rfl, fun _ => ⟨rfl, rfl⟩⟩
    · exact ⟨rfl, fun hpruned => absurd (hp.symm.trans hpruned) Bool.false_ne_true⟩
    · rw [hn] at hkind
      exact absurd hkind (by simp [Node.kind, Head.kind])
    · exact ⟨rfl, fun hpruned => absurd (hp.symm.trans hpruned) Bool.false_ne_true⟩

/-- The visit of an insert asks for what the joint chain asks for, and is over with that if it removes the insert. -/
theorem Visits.of_insert {n : Node} {v : Visited σ} (h : Visits rules place Edits.none n p v)
    (hkind : n.kind = .insert) :
    let o := rules.folded.call place Edits.none n p.state
    v.edits = o.edits ∧ (v.edits.pruned = true → v.node = o.node ∧
      ∃ visits ≤ 2, v.progress = ⟨⟨p.stats.visited + visits, p.stats.pruned, p.stats.inserted⟩, o.state⟩) := by
  obtain ⟨limit, h⟩ := h
  cases limit with
  | zero => simp [visit] at h
  | succ limit =>
    obtain ⟨hp, rfl⟩ | ⟨hp, ⟨k, text, span, hn, rfl⟩ | ⟨codeSpan, segments, span, w, hn, hw, rfl⟩ |
      ⟨head, children, span, w, hn, hhead, -, rfl⟩⟩ := visit_cases h
    · rw [RuleSet.call_folded_of_pruned hkind rfl hp]
      exact ⟨rfl, fun _ => ⟨rfl, 1, by decide, rfl⟩⟩
    · have hleaf := (Outcome.kind_eq hn).trans hkind
      cases k <;> simp [Node.kind, LeafKind.kind] at hleaf
    · obtain ⟨hnode, hedits, hstate⟩ := RuleSet.call_folded_of_kept hp hn
      obtain ⟨hcode, hpruned⟩ := Visits.of_code ⟨limit, hw⟩
      refine ⟨hcode.trans hedits.symm, fun h => ?_⟩
      obtain ⟨hleft, hprogress⟩ := hpruned (hcode ▸ h)
      refine ⟨?_, 2, by decide, ?_⟩
      · rw [hnode, hleft]
        rfl
      · rw [hstate, hprogress]
        rfl
    · exact absurd ((Outcome.kind_eq hn).trans hkind) hhead

end Blocks

/-- Wherever an insert is settled in place, both chains are settled as one. -/
theorem Pass.settledAsOne_of_settleAt {rules : RuleSet σ} {limit : Nat} {parent : Parent} {siblings : List Node} {i : Nat}
    (hi : i < siblings.length) (hkind : siblings[i].kind = .insert) {p : Progress σ} {r : Spliced σ}
    (h : Pass.settleAt rules limit parent siblings i p = .ok r) :
    ∃ v q, SettledAsOne rules ⟨parent, siblings.take i, siblings.drop (i + 1)⟩ siblings[i] p v q r := by
  rw [Pass.settleAt_eq rules limit parent hi] at h
  obtain ⟨b, hb, rfl⟩ := Option.map_eq_some_iff.mp (limited_eq_ok_iff.mp h)
  cases limit with
  | zero => simp [Blocks.settle] at hb
  | succ limit =>
    unfold Blocks.settle at hb
    obtain ⟨v, hv, hb⟩ := Option.bind_eq_some_iff.mp hb
    obtain ⟨q, hq, hb⟩ := Option.bind_eq_some_iff.mp hb
    cases hb
    obtain ⟨hedits, hremoved⟩ := Blocks.Visits.of_insert ⟨limit, hv⟩ hkind
    refine ⟨v, q, ⟨limit, hv⟩, hedits, ⟨limit, hq⟩, ?_, rfl, ?_⟩
    · simp only [Blocks.Settled.between, Settled.block, Visited.settled, List.append_assoc]
    · intro hp
      exact ⟨by rw [Visited.kept, if_pos hp], hremoved hp⟩

/-! ## Finished passes -/

/-- Rules for embedded code act as the last rules for inserts. If a pass finishes and has visited no block of code but as
the code of an insert, then the pass of the folded rules finishes too, with the same tree, the same state, and the same
counts of removals and insertions. And wherever an insert is settled, both chains are settled as one. -/
theorem RuleSet.exists_run?_folded {rules : RuleSet σ} {limit : Nat} {t : Template} {s : σ} {r : PassResult σ}
    {v : Trace.Visited σ} (hrun : rules.run? limit t s = some r) (htrace : rules.trace? limit t s = some v)
    (hcode : CodeInInserts v.events) :
    (∃ limit' r', rules.folded.run? limit' t s = some r' ∧ r'.tree = r.tree ∧ r'.state = r.state ∧
      r'.stats.pruned = r.stats.pruned ∧ r'.stats.inserted = r.stats.inserted) ∧
    ∀ (limit : Nat) (parent : Parent) (siblings : List Node) (i : Nat) (hi : i < siblings.length) (p : Progress σ)
      (b : Spliced σ), siblings[i].kind = .insert → Pass.settleAt rules limit parent siblings i p = .ok b →
      ∃ v q, SettledAsOne rules ⟨parent, siblings.take i, siblings.drop (i + 1)⟩ siblings[i] p v q b := by
  constructor
  · have hroot : t.root.kind ≠ .embeddedCode := by simp [Template.root, Node.kind, Head.kind]
    obtain ⟨w, hw, rfl⟩ := RuleSet.exists_trace?_of_run? hrun
    obtain rfl : v = w := Option.some.inj (htrace.symm.trans hw)
    obtain ⟨q, hvisits, hq⟩ := ((Trace.preserved_folded rules).preserved_visit htrace).alike rfl hcode hroot
      ⟨Stats.zero, s⟩ (Progress.Agrees.refl _)
    obtain ⟨limit', hfolded⟩ := RuleSet.exists_run?_iff.mpr ⟨_, hvisits, rfl⟩
    exact ⟨limit', _, hfolded, rfl, hq.state.symm, hq.pruned.symm, hq.inserted.symm⟩
  · intro limit parent siblings i hi p b hkind h
    exact Pass.settledAsOne_of_settleAt hi hkind h

/-- Every insert asks for the text `A` in front of it, and its code for the text `B` and to be removed. -/
def removedByCode : RuleSet (List Script.Note) :=
  (RuleSet.empty.attach .insert (Script.rule [] [.insertBefore (.text "A")])).attach .embeddedCode
    (Script.rule [] [.insertBefore (.text "B"), .prune])

/-- The code takes its insert out, and what both have asked for stands in its stead. -/
theorem RuleSet.exists_run?_folded_removedByCode :
    removedByCode.run? 12 ⟨[.element "p" [.insert [.codeText "x"], .text "y"]], none⟩ [] =
      some ⟨⟨[.element "p" [.text "A", .text "B", .text "y"]], none⟩, ⟨7, 1, 2⟩, []⟩ ∧
    ∃ v, removedByCode.trace? 12 ⟨[.element "p" [.insert [.codeText "x"], .text "y"]], none⟩ [] = some v ∧
      CodeInInserts v.events ∧
      ∃ limit' r', removedByCode.folded.run? limit' ⟨[.element "p" [.insert [.codeText "x"], .text "y"]], none⟩ [] =
          some r' ∧
        r'.tree = ⟨[.element "p" [.text "A", .text "B", .text "y"]], none⟩ ∧ r'.stats.pruned = 1 ∧
        r'.stats.inserted = 2 := by
  have hrun : removedByCode.run? 12 ⟨[.element "p" [.insert [.codeText "x"], .text "y"]], none⟩ [] =
      some ⟨⟨[.element "p" [.text "A", .text "B", .text "y"]], none⟩, ⟨7, 1, 2⟩, []⟩ := by
    cbv
  obtain ⟨v, htrace, -⟩ := RuleSet.exists_trace?_of_run? hrun
  have hcheck : (removedByCode.trace? 12 ⟨[.element "p" [.insert [.codeText "x"], .text "y"]], none⟩ []).map
      (fun v => decide (CodeInInserts v.events)) = some true := by
    cbv
  rw [htrace] at hcheck
  have hcode : CodeInInserts v.events := of_decide_eq_true (Option.some.inj hcheck)
  obtain ⟨limit', r', hfolded, htree, -, hpruned, hinserted⟩ := (RuleSet.exists_run?_folded hrun htrace hcode).1
  exact ⟨hrun, v, htrace, hcode, limit', r', hfolded, htree, hpruned, hinserted⟩

end TemplatePrep

import TemplatePrep.Proofs.Pass.Completion
import TemplatePrep.Proofs.Pass.Erasure
import TemplatePrep.Proofs.Pass.JournalInduction

/-!
# Rules that log their calls

Where rules keep a log of their calls in the state that the pass hands on, the pass does the same as without, and in the
end the log holds the calls of the journal, in order. So what the journal notes is what the rules of the running pass
have been shown and given.
-/

namespace TemplatePrep

open Tracked

variable {σ : Type}

/-- The calls that an entry notes. -/
def Entry.calls : Entry → List RuleCall
  | visit _ _ _ _ calls => calls
  | _ => []

/-- The calls noted in some entries, in order. -/
def callsOf (entries : List Entry) : List RuleCall := entries.flatMap Entry.calls

theorem callsOf_nil : callsOf [] = [] := rfl

theorem callsOf_cons (e : Entry) (entries : List Entry) : callsOf (e :: entries) = e.calls ++ callsOf entries := by
  rw [callsOf, List.flatMap_cons, callsOf]

theorem callsOf_append (entries later : List Entry) :
    callsOf (entries ++ later) = callsOf entries ++ callsOf later := by
  rw [callsOf, List.flatMap_append, callsOf, callsOf]

theorem callsOf_changes (container : Origin) (cs : List Change) : callsOf (cs.map (.change container)) = [] := by
  induction cs with
  | nil => rfl
  | cons c rest ih =>
    rw [List.map_cons, callsOf_cons, ih]
    rfl

/-- What a pass carries along, with a log in the state. -/
def Progress.logged (p : Progress σ) (log : List RuleCall) : Progress (σ × List RuleCall) := ⟨p.stats, (p.state, log)⟩

namespace Journal

/-- A finished visit as it is with rules that log their calls. -/
def loggedVisit (v : Trace.Visited σ) (log : List RuleCall) : TemplatePrep.Visited (σ × List RuleCall) :=
  ⟨v.node.erase, v.edits, v.progress.logged log⟩

/-- A settled child as it is with rules that log their calls. -/
def loggedSettled (b : Trace.Settled σ) (log : List RuleCall) : TemplatePrep.Settled (σ × List RuleCall) :=
  ⟨eraseAll b.placed, b.ahead.map Arrival.node, b.progress.logged log⟩

/-- Siblings that are done as they are with rules that log their calls. -/
def loggedSwept (w : Trace.Swept σ) (log : List RuleCall) : TemplatePrep.Swept (σ × List RuleCall) :=
  ⟨eraseAll w.nodes, w.progress.logged log⟩

theorem settled_loggedVisit (v : Trace.Visited σ) (o : Origin) (q : Trace.Swept σ) (log log' : List RuleCall) :
    (loggedVisit v log).settled (loggedSwept q log') = loggedSettled (v.settled o q) log' := by
  have hkept : (loggedVisit v log).kept = eraseAll v.kept := by
    rw [Trace.Visited.eraseAll_kept]
    rfl
  have hahead : (arrivals o .after v.edits.after).reverse.map Arrival.node = v.edits.after.reverse := by
    rw [List.map_reverse, map_node_arrivals]
  rw [TemplatePrep.Visited.settled, hkept, loggedSettled, Trace.Visited.settled, eraseAll_append, hahead]
  rfl

theorem block_loggedSettled (b : Trace.Settled σ) (log : List RuleCall) :
    (loggedSettled b log).block = eraseAll b.block := by
  rw [Trace.Settled.eraseAll_block]
  rfl

theorem callsOf_opening (rules : RuleSet σ) (container : Option Origin) (place : Tracked.Place) (edits : Edits)
    (a : Arrival) (s : σ) (entries : List Entry) :
    callsOf (opening rules container place edits a s :: entries) =
      rules.calls place.erase edits a.node s ++ callsOf entries :=
  callsOf_cons _ _

/-- With rules that log their calls, every part of a pass does the same and logs the calls noted in its entries. -/
theorem preserved_logged (rules : RuleSet σ) : Preserved rules
    (fun _ place edits a p v entries => ∀ log, Blocks.Visits rules.logged place.erase edits a.node (p.logged log)
      (loggedVisit v (log ++ callsOf entries)))
    (fun _ place a p b entries => ∀ log, Blocks.Settles rules.logged place.erase a.node (p.logged log)
      (loggedSettled b (log ++ callsOf entries)))
    (fun _ parent before after queue p q entries => ∀ log, Blocks.Queues rules.logged parent (eraseAll before)
      (eraseAll after) (queue.map Arrival.node) (p.logged log) (loggedSwept q (log ++ callsOf entries)))
    (fun _ parent settled rest p w entries => ∀ log, Blocks.Sweeps rules.logged parent (eraseAll settled)
      (rest.map Arrival.node) (p.logged log) (loggedSwept w (log ++ callsOf entries))) where
  still {container place edits a p} h log := by
    have hcall : rules.logged.call place.erase edits a.node (p.logged log).state = _ :=
      rules.call_logged place.erase edits a.node p.state log
    rw [callsOf_opening, callsOf_nil, List.append_nil]
    by_cases hp : (rules.call place.erase edits a.node p.state).edits.pruned = true
    · have hv := Blocks.Visits.pruned ((congrArg (·.edits.pruned) hcall).trans hp)
      rwa [hcall] at hv
    · obtain ⟨k, text, span, hn⟩ := h.resolve_left hp
      rw [Bool.not_eq_true] at hp
      have hv := Blocks.Visits.leaf ((congrArg (·.edits.pruned) hcall).trans hp)
        ((congrArg (·.node.val) hcall).trans hn)
      rwa [hcall, ← hn] at hv
  insert {container place edits a p codeSpan segments span v entries} hp hn h log := by
    have hcall : rules.logged.call place.erase edits a.node (p.logged log).state = _ :=
      rules.call_logged place.erase edits a.node p.state log
    have hcode := h (log ++ rules.calls place.erase edits a.node p.state)
    rw [List.append_assoc, ← callsOf_opening rules container] at hcode
    have hv := Blocks.Visits.insert ((congrArg (·.edits.pruned) hcall).trans hp)
      ((congrArg (·.node.val) hcall).trans hn) (by rw [hcall]; exact hcode)
    rw [loggedVisit, erase_withCode]
    exact hv
  branch {container place edits a p head children span w entries} hp hn hne h log := by
    have hcall : rules.logged.call place.erase edits a.node (p.logged log).state = _ :=
      rules.call_logged place.erase edits a.node p.state log
    have hwalk := h (log ++ rules.calls place.erase edits a.node p.state)
    rw [map_node_arrivals, List.append_assoc] at hwalk
    have hv := Blocks.Visits.branch ((congrArg (·.edits.pruned) hcall).trans hp)
      ((congrArg (·.node.val) hcall).trans hn) hne (by rw [hcall]; exact hwalk)
    rw [hcall] at hv
    rwa [callsOf_opening, callsOf_cons]
  settled {container place a p v q visit front} hv hq log := by
    have hfront := hq (log ++ callsOf visit)
    rw [map_node_arrivals] at hfront
    have hsettled := (hv log).settles hfront
    rw [settled_loggedVisit v a.origin] at hsettled
    rwa [settledEntries, callsOf_append, callsOf_cons, callsOf_append, callsOf_changes, List.append_nil,
      ← List.append_assoc]
  queue_nil {container parent before after p} log := by
    rw [callsOf_nil, List.append_nil]
    exact Blocks.Queues.nil
  queue_cons {container parent before after a queue p b q block entries} hb hq log := by
    have hrest := hq (log ++ callsOf block)
    rw [eraseAll_append, ← block_loggedSettled b (log ++ callsOf block)] at hrest
    have hqueue := Blocks.Queues.cons (p := p.logged log) (hb log) hrest
    rw [block_loggedSettled] at hqueue
    rw [callsOf_cons, callsOf_append, loggedSwept, eraseAll_append]
    rwa [List.append_assoc] at hqueue
  sweep_nil {container parent settled p} log := by
    rw [callsOf_nil, List.append_nil]
    exact Blocks.Sweeps.nil
  sweep_cons {container parent settled a rest p b w block entries} ns hahead hb hw log := by
    have hrest := hw (log ++ callsOf block)
    rw [eraseAll_append, List.map_append] at hrest
    have hfirst := hb log
    have hplace : (Tracked.Place.mk parent settled (rest.map .fresh)).erase =
        ⟨parent, eraseAll settled, rest.map Arrival.node⟩ := by
      rw [Tracked.Place.erase, eraseAll_map_fresh]
    rw [hplace] at hfirst
    have hwalk := Blocks.Sweeps.cons hfirst hrest
    rwa [callsOf_append, ← List.append_assoc]

end Journal

/-- A pass with rules that log their calls ends alike, with the calls of the journal in the log. -/
theorem RuleSet.exists_run?_logged {rules : RuleSet σ} {limit : Nat} {t : Template} {s : σ} {v : Trace.Visited σ}
    {w : Journal.Visited σ} (hv : rules.trace? limit t s = some v) (hw : rules.journal? limit t s = some w) :
    ∃ limit', rules.logged.run? limit' t (s, []) =
      some ⟨.ofRoot v.node.erase, v.progress.stats, (v.progress.state, callsOf w.entries)⟩ := by
  have hvisit := (Journal.preserved_logged rules).preserved_visit hv hw []
  rw [RuleSet.exists_run?_iff]
  exact ⟨_, hvisit, rfl⟩

end TemplatePrep

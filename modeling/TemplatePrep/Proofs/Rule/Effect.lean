import TemplatePrep.Proofs.Pass.Completion
import TemplatePrep.Rule.Effect
import Mathlib.Data.List.Induction

/-!
# The meaning of built-in rules

A pass with built-in rules always ends, and it leaves what their effect says. The chains come first: whatever the list
of rules, calling the chain for texts or the chain for comments does one of a few things, found by going through the
list from its end, where the rule that is called first stands. The tree follows by its own structure, with the settled
siblings of a walk taking the place of an index: a comment gets a marker exactly when nothing is settled before it.
-/

namespace TemplatePrep

variable {σ : Type}

/-! ## Chains -/

namespace RuleSet

theorem ofBuiltins_concat (bs : List Builtin) (b : Builtin) :
    (ofBuiltins (bs ++ [b]) : RuleSet σ) = Builtin.attach (ofBuiltins bs) b := by
  rw [ofBuiltins, List.foldl_append, List.foldl_cons, List.foldl_nil, ofBuiltins]

/-- Built-in rules belong to texts and comments. -/
theorem chain_ofBuiltins_eq_nil (bs : List Builtin) {k : Kind} (ht : k ≠ .text) (hc : k ≠ .comment) :
    (ofBuiltins bs : RuleSet σ).chain k = [] := by
  induction bs using List.reverseRecOn with
  | nil => rfl
  | append_singleton bs b ih =>
    rw [ofBuiltins_concat]
    cases b with
    | stripWhitespaceText | preserveWhitespaceText => rw [Builtin.attach, chain_attach_of_ne _ _ ht.symm, ih]
    | markInitialComments => rw [Builtin.attach, chain_attach_of_ne _ _ hc.symm, ih]

end RuleSet

namespace Effect

theorem blankText_concat (bs : List Builtin) (b : Builtin) :
    (ofBuiltins (bs ++ [b])).blankText = b.blankText?.getD (ofBuiltins bs).blankText := by
  simp only [ofBuiltins, List.filterMap_append]
  cases hb : b.blankText? <;> simp [hb]

theorem marksComments_concat (bs : List Builtin) (b : Builtin) :
    (ofBuiltins (bs ++ [b])).marksComments = ((ofBuiltins bs).marksComments || b == .markInitialComments) := by
  simp only [ofBuiltins, List.contains_append]
  cases b <;> rfl

/-- The rules for texts leave a text alone that they do not take for blank. -/
theorem runChain_text_of_not_losesText (bs : List Builtin) {place : Place} {n : NodeOf .text} {s : σ}
    (hn : ∀ queued, Builtin.losesText ⟨place, queued⟩ n.val = false) :
    runChain place ((RuleSet.ofBuiltins bs).chain .text) n Edits.none s = ⟨n, Edits.none, s⟩ := by
  induction bs using List.reverseRecOn with
  | nil => rfl
  | append_singleton bs b ih =>
    rw [RuleSet.ofBuiltins_concat]
    cases b with
    | stripWhitespaceText =>
      rw [Builtin.attach, RuleSet.chain_attach_self, runChain, Builtin.strip, hn]
      exact ih
    | preserveWhitespaceText =>
      rw [Builtin.attach, RuleSet.chain_attach_self, runChain, Builtin.preserve, hn]
      exact ih
    | markInitialComments => rwa [Builtin.attach, RuleSet.chain_attach_of_ne _ _ (by decide)]

/-- What the rules for texts do with a text that they take for blank. -/
def onBlankText (e : Effect) (n : NodeOf .text) (s : σ) : Outcome σ .text :=
  match e.blankText with
  | .kept => ⟨n, Edits.none, s⟩
  | .removed => ⟨n, Edits.prune, s⟩
  | .marked => ⟨n.mapLabel (Text.marker ++ ·), Edits.none, s⟩

/-- The rule called first decides over a blank text: it removes the text or marks it, and no other rule takes a marked
text for blank. -/
theorem runChain_text_of_losesText (bs : List Builtin) {place : Place} {n : NodeOf .text} {s : σ}
    (hn : ∀ queued, Builtin.losesText ⟨place, queued⟩ n.val = true) :
    runChain place ((RuleSet.ofBuiltins bs).chain .text) n Edits.none s = onBlankText (ofBuiltins bs) n s := by
  -- from the end of the list: the rule attached last is called first
  induction bs using List.reverseRecOn with
  | nil => rfl
  | append_singleton bs b ih =>
    rw [RuleSet.ofBuiltins_concat, onBlankText, blankText_concat]
    cases b with
    | stripWhitespaceText =>
      rw [Builtin.attach, RuleSet.chain_attach_self, runChain, Builtin.strip, hn]
      rfl
    | preserveWhitespaceText =>
      have hmarked : ∀ queued, Builtin.losesText ⟨place, queued⟩ (n.mapLabel (Text.marker ++ ·)).val = false := by
        intro queued
        obtain ⟨n, hk⟩ := n
        cases n with
        | leaf => simp [NodeOf.mapLabel, Node.mapLabel, Builtin.losesText, Node.label?, Text.isBlank_marker_append]
        | branch head => cases head <;> simp [Node.kind, Head.kind] at hk
      rw [Builtin.attach, RuleSet.chain_attach_self, runChain, Builtin.preserve, hn]
      exact runChain_text_of_not_losesText bs hmarked
    | markInitialComments =>
      rw [Builtin.attach, RuleSet.chain_attach_of_ne _ _ (by decide), ih]
      rfl

/-- The edits around a comment: a marker in front of it if nothing stands there and nothing has been asked for. -/
def commentEdits (e : Effect) (place : Place) (edits : Edits) : Edits :=
  if e.marksComments && place.before.isEmpty && edits.before.isEmpty then
    edits ++ Edits.insertBefore (Node.text Text.marker)
  else edits

/-- However often the rule for comments is attached, it asks for one marker at most, since the marker asked for moves
the comment away from the front. -/
theorem runChain_comment (bs : List Builtin) {place : Place} {n : NodeOf .comment} {edits : Edits} {s : σ}
    (hedits : edits.pruned = false) :
    runChain place ((RuleSet.ofBuiltins bs).chain .comment) n edits s =
      ⟨n, (ofBuiltins bs).commentEdits place edits, s⟩ := by
  induction bs using List.reverseRecOn generalizing edits with
  | nil => rfl
  | append_singleton bs b ih =>
    rw [RuleSet.ofBuiltins_concat, commentEdits, marksComments_concat]
    cases b with
    | stripWhitespaceText | preserveWhitespaceText =>
      rw [Builtin.attach, RuleSet.chain_attach_of_ne _ _ (by decide), ih hedits, commentEdits]
      simp
    | markInitialComments =>
      rw [Builtin.attach, RuleSet.chain_attach_self, runChain, Builtin.markInitial]
      -- the index that the rule looks at counts the siblings before the comment and the nodes asked for
      by_cases hfirst : place.before = [] ∧ edits.before = []
      · obtain ⟨hbefore, hnone⟩ := hfirst
        have hindex : View.index ⟨place, edits.before.length⟩ = 0 := by
          rw [View.index, hbefore, hnone]
          rfl
        have hasked : (edits ++ Edits.insertBefore (Node.text Text.marker)).pruned = false := by
          rw [Edits.pruned_append, hedits]
          rfl
        simp only [hindex, if_true, hasked, Bool.false_eq_true, if_false]
        rw [ih hasked, commentEdits]
        simp [hbefore, hnone, Edits.insertBefore]
      · have hindex : View.index ⟨place, edits.before.length⟩ ≠ 0 := by
          simp only [View.index, Nat.add_eq_zero_iff, List.length_eq_zero_iff, ne_eq]
          exact hfirst
        have hnot : (place.before.isEmpty && edits.before.isEmpty) = false := by
          rw [← Bool.not_eq_true, Bool.and_eq_true, List.isEmpty_iff, List.isEmpty_iff]
          exact hfirst
        simp only [hindex, if_false, Edits.append_none, hedits, Bool.false_eq_true]
        rw [ih hedits, commentEdits, Bool.and_assoc, Bool.and_assoc, hnot, Bool.and_false, Bool.and_false]

/-! ## Leaves -/

open Blocks

/-- The marker that a walk puts in front of what becomes of a child: none unless nothing is settled before it. -/
def front (e : Effect) (settled siblings : List Node) : List Node :=
  if settled.isEmpty then e.marker siblings else []

theorem front_eq_nil (e : Effect) (settled : List Node) {siblings : List Node}
    (h : startsWithComment siblings = false) : e.front settled siblings = [] := by
  rw [front, marker, h, Bool.and_false]
  split <;> rfl

/-- What a pass counts on a child and under it. -/
def counts (e : Effect) (place : Place) (n : Node) : Stats :=
  let inserted := (e.front place.before (e.onChild place.parent n)).length + e.markers n
  ⟨n.count + inserted, e.removals place.parent n, inserted⟩

/-- What becomes of a text, whatever its place. -/
theorem settles_text (bs : List Builtin) (place : Place) (text : String) (span : Option Span) (p : Progress σ) :
    Settles (RuleSet.ofBuiltins bs) place (.leaf .text text span) p
      ⟨(ofBuiltins bs).onLeaf place.parent .text text span, [],
        p.add ⟨1, (ofBuiltins bs).removals place.parent (.leaf .text text span), 0⟩⟩ := by
  have hv := Visits.of_leaf (RuleSet.ofBuiltins bs) place Edits.none .text text span p
  rw [onLeaf, removals]
  by_cases hblank : isBlankText place.parent .text text = true
  · have hcall : (RuleSet.ofBuiltins bs).call place Edits.none (.leaf .text text span) p.state =
        onBlankText (ofBuiltins bs) ⟨.leaf .text text span, rfl⟩ p.state :=
      runChain_text_of_losesText bs fun _ => hblank
    rw [hcall, onBlankText] at hv
    rw [hblank]
    cases he : (ofBuiltins bs).blankText with
    | kept | removed | marked =>
      rw [he] at hv
      exact hv.settles_alone rfl rfl
  · have hcall : (RuleSet.ofBuiltins bs).call place Edits.none (.leaf .text text span) p.state =
        ⟨⟨.leaf .text text span, rfl⟩, Edits.none, p.state⟩ :=
      runChain_text_of_not_losesText bs fun _ => by rwa [Bool.not_eq_true] at hblank
    rw [hcall] at hv
    rw [Bool.not_eq_true] at hblank
    rw [hblank]
    exact hv.settles_alone rfl rfl

/-- A marker is settled as it is. -/
theorem settles_marker (bs : List Builtin) (place : Place) (p : Progress σ) :
    Settles (RuleSet.ofBuiltins bs) place (Node.text Text.marker) p ⟨[Node.text Text.marker], [], p.add ⟨1, 0, 0⟩⟩ := by
  have hs := settles_text bs place Text.marker none p
  have hblank : isBlankText place.parent .text Text.marker = false := rfl
  rw [onLeaf, removals, hblank] at hs
  exact hs

/-- What becomes of a comment: a marker stands before it if nothing else does. -/
theorem settles_comment (bs : List Builtin) (place : Place) (text : String) (span : Option Span) (p : Progress σ) :
    Settles (RuleSet.ofBuiltins bs) place (.leaf .comment text span) p
      ⟨(ofBuiltins bs).front place.before [.leaf .comment text span] ++ [.leaf .comment text span], [],
        p.add ((ofBuiltins bs).counts place (.leaf .comment text span))⟩ := by
  have hv := Visits.of_leaf (RuleSet.ofBuiltins bs) place Edits.none .comment text span p
  have hcall : (RuleSet.ofBuiltins bs).call place Edits.none (.leaf .comment text span) p.state =
      ⟨⟨.leaf .comment text span, rfl⟩, (ofBuiltins bs).commentEdits place Edits.none, p.state⟩ :=
    runChain_comment bs rfl
  rw [hcall] at hv
  have hremovals : (ofBuiltins bs).removals place.parent (.leaf .comment text span) = 0 := rfl
  have hchild : (ofBuiltins bs).onChild place.parent (.leaf .comment text span) = [.leaf .comment text span] := rfl
  rw [counts, hremovals, hchild, front, marker, startsWithComment, Bool.and_true]
  by_cases hfirst : place.before.isEmpty = true ∧ (ofBuiltins bs).marksComments = true
  · obtain ⟨hbefore, hmarks⟩ := hfirst
    have hedits : (ofBuiltins bs).commentEdits place Edits.none = Edits.insertBefore (Node.text Text.marker) := by
      rw [commentEdits, hmarks, hbefore]
      rfl
    rw [hedits] at hv
    have hmarker := settles_marker bs ⟨place.parent, place.before, .leaf .comment text span :: place.after⟩
      ((p.visit.withState p.state).insert 1)
    have hq := Queues.cons hmarker Queues.nil
    rw [hbefore, hmarks]
    exact hv.settles hq
  · have hedits : (ofBuiltins bs).commentEdits place Edits.none = Edits.none := by
      rw [commentEdits, if_neg]
      intro h
      rw [Bool.and_eq_true, Bool.and_eq_true] at h
      exact hfirst ⟨h.1.2, h.1.1⟩
    have hnone : (if place.before.isEmpty then
        if (ofBuiltins bs).marksComments then [Node.text Text.marker] else [] else []) = [] := by
      split
      · next hbefore =>
        rw [if_neg]
        intro hmarks
        exact hfirst ⟨hbefore, hmarks⟩
      · rfl
    rw [hedits] at hv
    rw [hnone]
    exact hv.settles_alone rfl rfl

/-! ## The whole tree -/

/-- Only a comment gets a marker, so markers in front of two parts of a list are those in front of the whole. -/
theorem front_append (e : Effect) (settled ms ns : List Node) :
    e.front settled ms ++ ms ++ (e.front (settled ++ (e.front settled ms ++ ms)) ns ++ ns) =
      e.front settled (ms ++ ns) ++ (ms ++ ns) := by
  cases ms with
  | nil =>
    have hnil : e.front settled [] = [] := front_eq_nil e settled rfl
    rw [hnil, List.append_nil, List.append_nil, List.nil_append, List.nil_append]
  | cons m ms =>
    have hfirst : e.front settled (m :: ms ++ ns) = e.front settled (m :: ms) := by
      cases m with
      | leaf kind => cases kind <;> rfl
      | branch => rfl
    -- what becomes of the later nodes does not stand first any more
    have hrest : e.front (settled ++ (e.front settled (m :: ms) ++ m :: ms)) ns = [] := by
      rw [front, if_neg]
      simp
    rw [hfirst, hrest, List.nil_append, List.append_assoc]

/-- What a pass counts on the children of a container. -/
def countsAll (e : Effect) (parent : Parent) (settled ns : List Node) : Stats :=
  let inserted := (e.front settled (e.onChildren parent ns)).length + e.markersAll ns
  ⟨Node.countAll ns + inserted, e.removalsAll parent ns, inserted⟩

theorem counts_add_countsAll (e : Effect) (place : Place) (n : Node) (ns : List Node) :
    e.counts place n + e.countsAll place.parent
        (place.before ++ (e.front place.before (e.onChild place.parent n) ++ e.onChild place.parent n)) ns =
      e.countsAll place.parent place.before (n :: ns) := by
  have hlength := congrArg List.length (front_append e place.before (e.onChild place.parent n)
    (e.onChildren place.parent ns))
  simp only [List.length_append] at hlength
  simp only [counts, countsAll, Stats.mk_add_mk, onChildren, Node.countAll, removalsAll, markersAll, Stats.mk.injEq]
  refine ⟨?_, trivial, ?_⟩
  · omega
  · omega

/-- A branch is counted with its code if it is an insert, and with what a walk of its children counts. -/
theorem counts_branch (e : Effect) (place : Place) (head : Head) (children : List Node) (span : Option Span) :
    e.counts place (.branch head children span) =
      ⟨Node.ownCount head, 0, 0⟩ + e.countsAll head.parent [] children := by
  have hfront : e.front place.before (e.onChild place.parent (.branch head children span)) = [] :=
    front_eq_nil e _ rfl
  rw [counts, hfront, countsAll, Stats.mk_add_mk]
  simp only [Node.count, removals, markers, front, List.isEmpty_nil, if_true, List.length_nil, Stats.mk.injEq]
  refine ⟨?_, ?_, trivial⟩
  · omega
  · omega

/-- No built-in rule is called on a branch. -/
theorem call_branch (bs : List Builtin) (place : Place) (edits : Edits) (head : Head) (children : List Node)
    (span : Option Span) (s : σ) : (RuleSet.ofBuiltins bs).call place edits (.branch head children span) s =
      ⟨⟨.branch head children span, rfl⟩, edits, s⟩ := by
  apply RuleSet.call_of_chain_eq_nil
  apply RuleSet.chain_ofBuiltins_eq_nil
  · cases head <;> exact Kind.noConfusion
  · cases head <;> exact Kind.noConfusion

/-- A branch of any kind keeps its head and its span, and is counted with its code if it is an insert. -/
theorem visits_branch (bs : List Builtin) (place : Place) {head : Head} {children : List Node} (span : Option Span)
    (p : Progress σ) {nodes : List Node} {c : Stats}
    (hw : ∀ q : Progress σ, Sweeps (RuleSet.ofBuiltins bs) head.parent [] children q ⟨nodes, q.add c⟩) :
    Visits (RuleSet.ofBuiltins bs) place Edits.none (.branch head children span) p
      ⟨.branch head nodes span, Edits.none, p.add (⟨Node.ownCount head, 0, 0⟩ + c)⟩ :=
  Visits.branch_alone rfl (call_branch bs place Edits.none head children span)
    (fun codeSpan => call_branch bs place Edits.none .embeddedCode children codeSpan) hw p

mutual
/-- A child is settled as the effect says, with a marker in front of it if nothing is settled before it. -/
theorem settles_child (bs : List Builtin) : (n : Node) → ∀ (place : Place) (p : Progress σ),
    Settles (RuleSet.ofBuiltins bs) place n p
      ⟨(ofBuiltins bs).front place.before ((ofBuiltins bs).onChild place.parent n) ++
        (ofBuiltins bs).onChild place.parent n, [], p.add ((ofBuiltins bs).counts place n)⟩
  | .leaf .text text span, place, p => by
    have hfront : (ofBuiltins bs).front place.before ((ofBuiltins bs).onLeaf place.parent .text text span) = [] := by
      apply front_eq_nil
      unfold onLeaf
      split
      · split <;> rfl
      · rfl
    rw [counts, onChild, hfront]
    exact settles_text bs place text span p
  | .leaf .codeText text span, place, p => by
    have hv := Visits.of_leaf (RuleSet.ofBuiltins bs) place Edits.none .codeText text span p
    have hcall : (RuleSet.ofBuiltins bs).call place Edits.none (.leaf .codeText text span) p.state =
        ⟨⟨.leaf .codeText text span, rfl⟩, Edits.none, p.state⟩ :=
      RuleSet.call_of_chain_eq_nil (RuleSet.chain_ofBuiltins_eq_nil bs Kind.noConfusion Kind.noConfusion)
    have hfront : (ofBuiltins bs).front place.before [.leaf .codeText text span] = [] :=
      front_eq_nil (ofBuiltins bs) _ rfl
    have hs := hv.settles_alone (by rw [hcall]; rfl) (by rw [hcall]; rfl)
    rw [hcall] at hs
    have hchild : (ofBuiltins bs).onChild place.parent (.leaf .codeText text span) = [.leaf .codeText text span] := rfl
    rw [counts, hchild, hfront]
    exact hs
  | .leaf .comment text span, place, p => settles_comment bs place text span p
  | .branch head children span, place, p => by
    have hv := visits_branch bs place span p (sweeps_children bs children head.parent [])
    have hs := hv.settles_alone rfl rfl
    have hfront : (ofBuiltins bs).front place.before
        ((ofBuiltins bs).onChild place.parent (.branch head children span)) = [] :=
      front_eq_nil (ofBuiltins bs) _ rfl
    rw [counts_branch, hfront]
    exact hs

/-- A walk leaves what the effect says, behind what is settled already. -/
theorem sweeps_children (bs : List Builtin) : (ns : List Node) → ∀ (parent : Parent) (settled : List Node)
    (p : Progress σ), Sweeps (RuleSet.ofBuiltins bs) parent settled ns p
      ⟨settled ++ ((ofBuiltins bs).front settled ((ofBuiltins bs).onChildren parent ns) ++
        (ofBuiltins bs).onChildren parent ns), p.add ((ofBuiltins bs).countsAll parent settled ns)⟩
  | [], parent, settled, p => by
    have hnil : (ofBuiltins bs).front settled [] = [] := front_eq_nil (ofBuiltins bs) _ rfl
    rw [countsAll, onChildren, hnil, List.append_nil, List.append_nil]
    exact Sweeps.nil
  | n :: rest, parent, settled, p => by
    have hn := settles_child bs n ⟨parent, settled, rest⟩ p
    have hrest := sweeps_children bs rest parent (settled ++ ((ofBuiltins bs).front settled
      ((ofBuiltins bs).onChild parent n) ++ (ofBuiltins bs).onChild parent n))
      (p.add ((ofBuiltins bs).counts ⟨parent, settled, rest⟩ n))
    have hw := Sweeps.cons hn hrest
    rw [Progress.add_add, counts_add_countsAll (ofBuiltins bs) ⟨parent, settled, rest⟩, List.append_assoc,
      front_append] at hw
    exact hw
end

/-- A pass with built-in rules ends with the template that their effect says, and counts what it counts on the root. -/
theorem exists_run?_counts (bs : List Builtin) (t : Template) (s : σ) :
    ∃ limit, (RuleSet.ofBuiltins bs).run? limit t s =
      some ⟨(ofBuiltins bs).onTemplate t, (ofBuiltins bs).counts Place.root t.root, s⟩ := by
  rw [RuleSet.exists_run?_iff]
  have hv := visits_branch bs Place.root t.span (⟨Stats.zero, s⟩ : Progress σ)
    (sweeps_children bs t.segments Head.topLevel.parent [])
  refine ⟨_, hv, ?_⟩
  rw [Progress.add, Stats.zero_add, ← counts_branch (ofBuiltins bs) Place.root, ← Template.root]
  rfl

end Effect

/-- A pass with built-in rules ends on every template, and leaves the template rewritten as their effect says. Each node
is visited once, those put in as well. -/
theorem RuleSet.exists_run?_ofBuiltins (bs : List Builtin) (t : Template) (s : σ) :
    ∃ limit, (RuleSet.ofBuiltins bs).run? limit t s = some
      { tree := (Effect.ofBuiltins bs).onTemplate t
        stats :=
          { visited := t.count + (Effect.ofBuiltins bs).markers t.root
            pruned := (Effect.ofBuiltins bs).removals .root t.root
            inserted := (Effect.ofBuiltins bs).markers t.root }
        state := s } := by
  rw [RuleSet.exists_run?_iff]
  have hv := Effect.visits_branch bs Place.root t.span (⟨Stats.zero, s⟩ : Progress σ)
    (Effect.sweeps_children bs t.segments Head.topLevel.parent [])
  have hcounts : (Effect.ofBuiltins bs).counts Place.root t.root =
      ⟨t.count + (Effect.ofBuiltins bs).markers t.root, (Effect.ofBuiltins bs).removals .root t.root,
        (Effect.ofBuiltins bs).markers t.root⟩ := by
    have hfront : (Effect.ofBuiltins bs).front Place.root.before
        ((Effect.ofBuiltins bs).onChild Place.root.parent t.root) = [] :=
      Effect.front_eq_nil (Effect.ofBuiltins bs) [] rfl
    rw [Effect.counts, hfront, List.length_nil, Nat.zero_add]
    rfl
  refine ⟨_, hv, ?_⟩
  rw [Progress.add, Stats.zero_add, ← Effect.counts_branch (Effect.ofBuiltins bs) Place.root, ← Template.root, hcounts]
  rfl

end TemplatePrep

import TemplatePrep.Proofs.Pass.Completion
import TemplatePrep.Rule.Replacement

/-!
# Replacing on either side

A pass comes to an image on one of two ways. Put before the replaced node it is settled at once, out of the queue of the
node, and the walk goes on behind it. Put after the replaced node it is what the walk comes to next. As nothing in an
image is replaced again, both ways leave the image as it is and count the same, so that one induction over the tree
serves both sides. It is used twice: first on an image, in which no replacement happens, and then on a tree whose images
are known to settle.
-/

namespace TemplatePrep

variable {σ : Type}

namespace Replacement

/-! ## What is counted -/

/-- What a pass counts on what has become of a node: a replaced node is visited, and so is all that is left. -/
def counts (x : Replacement) (n : Node) : Stats := ⟨(x.onNode n).count + x.replaced n, x.replaced n, x.replaced n⟩

/-- What a pass counts on several siblings. -/
def countsAll (x : Replacement) (ns : List Node) : Stats :=
  ⟨Node.countAll (x.onNodes ns) + x.replacedAll ns, x.replacedAll ns, x.replacedAll ns⟩

variable {x : Replacement}

theorem counts_of_image {n m : Node} (h : x.image? n = some m) : x.counts n = ⟨m.count + 1, 1, 1⟩ := by
  rw [counts, onNode_of_image h, replaced_of_image h]

theorem counts_leaf {kind : LeafKind} {text : String} {span : Option Span}
    (h : x.image? (.leaf kind text span) = none) : x.counts (.leaf kind text span) = ⟨1, 0, 0⟩ := by
  rw [counts, onNode_leaf h, replaced_leaf h, Node.count]

theorem counts_branch {head : Head} {children : List Node} {span : Option Span}
    (h : x.image? (.branch head children span) = none) :
    x.counts (.branch head children span) = ⟨Node.ownCount head, 0, 0⟩ + x.countsAll children := by
  rw [counts, onNode_branch h, replaced_branch h, countsAll, Stats.mk_add_mk, Node.count, Nat.zero_add, Nat.add_assoc]

theorem countsAll_cons (x : Replacement) (n : Node) (rest : List Node) :
    x.countsAll (n :: rest) = x.counts n + x.countsAll rest := by
  rw [countsAll, counts, countsAll, Stats.mk_add_mk, onNodes, replacedAll, Node.countAll, Stats.mk.injEq]
  exact ⟨Nat.add_add_add_comm _ _ _ _, rfl, rfl⟩

/-- The rule does nothing on a node that is not replaced. -/
theorem call_of_none {n : Node} (h : x.image? n = none) (side : Side) (place : Place) (s : σ) :
    (x.rules side).call place Edits.none n s = ⟨⟨n, rfl⟩, Edits.none, s⟩ := by
  rw [call_rules, requests_of_none side h]

/-! ## Replaced nodes -/

open Blocks

/-- The images of the given nodes are settled as they are, wherever a pass comes to them. -/
def ImagesSettle (x : Replacement) (rules : RuleSet σ) (ns : List Node) : Prop :=
  ∀ n ∈ ns, ∀ m, x.image? n = some m → ∀ (place : Place) (p : Progress σ),
    Settles rules place m p ⟨[m], [], p.add ⟨m.count, 0, 0⟩⟩

/-- The visit of a replaced node is over with its chain, and its image is left to be put in. -/
theorem visits_of_image {n m : Node} (h : x.image? n = some m) (side : Side) (place : Place) (p : Progress σ) :
    Visits (x.rules side) place Edits.none n p ⟨n, side.insert m ++ Edits.prune, p.add ⟨1, 0, 0⟩⟩ := by
  have hcall := x.call_rules side place n p.state
  rw [requests_of_image side h] at hcall
  have hpruned : (side.insert m ++ Edits.prune).pruned = true := by rw [Edits.pruned_append]; exact Bool.or_true _
  have hv : Visits (x.rules side) place Edits.none n p _ := Visits.pruned (by rw [hcall]; exact hpruned)
  rw [hcall] at hv
  exact hv

/-- The walk of siblings with a replaced one in front goes on behind its image, on whichever side it was put in. -/
theorem sweeps_of_image {n m : Node} (h : x.image? n = some m) {side : Side}
    (hm : ∀ (place : Place) (p : Progress σ),
      Settles (x.rules side) place m p ⟨[m], [], p.add ⟨m.count, 0, 0⟩⟩)
    {parent : Parent} {settled rest : List Node} {p : Progress σ} {w : Swept σ}
    (hw : Sweeps (x.rules side) parent (settled ++ [m]) rest (p.add ⟨m.count + 1, 1, 1⟩) w) :
    Sweeps (x.rules side) parent settled (n :: rest) p w := by
  have hv := visits_of_image h side ⟨parent, settled, rest⟩ p
  cases side with
  | before =>
    -- the image is the queue of the node
    have hq := Queues.cons (hm ⟨parent, settled, n :: rest⟩ ((p.add ⟨1, 0, 0⟩).insert 1)) Queues.nil
    have hs : Settles (x.rules .before) ⟨parent, settled, rest⟩ n p
        ⟨[m], [], ((((p.add ⟨1, 0, 0⟩).insert 1).add ⟨m.count, 0, 0⟩).insert 0).prune true⟩ := hv.settles hq
    simp only [Progress.insert_eq_add, Progress.prune_eq_add, Progress.add_add, Stats.mk_add_mk] at hs
    refine Sweeps.cons hs ?_
    rw [Nat.add_comm m.count] at hw
    exact hw
  | after =>
    -- the image is what the walk comes to next
    have hs : Settles (x.rules .after) ⟨parent, settled, rest⟩ n p
        ⟨[], [m], ((p.add ⟨1, 0, 0⟩).insert 1).prune true⟩ := hv.settles Queues.nil
    simp only [Progress.insert_eq_add, Progress.prune_eq_add, Progress.add_add, Stats.mk_add_mk] at hs
    refine Sweeps.cons hs (Sweeps.cons (hm _ _) ?_)
    rw [Progress.add_add, Stats.mk_add_mk, List.append_nil]
    rw [Nat.add_comm m.count] at hw
    exact hw

/-! ## The whole tree -/

mutual
/-- The visit of a node that is not replaced leaves it with its children replaced. -/
theorem visits_onNode {side : Side} : (n : Node) → x.image? n = none →
    x.ImagesSettle (x.rules side : RuleSet σ) n.subtree → ∀ (place : Place) (p : Progress σ),
    Visits (x.rules side) place Edits.none n p ⟨x.onNode n, Edits.none, p.add (x.counts n)⟩
  | .leaf kind text span, h, _, place, p => by
    have hv := Visits.of_leaf (x.rules side) place Edits.none kind text span p
    rw [call_of_none h] at hv
    rw [onNode_leaf h, counts_leaf h]
    exact hv
  | .branch head children span, h, himages, place, p => by
    rw [Node.subtree_eq_cons] at himages
    have hw (q : Progress σ) := sweeps_onNodes children
      (fun m hm => himages m (List.mem_cons_of_mem _ hm)) head.parent [] q
    -- the code of an insert is of a kind that is never replaced
    have hcode (codeSpan : Option Span) : x.image? (.branch .embeddedCode children codeSpan) = none :=
      image?_of_kind_ne (Ne.symm x.kind_ne_embeddedCode)
    rw [onNode_branch h, counts_branch h]
    exact Visits.branch_alone rfl (call_of_none h side place) (fun codeSpan => call_of_none (hcode codeSpan) side place)
      hw p

/-- A walk leaves the image of each sibling that is replaced, and the others with their children replaced. -/
theorem sweeps_onNodes {side : Side} : (ns : List Node) →
    x.ImagesSettle (x.rules side : RuleSet σ) (ns.flatMap Node.subtree) →
    ∀ (parent : Parent) (settled : List Node) (p : Progress σ),
    Sweeps (x.rules side) parent settled ns p ⟨settled ++ x.onNodes ns, p.add (x.countsAll ns)⟩
  | [], _, parent, settled, p => by
    rw [onNodes, List.append_nil]
    exact Sweeps.nil
  | n :: rest, himages, parent, settled, p => by
    rw [List.flatMap_cons] at himages
    have hrest := sweeps_onNodes rest (fun m hm => himages m (List.mem_append_right _ hm)) parent
      (settled ++ [x.onNode n]) (p.add (x.counts n))
    rw [Progress.add_add, ← countsAll_cons, List.append_assoc] at hrest
    rw [onNodes]
    cases h : x.image? n with
    | none =>
      have hv := visits_onNode n h (fun m hm => himages m (List.mem_append_left _ hm)) ⟨parent, settled, rest⟩ p
      exact Sweeps.cons (hv.settles_alone rfl rfl) hrest
    | some m =>
      rw [onNode_of_image h, counts_of_image h] at hrest
      rw [onNode_of_image h]
      exact sweeps_of_image h (himages n (List.mem_append_left _ n.mem_subtree) m h) hrest
end

/-- Nothing is replaced in an image, so it is settled as it is. -/
theorem settles_image {side : Side} {n m : Node} (h : x.image? n = some m) (place : Place) (p : Progress σ) :
    Settles (x.rules side) place m p ⟨[m], [], p.add ⟨m.count, 0, 0⟩⟩ := by
  have hspent := image?_of_mem_image h
  obtain ⟨hsame, hnone⟩ := onNode_eq_self m hspent
  have himages : x.ImagesSettle (x.rules side : RuleSet σ) m.subtree := by
    intro d hd i hi
    rw [hspent d hd] at hi
    cases hi
  have hv := visits_onNode m (hspent m m.mem_subtree) himages place p
  rw [counts, hsame, hnone] at hv
  exact hv.settles_alone rfl rfl

end Replacement

/-- A pass that replaces nodes ends on every template, on whichever side it puts the images: with the template in which
every node up for replacement that stands in no other one has given way to its image, and everything else is kept. It
counts the same on both sides. Each replacement is a removal and an insertion, and the visits are those of the replaced
nodes and of all that the pass leaves. -/
theorem Replacement.exists_run?_onTemplate (x : Replacement) (t : Template) (s : σ) :
    ∃ small, ∀ limit, small ≤ limit → ∀ side, (x.rules side).run? limit t s = some
      { tree := x.onTemplate t
        stats :=
          { visited := (x.onTemplate t).count + x.replaced t.root
            pruned := x.replaced t.root
            inserted := x.replaced t.root }
        state := s } := by
  have hroot : x.image? t.root = none := image?_of_kind_ne (Ne.symm x.kind_ne_topLevel)
  have hrun (side : Side) : ∃ limit, (x.rules side).run? limit t s =
      some ⟨x.onTemplate t, x.counts t.root, s⟩ := by
    have himages : x.ImagesSettle (x.rules side : RuleSet σ) t.root.subtree :=
      fun _ _ _ h place p => settles_image h place p
    have hv := visits_onNode t.root hroot himages Place.root ⟨Stats.zero, s⟩
    refine RuleSet.exists_run?_iff.mpr ⟨_, hv, ?_⟩
    rw [Template.root, onNode_branch hroot, Progress.add, Stats.zero_add]
    rfl
  obtain ⟨forBefore, hbefore⟩ := hrun .before
  obtain ⟨forAfter, hafter⟩ := hrun .after
  have hcounts : x.counts t.root =
      ⟨(x.onTemplate t).count + x.replaced t.root, x.replaced t.root, x.replaced t.root⟩ := by
    rw [counts, Template.root, onNode_branch hroot]
    rfl
  rw [hcounts] at hbefore hafter
  refine ⟨max forBefore forAfter, fun limit hle side => ?_⟩
  cases side with
  | before => exact RuleSet.run?_mono (Nat.le_trans (Nat.le_max_left _ _) hle) hbefore
  | after => exact RuleSet.run?_mono (Nat.le_trans (Nat.le_max_right _ _) hle) hafter

/-- Replaces every insert by an empty slot. -/
def slots : Replacement where
  kind := .insert
  applies _ := true
  image _ := .element "slot" []
  kind_ne_topLevel := Kind.noConfusion
  kind_ne_embeddedCode := Kind.noConfusion
  image_spent := by
    intro _ _ d hd h
    obtain rfl : d = .element "slot" [] := List.mem_singleton.mp hd
    cases h

/-- Inserts side by side and in one another, at the root and in an element. -/
def inserts : Template :=
  ⟨[.insert [.insert [], .text "a"], .insert [], .element "p" [.insert [.element "b" [.insert []]], .insert [],
    .text "c", .insert []]], none⟩

/-- Five inserts that stand in no other one are replaced, and of what they hold nothing is left. -/
theorem Replacement.exists_run?_onTemplate_slots :
    ∃ small, ∀ limit, small ≤ limit → ∀ side, (slots.rules side).run? limit inserts () = some
      ⟨⟨[.element "slot" [], .element "slot" [], .element "p" [.element "slot" [], .element "slot" [], .text "c",
        .element "slot" []]], none⟩, ⟨13, 5, 5⟩, ()⟩ :=
  slots.exists_run?_onTemplate inserts ()

end TemplatePrep

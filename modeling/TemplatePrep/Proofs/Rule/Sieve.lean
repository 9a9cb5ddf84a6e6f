import TemplatePrep.Proofs.Pass.Completion
import TemplatePrep.Rule.Sieve

/-!
# A pass that only removes is a sieve

Rules that do nothing but remove, and decide by the node and its container, put a template through their sieve. A
rejected child is over with its own chain or with that of its code, and nothing in it is visited. A child that stays is
not changed by its chains, so its children are walked as they stand in the template.
-/

namespace TemplatePrep

variable {σ : Type}

namespace Sieve

/-- The rules of a sieve leave a node as it is, and remove it if the sieve catches it. -/
theorem call_rules (x : Sieve) (place : Place) (n : Node) (s : σ) :
    x.rules.call place Edits.none n s =
      ⟨⟨n, rfl⟩, if x.catches place.parent n then Edits.prune else Edits.none, s⟩ := by
  have hchain : (x.rules : RuleSet σ).chain n.kind =
      ((x.tests n.kind).map fun test (v : View) n => test v.parent n).map Rule.pruneIf := by
    rw [List.map_map]
    rfl
  rw [RuleSet.call, hchain, runChain_map_pruneIf rfl, List.any_map]
  rfl

/-- A rejected node that is not caught itself is an insert whose code is caught. -/
theorem exists_eq_insert_of_rejects {x : Sieve} {parent : Parent} {n : Node} (hrejects : x.rejects parent n = true)
    (hcatches : x.catches parent n = false) :
    ∃ codeSpan segments span, n = .branch (.insert codeSpan) segments span ∧
      x.catches parent (.branch .embeddedCode segments codeSpan) = true := by
  unfold rejects at hrejects
  split at hrejects
  · next codeSpan segments span =>
    rw [hcatches, Bool.false_or] at hrejects
    exact ⟨codeSpan, segments, span, rfl, hrejects⟩
  · exact absurd (hcatches.symm.trans hrejects) Bool.false_ne_true

theorem catches_of_not_rejects {x : Sieve} {parent : Parent} {n : Node} (h : x.rejects parent n = false) :
    x.catches parent n = false := by
  unfold rejects at h
  split at h
  · exact (Bool.or_eq_false_iff.mp h).1
  · exact h

end Sieve

namespace Blocks

variable {x : Sieve} {place : Place}

/-- The visit of a node that is caught is over with its chain. -/
theorem Visits.of_catches {n : Node} (h : x.catches place.parent n = true) (p : Progress σ) :
    Visits x.rules place Edits.none n p ⟨n, Edits.prune, p.add ⟨1, 0, 0⟩⟩ := by
  have hcall := x.call_rules place n p.state
  rw [h, if_pos rfl] at hcall
  have hv : Visits x.rules place Edits.none n p _ := Visits.pruned (by rw [hcall]; rfl)
  rw [hcall] at hv
  exact hv

/-- Of a rejected child nothing is left. -/
theorem exists_settles_of_rejects {n : Node} (h : x.rejects place.parent n = true) (p : Progress σ) :
    ∃ visited, Settles x.rules place n p ⟨[], [], p.add ⟨visited, 1, 0⟩⟩ := by
  by_cases hown : x.catches place.parent n = true
  · exact ⟨1, (Visits.of_catches hown p).settles_alone rfl rfl⟩
  · rw [Bool.not_eq_true] at hown
    obtain ⟨codeSpan, segments, span, rfl, hcode⟩ := Sieve.exists_eq_insert_of_rejects h hown
    have hcall := x.call_rules place (.branch (.insert codeSpan) segments span) p.state
    rw [hown, if_neg Bool.false_ne_true] at hcall
    have hv : Visits x.rules place Edits.none (.branch (.insert codeSpan) segments span) p _ :=
      Visits.insert (by rw [hcall]; rfl) (by rw [hcall]) (by rw [hcall]; exact Visits.of_catches hcode _)
    exact ⟨2, hv.settles_alone rfl rfl⟩

/-- The visit of a branch that is no insert and is not caught, from what the walk of its children ends with. -/
theorem exists_visits_branch_of_sieve {head : Head} (hhead : head.kind ≠ .insert) {children nodes : List Node}
    {removed : Nat}
    (hwalk : ∀ p : Progress σ, ∃ visited,
      Sweeps x.rules head.parent [] children p ⟨nodes, p.add ⟨visited, removed, 0⟩⟩)
    {span : Option Span} (h : x.catches place.parent (.branch head children span) = false) (p : Progress σ) :
    ∃ visited, Visits x.rules place Edits.none (.branch head children span) p
      ⟨.branch head nodes span, Edits.none, p.add ⟨visited, removed, 0⟩⟩ := by
  have hcall := x.call_rules place (.branch head children span) p.state
  rw [h, if_neg Bool.false_ne_true] at hcall
  obtain ⟨visited, hw⟩ := hwalk (p.add ⟨1, 0, 0⟩)
  have hv : Visits x.rules place Edits.none (.branch head children span) p _ :=
    Visits.branch (by rw [hcall]; rfl) (by rw [hcall]) hhead (by rw [hcall]; exact hw)
  rw [hcall, Progress.add_add, Stats.mk_add_mk, Nat.zero_add] at hv
  exact ⟨1 + visited, hv⟩

mutual
/-- The visit of a node that stays leaves it sieved. -/
theorem exists_visits_of_sieve (x : Sieve) : (n : Node) → ∀ {place : Place}, x.rejects place.parent n = false →
    ∀ p : Progress σ, ∃ visited, Visits x.rules place Edits.none n p
      ⟨x.onNode n, Edits.none, p.add ⟨visited, x.removals n, 0⟩⟩
  | .leaf kind text span, place, h, p => by
    have hcall := x.call_rules place (.leaf kind text span) p.state
    rw [Sieve.catches_of_not_rejects h, if_neg Bool.false_ne_true] at hcall
    have hv := Visits.of_leaf x.rules place Edits.none kind text span p
    rw [hcall] at hv
    rw [Sieve.onNode, Sieve.removals]
    exact ⟨1, hv⟩
  | .branch head children span, place, h, p => by
    have hwalk (p : Progress σ) := exists_sweeps_of_sieve x children head.parent [] p
    have hown := Sieve.catches_of_not_rejects h
    rw [Sieve.onNode, Sieve.removals]
    by_cases hhead : head.kind = .insert
    · obtain ⟨codeSpan, rfl⟩ := Head.exists_eq_insert hhead
      have hcode : x.catches place.parent (.branch .embeddedCode children codeSpan) = false := by
        rw [Sieve.rejects, Bool.or_eq_false_iff] at h
        exact h.2
      have hcall := x.call_rules place (.branch (.insert codeSpan) children span) p.state
      rw [hown, if_neg Bool.false_ne_true] at hcall
      have hblock : Head.embeddedCode.kind ≠ .insert := by simp [Head.kind]
      obtain ⟨visited, hv⟩ := exists_visits_branch_of_sieve hblock hwalk hcode (p.add ⟨1, 0, 0⟩)
      have hinsert : Visits x.rules place Edits.none (.branch (.insert codeSpan) children span) p _ :=
        Visits.insert (by rw [hcall]; rfl) (by rw [hcall]) (by rw [hcall]; exact hv)
      rw [Progress.add_add, Stats.mk_add_mk, Nat.zero_add] at hinsert
      exact ⟨1 + visited, hinsert⟩
    · exact exists_visits_branch_of_sieve hhead hwalk hown p

/-- The walk of some siblings leaves them sieved. -/
theorem exists_sweeps_of_sieve (x : Sieve) : (ns : List Node) → ∀ (parent : Parent) (settled : List Node)
    (p : Progress σ), ∃ visited, Sweeps x.rules parent settled ns p
      ⟨settled ++ x.sift parent ns, p.add ⟨visited, x.removalsAll parent ns, 0⟩⟩
  | [], parent, settled, p => by
    rw [Sieve.sift, Sieve.removalsAll, List.append_nil]
    exact ⟨0, Sweeps.nil⟩
  | n :: rest, parent, settled, p => by
    rw [Sieve.sift, Sieve.removalsAll]
    by_cases hn : x.rejects parent n = true
    · rw [if_pos hn, if_pos hn]
      obtain ⟨visited, hs⟩ : ∃ visited, Settles x.rules ⟨parent, settled, rest⟩ n p ⟨[], [], p.add ⟨visited, 1, 0⟩⟩ :=
        exists_settles_of_rejects hn p
      obtain ⟨more, hw⟩ := exists_sweeps_of_sieve x rest parent settled (p.add ⟨visited, 1, 0⟩)
      rw [Progress.add_add, Stats.mk_add_mk] at hw
      refine ⟨visited + more, Sweeps.cons hs ?_⟩
      rw [List.append_nil]
      exact hw
    · rw [if_neg hn, if_neg hn]
      rw [Bool.not_eq_true] at hn
      obtain ⟨visited, hv⟩ : ∃ visited, Visits x.rules ⟨parent, settled, rest⟩ Edits.none n p
          ⟨x.onNode n, Edits.none, p.add ⟨visited, x.removals n, 0⟩⟩ :=
        exists_visits_of_sieve x n hn p
      obtain ⟨more, hw⟩ := exists_sweeps_of_sieve x rest parent (settled ++ [x.onNode n])
        (p.add ⟨visited, x.removals n, 0⟩)
      rw [Progress.add_add, Stats.mk_add_mk, List.append_assoc] at hw
      exact ⟨visited + more, Sweeps.cons (hv.settles_alone rfl rfl) hw⟩
end

end Blocks

/-- A pass that only removes is a sieve, if the root is not caught. It ends for every template and leaves of each list of
children those that are not rejected, sieved in their turn; so of M children, N of them rejected, M - N are left. What it
has removed are the rejected nodes above which everything stays. -/
theorem Sieve.exists_run?_sift (x : Sieve) {t : Template} (hroot : x.catches .root t.root = false) (s : σ) :
    (∃ limit visited, x.rules.run? limit t s = some
      { tree := ⟨x.sift .topLevel t.segments, t.span⟩
        stats := { visited := visited, pruned := t.lineages.countP x.removes, inserted := 0 }
        state := s }) ∧
    ∀ parent children,
      x.sift parent children = (children.filter fun n => !x.rejects parent n).map x.onNode ∧
        (x.sift parent children).length = children.length - children.countP (x.rejects parent) := by
  constructor
  · have hstays : x.rejects Place.root.parent t.root = false := hroot
    obtain ⟨visited, hv⟩ := Blocks.exists_visits_of_sieve x t.root hstays ⟨Stats.zero, s⟩
    obtain ⟨limit, hrun⟩ := RuleSet.exists_run?_iff.mpr ⟨_, hv, rfl⟩
    refine ⟨limit, visited, hrun.trans ?_⟩
    rw [Progress.add, Stats.zero_add, x.countP_lineages_template]
    rfl
  · intro parent children
    exact ⟨x.sift_eq_map_filter parent children, x.length_sift parent children⟩

/-- Removes blank text from lists, inserts whose code is empty, and top-level code anywhere but at the root. -/
def tidying : Sieve where
  tests
    | .text => [fun parent n => parent == .element "ul" && n.val.label? == some " "]
    | .embeddedCode => [fun _ n => n.val.children.isEmpty]
    | .topLevel => [fun parent _ => parent != .root]
    | _ => []

/-- A list with three children to be removed, two of them side by side, and top-level code that is out of place. -/
def untidy : Template :=
  ⟨[.element "ul" [.text " ", .text " ", .element "li" [.text " "], .insert [], .comment "a"],
    .topLevel [.element "ul" [.text " "]]], none⟩

/-- Two of the five children of the list are left. The list inside the removed top-level code is removed with it and not
counted, although it holds a blank text. -/
theorem Sieve.exists_run?_sift_tidying :
    tidying.catches .root untidy.root = false ∧
    (∃ limit visited, tidying.rules.run? limit untidy () =
      some ⟨⟨[.element "ul" [.element "li" [.text " "], .comment "a"]], none⟩, ⟨visited, 4, 0⟩, ()⟩) := by
  have hroot : tidying.catches .root untidy.root = false := rfl
  exact ⟨hroot, (tidying.exists_run?_sift hroot ()).1⟩

end TemplatePrep

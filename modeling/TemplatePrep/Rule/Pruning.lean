import TemplatePrep.Rule.Attachment

/-!
# Rules that only remove

The simplest rules look at their node and its place, say whether the node is to be removed, and do nothing else. What
such a rule does is its test. A chain of them removes the node if one of the tests holds, whichever comes first.
-/

namespace TemplatePrep

variable {σ : Type}

/-- The rule that removes its node where a test holds, and does nothing else. -/
def Rule.pruneIf {k : Kind} (test : View → NodeOf k → Bool) : Rule σ k := fun v n s =>
  ⟨n, if test v n then Edits.prune else Edits.none, s⟩

section Chain

variable {k : Kind} {place : Place} {edits : Edits}

/-- A chain is over with such a rule if the test holds, and passes it by if not. -/
theorem runChain_pruneIf_cons (hp : edits.pruned = false) (test : View → NodeOf k → Bool) (chain : List (Rule σ k))
    (n : NodeOf k) (s : σ) :
    runChain place (Rule.pruneIf test :: chain) n edits s =
      if test ⟨place, edits.before.length⟩ n then ⟨n, edits ++ Edits.prune, s⟩ else runChain place chain n edits s := by
  rw [runChain, Rule.pruneIf]
  dsimp only
  by_cases htest : test ⟨place, edits.before.length⟩ n = true
  · have hpruned : (edits ++ Edits.prune).pruned = true := by rw [Edits.pruned_append, Edits.prune, Bool.or_true]
    rw [if_pos htest, if_pos htest, if_pos hpruned]
  · rw [if_neg htest, if_neg htest, Edits.append_none, if_neg (by simp [hp])]

/-- A chain of such rules removes the node if some test holds. -/
theorem runChain_map_pruneIf (hp : edits.pruned = false) (tests : List (View → NodeOf k → Bool)) (n : NodeOf k)
    (s : σ) :
    runChain place (tests.map Rule.pruneIf) n edits s =
      ⟨n, if tests.any (fun test => test ⟨place, edits.before.length⟩ n) then edits ++ Edits.prune else edits, s⟩ := by
  induction tests with
  | nil => rfl
  | cons test tests ih =>
    rw [List.map_cons, runChain_pruneIf_cons hp, List.any_cons, ih]
    by_cases htest : test ⟨place, edits.before.length⟩ n = true
    · rw [if_pos htest, htest, Bool.true_or, if_pos rfl]
    · rw [if_neg htest, Bool.eq_false_iff.mpr htest, Bool.false_or]

end Chain

/-- A test for removal, with the kind of nodes that it is made on. It sees what a rule sees. -/
structure Test where
  kind : Kind
  holds : View → NodeOf kind → Bool

/-- The rule that removes nodes by a test, attached to the kind of the test. -/
def Test.attachment (x : Test) : Attachment σ := ⟨x.kind, Rule.pruneIf x.holds⟩

/-- What a test says about the nodes of a kind, if it is made on them. -/
def Test.holdsFor? (k : Kind) (x : Test) : Option (View → NodeOf k → Bool) :=
  if h : x.kind = k then some (h ▸ x.holds) else none

/-- Whether a test is made on a node and holds of it. -/
def Test.rejects (v : View) (n : Node) (x : Test) : Bool :=
  (x.holdsFor? n.kind).any fun holds => holds v (NodeOf.self n)

/-- The rule set that removes nodes by some tests, attached in order. -/
def RuleSet.ofTests (xs : List Test) : RuleSet σ := ofAttachments (xs.map Test.attachment)

/-- A kind is left with the rules of the tests that are made on it, the last first. -/
theorem RuleSet.chain_ofTests (xs : List Test) (k : Kind) :
    (ofTests xs : RuleSet σ).chain k = (xs.reverse.filterMap (Test.holdsFor? k)).map Rule.pruneIf := by
  have hrule : (fun x : Test => Attachment.ruleFor? k (x.attachment : Attachment σ)) =
      fun x => (x.holdsFor? k).map Rule.pruneIf := by
    funext ⟨j, holds⟩
    rw [Test.attachment, Test.holdsFor?]
    by_cases hj : j = k
    · subst hj
      rw [Attachment.ruleFor?_self, dif_pos rfl]
      rfl
    · rw [Attachment.ruleFor?_of_ne _ hj, dif_neg hj]
      rfl
  rw [ofTests, chain_ofAttachments, rulesFor, List.filterMap_map, List.filterMap_reverse, List.map_reverse,
    List.map_filterMap]
  exact congrArg (fun f => (xs.filterMap f).reverse) hrule

/-- Such rules remove a node if one of the tests made on it holds. -/
theorem RuleSet.call_ofTests (xs : List Test) (place : Place) {edits : Edits} (hp : edits.pruned = false) (n : Node)
    (s : σ) :
    (ofTests xs).call place edits n s =
      ⟨⟨n, rfl⟩, if xs.any (Test.rejects ⟨place, edits.before.length⟩ n) then edits ++ Edits.prune else edits, s⟩ := by
  have hany : (xs.reverse.filterMap (Test.holdsFor? n.kind)).any
      (fun holds => holds ⟨place, edits.before.length⟩ (NodeOf.self n)) =
      xs.any (Test.rejects ⟨place, edits.before.length⟩ n) := by
    rw [List.any_filterMap, List.any_reverse]
    rfl
  rw [call, chain_ofTests, runChain_map_pruneIf hp, ← hany]
  rfl

end TemplatePrep

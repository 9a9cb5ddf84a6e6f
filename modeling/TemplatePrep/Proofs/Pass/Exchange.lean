import TemplatePrep.Proofs.Pass.Alike
import TemplatePrep.Proofs.Pass.Termination
import TemplatePrep.Rule.OnCode
import TemplatePrep.Rule.Pruning
import TemplatePrep.Rule.Script

/-!
# Rule sets that cannot be told apart

A pass knows its rules only through their calls. Two rule sets whose chains do the same on every node at every place have
the same passes, then, however deep the nodes stand and whatever the rules ask for.

The chains need not be the same for that. Rules behind a removing one are called only where that one keeps the node, so
nobody can tell what they would do elsewhere. And rules that do nothing but remove can stand in any order.
-/

namespace TemplatePrep

variable {σ : Type}

/-- Both sets do the same on every node, wherever it stands, unless it is removed already. -/
def RuleSet.ActsAs (rules rules' : RuleSet σ) : Prop :=
  ∀ place edits n s, edits.pruned = false → rules.call place edits n s = rules'.call place edits n s

/-- Sets that act alike do the same on every visit that goes on alike below its node. -/
theorem RuleSet.ActsAs.behaviours {rules rules' : RuleSet σ} (h : rules.ActsAs rules') :
    rules.behaviours.Alike rules'.behaviours := by
  rintro _ below below' hbelow place edits ⟨n, rfl⟩ p hp
  have hcall : runChain place (rules.chain n.kind) ⟨n, rfl⟩ edits p.state =
      runChain place (rules'.chain n.kind) ⟨n, rfl⟩ edits p.state := h place edits n p.state hp
  rw [rules.behaviours_congr n.kind below below' hbelow place edits _ p hp]
  dsimp only [RuleSet.behaviours]
  rw [hcall]

/-- Sets that act alike have the same passes. -/
theorem RuleSet.ActsAs.run?_eq {rules rules' : RuleSet σ} (h : rules.ActsAs rules') (limit : Nat) (t : Template)
    (s : σ) : rules.run? limit t s = rules'.run? limit t s := by
  rw [RuleSet.run?_eq_behaviours, RuleSet.run?_eq_behaviours, h.behaviours.run?_eq]

/-! ## Rules behind a removing one -/

/-- Behind a rule that removes nodes, chains can be exchanged that do the same with the nodes it keeps. Whatever the
rules in front of it have done to the node is done by then. -/
theorem runChain_append_pruneIf_congr {k : Kind} {test : View → NodeOf k → Bool} {chain chain' : List (Rule σ k)}
    (hkept : ∀ place edits n s, edits.pruned = false → test ⟨place, edits.before.length⟩ n = false →
      runChain place chain n edits s = runChain place chain' n edits s)
    (front : List (Rule σ k)) (place : Place) {edits : Edits} (hp : edits.pruned = false) (n : NodeOf k) (s : σ) :
    runChain place (front ++ Rule.pruneIf test :: chain) n edits s =
      runChain place (front ++ Rule.pruneIf test :: chain') n edits s := by
  rw [runChain_append hp, runChain_append hp]
  split
  · rfl
  · next hfront =>
    rw [Bool.not_eq_true] at hfront
    rw [runChain_pruneIf_cons hfront, runChain_pruneIf_cons hfront]
    split
    · rfl
    · next htest => exact hkept _ _ _ _ hfront (by simpa using htest)

/-- What the rules attached before a removing one do to the nodes that it removes cannot be noticed. Two sequences of
attachments may differ in it as they like: with the removing rule attached behind them, and then any others, they give
the same tree, the same counts and the same state for every template, or no result at all. -/
theorem RuleSet.run?_hidden {k : Kind} (test : View → NodeOf k → Bool) {earlier earlier' : List (Attachment σ)}
    (hothers : ∀ j, j ≠ k → rulesFor j earlier = rulesFor j earlier')
    (hkept : ∀ place edits n s, edits.pruned = false → test ⟨place, edits.before.length⟩ n = false →
      runChain place (rulesFor k earlier).reverse n edits s = runChain place (rulesFor k earlier').reverse n edits s)
    (later : List (Attachment σ)) (limit : Nat) (t : Template) (s : σ) :
    (ofAttachments (earlier ++ ⟨k, Rule.pruneIf test⟩ :: later)).run? limit t s =
      (ofAttachments (earlier' ++ ⟨k, Rule.pruneIf test⟩ :: later)).run? limit t s := by
  have hchain (as : List (Attachment σ)) :
      (ofAttachments (as ++ ⟨k, Rule.pruneIf test⟩ :: later)).chain k =
        (rulesFor k later).reverse ++ Rule.pruneIf test :: (rulesFor k as).reverse := by
    rw [chain_ofAttachments, rulesFor_append, rulesFor_cons_self, List.reverse_append, List.reverse_cons,
      List.append_assoc, List.singleton_append]
  have hcalls : (ofAttachments (earlier ++ ⟨k, Rule.pruneIf test⟩ :: later)).ActsAs
      (ofAttachments (earlier' ++ ⟨k, Rule.pruneIf test⟩ :: later)) := by
    intro place edits n s hp
    rw [call, call]
    by_cases hn : n.kind = k
    · subst hn
      rw [hchain, hchain]
      exact runChain_append_pruneIf_congr hkept _ place hp _ s
    · rw [chain_ofAttachments, chain_ofAttachments, rulesFor_append, rulesFor_append, hothers _ hn]
  exact hcalls.run?_eq limit t s

/-- An exclamation mark is put behind every text, and every comment is removed. -/
def exclaiming : List (Attachment (List Script.Note)) :=
  [⟨.text, Script.rule [] [.appendLabel "!"]⟩, ⟨.comment, Rule.pruneIf fun _ _ => true⟩]

/-- A rule that asks for a text behind blank text. -/
def followBlank : Attachment (List Script.Note) := ⟨.text, Script.rule [.blank true] [.insertAfter (.text "x")]⟩

/-- A rule that makes a text blank and asks for a comment in front of it. -/
def blankOut : Attachment (List Script.Note) :=
  ⟨.text, Script.rule [.label "trim"] [.setLabel " ", .insertBefore (.comment "c")]⟩

/-- Holds of blank text. -/
def blankText (v : View) (n : NodeOf .text) : Bool := (Script.Condition.blank true).holds v n.val

/-- A list of a blank text, one to be made blank and one to stay. -/
def threeTexts : Template := ⟨[.element "p" [.text " ", .text "trim", .text "a"]], none⟩

/-- With blank text removed behind it, a rule for blank text alone may as well be missing, also where the text has been
made blank by a rule attached later still. -/
theorem RuleSet.run?_hidden_followBlank :
    (∀ j, j ≠ .text → rulesFor j (exclaiming ++ [followBlank]) = rulesFor j exclaiming) ∧
    (∀ place edits n s, edits.pruned = false →
      blankText ⟨place, edits.before.length⟩ n = false →
      runChain place (rulesFor .text (exclaiming ++ [followBlank])).reverse n edits s =
        runChain place (rulesFor .text exclaiming).reverse n edits s) ∧
    (ofAttachments (exclaiming ++ [followBlank] ++ ⟨.text, Rule.pruneIf blankText⟩ :: [blankOut])).run? 12
        threeTexts [] =
      (ofAttachments (exclaiming ++ ⟨.text, Rule.pruneIf blankText⟩ :: [blankOut])).run? 12 threeTexts [] ∧
    (ofAttachments (exclaiming ++ ⟨.text, Rule.pruneIf blankText⟩ :: [blankOut])).run? 12 threeTexts [] =
      some ⟨⟨[.element "p" [.text "a!"]], none⟩, ⟨6, 3, 1⟩, []⟩ := by
  have hothers : ∀ j, j ≠ .text → rulesFor j (exclaiming ++ [followBlank]) = rulesFor j exclaiming := by
    intro j hj
    rw [rulesFor_append, followBlank, rulesFor_cons_of_ne _ (Ne.symm hj)]
    exact List.append_nil _
  have hkept : ∀ place edits n s, edits.pruned = false →
      blankText ⟨place, edits.before.length⟩ n = false →
      runChain place (rulesFor .text (exclaiming ++ [followBlank])).reverse n edits s =
        runChain place (rulesFor .text exclaiming).reverse n edits s := by
    intro place edits n s hp hblank
    have hcall : Script.rule [.blank true] [.insertAfter (.text "x")] ⟨place, edits.before.length⟩ n s =
        ⟨n, Edits.none, s⟩ := by
      have hholds : (Script.Condition.blank true).holds ⟨place, edits.before.length⟩ n.val = false := hblank
      rw [Script.rule, List.all_cons, hholds, Bool.false_and, if_neg Bool.false_ne_true]
    rw [rulesFor_append, List.reverse_append, followBlank, rulesFor_cons_self]
    show runChain place (_ :: (rulesFor .text exclaiming).reverse) n edits s = _
    rw [runChain, hcall, Edits.append_none, if_neg (by simp [hp])]
  refine ⟨hothers, hkept, ?_, ?_⟩
  · exact RuleSet.run?_hidden blankText hothers hkept [blankOut] 12 threeTexts []
  · cbv

/-! ## Rules that only remove -/

/-- Rules that only remove ask for no nodes, on an insert and its code as little as elsewhere. -/
theorem RuleSet.requests_ofTests (xs : List Test) (place : Place) (n : Node) (s : σ) :
    ((ofTests xs).requests place n s).before = [] ∧ ((ofTests xs).requests place n s).after = [] := by
  have hcall {edits : Edits} (hp : edits.pruned = false) (n : Node) (s : σ) :
      ((ofTests xs).call place edits n s).edits.before = edits.before ∧
        ((ofTests xs).call place edits n s).edits.after = edits.after := by
    rw [call_ofTests xs place hp]
    dsimp only
    split
    · exact ⟨List.append_nil _, List.append_nil _⟩
    · exact ⟨rfl, rfl⟩
  have hown : ((ofTests xs).call place Edits.none n s).edits.before = [] ∧
      ((ofTests xs).call place Edits.none n s).edits.after = [] := hcall rfl n s
  rw [requests]
  split
  · exact hown
  · next hkept =>
    split
    · obtain ⟨hbefore, hafter⟩ := hcall (by simpa using hkept) _ _
      exact ⟨hbefore.trans hown.1, hafter.trans hown.2⟩
    · exact hown

theorem RuleSet.onlyDeletes_ofTests (xs : List Test) : (ofTests xs : RuleSet σ).OnlyDeletes := by
  intro k rule hrule v n s
  rw [chain_ofTests] at hrule
  obtain ⟨test, -, rfl⟩ := List.mem_map.mp hrule
  exact List.Sublist.refl _

/-- It does not matter in which order rules are attached that do nothing but remove. The pass ends for every template, and
in every order it leaves the same tree with the same counts, although the rules may look at the siblings and the index,
which change with what has been removed before. -/
theorem RuleSet.exists_run?_perm (xs : List Test) (t : Template) (s : σ) :
    ∃ limit r, ∀ order : List Test, order.Perm xs → (ofTests order).run? limit t s = some r := by
  have hbelow : (ofTests xs : RuleSet σ).RequestsBelow fun _ => 0 := by
    intro place n s _ m hm
    obtain ⟨hbefore, hafter⟩ := requests_ofTests xs place n s
    rw [hbefore, hafter] at hm
    exact absurd hm List.not_mem_nil
  obtain ⟨v, hv⟩ := Blocks.exists_visits_of_requestsBelow hbelow (onlyDeletes_ofTests xs) Place.root Edits.none t.root
    ⟨Stats.zero, s⟩
  obtain ⟨limit, hrun⟩ := exists_run?_iff.mpr ⟨v, hv, rfl⟩
  refine ⟨limit, ⟨.ofRoot v.node, v.progress.stats, v.progress.state⟩, fun order horder => ?_⟩
  have hcalls : (ofTests order : RuleSet σ).ActsAs (ofTests xs) := by
    intro place edits n s hp
    rw [call_ofTests order place hp, call_ofTests xs place hp, horder.any_eq]
  rw [hcalls.run?_eq limit t s, hrun]

/-- Tests on the index, on the siblings, and on both chains of an insert. -/
def assortedTests : List Test :=
  [⟨.text, fun v _ => v.index == 1⟩, ⟨.comment, fun v _ => v.place.before.isEmpty⟩,
    ⟨.insert, fun v _ => v.place.after.isEmpty⟩, ⟨.embeddedCode, fun _ n => n.val.children.isEmpty⟩]

/-- A list with something for each of these tests, and with nodes of the same kinds to stay. -/
def assortedNodes : Template :=
  ⟨[.element "p" [.comment "a", .text "b", .text "c", .insert [], .comment "d", .insert [.codeText "e"]]], none⟩

/-- Forwards and backwards these tests leave the same. Of the comments only the first is removed, since nothing is in
front of it, and then the text behind it has the index 0. -/
theorem RuleSet.exists_run?_perm_reverse :
    assortedTests.reverse.Perm assortedTests ∧
    ∃ limit,
      (ofTests assortedTests).run? limit assortedNodes () =
        some ⟨⟨[.element "p" [.text "b", .comment "d"]], none⟩, ⟨9, 4, 0⟩, ()⟩ ∧
      (ofTests assortedTests.reverse).run? limit assortedNodes () =
        some ⟨⟨[.element "p" [.text "b", .comment "d"]], none⟩, ⟨9, 4, 0⟩, ()⟩ := by
  have hperm := List.reverse_perm assortedTests
  have hrun : (ofTests assortedTests).run? 12 assortedNodes () =
      some ⟨⟨[.element "p" [.text "b", .comment "d"]], none⟩, ⟨9, 4, 0⟩, ()⟩ := by
    cbv
  obtain ⟨limit, r, horder⟩ := exists_run?_perm assortedTests assortedNodes ()
  have hforwards := horder assortedTests (List.Perm.refl _)
  obtain rfl := run?_unique hforwards hrun
  exact ⟨hperm, limit, hforwards, horder _ hperm⟩

end TemplatePrep

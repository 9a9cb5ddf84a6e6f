import TemplatePrep.Proofs.Pass.Accounted
import TemplatePrep.Proofs.Pass.Around
import TemplatePrep.Proofs.Pass.Distinct
import TemplatePrep.Proofs.Pass.Erasure
import TemplatePrep.Proofs.Pass.Kept
import TemplatePrep.Proofs.Pass.Layout
import TemplatePrep.Proofs.Pass.Logged

/-!
# What a rule sees is settled

A rule that is called on the visit of a child is shown the child's siblings. At each call these are the siblings as they
stood when the visit began, and those in front of the child are settled: whatever happens later, the container keeps
them at the front of its children, and it stays in the tree with its tag or name. So what a rule learns from its place
holds of the tree that the pass leaves.

The journal ties the two moments together. What stands around a visited node is in `Around`, what stays to the end in
`Kept`; nodes are told apart by their origins, which `Distinct` justifies.
-/

namespace TemplatePrep

open Tracked

variable {σ : Type}

/-! ## What is noted -/

/-- The calls noted for a visit are those that a rule set makes there. -/
def Entry.IsGenuine (rules : RuleSet σ) : Entry → Prop
  | visit a _ place asked calls => ∃ s, calls = rules.calls place.erase asked a.node s
  | _ => True

namespace Journal

/-- The entries note the visits that the events are about, in order, with the calls that the rules make. -/
structure Noted (rules : RuleSet σ) (events : List Event) (entries : List Entry) : Prop where
  visited_eq : entries.filterMap Entry.visited? = visited events
  genuine : ∀ e ∈ entries, e.IsGenuine rules

variable {rules : RuleSet σ}

theorem Noted.append {events later : List Event} {entries others : List Entry} (h : Noted rules events entries)
    (hlater : Noted rules later others) : Noted rules (events ++ later) (entries ++ others) where
  visited_eq := by rw [List.filterMap_append, h.visited_eq, hlater.visited_eq, visited_append]
  genuine := List.forall_mem_append.mpr ⟨h.genuine, hlater.genuine⟩

theorem noted_changes (container : Origin) (cs : List Change) : Noted rules [] (cs.map (.change container)) where
  visited_eq := by
    rw [List.filterMap_map]
    exact List.filterMap_eq_nil_iff.mpr fun _ _ => rfl
  genuine := by
    rw [List.forall_mem_map]
    exact fun _ _ => trivial

theorem noted_opening (container : Option Origin) (place : Tracked.Place) (edits asked : Edits) (a : Arrival) (s : σ) :
    Noted rules (Trace.opening a place asked) [opening rules container place edits a s] where
  visited_eq := rfl
  genuine := List.forall_mem_singleton.mpr ⟨s, rfl⟩

/-- A journal notes all visits, with their calls. -/
theorem preserved_noted (rules : RuleSet σ) : Preserved rules (fun _ _ _ _ _ v entries => Noted rules v.events entries)
    (fun _ _ _ _ b entries => Noted rules b.events entries) (fun _ _ _ _ _ _ q entries => Noted rules q.events entries)
    (fun _ _ _ _ _ w entries => Noted rules w.events entries) where
  still _ := noted_opening _ _ _ _ _ _
  insert _ _ h := (noted_opening _ _ _ _ _ _).append h
  branch _ _ _ h := by
    refine (noted_opening _ _ _ _ _ _).append ⟨h.visited_eq, ?_⟩
    exact List.forall_mem_cons.mpr ⟨trivial, h.genuine⟩
  settled {container place a _ v q visit front} hv hq := by
    have hfront := hq.append (noted_changes container (v.edits.closing a.origin (place.before ++ q.nodes).length))
    rw [List.append_nil] at hfront
    refine hv.append ⟨hfront.visited_eq, ?_⟩
    exact List.forall_mem_cons.mpr ⟨trivial, hfront.genuine⟩
  queue_nil := ⟨rfl, List.forall_mem_nil _⟩
  queue_cons hb hq := ⟨(hb.append hq).visited_eq, List.forall_mem_cons.mpr ⟨trivial, (hb.append hq).genuine⟩⟩
  sweep_nil := ⟨rfl, List.forall_mem_nil _⟩
  sweep_cons _ _ hb hw := hb.append hw

end Journal

/-! ## What rules are shown -/

/-- What a rule is shown and given at a call on the visit of a node in a container, after some entries of the journal
and after some earlier calls of the same visit. -/
structure ShownSettled (tree : Tracked) (past : List Entry) (a : Arrival) (container : Origin) (asked : Edits)
    (earlier : List RuleCall) (c : RuleCall) : Prop where
  /-- The rule is given the node as the rules called before it have left it. -/
  node : c.node = nodeAfter a.node earlier
  /-- The siblings on both sides, with whatever the visited node has become by then in between, are the child list of
  the container with the node in its place. -/
  siblings : ∀ n, c.view.place.before ++ n :: c.view.place.after =
    (eraseAll (childLists past container)).set c.view.place.before.length n
  /-- The index counts the siblings in front and the nodes asked for in front so far, by earlier rules and this one. -/
  index : ∀ k, (c.viewAfter k).index = c.view.place.before.length + ((askedAfter asked earlier).before.length + k)
  /-- In the final tree the children of the container start with the siblings in front, and it has the tag or name that
  the rule is shown. -/
  settled : ∃ head children span, tree.Holds (.walked container.owner head children span) ∧
    c.view.place.before <+: eraseAll children ∧ c.view.parent = head.parent

/-- What the visits of a finished pass are shown, from the tree that it leaves and its journal. -/
structure SettledViews (rules : RuleSet σ) (tree : Tracked) (entries : List Entry) : Prop where
  /-- Every visit but that of the root is noted with the container in which it takes place. -/
  root : ∀ a place asked calls, .visit a none place asked calls ∈ entries → a.origin = []
  /-- The calls noted for a visit are those that the rules make. -/
  calls : ∀ a container place asked calls, .visit a container place asked calls ∈ entries →
    ∃ s, calls = rules.calls place.erase asked a.node s
  /-- Where a child is visited, it stands in its container between the siblings that it is shown; where the code of an
  insert is visited, it is the insert that stands there. -/
  stands : ∀ past later a container place asked calls,
    entries = past ++ .visit a (some container) place asked calls :: later →
    ∃ m, childLists past container = place.before ++ m :: place.after ∧ StandsFor past container place asked a m
  /-- What every rule is shown and given is settled. -/
  shown : ∀ past later a container place asked calls,
    entries = past ++ .visit a (some container) place asked calls :: later →
    ∀ earlier c rest, calls = earlier ++ c :: rest → ShownSettled tree past a container asked earlier c
  /-- A container that anything is noted about, be it only that its walk has started, stands in the final tree: one node
  that everything noted about it agrees with. -/
  kept : ∀ container, (∃ e ∈ entries, e.container? = some container) →
    ∃ head children span, tree.Holds (.walked container.owner head children span) ∧
      ∀ e ∈ entries, e.container? = some container → e.FitsIn head.parent children
  /-- No other node of the final tree has its origin. -/
  distinct : Distinct [tree]

theorem eraseAll_set (before after : List Tracked) (m : Tracked) (n : Node) :
    (eraseAll (before ++ m :: after)).set (eraseAll before).length n = eraseAll before ++ n :: eraseAll after := by
  rw [eraseAll_append, eraseAll, List.set_append_right _ _ (Nat.le_refl _), Nat.sub_self, List.set_cons_zero]

theorem eraseAll_isPrefix {ms trees : List Tracked} (h : ms <+: trees) : eraseAll ms <+: eraseAll trees := by
  obtain ⟨rest, rfl⟩ := h
  rw [eraseAll_append]
  exact List.prefix_append _ _

/-- Everything noted about one container agrees with the one node of the tree that has its origin. -/
theorem exists_kept {tree : Tracked} {entries : List Entry} (hdistinct : Distinct [tree])
    (hkept : ∀ e ∈ entries, e.container? = none ∨ tree.Keeps e) (container : Origin)
    (h : ∃ e ∈ entries, e.container? = some container) :
    ∃ head children span, tree.Holds (.walked container.owner head children span) ∧
      ∀ e ∈ entries, e.container? = some container → e.FitsIn head.parent children := by
  have hkeeps : ∀ e ∈ entries, e.container? = some container → ∃ head children span,
      tree.Holds (.walked container.owner head children span) ∧ e.FitsIn head.parent children := by
    intro e he hcontainer
    rcases hkept e he with hnone | ⟨K, head, children, span, hK, hholds, hfits⟩
    · exact absurd (hnone.symm.trans hcontainer) (by simp)
    · obtain rfl := Option.some.inj (hK.symm.trans hcontainer)
      exact ⟨head, children, span, hholds, hfits⟩
  obtain ⟨e, he, hcontainer⟩ := h
  obtain ⟨head, children, span, hholds, -⟩ := hkeeps e he hcontainer
  refine ⟨head, children, span, hholds, ?_⟩
  intro f hf hf'
  obtain ⟨head', children', span', hholds', hfits⟩ := hkeeps f hf hf'
  have hsame := hdistinct _ _ ⟨tree, List.mem_singleton_self tree, hholds⟩
    ⟨tree, List.mem_singleton_self tree, hholds'⟩ rfl
  cases hsame
  exact hfits

/-- What a rule is shown follows from where its visit takes place and what has become of the container. -/
theorem shownSettled {rules : RuleSet σ} {tree : Tracked} {past : List Entry} {a : Arrival} {container : Origin}
    {place : Tracked.Place} {asked : Edits} {s : σ} {earlier rest : List RuleCall} {c : RuleCall} {m : Tracked}
    {head : Head} {children : List Tracked} {span : Option Span}
    (hcalls : rules.calls place.erase asked a.node s = earlier ++ c :: rest)
    (hlist : childLists past container = place.before ++ m :: place.after)
    (hholds : tree.Holds (.walked container.owner head children span)) (hparent : place.parent = head.parent)
    (hle : place.before <+: children) : ShownSettled tree past a container asked earlier c := by
  obtain ⟨hview, hnode⟩ := chainCalls_split hcalls
  refine ⟨hnode, ?_, ?_, head, children, span, hholds, ?_, ?_⟩
  · intro n
    rw [hview, hlist]
    exact (eraseAll_set place.before place.after m n).symm
  · intro k
    rw [RuleCall.viewAfter, hview, View.index]
  · rw [hview]
    exact eraseAll_isPrefix hle
  · rw [hview]
    exact hparent

/-- What a pass shows its rules is settled, as its trace and its journal have it. -/
theorem settledViews_of_trace? {rules : RuleSet σ} {limit : Nat} {t : Template} {s : σ} {v : Trace.Visited σ}
    {w : Journal.Visited σ} (hv : rules.trace? limit t s = some v) (hw : rules.journal? limit t s = some w) :
    SettledViews rules v.node w.entries := by
  have hnoted := (Journal.preserved_noted rules).preserved_visit hv hw
  have hsurrounded := ((Journal.preserved_around rules).preserved_visit hv hw).2 [] (by rintro K ⟨⟩)
  have hvisit := (Journal.preserved_kept rules).preserved_visit hv hw
  have hdistinct := ((Trace.preserved_distinct rules).preserved_visit hv).singleton
  have hentries : ∀ e ∈ w.entries, e.IsVisitAt none Tracked.Place.root ⟨[], t.root⟩ ∨ v.node.Keeps e := by
    intro e he
    exact (hvisit.kept e he).imp_right fun hhouses => hhouses.2.keeps hvisit.origin_eq rfl
  have hopen : ∀ e ∈ w.entries, e.container? = none ∨ v.node.Keeps e := by
    intro e he
    rcases hentries e he with ⟨b, asked, calls, rfl, -⟩ | hkeeps
    · exact .inl rfl
    · exact .inr hkeeps
  have hkept := exists_kept hdistinct hopen
  constructor
  case root =>
    intro a place asked calls he
    rcases hentries _ he with ⟨b, asked', calls', heq, hroot⟩ | ⟨K, _, _, _, hK, -⟩
    · cases heq
      rw [hroot (by simp [Template.root, Node.kind, Head.kind])]
    · exact absurd hK (by simp [Entry.container?])
  case calls => exact fun a container place asked calls he => hnoted.genuine _ he
  case stands =>
    intro past later a container place asked calls heq
    exact hsurrounded.of_eq_append heq container rfl
  case shown =>
    intro past later a container place asked calls heq earlier c rest hcalls
    have he : Entry.visit a (some container) place asked calls ∈ w.entries := by
      rw [heq]
      exact List.mem_append_right _ List.mem_cons_self
    obtain ⟨m, hlist, -⟩ := hsurrounded.of_eq_append heq container rfl
    obtain ⟨s', hgenuine⟩ := hnoted.genuine _ he
    obtain ⟨head, children, span, hholds, hfits⟩ := hkept container ⟨_, he, rfl⟩
    obtain ⟨hparent, hle⟩ := hfits _ he rfl
    exact shownSettled (hgenuine.symm.trans hcalls) hlist hholds hparent hle
  case kept => exact hkept
  case distinct => exact hdistinct

/-- A pass that finishes shows its rules what is settled. It has a journal that ends with the same tree and notes as
many visits as are counted; rules that keep a log of their calls in the pass log those of the journal; and whatever a
rule is shown there agrees with the child lists at that point and with the final tree. -/
theorem RuleSet.settledViews_of_run? {rules : RuleSet σ} {limit : Nat} {t : Template} {s : σ} {r : PassResult σ}
    (h : rules.run? limit t s = some r) :
    ∃ v, rules.journal? limit t s = some v ∧ r = ⟨.ofRoot v.node.erase, v.progress.stats, v.progress.state⟩ ∧
      r.stats.visited = (v.entries.filterMap Entry.visited?).length ∧
      (∃ limit', rules.logged.run? limit' t (s, []) = some ⟨r.tree, r.stats, (r.state, callsOf v.entries)⟩) ∧
      SettledViews rules v.node v.entries := by
  obtain ⟨v, hv, rfl⟩ := RuleSet.exists_trace?_of_run? h
  obtain ⟨entries, hjournal, hnoted⟩ := ((Journal.preserved_noted rules).follows limit).visit none hv
  have hcounted := (Trace.preserved_counted rules).preserved_visit hv
  refine ⟨_, hjournal, rfl, ?_, RuleSet.exists_run?_logged hv hjournal, settledViews_of_trace? hv hjournal⟩
  rw [hnoted.visited_eq]
  exact hcounted.trans (Nat.zero_add _)

/-- The journal where comments of an element are edited, the texts put in front of one another are visited among them,
and an insert with its code follows. -/
theorem RuleSet.settledViews_bothSides :
    Pass.bothSides.run? 20
        ⟨[.element "p" [.comment "A", .comment "C", .comment "B"], .insert [.codeText "x"]], none⟩ [] =
      some ⟨⟨[.element "p" [.comment "A", .text "W", .text "X", .comment "Y", .comment "Z", .comment "B"],
        .insert [.codeText "x"]], none⟩, ⟨11, 1, 4⟩, []⟩ ∧
    ∃ v, Pass.bothSides.journal? 20
        ⟨[.element "p" [.comment "A", .comment "C", .comment "B"], .insert [.codeText "x"]], none⟩ [] = some v ∧
      (v.entries.filterMap Entry.visited?).length = 11 ∧ SettledViews Pass.bothSides v.node v.entries := by
  have hrun : Pass.bothSides.run? 20
        ⟨[.element "p" [.comment "A", .comment "C", .comment "B"], .insert [.codeText "x"]], none⟩ [] =
      some ⟨⟨[.element "p" [.comment "A", .text "W", .text "X", .comment "Y", .comment "Z", .comment "B"],
        .insert [.codeText "x"]], none⟩, ⟨11, 1, 4⟩, []⟩ := by
    cbv
  obtain ⟨v, hv, _, hlength, _, hsettled⟩ := RuleSet.settledViews_of_run? hrun
  exact ⟨hrun, v, hv, hlength.symm, hsettled⟩

end TemplatePrep

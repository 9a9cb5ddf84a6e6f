import TemplatePrep.Proofs.Pass.Accounted
import TemplatePrep.Proofs.Pass.Chronology
import TemplatePrep.Proofs.Pass.Distinct
import TemplatePrep.Proofs.Pass.Erasure
import TemplatePrep.Proofs.Pass.Kept
import TemplatePrep.Rule.Attachment

/-!
# Texts of properties

Blank text is part of the value of a static property, and the built-in rules leave it alone there. Other rules can work
around it: attached to other kinds and left to removing and inserting, they can take siblings of a text away and put
nodes next to it, but not touch the text itself. So a property that is walked has all of its texts at the end, in their
order, and each of them is the very node that was there when the walk began.

That a text stays is seen where it is settled, as a child of the property. From there the walk carries it along with the
siblings that are settled already, and the tree carries the property.
-/

namespace TemplatePrep

variable {σ : Type}

/-! ## Rules that spare texts in properties -/

/-- A rule that leaves its node as it is. It may ask for anything around it. -/
def Attachment.OnlyAsks (a : Attachment σ) : Prop := ∀ v n s, (a.rule v n s).node = n

/-- A rule set whose rules for texts do nothing in properties and whose other rules leave their nodes as they are. -/
structure RuleSet.SparesTexts (rules : RuleSet σ) : Prop where
  text : ∀ rule ∈ rules.chain .text, ∀ v n s, v.parent.isProperty = true → rule v n s = ⟨n, Edits.none, s⟩
  others : ∀ k, k ≠ .text → ∀ rule ∈ rules.chain k, ∀ v n s, (rule v n s).node = n

/-- The built-in rules for texts do nothing in properties. -/
theorem Builtin.rule_of_isProperty {b : Builtin} {rule : Rule σ .text} (h : ⟨.text, rule⟩ = b.attachment (σ := σ))
    {v : View} (hv : v.parent.isProperty = true) (n : NodeOf .text) (s : σ) : rule v n s = ⟨n, Edits.none, s⟩ := by
  have hkeeps : losesText v n.val = false := by rw [losesText, hv, Bool.not_true, Bool.and_false]
  cases b with
  | stripWhitespaceText =>
    cases h
    rw [strip, hkeeps]
    rfl
  | preserveWhitespaceText =>
    cases h
    rw [preserve, hkeeps]
    rfl
  | markInitialComments => cases h

/-- A rule set of built-in rules, and of rules for other kinds than texts that leave their nodes as they are. -/
theorem RuleSet.sparesTexts_ofAttachments {as : List (Attachment σ)}
    (h : ∀ a ∈ as, (∃ b : Builtin, a = b.attachment) ∨ (a.kind ≠ .text ∧ a.OnlyAsks)) :
    (ofAttachments as).SparesTexts := by
  constructor
  · intro rule hrule v n s hv
    rcases h _ (mem_chain_ofAttachments.mp hrule) with ⟨b, hb⟩ | ⟨hkind, -⟩
    · exact Builtin.rule_of_isProperty hb hv n s
    · exact absurd rfl hkind
  · intro k hk rule hrule v n s
    rcases h _ (mem_chain_ofAttachments.mp hrule) with ⟨b, hb⟩ | ⟨-, hasks⟩
    · cases b with
      | stripWhitespaceText | preserveWhitespaceText =>
        cases hb
        exact absurd rfl hk
      | markInitialComments =>
        cases hb
        rfl
    · exact hasks v n s

/-- A chain of rules that do nothing does nothing. -/
theorem runChain_of_idle {k : Kind} {place : Place} {chain : List (Rule σ k)} {n : NodeOf k}
    (h : ∀ rule ∈ chain, ∀ queued s, rule ⟨place, queued⟩ n s = ⟨n, Edits.none, s⟩) (edits : Edits) (s : σ) :
    runChain place chain n edits s = ⟨n, edits, s⟩ := by
  induction chain with
  | nil => rfl
  | cons rule rest ih =>
    have hrest := ih fun r hr => h r (List.mem_cons_of_mem rule hr)
    rw [runChain, h rule List.mem_cons_self]
    simp only [Edits.append_none, hrest, ite_self]

/-- A chain of rules that leave their nodes as they are leaves its node as it is. -/
theorem node_runChain {k : Kind} {place : Place} {chain : List (Rule σ k)}
    (h : ∀ rule ∈ chain, ∀ v n s, (rule v n s).node = n) (n : NodeOf k) (edits : Edits) (s : σ) :
    (runChain place chain n edits s).node = n := by
  induction chain generalizing edits s with
  | nil => rfl
  | cons rule rest ih =>
    rw [runChain]
    simp only [h rule List.mem_cons_self]
    split
    · rfl
    · exact ih (fun r hr => h r (List.mem_cons_of_mem rule hr)) _ _

namespace RuleSet.SparesTexts

variable {rules : RuleSet σ} (h : rules.SparesTexts)

include h

/-- On a text in a property the rules do nothing. -/
theorem call_text {place : Place} (hplace : place.parent.isProperty = true) {n : Node} (hn : n.kind = .text)
    (edits : Edits) (s : σ) : rules.call place edits n s = ⟨⟨n, rfl⟩, edits, s⟩ := by
  cases n with
  | leaf kind =>
    cases kind with
    | text => exact runChain_of_idle (fun rule hrule queued s => h.text rule hrule ⟨place, queued⟩ _ s hplace) edits s
    | codeText | comment => cases hn
  | branch head => cases head <;> cases hn

/-- Any other node is left as it is. -/
theorem node_call {n : Node} (hn : n.kind ≠ .text) (place : Place) (edits : Edits) (s : σ) :
    (rules.call place edits n s).node.val = n :=
  congrArg Subtype.val (node_runChain (h.others n.kind hn) ⟨n, rfl⟩ edits s)

end RuleSet.SparesTexts

/-! ## Properties that keep their texts -/

/-- The texts among some nodes. -/
def Arrival.texts (as : List Arrival) : List Arrival := as.filter fun a => a.node.kind = .text

/-- A property that was removed by its own chain, or was walked and stands in one of the trees with all the texts that
it had when the walk began. -/
def Tracked.Spares (trees : List Tracked) (events : List Event) (a : Arrival) : Prop :=
  (∃ edits, .ran a.origin edits ∈ events ∧ edits.pruned = true) ∨
    ∃ name children span nodes, a.node = .branch (.property name) children span ∧ .walk a.origin children ∈ events ∧
      In trees (.walked a.origin (.property name) nodes span) ∧
      ((Arrival.texts (arrivals a.origin .child children)).map .fresh).Sublist nodes

/-- All properties that are visited are spared. -/
def Tracked.SparesAll (trees : List Tracked) (events : List Event) : Prop :=
  ∀ a place, .enter a place ∈ events → a.node.kind = .property → Spares trees events a

namespace Tracked

variable {trees others : List Tracked} {events later : List Event}

/-- A spared property stays one when there are more events and the walked properties are still there. -/
theorem Spares.mono {a : Arrival} (h : Spares trees events a) (hevents : events ⊆ later)
    (htrees : ∀ o name nodes span, In trees (.walked o (.property name) nodes span) →
      In others (.walked o (.property name) nodes span)) : Spares others later a := by
  rcases h with ⟨edits, hran, hp⟩ | ⟨name, children, span, nodes, ha, hwalk, hin, hsub⟩
  · exact .inl ⟨edits, hevents hran, hp⟩
  · exact .inr ⟨name, children, span, nodes, ha, hevents hwalk, htrees _ _ _ _ hin, hsub⟩

theorem SparesAll.mono (h : SparesAll trees events) (hevents : events ⊆ later)
    (henter : ∀ a place, .enter a place ∈ later → .enter a place ∈ events)
    (htrees : ∀ o name nodes span, In trees (.walked o (.property name) nodes span) →
      In others (.walked o (.property name) nodes span)) : SparesAll others later :=
  fun a place ha hkind => (h a place (henter a place ha) hkind).mono hevents htrees

theorem SparesAll.append (h : SparesAll trees events) (hlater : SparesAll others later) :
    SparesAll (trees ++ others) (events ++ later) := by
  intro a place ha hkind
  rcases List.mem_append.mp ha with ha | ha
  · exact (h a place ha hkind).mono (List.subset_append_left _ _) fun _ _ _ _ hin => in_append.mpr (.inl hin)
  · exact (hlater a place ha hkind).mono (List.subset_append_right _ _) fun _ _ _ _ hin => in_append.mpr (.inr hin)

theorem sparesAll_nil : SparesAll [] [] := fun _ _ h => absurd h List.not_mem_nil

/-- A walked property in an insert's code is one in the insert. -/
theorem in_withCode {m : Tracked} (hm : m.erase.kind = .embeddedCode) {o x : Origin} {name : String}
    {nodes : List Tracked} {span codeSpan : Option Span} (h : In [m] (.walked x (.property name) nodes span)) :
    In [m.withCode o codeSpan] (.walked x (.property name) nodes span) := by
  rcases in_singleton.mp h with rfl | h
  · cases hm
  · rw [in_singleton, children_withCode]
    exact .inr h

end Tracked

namespace Trace

open Tracked

/-- A finished visit. A text in a property is as it was, and all properties inside are spared. -/
structure VisitSpares (place : Tracked.Place) (edits : Edits) (a : Arrival) (v : Visited σ) : Prop where
  kind_eq : v.node.erase.kind = a.node.kind
  text : place.parent.isProperty = true → a.node.kind = .text → v.node = .fresh a ∧ v.edits = edits
  fresh : v.edits.pruned = true → ∃ b, v.node = .fresh b
  properties : SparesAll [v.node] v.events

/-- A settled child. A text in a property stays where it is, as it was. -/
structure SettledSpares (place : Tracked.Place) (a : Arrival) (b : Settled σ) : Prop where
  text : place.parent.isProperty = true → a.node.kind = .text → .fresh a ∈ b.placed
  properties : SparesAll b.placed b.events

/-- A walk. The texts of a property that are still ahead end up behind what is settled. -/
def SweepSpares (parent : Parent) (settled : List Tracked) (rest : List Arrival) (w : Swept σ) : Prop :=
  ∃ nodes, w.nodes = settled ++ nodes ∧ SparesAll nodes w.events ∧
    (parent.isProperty = true → ((Arrival.texts rest).map .fresh).Sublist nodes)

variable {rules : RuleSet σ} {place : Tracked.Place} {edits asked : Edits} {a : Arrival}

/-- Behind the events with which its visit begins, a property is spared if it and all inside of it are. -/
theorem sparesAll_opening {trees : List Tracked} {later : List Event}
    (ha : a.node.kind = .property → Spares trees (opening a place asked ++ later) a)
    (hlater : SparesAll trees later) : SparesAll trees (opening a place asked ++ later) := by
  intro b place' hb hkind
  rcases List.mem_append.mp hb with hb | hb
  · rw [(eq_of_enter_mem_opening hb).1] at hkind ⊢
    exact ha hkind
  · exact (hlater b place' hb hkind).mono (List.subset_append_right _ _) fun _ _ _ _ hin => hin

/-- A visit that is over with the chain. A property is not a leaf, so it has been removed. -/
theorem spares_still (h : rules.SparesTexts) {p : Progress σ}
    (hover : (rules.call place.erase edits a.node p.state).edits.pruned = true ∨
      ∃ k text span, (rules.call place.erase edits a.node p.state).node.val = .leaf k text span) :
    VisitSpares place edits a ⟨.fresh ⟨a.origin, (rules.call place.erase edits a.node p.state).node⟩,
      (rules.call place.erase edits a.node p.state).edits,
      p.visit.withState (rules.call place.erase edits a.node p.state).state,
      opening a place (rules.call place.erase edits a.node p.state).edits⟩ := by
  refine ⟨Outcome.kind_eq rfl, ?_, fun _ => ⟨_, rfl⟩, ?_⟩
  · intro hplace htext
    rw [h.call_text hplace htext]
    exact ⟨rfl, rfl⟩
  · rw [← List.append_nil (opening _ _ _)]
    refine sparesAll_opening ?_ fun _ _ hb => absurd hb List.not_mem_nil
    intro hkind
    rcases hover with hp | ⟨k, text, span, hn⟩
    · exact .inl ⟨_, List.mem_append_left _ (ran_mem_opening a place _), hp⟩
    · have hleaf := Outcome.kind_eq hn
      rw [hkind] at hleaf
      cases k <;> cases hleaf

/-- The children of a branch are walked. If it is a property, they include its texts. -/
theorem spares_branch (h : rules.SparesTexts) {p : Progress σ} {head : Head} {children : List Node}
    {span : Option Span} {w : Swept σ} (hp : (rules.call place.erase edits a.node p.state).edits.pruned = false)
    (hn : (rules.call place.erase edits a.node p.state).node.val = .branch head children span)
    (hw : SweepSpares head.parent [] (arrivals a.origin .child children) w) :
    VisitSpares place edits a ⟨.walked a.origin head w.nodes span, (rules.call place.erase edits a.node p.state).edits,
      w.progress, opening a place (rules.call place.erase edits a.node p.state).edits ++
        .walk a.origin children :: w.events⟩ := by
  have hkind : head.kind = a.node.kind := Outcome.kind_eq hn
  have htext : a.node.kind ≠ .text := by
    rw [← hkind]
    cases head <;> exact Kind.noConfusion
  have hnode := (h.node_call htext place.erase edits p.state).symm.trans hn
  obtain ⟨nodes, hnodes, hproperties, hsub⟩ := hw
  rw [List.nil_append] at hnodes
  refine ⟨hkind, fun _ ht => absurd ht htext, fun hpruned => ?_, sparesAll_opening ?_ ?_⟩
  · exact absurd (hp.symm.trans hpruned) Bool.false_ne_true
  · intro hproperty
    rw [← hkind] at hproperty
    obtain ⟨name, rfl⟩ := Head.exists_eq_property hproperty
    refine .inr ⟨name, children, span, w.nodes, hnode, ?_, in_singleton.mpr (.inl rfl), ?_⟩
    · exact List.mem_append_right _ List.mem_cons_self
    · rw [hnodes]
      exact hsub rfl
  · refine hproperties.mono (List.subset_cons_self _ _) ?_ ?_
    · intro b place' hb
      exact (List.mem_cons.mp hb).resolve_left Event.noConfusion
    · intro o name nodes' span' hin
      rw [in_singleton]
      right
      rw [← hnodes] at hin
      exact hin

/-- The code of an insert is visited in its stead. Neither is a property or a text. -/
theorem spares_insert {p : Progress σ} {codeSpan span : Option Span} {segments : List Node} {v : Visited σ}
    (hn : (rules.call place.erase edits a.node p.state).node.val = .branch (.insert codeSpan) segments span)
    (hv : VisitSpares place asked ⟨a.origin ++ [.code], .branch .embeddedCode segments codeSpan⟩ v) :
    VisitSpares place edits a
      ⟨v.node.withCode a.origin span, v.edits, v.progress, opening a place asked ++ v.events⟩ := by
  have hkind : .insert = a.node.kind := Outcome.kind_eq hn
  refine ⟨(kind_erase_withCode _ _ _).trans hkind, fun _ ht => ?_, fun hp => ?_, sparesAll_opening ?_ ?_⟩
  · exact absurd (hkind.trans ht) Kind.noConfusion
  · obtain ⟨b, hb⟩ := hv.fresh hp
    exact ⟨_, congrArg (Tracked.withCode a.origin span) hb⟩
  · intro hproperty
    exact absurd (hkind.trans hproperty) Kind.noConfusion
  · exact hv.properties.mono (List.Subset.refl _) (fun _ _ hb => hb) fun _ _ _ _ hin => in_withCode hv.kind_eq hin

/-- A removed child has not been walked, so no property goes with it. -/
theorem spares_settled {v : Visited σ} {q : Swept σ} (hv : VisitSpares place Edits.none a v)
    (hq : SparesAll q.nodes q.events) : SettledSpares place a (v.settled a.origin q) := by
  constructor
  · intro hplace htext
    obtain ⟨hnode, hedits⟩ := hv.text hplace htext
    have hkept : v.kept = [.fresh a] := by rw [Visited.kept, hedits, hnode]; rfl
    rw [Visited.settled, hkept]
    exact List.mem_append_right _ (List.mem_singleton_self _)
  · have hkept : SparesAll v.kept v.events := by
      refine hv.properties.mono (List.Subset.refl _) (fun _ _ hb => hb) ?_
      intro o name nodes span hin
      rw [Visited.kept]
      split
      · next hp =>
        obtain ⟨b, hb⟩ := hv.fresh hp
        rw [hb] at hin
        cases (in_singleton.mp hin).resolve_right (not_in_nil _)
      · exact hin
    refine (hkept.append hq).mono ?_ ?_ ?_
    · exact ((List.sublist_cons_self _ _).append_left v.events).subset
    · intro b place' hb
      rcases List.mem_append.mp hb with hb | hb
      · exact List.mem_append_left _ hb
      · exact List.mem_append_right _ ((List.mem_cons.mp hb).resolve_left Event.noConfusion)
    · intro _ _ _ _ hin
      rw [in_append] at hin
      exact in_append.mpr hin.symm

/-- The walked children of a property include its texts. -/
theorem spares_sweep_cons {parent : Parent} {settled : List Tracked} {rest : List Arrival} {b : Settled σ}
    {w : Swept σ} (hb : SettledSpares ⟨parent, settled, rest.map .fresh⟩ a b)
    (hw : SweepSpares parent (settled ++ b.placed) (b.ahead ++ rest) w) :
    SweepSpares parent settled (a :: rest) ⟨w.nodes, w.progress, b.events ++ w.events⟩ := by
  obtain ⟨nodes, hnodes, hproperties, hsub⟩ := hw
  refine ⟨b.placed ++ nodes, hnodes.trans (List.append_assoc _ _ _), hb.properties.append hproperties, ?_⟩
  intro hparent
  have hrest : ((Arrival.texts rest).map .fresh).Sublist nodes := by
    refine List.Sublist.trans ?_ (hsub hparent)
    exact ((List.sublist_append_right b.ahead rest).filter _).map _
  by_cases ha : a.node.kind = .text
  · have hfirst : [Tracked.fresh a].Sublist b.placed := List.singleton_sublist.mpr (hb.text hparent ha)
    rw [Arrival.texts, List.filter_cons_of_pos (by simpa using ha)]
    exact hfirst.append hrest
  · rw [Arrival.texts, List.filter_cons_of_neg (by simpa using ha)]
    exact hrest.trans (List.sublist_append_right _ _)

/-- The traced pass spares all texts in properties. -/
theorem preserved_spares (h : rules.SparesTexts) : Preserved rules
    (fun place edits a _ v => VisitSpares place edits a v) (fun place a _ b => SettledSpares place a b)
    (fun _ _ _ _ _ q => SparesAll q.nodes q.events)
    (fun parent settled rest _ w => SweepSpares parent settled rest w) where
  still hover := spares_still h hover
  insert _ hn hv := spares_insert hn hv
  branch hp hn _ hw := spares_branch h hp hn hw
  settled hv hq := spares_settled hv hq
  queue_nil := sparesAll_nil
  queue_cons {_ _ _ _ _ _ b _} hb hq := by
    have hblock : SparesAll b.block b.events :=
      hb.properties.mono (List.Subset.refl _) (fun _ _ h => h) fun _ _ _ _ hin => in_append.mpr (.inl hin)
    exact hblock.append hq
  sweep_nil := ⟨[], (List.append_nil _).symm, sparesAll_nil, fun _ => List.Sublist.refl _⟩
  sweep_cons _ _ hb hw := spares_sweep_cons hb hw

end Trace

/-- What a finished pass keeps of a property that had some children when its walk began: the property with all of its
texts. -/
structure KeptWithTexts (tree : Tracked) (events : List Event) (a : Arrival) (name : String) (children : List Node)
    (span : Option Span) (nodes : List Tracked) : Prop where
  node_eq : a.node = .branch (.property name) children span
  walk : .walk a.origin children ∈ events
  /-- The property stands in the tree, with the nodes that its walk has left. -/
  holds : tree.Holds (.walked a.origin (.property name) nodes span)
  unique : ∀ m, tree.Holds m → m.origin = a.origin → m = .walked a.origin (.property name) nodes span
  /-- The texts are still there and in order, each the node that was there when the walk began. -/
  texts : ((Arrival.texts (arrivals a.origin .child children)).map .fresh).Sublist nodes
  /-- They have their contents and their spans. -/
  contents : (children.filter fun n => n.kind = .text).Sublist (Tracked.eraseAll nodes)

/-- With built-in rules, in any order and number, and any rules for other kinds than texts that only ask for nodes to be
removed and put in, a finished pass has kept the texts of every property that it has visited and not removed. -/
theorem RuleSet.keptWithTexts_of_run? {as : List (Attachment σ)}
    (has : ∀ a ∈ as, (∃ b : Builtin, a = b.attachment) ∨ (a.kind ≠ .text ∧ a.OnlyAsks))
    {limit : Nat} {t : Template} {s : σ} {r : PassResult σ} (h : (ofAttachments as).run? limit t s = some r) :
    ∃ v, (ofAttachments as).trace? limit t s = some v ∧
      r = ⟨.ofRoot v.node.erase, v.progress.stats, v.progress.state⟩ ∧
      ∀ a place, .enter a place ∈ v.events → a.node.kind = .property →
        ∀ edits, .ran a.origin edits ∈ v.events → edits.pruned = false →
          ∃ name children span nodes, KeptWithTexts v.node v.events a name children span nodes := by
  obtain ⟨v, hv, hr⟩ := exists_trace?_of_run? h
  have hspares := (Trace.preserved_spares (sparesTexts_ofAttachments has)).preserved_visit hv
  have hchronological := ((Trace.preserved_order _).preserved_visit hv).chronological
  have hdistinct := ((Trace.preserved_distinct _).preserved_visit hv).singleton
  refine ⟨v, hv, hr, ?_⟩
  intro a place ha hkind edits hran hp
  rcases hspares.properties a place ha hkind with
    ⟨asked, hasked, hpruned⟩ | ⟨name, children, span, nodes, hnode, hwalk, ⟨m, hm, hholds⟩, htexts⟩
  · -- the chain has run once, and it has not removed the property
    rw [hchronological.ran_unique hran hasked] at hp
    exact absurd (hp.symm.trans hpruned) Bool.false_ne_true
  · obtain rfl := List.mem_singleton.mp hm
    refine ⟨name, children, span, nodes, hnode, hwalk, hholds, ?_, htexts, ?_⟩
    · intro x hx horigin
      exact hdistinct x _ ⟨_, hm, hx⟩ ⟨_, hm, hholds⟩ horigin
    · have hcontents := htexts.map Tracked.erase
      rw [← Tracked.eraseAll_eq_map, ← Tracked.eraseAll_eq_map, Tracked.eraseAll_map_fresh] at hcontents
      have hfilter : (Arrival.texts (arrivals a.origin .child children)).map Arrival.node =
          children.filter fun n => n.kind = .text := by
        conv_rhs => rw [← map_node_arrivals a.origin .child children]
        rw [List.filter_map]
        rfl
      rwa [hfilter] at hcontents

/-- Built-in rules, with one that puts an element in the place of each comment and counts the comments, and one that puts
blank text before each element. -/
def crowding : List (Attachment Nat) :=
  [Builtin.stripWhitespaceText.attachment,
    ⟨.comment, fun _ n s => ⟨n, Edits.insertAfter (.element "i" []) ++ Edits.prune, s + 1⟩⟩,
    Builtin.markInitialComments.attachment, ⟨.element, fun _ n s => ⟨n, Edits.insertBefore (.text " "), s⟩⟩,
    Builtin.stripWhitespaceText.attachment]

/-- A property with a comment and two texts, and a blank text outside of it. -/
def crowded : Template := ⟨[.property "class" [.comment "a", .text " ", .text "x"], .text " "], none⟩

/-- The blank text outside is gone. The one in the property is still there, behind what was put in for the comment. -/
theorem RuleSet.keptWithTexts_crowding :
    (∀ a ∈ crowding, (∃ b : Builtin, a = b.attachment) ∨ (a.kind ≠ .text ∧ a.OnlyAsks)) ∧
    (ofAttachments crowding).run? 10 crowded 0 = some
      ⟨⟨[.property "class" [.text Text.marker, .text " ", .element "i" [], .text " ", .text "x"]], none⟩,
        ⟨9, 2, 3⟩, 1⟩ ∧
    ∃ v, (ofAttachments crowding).trace? 10 crowded 0 = some v ∧
      ∀ a place, .enter a place ∈ v.events → a.node.kind = .property →
        ∀ edits, .ran a.origin edits ∈ v.events → edits.pruned = false →
          ∃ name children span nodes, KeptWithTexts v.node v.events a name children span nodes := by
  have has : ∀ a ∈ crowding, (∃ b : Builtin, a = b.attachment) ∨ (a.kind ≠ .text ∧ a.OnlyAsks) := by
    intro a ha
    simp only [crowding, List.mem_cons, List.not_mem_nil, or_false] at ha
    rcases ha with rfl | rfl | rfl | rfl | rfl
    · exact .inl ⟨_, rfl⟩
    · exact .inr ⟨Kind.noConfusion, fun _ _ _ => rfl⟩
    · exact .inl ⟨_, rfl⟩
    · exact .inr ⟨Kind.noConfusion, fun _ _ _ => rfl⟩
    · exact .inl ⟨_, rfl⟩
  have hrun : (ofAttachments crowding).run? 10 crowded 0 = some
      ⟨⟨[.property "class" [.text Text.marker, .text " ", .element "i" [], .text " ", .text "x"]], none⟩,
        ⟨9, 2, 3⟩, 1⟩ := by
    cbv
  obtain ⟨v, hv, -, hkept⟩ := keptWithTexts_of_run? has hrun
  exact ⟨has, hrun, v, hv, hkept⟩

end TemplatePrep

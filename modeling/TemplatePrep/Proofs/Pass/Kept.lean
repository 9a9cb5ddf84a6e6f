import TemplatePrep.Proofs.Pass.JournalInduction

/-!
# Containers being walked are kept

Once the walk of a container has started, the container stands in every tree that the pass comes to, the final one
included, with its tag or name as the walk has it. And the siblings in front of a visited child stay where they are: the
container's children start with them to the end. So what an entry says about its container agrees with the final tree.
-/

namespace TemplatePrep

theorem Tracked.kind_erase_withCode (o : Origin) (span : Option Span) (m : Tracked) :
    (m.withCode o span).erase.kind = .insert := by
  cases m <;> rfl

/-- The container that an entry is about, none for the visit of the root. -/
def Entry.container? : Entry → Option Origin
  | visit _ container _ _ _ => container
  | walk container _ _ => some container
  | change container _ => some container

/-- What an entry says agrees with its container as its children see it, and with the children that it has. -/
def Entry.FitsIn (parent : Parent) (children : List Tracked) : Entry → Prop
  | visit _ _ place _ _ => place.parent = parent ∧ place.before <+: children
  | walk _ shown _ => shown = parent
  | change _ _ => True

theorem Entry.FitsIn.mono {parent : Parent} {children more : List Tracked} {e : Entry} (h : e.FitsIn parent children)
    (hle : children <+: more) : e.FitsIn parent more := by
  cases e with
  | visit => exact ⟨h.1, h.2.trans hle⟩
  | walk => exact h
  | change => trivial

/-- The container of an entry stands in a tree, and what the entry says agrees with it. -/
def Tracked.Keeps (m : Tracked) (e : Entry) : Prop :=
  ∃ K head children span, e.container? = some K ∧ m.Holds (.walked K.owner head children span) ∧
    e.FitsIn head.parent children

theorem Tracked.Keeps.of_mem_children {m c : Tracked} {e : Entry} (h : c.Keeps e) (hc : c ∈ m.children) :
    m.Keeps e := by
  obtain ⟨K, head, children, span, hK, hholds, hfits⟩ := h
  exact ⟨K, head, children, span, hK, Holds.of_mem_children hc hholds, hfits⟩

/-- The container of the children of a node. Those of an insert are children of its code. -/
def Arrival.inner (a : Arrival) : Origin := if a.node.kind = .insert then a.origin ++ [.code] else a.origin

theorem Arrival.owner_inner {a : Arrival} (h : a.origin.isCode = false) : a.inner.owner = a.origin := by
  rw [inner]
  split
  · rw [Origin.owner, Origin.isCode_concat, if_pos (beq_self_eq_true _), List.dropLast_concat]
  · rw [Origin.owner, if_neg (by simp [h])]

/-- An entry is about a tracked node as the container at an origin, or about a container inside of it, and what it says
agrees. -/
def Tracked.Houses (m : Tracked) (K : Origin) (e : Entry) : Prop :=
  (e.container? = some K ∧ ∃ o head children span, m = .walked o head children span ∧ e.FitsIn head.parent children) ∨
    ∃ c ∈ m.children, c.Keeps e

theorem Tracked.Houses.withCode {m : Tracked} {K : Origin} {e : Entry} (h : m.Houses K e)
    (hkind : m.erase.kind = .embeddedCode) (o : Origin) (span : Option Span) : (m.withCode o span).Houses K e := by
  rcases h with ⟨hK, x, head, children, codeSpan, rfl, hfits⟩ | ⟨c, hc, hkeeps⟩
  · have hparent : head.parent = .embeddedCode := by
      cases head with
      | embeddedCode => rfl
      | topLevel | element | insert | property => simp [erase, Node.kind, Head.kind] at hkind
    rw [hparent] at hfits
    exact .inl ⟨hK, o, .insert codeSpan, children, span, rfl, hfits⟩
  · refine .inr ⟨c, ?_, hkeeps⟩
    rwa [children_withCode]

theorem Tracked.Houses.keeps {m : Tracked} {a : Arrival} {e : Entry} (h : m.Houses a.inner e)
    (horigin : m.origin = a.origin) (hcode : a.origin.isCode = false) : m.Keeps e := by
  rcases h with ⟨hK, o, head, children, span, rfl, hfits⟩ | ⟨c, hc, hkeeps⟩
  · refine ⟨a.inner, head, children, span, hK, ?_, hfits⟩
    rw [Arrival.owner_inner hcode, ← horigin]
    exact Holds.self
  · exact hkeeps.of_mem_children hc

/-- An entry is the visit of a node at a place, or of its code if it is an insert. -/
def Entry.IsVisitAt (container : Option Origin) (place : Tracked.Place) (a : Arrival) (e : Entry) : Prop :=
  ∃ b asked calls, e = .visit b container place asked calls ∧ (a.node.kind ≠ .insert → b = a)

namespace Journal

variable {σ : Type}

/-- A finished visit: its entries are about its own place, or they agree with what it leaves. -/
structure VisitKept (container : Option Origin) (place : Tracked.Place) (a : Arrival) (v : Trace.Visited σ)
    (entries : List Entry) : Prop where
  origin_eq : v.node.origin = a.origin
  kind_eq : v.node.erase.kind = a.node.kind
  kept : ∀ e ∈ entries, e.IsVisitAt container place a ∨ (v.edits.pruned = false ∧ v.node.Houses a.inner e)

/-- Entries agree with a container of the given children, or with something inside of the given nodes. -/
def Upheld (container : Origin) (parent : Parent) (children nodes : List Tracked) (entries : List Entry) : Prop :=
  ∀ e ∈ entries, (e.container? = some container ∧ e.FitsIn parent children) ∨ ∃ m ∈ nodes, m.Keeps e

theorem Upheld.mono {container : Origin} {parent : Parent} {children more nodes others : List Tracked}
    {entries : List Entry} (h : Upheld container parent children nodes entries) (hle : children <+: more)
    (hsub : nodes ⊆ others) : Upheld container parent more others entries := by
  intro e he
  rcases h e he with ⟨hcontainer, hfits⟩ | ⟨m, hm, hkeeps⟩
  · exact .inl ⟨hcontainer, hfits.mono hle⟩
  · exact .inr ⟨m, hsub hm, hkeeps⟩

theorem upheld_changes {container : Origin} {parent : Parent} {children nodes : List Tracked} (cs : List Change) :
    Upheld container parent children nodes (cs.map (.change container)) := by
  rw [Upheld, List.forall_mem_map]
  exact fun _ _ => .inl ⟨rfl, trivial⟩

/-- What a visit in a container leaves there upholds the entries of the visit. -/
theorem VisitKept.upheld {container : Origin} {place : Tracked.Place} {a : Arrival} {v : Trace.Visited σ}
    {entries : List Entry} (h : VisitKept (some container) place a v entries) (hcode : a.origin.isCode = false) :
    Upheld container place.parent place.before v.kept entries := by
  intro e he
  rcases h.kept e he with ⟨b, asked, calls, rfl, -⟩ | ⟨hp, hhouses⟩
  · exact .inl ⟨rfl, rfl, List.prefix_refl place.before⟩
  · refine .inr ⟨v.node, ?_, hhouses.keeps h.origin_eq hcode⟩
    rw [Trace.Visited.kept, if_neg (by simp [hp])]
    exact List.mem_singleton_self v.node

/-- The entries of every part of a pass agree with what the part leaves. -/
theorem preserved_kept (rules : RuleSet σ) : Preserved rules
    (fun container place _ a _ v entries => VisitKept container place a v entries)
    (fun container place a _ b entries => a.origin.isCode = false →
      Upheld container place.parent (place.before ++ b.placed) b.placed entries)
    (fun container parent before _ queue _ q entries => (∀ a ∈ queue, a.origin.isCode = false) →
      Upheld container parent (before ++ q.nodes) q.nodes entries)
    (fun container parent settled rest _ w entries => (∀ a ∈ rest, a.origin.isCode = false) →
      settled <+: w.nodes ∧ Upheld container parent w.nodes w.nodes entries) where
  still {container place edits a p} _ := by
    refine ⟨rfl, (rules.call place.erase edits a.node p.state).node.property, ?_⟩
    exact List.forall_mem_singleton.mpr (.inl ⟨a, edits, _, rfl, fun _ => rfl⟩)
  insert {container place edits a p codeSpan segments span v entries} hp hn h := by
    have hkind : a.node.kind = .insert := (Outcome.kind_eq hn).symm
    refine ⟨Tracked.origin_withCode _ _ _, ?_, ?_⟩
    · exact (Tracked.kind_erase_withCode _ _ _).trans hkind.symm
    · refine List.forall_mem_cons.mpr ⟨.inl ⟨a, edits, _, rfl, fun _ => rfl⟩, ?_⟩
      intro e he
      rcases h.kept e he with ⟨b, asked, calls, rfl, -⟩ | ⟨hpruned, hhouses⟩
      · exact .inl ⟨b, asked, calls, rfl, fun hne => absurd hkind hne⟩
      · have hinner : a.inner = a.origin ++ [.code] := if_pos hkind
        rw [hinner]
        exact .inr ⟨hpruned, hhouses.withCode h.kind_eq a.origin span⟩
  branch {container place edits a p head children span w entries} hp hn hne h := by
    have hkind : head.kind = a.node.kind := Outcome.kind_eq hn
    have hinner : a.inner = a.origin := if_neg (by rwa [← hkind])
    have hcode := forall_mem_arrivals (·.isCode = false) (fun i => Origin.isCode_concat a.origin (.child i)) children
    refine ⟨rfl, hkind, ?_⟩
    refine List.forall_mem_cons.mpr ⟨.inl ⟨a, edits, _, rfl, fun _ => rfl⟩, ?_⟩
    rw [hinner]
    refine List.forall_mem_cons.mpr ⟨.inr ⟨hp, .inl ⟨rfl, _, head, w.nodes, span, rfl, rfl⟩⟩, ?_⟩
    intro e he
    rcases (h hcode).2 e he with ⟨hcontainer, hfits⟩ | ⟨m, hm, hkeeps⟩
    · exact .inr ⟨hp, .inl ⟨hcontainer, _, head, w.nodes, span, rfl, hfits⟩⟩
    · exact .inr ⟨hp, .inr ⟨m, hm, hkeeps⟩⟩
  settled {container place a p v q visit front} hv hq hcode := by
    have hfront := hq (forall_mem_arrivals (·.isCode = false) (fun j => Origin.isCode_concat a.origin (.before j)) _)
    refine List.forall_mem_append.mpr ⟨?_, List.forall_mem_cons.mpr ⟨.inl ⟨rfl, trivial⟩, ?_⟩⟩
    · exact (hv.upheld hcode).mono (List.prefix_append _ _) (List.subset_append_right _ _)
    · refine List.forall_mem_append.mpr ⟨?_, upheld_changes _⟩
      refine hfront.mono ?_ (List.subset_append_left _ _)
      rw [Trace.Visited.settled, ← List.append_assoc]
      exact List.prefix_append _ _
  queue_nil _ := List.forall_mem_nil _
  queue_cons {container parent before after a queue p b q block entries} hb hq hcode := by
    obtain ⟨ha, hqueue⟩ := List.forall_mem_cons.mp hcode
    have hrest := hq hqueue
    rw [List.append_assoc] at hrest
    refine List.forall_mem_cons.mpr ⟨.inl ⟨rfl, trivial⟩, List.forall_mem_append.mpr ⟨?_, ?_⟩⟩
    · refine (hb ha).mono ?_ ?_
      · rw [Trace.Settled.block, List.append_assoc, ← List.append_assoc before]
        exact List.prefix_append _ _
      · exact List.subset_append_of_subset_left _ (List.subset_append_left _ _)
    · exact hrest.mono (List.prefix_refl _) (List.subset_append_right _ _)
  sweep_nil _ := ⟨List.prefix_refl _, List.forall_mem_nil _⟩
  sweep_cons {container parent settled a rest p b w block entries} ns hahead hb hw hcode := by
    obtain ⟨ha, hrest⟩ := List.forall_mem_cons.mp hcode
    have hnext : ∀ c ∈ b.ahead ++ rest, c.origin.isCode = false := by
      refine List.forall_mem_append.mpr ⟨?_, hrest⟩
      rw [hahead]
      intro c hc
      exact forall_mem_arrivals (·.isCode = false) (fun j => Origin.isCode_concat a.origin (.after j)) ns c
        (List.mem_reverse.mp hc)
    obtain ⟨hle, hupheld⟩ := hw hnext
    have hplaced : b.placed ⊆ w.nodes := fun m hm => hle.subset (List.mem_append_right _ hm)
    refine ⟨(List.prefix_append _ _).trans hle, ?_⟩
    exact List.forall_mem_append.mpr ⟨(hb ha).mono hle hplaced, hupheld⟩

end Journal

end TemplatePrep

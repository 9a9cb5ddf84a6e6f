import TemplatePrep.Proofs.Pass.Completion
import Mathlib.Data.List.Flatten
import Mathlib.Data.Multiset.DershowitzManna

/-!
# Termination of a pass

A pass ends if no visit asks for anything that could make its own request again. What the requests must fall in is a
rank of nodes: whatever is asked for on the visit of a child ranks below it, with all that stands under it. The rank
says nothing about a node's children, which may rank higher than the node, and no bound is put on the number of
requests.

So neither the length of the siblings nor the size of the tree falls. What falls is the multiset of the ranks of all
nodes still to be visited, in the Dershowitz–Manna order: a visit takes the node's own rank out and puts in any number
of smaller ones.
-/

namespace TemplatePrep

variable {σ : Type}

/-- What the rules ask for on the visit of a child: those of its kind and, for an insert that they keep, those called
on its code, at the same place and after the others. -/
def RuleSet.requests (rules : RuleSet σ) (place : Place) (n : Node) (s : σ) : Edits :=
  let o := rules.call place Edits.none n s
  if o.edits.pruned then o.edits
  else
    match o.node.val with
    | .branch (.insert codeSpan) segments _ =>
      (rules.call place o.edits (.branch .embeddedCode segments codeSpan) o.state).edits
    | _ => o.edits

/-- Around anything but an insert only the rules of its own kind ask for edits. -/
theorem RuleSet.requests_of_ne_insert {rules : RuleSet σ} {place : Place} {n : Node} {s : σ} (h : n.kind ≠ .insert) :
    rules.requests place n s = (rules.call place Edits.none n s).edits := by
  have hk := (rules.call place Edits.none n s).node.property
  rw [RuleSet.requests]
  split
  · rfl
  · split
    · next hn =>
      rw [hn] at hk
      exact absurd hk.symm h
    · rfl

/-- Without rules for a node's kind and for embedded code nothing is asked for. -/
theorem RuleSet.requests_of_chain_eq_nil {rules : RuleSet σ} {place : Place} {n : Node} {s : σ}
    (h : rules.chain n.kind = []) (hcode : rules.chain .embeddedCode = []) :
    rules.requests place n s = Edits.none := by
  rw [RuleSet.requests, RuleSet.call_of_chain_eq_nil h]
  dsimp only
  split
  · rfl
  · split
    · rw [RuleSet.call_of_chain_eq_nil hcode]
    · rfl

/-- Whatever is asked for on the visit of a child ranks below the child, with all that stands under it. -/
def RuleSet.RequestsBelow (rules : RuleSet σ) (rank : Node → Nat) : Prop :=
  ∀ place n s, place.parent ≠ .root →
    ∀ m ∈ (rules.requests place n s).before ++ (rules.requests place n s).after, ∀ d ∈ m.subtree, rank d < rank n

/-- No rule changes the children of the node that it is called on, except by deleting some of them. -/
def RuleSet.OnlyDeletes (rules : RuleSet σ) : Prop :=
  ∀ k, ∀ rule ∈ rules.chain k, ∀ v n s, (rule v n s).node.val.children.Sublist n.val.children

/-- What one rule does not change but by deleting, a chain of such rules does not either. -/
theorem runChain_children_sublist {k : Kind} {place : Place} {chain : List (Rule σ k)}
    (h : ∀ rule ∈ chain, ∀ v n s, (rule v n s).node.val.children.Sublist n.val.children) (n : NodeOf k) (edits : Edits)
    (s : σ) : (runChain place chain n edits s).node.val.children.Sublist n.val.children := by
  induction chain generalizing n edits s with
  | nil => exact List.Sublist.refl _
  | cons rule rest ih =>
    have hrule := h rule (List.mem_cons_self ..) ⟨place, edits.before.length⟩ n s
    rw [runChain]
    split
    · exact hrule
    · exact (ih (fun r hr => h r (List.mem_cons_of_mem _ hr)) _ _ _).trans hrule

theorem RuleSet.OnlyDeletes.call {rules : RuleSet σ} (h : rules.OnlyDeletes) (place : Place) (edits : Edits) (n : Node)
    (s : σ) : (rules.call place edits n s).node.val.children.Sublist n.children :=
  runChain_children_sublist (h n.kind) _ _ _

namespace Blocks

variable {rules : RuleSet σ}

/-- The walk of a node's children asks for nothing around the node itself. -/
theorem Visits.edits_eq_requests {place : Place} {n : Node} {p : Progress σ} {v : Visited σ}
    (h : Visits rules place Edits.none n p v) : v.edits = rules.requests place n p.state := by
  have hcode : ∀ {limit edits segments codeSpan p w},
      visit rules limit place edits (.branch .embeddedCode segments codeSpan) p = some w →
      w.edits = (rules.call place edits (.branch .embeddedCode segments codeSpan) p.state).edits := by
    intro limit edits segments codeSpan p w hw
    -- no chain turns embedded code into an insert, so the code asks for nothing beyond its own chain
    cases limit with
    | zero => simp [visit] at hw
    | succ limit =>
      have hk := (rules.call place edits (.branch .embeddedCode segments codeSpan) p.state).node.property
      obtain ⟨-, rfl⟩ | ⟨-, ⟨k, text, span, hn, rfl⟩ | ⟨_, _, span, w, hn, -, rfl⟩ |
        ⟨head, children, span, w, hn, -, -, rfl⟩⟩ := visit_cases hw
      · rfl
      · rfl
      · rw [hn] at hk
        exact absurd hk (by simp [Node.kind, Head.kind])
      · rfl
  obtain ⟨limit, h⟩ := h
  cases limit with
  | zero => simp [visit] at h
  | succ limit =>
    rw [RuleSet.requests]
    obtain ⟨hp, rfl⟩ | ⟨hp, ⟨k, text, span, hn, rfl⟩ | ⟨codeSpan, segments, span, w, hn, hw, rfl⟩ |
      ⟨head, children, span, w, hn, hhead, -, rfl⟩⟩ := visit_cases h
    · simp only [hp, if_true]
    · simp only [hp, hn, Bool.false_eq_true, if_false]
    · simp only [hp, hn, Bool.false_eq_true, if_false]
      exact hcode hw
    · cases head with
      | insert => exact absurd rfl hhead
      | topLevel | element | embeddedCode | property => simp only [hp, hn, Bool.false_eq_true, if_false]

/-! ## The measure -/

/-- The ranks of all that stands in some siblings. -/
def weight (rank : Node → Nat) (ns : List Node) : Multiset Nat := ((ns.flatMap Node.subtree).map rank : List Nat)

theorem weight_append (rank : Node → Nat) (ms ns : List Node) :
    weight rank (ms ++ ns) = weight rank ms + weight rank ns := by
  simp [weight]

theorem weight_cons (rank : Node → Nat) (n : Node) (ns : List Node) :
    weight rank (n :: ns) = weight rank [n] + weight rank ns :=
  weight_append rank [n] ns

theorem weight_singleton (rank : Node → Nat) (n : Node) : weight rank [n] = {rank n} + weight rank n.children := by
  simp only [weight, List.flatMap_singleton]
  rw [Node.subtree_eq_cons, List.map_cons]
  rfl

theorem weight_le_of_sublist {rank : Node → Nat} {ms ns : List Node} (h : ms.Sublist ns) :
    weight rank ms ≤ weight rank ns :=
  Multiset.coe_le.mpr ((h.flatMap Node.subtree).map rank).subperm

/-- The Dershowitz–Manna order of weights: some ranks are replaced by any number of smaller ones. -/
abbrev Lighter (M N : Multiset Nat) : Prop := M.IsDershowitzMannaLT N

theorem lighter_wellFounded : WellFounded Lighter := Multiset.wellFounded_isDershowitzMannaLT

/-- Leaving ranks out keeps a weight lighter. -/
theorem lighter_of_le {M N P : Multiset Nat} (hle : M ≤ N) (hlt : Lighter N P) : Lighter M P := by
  obtain ⟨more, rfl⟩ := Multiset.le_iff_exists_add.mp hle
  -- the order is strict, so it has to be said whether anything has been left out
  by_cases hmore : more = 0
  · rwa [hmore, add_zero] at hlt
  · exact Multiset.IsDershowitzMannaLT.trans ⟨M, 0, more, hmore, (add_zero M).symm, rfl, by simp⟩ hlt

/-- Whatever falls below a node in rank weighs less than the node, next to anything else. -/
theorem lighter_of_rank_lt {rank : Node → Nat} {n : Node} {ms : List Node}
    (h : ∀ m ∈ ms, ∀ d ∈ m.subtree, rank d < rank n) (rest : List Node) :
    Lighter (weight rank (ms ++ rest)) (weight rank (n :: rest)) := by
  refine ⟨weight rank rest, weight rank ms, weight rank [n], ?_, ?_, ?_, ?_⟩
  · rw [weight_singleton]
    simp
  · rw [weight_append, add_comm]
  · rw [weight_cons, add_comm]
  · intro r hr
    obtain ⟨d, hd, rfl⟩ := List.mem_map.mp (Multiset.mem_coe.mp hr)
    obtain ⟨m, hm, hd⟩ := List.mem_flatMap.mp hd
    refine ⟨rank n, ?_, h m hm d hd⟩
    rw [weight_singleton]
    simp

/-- A part of a node's children weighs less than the node. -/
theorem lighter_of_sublist {rank : Node → Nat} {n : Node} {cs : List Node} (h : cs.Sublist n.children) :
    Lighter (weight rank cs) (weight rank [n]) := by
  have hle : weight rank cs ≤ weight rank n.children := weight_le_of_sublist h
  obtain ⟨more, hmore⟩ := Multiset.le_iff_exists_add.mp hle
  refine ⟨weight rank cs, 0, {rank n} + more, ?_, ?_, ?_, ?_⟩
  · simp
  · rw [add_zero]
  · rw [weight_singleton, hmore]
    ac_rfl
  · simp

/-! ## Every visit ends -/

/-- A node is settled wherever it stands as a child. -/
def Ends (rules : RuleSet σ) (n : Node) : Prop :=
  ∀ place p, place.parent ≠ .root → ∃ b, Settles rules place n p b

/-- All that a settled child leaves ahead was asked for on its visit. -/
theorem Settles.ahead_subset {place : Place} {n : Node} {p : Progress σ} {b : Settled σ}
    (h : Settles rules place n p b) : b.ahead ⊆ (rules.requests place n p.state).after := by
  obtain ⟨limit, h⟩ := h
  cases limit with
  | zero => simp [settle] at h
  | succ limit =>
    unfold settle at h
    obtain ⟨v, hv, h⟩ := Option.bind_eq_some_iff.mp h
    obtain ⟨q, -, h⟩ := Option.bind_eq_some_iff.mp h
    cases h
    rw [← Visits.edits_eq_requests ⟨limit, hv⟩]
    exact fun m hm => List.mem_reverse.mp hm

/-- A walk over siblings of less than a given weight ends if all nodes of less than that weight can be settled. -/
theorem exists_sweeps {rank : Node → Nat} (hbelow : rules.RequestsBelow rank) {parent : Parent}
    (hparent : parent ≠ .root) {bound : Multiset Nat} (hends : ∀ m, Lighter (weight rank [m]) bound → Ends rules m)
    {rest : List Node} (hrest : Lighter (weight rank rest) bound) (settled : List Node) (p : Progress σ) :
    ∃ w, Sweeps rules parent settled rest p w := by
  -- on the weight of the siblings ahead, which falls although they may become more
  induction hM : weight rank rest using lighter_wellFounded.induction generalizing rest settled p with
  | _ M ih =>
    subst hM
    cases rest with
    | nil => exact ⟨_, Sweeps.nil⟩
    | cons n rest =>
      have hn : Lighter (weight rank [n]) bound := by
        refine lighter_of_le ?_ hrest
        rw [weight_cons rank n rest]
        exact Multiset.le_add_right _ _
      obtain ⟨b, hb⟩ := hends n hn ⟨parent, settled, rest⟩ p hparent
      have hahead : ∀ m ∈ b.ahead, ∀ d ∈ m.subtree, rank d < rank n := fun m hm =>
        hbelow _ n p.state hparent m (List.mem_append_right _ (hb.ahead_subset hm))
      have hlt : Lighter (weight rank (b.ahead ++ rest)) (weight rank (n :: rest)) := lighter_of_rank_lt hahead rest
      obtain ⟨w, hw⟩ := ih _ hlt (hlt.trans hrest) (settled ++ b.placed) b.progress rfl
      exact ⟨w, hw.cons hb⟩

/-- A queue of nodes that can be settled is settled. -/
theorem exists_queues {parent : Parent} (hparent : parent ≠ .root) {queue : List Node}
    (hends : ∀ m ∈ queue, Ends rules m) (before after : List Node) (p : Progress σ) :
    ∃ q, Queues rules parent before after queue p q := by
  induction queue generalizing before p with
  | nil => exact ⟨_, Queues.nil⟩
  | cons n queue ih =>
    obtain ⟨b, hb⟩ := hends n (List.mem_cons_self ..) ⟨parent, before, after⟩ (p.insert 1) hparent
    obtain ⟨q, hq⟩ := ih (fun m hm => hends m (List.mem_cons_of_mem _ hm)) (before ++ b.block) b.progress
    exact ⟨_, hq.cons hb⟩

/-- The visit of anything but an insert ends if the walks over its children do. -/
theorem exists_visits_of_ne_insert (hdel : rules.OnlyDeletes) {n : Node} (hk : n.kind ≠ .insert)
    (hwalk : ∀ {parent cs}, parent ≠ .root → cs.Sublist n.children → ∀ p, ∃ w, Sweeps rules parent [] cs p w)
    (place : Place) (edits : Edits) (p : Progress σ) : ∃ v, Visits rules place edits n p v := by
  have hkind := (rules.call place edits n p.state).node.property
  have hsub := hdel.call place edits n p.state
  cases hp : (rules.call place edits n p.state).edits.pruned with
  | true => exact ⟨_, Visits.pruned hp⟩
  | false =>
    cases hn : (rules.call place edits n p.state).node.val with
    | leaf k text span => exact ⟨_, Visits.leaf hp hn⟩
    | branch head children span =>
      rw [hn] at hkind hsub
      have hhead : head.kind ≠ .insert := fun h => hk (hkind.symm.trans h)
      obtain ⟨w, hw⟩ := hwalk head.parent_ne_root hsub _
      exact ⟨_, Visits.branch hp hn hhead hw⟩

/-- A visit ends if the walks over the node's children do, whichever of them the rules delete. -/
theorem exists_visits (hdel : rules.OnlyDeletes) {n : Node}
    (hwalk : ∀ {parent cs}, parent ≠ .root → cs.Sublist n.children → ∀ p, ∃ w, Sweeps rules parent [] cs p w)
    (place : Place) (edits : Edits) (p : Progress σ) : ∃ v, Visits rules place edits n p v := by
  by_cases hk : n.kind = .insert
  · have hkind := (rules.call place edits n p.state).node.property
    have hsub := hdel.call place edits n p.state
    cases hp : (rules.call place edits n p.state).edits.pruned with
    | true => exact ⟨_, Visits.pruned hp⟩
    | false =>
      cases hn : (rules.call place edits n p.state).node.val with
      | leaf k text span => exact ⟨_, Visits.leaf hp hn⟩
      | branch head segments span =>
        rw [hn] at hkind hsub
        obtain ⟨codeSpan, rfl⟩ := Head.exists_eq_insert (hkind.trans hk)
        -- the code holds the insert's children, so their walks end
        obtain ⟨v, hv⟩ := exists_visits_of_ne_insert hdel (n := .branch .embeddedCode segments codeSpan)
          (by simp [Node.kind, Head.kind]) (fun hparent hcs => hwalk hparent (hcs.trans hsub)) place _ _
        exact ⟨_, Visits.insert hp hn hv⟩
  · exact exists_visits_of_ne_insert hdel hk hwalk place edits p

/-- Every node can be settled wherever it stands as a child. -/
theorem ends {rank : Node → Nat} (hbelow : rules.RequestsBelow rank) (hdel : rules.OnlyDeletes) (n : Node) :
    Ends rules n := by
  -- on the ranks of the node and of all under it, and not on its size, for it may ask for larger nodes
  induction hM : weight rank [n] using lighter_wellFounded.induction generalizing n with
  | _ M ih =>
    subst hM
    have hends : ∀ m, Lighter (weight rank [m]) (weight rank [n]) → Ends rules m := fun m hm => ih _ hm m rfl
    intro place p hplace
    obtain ⟨v, hv⟩ := exists_visits hdel
      (fun hparent hcs p => exists_sweeps hbelow hparent hends (lighter_of_sublist hcs) [] p) place Edits.none p
    have hqueue : ∀ m ∈ v.edits.before, Ends rules m := by
      intro m hm
      rw [hv.edits_eq_requests] at hm
      have hrank := hbelow place n p.state hplace m (List.mem_append_left _ hm)
      have hlt : Lighter (weight rank ([m] ++ [])) (weight rank (n :: [])) :=
        lighter_of_rank_lt (by simpa using hrank) []
      exact hends m hlt
    obtain ⟨q, hq⟩ := exists_queues hplace hqueue place.before (v.node :: place.after) v.progress
    exact ⟨_, hv.settles hq⟩

/-- Every visit ends, that of the root too, although nothing is said about its own requests. -/
theorem exists_visits_of_requestsBelow {rank : Node → Nat} (hbelow : rules.RequestsBelow rank)
    (hdel : rules.OnlyDeletes) (place : Place) (edits : Edits) (n : Node) (p : Progress σ) :
    ∃ v, Visits rules place edits n p v := by
  have hends : ∀ m, Ends rules m := ends hbelow hdel
  exact exists_visits hdel
    (fun hparent hcs p => exists_sweeps hbelow hparent (fun m _ => hends m) (lighter_of_sublist hcs) [] p)
    place edits p

end Blocks

/-- A pass over any template ends if some rank falls from every child to all that is asked for on its visit, and if no
rule changes the children of the node that it is called on except by deleting some. -/
theorem RuleSet.exists_run?_of_requestsBelow (rules : RuleSet σ) (rank : Node → Nat) (hbelow : rules.RequestsBelow rank)
    (hdel : rules.OnlyDeletes) (t : Template) (s : σ) : ∃ limit r, rules.run? limit t s = some r := by
  obtain ⟨v, hv⟩ := Blocks.exists_visits_of_requestsBelow hbelow hdel Place.root Edits.none t.root ⟨Stats.zero, s⟩
  obtain ⟨limit, h⟩ := RuleSet.exists_run?_iff.mpr ⟨v, hv, rfl⟩
  exact ⟨limit, _, h⟩

/-! ## A rule that asks for nodes of its own kind -/

/-- A comment that is not empty asks for comments on both sides that are shorter by one character. -/
def shorten : Rule Unit .comment := fun _ n s =>
  match n.val.text? with
  | some text =>
    if text = "" then ⟨n, Edits.none, s⟩
    else
      let shorter := Node.comment (String.ofList text.toList.tail)
      ⟨n, Edits.insertBefore shorter ++ Edits.insertAfter shorter, s⟩
  | none => ⟨n, Edits.none, s⟩

/-- The rule set with nothing but the shortening of comments. -/
def countdown : RuleSet Unit := RuleSet.empty.attach .comment shorten

/-- The length of a comment. Anything else has none, whatever stands under it. -/
def commentLength : Node → Nat
  | .leaf .comment text _ => text.toList.length
  | _ => 0

theorem shorten_node (v : View) (n : NodeOf .comment) (s : Unit) : (shorten v n s).node = n := by
  unfold shorten
  split
  · split <;> rfl
  · rfl

theorem countdown_chain_of_ne {k : Kind} (h : k ≠ .comment) : countdown.chain k = [] := by
  rw [countdown, RuleSet.chain_attach_of_ne _ _ (Ne.symm h), RuleSet.chain_empty]

/-- Only comments ask for anything, and what they ask for is shorter. -/
theorem countdown_requestsBelow : countdown.RequestsBelow commentLength := by
  intro place n s _ m hm d hd
  by_cases hk : n.kind = .comment
  · cases n with
    | branch head => cases head <;> simp [Node.kind, Head.kind] at hk
    | leaf k text span =>
      obtain rfl : k = .comment := by cases k <;> simp [Node.kind, LeafKind.kind] at hk ⊢
      have hcall : countdown.call place Edits.none (.leaf .comment text span) s =
          shorten ⟨place, 0⟩ ⟨.leaf .comment text span, rfl⟩ s := by
        show runChain place (countdown.chain .comment) _ _ _ = _
        rw [countdown, RuleSet.chain_attach_self, RuleSet.chain_empty]
        simp only [runChain, shorten, Node.text?]
        split <;> rfl
      rw [RuleSet.requests_of_ne_insert (by simp [hk]), hcall] at hm
      by_cases htext : text = ""
      · simp [shorten, Node.text?, htext, Edits.none] at hm
      · have hm : m = Node.comment (String.ofList text.toList.tail) := by
          simpa [shorten, Node.text?, htext, Edits.insertBefore, Edits.insertAfter] using hm
        subst hm
        have hd : d = Node.comment (String.ofList text.toList.tail) := by
          simpa [Node.subtree_eq_cons, Node.comment, Node.children] using hd
        have hpos : 0 < text.toList.length := List.length_pos_of_ne_nil (by simpa using htext)
        simp only [hd, Node.comment, commentLength, String.toList_ofList, List.length_tail]
        omega
  · rw [RuleSet.requests_of_chain_eq_nil (countdown_chain_of_ne hk) (countdown_chain_of_ne (by simp))] at hm
    simp [Edits.none] at hm

theorem countdown_onlyDeletes : countdown.OnlyDeletes := by
  intro k rule hrule v n s
  by_cases hk : k = .comment
  · subst hk
    rw [countdown, RuleSet.chain_attach_self, RuleSet.chain_empty, List.mem_singleton] at hrule
    subst hrule
    rw [shorten_node]
  · rw [countdown_chain_of_ne hk] at hrule
    exact absurd hrule List.not_mem_nil

/-- The countdown ends, here below an element that ranks lower than the comment it holds. -/
theorem exists_run?_countdown :
    countdown.RequestsBelow commentLength ∧ countdown.OnlyDeletes ∧
      ∃ limit r, countdown.run? limit ⟨[.element "ul" [.comment "abc", .text "x"]], none⟩ () = some r :=
  ⟨countdown_requestsBelow, countdown_onlyDeletes,
    RuleSet.exists_run?_of_requestsBelow countdown commentLength countdown_requestsBelow countdown_onlyDeletes _ _⟩

end TemplatePrep

import TemplatePrep.Proofs.Pass.ExactlyOnce

/-!
# What a pass counts

Where rules keep the children of their nodes, and remove and ask for leaves only, the counts of a pass say how the tree
has changed: a node more for each insertion, a node less for each removal. Each node that was there or has been put in
is visited once, but for those that a walk passes over: the nodes asked for behind a node asked for in front of another.

Every part of a pass keeps the same two sums in balance, and the sums of parts that follow one another add up. The
requests around the root take no part in this, since a pass carries out none of them.
-/

namespace TemplatePrep

/-! ## Rules that deal in leaves -/

/-- Edits on a node of a kind that remove it only if it is a leaf, and put in leaves only. -/
structure Edits.OnLeaves (k : Kind) (e : Edits) : Prop where
  pruned : e.pruned = true → k.isContainer = false
  asked : ∀ m ∈ e.before ++ e.after, m.kind.isContainer = false

theorem Edits.onLeaves_none (k : Kind) : Edits.none.OnLeaves k :=
  ⟨fun h => absurd h Bool.false_ne_true, List.forall_mem_nil _⟩

theorem Edits.OnLeaves.append {k : Kind} {e f : Edits} (he : e.OnLeaves k) (hf : f.OnLeaves k) :
    (e ++ f).OnLeaves k where
  pruned := by
    rw [Edits.pruned_append, Bool.or_eq_true]
    rintro (h | h)
    · exact he.pruned h
    · exact hf.pruned h
  asked := by
    intro m hm
    rw [Edits.before_append, Edits.after_append] at hm
    simp only [List.mem_append] at hm
    rcases hm with (hm | hm) | (hm | hm)
    · exact he.asked m (List.mem_append_left _ hm)
    · exact hf.asked m (List.mem_append_left _ hm)
    · exact he.asked m (List.mem_append_right _ hm)
    · exact hf.asked m (List.mem_append_right _ hm)

/-- The edits on a container remove nothing, so they are edits on a container of any kind. -/
theorem Edits.OnLeaves.of_isContainer {k : Kind} {e : Edits} (h : e.OnLeaves k) (hk : k.isContainer = true) (j : Kind) :
    e.OnLeaves j :=
  ⟨fun hp => absurd ((h.pruned hp).symm.trans hk) Bool.false_ne_true, h.asked⟩

variable {σ : Type}

/-- No rule changes the children of the node that it is called on, and all rules remove and ask for leaves only. -/
structure RuleSet.OnlyLeaves (rules : RuleSet σ) : Prop where
  children : ∀ k, ∀ rule ∈ rules.chain k, ∀ v n s, (rule v n s).node.val.children = n.val.children
  edits : ∀ k, ∀ rule ∈ rules.chain k, ∀ v n s, (rule v n s).edits.OnLeaves k

theorem RuleSet.onlyLeaves_empty : (RuleSet.empty : RuleSet σ).OnlyLeaves :=
  ⟨fun _ => List.forall_mem_nil _, fun _ => List.forall_mem_nil _⟩

theorem RuleSet.OnlyLeaves.attach {rules : RuleSet σ} (h : rules.OnlyLeaves) {k : Kind} {rule : Rule σ k}
    (hchildren : ∀ v n s, (rule v n s).node.val.children = n.val.children)
    (hedits : ∀ v n s, (rule v n s).edits.OnLeaves k) : (rules.attach k rule).OnlyLeaves := by
  constructor
  case children =>
    intro j
    by_cases hj : k = j
    · subst hj
      rw [RuleSet.chain_attach_self, List.forall_mem_cons]
      exact ⟨hchildren, h.children k⟩
    · rw [RuleSet.chain_attach_of_ne _ _ hj]
      exact h.children j
  case edits =>
    intro j
    by_cases hj : k = j
    · subst hj
      rw [RuleSet.chain_attach_self, List.forall_mem_cons]
      exact ⟨hedits, h.edits k⟩
    · rw [RuleSet.chain_attach_of_ne _ _ hj]
      exact h.edits j

/-- What each rule of a chain keeps to, the chain keeps to. -/
theorem runChain_onLeaves {k : Kind} {place : Place} {chain : List (Rule σ k)}
    (hchildren : ∀ rule ∈ chain, ∀ v n s, (rule v n s).node.val.children = n.val.children)
    (hedits : ∀ rule ∈ chain, ∀ v n s, (rule v n s).edits.OnLeaves k) {n : NodeOf k} {edits : Edits} {s : σ}
    (h : edits.OnLeaves k) :
    (runChain place chain n edits s).node.val.children = n.val.children ∧
      (runChain place chain n edits s).edits.OnLeaves k := by
  induction chain generalizing n edits s with
  | nil => exact ⟨rfl, h⟩
  | cons rule rest ih =>
    rw [List.forall_mem_cons] at hchildren hedits
    have hnode := hchildren.1 ⟨place, edits.before.length⟩ n s
    have hnext := h.append (hedits.1 ⟨place, edits.before.length⟩ n s)
    rw [runChain]
    split
    · exact ⟨hnode, hnext⟩
    · obtain ⟨hrest, honly⟩ := ih hchildren.2 hedits.2 hnext
      exact ⟨hrest.trans hnode, honly⟩

theorem RuleSet.OnlyLeaves.call {rules : RuleSet σ} (h : rules.OnlyLeaves) (place : Place) {edits : Edits} {n : Node}
    {s : σ} (hedits : edits.OnLeaves n.kind) :
    (rules.call place edits n s).node.val.children = n.children ∧
      (rules.call place edits n s).edits.OnLeaves n.kind :=
  runChain_onLeaves (h.children n.kind) (h.edits n.kind) hedits

namespace Node

theorem count_eq (n : Node) : n.count = (if n.kind = .insert then 2 else 1) + countAll n.children := by
  cases n with
  | leaf kind => cases kind <;> rfl
  | branch head => cases head <;> rfl

theorem count_eq_one {n : Node} (h : n.kind.isContainer = false) : n.count = 1 := by
  cases n with
  | leaf => rfl
  | branch head => cases head <;> simp [Node.kind, Head.kind, Kind.isContainer] at h

/-- Leaves count as many as they are. -/
theorem countAll_eq_length {ns : List Node} (h : ∀ n ∈ ns, n.kind.isContainer = false) : countAll ns = ns.length := by
  induction ns with
  | nil => rfl
  | cons n rest ih =>
    rw [List.forall_mem_cons] at h
    rw [countAll, count_eq_one h.1, ih h.2, List.length_cons, Nat.add_comm]

end Node

/-! ## The balance of a part -/

/-- The nodes that are put in with some events but passed over. -/
def allPassedOver (events : List Event) : List Arrival := events.flatMap Event.passedOver

theorem allPassedOver_append (events later : List Event) :
    allPassedOver (events ++ later) = allPassedOver events ++ allPassedOver later := List.flatMap_append

/-- The nodes that were asked for around a child, once its visit is over. -/
def Event.requested : Event → List Arrival
  | leave o edits => arrivals o .before edits.before ++ arrivals o .after edits.after
  | _ => []

/-- The nodes that were asked for around children among some events. -/
def requested (events : List Event) : List Arrival := events.flatMap Event.requested

theorem requested_append (events later : List Event) :
    requested (events ++ later) = requested events ++ requested later :=
  List.flatMap_append

/-- A part of a pass that is given so many nodes and leaves so many, with so many of them passed over. -/
structure Balance (p q : Stats) (given left passed : Nat) : Prop where
  count : left + q.pruned + p.inserted = given + p.pruned + q.inserted
  visited : q.visited + passed + p.inserted = p.visited + given + q.inserted

/-- The balances of parts that follow one another add up. -/
theorem Balance.trans {p q r : Stats} {given left passed given' left' passed' : Nat}
    (h : Balance p q given left passed) (h' : Balance q r given' left' passed') :
    Balance p r (given + given') (left + left') (passed + passed') where
  count := by
    have := h.count
    have := h'.count
    omega
  visited := by
    have := h.visited
    have := h'.visited
    omega

namespace Trace

open Node Tracked

/-- A finished visit: it asks for leaves, and all that it does inside of the node is in balance. -/
structure VisitBalanced (a : Arrival) (p : Progress σ) (v : Visited σ) : Prop where
  kind_eq : v.node.erase.kind = a.node.kind
  edits : v.edits.OnLeaves a.node.kind
  balance : Balance p.stats v.progress.stats a.node.count v.node.erase.count (allPassedOver v.events).length

/-- A settled child: the nodes asked for behind it are leaves, and are visited later unless they are passed over. -/
structure SettledBalanced (a : Arrival) (p : Progress σ) (b : Settled σ) : Prop where
  ahead : ∀ c ∈ b.ahead, c.node.kind.isContainer = false
  balance : Balance p.stats b.progress.stats a.node.count (countAll (eraseAll b.block))
    ((allPassedOver b.events).length + if a.origin.isBefore then 0 else b.ahead.length)

theorem countAll_nodes_ahead {as : List Arrival} (h : ∀ c ∈ as, c.node.kind.isContainer = false) :
    countAll (as.map Arrival.node) = as.length := by
  rw [countAll_eq_length (List.forall_mem_map.mpr h), List.length_map]

theorem allPassedOver_opening (a : Arrival) (place : Tracked.Place) (edits : Edits) (later : List Event) :
    allPassedOver (opening a place edits ++ later) = allPassedOver later := rfl

theorem length_allPassedOver_leave (o : Origin) (edits : Edits) (later : List Event) :
    (allPassedOver (.leave o edits :: later)).length =
      (if o.isBefore then edits.after.length else 0) + (allPassedOver later).length := by
  rw [allPassedOver, List.flatMap_cons, List.length_append, Event.passedOver, apply_ite List.length, length_arrivals]
  rfl

theorem length_requested_leave (o : Origin) (edits : Edits) (later : List Event) :
    (requested (.leave o edits :: later)).length =
      edits.before.length + edits.after.length + (requested later).length := by
  rw [requested, List.flatMap_cons, List.length_append, Event.requested, List.length_append, length_arrivals,
    length_arrivals]
  rfl

theorem balanced_still {a : Arrival} {n : Node} {edits : Edits} {p : Progress σ} {place : Tracked.Place} {s : σ}
    (hkind : n.kind = a.node.kind) (hedits : edits.OnLeaves a.node.kind) (hleaf : a.node.kind.isContainer = false) :
    VisitBalanced a p ⟨.fresh ⟨a.origin, n⟩, edits, p.visit.withState s, opening a place edits⟩ where
  kind_eq := hkind
  edits := hedits
  balance := by
    have hleft : n.count = 1 := count_eq_one (by rwa [hkind])
    have hgiven : a.node.count = 1 := count_eq_one hleaf
    show Balance p.stats _ a.node.count n.count 0
    rw [hleft, hgiven]
    constructor
    · rfl
    · rfl

/-- An insert counts as its code and one more. -/
theorem balanced_insert {a : Arrival} {codeSpan span : Option Span} {segments : List Node} {edits : Edits}
    {p : Progress σ} {place : Tracked.Place} {s : σ} {v : Visited σ} (hkind : a.node.kind = .insert)
    (hsegments : a.node.children = segments)
    (h : VisitBalanced ⟨a.origin ++ [.code], .branch .embeddedCode segments codeSpan⟩ (p.visit.withState s) v) :
    VisitBalanced a p ⟨v.node.withCode a.origin span, v.edits, v.progress, opening a place edits ++ v.events⟩ where
  kind_eq := by
    rw [erase_withCode, hkind]
    rfl
  edits := h.edits.of_isContainer rfl _
  balance := by
    have hgiven : a.node.count = 1 + (Node.branch .embeddedCode segments codeSpan).count := by
      rw [count_eq, count_eq, hkind, hsegments]
      simp [Node.kind, Head.kind, Node.children]
      omega
    have hleft : (TemplatePrep.withCode span v.node.erase).count = 1 + v.node.erase.count := by
      rw [count_eq v.node.erase, h.kind_eq]
      simp [TemplatePrep.withCode, Node.count, ownCount, Node.kind, Head.kind]
      omega
    have hvisit : Balance p.stats (p.visit.withState s).stats 1 1 0 := ⟨rfl, rfl⟩
    rw [allPassedOver_opening, erase_withCode, hgiven, hleft, ← Nat.zero_add (allPassedOver v.events).length]
    exact hvisit.trans h.balance

theorem balanced_branch {a : Arrival} {head : Head} {children : List Node} {span : Option Span} {edits : Edits}
    {p : Progress σ} {place : Tracked.Place} {s : σ} {w : Swept σ} (hkind : a.node.kind = head.kind)
    (hchildren : a.node.children = children) (hhead : head.kind ≠ .insert) (hedits : edits.OnLeaves a.node.kind)
    (h : Balance (p.visit.withState s).stats w.progress.stats (countAll children) (countAll (eraseAll w.nodes))
      (allPassedOver w.events).length) :
    VisitBalanced a p ⟨.walked a.origin head w.nodes span, edits, w.progress,
      opening a place edits ++ .walk a.origin children :: w.events⟩ where
  kind_eq := hkind.symm
  edits := hedits
  balance := by
    have hgiven : a.node.count = 1 + countAll children := by
      rw [count_eq, hkind, if_neg hhead, hchildren]
    have hleft : (Node.branch head (eraseAll w.nodes) span).count = 1 + countAll (eraseAll w.nodes) := by
      rw [count_eq, Node.kind, if_neg hhead, Node.children]
    have hvisit : Balance p.stats (p.visit.withState s).stats 1 1 0 := ⟨rfl, rfl⟩
    rw [hgiven, Tracked.erase, hleft, ← Nat.zero_add (allPassedOver _).length]
    exact hvisit.trans h

/-- What is put behind a child counts as inserted and as left, and so does a removed child as given and as removed. -/
theorem balanced_settled {a : Arrival} {p : Progress σ} {v : Visited σ} {q : Swept σ} (hv : VisitBalanced a p v)
    (hq : Balance v.progress.stats q.progress.stats 0 (countAll (eraseAll q.nodes)) (allPassedOver q.events).length) :
    SettledBalanced a p (v.settled a.origin q) := by
  have hafter : ∀ c ∈ arrivals a.origin .after v.edits.after, c.node.kind.isContainer = false := by
    intro c hc
    apply hv.edits.asked
    rw [List.mem_append, ← map_node_arrivals a.origin .after v.edits.after]
    exact .inr (List.mem_map_of_mem hc)
  have hahead : ∀ c ∈ (v.settled a.origin q).ahead, c.node.kind.isContainer = false :=
    fun c hc => hafter c (List.mem_reverse.mp hc)
  have hlength : (v.settled a.origin q).ahead.length = v.edits.after.length := by
    rw [Visited.settled, List.length_reverse, length_arrivals]
  have hkept : countAll (eraseAll v.kept) + (if v.edits.pruned then 1 else 0) = v.node.erase.count := by
    rw [Visited.kept]
    by_cases hp : v.edits.pruned = true
    · rw [if_pos hp, if_pos hp, count_eq_one (by rw [hv.kind_eq]; exact hv.edits.pruned hp)]
      rfl
    · rw [if_neg hp, if_neg hp]
      rfl
  have hblock : countAll (eraseAll (v.settled a.origin q).block) =
      countAll (eraseAll q.nodes) + countAll (eraseAll v.kept) + v.edits.after.length := by
    rw [Settled.block, eraseAll_append, eraseAll_map_fresh, countAll_append, countAll_nodes_ahead hahead, hlength,
      Visited.settled, eraseAll_append, countAll_append]
  have hpassed : (allPassedOver (v.settled a.origin q).events).length =
      (allPassedOver v.events).length +
        ((if a.origin.isBefore then v.edits.after.length else 0) + (allPassedOver q.events).length) := by
    rw [Visited.settled, allPassedOver_append, List.length_append, length_allPassedOver_leave]
  have hsum := hv.balance.trans hq
  refine ⟨hahead, ?_⟩
  rw [hblock, hpassed, hlength]
  constructor
  · have := hsum.count
    simp only [Visited.settled, Progress.insert, Progress.prune]
    omega
  · have := hsum.visited
    simp only [Visited.settled, Progress.insert, Progress.prune]
    split <;> omega

/-- A node of a queue is put in, so it was not given. -/
theorem balanced_queue_cons {a : Arrival} {p : Progress σ} {b : Settled σ} {q : Swept σ}
    (hbefore : a.origin.isBefore = true) (hleaf : a.node.kind.isContainer = false)
    (hb : SettledBalanced a (p.insert 1) b)
    (hq : Balance b.progress.stats q.progress.stats 0 (countAll (eraseAll q.nodes)) (allPassedOver q.events).length) :
    Balance p.stats q.progress.stats 0 (countAll (eraseAll (b.block ++ q.nodes)))
      (allPassedOver (b.events ++ q.events)).length := by
  have hput : Balance p.stats b.progress.stats 0 (countAll (eraseAll b.block)) (allPassedOver b.events).length := by
    have hbalance := hb.balance
    rw [hbefore, if_pos rfl, count_eq_one hleaf] at hbalance
    have hcount := hbalance.count
    have hvisited := hbalance.visited
    simp only [Progress.insert] at hcount hvisited
    constructor
    · omega
    · omega
  rw [eraseAll_append, countAll_append, allPassedOver_append, List.length_append]
  exact hput.trans hq

/-- The nodes asked for behind a child are given to the rest of the walk. -/
theorem balanced_sweep_cons {a : Arrival} {rest : List Arrival} {p r : Progress σ} {b : Settled σ} {events : List Event}
    {left : Nat} (hbefore : a.origin.isBefore = false) (hb : SettledBalanced a p b)
    (hw : Balance b.progress.stats r.stats (countAll ((b.ahead ++ rest).map Arrival.node)) left
      (allPassedOver events).length) :
    Balance p.stats r.stats (countAll ((a :: rest).map Arrival.node)) (countAll (eraseAll b.placed) + left)
      (allPassedOver (b.events ++ events)).length := by
  have hbalance := hb.balance
  rw [hbefore, Settled.block, eraseAll_append, eraseAll_map_fresh, countAll_append, countAll_nodes_ahead hb.ahead]
    at hbalance
  rw [List.map_append, countAll_append, countAll_nodes_ahead hb.ahead] at hw
  have hsum := hbalance.trans hw
  rw [List.map_cons, countAll, allPassedOver_append, List.length_append]
  have hcount := hsum.count
  have hvisited := hsum.visited
  simp only [Bool.false_eq_true, if_false] at hcount hvisited
  constructor
  · omega
  · omega

/-- With rules that deal in leaves the traced pass is in balance. -/
theorem preserved_balance {rules : RuleSet σ} (hrules : rules.OnlyLeaves) : Preserved rules
    (fun _ edits a p v => edits.OnLeaves a.node.kind → VisitBalanced a p v)
    (fun _ a p b => SettledBalanced a p b)
    (fun _ _ _ queue p q => (∀ a ∈ queue, a.origin.isBefore = true ∧ a.node.kind.isContainer = false) →
      Balance p.stats q.progress.stats 0 (countAll (eraseAll q.nodes)) (allPassedOver q.events).length)
    (fun _ settled rest p w => (∀ a ∈ rest, a.origin.isBefore = false) →
      ∃ left, countAll (eraseAll w.nodes) = countAll (eraseAll settled) + left ∧
        Balance p.stats w.progress.stats (countAll (rest.map Arrival.node)) left (allPassedOver w.events).length) where
  still {place edits a p} hstill hedits := by
    obtain ⟨hchildren, honly⟩ := hrules.call place.erase (s := p.state) hedits
    have hkind := (rules.call place.erase edits a.node p.state).node.property
    apply balanced_still hkind honly
    rcases hstill with hp | ⟨k, text, span, hn⟩
    · exact honly.pruned hp
    · rw [hn] at hkind
      rw [← hkind]
      cases k <;> rfl
  insert {place edits a p _ _ _ _} _ hn h hedits := by
    obtain ⟨hchildren, honly⟩ := hrules.call place.erase (s := p.state) hedits
    have hkind := (rules.call place.erase edits a.node p.state).node.property
    rw [hn] at hkind hchildren
    refine balanced_insert hkind.symm hchildren.symm (h (honly.of_isContainer ?_ _))
    rw [← hkind]
    rfl
  branch {place edits a p head _ _ w} _ hn hhead h hedits := by
    obtain ⟨hchildren, honly⟩ := hrules.call place.erase (s := p.state) hedits
    have hkind := (rules.call place.erase edits a.node p.state).node.property
    rw [hn] at hkind hchildren
    obtain ⟨left, hleft, hbalance⟩ := h
      (forall_mem_arrivals (fun o => o.isBefore = false) (fun i => Origin.isBefore_concat _ (.child i)) _)
    have hnodes : countAll (eraseAll w.nodes) = left := hleft.trans (Nat.zero_add left)
    rw [map_node_arrivals, ← hnodes] at hbalance
    exact balanced_branch hkind.symm hchildren.symm hhead honly hbalance
  settled {_ a p v q} hv hq := by
    have hv := hv (Edits.onLeaves_none _)
    apply balanced_settled hv
    apply hq
    intro c hc
    obtain ⟨j, hj, rfl⟩ := mem_arrivals.mp hc
    exact ⟨Origin.isBefore_concat _ _, hv.edits.asked _ (List.mem_append_left _ (List.getElem_mem hj))⟩
  queue_nil _ := ⟨rfl, rfl⟩
  queue_cons hb hq hqueue := by
    rw [List.forall_mem_cons] at hqueue
    exact balanced_queue_cons hqueue.1.1 hqueue.1.2 hb (hq hqueue.2)
  sweep_nil _ := ⟨0, rfl, rfl, rfl⟩
  sweep_cons {_ settled a rest p b w} ns hahead hb hw hrest := by
    rw [List.forall_mem_cons] at hrest
    have hnext : ∀ c ∈ b.ahead, c.origin.isBefore = false := by
      intro c hc
      rw [hahead, List.mem_reverse] at hc
      exact forall_mem_arrivals (fun o => o.isBefore = false) (fun j => Origin.isBefore_concat _ (.after j)) ns c hc
    obtain ⟨left, hleft, hbalance⟩ := hw (List.forall_mem_append.mpr ⟨hnext, hrest.2⟩)
    refine ⟨countAll (eraseAll b.placed) + left, ?_, balanced_sweep_cons hrest.1 hb hbalance⟩
    rw [hleft, eraseAll_append, countAll_append, Nat.add_assoc]

/-! ## Requests -/

/-- The pass counts an insertion for each node that was asked for on a visit of a child, and no others. -/
theorem preserved_requested (rules : RuleSet σ) : Preserved rules
    (fun _ _ _ p v => v.progress.stats.inserted = p.stats.inserted + (requested v.events).length)
    (fun _ _ p b => b.progress.stats.inserted = p.stats.inserted + (requested b.events).length)
    (fun _ _ _ queue p q => q.progress.stats.inserted = p.stats.inserted + queue.length + (requested q.events).length)
    (fun _ _ _ p w => w.progress.stats.inserted = p.stats.inserted + (requested w.events).length) where
  still _ := rfl
  insert _ _ h := h
  branch _ _ _ h := h
  settled {_ a p v q} hv hq := by
    rw [length_arrivals] at hq
    rw [Visited.settled, requested_append, List.length_append, length_requested_leave]
    show q.progress.stats.inserted + v.edits.after.length = _
    omega
  queue_nil := rfl
  queue_cons {_ _ _ _ queue p b q} hb hq := by
    have hput : b.progress.stats.inserted = p.stats.inserted + 1 + (requested b.events).length := hb
    rw [requested_append, List.length_append, List.length_cons]
    show q.progress.stats.inserted = _
    omega
  sweep_nil := rfl
  sweep_cons {_ _ _ _ p b w} _ _ hb hw := by
    rw [requested_append, List.length_append]
    show w.progress.stats.inserted = _
    rw [hw, hb, Nat.add_assoc]

/-- A node that was visited stands in one of the trees, unless it was removed when its visit was over. -/
def Stands (trees : List Tracked) (events : List Event) (a : Arrival) : Prop :=
  (∃ m ∈ trees, ∃ x, m.Holds x ∧ x.origin = a.origin) ∨ ∃ edits, .leave a.origin edits ∈ events ∧ edits.pruned = true

theorem Stands.mono {trees trees' : List Tracked} {events events' : List Event} {a : Arrival}
    (h : Stands trees events a) (htrees : trees ⊆ trees') (hevents : events ⊆ events') : Stands trees' events' a := by
  rcases h with ⟨m, hm, x, hx⟩ | ⟨edits, hleave, hp⟩
  · exact .inl ⟨m, htrees hm, x, hx⟩
  · exact .inr ⟨edits, hevents hleave, hp⟩

/-- A finished visit: all that it has visited inside of the node stands there. -/
structure VisitStands (a : Arrival) (v : Visited σ) : Prop where
  origin_eq : v.node.origin = a.origin
  children_eq_nil : v.edits.pruned = true → v.node.children = []
  stands : ∀ x ∈ visited v.events, x.origin.isCode = false → x = a ∨ Stands v.node.children v.events x

theorem stands_settled {a : Arrival} {v : Visited σ} {q : Swept σ} (hv : VisitStands a v)
    (hq : ∀ x ∈ visited q.events, x.origin.isCode = false → Stands q.nodes q.events x) :
    ∀ x ∈ visited (v.settled a.origin q).events, x.origin.isCode = false →
      Stands (v.settled a.origin q).placed (v.settled a.origin q).events x := by
  have hvisit : v.events ⊆ (v.settled a.origin q).events := List.subset_append_left _ _
  have hleave : Event.leave a.origin v.edits ∈ (v.settled a.origin q).events :=
    List.mem_append_right _ List.mem_cons_self
  have hqueue : q.events ⊆ (v.settled a.origin q).events :=
    fun _ he => List.mem_append_right _ (List.mem_cons_of_mem _ he)
  have hkept : v.edits.pruned = true ∨ v.node ∈ (v.settled a.origin q).placed := by
    by_cases hp : v.edits.pruned = true
    · exact .inl hp
    · refine .inr (List.mem_append_right _ ?_)
      rw [Visited.kept, if_neg hp]
      exact List.mem_singleton_self _
  intro x hx hcode
  rw [Visited.settled, visited_append] at hx
  rcases List.mem_append.mp hx with hx | hx
  · rcases hv.stands x hx hcode with rfl | ⟨m, hm, y, hy, heq⟩ | ⟨edits, hmem, hp⟩
    · rcases hkept with hp | hmem
      · exact .inr ⟨v.edits, hleave, hp⟩
      · exact .inl ⟨v.node, hmem, v.node, Tracked.Holds.self, hv.origin_eq⟩
    · rcases hkept with hp | hmem
      -- a removed node has had no walk, so nothing stands inside of it
      · rw [hv.children_eq_nil hp] at hm
        exact absurd hm List.not_mem_nil
      · exact .inl ⟨v.node, hmem, y, Tracked.Holds.of_mem_children hm hy, heq⟩
    · exact .inr ⟨edits, hvisit hmem, hp⟩
  · exact (hq x hx hcode).mono (List.subset_append_left _ _) hqueue

/-- Whatever the traced pass has visited stands in its tree, unless it was removed. -/
theorem preserved_stands (rules : RuleSet σ) : Preserved rules (fun _ _ a _ v => VisitStands a v)
    (fun _ _ _ b => ∀ x ∈ visited b.events, x.origin.isCode = false → Stands b.placed b.events x)
    (fun _ _ _ _ _ q => ∀ x ∈ visited q.events, x.origin.isCode = false → Stands q.nodes q.events x)
    (fun _ settled _ _ w => settled ⊆ w.nodes ∧
      ∀ x ∈ visited w.events, x.origin.isCode = false → Stands w.nodes w.events x) where
  still _ := ⟨rfl, fun _ => rfl, fun x hx _ => .inl (List.mem_singleton.mp hx)⟩
  insert {_ _ a _ _ _ _ v} _ _ h := by
    refine ⟨origin_withCode _ _ _, ?_, ?_⟩
    · rw [children_withCode]
      exact h.children_eq_nil
    · intro x hx hcode
      rw [children_withCode]
      rcases List.mem_cons.mp hx with rfl | hx
      · exact .inl rfl
      · rcases h.stands x hx hcode with rfl | hstands
        · rw [Origin.isCode_concat] at hcode
          exact absurd hcode (by decide)
        · exact .inr (hstands.mono (List.Subset.refl _) (List.subset_append_right _ _))
  branch {_ _ a _ _ _ _ w} hp _ _ h := by
    refine ⟨rfl, fun hpruned => absurd (hp.symm.trans hpruned) Bool.false_ne_true, ?_⟩
    intro x hx hcode
    rcases List.mem_cons.mp hx with rfl | hx
    · exact .inl rfl
    · refine .inr ((h.2 x hx hcode).mono (List.Subset.refl _) ?_)
      exact fun _ he => List.mem_append_right _ (List.mem_cons_of_mem _ he)
  settled hv hq := stands_settled hv hq
  queue_nil := List.forall_mem_nil _
  queue_cons {_ _ _ _ _ _ b q} hb hq := by
    have hplaced : b.placed ⊆ b.block ++ q.nodes :=
      fun _ hm => List.mem_append_left _ (List.mem_append_left _ hm)
    intro x hx hcode
    rw [visited_append] at hx
    rcases List.mem_append.mp hx with hx | hx
    · exact (hb x hx hcode).mono hplaced (List.subset_append_left _ _)
    · exact (hq x hx hcode).mono (List.subset_append_right _ _) (List.subset_append_right _ _)
  sweep_nil := ⟨List.Subset.refl _, List.forall_mem_nil _⟩
  sweep_cons {_ settled _ _ _ b w} _ _ hb hw := by
    obtain ⟨hsettled, hw⟩ := hw
    refine ⟨fun _ hm => hsettled (List.mem_append_left _ hm), ?_⟩
    intro x hx hcode
    rw [visited_append] at hx
    rcases List.mem_append.mp hx with hx | hx
    · exact (hb x hx hcode).mono (fun _ hm => hsettled (List.mem_append_right _ hm)) (List.subset_append_left _ _)
    · exact (hw x hx hcode).mono (List.Subset.refl _) (List.subset_append_right _ _)

/-- The end of a visit is noted for children only. -/
theorem VisitOrdered.leave_not_mem {a : Arrival} {v : Visited σ} (h : VisitOrdered a v) (edits : Edits) :
    .leave a.origin edits ∉ v.events := by
  intro hleave
  obtain ⟨-, k, ⟨rest, hmoment⟩, hk⟩ := h.during _ hleave
  have hstage : [toLex (5, 0)] = k :: rest := List.append_cancel_left hmoment
  rw [List.head_eq_of_cons_eq hstage] at hk
  exact lt_irrefl k hk

end Trace

open Trace

/-- A requested node is visited or passed over. -/
theorem Event.promised_or_passedOver {e : Event} {a : Arrival} (h : a ∈ e.requested) :
    a ∈ e.promised ∨ a ∈ e.passedOver := by
  cases e with
  | leave o edits =>
    rw [promised, passedOver]
    rcases List.mem_append.mp h with h | h
    · exact .inl (List.mem_append_left _ h)
    · by_cases hbefore : o.isBefore = true
      · exact .inr (by rwa [if_pos hbefore])
      · exact .inl (List.mem_append_right _ (by rwa [if_neg hbefore]))
  | enter | ran | walk => exact absurd h List.not_mem_nil

theorem Event.exists_origin_eq_of_requested {e : Event} {a : Arrival} (h : a ∈ e.requested) :
    ∃ o s, s.isInner = false ∧ a.origin = o ++ [s] := by
  cases e with
  | leave o edits =>
    rcases List.mem_append.mp h with h | h
    · obtain ⟨j, hj⟩ := exists_origin_eq_of_mem_arrivals h
      exact ⟨o, .before j, rfl, hj⟩
    · obtain ⟨j, hj⟩ := exists_origin_eq_of_mem_arrivals h
      exact ⟨o, .after j, rfl, hj⟩
  | enter | ran | walk => exact absurd h List.not_mem_nil

/-- What the counts of a finished pass say about the tree that it leaves. -/
structure Conserved (t : Template) (r : PassResult σ) (tree : Tracked) (events : List Event) : Prop where
  /-- Insertions add a node each and removals take one away. -/
  count : r.tree.count + r.stats.pruned = t.count + r.stats.inserted
  /-- All nodes are visited, those put in as well, but for those asked for behind one asked for in front of another. -/
  visited : r.stats.visited + (allPassedOver events).length = t.count + r.stats.inserted
  /-- What has been asked for around children makes up the insertions. -/
  inserted : r.stats.inserted = (requested events).length
  /-- What the chain of any node but the root has asked for is carried out, whatever the node's kind. -/
  carriedOut : ∀ o edits, .ran o edits ∈ events → o ≠ [] → CarriedOut events o edits
  /-- What is carried out stands in the tree, unless it was itself removed when its visit was over. -/
  stands : ∀ a ∈ requested events, Stands [tree] events a
  /-- Nothing that was asked for around the root is carried out, and nothing in the tree has come from there. -/
  root : (∀ edits, .leave [] edits ∉ events) ∧ ∀ m, tree.Holds m → Origin.Holds [] m.origin

/-- A template made of a root counts as the root does. -/
theorem Template.count_ofRoot {n : Node} (h : n.kind = .topLevel) : (Template.ofRoot n).count = n.count := by
  rw [Template.count, Node.count_eq, Node.count_eq n, h]
  rfl

/-- A requested node stands in the tree of the trace, unless it was removed. -/
theorem stands_of_requested {rules : RuleSet σ} {limit : Nat} {t : Template} {s : σ} {v : Trace.Visited σ}
    (hv : rules.trace? limit t s = some v) {a : Arrival} (ha : a ∈ requested v.events) :
    Stands [v.node] v.events a := by
  have hanswered := (preserved_answered rules).preserved_visit hv
  have hstands := (preserved_stands rules).preserved_visit hv
  obtain ⟨e, he, hrequested⟩ := List.mem_flatMap.mp ha
  obtain ⟨o, step, hstep, horigin⟩ := Event.exists_origin_eq_of_requested hrequested
  have hcode : a.origin.isCode = false := by
    rw [horigin, Origin.isCode_concat]
    cases step with
    | before | after => rfl
    | child | code => exact absurd hstep Bool.noConfusion
  rcases Event.promised_or_passedOver hrequested with hpromised | hpassed
  · rcases hstands.stands a (hanswered.promised e he a hpromised) hcode with rfl | ⟨m, hm, x, hx, heq⟩ | hremoved
    · simp at horigin
    · exact .inl ⟨v.node, List.mem_singleton_self _, x, Tracked.Holds.of_mem_children hm hx, heq⟩
    · exact .inr hremoved
  · obtain ⟨m, hm, hholds⟩ := hanswered.passedOver e he a hpassed
    exact .inl ⟨v.node, List.mem_singleton_self _, .fresh a, Tracked.Holds.of_mem_children hm hholds, rfl⟩

/-- With rules that keep the children of their nodes, and remove and ask for leaves only, the counts of a finished pass
say how many nodes there are: as many as before and those put in, less those removed. All of these are visited but for
those that a walk passes over. Requests around the root are neither carried out nor counted; around any other node they
are both. -/
theorem RuleSet.conserved_of_run? {rules : RuleSet σ} (hrules : rules.OnlyLeaves) {limit : Nat} {t : Template} {s : σ}
    {r : PassResult σ} (h : rules.run? limit t s = some r) :
    ∃ v, rules.trace? limit t s = some v ∧ r = ⟨.ofRoot v.node.erase, v.progress.stats, v.progress.state⟩ ∧
      Conserved t r v.node v.events := by
  obtain ⟨v, hv, rfl⟩ := RuleSet.exists_trace?_of_run? h
  have hbalanced := (preserved_balance hrules).preserved_visit hv (Edits.onLeaves_none _)
  have honce := exactlyOnce_of_trace? hv
  have hkind : v.node.erase.kind = .topLevel := hbalanced.kind_eq
  refine ⟨v, hv, rfl, ?_⟩
  constructor
  case count =>
    have hcount := hbalanced.balance.count
    rw [Template.count_ofRoot hkind, Template.count]
    exact hcount
  case visited =>
    have hvisited := hbalanced.balance.visited
    simp only [Stats.zero, Nat.add_zero, Nat.zero_add] at hvisited
    rw [Template.count]
    exact hvisited
  case inserted =>
    have hinserted := (preserved_requested rules).preserved_visit hv
    exact hinserted.trans (Nat.zero_add _)
  case carriedOut => exact honce.carriedOut
  case stands => exact fun a ha => stands_of_requested hv ha
  case root =>
    have hordered := (preserved_order rules).preserved_visit hv
    exact ⟨fun edits => hordered.leave_not_mem edits, honce.root.2⟩

/-! ## Edits on both sides and around top-level code -/

/-- Replaces the comment `C` as `Pass.bothSides` does, and asks for a text behind top-level code. -/
def trailing : RuleSet (List Script.Note) :=
  Pass.bothSides.attach .topLevel (Script.rule [] [.insertAfter (.text "T")])

theorem trailing_onlyLeaves : trailing.OnlyLeaves := by
  have hcomment : (Edits.none ++ Edits.insertBefore (.text "X") ++ Edits.insertAfter (.comment "Z") ++
      Edits.prune).OnLeaves .comment := ⟨by decide, by decide⟩
  have htext : (Edits.none ++ Edits.insertBefore (.text "W") ++ Edits.insertAfter (.comment "Y")).OnLeaves .text :=
    ⟨by decide, by decide⟩
  have htopLevel : (Edits.none ++ Edits.insertAfter (.text "T")).OnLeaves .topLevel := ⟨by decide, by decide⟩
  refine ((RuleSet.onlyLeaves_empty.attach ?_ ?_).attach ?_ ?_).attach ?_ ?_
  all_goals
    intro v n s
    rw [Script.rule]
    split
  · rfl
  · rfl
  · exact hcomment
  · exact Edits.onLeaves_none _
  · rfl
  · rfl
  · exact htext
  · exact Edits.onLeaves_none _
  · rfl
  · rfl
  · exact htopLevel
  · exact Edits.onLeaves_none _

/-- The text behind the root is dropped, the one behind the top-level code inside of it is put in. The comment `Y` is
passed over: it is asked for behind a text that was itself asked for in front of the comment `C`. -/
theorem RuleSet.conserved_trailing :
    trailing.OnlyLeaves ∧
    trailing.run? 16 ⟨[.topLevel [.comment "C"], .comment "B"], none⟩ [] =
      some ⟨⟨[.topLevel [.text "W", .text "X", .comment "Y", .comment "Z"], .text "T", .comment "B"], none⟩,
        ⟨8, 1, 5⟩, []⟩ ∧
    ∃ v, trailing.trace? 16 ⟨[.topLevel [.comment "C"], .comment "B"], none⟩ [] = some v ∧
      8 + (allPassedOver v.events).length =
        (⟨[.topLevel [.comment "C"], .comment "B"], none⟩ : Template).count + 5 := by
  have hrun : trailing.run? 16 ⟨[.topLevel [.comment "C"], .comment "B"], none⟩ [] =
      some ⟨⟨[.topLevel [.text "W", .text "X", .comment "Y", .comment "Z"], .text "T", .comment "B"], none⟩,
        ⟨8, 1, 5⟩, []⟩ := by
    cbv
  obtain ⟨v, hv, _, hconserved⟩ := RuleSet.conserved_of_run? trailing_onlyLeaves hrun
  exact ⟨trailing_onlyLeaves, hrun, v, hv, hconserved.visited⟩

end TemplatePrep

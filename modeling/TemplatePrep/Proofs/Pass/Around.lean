import TemplatePrep.Proofs.Pass.JournalInduction

/-!
# What stands around a visited node

When the visit of a child begins, the siblings that it is shown are those of its container at that point of the pass.
The proof carries the child list of one container along: a settled child changes its own container's list as the edits
say, and everything inside a child is noted under containers that stand further below.
-/

namespace TemplatePrep

/-! ## Child lists after some entries -/

/-- The container whose child list an entry sets or changes. -/
def Entry.changes? : Entry → Option Origin
  | visit _ _ _ _ _ => none
  | walk container _ _ => some container
  | change container _ => some container

theorem Entry.update_of_ne {e : Entry} {o : Origin} (h : e.changes? ≠ some o) (lists : Origin → List Tracked) :
    e.update lists o = lists o := by
  cases e with
  | visit => rfl
  | walk container => exact if_neg fun heq => h (congrArg some heq.symm)
  | change container => exact if_neg fun heq => h (congrArg some heq.symm)

theorem childLists_concat (past : List Entry) (e : Entry) : childLists (past ++ [e]) = e.update (childLists past) := by
  rw [childLists, List.foldl_append, List.foldl_cons, List.foldl_nil, childLists]

/-- A child list stays as it is while nothing is noted about it. -/
theorem childLists_append_of_ne {past entries : List Entry} {o : Origin} (h : ∀ e ∈ entries, e.changes? ≠ some o) :
    childLists (past ++ entries) o = childLists past o := by
  induction entries generalizing past with
  | nil => rw [List.append_nil]
  | cons e rest ih =>
    obtain ⟨hfirst, hrest⟩ := List.forall_mem_cons.mp h
    rw [← List.singleton_append, ← List.append_assoc, ih hrest, childLists_concat, Entry.update_of_ne hfirst]

/-- The changes of one child list are carried out in turn. -/
theorem childLists_append_changes (past : List Entry) (o : Origin) (cs : List Change) :
    childLists (past ++ cs.map (.change o)) o = cs.foldl Change.apply (childLists past o) := by
  induction cs generalizing past with
  | nil => rw [List.map_nil, List.append_nil, List.foldl_nil]
  | cons c rest ih =>
    have hfirst : (Entry.change o c).update (childLists past) o = c.apply (childLists past o) := if_pos rfl
    rw [List.map_cons, ← List.singleton_append, ← List.append_assoc, ih, childLists_concat, hfirst, List.foldl_cons]

/-! ## Entries and those before them -/

/-- Each entry is as required, given the entries before it. -/
def Throughout (P : List Entry → Entry → Prop) : List Entry → List Entry → Prop
  | _, [] => True
  | past, e :: rest => P past e ∧ Throughout P (past ++ [e]) rest

section

variable {P : List Entry → Entry → Prop} {past : List Entry}

theorem throughout_append {entries later : List Entry} :
    Throughout P past (entries ++ later) ↔ Throughout P past entries ∧ Throughout P (past ++ entries) later := by
  induction entries generalizing past with
  | nil => rw [List.nil_append, List.append_nil, Throughout, true_and]
  | cons e rest ih =>
    rw [List.cons_append, Throughout, Throughout, ih, and_assoc, List.append_assoc, List.singleton_append]

theorem throughout_of_forall {entries : List Entry} (h : ∀ e ∈ entries, ∀ past, P past e) :
    Throughout P past entries := by
  induction entries generalizing past with
  | nil => trivial
  | cons e rest ih =>
    obtain ⟨hfirst, hrest⟩ := List.forall_mem_cons.mp h
    exact ⟨hfirst past, ih hrest⟩

theorem Throughout.of_eq_append {entries earlier later : List Entry} {e : Entry} (h : Throughout P past entries)
    (heq : entries = earlier ++ e :: later) : P (past ++ earlier) e := by
  rw [heq, throughout_append] at h
  exact h.2.1

end

/-! ## What a visit is shown -/

/-- The node that stands where a visit takes place: the visited node as it was when the visit began, or the insert whose
code it is. The code's visit goes on with what has been asked for on the visit of the insert. -/
def StandsFor (past : List Entry) (container : Origin) (place : Tracked.Place) (asked : Edits) (a : Arrival)
    (m : Tracked) : Prop :=
  m.arrival = a ∧ asked = Edits.none ∨
    a.node.kind = .embeddedCode ∧ a.origin = m.origin ++ [.code] ∧
      ∃ asked' calls, .visit m.arrival (some container) place asked' calls ∈ past ∧ asked = askedAfter asked' calls

/-- A visit in a container is shown the siblings as they stand at that point of the pass. -/
def Surrounded (past : List Entry) (container : Option Origin) (place : Tracked.Place) (asked : Edits) (a : Arrival) :
    Prop :=
  ∀ K, container = some K →
    ∃ m, childLists past K = place.before ++ m :: place.after ∧ StandsFor past K place asked a m

/-- What a visit is shown is what there is. -/
def Entry.IsSurrounded (past : List Entry) : Entry → Prop
  | visit a container place asked _ => Surrounded past container place asked a
  | _ => True

/-- `o.Below x`: the second origin stands strictly below the first. -/
def Origin.Below (o x : Origin) : Prop := ∃ s rest, x = o ++ s :: rest

theorem Origin.below_concat (o : Origin) (s : Step) : o.Below (o ++ [s]) := ⟨s, [], rfl⟩

theorem Origin.Below.isPrefix {o x : Origin} (h : o.Below x) : o <+: x := by
  obtain ⟨s, rest, rfl⟩ := h
  exact List.prefix_append o (s :: rest)

theorem Origin.Below.append {o x : Origin} (h : o.Below x) (rest : Origin) : o.Below (x ++ rest) := by
  obtain ⟨s, more, rfl⟩ := h
  exact ⟨s, more ++ rest, by rw [List.append_assoc, List.cons_append]⟩

theorem Origin.Below.ne {o x : Origin} (h : o.Below x) : x ≠ o := by
  rintro rfl
  obtain ⟨s, rest, heq⟩ := h
  simp at heq

theorem below_arrivals {o x : Origin} (h : o.Below x) (step : Nat → Step) (ns : List Node) :
    ∀ a ∈ arrivals x step ns, o.Below a.origin :=
  forall_mem_arrivals (o.Below ·) (fun i => h.append [step i]) ns

namespace Journal

/-- The entries noted after others, of a part of the pass that works on the children of one container: its visits are
shown what there is, nothing changes outside of the container, and its child list is now the given one. -/
structure Around (container : Origin) (past entries : List Entry) (siblings : List Tracked) : Prop where
  surrounded : Throughout Entry.IsSurrounded past entries
  inside : ∀ e ∈ entries, ∀ o, e.changes? = some o → container <+: o
  siblings_eq : childLists (past ++ entries) container = siblings

section

variable {container : Origin} {past entries later : List Entry} {siblings changed : List Tracked}

theorem Around.nil (h : childLists past container = siblings) : Around container past [] siblings :=
  ⟨trivial, List.forall_mem_nil _, by rw [List.append_nil, h]⟩

theorem Around.append (h : Around container past entries siblings)
    (hlater : Around container (past ++ entries) later changed) :
    Around container past (entries ++ later) changed where
  surrounded := throughout_append.mpr ⟨h.surrounded, hlater.surrounded⟩
  inside := List.forall_mem_append.mpr ⟨h.inside, hlater.inside⟩
  siblings_eq := by rw [← List.append_assoc, hlater.siblings_eq]

theorem Around.changes (h : childLists past container = siblings) (cs : List Change) :
    Around container past (cs.map (.change container)) (cs.foldl Change.apply siblings) where
  surrounded := by
    apply throughout_of_forall
    rw [List.forall_mem_map]
    exact fun _ _ _ => trivial
  inside := by
    rw [List.forall_mem_map]
    rintro c _ o ⟨⟩
    exact List.prefix_refl container
  siblings_eq := by rw [childLists_append_changes, h]

theorem Around.change (h : childLists past container = siblings) (c : Change) :
    Around container past [.change container c] (c.apply siblings) :=
  Around.changes h [c]

/-- The visit of a child leaves the child list as it is: whatever changes is further below. -/
theorem Around.of_visit {o : Origin} (ho : container.Below o) (h : childLists past container = siblings)
    (hsurrounded : Throughout Entry.IsSurrounded past entries)
    (hinside : ∀ e ∈ entries, ∀ x, e.changes? = some x → o <+: x) : Around container past entries siblings where
  surrounded := hsurrounded
  inside := fun e he x hx => ho.isPrefix.trans (hinside e he x hx)
  siblings_eq := by
    rw [childLists_append_of_ne, h]
    intro e he hx
    obtain ⟨rest, hrest⟩ := hinside e he container hx
    exact (ho.append rest).ne hrest

end

variable {σ : Type}

theorem surrounded_code {rules : RuleSet σ} {past : List Entry} {container : Option Origin} {place : Tracked.Place}
    {edits : Edits} {a : Arrival} {s : σ} {codeSpan : Option Span} {segments : List Node}
    (hkind : a.node.kind = .insert) (h : Surrounded past container place edits a) :
    Surrounded (past ++ [opening rules container place edits a s]) container place
      (rules.call place.erase edits a.node s).edits ⟨a.origin ++ [.code], .branch .embeddedCode segments codeSpan⟩ := by
  rintro K rfl
  obtain ⟨m, hlist, hstands⟩ := h K rfl
  have hm : m.arrival = a := by
    rcases hstands with ⟨hm, -⟩ | ⟨hcode, -⟩
    · exact hm
    · exact absurd (hkind.symm.trans hcode) Kind.noConfusion
  refine ⟨m, ?_, .inr ⟨rfl, ?_, edits, rules.calls place.erase edits a.node s, ?_, ?_⟩⟩
  · rwa [childLists_concat]
  · rw [← hm]
    rfl
  · rw [hm]
    exact List.mem_append_right _ (List.mem_singleton_self _)
  · exact rules.edits_call place.erase edits a.node s

/-- All visits of a pass are shown what there is. -/
theorem preserved_around (rules : RuleSet σ) : Preserved rules
    (fun container place edits a _ _ entries =>
      (∀ e ∈ entries, ∀ o, e.changes? = some o → a.origin <+: o) ∧
      ∀ past, Surrounded past container place edits a → Throughout Entry.IsSurrounded past entries)
    (fun container place a _ b entries => container.Below a.origin →
      ∀ past, childLists past container = place.before ++ .fresh a :: place.after →
        Around container past entries (place.before ++ (b.block ++ place.after)))
    (fun container _ before after queue _ q entries => (∀ a ∈ queue, container.Below a.origin) →
      ∀ past, childLists past container = before ++ after →
        Around container past entries (before ++ (q.nodes ++ after)))
    (fun container _ settled rest _ w entries => (∀ a ∈ rest, container.Below a.origin) →
      ∀ past, childLists past container = settled ++ rest.map .fresh → Around container past entries w.nodes) where
  still _ := by
    refine ⟨List.forall_mem_singleton.mpr nofun, ?_⟩
    exact fun past h => ⟨h, trivial⟩
  insert {container place edits a p _ segments span v entries} _ hn h := by
    have hkind : a.node.kind = .insert := (Outcome.kind_eq hn).symm
    constructor
    · refine List.forall_mem_cons.mpr ⟨nofun, ?_⟩
      exact fun e he o ho => (List.prefix_append _ _).trans (h.1 e he o ho)
    · exact fun past hpast => ⟨hpast, h.2 _ (surrounded_code hkind hpast)⟩
  branch {container place edits a p head children span w entries} _ _ _ h := by
    have hwalk : ∀ past, Around a.origin (past ++ [.walk a.origin head.parent (arrivals a.origin .child children)])
        entries w.nodes := by
      intro past
      apply h (forall_mem_arrivals (a.origin.Below ·) (fun i => a.origin.below_concat (.child i)) children)
      rw [childLists_concat]
      exact if_pos rfl
    constructor
    · refine List.forall_mem_cons.mpr ⟨nofun, ?_⟩
      refine List.forall_mem_cons.mpr ⟨?_, (hwalk []).inside⟩
      rintro o ⟨⟩
      exact List.prefix_refl a.origin
    · exact fun past hpast => ⟨hpast, trivial, (hwalk _).surrounded⟩
  settled {container place a p v q visit front} hv hq hbelow past hpast := by
    have hvisit : Around container past visit (place.before ++ .fresh a :: place.after) := by
      refine Around.of_visit hbelow hpast (hv.2 past ?_) hv.1
      rintro K ⟨⟩
      exact ⟨.fresh a, hpast, .inl ⟨rfl, rfl⟩⟩
    -- then the child becomes what its visit has left, the nodes in front of it are settled, and its edits are carried out
    have hreplace := Around.change hvisit.siblings_eq (.replace place.before.length v.node)
    rw [Change.apply_replace] at hreplace
    have hvisited := hvisit.append hreplace
    have hfront := hq (below_arrivals hbelow .before v.edits.before) _ hvisited.siblings_eq
    have hsettled := hvisited.append hfront
    rw [← List.append_assoc place.before] at hsettled
    have hclosing := Around.changes hsettled.siblings_eq (v.edits.closing a.origin (place.before ++ q.nodes).length)
    rw [Edits.foldl_apply_closing, List.append_assoc place.before] at hclosing
    have hall := hsettled.append hclosing
    rw [List.append_assoc, List.append_assoc, List.singleton_append] at hall
    rwa [Trace.Settled.block, Trace.Visited.settled, Trace.Visited.kept, List.append_assoc, List.append_assoc]
  queue_nil := fun _ past hpast => by
    rw [List.nil_append]
    exact Around.nil hpast
  queue_cons {container parent before after a queue p b q block entries} hb hq hbelow past hpast := by
    obtain ⟨ha, hqueue⟩ := List.forall_mem_cons.mp hbelow
    have hput := Around.change hpast (.put before.length a)
    rw [Change.apply_put] at hput
    have hblock := hb ha _ hput.siblings_eq
    dsimp only at hblock
    rw [← List.append_assoc] at hblock
    have hsettled := hput.append hblock
    have hall := hsettled.append (hq hqueue _ hsettled.siblings_eq)
    rwa [List.append_assoc, List.singleton_append, List.append_assoc before, ← List.append_assoc b.block] at hall
  sweep_nil := fun _ past hpast => Around.nil (by rwa [List.map_nil, List.append_nil] at hpast)
  sweep_cons {container parent settled a rest p b w block entries} ns hahead hb hw hbelow past hpast := by
    obtain ⟨ha, hrest⟩ := List.forall_mem_cons.mp hbelow
    have hblock := hb ha past hpast
    have hnext : ∀ c ∈ b.ahead ++ rest, container.Below c.origin := by
      refine List.forall_mem_append.mpr ⟨?_, hrest⟩
      rw [hahead]
      exact fun c hc => below_arrivals ha .after ns c (List.mem_reverse.mp hc)
    refine hblock.append (hw hnext _ ?_)
    rw [hblock.siblings_eq, Trace.Settled.block, List.map_append, List.append_assoc, List.append_assoc]

end Journal

end TemplatePrep

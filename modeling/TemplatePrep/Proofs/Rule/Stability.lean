import TemplatePrep.Profile
import TemplatePrep.Proofs.Rule.Effect

/-!
# Built-in rules leave nothing behind

What one list of built-in rules has rewritten, another one leaves alone, as long as the first looked after blank text
and after initial comments wherever the second does. Blank text is then removed or marked, and marked text is not blank;
a comment that comes first has a marker in front of it, so that it does not come first any more. No pass of the second
rules therefore changes anything, whatever the order and number of the rules in both lists.
-/

namespace TemplatePrep

namespace Effect

/-- The first effect looks after everything that the second one looks after. -/
structure Covers (e e' : Effect) : Prop where
  blankText : e.blankText = .kept → e'.blankText = .kept
  comments : e'.marksComments = true → e.marksComments = true

/-- An effect leaves a child of a container alone, with all that is inside of it. -/
structure LeavesAlone (e : Effect) (parent : Parent) (n : Node) : Prop where
  onChild : e.onChild parent n = [n]
  removals : e.removals parent n = 0
  markers : e.markers n = 0

variable {e e' : Effect}

/-! ## Lists -/

theorem onChildren_eq_self {parent : Parent} {ns : List Node} (h : ∀ n ∈ ns, e.LeavesAlone parent n) :
    e.onChildren parent ns = ns := by
  induction ns with
  | nil => rfl
  | cons n rest ih =>
    rw [List.forall_mem_cons] at h
    rw [onChildren, h.1.onChild, ih h.2, List.singleton_append]

theorem removalsAll_eq_zero {parent : Parent} {ns : List Node} (h : ∀ n ∈ ns, e.LeavesAlone parent n) :
    e.removalsAll parent ns = 0 := by
  induction ns with
  | nil => rfl
  | cons n rest ih =>
    rw [List.forall_mem_cons] at h
    rw [removalsAll, h.1.removals, ih h.2]

theorem markersAll_eq_zero {parent : Parent} {ns : List Node} (h : ∀ n ∈ ns, e.LeavesAlone parent n) :
    e.markersAll ns = 0 := by
  induction ns with
  | nil => rfl
  | cons n rest ih =>
    rw [List.forall_mem_cons] at h
    rw [markersAll, h.1.markers, ih h.2]

/-- A branch is left alone if its children are and none of them is a comment to be marked. -/
theorem LeavesAlone.branch {head : Head} {children : List Node} (parent : Parent) (span : Option Span)
    (h : ∀ n ∈ children, e.LeavesAlone head.parent n) (hmarker : e.marker children = []) :
    e.LeavesAlone parent (.branch head children span) where
  onChild := by rw [Effect.onChild, onChildren_eq_self h, hmarker, List.nil_append]
  removals := by rw [Effect.removals, removalsAll_eq_zero h]
  markers := by rw [Effect.markers, onChildren_eq_self h, hmarker, markersAll_eq_zero h, List.length_nil]

/-! ## Leaves -/

/-- A leaf that is not blank text is left alone. -/
theorem LeavesAlone.of_not_isBlankText {parent : Parent} {kind : LeafKind} {text : String} (span : Option Span)
    (h : isBlankText parent kind text = false) : e.LeavesAlone parent (.leaf kind text span) where
  onChild := by rw [Effect.onChild, onLeaf, h, if_neg Bool.false_ne_true]
  removals := by rw [Effect.removals, h, Bool.false_and, if_neg Bool.false_ne_true]
  markers := rfl

/-- An effect that keeps blank text leaves every leaf alone. -/
theorem LeavesAlone.of_kept (parent : Parent) (kind : LeafKind) (text : String) (span : Option Span)
    (h : e.blankText = .kept) : e.LeavesAlone parent (.leaf kind text span) where
  onChild := by
    rw [Effect.onChild, onLeaf, h]
    exact ite_self _
  removals := by
    rw [Effect.removals, h]
    simp
  markers := rfl

theorem isBlankText_marker_append (parent : Parent) (kind : LeafKind) (text : String) :
    isBlankText parent kind (Text.marker ++ text) = false := by
  rw [isBlankText, Text.isBlank_marker_append, Bool.and_false, Bool.false_and]

/-- A marker is not blank. -/
theorem LeavesAlone.marker (e : Effect) (parent : Parent) : e.LeavesAlone parent (Node.text Text.marker) :=
  .of_not_isBlankText none rfl

/-- What one effect has made of a leaf, an effect that it covers leaves alone: blank text that is still there has been
marked, unless neither effect looks after it. -/
theorem Covers.leavesAlone_onLeaf (h : e.Covers e') {parent : Parent} {kind : LeafKind} {text : String}
    {span : Option Span} : ∀ m ∈ e.onLeaf parent kind text span, e'.LeavesAlone parent m := by
  intro m hm
  rw [onLeaf] at hm
  by_cases hblank : isBlankText parent kind text = true
  · rw [if_pos hblank] at hm
    cases he : e.blankText with
    | kept =>
      rw [he, List.mem_singleton] at hm
      rw [hm]
      exact .of_kept parent kind text span (h.blankText he)
    | removed =>
      rw [he] at hm
      exact absurd hm List.not_mem_nil
    | marked =>
      rw [he, List.mem_singleton] at hm
      rw [hm]
      exact .of_not_isBlankText span (isBlankText_marker_append parent kind text)
  · rw [if_neg hblank, List.mem_singleton] at hm
    rw [hm]
    exact .of_not_isBlankText span (by simpa using hblank)

/-! ## Trees -/

/-- Siblings that have got the marker they need do not get another. -/
theorem Covers.marker_append (h : e.Covers e') (siblings : List Node) :
    e'.marker (e.marker siblings ++ siblings) = [] := by
  rw [Effect.marker, if_neg]
  rw [Bool.and_eq_true, not_and, Bool.not_eq_true]
  intro hmarks
  rw [Effect.marker, h.comments hmarks, Bool.true_and]
  cases hfirst : startsWithComment siblings with
  | true => rfl
  | false => exact hfirst

theorem eq_of_mem_marker {siblings : List Node} {m : Node} (h : m ∈ e.marker siblings) :
    m = Node.text Text.marker := by
  rw [Effect.marker] at h
  split at h
  · exact List.mem_singleton.mp h
  · exact absurd h List.not_mem_nil

mutual
/-- What one effect has made of a child, an effect that it covers leaves alone. -/
theorem Covers.leavesAlone_onChild (h : e.Covers e') (parent : Parent) :
    (n : Node) → ∀ m ∈ e.onChild parent n, e'.LeavesAlone parent m
  | .leaf kind text span => by
    rw [onChild]
    exact h.leavesAlone_onLeaf
  | .branch head children span => by
    intro m hm
    rw [onChild, List.mem_singleton] at hm
    rw [hm]
    apply LeavesAlone.branch
    · intro n hn
      rcases List.mem_append.mp hn with hn | hn
      · rw [eq_of_mem_marker hn]
        exact .marker e' head.parent
      · exact h.leavesAlone_onChildren head.parent children n hn
    · exact h.marker_append _

theorem Covers.leavesAlone_onChildren (h : e.Covers e') (parent : Parent) :
    (ns : List Node) → ∀ m ∈ e.onChildren parent ns, e'.LeavesAlone parent m
  | [] => by
    rw [onChildren]
    exact List.forall_mem_nil _
  | n :: rest => by
    rw [onChildren]
    intro m hm
    rcases List.mem_append.mp hm with hm | hm
    · exact h.leavesAlone_onChild parent n m hm
    · exact h.leavesAlone_onChildren parent rest m hm
end

theorem onChild_root (e : Effect) (t : Template) : e.onChild .root t.root = [(e.onTemplate t).root] := by
  rw [Template.root, onChild]
  rfl

/-- What one effect has made of a template, an effect that it covers leaves alone. -/
theorem Covers.leavesAlone_onTemplate (h : e.Covers e') (t : Template) :
    e'.LeavesAlone .root (e.onTemplate t).root := by
  apply h.leavesAlone_onChild .root t.root
  rw [onChild_root]
  exact List.mem_singleton_self _

theorem LeavesAlone.onTemplate_eq_self {t : Template} (h : e.LeavesAlone .root t.root) : e.onTemplate t = t := by
  have hroot := h.onChild
  rw [onChild_root, List.singleton_inj] at hroot
  rw [← Template.ofRoot_root (e.onTemplate t), hroot, Template.ofRoot_root]

theorem LeavesAlone.counts_root {t : Template} (h : e.LeavesAlone .root t.root) :
    e.counts Place.root t.root = ⟨t.count, 0, 0⟩ := by
  have hfront : e.front Place.root.before (e.onChild Place.root.parent t.root) = [] := front_eq_nil e [] rfl
  have hremovals : e.removals Place.root.parent t.root = 0 := h.removals
  rw [counts, hfront, hremovals, h.markers]
  rfl

/-! ## Lists of built-in rules -/

theorem blankText_ofBuiltins_eq_kept_iff {bs : List Builtin} :
    (ofBuiltins bs).blankText = .kept ↔ .stripWhitespaceText ∉ bs ∧ .preserveWhitespaceText ∉ bs := by
  induction bs using List.reverseRecOn with
  | nil => simp [ofBuiltins]
  | append_singleton bs b ih =>
    rw [blankText_concat]
    cases b with
    | stripWhitespaceText | preserveWhitespaceText => simp [Builtin.blankText?]
    | markInitialComments => simpa [Builtin.blankText?] using ih

/-- Lists of built-in rules cover one another if they have rules for the same things. -/
theorem covers_ofBuiltins {bs bs' : List Builtin}
    (hblank : .stripWhitespaceText ∈ bs ∨ .preserveWhitespaceText ∈ bs ∨
      .stripWhitespaceText ∉ bs' ∧ .preserveWhitespaceText ∉ bs')
    (hcomments : .markInitialComments ∈ bs ∨ .markInitialComments ∉ bs') :
    (ofBuiltins bs).Covers (ofBuiltins bs') where
  blankText := by
    intro hkept
    obtain ⟨hstrip, hpreserve⟩ := blankText_ofBuiltins_eq_kept_iff.mp hkept
    rcases hblank with hmem | hmem | hnone
    · exact absurd hmem hstrip
    · exact absurd hmem hpreserve
    · exact blankText_ofBuiltins_eq_kept_iff.mpr hnone
  comments := by
    simp only [ofBuiltins, List.contains_iff_mem]
    intro hmarks
    exact hcomments.resolve_right (not_not_intro hmarks)

end Effect

/-! ## Passes -/

namespace RuleSet

variable {σ τ : Type}

/-- A pass with built-in rules changes nothing where their effect leaves the root alone, and visits every node once. -/
theorem exists_run?_of_leavesAlone (bs : List Builtin) {t : Template} (s : σ)
    (h : (Effect.ofBuiltins bs).LeavesAlone .root t.root) :
    ∃ limit, (ofBuiltins bs).run? limit t s = some ⟨t, ⟨t.count, 0, 0⟩, s⟩ := by
  obtain ⟨limit, hrun⟩ := Effect.exists_run?_counts bs t s
  rw [h.onTemplate_eq_self, h.counts_root] at hrun
  exact ⟨limit, hrun⟩

/-- A pass of the first rule set ends on every template, and after it the second one has nothing to do: its pass ends,
leaves the tree as it is, and visits each node once. -/
def NothingLeft (first : RuleSet σ) (second : RuleSet τ) : Prop :=
  ∀ (t : Template) (s : σ), (∃ limit r, first.run? limit t s = some r) ∧
    ∀ limit r, first.run? limit t s = some r →
      ∀ s' : τ, ∃ limit', second.run? limit' r.tree s' = some ⟨r.tree, ⟨r.tree.count, 0, 0⟩, s'⟩

theorem nothingLeft_of_covers {bs bs' : List Builtin} (h : (Effect.ofBuiltins bs).Covers (Effect.ofBuiltins bs')) :
    NothingLeft (ofBuiltins bs : RuleSet σ) (ofBuiltins bs' : RuleSet τ) := by
  intro t s
  obtain ⟨limit, hrun⟩ := Effect.exists_run?_counts bs t s
  refine ⟨⟨limit, _, hrun⟩, ?_⟩
  intro limit' r hr s'
  rw [run?_unique hr hrun]
  exact exists_run?_of_leavesAlone bs' s' (h.leavesAlone_onTemplate t)

/-- Built-in rules have nothing to do after others that looked after blank text and initial comments wherever they
would. So no list of built-in rules has anything to do after itself, and none has after those for a target that loses
both. -/
theorem nothingLeft_ofBuiltins :
    (∀ bs bs' : List Builtin,
      (.stripWhitespaceText ∈ bs ∨ .preserveWhitespaceText ∈ bs ∨
        .stripWhitespaceText ∉ bs' ∧ .preserveWhitespaceText ∉ bs') →
      (.markInitialComments ∈ bs ∨ .markInitialComments ∉ bs') →
      NothingLeft (ofBuiltins bs : RuleSet σ) (ofBuiltins bs' : RuleSet τ)) ∧
    (∀ bs, NothingLeft (ofBuiltins bs : RuleSet σ) (ofBuiltins bs : RuleSet τ)) ∧
    ∀ bs, NothingLeft (Profile.legacy.ruleSet : RuleSet σ) (ofBuiltins bs : RuleSet τ) := by
  refine ⟨?_, ?_, ?_⟩
  · intro bs bs' hblank hcomments
    exact nothingLeft_of_covers (Effect.covers_ofBuiltins hblank hcomments)
  · intro bs
    exact nothingLeft_of_covers ⟨id, id⟩
  · intro bs
    -- the profile has rules for everything that built-in rules look after
    have hlegacy : (Effect.ofBuiltins Profile.legacy.rules).Covers (Effect.ofBuiltins bs) :=
      Effect.covers_ofBuiltins (.inl (by decide)) (.inl (by decide))
    exact nothingLeft_of_covers hlegacy

/-- Blank text that was stripped in front of a comment is not there to be marked, and the comment has its marker. -/
theorem nothingLeft_strip_preserve :
    ∃ limit, (ofBuiltins [.markInitialComments, .stripWhitespaceText] : RuleSet Unit).run? limit
        ⟨[.element "p" [.text " ", .comment "c", .property "title" [.text " "]]], none⟩ () =
      some ⟨⟨[.element "p" [.text Text.marker, .comment "c", .property "title" [.text " "]]], none⟩,
        ⟨7, 1, 1⟩, ()⟩ ∧
    ∃ limit, (ofBuiltins [.preserveWhitespaceText, .markInitialComments] : RuleSet Unit).run? limit
        ⟨[.element "p" [.text Text.marker, .comment "c", .property "title" [.text " "]]], none⟩ () =
      some ⟨⟨[.element "p" [.text Text.marker, .comment "c", .property "title" [.text " "]]], none⟩,
        ⟨6, 0, 0⟩, ()⟩ := by
  obtain ⟨limit, hrun⟩ := Effect.exists_run?_counts [.markInitialComments, .stripWhitespaceText]
    ⟨[.element "p" [.text " ", .comment "c", .property "title" [.text " "]]], none⟩ ()
  have htree : (Effect.ofBuiltins [.markInitialComments, .stripWhitespaceText]).onTemplate
      ⟨[.element "p" [.text " ", .comment "c", .property "title" [.text " "]]], none⟩ =
      ⟨[.element "p" [.text Text.marker, .comment "c", .property "title" [.text " "]]], none⟩ := by
    decide
  rw [htree] at hrun
  have hnothing : NothingLeft (ofBuiltins [.markInitialComments, .stripWhitespaceText] : RuleSet Unit)
      (ofBuiltins [.preserveWhitespaceText, .markInitialComments] : RuleSet Unit) :=
    nothingLeft_ofBuiltins.1 _ _ (.inl (by decide)) (.inl (by decide))
  exact ⟨limit, hrun, (hnothing _ ()).2 limit _ hrun ()⟩

end RuleSet

end TemplatePrep

import TemplatePrep.Profile
import TemplatePrep.Proofs.Pass.Observers
import TemplatePrep.Proofs.Rule.Effect
import TemplatePrep.Proofs.SourceMap

/-!
# How preprocessing ends

A run can end in four places: at options that cannot be read, at the parser, at the code generator, or with what the
code generator made, shaped for the mode. `Exits` lists them, each with the calls made by then. A run whose pass ends
has exactly one of these exits, and it depends on nothing but the answers to the calls it has made. Two runs that differ
in the mode only can then be compared exit by exit.
-/

namespace TemplatePrep

variable {σ : Type}

/-! ## Exits -/

/-- A pass over the tree ends, and this is what it leaves. -/
def RuleSet.Leaves (rules : RuleSet σ) (s : σ) (tree left : Template) : Prop :=
  ∃ limit r, rules.run? limit tree s = some r ∧ r.tree = left

/-- The shape in which generated code is handed out in each mode. -/
inductive Generated.Shaped : Generated → Option MapMode → Except Failure Output → Prop where
  /-- Without a mode it is the source, byte for byte, whatever map came with it. -/
  | plain (src : String) (map : Option SourceMap) : Shaped ⟨src, map⟩ none (.ok (.source src))
  | extracted (src : String) (map : SourceMap) : Shaped ⟨src, some map⟩ (some .extract) (.ok (.mapped src map))
  | appended (src : String) (map : SourceMap) : Shaped ⟨src, some map⟩ (some .append) (.ok (.source (map.appendTo src)))
  | missing (src : String) (mode : MapMode) : Shaped ⟨src, none⟩ (some mode) (.error (.missingSourceMap mode))

theorem Generated.shaped_iff {g : Generated} {mode : Option MapMode} {result : Except Failure Output} :
    g.Shaped mode result ↔ result = g.shape mode := by
  constructor
  · rintro (_ | _ | _ | _) <;> rfl
  · rintro rfl
    obtain ⟨src, map⟩ := g
    cases mode with
    | none => exact .plain src map
    | some mode =>
      cases map with
      | none => exact .missing src mode
      | some map =>
        cases mode with
        | extract => exact .extracted src map
        | append => exact .appended src map

/-- The exits of a run, with the calls made by then and the result. A failure is handed on as it is. -/
inductive Collaborators.Exits (c : Collaborators) (rules : RuleSet σ) (s : σ) (source text : String) :
    Report → Prop where
  | unreadable {e : DecodeError} (hoptions : Options.ofText text = .error e) :
    Exits c rules s source text ⟨[], .error (.invalidOptions e)⟩
  | unparsed {o : Options} {f : Failure} (hoptions : Options.ofText text = .ok o)
    (hparse : c.parse source o.resolve = .error f) :
    Exits c rules s source text ⟨[.parse source o.resolve], .error f⟩
  | ungenerated {o : Options} {tree left : Template} {f : Failure} (hoptions : Options.ofText text = .ok o)
    (hparse : c.parse source o.resolve = .ok tree) (hleaves : rules.Leaves s tree left)
    (hgenerate : c.generate left o.resolve = .error f) :
    Exits c rules s source text ⟨[.parse source o.resolve, .generate left o.resolve], .error f⟩
  | shaped {o : Options} {tree left : Template} {g : Generated} {result : Except Failure Output}
    (hoptions : Options.ofText text = .ok o) (hparse : c.parse source o.resolve = .ok tree)
    (hleaves : rules.Leaves s tree left) (hgenerate : c.generate left o.resolve = .ok g)
    (hshaped : g.Shaped o.resolve.sourcemap result) :
    Exits c rules s source text ⟨[.parse source o.resolve, .generate left o.resolve], result⟩

/-- A run gives a report, whatever the limit of the pass from some limit on. -/
def Collaborators.Reports (c : Collaborators) (rules : RuleSet σ) (s : σ) (source text : String) (report : Report) :
    Prop :=
  ∃ small, ∀ limit, small ≤ limit → (Preprocessor.mk c rules s limit).preprocessText source text = some report

/-- A call is answered alike by two pairs of collaborators. -/
def Call.AnsweredAlike (c c' : Collaborators) : Call → Prop
  | parse source params => c.parse source params = c'.parse source params
  | generate tree params => c.generate tree params = c'.generate tree params

/-! ## The pass in between -/

theorem RuleSet.chain_eq_nil_of_not_isActive {rules : RuleSet σ} (h : rules.isActive = false) (k : Kind) :
    rules.chain k = [] := by
  have hsize : ¬ 0 < rules.size k := by simpa using List.any_eq_false.mp h k k.mem_all
  exact List.length_eq_zero_iff.mp (Nat.eq_zero_of_not_pos hsize)

/-- A pass with built-in rules leaves what their effect says. -/
theorem RuleSet.leaves_ofBuiltins (bs : List Builtin) (s : σ) (tree : Template) :
    (ofBuiltins bs).Leaves s tree ((Effect.ofBuiltins bs).onTemplate tree) := by
  obtain ⟨limit, hrun⟩ := Effect.exists_run?_counts bs tree s
  exact ⟨limit, _, hrun, rfl⟩

/-- A pass without rules leaves the tree as it is. -/
theorem RuleSet.Leaves.eq_of_not_isActive {rules : RuleSet σ} {s : σ} {tree left : Template}
    (h : rules.Leaves s tree left) (hactive : rules.isActive = false) : left = tree := by
  have hobserves : rules.Observes := by
    intro k rule hrule
    rw [chain_eq_nil_of_not_isActive hactive] at hrule
    exact absurd hrule List.not_mem_nil
  obtain ⟨limit, r, hrun, rfl⟩ := h
  obtain ⟨_, _, _, hsame, -⟩ := hobserves.exists_run? tree s
  rw [RuleSet.run?_unique hrun hsame]

/-- Between the calls stands what the pass leaves, whether or not any rule is attached. -/
theorem RuleSet.Leaves.runPass {rules : RuleSet σ} {s : σ} {tree left : Template} (h : rules.Leaves s tree left)
    (c : Collaborators) :
    ∃ small, ∀ limit, small ≤ limit → (Preprocessor.mk c rules s limit).runPass tree = some left := by
  by_cases hactive : rules.isActive = true
  · obtain ⟨small, r, hrun, rfl⟩ := h
    refine ⟨small, fun limit hle => ?_⟩
    have hpass := congrFun (Preprocessor.runPass_of_isActive (p := Preprocessor.mk c rules s limit) hactive) tree
    exact hpass.trans (congrArg (Option.map PassResult.tree) (RuleSet.run?_mono hle hrun))
  · rw [Bool.not_eq_true] at hactive
    obtain rfl := h.eq_of_not_isActive hactive
    refine ⟨0, fun limit _ => ?_⟩
    rw [Preprocessor.runPass_of_not_isActive hactive]

namespace Preprocessor

variable {c : Collaborators} {rules : RuleSet σ} {s : σ} {source : String} {options : Options}

/-- What the parser refuses goes no further. -/
theorem preprocess_of_unparsed {f : Failure} (hparse : c.parse source options.resolve = .error f) (limit : Nat) :
    (Preprocessor.mk c rules s limit).preprocess source options =
      some ⟨[.parse source options.resolve], .error f⟩ := by
  simp only [preprocess, Collaborators.preprocessBy, hparse]

/-- Code is generated from what the pass leaves, and shaped. -/
theorem exists_preprocess_eq {tree left : Template} (hparse : c.parse source options.resolve = .ok tree)
    (hleaves : rules.Leaves s tree left) :
    ∃ small, ∀ limit, small ≤ limit → (Preprocessor.mk c rules s limit).preprocess source options =
      some ⟨[.parse source options.resolve, .generate left options.resolve],
        (c.generate left options.resolve).bind fun g => g.shape options.resolve.sourcemap⟩ := by
  obtain ⟨small, hsmall⟩ := hleaves.runPass c
  refine ⟨small, fun limit hle => ?_⟩
  simp only [preprocess, Collaborators.preprocessBy, hparse, hsmall limit hle, Option.bind_eq_bind, Option.bind_some]
  cases c.generate left options.resolve <;> rfl

/-- Where the pass ends there is a report, the same for all limits that are large enough. -/
theorem exists_preprocess
    (h : ∀ tree, c.parse source options.resolve = .ok tree → ∃ left, rules.Leaves s tree left) :
    ∃ report small, ∀ limit, small ≤ limit →
      (Preprocessor.mk c rules s limit).preprocess source options = some report := by
  cases hparse : c.parse source options.resolve with
  | error f => exact ⟨_, 0, fun limit _ => preprocess_of_unparsed hparse limit⟩
  | ok tree =>
    obtain ⟨left, hleaves⟩ := h tree hparse
    exact ⟨_, exists_preprocess_eq hparse hleaves⟩

end Preprocessor

namespace Collaborators

variable {c c' : Collaborators} {rules : RuleSet σ} {s : σ} {source text : String} {report : Report}

/-! ## One exit -/

/-- A run takes the exit that it has. -/
theorem Exits.reports (h : c.Exits rules s source text report) : c.Reports rules s source text report := by
  cases h with
  | unreadable hoptions =>
    refine ⟨0, fun limit _ => ?_⟩
    rw [Preprocessor.preprocessText, hoptions]
  | unparsed hoptions hparse =>
    refine ⟨0, fun limit _ => ?_⟩
    rw [Preprocessor.preprocessText, hoptions]
    exact Preprocessor.preprocess_of_unparsed hparse limit
  | ungenerated hoptions hparse hleaves hgenerate =>
    obtain ⟨small, hsmall⟩ := Preprocessor.exists_preprocess_eq hparse hleaves
    rw [hgenerate] at hsmall
    refine ⟨small, fun limit hle => ?_⟩
    rw [Preprocessor.preprocessText, hoptions]
    exact hsmall limit hle
  | shaped hoptions hparse hleaves hgenerate hshaped =>
    obtain ⟨small, hsmall⟩ := Preprocessor.exists_preprocess_eq hparse hleaves
    rw [hgenerate] at hsmall
    refine ⟨small, fun limit hle => ?_⟩
    rw [Preprocessor.preprocessText, hoptions, Generated.shaped_iff.mp hshaped]
    exact hsmall limit hle

theorem Reports.unique {other : Report} (h : c.Reports rules s source text report)
    (hother : c.Reports rules s source text other) : other = report := by
  obtain ⟨small, h⟩ := h
  obtain ⟨small', hother⟩ := hother
  have hlarge := h (max small small') (Nat.le_max_left _ _)
  exact Option.some.inj ((hother (max small small') (Nat.le_max_right _ _)).symm.trans hlarge)

/-- An exit depends on the answers to the calls made by then, and on no others. -/
theorem Exits.congr (h : c.Exits rules s source text report) (halike : ∀ call ∈ report.calls, call.AnsweredAlike c c') :
    c'.Exits rules s source text report := by
  cases h with
  | unreadable hoptions => exact .unreadable hoptions
  | unparsed hoptions hparse =>
    have hfirst := halike _ List.mem_cons_self
    exact .unparsed hoptions (hfirst.symm.trans hparse)
  | ungenerated hoptions hparse hleaves hgenerate =>
    have hfirst := halike _ List.mem_cons_self
    have hsecond := halike _ (List.mem_cons_of_mem _ List.mem_cons_self)
    exact .ungenerated hoptions (hfirst.symm.trans hparse) hleaves (hsecond.symm.trans hgenerate)
  | shaped hoptions hparse hleaves hgenerate hshaped =>
    have hfirst := halike _ List.mem_cons_self
    have hsecond := halike _ (List.mem_cons_of_mem _ List.mem_cons_self)
    exact .shaped hoptions (hfirst.symm.trans hparse) hleaves (hsecond.symm.trans hgenerate) hshaped

/-! ## The three modes -/

/-- The answers of the collaborators do not depend on the mode. -/
structure IgnoresMode (c : Collaborators) : Prop where
  parse : ∀ source mode mode' jsx, c.parse source ⟨mode, jsx⟩ = c.parse source ⟨mode', jsx⟩
  generate : ∀ tree mode mode' jsx, c.generate tree ⟨mode, jsx⟩ = c.generate tree ⟨mode', jsx⟩

/-- The results of three runs without a mode, extracting and appending: all of them fail alike, or there is a source
without a map, or one with a map. -/
inductive InModes : Except Failure Output → Except Failure Output → Except Failure Output → Prop where
  | failed (f : Failure) : InModes (.error f) (.error f) (.error f)
  | unmapped (src : String) : InModes (.ok (.source src)) (.error (.missingSourceMap .extract))
    (.error (.missingSourceMap .append))
  | mapped (src : String) (map : SourceMap) : InModes (.ok (.source src)) (.ok (.mapped src map))
    (.ok (.source (map.appendTo src)))

/-- What there is to know about a run and its report. -/
structure Ends (c : Collaborators) (rules : RuleSet σ) (s : σ) (source text : String) (report : Report) : Prop where
  reports : c.Reports rules s source text report
  /-- The report is the one exit of the run. -/
  exits : ∀ other, c.Exits rules s source text other ↔ other = report
  /-- Other collaborators come to the same report if they answer the calls in it alike. No other call is made. -/
  only_calls : ∀ c' : Collaborators, (∀ call ∈ report.calls, call.AnsweredAlike c c') →
    c'.Reports rules s source text report
  /-- If the mode is ignored, runs that differ from this one in the mode only have results that differ in shape only. -/
  modes : c.IgnoresMode → ∀ o, Options.ofText text = .ok o → ∀ plain extract append,
    Options.ofText plain = .ok ⟨none, o.jsx⟩ → Options.ofText extract = .ok ⟨some .extract, o.jsx⟩ →
    Options.ofText append = .ok ⟨some .append, o.jsx⟩ →
    ∃ p e a : Report, c.Reports rules s source plain p ∧ c.Reports rules s source extract e ∧
      c.Reports rules s source append a ∧ InModes p.result e.result a.result ∧
      ∀ src map, e.result = .ok (.mapped src map) ↔ a.result = .ok (.source (map.appendTo src))

end Collaborators

end TemplatePrep

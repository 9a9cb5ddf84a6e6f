import TemplatePrep.Pass.Progress

/-!
# Rules on the code of an insert

An insert owns one block of code, so a rule for blocks of code can be called on an insert: it is given the code and shown
what the insert is shown, and what it leaves is put back as the code of the insert. With all its rules for blocks of code
moved to the inserts in this way, behind the rules that are there already, a rule set is folded. Folding is the same as
attaching the moved rules before any rule for inserts is attached, for what is attached first is called last.
-/

namespace TemplatePrep

/-- The span of the code of an insert. -/
def Node.codeSpan : Node → Option Span
  | branch (.insert codeSpan) _ _ => codeSpan
  | _ => none

theorem Node.exists_eq_insert {n : Node} (h : n.kind = .insert) :
    ∃ codeSpan segments span, n = .branch (.insert codeSpan) segments span := by
  cases n with
  | leaf k => cases k <;> simp [Node.kind, LeafKind.kind] at h
  | branch head segments span =>
    obtain ⟨codeSpan, rfl⟩ := Head.exists_eq_insert h
    exact ⟨codeSpan, segments, span, rfl⟩

theorem Node.exists_eq_embeddedCode {n : Node} (h : n.kind = .embeddedCode) :
    ∃ segments span, n = .branch .embeddedCode segments span := by
  cases n with
  | leaf k => cases k <;> simp [Node.kind, LeafKind.kind] at h
  | branch head segments span =>
    cases head with
    | embeddedCode => exact ⟨segments, span, rfl⟩
    | topLevel | element | insert | property => simp [Node.kind, Head.kind] at h

namespace NodeOf

/-- The code of an insert, as the node that it would be on its own. -/
def code (n : NodeOf .insert) : NodeOf .embeddedCode :=
  ⟨.branch .embeddedCode n.val.children n.val.codeSpan, rfl⟩

/-- The insert with another block of code. -/
def withCode (n : NodeOf .insert) (code : NodeOf .embeddedCode) : NodeOf .insert :=
  ⟨TemplatePrep.withCode n.val.span code.val, rfl⟩

theorem code_withCode (n : NodeOf .insert) (code : NodeOf .embeddedCode) : (n.withCode code).code = code := by
  obtain ⟨m, hm⟩ := code
  obtain ⟨segments, codeSpan, rfl⟩ := Node.exists_eq_embeddedCode hm
  rfl

theorem withCode_code (n : NodeOf .insert) : n.withCode n.code = n := by
  obtain ⟨m, hm⟩ := n
  obtain ⟨codeSpan, segments, span, rfl⟩ := Node.exists_eq_insert hm
  rfl

end NodeOf

variable {σ : Type}

/-- A rule for blocks of code, called on the code of an insert. -/
def Rule.onCode (rule : Rule σ .embeddedCode) : Rule σ .insert := fun v n s =>
  let o := rule v n.code s
  ⟨n.withCode o.node, o.edits, o.state⟩

/-- The rule set with its rules for blocks of code moved to the inserts, where they are called last. -/
def RuleSet.folded (rules : RuleSet σ) : RuleSet σ where
  chain
    | .embeddedCode => []
    | .insert => rules.chain .insert ++ (rules.chain .embeddedCode).map Rule.onCode
    | k => rules.chain k

/-- A rule for inserts may as well be attached after folding. -/
theorem RuleSet.folded_attach_insert (rules : RuleSet σ) (rule : Rule σ .insert) :
    (rules.attach .insert rule).folded = rules.folded.attach .insert rule := by
  refine congrArg RuleSet.mk (funext fun k => ?_)
  cases k <;> rfl

/-- Before any rule for inserts is attached, a rule for blocks of code may as well be attached to the inserts. -/
theorem RuleSet.folded_attach_embeddedCode {rules : RuleSet σ} (h : rules.chain .insert = [])
    (rule : Rule σ .embeddedCode) :
    (rules.attach .embeddedCode rule).folded = rules.folded.attach .insert rule.onCode := by
  refine congrArg RuleSet.mk (funext fun k => ?_)
  cases k with
  | insert =>
    show rules.chain .insert ++ ((rules.attach .embeddedCode rule).chain .embeddedCode).map Rule.onCode =
      (rules.folded.attach .insert rule.onCode).chain .insert
    rw [h, chain_attach_self, chain_attach_self, List.nil_append, List.map_cons, folded, h, List.nil_append]
  | topLevel | element | embeddedCode | codeText | text | comment | property => rfl

/-- A chain is called up to some rule, and then from there on unless the node is removed by then. -/
theorem runChain_append {k : Kind} {place : Place} {edits : Edits} (hp : edits.pruned = false)
    (first second : List (Rule σ k)) (n : NodeOf k) (s : σ) :
    runChain place (first ++ second) n edits s =
      if (runChain place first n edits s).edits.pruned then runChain place first n edits s
      else runChain place second (runChain place first n edits s).node (runChain place first n edits s).edits
        (runChain place first n edits s).state := by
  induction first generalizing n edits s with
  | nil => rw [List.nil_append, runChain, if_neg (by simp [hp])]
  | cons rule first ih =>
    rw [List.cons_append, runChain, runChain]
    split
    · rfl
    · next h => exact ih (by simpa using h) _ _

/-- Rules called on the code of an insert do to the code what they do on their own. -/
theorem runChain_onCode (place : Place) (chain : List (Rule σ .embeddedCode)) (n : NodeOf .insert) (edits : Edits)
    (s : σ) :
    runChain place (chain.map Rule.onCode) n edits s =
      ⟨n.withCode (runChain place chain n.code edits s).node, (runChain place chain n.code edits s).edits,
        (runChain place chain n.code edits s).state⟩ := by
  induction chain generalizing n edits s with
  | nil => rw [List.map_nil, runChain, runChain, n.withCode_code]
  | cons rule chain ih =>
    rw [List.map_cons, runChain, runChain, Rule.onCode]
    dsimp only
    split
    · rfl
    · rw [ih, NodeOf.code_withCode]
      rfl

namespace RuleSet

variable {rules : RuleSet σ} {place : Place} {edits : Edits} {n : Node} {s : σ}

theorem call_folded_of_ne (hinsert : n.kind ≠ .insert) (hcode : n.kind ≠ .embeddedCode) :
    rules.folded.call place edits n s = rules.call place edits n s := by
  have hchain : rules.folded.chain n.kind = rules.chain n.kind := by
    cases hn : n.kind with
    | insert => exact absurd hn hinsert
    | embeddedCode => exact absurd hn hcode
    | topLevel | element | codeText | text | comment | property => rfl
  rw [call, call, hchain]

/-- Blocks of code that are no one's have no rules left. -/
theorem call_folded_embeddedCode (h : n.kind = .embeddedCode) :
    rules.folded.call place edits n s = ⟨⟨n, rfl⟩, edits, s⟩ :=
  call_of_chain_eq_nil (by rw [h]; rfl)

/-- On an insert its own rules are called and then, if they keep it, those for its code. -/
theorem runChain_folded (hedits : edits.pruned = false) (n : NodeOf .insert) :
    runChain place (rules.folded.chain .insert) n edits s =
      let o := runChain place (rules.chain .insert) n edits s
      let c := runChain place (rules.chain .embeddedCode) o.node.code o.edits o.state
      if o.edits.pruned then o else ⟨o.node.withCode c.node, c.edits, c.state⟩ := by
  rw [folded, runChain_append hedits, runChain_onCode]

/-- An insert that its own rules remove is left to them. -/
theorem call_folded_of_pruned (h : n.kind = .insert) (hedits : edits.pruned = false)
    (hp : (rules.call place edits n s).edits.pruned = true) :
    rules.folded.call place edits n s = rules.call place edits n s := by
  obtain ⟨codeSpan, segments, span, rfl⟩ := Node.exists_eq_insert h
  exact (runChain_folded hedits ⟨.branch (.insert codeSpan) segments span, rfl⟩).trans (if_pos hp)

theorem runChain_folded_of_kept (hedits : edits.pruned = false) {n : NodeOf .insert} {o : Outcome σ .insert}
    (ho : runChain place (rules.chain .insert) n edits s = o) (hp : o.edits.pruned = false)
    {codeSpan span : Option Span} {segments : List Node}
    (hn : o.node.val = .branch (.insert codeSpan) segments span) :
    let c := rules.call place o.edits (.branch .embeddedCode segments codeSpan) o.state
    let f := runChain place (rules.folded.chain .insert) n edits s
    f.node.val = withCode span c.node.val ∧ f.edits = c.edits ∧ f.state = c.state := by
  obtain ⟨⟨m, hm⟩, asked, state⟩ := o
  obtain rfl : m = .branch (.insert codeSpan) segments span := hn
  have hkept : ¬ asked.pruned = true := by simpa using hp
  rw [runChain_folded hedits, ho]
  simp only [if_neg hkept]
  exact ⟨rfl, rfl, rfl⟩

/-- An insert that its own rules keep is then left with the code that the rules for its code leave. -/
theorem call_folded_of_kept {codeSpan span : Option Span} {segments : List Node}
    (hp : (rules.call place edits n s).edits.pruned = false)
    (hn : (rules.call place edits n s).node.val = .branch (.insert codeSpan) segments span) :
    let c := rules.call place (rules.call place edits n s).edits (.branch .embeddedCode segments codeSpan)
      (rules.call place edits n s).state
    (rules.folded.call place edits n s).node.val = withCode span c.node.val ∧
      (rules.folded.call place edits n s).edits = c.edits ∧ (rules.folded.call place edits n s).state = c.state := by
  have hedits : edits.pruned = false := by
    obtain ⟨more, hmore⟩ := rules.exists_edits_call place edits n s
    rw [hmore, Edits.pruned_append, Bool.or_eq_false_iff] at hp
    exact hp.1
  obtain ⟨_, _, _, rfl⟩ := Node.exists_eq_insert (Outcome.kind_eq hn).symm
  exact runChain_folded_of_kept hedits rfl hp hn

end RuleSet

end TemplatePrep

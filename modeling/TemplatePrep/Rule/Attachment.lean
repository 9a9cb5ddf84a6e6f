import TemplatePrep.Rule.Builtin

/-!
# Rule sets from attachments

A rule set comes about by attaching rules one after another, each to its kind. What a kind is left with depends only on
the rules attached to it and on their order; the rule attached last is called first.
-/

namespace TemplatePrep

variable {σ : Type}

/-- A rule with the kind that it is attached to. -/
structure Attachment (σ : Type) where
  kind : Kind
  rule : Rule σ kind

/-- The rule of an attachment to the given kind. -/
def Attachment.ruleFor? (k : Kind) (a : Attachment σ) : Option (Rule σ k) :=
  if h : a.kind = k then some (h ▸ a.rule) else none

/-- The rules that some attachments attach to a kind, in order. -/
def rulesFor (k : Kind) (as : List (Attachment σ)) : List (Rule σ k) := as.filterMap (Attachment.ruleFor? k)

/-- Attaches rules in order. -/
def RuleSet.attachAll (rules : RuleSet σ) (as : List (Attachment σ)) : RuleSet σ :=
  as.foldl (fun rules a => rules.attach a.kind a.rule) rules

/-- The rule set with the given rules attached in order. -/
def RuleSet.ofAttachments (as : List (Attachment σ)) : RuleSet σ := RuleSet.empty.attachAll as

/-- A built-in rule with the kind that it is for. -/
def Builtin.attachment : Builtin → Attachment σ
  | stripWhitespaceText => ⟨.text, strip⟩
  | preserveWhitespaceText => ⟨.text, preserve⟩
  | markInitialComments => ⟨.comment, markInitial⟩

theorem Attachment.ruleFor?_self (k : Kind) (rule : Rule σ k) : ruleFor? k ⟨k, rule⟩ = some rule := by
  rw [ruleFor?, dif_pos rfl]

theorem Attachment.ruleFor?_of_ne {j k : Kind} (rule : Rule σ k) (h : k ≠ j) : ruleFor? j ⟨k, rule⟩ = none := by
  rw [ruleFor?, dif_neg h]

theorem Attachment.ruleFor?_eq_some_iff {k : Kind} {a : Attachment σ} {rule : Rule σ k} :
    a.ruleFor? k = some rule ↔ a = ⟨k, rule⟩ := by
  constructor
  · intro h
    obtain ⟨j, r⟩ := a
    rw [ruleFor?] at h
    split at h
    · next hj =>
      obtain rfl : j = k := hj
      rw [← Option.some.inj h]
    · cases h
  · rintro rfl
    exact ruleFor?_self k rule

theorem rulesFor_append (k : Kind) (as bs : List (Attachment σ)) :
    rulesFor k (as ++ bs) = rulesFor k as ++ rulesFor k bs := List.filterMap_append

theorem rulesFor_cons_self (k : Kind) (rule : Rule σ k) (as : List (Attachment σ)) :
    rulesFor k (⟨k, rule⟩ :: as) = rule :: rulesFor k as :=
  List.filterMap_cons_some (Attachment.ruleFor?_self k rule)

theorem rulesFor_cons_of_ne {j k : Kind} (rule : Rule σ k) (h : k ≠ j) (as : List (Attachment σ)) :
    rulesFor j (⟨k, rule⟩ :: as) = rulesFor j as :=
  List.filterMap_cons_none (Attachment.ruleFor?_of_ne rule h)

/-- Attached rules come in front of the rules that are there already, the last first. -/
theorem RuleSet.chain_attachAll (rules : RuleSet σ) (as : List (Attachment σ)) (k : Kind) :
    (rules.attachAll as).chain k = (rulesFor k as).reverse ++ rules.chain k := by
  induction as generalizing rules with
  | nil => rfl
  | cons a as ih =>
    obtain ⟨j, rule⟩ := a
    have hrest := ih (rules.attach j rule)
    rw [attachAll, List.foldl_cons, ← attachAll, hrest]
    by_cases hj : j = k
    · subst hj
      rw [chain_attach_self, rulesFor_cons_self, List.reverse_cons, List.append_assoc, List.singleton_append]
    · rw [chain_attach_of_ne _ rule hj, rulesFor_cons_of_ne rule hj]

/-- The chain of a kind holds the rules attached to it, the last first. -/
theorem RuleSet.chain_ofAttachments (as : List (Attachment σ)) (k : Kind) :
    (ofAttachments as).chain k = (rulesFor k as).reverse := by
  rw [ofAttachments, chain_attachAll, chain_empty, List.append_nil]

theorem RuleSet.mem_chain_ofAttachments {as : List (Attachment σ)} {k : Kind} {rule : Rule σ k} :
    rule ∈ (ofAttachments as).chain k ↔ ⟨k, rule⟩ ∈ as := by
  rw [chain_ofAttachments, List.mem_reverse, rulesFor, List.mem_filterMap]
  simp only [Attachment.ruleFor?_eq_some_iff, exists_eq_right]

/-- Attaching built-in rules is attaching each to the kind that it is for. -/
theorem RuleSet.ofBuiltins_eq_ofAttachments (bs : List Builtin) :
    (ofBuiltins bs : RuleSet σ) = ofAttachments (bs.map Builtin.attachment) := by
  have hattach : (Builtin.attach : RuleSet σ → Builtin → RuleSet σ) =
      fun rules b => rules.attach b.attachment.kind b.attachment.rule := by
    funext rules b
    cases b <;> rfl
  rw [ofBuiltins, ofAttachments, attachAll, List.foldl_map, hattach]

end TemplatePrep

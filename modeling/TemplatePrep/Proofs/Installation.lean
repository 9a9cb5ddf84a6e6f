import TemplatePrep.Installation
import TemplatePrep.Proofs.Preprocessor

/-!
# The first call decides

A process builds its rule set on the first call of any sort, preprocessing included, and whatever becomes of that call.
A step lemma says that no later call changes what is installed; so the answers of a whole run are those that the one
rule set gives to each call on its own.
-/

namespace TemplatePrep

/-- The profile of the rule set that a call leaves, if it is the first one. -/
def ProcessCall.profile : ProcessCall → Profile
  | install p => p
  | installed | preprocess _ _ _ => Profile.default

/-- The answer to a call by a process with the given rule set. -/
def ProcessCall.answerBy (limit : Nat) (x : Installed) : ProcessCall → ProcessAnswer
  | install _ | installed => .ruleSet x
  | preprocess c source options => .report ((Preprocessor.mk c x.rules () limit).preprocess source options)

namespace Installation

variable {i : Installation} {x : Installed}

/-- The first call installs a rule set and is answered by it. -/
theorem answer_of_none (h : i.current = none) (limit : Nat) (call : ProcessCall) :
    i.answer limit call =
      (call.answerBy limit (.build call.profile i.built), ⟨some (.build call.profile i.built), i.built + 1⟩) := by
  cases call with
  | install p => simp only [answer, install, h, ProcessCall.answerBy, ProcessCall.profile]
  | installed => simp only [answer, installed, install, h, ProcessCall.answerBy, ProcessCall.profile]
  | preprocess c source options =>
    simp only [answer, preprocess, installed, install, h, ProcessCall.answerBy, ProcessCall.profile]

/-- Once a rule set is installed, a call is answered by it and changes nothing. -/
theorem answer_of_current (h : i.current = some x) (limit : Nat) (call : ProcessCall) :
    i.answer limit call = (call.answerBy limit x, i) := by
  cases call with
  | install p => simp only [answer, install, h, ProcessCall.answerBy]
  | installed => simp only [answer, installed, h, ProcessCall.answerBy]
  | preprocess c source options => simp only [answer, preprocess, installed, h, ProcessCall.answerBy]

theorem answers_cons {limit : Nat} {call : ProcessCall} {a : ProcessAnswer} {later : Installation}
    (h : i.answer limit call = (a, later)) (rest : List ProcessCall) :
    i.answers limit (call :: rest) = (a :: (later.answers limit rest).1, (later.answers limit rest).2) := by
  rw [answers, h]

/-- From then on, all calls are. -/
theorem answers_of_current (h : i.current = some x) (limit : Nat) (calls : List ProcessCall) :
    i.answers limit calls = (calls.map (ProcessCall.answerBy limit x), i) := by
  induction calls with
  | nil => rfl
  | cons call rest ih => rw [answers_cons (answer_of_current h limit call), ih, List.map_cons]

/-- Whatever the calls of a fresh process, the first one decides on its only rule set. It is built from the built-in rules
that are needed by the profile which this call installs, or by the default profile if it does not install any. Each call
is answered by that rule set, as if it were the only one, and preprocessing always comes to a report. -/
theorem answers_fresh (first : ProcessCall) (rest : List ProcessCall) :
    ∃ x : Installed, x.profile = first.profile ∧ x.rules = RuleSet.ofBuiltins first.profile.rules ∧
      first.profile.rules = Builtin.all.filter first.profile.needs ∧ x.serial = 0 ∧
      (∀ limit, fresh.answers limit (first :: rest) =
        ((first :: rest).map (ProcessCall.answerBy limit x), ⟨some x, 1⟩)) ∧
      ∀ c source options, ∃ report small, ∀ limit, small ≤ limit →
        (ProcessCall.preprocess c source options).answerBy limit x = .report (some report) := by
  refine ⟨.build first.profile 0, rfl, rfl, Profile.rules_eq_filter _, rfl, fun limit => ?_, ?_⟩
  · have hfirst := answer_of_none (i := fresh) rfl limit first
    rw [answers_cons hfirst, answers_of_current rfl, List.map_cons]
    rfl
  · intro c source options
    obtain ⟨report, small, hsmall⟩ : ∃ report small, ∀ limit, small ≤ limit →
        (Preprocessor.mk c (Installed.build first.profile 0).rules () limit).preprocess source options = some report :=
      Preprocessor.exists_preprocess fun tree _ => ⟨_, RuleSet.leaves_ofBuiltins first.profile.rules () tree⟩
    refine ⟨report, small, fun limit hle => ?_⟩
    rw [ProcessCall.answerBy, hsmall limit hle]

/-- A first preprocessing that fails installs the default profile all the same. -/
example (limit : Nat) :
    (fresh.answers limit
      [.preprocess ⟨fun _ _ => .error (.parse ""), fun _ _ => .error (.codegen "")⟩ "" Options.default,
        .install Profile.legacy]).2 = ⟨some ⟨Profile.default, RuleSet.ofBuiltins [.stripWhitespaceText], 0⟩, 1⟩ := rfl

end Installation

end TemplatePrep

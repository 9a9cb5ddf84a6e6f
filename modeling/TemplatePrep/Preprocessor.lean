import TemplatePrep.Output
import TemplatePrep.Pass

/-!
# Preprocessing a template

Options are resolved into parameters, the source is parsed, the pass is run over the tree if any rule is attached, code
is generated from what the pass left, and the result is shaped. The first step that fails ends the run with its
failure. Parser and code generator are given; a report lists how they were called.
-/

namespace TemplatePrep

/-- A parser and a code generator. -/
structure Collaborators where
  parse : String → Params → Except Failure Template
  generate : Template → Params → Except Failure Generated

/-- A call of the parser or of the code generator. -/
inductive Call where
  | parse (source : String) (params : Params)
  | generate (tree : Template) (params : Params)
deriving DecidableEq

/-- What a run did: the calls in order, and the result. -/
structure Report where
  calls : List Call
  result : Except Failure Output

/-- Preprocesses a template with the given pass between the parser and the code generator. There is no report where
the pass gives no tree. -/
def Collaborators.preprocessBy (c : Collaborators) (pass : Template → Option Template) (source : String)
    (options : Options) : Option Report :=
  let params := options.resolve
  match c.parse source params with
  | .error e => some ⟨[.parse source params], .error e⟩
  | .ok tree => do
    let tree ← pass tree
    let calls := [.parse source params, .generate tree params]
    match c.generate tree params with
    | .error e => some ⟨calls, .error e⟩
    | .ok g => some ⟨calls, g.shape params.sourcemap⟩

/-- Collaborators with the rule set to run between them, the state its rules start from, and the limit of the pass. -/
structure Preprocessor (σ : Type) extends Collaborators where
  rules : RuleSet σ
  state : σ
  limit : Nat

namespace Preprocessor

variable {σ : Type}

/-- Runs the pass over a tree. Without rules the tree is left alone. -/
def runPass (p : Preprocessor σ) (tree : Template) : Option Template :=
  if p.rules.isActive then (p.rules.run? p.limit tree p.state).map fun r => r.tree else some tree

theorem runPass_of_isActive {p : Preprocessor σ} (h : p.rules.isActive = true) :
    p.runPass = fun tree => (p.rules.run? p.limit tree p.state).map PassResult.tree := by
  funext tree
  rw [runPass, if_pos h]

theorem runPass_of_not_isActive {p : Preprocessor σ} (h : p.rules.isActive = false) : p.runPass = some := by
  funext tree
  rw [runPass, if_neg (by simp [h])]

/-- Preprocesses a template. There is no report where the pass does not end within its limit. -/
def preprocess (p : Preprocessor σ) (source : String) (options : Options) : Option Report :=
  p.preprocessBy p.runPass source options

/-- Preprocesses a template with options given as JSON text. Options that cannot be read end the run before any call. -/
def preprocessText (p : Preprocessor σ) (source options : String) : Option Report :=
  match Options.ofText options with
  | .error e => some ⟨[], .error (.invalidOptions e)⟩
  | .ok options => p.preprocess source options

end Preprocessor

end TemplatePrep

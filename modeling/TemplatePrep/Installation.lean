import TemplatePrep.Preprocessor
import TemplatePrep.Profile

/-!
# The rule set of a process

A process has one rule set, built from the profile that is installed first and kept from then on, together with the
profile. Asking for it, or preprocessing with it, installs the default profile if nothing is installed yet. Every rule
set that is built gets the next serial number, so that two answers can be told to be the same rule set.
-/

namespace TemplatePrep

/-- A rule set that has been built, with the profile that it was built for. Its rules keep no state. -/
structure Installed where
  profile : Profile
  rules : RuleSet Unit
  serial : Nat

/-- Builds the rule set for a profile. -/
def Installed.build (p : Profile) (serial : Nat) : Installed := ⟨p, p.ruleSet, serial⟩

/-- What a process has installed, and how many rule sets it has built. -/
structure Installation where
  current : Option Installed
  built : Nat

namespace Installation

/-- A fresh process. -/
def fresh : Installation := ⟨none, 0⟩

/-- Installs a rule set for a profile, or finds the one that is there, whatever its profile. -/
def install (i : Installation) (p : Profile) : Installed × Installation :=
  match i.current with
  | some x => (x, i)
  | none =>
    let x := Installed.build p i.built
    (x, ⟨some x, i.built + 1⟩)

/-- The rule set of the process, for the default profile if nothing is installed yet. -/
def installed (i : Installation) : Installed × Installation :=
  match i.current with
  | some x => (x, i)
  | none => i.install Profile.default

/-- Preprocesses a template with the rule set of the process. -/
def preprocess (i : Installation) (limit : Nat) (c : Collaborators) (source : String) (options : Options) :
    Option Report × Installation :=
  let (x, i) := i.installed
  let p : Preprocessor Unit := ⟨c, x.rules, (), limit⟩
  (p.preprocess source options, i)

end Installation

/-! ## Runs of a process -/

/-- A call into a process. -/
inductive ProcessCall where
  | install (p : Profile)
  | installed
  | preprocess (c : Collaborators) (source : String) (options : Options)

/-- What a call returns: the rule set of the process, or what preprocessing gives. -/
inductive ProcessAnswer where
  | ruleSet (x : Installed)
  | report (r : Option Report)

namespace Installation

/-- Answers a call. -/
def answer (limit : Nat) (i : Installation) : ProcessCall → ProcessAnswer × Installation
  | .install p =>
    let (x, i) := i.install p
    (.ruleSet x, i)
  | .installed =>
    let (x, i) := i.installed
    (.ruleSet x, i)
  | .preprocess c source options =>
    let (r, i) := i.preprocess limit c source options
    (.report r, i)

/-- Answers calls one after another. -/
def answers (limit : Nat) (i : Installation) : List ProcessCall → List ProcessAnswer × Installation
  | [] => ([], i)
  | call :: rest =>
    let (a, i) := i.answer limit call
    let (as, i) := i.answers limit rest
    (a :: as, i)

end Installation

end TemplatePrep

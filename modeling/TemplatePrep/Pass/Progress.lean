import TemplatePrep.Rule.Basic

/-!
# What a pass carries along

A pass counts its visits, removals and insertions, and hands the state of the rules from call to call.
-/

namespace TemplatePrep

/-- What a pass has counted: visits, removals and insertions. -/
@[ext]
structure Stats where
  visited : Nat
  pruned : Nat
  inserted : Nat
deriving DecidableEq, Inhabited

/-- Nothing counted. -/
def Stats.zero : Stats := ⟨0, 0, 0⟩

/-- The counts of two parts of a pass together. -/
instance : Add Stats where
  add a b := ⟨a.visited + b.visited, a.pruned + b.pruned, a.inserted + b.inserted⟩

theorem Stats.mk_add_mk (v p i v' p' i' : Nat) : Stats.mk v p i + Stats.mk v' p' i' = ⟨v + v', p + p', i + i'⟩ := rfl

theorem Stats.add_assoc (a b c : Stats) : a + b + c = a + (b + c) := by
  cases a
  cases b
  cases c
  simp only [mk_add_mk, Nat.add_assoc]

theorem Stats.zero_add (a : Stats) : Stats.zero + a = a := by
  cases a
  simp only [Stats.zero, mk_add_mk, Nat.zero_add]

/-- What a pass carries from step to step: its counts and the state of the rules. -/
structure Progress (σ : Type) where
  stats : Stats
  state : σ

namespace Progress

variable {σ : Type}

/-- Counts one visit. -/
def visit (p : Progress σ) : Progress σ := ⟨⟨p.stats.visited + 1, p.stats.pruned, p.stats.inserted⟩, p.state⟩

/-- Counts insertions. -/
def insert (p : Progress σ) (n : Nat) : Progress σ :=
  ⟨⟨p.stats.visited, p.stats.pruned, p.stats.inserted + n⟩, p.state⟩

/-- Counts a removal, if there was one. -/
def prune (p : Progress σ) (pruned : Bool) : Progress σ :=
  ⟨⟨p.stats.visited, p.stats.pruned + if pruned then 1 else 0, p.stats.inserted⟩, p.state⟩

/-- Replaces the state of the rules. -/
def withState (p : Progress σ) (s : σ) : Progress σ := ⟨p.stats, s⟩

/-- Adds counts. -/
def add (p : Progress σ) (c : Stats) : Progress σ := ⟨p.stats + c, p.state⟩

theorem insert_eq_add (p : Progress σ) (n : Nat) : p.insert n = p.add ⟨0, 0, n⟩ := rfl

theorem prune_eq_add (p : Progress σ) (pruned : Bool) :
    p.prune pruned = p.add ⟨0, if pruned then 1 else 0, 0⟩ := rfl

theorem add_add (p : Progress σ) (c d : Stats) : (p.add c).add d = p.add (c + d) := by
  rw [add, add, add, Stats.add_assoc]

end Progress

/-- A finished visit: the node as the visit left it and the edits that were asked for. -/
structure Visited (σ : Type) where
  node : Node
  edits : Edits
  progress : Progress σ

/-- What the visit leaves at the node's own place: the node, unless it is to be removed. -/
def Visited.kept {σ : Type} (v : Visited σ) : List Node := if v.edits.pruned then [] else [v.node]

/-- A list of siblings that is done. -/
structure Swept (σ : Type) where
  nodes : List Node
  progress : Progress σ

/-- An insert with its code as a visit left it. -/
def withCode (span : Option Span) (code : Node) : Node :=
  .branch (.insert code.span) code.children span

end TemplatePrep

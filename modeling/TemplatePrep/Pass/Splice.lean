import TemplatePrep.Node.Basic

/-!
# Editing siblings in place

The siblings of a walk are edited by index while the walk goes over them. An edit whose index is out of bounds, or a
difference of lengths that would be negative, is a fault and ends the pass. The lemmas say what an edit does to
siblings given as what is in front of the index and what is behind it.
-/

namespace TemplatePrep

/-- Why a pass ends without a result. -/
inductive Halt where
  /-- The limit was too small. -/
  | limit
  /-- An index was out of bounds, or siblings had become fewer where more were expected. -/
  | bounds
deriving DecidableEq

namespace Splice

/-- Puts a node at an index; what stood there and behind it moves up. -/
def insertAt (siblings : List Node) (i : Nat) (n : Node) : Except Halt (List Node) :=
  if i ≤ siblings.length then .ok (siblings.insertIdx i n) else .error .bounds

/-- Puts nodes at an index one after another, so that the last stands first. -/
def insertEach (siblings : List Node) (i : Nat) : List Node → Except Halt (List Node)
  | [] => .ok siblings
  | n :: rest => do
    let siblings ← insertAt siblings i n
    insertEach siblings i rest

/-- Takes out the node at an index; what stood behind it moves down. -/
def removeAt (siblings : List Node) (i : Nat) : Except Halt (List Node) :=
  if i < siblings.length then .ok (siblings.eraseIdx i) else .error .bounds

/-- By how much a length has grown. -/
def growth (small large : Nat) : Except Halt Nat :=
  if small ≤ large then .ok (large - small) else .error .bounds

theorem insertAt_append (before after : List Node) (n : Node) :
    insertAt (before ++ after) before.length n = .ok (before ++ n :: after) := by
  rw [insertAt, if_pos (by simp)]
  congr 1
  induction before with
  | nil => rfl
  | cons b rest ih =>
    rw [List.cons_append, List.length_cons, List.insertIdx_succ_cons, ih, List.cons_append]

theorem insertEach_append (before after ns : List Node) :
    insertEach (before ++ after) before.length ns = .ok (before ++ (ns.reverse ++ after)) := by
  induction ns generalizing after with
  | nil => rfl
  | cons n rest ih =>
    rw [insertEach, insertAt_append]
    show insertEach (before ++ n :: after) before.length rest = _
    rw [ih, List.reverse_cons, List.append_assoc, List.singleton_append]

theorem removeAt_append (before after : List Node) (n : Node) :
    removeAt (before ++ n :: after) before.length = .ok (before ++ after) := by
  rw [removeAt, if_pos (by simp)]
  simp [List.eraseIdx_append_of_length_le]

theorem growth_add (small more : Nat) : growth small (small + more) = .ok more := by
  rw [growth, if_pos (Nat.le_add_right _ _), Nat.add_sub_cancel_left]

end Splice

end TemplatePrep

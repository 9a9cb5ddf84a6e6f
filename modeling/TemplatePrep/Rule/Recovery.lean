import TemplatePrep.Node.Basic
import TemplatePrep.Text.Blank

/-!
# Taking marked text out

A marked text is the zero-width marker with blank text behind it, or with nothing. Recovery takes all marked texts out
of a template, wherever they stand. The outline of a template is what it holds, in order and with depths, and recovery
only leaves entries of it out.
-/

namespace TemplatePrep

/-- Whether a text is the marker followed by blank text. -/
def Text.isMarked (s : String) : Bool :=
  match s.toList with
  | [] => false
  | c :: rest => c == '\uFEFF' && rest.all isBlankChar

theorem Text.isMarked_iff {s : String} : isMarked s = true ↔ ∃ blank, isBlank blank = true ∧ s = marker ++ blank := by
  rw [isMarked]
  constructor
  · intro h
    cases hs : s.toList with
    | nil => simp [hs] at h
    | cons c rest =>
      rw [hs, Bool.and_eq_true, beq_iff_eq] at h
      refine ⟨String.ofList rest, ?_, ?_⟩
      · rw [isBlank, String.toList_ofList]
        exact h.2
      · rw [← String.toList_inj, hs, h.1, String.toList_append, String.toList_ofList]
        rfl
  · rintro ⟨blank, hblank, rfl⟩
    rw [String.toList_append]
    exact hblank

namespace Node

/-- Whether a node is a marked text. -/
def isMarked : Node → Bool
  | leaf .text text _ => Text.isMarked text
  | _ => false

mutual
/-- The node without the marked texts inside of it. -/
def recover : Node → Node
  | leaf kind text span => leaf kind text span
  | branch head children span => branch head (recoverAll children) span

/-- Siblings without the marked texts among them and inside of them. -/
def recoverAll : List Node → List Node
  | [] => []
  | n :: rest => if n.isMarked then recoverAll rest else n.recover :: recoverAll rest
end

/-- A node without its children. -/
def bare (n : Node) : Node := n.mapChildren fun _ => []

/-- A node at a depth, without its children. -/
def bareEntry (entry : Nat × Node) : Nat × Node := (entry.1, entry.2.bare)

/-- What a subtree holds in preorder, each node without its children and with its depth below the first. -/
def outline (n : Node) : List (Nat × Node) := (n.preorder 0).map bareEntry

theorem recoverAll_append (ms ns : List Node) : recoverAll (ms ++ ns) = recoverAll ms ++ recoverAll ns := by
  induction ms with
  | nil => rfl
  | cons m rest ih =>
    rw [List.cons_append, recoverAll, recoverAll, ih]
    split
    · rfl
    · rfl

mutual
/-- Recovery only leaves out entries of an outline, at whatever depth it starts. -/
theorem sublist_preorder_recover (depth : Nat) : (n : Node) →
    ((n.recover.preorder depth).map bareEntry).Sublist ((n.preorder depth).map bareEntry)
  | leaf kind text span => List.Sublist.refl _
  | branch head children span => by
    rw [recover, preorder, preorder, List.map_cons, List.map_cons]
    exact (sublist_preorderAll_recoverAll (depth + 1) children).cons_cons _

theorem sublist_preorderAll_recoverAll (depth : Nat) : (ns : List Node) →
    ((preorderAll depth (recoverAll ns)).map bareEntry).Sublist ((preorderAll depth ns).map bareEntry)
  | [] => List.Sublist.refl _
  | n :: rest => by
    have hrest := sublist_preorderAll_recoverAll depth rest
    rw [recoverAll, preorderAll, List.map_append]
    split
    · exact hrest.trans (List.sublist_append_right _ _)
    · rw [preorderAll, List.map_append]
      exact (sublist_preorder_recover depth n).append hrest
end

end Node

namespace Template

/-- The template without marked texts. -/
def recover (t : Template) : Template := ⟨Node.recoverAll t.segments, t.span⟩

/-- What a template holds, in order and with depths. -/
def outline (t : Template) : List (Nat × Node) := t.root.outline

theorem root_recover (t : Template) : t.recover.root = t.root.recover := by
  rw [root, root, Node.recover]
  rfl

theorem outline_recover_sublist (t : Template) : t.recover.outline.Sublist t.outline := by
  rw [outline, root_recover]
  exact Node.sublist_preorder_recover 0 t.root

end Template

end TemplatePrep

import TemplatePrep.Proofs.Pass.Completion
import TemplatePrep.Rule.Script

/-!
# The layout of settled siblings

What the siblings look like when one of them has been settled in place. Each node asked for in front of it has become a
block of nodes; the blocks stand in the order of the requests, then the node itself unless it was removed, then the
nodes asked for behind it, the last one nearest. A block is laid out in the same way. The siblings on both sides stay
as they are, and the cursor stands right behind the node's own place.
-/

namespace TemplatePrep

variable {σ : Type}

/-- The nodes of a layout: the blocks in front, the visited node unless removed, and the nodes asked for behind it. -/
def Visited.laidOut (v : Visited σ) (blocks : List (List Node)) : List Node :=
  blocks.flatten ++ v.kept ++ v.edits.after.reverse

mutual
/-- `Layout rules place n p v blocks q`: settling `n` at a place ends with its visit `v`, with one block for each node
asked for in front of it, and with the progress `q`. -/
inductive Layout (rules : RuleSet σ) :
    Place → Node → Progress σ → Visited σ → List (List Node) → Progress σ → Prop where
  | mk {place n p v blocks q limit} (visit : Pass.visit rules limit place Edits.none n p = .ok v)
      (front : FrontLayout rules place.parent place.before (v.node :: place.after) v.edits.before v.progress blocks q) :
      Layout rules place n p v blocks ((q.insert v.edits.after.length).prune v.edits.pruned)

/-- `FrontLayout rules parent before after queue p blocks q`: the nodes of the queue become the blocks. Each node is put
behind the blocks before it and in front of `after`, and settling it there in place leaves its block in its stead and
everything else as it was. -/
inductive FrontLayout (rules : RuleSet σ) :
    Parent → List Node → List Node → List Node → Progress σ → List (List Node) → Progress σ → Prop where
  | nil {parent before after p} : FrontLayout rules parent before after [] p [] p
  | cons {parent before after n queue p v blocks q others r limit cursor}
      (call : Pass.settleAt rules limit parent (before ++ n :: after) before.length (p.insert 1) =
        .ok ⟨before ++ (v.laidOut blocks ++ after), cursor, q⟩)
      (block : Layout rules ⟨parent, before, after⟩ n (p.insert 1) v blocks q)
      (rest : FrontLayout rules parent (before ++ v.laidOut blocks) after queue q others r) :
      FrontLayout rules parent before after (n :: queue) p (v.laidOut blocks :: others) r
end

variable {rules : RuleSet σ}

/-- There are as many blocks as requests. -/
theorem FrontLayout.length_eq {parent : Parent} {before after queue : List Node} {p q : Progress σ}
    {blocks : List (List Node)} (h : FrontLayout rules parent before after queue p blocks q) :
    blocks.length = queue.length := by
  induction queue generalizing before p blocks with
  | nil =>
    cases h
    rfl
  | cons n queue ih =>
    cases h with
    | cons _ _ rest => rw [List.length_cons, List.length_cons, ih rest]

theorem Layout.length_eq {place : Place} {n : Node} {p q : Progress σ} {v : Visited σ} {blocks : List (List Node)}
    (h : Layout rules place n p v blocks q) : blocks.length = v.edits.before.length := by
  cases h with
  | mk _ front => exact front.length_eq

namespace Blocks

/-- A visit leaves the kind of its node as it is. -/
theorem Visits.kind_eq {place : Place} {edits : Edits} {n : Node} {p : Progress σ} {v : Visited σ}
    (h : Visits rules place edits n p v) : v.node.kind = n.kind := by
  obtain ⟨limit, h⟩ := h
  have hk := (rules.call place edits n p.state).node.property
  cases limit with
  | zero => simp [visit] at h
  | succ limit =>
    obtain ⟨-, rfl⟩ | ⟨-, ⟨k, text, span, hn, rfl⟩ | ⟨codeSpan, segments, span, w, hn, -, rfl⟩ |
      ⟨head, children, span, w, hn, -, -, rfl⟩⟩ := visit_cases h
    · exact hk
    · rwa [hn] at hk
    · rwa [hn] at hk
    · rwa [hn] at hk

/-- A settled child is laid out, and so is a settled queue. -/
theorem preserved_layout (rules : RuleSet σ) : Preserved rules (fun _ _ _ _ _ => True)
    (fun place n p b => ∃ v blocks, Layout rules place n p v blocks b.progress ∧ v.node.kind = n.kind ∧
      b.placed = blocks.flatten ++ v.kept ∧ b.ahead = v.edits.after.reverse)
    (fun parent before after queue p q => ∃ blocks,
      FrontLayout rules parent before after queue p blocks q.progress ∧ q.nodes = blocks.flatten)
    (fun _ _ _ _ _ => True) where
  pruned _ := trivial
  leaf _ _ := trivial
  insert _ _ _ _ := trivial
  branch _ _ _ _ _ := trivial
  settled {place n p v q} hv _ _ hq := by
    have hkind := Visits.kind_eq hv
    obtain ⟨limit, hvisit⟩ := hv
    obtain ⟨blocks, hfront, hnodes⟩ := hq
    have hpass : Pass.visit rules limit place Edits.none n p = .ok v := by
      rw [(agree rules limit).visit, limited_eq_ok_iff]
      exact hvisit
    refine ⟨v, blocks, Layout.mk hpass hfront, hkind, ?_, rfl⟩
    rw [Visited.settled, hnodes]
  queue_nil := ⟨[], FrontLayout.nil, rfl⟩
  queue_cons {parent before after n queue p b q} hb hlayout _ hq := by
    obtain ⟨limit, hsettle⟩ := hb
    obtain ⟨v, blocks, hlayout, -, hplaced, hahead⟩ := hlayout
    obtain ⟨others, hrest, hnodes⟩ := hq
    have hblock : b.block = v.laidOut blocks := by
      rw [Settled.block, hplaced, hahead, Visited.laidOut]
    have hcall : Pass.settleAt rules limit parent (before ++ n :: after) before.length (p.insert 1) =
        .ok ⟨before ++ (v.laidOut blocks ++ after), (before ++ b.placed).length, b.progress⟩ := by
      rw [(agree rules limit).settle, hsettle, ← hblock]
      rfl
    rw [hblock] at hrest
    refine ⟨v.laidOut blocks :: others, FrontLayout.cons hcall hlayout hrest, ?_⟩
    rw [hblock, hnodes, List.flatten_cons]
  sweep_nil := trivial
  sweep_cons _ _ _ _ := trivial

end Blocks

namespace Pass

/-- Settling a sibling in place is never out of bounds, at any depth. When it ends, the sibling's layout stands in its
stead: the blocks of the nodes asked for in front of it, itself as its visit left it unless removed, and the nodes asked
for behind it, the last first. Both sides are untouched, and the cursor stands behind the node's own place. -/
theorem settleAt_layout (rules : RuleSet σ) (limit : Nat) (parent : Parent) (siblings : List Node) (i : Nat)
    (hi : i < siblings.length) (p : Progress σ) :
    settleAt rules limit parent siblings i p ≠ .error .bounds ∧
    ∀ r, settleAt rules limit parent siblings i p = .ok r →
      ∃ v blocks,
        Layout rules ⟨parent, siblings.take i, siblings.drop (i + 1)⟩ siblings[i] p v blocks r.progress ∧
        blocks.length = v.edits.before.length ∧
        v.node.kind = siblings[i].kind ∧
        r.siblings = siblings.take i ++
          (blocks.flatten ++ v.kept ++ v.edits.after.reverse) ++ siblings.drop (i + 1) ∧
        r.cursor = i + blocks.flatten.length + v.kept.length ∧
        r.siblings.drop r.cursor = v.edits.after.reverse ++ siblings.drop (i + 1) := by
  have hsplit : siblings = siblings.take i ++ siblings[i] :: siblings.drop (i + 1) := by
    rw [← List.drop_eq_getElem_cons hi, List.take_append_drop]
  have hlength : (siblings.take i).length = i := List.length_take_of_le (by omega)
  have hagree := (Blocks.agree rules limit).settle parent (siblings.take i) siblings[i] (siblings.drop (i + 1)) p
  rw [← hsplit, hlength] at hagree
  rw [hagree]
  refine ⟨limited_ne_bounds _, ?_⟩
  intro r hr
  obtain ⟨b, hb, rfl⟩ := Option.map_eq_some_iff.mp (limited_eq_ok_iff.mp hr)
  obtain ⟨v, blocks, hlayout, hkind, hplaced, hahead⟩ := (Blocks.preserved_layout rules).settles ⟨limit, hb⟩
  have hsiblings : (Blocks.Settled.between (siblings.take i) (siblings.drop (i + 1)) b).siblings =
      (siblings.take i ++ b.placed) ++ (b.ahead ++ siblings.drop (i + 1)) := by
    simp only [Blocks.Settled.between, Settled.block, List.append_assoc]
  refine ⟨v, blocks, hlayout, hlayout.length_eq, hkind, ?_, ?_, ?_⟩
  · rw [hsiblings, hplaced, hahead]
    simp only [List.append_assoc]
  · simp only [Blocks.Settled.between, hplaced, List.length_append, hlength]
    omega
  · rw [hsiblings, ← hahead]
    exact List.drop_left' rfl

/-- Replaces the comment `C` by the text `X` in front of it and the comment `Z` behind it, and surrounds `X` in turn. -/
def bothSides : RuleSet (List Script.Note) :=
  (RuleSet.empty.attach .comment
    (Script.rule [.label "C"] [.insertBefore (.text "X"), .insertAfter (.comment "Z"), .prune])).attach .text
      (Script.rule [.label "X"] [.insertBefore (.text "W"), .insertAfter (.comment "Y")])

/-- The layout where a removed comment between two others leaves nodes on both sides, one of them surrounded. -/
theorem settleAt_layout_bothSides :
    settleAt bothSides 12 .topLevel [.comment "A", .comment "C", .comment "B"] 1 ⟨Stats.zero, []⟩ =
      .ok ⟨[.comment "A", .text "W", .text "X", .comment "Y", .comment "Z", .comment "B"], 4, ⟨⟨3, 1, 4⟩, []⟩⟩ ∧
    ∃ v blocks,
      Layout bothSides ⟨.topLevel, [.comment "A"], [.comment "B"]⟩ (.comment "C") ⟨Stats.zero, []⟩ v blocks
        ⟨⟨3, 1, 4⟩, []⟩ ∧
      blocks.length = v.edits.before.length ∧
      v.node.kind = .comment ∧
      [.comment "A", .text "W", .text "X", .comment "Y", .comment "Z", .comment "B"] =
        [.comment "A"] ++ (blocks.flatten ++ v.kept ++ v.edits.after.reverse) ++ [.comment "B"] ∧
      4 = 1 + blocks.flatten.length + v.kept.length ∧
      [.comment "Z", .comment "B"] = v.edits.after.reverse ++ [.comment "B"] :=
  ⟨rfl, (settleAt_layout bothSides 12 .topLevel [.comment "A", .comment "C", .comment "B"] 1 (by decide)
    ⟨Stats.zero, []⟩).2 _ rfl⟩

end Pass

end TemplatePrep

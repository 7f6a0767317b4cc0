import Cubicle.DeskLayouts
import Cubicle.LinkedTrees

/-!
# The nodes of a pane layout

The tree of a layout lives in an array of 32 nodes, which refer to each other by index and are taken
and given back by a flag. The functions here are the ones of the desk, on the array. The results
say what the searches find when a tree is in the array.
-/

namespace Cubicle.PaneNodes

open ByteText LinkedTrees LinkedTree
open DeskLayouts (SplitKind Direction)

/-- `desk_pane_node_t`; a node without a split is a leaf. -/
structure PaneNode where
  used : Bool
  paneId : ℕ
  label : Bytes
  split : Option SplitKind
  first : ℤ
  second : ℤ
  splitSize : ℤ
deriving DecidableEq

inductive Zoom
  | none | horizontal | vertical | full
deriving DecidableEq, Repr

/-- `desk_pane_layout_t`. The nodes beyond the first 32 are never used. -/
structure PaneLayout where
  nodes : ℤ → PaneNode
  root : ℤ
  activePaneId : ℕ
  nextPaneId : ℕ
  zoom : Zoom
  zoomPaneId : ℕ
  status : Bytes

def nodeCount : ℕ := 32

def nodeIndices : List ℤ := (List.range nodeCount).map fun i => Int.ofNat i

def PaneNode.zero : PaneNode := ⟨false, 0, [], none, 0, 0, 0⟩

def PaneLayout.zero : PaneLayout := ⟨fun _ => .zero, 0, 0, 0, .none, 0, []⟩

namespace PaneLayout

def set (panes : PaneLayout) (i : ℤ) (node : PaneNode) : PaneLayout :=
  { panes with nodes := Function.update panes.nodes i node }

/-- A node is given back. -/
def free (panes : PaneLayout) (i : ℤ) : PaneLayout :=
  panes.set i { panes.nodes i with used := false }

end PaneLayout

/-- `pane_alloc_node` -/
def paneAllocNode (panes : PaneLayout) : PaneLayout × ℤ :=
  match nodeIndices.find? fun i => !(panes.nodes i).used with
  | some i => (panes.set i { PaneNode.zero with used := true }, i)
  | none => (panes, -1)

/-- `pane_create_leaf` -/
def paneCreateLeaf (panes : PaneLayout) (paneId : ℕ) (label : Bytes) : PaneLayout × ℤ :=
  let (panes, node) := paneAllocNode panes
  if 0 ≤ node then
    (panes.set node { panes.nodes node with paneId, label := label.take 63, split := none }, node)
  else (panes, node)

/-- `pane_create_split` -/
def paneCreateSplit (panes : PaneLayout) (split : SplitKind) (first second : ℤ) :
    PaneLayout × ℤ :=
  let (panes, node) := paneAllocNode panes
  if 0 ≤ node then
    (panes.set node { panes.nodes node with split := some split, first, second, splitSize := 0 },
      node)
  else (panes, node)

/-- `pane_layout_reset` -/
def paneLayoutReset : PaneLayout :=
  let (panes, one) := paneCreateLeaf .zero 1 (ascii "1")
  let (panes, two) := paneCreateLeaf panes 2 (ascii "2")
  let (panes, three) := paneCreateLeaf panes 3 (ascii "3")
  let (panes, four) := paneCreateLeaf panes 4 (ascii "4")
  let (panes, top) := paneCreateSplit panes .horizontal one two
  let (panes, bottom) := paneCreateSplit panes .horizontal three four
  let (panes, root) := paneCreateSplit panes .vertical top bottom
  { panes with root, activePaneId := 1, nextPaneId := 5, zoom := .none }

-- The searches follow the children of a node; the fuel bounds the depth, which is at most the number
-- of nodes.
/-- `pane_subtree_contains` -/
def paneSubtreeContains (nodes : ℤ → PaneNode) (paneId : ℕ) : ℕ → ℤ → Bool
  | 0, _ => false
  | fuel + 1, node =>
    if node < 0 ∨ (nodes node).used = false then false
    else match (nodes node).split with
      | none => (nodes node).paneId = paneId
      | some _ => paneSubtreeContains nodes paneId fuel (nodes node).first ||
          paneSubtreeContains nodes paneId fuel (nodes node).second

/-- `pane_first_leaf` -/
def paneFirstLeaf (nodes : ℤ → PaneNode) : ℕ → ℤ → ℕ
  | 0, _ => 0
  | fuel + 1, node =>
    if node < 0 ∨ (nodes node).used = false then 0
    else match (nodes node).split with
      | none => (nodes node).paneId
      | some _ =>
        if paneFirstLeaf nodes fuel (nodes node).first ≠ 0 then
          paneFirstLeaf nodes fuel (nodes node).first
        else paneFirstLeaf nodes fuel (nodes node).second

/-- `pane_find_leaf_node` -/
def paneFindLeafNode (nodes : ℤ → PaneNode) (paneId : ℕ) : ℕ → ℤ → ℤ
  | 0, _ => -1
  | fuel + 1, node =>
    if node < 0 ∨ (nodes node).used = false then -1
    else match (nodes node).split with
      | none => if (nodes node).paneId = paneId then node else -1
      | some _ =>
        if 0 ≤ paneFindLeafNode nodes paneId fuel (nodes node).first then
          paneFindLeafNode nodes paneId fuel (nodes node).first
        else paneFindLeafNode nodes paneId fuel (nodes node).second

/-- `pane_find_parent` -/
def paneFindParent (nodes : ℤ → PaneNode) (child : ℤ) : ℕ → ℤ → ℤ
  | 0, _ => -1
  | fuel + 1, node =>
    if node < 0 ∨ (nodes node).used = false then -1
    else match (nodes node).split with
      | none => -1
      | some _ =>
        if (nodes node).first = child ∨ (nodes node).second = child then node
        else if 0 ≤ paneFindParent nodes child fuel (nodes node).first then
          paneFindParent nodes child fuel (nodes node).first
        else paneFindParent nodes child fuel (nodes node).second

namespace PaneLayout

def findLeafNode (panes : PaneLayout) (paneId : ℕ) : ℤ :=
  paneFindLeafNode panes.nodes paneId nodeCount panes.root

def findParent (panes : PaneLayout) (child : ℤ) : ℤ :=
  paneFindParent panes.nodes child nodeCount panes.root

/-- `pane_layout_status` -/
def showStatus (panes : PaneLayout) (message : String) : PaneLayout :=
  { panes with status := (ascii message).take 127 }

end PaneLayout

/-- The loop of `pane_layout_add_direction`: up through splits of the other kind. -/
def climbThrough (panes : PaneLayout) (through : SplitKind) : ℕ → ℤ → ℤ
  | 0, child => child
  | fuel + 1, child =>
    if panes.findParent child < 0 ∨ (panes.nodes (panes.findParent child)).split ≠ some through
    then child
    else climbThrough panes through fuel (panes.findParent child)

def otherKind : SplitKind → SplitKind
  | .horizontal => .vertical
  | .vertical => .horizontal

/-- `pane_layout_add_direction` -/
def paneLayoutAddDirection (direction : Direction) (panes : PaneLayout) : PaneLayout × Bool :=
  let leaf := panes.findLeafNode panes.activePaneId
  if leaf < 0 then (panes, false)
  else
    let split := direction.splitKind
    let target := climbThrough panes (otherKind split) nodeCount leaf
    if 64 ≤ (dec panes.nextPaneId).length then (panes, false)
    else
      let (panes, oldSubtree) := paneAllocNode panes
      if oldSubtree < 0 then (panes, false)
      else
        let panes := panes.set oldSubtree (panes.nodes target)
        let newPaneId := panes.nextPaneId
        let (panes, newLeaf) := paneCreateLeaf panes newPaneId (dec newPaneId)
        if newLeaf < 0 then (panes.free oldSubtree, false)
        else
          let panes := panes.set target
            { panes.nodes target with
              split := some split, paneId := 0, label := [], splitSize := 0,
              first := if direction = .left ∨ direction = .above then newLeaf else oldSubtree,
              second := if direction = .left ∨ direction = .above then oldSubtree else newLeaf }
          ({ panes with activePaneId := newPaneId, nextPaneId := panes.nextPaneId + 1,
                        zoom := .none, zoomPaneId := 0 }, true)

/-- `pane_layout_delete_active` -/
def paneLayoutDeleteActive (panes : PaneLayout) : PaneLayout × Bool :=
  let leaf := panes.findLeafNode panes.activePaneId
  if leaf < 0 ∨ leaf = panes.root then (panes, false)
  else
    let parent := panes.findParent leaf
    if parent < 0 then (panes, false)
    else
      let sibling := if (panes.nodes parent).first = leaf then (panes.nodes parent).second
        else (panes.nodes parent).first
      let panes := { panes with activePaneId := paneFirstLeaf panes.nodes nodeCount sibling }
      (((panes.set parent (panes.nodes sibling)).free leaf).free sibling, true)

/-- `pane_layout_next_id` -/
def paneLayoutNextId (nodes : ℤ → PaneNode) : ℕ :=
  nodeIndices.foldl
    (fun next i =>
      if (nodes i).used ∧ (nodes i).split = none ∧ next ≤ (nodes i).paneId
      then (nodes i).paneId + 1 else next) 1

/-- `pane_layout_compact_after_delete` -/
def paneLayoutCompactAfterDelete (removed : ℕ) (panes : PaneLayout) : PaneLayout :=
  let nodes := fun i =>
    if (panes.nodes i).used ∧ (panes.nodes i).split = none ∧ removed < (panes.nodes i).paneId
    then { panes.nodes i with paneId := (panes.nodes i).paneId - 1 } else panes.nodes i
  let activePaneId :=
    if removed < panes.activePaneId then panes.activePaneId - 1 else panes.activePaneId
  let zoomPaneId := if panes.zoomPaneId = removed then activePaneId
    else if removed < panes.zoomPaneId then panes.zoomPaneId - 1 else panes.zoomPaneId
  { panes with nodes, activePaneId, zoomPaneId, nextPaneId := paneLayoutNextId nodes }

abbrev PaneTree := LinkedTree (ℕ × Bytes) (SplitKind × ℤ)

def PaneNode.cell (node : PaneNode) : Option (Cell (ℕ × Bytes) (SplitKind × ℤ)) :=
  if node.used then
    match node.split with
    | none => some (.leaf (node.paneId, node.label))
    | some kind => some (.split (kind, node.splitSize) node.first node.second)
  else none

/-- What the array says of an index. -/
def view (nodes : ℤ → PaneNode) : Heap (ℕ × Bytes) (SplitKind × ℤ) := fun i =>
  if i < 0 then none else (nodes i).cell

def ids (t : PaneTree) : List ℕ := t.leaves.map Prod.fst

@[simp] theorem ids_leaf (i : ℤ) (a : ℕ × Bytes) : ids (.leaf i a) = [a.1] := rfl

@[simp] theorem ids_split (i : ℤ) (b : SplitKind × ℤ) (first second : PaneTree) :
    ids (.split i b first second) = ids first ++ ids second :=
  List.map_append

variable {i : ℤ} {t : PaneTree} {fuel : ℕ}

variable {nodes : ℤ → PaneNode}

theorem view_leaf {a : ℕ × Bytes} (h : view nodes i = some (.leaf a)) :
    0 ≤ i ∧ (nodes i).used = true ∧ (nodes i).split = none ∧ (nodes i).paneId = a.1 ∧
      (nodes i).label = a.2 := by
  unfold view PaneNode.cell at h
  split_ifs at h with hneg hused
  split at h
  · rename_i hsplit
    obtain rfl := Cell.leaf.inj (Option.some.inj h)
    exact ⟨not_lt.mp hneg, hused, hsplit, rfl, rfl⟩
  · simp at h

theorem view_split {first second : ℤ} {b : SplitKind × ℤ}
    (h : view nodes i = some (.split b first second)) :
    0 ≤ i ∧ (nodes i).used = true ∧ (nodes i).split = some b.1 ∧ (nodes i).splitSize = b.2 ∧
      (nodes i).first = first ∧ (nodes i).second = second := by
  unfold view PaneNode.cell at h
  split_ifs at h with hneg hused
  split at h
  · simp at h
  · rename_i kind hsplit
    obtain ⟨rfl, rfl, rfl⟩ := Cell.split.inj (Option.some.inj h)
    exact ⟨not_lt.mp hneg, hused, hsplit, rfl, rfl, rfl⟩

theorem index_nonneg (h : t.Holds (view nodes)) : 0 ≤ t.index := by
  cases t with
  | leaf => exact (view_leaf h).1
  | split => exact (view_split h.1).1

theorem paneSubtreeContains_eq (h : t.Holds (view nodes)) (paneId : ℕ) (hfuel : t.depth ≤ fuel) :
    paneSubtreeContains nodes paneId fuel t.index = decide (paneId ∈ ids t) := by
  induction t generalizing fuel with
  | leaf i a =>
    obtain ⟨hi, hused, hsplit, hid, -⟩ := view_leaf h
    obtain ⟨fuel, rfl⟩ := exists_succ_of_depth_le hfuel
    rw [paneSubtreeContains, index_leaf, if_neg (by simp [hused, hi]), hsplit]
    simp [hid, eq_comm]
  | split i b first second ih₁ ih₂ =>
    obtain ⟨hi, hused, hsplit, -, hfirst, hsecond⟩ := view_split h.1
    obtain ⟨fuel, rfl⟩ := exists_succ_of_depth_le hfuel
    simp only [depth] at hfuel
    rw [paneSubtreeContains, index_split, if_neg (by simp [hused, hi]), hsplit]
    dsimp only
    rw [hfirst, hsecond, ih₁ h.2.1 (by omega), ih₂ h.2.2 (by omega)]
    simp

/-- `pane_first_leaf` on a tree. -/
def firstId : PaneTree → ℕ
  | .leaf _ a => a.1
  | .split _ _ first second => if firstId first ≠ 0 then firstId first else firstId second

theorem paneFirstLeaf_eq (h : t.Holds (view nodes)) (hfuel : t.depth ≤ fuel) :
    paneFirstLeaf nodes fuel t.index = firstId t := by
  induction t generalizing fuel with
  | leaf i a =>
    obtain ⟨hi, hused, hsplit, hid, -⟩ := view_leaf h
    obtain ⟨fuel, rfl⟩ := exists_succ_of_depth_le hfuel
    rw [paneFirstLeaf, index_leaf, if_neg (by simp [hused, hi]), hsplit]
    exact hid
  | split i b first second ih₁ ih₂ =>
    obtain ⟨hi, hused, hsplit, -, hfirst, hsecond⟩ := view_split h.1
    obtain ⟨fuel, rfl⟩ := exists_succ_of_depth_le hfuel
    simp only [depth] at hfuel
    rw [paneFirstLeaf, index_split, if_neg (by simp [hused, hi]), hsplit]
    dsimp only
    rw [hfirst, hsecond, ih₁ h.2.1 (by omega), ih₂ h.2.2 (by omega)]
    rfl

theorem firstId_mem (t : PaneTree) : firstId t ∈ ids t := by
  induction t with
  | leaf => simp [firstId]
  | split i b first second ih₁ ih₂ =>
    rw [firstId, ids_split, List.mem_append]
    split_ifs
    · exact .inl ih₁
    · exact .inr ih₂

theorem nonneg_of_mem_indices (h : t.Holds (view nodes)) (hi : i ∈ t.indices) : 0 ≤ i := by
  by_contra hneg
  have hsome := h.isSome hi
  rw [view, if_pos (not_le.mp hneg)] at hsome
  simp at hsome

theorem paneFindLeafNode_eq (h : t.Holds (view nodes)) (paneId : ℕ) (hfuel : t.depth ≤ fuel) :
    paneFindLeafNode nodes paneId fuel t.index =
      (t.findLeaf fun a => a.1 = paneId).getD (-1) := by
  induction t generalizing fuel with
  | leaf i a =>
    obtain ⟨hi, hused, hsplit, hid, -⟩ := view_leaf h
    obtain ⟨fuel, rfl⟩ := exists_succ_of_depth_le hfuel
    rw [paneFindLeafNode, index_leaf, if_neg (by simp [hused, hi]), hsplit]
    dsimp only
    rw [hid, findLeaf]
    by_cases hp : a.1 = paneId <;> simp [hp]
  | split i b first second ih₁ ih₂ =>
    obtain ⟨hi, hused, hsplit, -, hfirst, hsecond⟩ := view_split h.1
    obtain ⟨fuel, rfl⟩ := exists_succ_of_depth_le hfuel
    simp only [depth] at hfuel
    rw [paneFindLeafNode, index_split, if_neg (by simp [hused, hi]), hsplit]
    dsimp only
    rw [hfirst, hsecond, ih₁ h.2.1 (by omega), ih₂ h.2.2 (by omega), findLeaf]
    cases hfound : first.findLeaf fun a => a.1 = paneId with
    | none => simp
    | some j =>
      obtain ⟨frames, a, hfill, -⟩ := exists_fill_of_findLeaf hfound
      have hheld := h.2.1
      rw [hfill] at hheld
      simp [(view_leaf (holds_of_holds_fill hheld)).1]

theorem mem_indices_of_findParent {child : ℤ} (h : t.findParent child = some i) :
    i ∈ t.indices := by
  induction t with
  | leaf => simp [findParent] at h
  | split j b first second ih₁ ih₂ =>
    rw [findParent] at h
    split_ifs at h with hc
    · obtain rfl := Option.some.inj h
      simp [indices]
    · rcases Option.or_eq_some_iff.mp h with h | ⟨-, h⟩
      · simp [indices, ih₁ h]
      · simp [indices, ih₂ h]

theorem paneFindParent_eq (h : t.Holds (view nodes)) (child : ℤ) (hfuel : t.depth ≤ fuel) :
    paneFindParent nodes child fuel t.index = (t.findParent child).getD (-1) := by
  induction t generalizing fuel with
  | leaf i a =>
    obtain ⟨hi, hused, hsplit, -, -⟩ := view_leaf h
    obtain ⟨fuel, rfl⟩ := exists_succ_of_depth_le hfuel
    rw [paneFindParent, index_leaf, if_neg (by simp [hused, hi]), hsplit]
    rfl
  | split i b first second ih₁ ih₂ =>
    obtain ⟨hi, hused, hsplit, -, hfirst, hsecond⟩ := view_split h.1
    obtain ⟨fuel, rfl⟩ := exists_succ_of_depth_le hfuel
    simp only [depth] at hfuel
    rw [paneFindParent, index_split, if_neg (by simp [hused, hi]), hsplit]
    dsimp only
    rw [hfirst, hsecond, ih₁ h.2.1 (by omega), ih₂ h.2.2 (by omega), findParent]
    by_cases hchild : first.index = child ∨ second.index = child
    · rw [if_pos hchild, if_pos hchild]
      rfl
    · rw [if_neg hchild, if_neg hchild]
      cases hfound : first.findParent child with
      | none => simp
      | some j => simp [nonneg_of_mem_indices h.2.1 (mem_indices_of_findParent hfound)]

end Cubicle.PaneNodes

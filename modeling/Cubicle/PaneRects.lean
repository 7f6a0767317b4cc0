import Cubicle.PaneNodes

/-!
# The rectangles of a pane layout

A split gives its rectangle to its children and a divider between them; a zoomed split gives it to
one child. Every cell of the terminal is in one pane or one divider.
-/

namespace Cubicle.PaneNodes
open List

open ByteText LinkedTrees LinkedTree
open DeskLayouts (SplitKind Direction)

/-- `desk_rect_t` -/
structure Rect where
  row : ℤ
  col : ℤ
  rows : ℤ
  cols : ℤ
deriving DecidableEq, Repr

/-- The size of a `desk_terminal_t`. -/
structure Terminal where
  rows : ℤ
  cols : ℤ
deriving DecidableEq, Repr

def Terminal.screen (terminal : Terminal) : Rect := ⟨0, 0, terminal.rows, terminal.cols⟩

def minPaneCols : ℤ := 4

def minPaneRows : ℤ := 2

/-- The side of a rectangle that a split divides. -/
def Rect.side (rect : Rect) : SplitKind → ℤ
  | .horizontal => rect.cols
  | .vertical => rect.rows

def minSide : SplitKind → ℤ
  | .horizontal => minPaneCols
  | .vertical => minPaneRows

/-- `split_default_size` -/
def splitDefaultSize (rect : Rect) (split : SplitKind) : ℤ := (rect.side split).tdiv 2

/-- `split_clamp_size` -/
def splitClampSize (rect : Rect) (split : SplitKind) (size : ℤ) : ℤ :=
  let total := rect.side split
  let crowded := total - minSide split - 1 < minSide split
  let minimum := if crowded then (if 1 < total then 1 else 0) else minSide split
  let maximum := if crowded then (if 1 < total then total - 2 else 0) else total - minSide split - 1
  if size < minimum then minimum else if maximum < size then maximum else size

/-- `split_effective_size` -/
def splitEffectiveSize (split : SplitKind) (splitSize : ℤ) (rect : Rect) : ℤ :=
  splitClampSize rect split (if 0 < splitSize then splitSize else splitDefaultSize rect split)

/-- The three parts that `split_rect` makes of a rectangle. -/
structure Parts where
  first : Rect
  second : Rect
  divider : Rect

/-- `split_rect` -/
def splitRect (rect : Rect) (split : SplitKind) (splitSize : ℤ) : Parts :=
  let size := splitEffectiveSize split splitSize rect
  match split with
  | .horizontal =>
    { first := { rect with cols := size }
      second := { rect with col := rect.col + size + 1, cols := rect.cols - size - 1 }
      divider := ⟨rect.row, rect.col + size, rect.rows, 1⟩ }
  | .vertical =>
    { first := { rect with rows := size }
      second := { rect with row := rect.row + size + 1, rows := rect.rows - size - 1 }
      divider := ⟨rect.row + size, rect.col, 1, rect.cols⟩ }

/-- `pane_layout_zoom_target` -/
def paneLayoutZoomTarget (panes : PaneLayout) : ℕ :=
  if (panes.zoom = .horizontal ∨ panes.zoom = .vertical) ∧ 0 < panes.zoomPaneId ∧
      0 ≤ panes.findLeafNode panes.zoomPaneId then panes.zoomPaneId
  else panes.activePaneId

/-- The test for `zooms_this_split`. -/
def Zoom.zooms : Zoom → SplitKind → Bool
  | .none, _ => false
  | .horizontal, kind => kind = .horizontal
  | .vertical, kind => kind = .vertical
  | .full, _ => true

/-- The children of a split with the rectangles they get. -/
def childRects (panes : PaneLayout) (node : ℤ) (split : SplitKind) (rect : Rect) :
    List (ℤ × Rect) :=
  let entry := panes.nodes node
  let firstHasActive :=
    paneSubtreeContains panes.nodes (paneLayoutZoomTarget panes) nodeCount entry.first
  let secondHasActive :=
    paneSubtreeContains panes.nodes (paneLayoutZoomTarget panes) nodeCount entry.second
  if panes.zoom.zooms split && (firstHasActive || secondHasActive) then
    [(if firstHasActive then entry.first else entry.second, rect)]
  else
    [(entry.first, (splitRect rect split entry.splitSize).first),
      (entry.second, (splitRect rect split entry.splitSize).second)]

/-- The recursion that `pane_layout_rect_for_node` and `pane_layout_rect_for_tree_node` share: the
rectangle of the first node that is looked for. -/
def rectWhere (panes : PaneLayout) (hit : ℤ → Bool) : ℕ → ℤ → Rect → Option Rect
  | 0, _, _ => none
  | fuel + 1, node, rect =>
    if node < 0 ∨ (panes.nodes node).used = false ∨ rect.rows ≤ 0 ∨ rect.cols ≤ 0 then none
    else if hit node then some rect
    else match (panes.nodes node).split with
      | none => none
      | some kind => (childRects panes node kind rect).findSome? fun child =>
          rectWhere panes hit fuel child.1 child.2

/-- `pane_layout_rect_for_node` -/
def paneLayoutRectForNode (panes : PaneLayout) (paneId : ℕ) : ℤ → Rect → Option Rect :=
  rectWhere panes
    (fun node => (panes.nodes node).split = none ∧ (panes.nodes node).paneId = paneId) nodeCount

/-- `pane_layout_rect_for_tree_node` -/
def paneLayoutRectForTreeNode (panes : PaneLayout) (target : ℤ) : ℤ → Rect → Option Rect :=
  rectWhere panes (fun node => node = target) nodeCount

/-- `pane_layout_rect_for_pane` -/
def paneLayoutRectForPane (panes : PaneLayout) (terminal : Terminal) (paneId : ℕ) : Option Rect :=
  paneLayoutRectForNode panes paneId panes.root terminal.screen

def Rect.Contains (rect : Rect) (row col : ℤ) : Prop :=
  rect.row ≤ row ∧ row < rect.row + rect.rows ∧ rect.col ≤ col ∧ col < rect.col + rect.cols

def Rect.IsEmpty (rect : Rect) : Prop := rect.rows ≤ 0 ∨ rect.cols ≤ 0

instance (rect : Rect) : Decidable rect.IsEmpty := inferInstanceAs (Decidable (_ ∨ _))

variable {rect : Rect} {row col i : ℤ} {b : SplitKind × ℤ}

theorem Rect.Contains.not_isEmpty (h : rect.Contains row col) : ¬ rect.IsEmpty := by
  unfold Rect.Contains at h
  unfold Rect.IsEmpty
  omega

variable {split : SplitKind}

/-- The first part takes less than the whole side. -/
theorem splitClampSize_bounds (h : 0 < rect.side split) (size : ℤ) :
    0 ≤ splitClampSize rect split size ∧ splitClampSize rect split size < rect.side split := by
  have hmin : 0 < minSide split := by cases split <;> decide
  unfold splitClampSize
  dsimp only
  split_ifs <;> omega

theorem splitEffectiveSize_bounds (h : 0 < rect.side split) (splitSize : ℤ) :
    0 ≤ splitEffectiveSize split splitSize rect ∧
      splitEffectiveSize split splitSize rect < rect.side split :=
  splitClampSize_bounds h _

/-- A cell is in the first part, on the divider or in the second part. -/
theorem contains_splitRect (h : ¬ rect.IsEmpty) (split : SplitKind) (splitSize : ℤ) (row col : ℤ) :
    rect.Contains row col ↔
      (splitRect rect split splitSize).first.Contains row col ∨
      (splitRect rect split splitSize).divider.Contains row col ∨
      (splitRect rect split splitSize).second.Contains row col := by
  unfold Rect.IsEmpty at h
  have hside : 0 < rect.side split := by
    cases split <;> simp only [Rect.side] <;> omega
  obtain ⟨hlow, hhigh⟩ := splitEffectiveSize_bounds hside splitSize
  cases split with
  | horizontal =>
    simp only [Rect.side] at hhigh
    simp only [splitRect, Rect.Contains]
    omega
  | vertical =>
    simp only [Rect.side] at hhigh
    simp only [splitRect, Rect.Contains]
    omega

/-- The three parts have no cell in common. -/
theorem splitRect_disjoint (rect : Rect) (split : SplitKind) (splitSize row col : ℤ) :
    ¬ ((splitRect rect split splitSize).first.Contains row col ∧
        (splitRect rect split splitSize).divider.Contains row col) ∧
    ¬ ((splitRect rect split splitSize).first.Contains row col ∧
        (splitRect rect split splitSize).second.Contains row col) ∧
    ¬ ((splitRect rect split splitSize).divider.Contains row col ∧
        (splitRect rect split splitSize).second.Contains row col) := by
  cases split <;> simp only [splitRect, Rect.Contains] <;> omega

/-- The split gives its rectangle to one child. -/
def ZoomsAt (zoom : Zoom) (target : ℕ) (b : SplitKind × ℤ) (first second : PaneTree) : Prop :=
  zoom.zooms b.1 = true ∧ (target ∈ ids first ∨ target ∈ ids second)

instance (zoom : Zoom) (target : ℕ) (b : SplitKind × ℤ) (first second : PaneTree) :
    Decidable (ZoomsAt zoom target b first second) := inferInstanceAs (Decidable (_ ∧ _))

/-- The subtrees that get a rectangle that is not empty, with their rectangles. -/
def places (zoom : Zoom) (target : ℕ) : PaneTree → Rect → List (PaneTree × Rect)
  | .leaf i a, rect => if rect.IsEmpty then [] else [(.leaf i a, rect)]
  | .split i b first second, rect =>
    if rect.IsEmpty then []
    else (.split i b first second, rect) ::
      if ZoomsAt zoom target b first second then
        if target ∈ ids first then places zoom target first rect
        else places zoom target second rect
      else
        places zoom target first (splitRect rect b.1 b.2).first ++
          places zoom target second (splitRect rect b.1 b.2).second

variable {zoom : Zoom} {target : ℕ}

variable {t : PaneTree} {p : PaneTree × Rect}

theorem not_isEmpty_of_mem_places (h : p ∈ places zoom target t rect) : ¬ p.2.IsEmpty := by
  induction t generalizing rect with
  | leaf i a =>
    rw [places] at h
    split_ifs at h with hempty
    · simp at h
    · obtain rfl := mem_singleton.mp h
      exact hempty
  | split i b first second ih₁ ih₂ =>
    rw [places] at h
    split_ifs at h with hempty hzoom hin
    · simp at h
    · rcases mem_cons.mp h with rfl | h
      · exact hempty
      · exact ih₁ h
    · rcases mem_cons.mp h with rfl | h
      · exact hempty
      · exact ih₂ h
    · rcases mem_cons.mp h with rfl | h
      · exact hempty
      · rcases mem_append.mp h with h | h
        · exact ih₁ h
        · exact ih₂ h

theorem places_sublist (t : PaneTree) (rect : Rect) :
    ((places zoom target t rect).map fun p => p.1.index).Sublist t.indices := by
  induction t generalizing rect with
  | leaf i a =>
    rw [places]
    split_ifs
    · exact nil_sublist _
    · exact List.Sublist.refl _
  | split i b first second ih₁ ih₂ =>
    rw [places, indices]
    split_ifs
    · exact nil_sublist _
    · exact ((ih₁ rect).trans (sublist_append_left _ _)).cons_cons i
    · exact ((ih₂ rect).trans (sublist_append_right _ _)).cons_cons i
    · rw [map_cons, map_append]
      exact ((ih₁ _).append (ih₂ _)).cons_cons i

/-- What is shown in a place: a pane, or a divider when the split is not zoomed. -/
def tileOf (zoom : Zoom) (target : ℕ) (p : PaneTree × Rect) : Option Rect :=
  match p.1 with
  | .leaf _ _ => some p.2
  | .split _ b first second =>
    if ZoomsAt zoom target b first second then none else some (splitRect p.2 b.1 b.2).divider

def Shows (zoom : Zoom) (target : ℕ) (p : PaneTree × Rect) (row col : ℤ) : Prop :=
  ∃ rect, tileOf zoom target p = some rect ∧ rect.Contains row col

theorem shows_leaf {a : ℕ × Bytes} :
    Shows zoom target (.leaf i a, rect) row col ↔ rect.Contains row col := by
  simp [Shows, tileOf]

variable {second : PaneTree}

variable {first : PaneTree}

theorem shows_split :
    Shows zoom target (.split i b first second, rect) row col ↔
      ¬ ZoomsAt zoom target b first second ∧
        (splitRect rect b.1 b.2).divider.Contains row col := by
  by_cases hzoom : ZoomsAt zoom target b first second <;> simp [Shows, tileOf, hzoom]

theorem contains_of_shows (hp : p ∈ places zoom target t rect) (h : Shows zoom target p row col) :
    rect.Contains row col := by
  induction t generalizing rect with
  | leaf i a =>
    rw [places] at hp
    split_ifs at hp
    · simp at hp
    · obtain rfl := mem_singleton.mp hp
      exact shows_leaf.mp h
  | split i b first second ih₁ ih₂ =>
    rw [places] at hp
    split_ifs at hp with hempty hzoom hin
    · simp at hp
    · rcases mem_cons.mp hp with rfl | hp
      · exact absurd hzoom (shows_split.mp h).1
      · exact ih₁ hp
    · rcases mem_cons.mp hp with rfl | hp
      · exact absurd hzoom (shows_split.mp h).1
      · exact ih₂ hp
    · rw [contains_splitRect hempty b.1 b.2]
      rcases mem_cons.mp hp with rfl | hp
      · exact .inr (.inl (shows_split.mp h).2)
      · rcases mem_append.mp hp with hp | hp
        · exact .inl (ih₁ hp)
        · exact .inr (.inr (ih₂ hp))

theorem not_isEmpty_tileOf (hp : ¬ p.2.IsEmpty) {r : Rect} (h : tileOf zoom target p = some r) :
    ¬ r.IsEmpty := by
  obtain ⟨u, rect⟩ := p
  cases u with
  | leaf i a =>
    obtain rfl : rect = r := Option.some.inj h
    exact hp
  | split i b first second =>
    rw [tileOf] at h
    dsimp only at h
    split_ifs at h
    obtain rfl := Option.some.inj h
    dsimp only at hp
    unfold Rect.IsEmpty at hp ⊢
    cases b.1 <;> simp only [splitRect] <;> omega

/-- Every cell of the rectangle of a tree is shown by exactly one place. -/
theorem exists_place {t : PaneTree} {rect : Rect} {row col : ℤ} (h : rect.Contains row col) :
    ∃ p ∈ places zoom target t rect, Shows zoom target p row col ∧
      ∀ q ∈ places zoom target t rect, Shows zoom target q row col → q = p := by
  induction t generalizing rect with
  | leaf i a =>
    rw [places, if_neg h.not_isEmpty]
    exact ⟨_, mem_singleton_self _, shows_leaf.mpr h, fun q hq _ =>
      mem_singleton.mp hq⟩
  | split i b first second ih₁ ih₂ =>
    rw [places, if_neg h.not_isEmpty]
    by_cases hzoom : ZoomsAt zoom target b first second
    · rw [if_pos hzoom]
      have hroot : ¬ Shows zoom target (.split i b first second, rect) row col := fun hshows =>
        (shows_split.mp hshows).1 hzoom
      have hchild : ∃ p ∈ (if target ∈ ids first then places zoom target first rect
          else places zoom target second rect), Shows zoom target p row col ∧
          ∀ q ∈ (if target ∈ ids first then places zoom target first rect
            else places zoom target second rect), Shows zoom target q row col → q = p := by
        split_ifs
        · exact ih₁ h
        · exact ih₂ h
      obtain ⟨p, hp, hshows, honly⟩ := hchild
      refine ⟨p, mem_cons_of_mem _ hp, hshows, fun q hq hq' => ?_⟩
      rcases mem_cons.mp hq with rfl | hq
      · exact absurd hq' hroot
      · exact honly q hq hq'
    · rw [if_neg hzoom]
      obtain ⟨hfd, hfs, hds⟩ := splitRect_disjoint rect b.1 b.2 row col
      -- the part that has the cell decides which of the three lists has the place
      rcases (contains_splitRect h.not_isEmpty b.1 b.2 row col).mp h with hin | hin | hin
      · obtain ⟨p, hp, hshows, honly⟩ := ih₁ hin
        refine ⟨p, mem_cons_of_mem _ (mem_append_left _ hp), hshows,
          fun q hq hq' => ?_⟩
        rcases mem_cons.mp hq with rfl | hq
        · exact absurd ⟨hin, (shows_split.mp hq').2⟩ hfd
        · rcases mem_append.mp hq with hq | hq
          · exact honly q hq hq'
          · exact absurd ⟨hin, contains_of_shows hq hq'⟩ hfs
      · refine ⟨_, mem_cons_self, shows_split.mpr ⟨hzoom, hin⟩, fun q hq hq' => ?_⟩
        rcases mem_cons.mp hq with rfl | hq
        · rfl
        · rcases mem_append.mp hq with hq | hq
          · exact absurd ⟨contains_of_shows hq hq', hin⟩ hfd
          · exact absurd ⟨hin, contains_of_shows hq hq'⟩ hds
      · obtain ⟨p, hp, hshows, honly⟩ := ih₂ hin
        refine ⟨p, mem_cons_of_mem _ (mem_append_right _ hp), hshows,
          fun q hq hq' => ?_⟩
        rcases mem_cons.mp hq with rfl | hq
        · exact absurd ⟨(shows_split.mp hq').2, hin⟩ hds
        · rcases mem_append.mp hq with hq | hq
          · exact absurd ⟨contains_of_shows hq hq', hin⟩ hfs
          · exact honly q hq hq'

/-- The tree of a layout: where it is, and that its panes are different ones. -/
structure Shaped (panes : PaneLayout) (t : PaneTree) : Prop where
  holds : t.Holds (view panes.nodes)
  root : panes.root = t.index
  nodup : t.indices.Nodup
  range : ∀ i ∈ t.indices, i < nodeCount
  ids_nodup : (ids t).Nodup

variable {panes : PaneLayout}

/-- A tree in the array is not deeper than the array is long. -/
theorem Shaped.depth_le (h : Shaped panes t) : t.depth ≤ nodeCount := by
  have hsub : t.indices ⊆ (List.range nodeCount).map fun i : ℕ => (i : ℤ) := by
    intro i hi
    have hlow := nonneg_of_mem_indices h.holds hi
    have hhigh := h.range i hi
    rw [mem_map]
    exact ⟨i.toNat, by rw [mem_range]; omega, by omega⟩
  have hle := (subperm_of_subset h.nodup hsub).length_le
  rw [length_map, length_range] at hle
  exact t.depth_le_length_indices.trans hle

theorem childRects_eq (h : (LinkedTree.split i b first second).Holds (view panes.nodes))
    (hdepth : (LinkedTree.split i b first second).depth ≤ nodeCount) (rect : Rect) :
    childRects panes i b.1 rect =
      if ZoomsAt panes.zoom (paneLayoutZoomTarget panes) b first second then
        [(if paneLayoutZoomTarget panes ∈ ids first then first.index else second.index, rect)]
      else [(first.index, (splitRect rect b.1 b.2).first),
        (second.index, (splitRect rect b.1 b.2).second)] := by
  obtain ⟨-, -, -, hsize, hfirst, hsecond⟩ := view_split h.1
  simp only [depth] at hdepth
  unfold childRects ZoomsAt
  dsimp only
  rw [hfirst, hsecond, hsize, paneSubtreeContains_eq h.2.1 _ (by omega),
    paneSubtreeContains_eq h.2.2 _ (by omega)]
  by_cases h₁ : paneLayoutZoomTarget panes ∈ ids first <;>
    by_cases h₂ : paneLayoutZoomTarget panes ∈ ids second <;> simp [h₁, h₂]

theorem childRects_length (h : (LinkedTree.split i b first second).Holds (view panes.nodes))
    (hdepth : (LinkedTree.split i b first second).depth ≤ nodeCount) (rect : Rect) :
    (childRects panes i b.1 rect).length = 1 ↔
      ZoomsAt panes.zoom (paneLayoutZoomTarget panes) b first second := by
  rw [childRects_eq h hdepth]
  by_cases hzoom : ZoomsAt panes.zoom (paneLayoutZoomTarget panes) b first second <;> simp [hzoom]

theorem rectWhere_eq (hit : ℤ → Bool) (h : t.Holds (view panes.nodes)) {fuel : ℕ}
    (hfuel : t.depth ≤ fuel) (hdepth : t.depth ≤ nodeCount) (rect : Rect) :
    rectWhere panes hit fuel t.index rect =
      (places panes.zoom (paneLayoutZoomTarget panes) t rect).findSome? fun p =>
        if hit p.1.index then some p.2 else none := by
  induction t generalizing fuel rect with
  | leaf i a =>
    obtain ⟨hi, hused, hsplit, -, -⟩ := view_leaf h
    obtain ⟨fuel, rfl⟩ := exists_succ_of_depth_le hfuel
    rw [rectWhere, places, index_leaf]
    by_cases hempty : rect.IsEmpty
    · rw [if_pos hempty, if_pos (by unfold Rect.IsEmpty at hempty; tauto)]
      rfl
    · rw [if_neg hempty, if_neg (by unfold Rect.IsEmpty at hempty; simp [hused]; omega), hsplit]
      cases hhit : hit i <;> simp [hhit]
  | split i b first second ih₁ ih₂ =>
    obtain ⟨hi, hused, hsplit, hsize, hfirst, hsecond⟩ := view_split h.1
    obtain ⟨fuel, rfl⟩ := exists_succ_of_depth_le hfuel
    simp only [depth] at hfuel hdepth
    have hchildren := childRects_eq h (by simp only [depth]; omega) rect
    rw [rectWhere, places, index_split]
    by_cases hempty : rect.IsEmpty
    · rw [if_pos hempty, if_pos (by unfold Rect.IsEmpty at hempty; tauto)]
      rfl
    · rw [if_neg hempty, if_neg (by unfold Rect.IsEmpty at hempty; simp [hused]; omega), hsplit]
      cases hhit : hit i with
      | true => simp [hhit]
      | false =>
        dsimp only
        rw [hchildren, findSome?_cons]
        simp only [index_split, hhit, Bool.false_eq_true, if_false]
        split_ifs with hzoom hin
        · rw [findSome?_cons, findSome?_nil,
            ih₁ h.2.1 (by omega) (by omega)]
          cases List.findSome? _ _ <;> rfl
        · rw [findSome?_cons, findSome?_nil,
            ih₂ h.2.2 (by omega) (by omega)]
          cases List.findSome? _ _ <;> rfl
        · rw [findSome?_cons, findSome?_cons, findSome?_nil,
            ih₁ h.2.1 (by omega) (by omega), ih₂ h.2.2 (by omega) (by omega),
            findSome?_append]
          cases List.findSome? _ (places _ _ first _) <;> cases List.findSome? _ _ <;> rfl

section
variable {panes : PaneLayout} {t : PaneTree}

theorem rectWhere_eq_some (h : Shaped panes t) {hit : ℤ → Bool}
    (hunique : ∀ i ∈ t.indices, ∀ j ∈ t.indices, hit i = true → hit j = true → i = j)
    (rect r : Rect) :
    rectWhere panes hit nodeCount panes.root rect = some r ↔
      ∃ p ∈ places panes.zoom (paneLayoutZoomTarget panes) t rect,
        hit p.1.index = true ∧ p.2 = r := by
  rw [h.root, rectWhere_eq hit h.holds h.depth_le h.depth_le]
  have hsub := @places_sublist panes.zoom (paneLayoutZoomTarget panes) t rect
  constructor
  · intro hfound
    obtain ⟨p, hp, hpr⟩ := exists_of_findSome?_eq_some hfound
    split_ifs at hpr with hhit
    exact ⟨p, hp, hhit, Option.some.inj hpr⟩
  · rintro ⟨p, hp, hhit, rfl⟩
    cases hfound : (places panes.zoom (paneLayoutZoomTarget panes) t rect).findSome? fun p =>
        if hit p.1.index then some p.2 else none with
    | none =>
      have hno := findSome?_eq_none_iff.mp hfound p hp
      simp [hhit] at hno
    | some r' =>
      obtain ⟨q, hq, hqr⟩ := exists_of_findSome?_eq_some hfound
      split_ifs at hqr with hhit'
      have hindex : ∀ p ∈ places panes.zoom (paneLayoutZoomTarget panes) t rect,
          p.1.index ∈ t.indices := fun p hp => hsub.subset (mem_map_of_mem hp)
      have hsame := hunique _ (hindex q hq) _ (hindex p hp) hhit' hhit
      rw [← Option.some.inj hqr, inj_on_of_nodup_map (h.nodup.sublist hsub) hq hp hsame]

theorem rectForTreeNode_eq_some (h : Shaped panes t) (node : ℤ) (rect r : Rect) :
    paneLayoutRectForTreeNode panes node panes.root rect = some r ↔
      ∃ p ∈ places panes.zoom (paneLayoutZoomTarget panes) t rect, p.1.index = node ∧ p.2 = r := by
  rw [paneLayoutRectForTreeNode, rectWhere_eq_some h]
  · simp
  · intro i _ j _ hi hj
    simp only [decide_eq_true_eq] at hi hj
    rw [hi, hj]

/-- A place is a subtree. -/
theorem exists_fill_of_mem_places (hp : p ∈ places zoom target t rect) :
    ∃ frames, t = fill frames p.1 := by
  induction t generalizing rect with
  | leaf i a =>
    rw [places] at hp
    split_ifs at hp
    · simp at hp
    · obtain rfl := mem_singleton.mp hp
      exact ⟨[], rfl⟩
  | split i b first second ih₁ ih₂ =>
    have hfirst : ∀ {r}, p ∈ places zoom target first r →
        ∃ frames, LinkedTree.split i b first second = fill frames p.1 := by
      intro r hr
      obtain ⟨frames, hframes⟩ := ih₁ hr
      refine ⟨frames ++ [⟨i, b, true, second⟩], ?_⟩
      rw [fill_append, ← hframes]
      rfl
    have hsecond : ∀ {r}, p ∈ places zoom target second r →
        ∃ frames, LinkedTree.split i b first second = fill frames p.1 := by
      intro r hr
      obtain ⟨frames, hframes⟩ := ih₂ hr
      refine ⟨frames ++ [⟨i, b, false, first⟩], ?_⟩
      rw [fill_append, ← hframes]
      rfl
    rw [places] at hp
    split_ifs at hp
    · simp at hp
    · rcases mem_cons.mp hp with rfl | hp
      · exact ⟨[], rfl⟩
      · exact hfirst hp
    · rcases mem_cons.mp hp with rfl | hp
      · exact ⟨[], rfl⟩
      · exact hsecond hp
    · rcases mem_cons.mp hp with rfl | hp
      · exact ⟨[], rfl⟩
      · rcases mem_append.mp hp with hp | hp
        · exact hfirst hp
        · exact hsecond hp

theorem holds_of_mem_places {heap : Heap (ℕ × Bytes) (SplitKind × ℤ)} (h : t.Holds heap)
    (hp : p ∈ places zoom target t rect) : p.1.Holds heap := by
  obtain ⟨frames, rfl⟩ := exists_fill_of_mem_places hp
  exact holds_of_holds_fill h

theorem depth_le_of_mem_places (hp : p ∈ places zoom target t rect) {n : ℕ} (h : t.depth ≤ n) :
    p.1.depth ≤ n := by
  obtain ⟨frames, rfl⟩ := exists_fill_of_mem_places hp
  exact (depth_le_fill frames p.1).trans h

theorem ids_subset_of_mem_places (hp : p ∈ places zoom target t rect) : ids p.1 ⊆ ids t := by
  obtain ⟨frames, rfl⟩ := exists_fill_of_mem_places hp
  intro paneId hid
  exact ((leaves_fill frames p.1).map Prod.fst).symm.subset
    (by rw [map_append]; exact mem_append_left _ hid)

theorem rectForPane_eq_some (h : Shaped panes t) (terminal : Terminal) (paneId : ℕ) (r : Rect) :
    paneLayoutRectForPane panes terminal paneId = some r ↔
      ∃ i label, (.leaf i (paneId, label), r) ∈
        places panes.zoom (paneLayoutZoomTarget panes) t terminal.screen := by
  rw [paneLayoutRectForPane, paneLayoutRectForNode, rectWhere_eq_some h]
  · constructor
    · rintro ⟨⟨u, r'⟩, hp, hhit, rfl⟩
      have hu := holds_of_mem_places h.holds hp
      cases u with
      | leaf i a =>
        obtain ⟨-, -, -, hid, -⟩ := view_leaf hu
        have hhit := of_decide_eq_true hhit
        obtain rfl : a.1 = paneId := hid.symm.trans hhit.2
        exact ⟨i, a.2, hp⟩
      | split i b first second =>
        obtain ⟨-, -, hsplit, -⟩ := view_split hu.1
        simp [hsplit] at hhit
    · rintro ⟨i, label, hp⟩
      obtain ⟨-, -, hsplit, hid, -⟩ := view_leaf (holds_of_mem_places h.holds hp)
      exact ⟨_, hp, by simp [hsplit, hid], rfl⟩
  · intro i hi j hj hhit hhit'
    have hhit := of_decide_eq_true hhit
    have hhit' := of_decide_eq_true hhit'
    have hleaf : ∀ k ∈ t.indices, (panes.nodes k).split = none → (panes.nodes k).paneId = paneId →
        (k, (paneId, (panes.nodes k).label)) ∈ t.entries := by
      intro k hk hsplit hid
      refine mem_entries h.holds hk ?_
      have hsome := h.holds.isSome hk
      unfold view PaneNode.cell at hsome ⊢
      split_ifs at hsome ⊢
      · simp at hsome
      · rw [hsplit, hid]
      · simp at hsome
    have hentries : (t.entries.map fun e => e.2.1).Nodup := by
      have hids := h.ids_nodup
      rwa [ids, leaves_eq_map_entries, map_map] at hids
    have hsame := inj_on_of_nodup_map hentries (hleaf i hi hhit.1 hhit.2)
      (hleaf j hj hhit'.1 hhit'.2) rfl
    exact congrArg Prod.fst hsame

/-- A pane, or the divider of a split. -/
inductive Area
  | pane (paneId : ℕ)
  | divider (node : ℤ)
deriving DecidableEq

/-- The rectangle of a visible pane, or of the divider of a split that is reached with a rectangle
that is not empty and is not zoomed. -/
def areaRect (panes : PaneLayout) (terminal : Terminal) : Area → Option Rect
  | .pane paneId => paneLayoutRectForPane panes terminal paneId
  | .divider node =>
    match paneLayoutRectForTreeNode panes node panes.root terminal.screen,
        (panes.nodes node).split with
    | some rect, some kind =>
      if (childRects panes node kind rect).length = 1 then none
      else some (splitRect rect kind (panes.nodes node).splitSize).divider
    | _, _ => none

theorem areaRect_eq_some (h : Shaped panes t) (terminal : Terminal) (r : Rect) (area : Area) :
    areaRect panes terminal area = some r ↔
      ∃ p ∈ places panes.zoom (paneLayoutZoomTarget panes) t terminal.screen,
        tileOf panes.zoom (paneLayoutZoomTarget panes) p = some r ∧
        area = match p.1 with
          | .leaf _ a => .pane a.1
          | .split i _ _ _ => .divider i := by
  cases area with
  | pane paneId =>
    rw [areaRect, rectForPane_eq_some h]
    constructor
    · rintro ⟨i, label, hp⟩
      exact ⟨_, hp, rfl, rfl⟩
    · rintro ⟨⟨u, r'⟩, hp, htile, harea⟩
      cases u with
      | leaf i a =>
        obtain rfl : paneId = a.1 := Area.pane.inj harea
        obtain rfl : r' = r := Option.some.inj htile
        exact ⟨i, a.2, hp⟩
      | split => simp at harea
  | divider node =>
    constructor
    · intro hrect
      rw [areaRect] at hrect
      split at hrect
      · rename_i rect kind hfound hsplit
        obtain ⟨⟨u, r'⟩, hp, hindex, rfl⟩ := (rectForTreeNode_eq_some h node _ _).mp hfound
        have hu := holds_of_mem_places h.holds hp
        cases u with
        | leaf i a =>
          obtain rfl : i = node := hindex
          simp [(view_leaf hu).2.2.1] at hsplit
        | split i b first second =>
          obtain rfl : i = node := hindex
          obtain ⟨-, -, hkind, hsize, -⟩ := view_split hu.1
          obtain rfl : b.1 = kind := Option.some.inj (hkind.symm.trans hsplit)
          have hlength := childRects_length hu (depth_le_of_mem_places hp h.depth_le) r'
          dsimp only at hrect
          split_ifs at hrect with hone
          refine ⟨_, hp, ?_, rfl⟩
          rw [tileOf]
          dsimp only
          rw [if_neg fun hzoom => hone (hlength.mpr hzoom), ← hsize]
          exact hrect
      · simp at hrect
    · rintro ⟨⟨u, r'⟩, hp, htile, harea⟩
      have hu := holds_of_mem_places h.holds hp
      cases u with
      | leaf => simp at harea
      | split i b first second =>
        obtain rfl : node = i := Area.divider.inj harea
        obtain ⟨-, -, hkind, hsize, -⟩ := view_split hu.1
        have hfound := (rectForTreeNode_eq_some h node terminal.screen r').mpr ⟨_, hp, rfl, rfl⟩
        have hlength := childRects_length hu (depth_le_of_mem_places hp h.depth_le) r'
        rw [tileOf] at htile
        dsimp only at htile
        split_ifs at htile with hzoom
        rw [areaRect, hfound, hkind]
        dsimp only
        rw [if_neg fun hone => hzoom (hlength.mp hone), hsize]
        exact htile

/-- Every cell of the terminal is in exactly one visible pane or divider, and none of them goes
beyond the terminal. -/
theorem cell_in_one_area (h : Shaped panes t) (terminal : Terminal) :
    (∀ row col, 0 ≤ row → row < terminal.rows → 0 ≤ col → col < terminal.cols →
      ∃! area, ∃ rect, areaRect panes terminal area = some rect ∧ rect.Contains row col) ∧
    ∀ area rect, areaRect panes terminal area = some rect →
      0 ≤ rect.row ∧ rect.row + rect.rows ≤ terminal.rows ∧
        0 ≤ rect.col ∧ rect.col + rect.cols ≤ terminal.cols := by
  constructor
  · intro row col hrow hrow' hcol hcol'
    have hscreen : terminal.screen.Contains row col := by
      simp only [Terminal.screen, Rect.Contains]
      omega
    obtain ⟨p, hp, ⟨rect, htile, hin⟩, honly⟩ := exists_place hscreen
    refine ⟨_, ⟨rect, (areaRect_eq_some h terminal rect _).mpr ⟨p, hp, htile, rfl⟩, hin⟩, ?_⟩
    rintro area ⟨rect', harea, hin'⟩
    obtain ⟨q, hq, htile', rfl⟩ := (areaRect_eq_some h terminal rect' area).mp harea
    rw [honly q hq ⟨rect', htile', hin'⟩]
  · intro area rect harea
    obtain ⟨p, hp, htile, -⟩ := (areaRect_eq_some h terminal rect area).mp harea
    have hsome := not_isEmpty_tileOf (not_isEmpty_of_mem_places hp) htile
    have hinside : ∀ row col, rect.Contains row col → terminal.screen.Contains row col :=
      fun row col hin => contains_of_shows hp ⟨rect, htile, hin⟩
    -- the first and the last cell of the rectangle are cells of the terminal
    have hfirst := hinside rect.row rect.col
    have hlast := hinside (rect.row + rect.rows - 1) (rect.col + rect.cols - 1)
    simp only [Terminal.screen, Rect.Contains, Rect.IsEmpty] at hsome hfirst hlast
    omega

end

def resetTree : PaneTree :=
  .split 6 (.vertical, 0)
    (.split 4 (.horizontal, 0) (.leaf 0 (1, ascii "1")) (.leaf 1 (2, ascii "2")))
    (.split 5 (.horizontal, 0) (.leaf 2 (3, ascii "3")) (.leaf 3 (4, ascii "4")))

theorem shaped_reset : Shaped paneLayoutReset resetTree where
  holds := ⟨rfl, ⟨rfl, rfl, rfl⟩, ⟨rfl, rfl, rfl⟩⟩
  root := rfl
  nodup := by decide
  range := by decide
  ids_nodup := by decide

/-- The cell in the middle of a terminal with four panes is on the divider of the root. -/
theorem reset_middle_cell :
    (∃! area, ∃ rect, areaRect paneLayoutReset ⟨24, 80⟩ area = some rect ∧
      rect.Contains 12 40) ∧ areaRect paneLayoutReset ⟨24, 80⟩ (.divider 6) = some ⟨12, 0, 1, 80⟩ :=
  ⟨(cell_in_one_area shaped_reset ⟨24, 80⟩).1 12 40 (by decide) (by decide) (by decide)
    (by decide), by decide +kernel⟩

end Cubicle.PaneNodes

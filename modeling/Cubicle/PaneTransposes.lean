import Cubicle.PaneRects

/-!
# Transposing splits

Transposing turns two neighbouring rows of panes into columns, or the other way round, when the
dividers of the two rows are in line. The test for that compares the rectangles of the two dividers
in whole, and two dividers are never at the same place.
-/

namespace Cubicle.PaneNodes
open List

open ByteText LinkedTrees LinkedTree
open DeskLayouts (SplitKind Direction)

/-- `pane_split_divider_rect`; `split_rect` takes a node that is no split for a vertical one. -/
def paneSplitDividerRect (panes : PaneLayout) (terminal : Terminal) (splitNode : ℤ) :
    Option Rect :=
  (paneLayoutRectForTreeNode panes splitNode panes.root terminal.screen).map fun rect =>
    (splitRect rect ((panes.nodes splitNode).split.getD .vertical)
      (panes.nodes splitNode).splitSize).divider

/-- `pane_dividers_align` -/
def paneDividersAlign (first second : Rect) : Option SplitKind → Bool
  | some .horizontal =>
    first.col = second.col ∧ first.rows = second.rows ∧ first.row = second.row
  | _ => first.row = second.row ∧ first.cols = second.cols ∧ first.col = second.col

/-- The nodes that `pane_layout_transpose` has found when it compares dividers. -/
structure TransposeSite where
  activeSplit : ℤ
  localParent : ℤ
  grandparent : ℤ
  siblingSplit : ℤ
  outside : ℤ
  localIsFirst : Bool

/-- The loop of `pane_layout_transpose`, from a child of the split to be looked at; the message says
why it ended without a site. -/
def transposeSite (panes : PaneLayout) : ℕ → ℤ → Except String TransposeSite
  | 0, _ => .error "transpose: no active pane"
  | fuel + 1, child =>
    if child < 0 then .error "transpose: no active pane"
    else
      let activeSplit := panes.findParent child
      if activeSplit < 0 then .error "transpose: no eligible parent split"
      else
        let localParent := panes.findParent activeSplit
        let grandparent := if 0 ≤ localParent then panes.findParent localParent else -1
        if localParent < 0 ∨ grandparent < 0 then transposeSite panes fuel activeSplit
        else
          let activeNode := panes.nodes activeSplit
          let localNode := panes.nodes localParent
          let grandNode := panes.nodes grandparent
          if activeNode.split = none ∨ localNode.split = none ∨ grandNode.split = none ∨
              localNode.split ≠ grandNode.split ∨ activeNode.split = grandNode.split then
            transposeSite panes fuel activeSplit
          else
            let localIsFirst : Bool := grandNode.first = localParent
            let activeIsFirst : Bool := localNode.first = activeSplit
            let siblingSplit := if localIsFirst then grandNode.second else grandNode.first
            let outside := if activeIsFirst then localNode.second else localNode.first
            if localIsFirst = activeIsFirst then transposeSite panes fuel activeSplit
            else if siblingSplit < 0 ∨ (panes.nodes siblingSplit).used = false ∨
                (panes.nodes siblingSplit).split ≠ activeNode.split then
              .error "transpose: adjacent split mismatch"
            else .ok ⟨activeSplit, localParent, grandparent, siblingSplit, outside, localIsFirst⟩

/-- The nodes of a site after transposing. -/
def transposeNodes (panes : PaneLayout) (site : TransposeSite) : PaneLayout :=
  let activeNode := panes.nodes site.activeSplit
  let siblingNode := panes.nodes site.siblingSplit
  let pairSplit := (panes.nodes site.grandparent).split
  let pairSize := (panes.nodes site.grandparent).splitSize
  let panes := panes.set site.grandparent
    { panes.nodes site.grandparent with
      split := pairSplit
      splitSize := (panes.nodes site.localParent).splitSize
      first := if site.localIsFirst then site.outside else site.activeSplit
      second := if site.localIsFirst then site.activeSplit else site.outside }
  let panes := panes.set site.activeSplit
    { panes.nodes site.activeSplit with
      split := activeNode.split
      splitSize := activeNode.splitSize
      first := site.localParent
      second := site.siblingSplit }
  let panes := panes.set site.localParent
    { panes.nodes site.localParent with
      split := pairSplit
      splitSize := pairSize
      first := if site.localIsFirst then activeNode.first else siblingNode.first
      second := if site.localIsFirst then siblingNode.first else activeNode.first }
  panes.set site.siblingSplit
    { panes.nodes site.siblingSplit with
      split := pairSplit
      splitSize := pairSize
      first := if site.localIsFirst then activeNode.second else siblingNode.second
      second := if site.localIsFirst then siblingNode.second else activeNode.second }

/-- `pane_layout_transpose` -/
def paneLayoutTranspose (panes : PaneLayout) (terminal : Terminal) : PaneLayout × Bool :=
  match transposeSite panes (nodeCount + 1) (panes.findLeafNode panes.activePaneId) with
  | .error message => (panes.showStatus message, false)
  | .ok site =>
    match paneSplitDividerRect panes terminal site.activeSplit,
        paneSplitDividerRect panes terminal site.siblingSplit with
    | some activeDivider, some siblingDivider =>
      if paneDividersAlign activeDivider siblingDivider (panes.nodes site.activeSplit).split then
        ({ transposeNodes panes site with status := [] }, true)
      else (panes.showStatus "transpose: dividers are not aligned", false)
    | _, _ => (panes.showStatus "transpose: cannot resolve dividers", false)

section
variable {panes : PaneLayout} {t : PaneTree}

/-- The parent that is found is the split around the node. -/
theorem findParent_cases (h : Shaped panes t) (child : ℤ) :
    panes.findParent child = -1 ∨ ∃ f frames u, t = fill (f :: frames) u ∧ u.index = child ∧
      panes.findParent child = f.index := by
  rw [PaneLayout.findParent, h.root, paneFindParent_eq h.holds child h.depth_le]
  cases hfound : t.findParent child with
  | none => exact .inl rfl
  | some parent =>
    right
    have hinner : child ∈ t.innerIndices := by
      by_contra hout
      rw [findParent_eq_none hout] at hfound
      simp at hfound
    obtain ⟨frames, u, rfl, rfl⟩ := exists_fill (t := t) (by
      rw [indices_eq]
      exact mem_cons_of_mem _ hinner)
    cases frames with
    | nil =>
      rw [fill_nil] at h
      rw [show fill [] u = u from rfl, findParent_root h.nodup] at hfound
      simp at hfound
    | cons f frames =>
      refine ⟨f, frames, u, rfl, rfl, ?_⟩
      rw [findParent_fill h.nodup] at hfound
      rw [← Option.some.inj hfound]
      rfl

variable {f : Frame (ℕ × Bytes) (SplitKind × ℤ)} {frames : List (Frame (ℕ × Bytes) (SplitKind × ℤ))}
  {u : PaneTree}

theorem sibling_eq (h : Shaped panes t) (ht : t = fill (f :: frames) u) :
    (if (panes.nodes f.index).first = u.index then (panes.nodes f.index).second
      else (panes.nodes f.index).first) = f.other.index := by
  subst ht
  have hheld : (f.plug u).Holds (view panes.nodes) :=
    holds_of_holds_fill (show (fill frames (f.plug u)).Holds _ from h.holds)
  have hcell := ((f.holds_plug u).mp hheld).2.1
  have hnodup : (u.indices ++ f.indices).Nodup := by
    refine (List.Perm.nodup_iff (f.indices_plug u)).mp (List.Nodup.sublist ?_
      ((List.Perm.nodup_iff (indices_fill frames (f.plug u))).mp h.nodup))
    exact sublist_append_left _ _
  have hne : f.other.index ≠ u.index := by
    intro heq
    refine (disjoint_of_nodup_append hnodup) (index_mem_indices u) ?_
    rw [← heq]
    exact mem_cons_of_mem _ (index_mem_indices _)
  unfold Frame.cell at hcell
  split_ifs at hcell with hhole
  · obtain ⟨-, -, -, -, hfirst, hsecond⟩ := view_split hcell
    rw [if_pos hfirst, hsecond]
  · obtain ⟨-, -, -, -, hfirst, -⟩ := view_split hcell
    rw [hfirst, if_neg hne]

/-- The other child of a split is not below the one child. -/
theorem ne_other_index {t : PaneTree} (hnodup : t.indices.Nodup) (ht : t = fill (f :: frames) u)
    {i : ℤ} (hi : i ∈ u.indices) : i ≠ f.other.index := by
  rintro rfl
  subst ht
  have happend := (List.Perm.nodup_iff (indices_fill (f :: frames) u)).mp hnodup
  refine (disjoint_of_nodup_append happend) hi (mem_append_left _ ?_)
  exact mem_cons_of_mem _ (index_mem_indices _)

/-- The two splits of a site are different ones, of the same kind. -/
theorem transposeSite_ok (h : Shaped panes t) {fuel : ℕ} {child : ℤ} {site : TransposeSite}
    (hsite : transposeSite panes fuel child = .ok site) :
    site.activeSplit ≠ site.siblingSplit ∧ ∃ kind,
      (panes.nodes site.activeSplit).split = some kind ∧
      (panes.nodes site.siblingSplit).split = some kind := by
  induction fuel generalizing child with
  | zero => simp [transposeSite] at hsite
  | succ fuel ih =>
    rw [transposeSite] at hsite
    dsimp only at hsite
    generalize panes.findParent child = activeSplit at hsite
    generalize hl : panes.findParent activeSplit = localParent at hsite
    generalize hg : (if 0 ≤ localParent then panes.findParent localParent else -1) = grandparent
      at hsite
    generalize hs : (if decide ((panes.nodes grandparent).first = localParent) = true then
      (panes.nodes grandparent).second else (panes.nodes grandparent).first) = siblingSplit at hsite
    generalize (if decide ((panes.nodes localParent).first = activeSplit) = true then
      (panes.nodes localParent).second else (panes.nodes localParent).first) = outside at hsite
    split_ifs at hsite with hchild hactive hparents hkinds hzigzag hsibling
    all_goals try exact ih hsite
    obtain rfl := Except.ok.inj hsite
    push Not at hparents hkinds hsibling
    dsimp only
    constructor
    · -- The active split is below the local parent, and the sibling is beside it.
      rw [if_pos hparents.1] at hg
      obtain hnone | ⟨f, frames, active, ht, hactiveIndex, hf⟩ := findParent_cases h activeSplit
      · omega
      obtain hnone | ⟨g, frames', loc, ht', hlocIndex, hg'⟩ := findParent_cases h localParent
      · omega
      have hloc : f.plug active = loc := by
        have hplug : (fill frames (f.plug active)).Holds (view panes.nodes) := ht ▸ h.holds
        have hfill : (fill (g :: frames') loc).Holds (view panes.nodes) := ht' ▸ h.holds
        refine Holds.unique (holds_of_holds_fill hplug) (holds_of_holds_fill hfill) ?_
        rw [f.index_plug, hlocIndex, ← hl, hf]
      have hother : siblingSplit = g.other.index := by
        rw [← hs, ← sibling_eq h ht', ← hg', hg, hlocIndex]
        simp
      rw [hother]
      refine ne_other_index h.nodup ht' ?_
      rw [← hloc]
      refine (f.indices_plug active).mem_iff.mpr (mem_append_left _ ?_)
      rw [← hactiveIndex]
      exact index_mem_indices active
    · obtain ⟨kind, hkind⟩ := Option.ne_none_iff_exists'.mp hkinds.1
      exact ⟨kind, hkind, hsibling.2.2.trans hkind⟩

theorem paneSplitDividerRect_eq_some (h : Shaped panes t) (hzoom : panes.zoom = .none)
    {terminal : Terminal} {node : ℤ} {kind : SplitKind} {divider : Rect}
    (hkind : (panes.nodes node).split = some kind)
    (hdivider : paneSplitDividerRect panes terminal node = some divider) :
    ∃ p ∈ places .none (paneLayoutZoomTarget panes) t terminal.screen, p.1.index = node ∧
      tileOf .none (paneLayoutZoomTarget panes) p = some divider := by
  obtain ⟨rect, hrect, rfl⟩ := Option.map_eq_some_iff.mp hdivider
  obtain ⟨⟨u, r⟩, hp, rfl, rfl⟩ := (rectForTreeNode_eq_some h node _ rect).mp hrect
  rw [hzoom] at hp
  refine ⟨(u, r), hp, rfl, ?_⟩
  have hheld := holds_of_mem_places h.holds hp
  cases u with
  | leaf i a =>
    have hleaf := (view_leaf hheld).2.2
    rw [index_leaf] at hkind
    simp [hkind] at hleaf
  | split i b first second =>
    obtain ⟨-, -, hsplit, hsize, -⟩ := view_split hheld.1
    rw [index_split, hsplit, hsize]
    simp [tileOf, ZoomsAt, Zoom.zooms]

/-- Dividers that the code takes for aligned share a cell. -/
theorem paneDividersAlign_common {first second : Rect} {kind : Option SplitKind}
    (h : paneDividersAlign first second kind = true) :
    first.row = second.row ∧ first.col = second.col := by
  unfold paneDividersAlign at h
  split at h <;> simp only [decide_eq_true_eq] at h <;> exact ⟨by omega, by omega⟩

/-- Without zoom, transposing always fails and only sets the status. -/
theorem paneLayoutTranspose_fails (h : Shaped panes t) (hzoom : panes.zoom = .none)
    (terminal : Terminal) :
    ∃ message, paneLayoutTranspose panes terminal = (panes.showStatus message, false) := by
  unfold paneLayoutTranspose
  split
  · exact ⟨_, rfl⟩
  · rename_i site hsite
    obtain ⟨hne, kind, hactive, hsibling⟩ := transposeSite_ok h hsite
    split
    · rename_i first second hfirst hsecond
      rw [if_neg]
      · exact ⟨_, rfl⟩
      intro halign
      -- The top left cell of both dividers would be shown by two places.
      obtain ⟨p, hp, hpIndex, hpTile⟩ := paneSplitDividerRect_eq_some h hzoom hactive hfirst
      obtain ⟨q, hq, hqIndex, hqTile⟩ := paneSplitDividerRect_eq_some h hzoom hsibling hsecond
      have hpFull := not_isEmpty_tileOf (not_isEmpty_of_mem_places hp) hpTile
      have hqFull := not_isEmpty_tileOf (not_isEmpty_of_mem_places hq) hqTile
      obtain ⟨hrow, hcol⟩ := paneDividersAlign_common halign
      have hpCell : first.Contains first.row first.col := by
        unfold Rect.IsEmpty at hpFull
        unfold Rect.Contains
        omega
      have hqCell : second.Contains first.row first.col := by
        unfold Rect.IsEmpty at hqFull
        unfold Rect.Contains
        omega
      have hpShows : Shows .none (paneLayoutZoomTarget panes) p first.row first.col :=
        ⟨first, hpTile, hpCell⟩
      obtain ⟨r, -, -, honly⟩ := @exists_place .none (paneLayoutZoomTarget panes) t _ _ _
        (contains_of_shows hp hpShows)
      apply hne
      rw [← hpIndex, ← hqIndex, honly p hp hpShows, honly q hq ⟨second, hqTile, hqCell⟩]
    · exact ⟨_, rfl⟩

end

/-- Of the splits around the active pane, from the inside out, the first that lies across two
splits of the other kind on the side of its neighbour, with that neighbour. -/
def crossing : List (Frame (ℕ × Bytes) (SplitKind × ℤ)) →
    Option (Frame (ℕ × Bytes) (SplitKind × ℤ) × PaneTree)
  | active :: loc :: grand :: frames =>
    if loc.info.1 = grand.info.1 ∧ active.info.1 ≠ grand.info.1 ∧
        loc.holeFirst ≠ grand.holeFirst then some (active, grand.other)
    else crossing (loc :: grand :: frames)
  | _ => none

/-- Two dividers on one screen column, or on one row. -/
def InLine (first second : Rect) : SplitKind → Prop
  | .horizontal => first.col = second.col
  | .vertical => first.row = second.row

/-- The split around the active pane has a neighbour of its kind, with the divider in line. -/
def LinedUp (panes : PaneLayout) (t : PaneTree) (terminal : Terminal) : Prop :=
  ∃ frames i label active s b first second, t = fill frames (.leaf i (panes.activePaneId, label)) ∧
    crossing frames = some (active, .split s b first second) ∧ b.1 = active.info.1 ∧
    ∃ divider divider', paneSplitDividerRect panes terminal active.index = some divider ∧
      paneSplitDividerRect panes terminal s = some divider' ∧ InLine divider divider' b.1

/-- Splits that are in line are never transposed. -/
theorem transposed_iff_not_lined_up {panes : PaneLayout} {t : PaneTree} (h : Shaped panes t)
    (hzoom : panes.zoom = .none) (terminal : Terminal) :
    (LinedUp panes t terminal → (paneLayoutTranspose panes terminal).2 = true ∧
      ∃ t', Shaped (paneLayoutTranspose panes terminal).1 t' ∧ (ids t').Perm (ids t)) ↔
      ¬ LinedUp panes t terminal := by
  obtain ⟨message, hfails⟩ := paneLayoutTranspose_fails h hzoom terminal
  constructor
  · intro hclaim hlined
    have htrue := (hclaim hlined).1
    rw [hfails] at htrue
    simp at htrue
  · intro hnot hlined
    exact absurd hlined hnot

/-- Four panes, with a fifth added above the first two, which are active again. -/
def fivePanes : PaneLayout :=
  { (paneLayoutAddDirection .above paneLayoutReset).1 with activePaneId := 1 }

def fivePanesTree : PaneTree :=
  .split 6 (.vertical, 0)
    (.split 4 (.vertical, 0) (.leaf 8 (5, ascii "5"))
      (.split 7 (.horizontal, 0) (.leaf 0 (1, ascii "1")) (.leaf 1 (2, ascii "2"))))
    (.split 5 (.horizontal, 0) (.leaf 2 (3, ascii "3")) (.leaf 3 (4, ascii "4")))

theorem shaped_fivePanes : Shaped fivePanes fivePanesTree where
  holds := ⟨rfl, ⟨rfl, rfl, ⟨rfl, rfl, rfl⟩⟩, ⟨rfl, rfl, rfl⟩⟩
  root := by decide +kernel
  nodup := by decide
  range := by decide
  ids_nodup := by decide

theorem linedUp_fivePanes : LinedUp fivePanes fivePanesTree ⟨41, 81⟩ := by
  refine ⟨[⟨7, (.horizontal, 0), true, .leaf 1 (2, ascii "2")⟩,
    ⟨4, (.vertical, 0), false, .leaf 8 (5, ascii "5")⟩,
    ⟨6, (.vertical, 0), true,
      .split 5 (.horizontal, 0) (.leaf 2 (3, ascii "3")) (.leaf 3 (4, ascii "4"))⟩],
    0, ascii "1", _, _, _, _, _, rfl, rfl, rfl, ⟨11, 40, 9, 1⟩, ⟨21, 40, 20, 1⟩, ?_, ?_, rfl⟩
  · decide +kernel
  · decide +kernel

/-- Both rows of two panes are divided at column 40, and transposing them fails. -/
theorem five_panes_not_transposed :
    Shaped fivePanes fivePanesTree ∧ fivePanes.zoom = .none ∧
      LinedUp fivePanes fivePanesTree ⟨41, 81⟩ ∧
      (paneLayoutTranspose fivePanes ⟨41, 81⟩).2 = false ∧
      (paneLayoutTranspose fivePanes ⟨41, 81⟩).1.status =
        ascii "transpose: dividers are not aligned" :=
  ⟨shaped_fivePanes, by decide +kernel, linedUp_fivePanes, by decide +kernel, by decide +kernel⟩

/-- Where the dividers line up, transposing does not give the same panes. -/
theorem lined_up_not_transposed :
    ¬ (LinedUp fivePanes fivePanesTree ⟨41, 81⟩ →
      (paneLayoutTranspose fivePanes ⟨41, 81⟩).2 = true ∧
      ∃ t', Shaped (paneLayoutTranspose fivePanes ⟨41, 81⟩).1 t' ∧
        (ids t').Perm (ids fivePanesTree)) := fun h =>
  (transposed_iff_not_lined_up shaped_fivePanes (by decide +kernel) ⟨41, 81⟩).mp h linedUp_fivePanes

end Cubicle.PaneNodes

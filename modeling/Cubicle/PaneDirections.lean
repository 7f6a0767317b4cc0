import Cubicle.PaneRects

/-!
# Moving between panes

From the active pane one can move to a visible pane on one of its sides. The nearest one that shares
a row or a column with it is taken, then the best centred one, then the one with the smallest id.
-/

namespace Cubicle.PaneNodes
open List

open ByteText LinkedTrees LinkedTree
open DeskLayouts (SplitKind Direction)

def rectCenterRow (rect : Rect) : ℤ := rect.row * 2 + rect.rows

def rectCenterCol (rect : Rect) : ℤ := rect.col * 2 + rect.cols

/-- `rect_overlap_1d` -/
def rectOverlap1d (startA lengthA startB lengthB : ℤ) : ℤ :=
  let start := if startB < startA then startA else startB
  let stop := if startA + lengthA < startB + lengthB then startA + lengthA else startB + lengthB
  if start < stop then stop - start else 0

/-- `pane_direction_candidate_score`: the gap and the distance of the centers, for a rectangle that
starts on the side of the direction. -/
def paneDirectionCandidateScore (active candidate : Rect) (direction : Direction)
    (requireOverlap : Bool) : Option (ℤ × ℤ) :=
  let starts : Bool := match direction with
    | .left => candidate.col < active.col
    | .right => active.col < candidate.col
    | .above => candidate.row < active.row
    | .below => active.row < candidate.row
  let gap := match direction with
    | .left => active.col - (candidate.col + candidate.cols)
    | .right => candidate.col - (active.col + active.cols)
    | .above => active.row - (candidate.row + candidate.rows)
    | .below => candidate.row - (active.row + active.rows)
  let overlap := match direction with
    | .left | .right => rectOverlap1d active.row active.rows candidate.row candidate.rows
    | .above | .below => rectOverlap1d active.col active.cols candidate.col candidate.cols
  let perpendicular := match direction with
    | .left | .right => |rectCenterRow active - rectCenterRow candidate|
    | .above | .below => |rectCenterCol active - rectCenterCol candidate|
  if !starts then none
  else if requireOverlap ∧ overlap ≤ 0 then none
  else some (if gap < 0 then 0 else gap, perpendicular)

/-- The best candidate so far, with its gap and the distance of the centers; no pane has the id
zero. -/
structure Best where
  paneId : ℕ
  gap : ℤ
  perpendicular : ℤ

/-- One candidate in the loop of `pane_layout_select_direction`. -/
def considerCandidate (score : ℕ → Option (ℤ × ℤ)) (best : Best) (candidateId : ℕ) : Best :=
  match score candidateId with
  | none => best
  | some (gap, perpendicular) =>
    if best.paneId = 0 ∨ gap < best.gap ∨
        (gap = best.gap ∧ perpendicular < best.perpendicular) ∨
        (gap = best.gap ∧ perpendicular = best.perpendicular ∧ candidateId < best.paneId)
    then ⟨candidateId, gap, perpendicular⟩ else best

/-- The score of a pane other than the active one; a pane that is not visible has none. -/
def candidateScore (panes : PaneLayout) (terminal : Terminal) (active : Rect)
    (direction : Direction) (requireOverlap : Bool) (candidateId : ℕ) : Option (ℤ × ℤ) :=
  if candidateId = panes.activePaneId then none
  else match paneLayoutRectForPane panes terminal candidateId with
    | none => none
    | some candidate => paneDirectionCandidateScore active candidate direction requireOverlap

/-- One pass over the panes. -/
def bestCandidate (score : ℕ → Option (ℤ × ℤ)) (paneCount : ℕ) : Best :=
  (List.range' 1 paneCount).foldl (considerCandidate score) ⟨0, 0, 0⟩

/-- `pane_layout_select_direction` -/
def paneLayoutSelectDirection (panes : PaneLayout) (terminal : Terminal) (paneCount : ℕ)
    (direction : Direction) (preferredPaneId : ℕ) : PaneLayout × Bool :=
  let activeId := panes.activePaneId
  if activeId = 0 ∨ paneCount < activeId then (panes, false)
  else match paneLayoutRectForPane panes terminal activeId with
    | none => (panes, false)
    | some active =>
      if 0 < preferredPaneId ∧ preferredPaneId ≠ activeId ∧ preferredPaneId ≤ paneCount ∧
          (candidateScore panes terminal active direction true preferredPaneId).isSome then
        ({ panes with activePaneId := preferredPaneId }, true)
      else
        let best := bestCandidate (candidateScore panes terminal active direction true) paneCount
        let best := if best.paneId = 0 then
            bestCandidate (candidateScore panes terminal active direction false) paneCount
          else best
        if best.paneId = 0 then (panes, false)
        else ({ panes with activePaneId := best.paneId }, true)

/-- The order of the candidates: by gap, then by the distance of the centers, then by id. -/
def Best.Before (a b : Best) : Prop :=
  a.gap < b.gap ∨ a.gap = b.gap ∧ (a.perpendicular < b.perpendicular ∨
    a.perpendicular = b.perpendicular ∧ a.paneId ≤ b.paneId)

variable {b : Best} {score : ℕ → Option (ℤ × ℤ)} {paneCount : ℕ} {r : Rect} {direction : Direction}

theorem Best.Before.trans {a c : Best} (h : a.Before b) (h' : b.Before c) : a.Before c := by
  unfold Best.Before at *
  omega

/-- The candidates among some panes. -/
def IsCandidate (score : ℕ → Option (ℤ × ℤ)) (l : List ℕ) (b : Best) : Prop :=
  b.paneId ∈ l ∧ score b.paneId = some (b.gap, b.perpendicular)

theorem considerCandidate_spec (score : ℕ → Option (ℤ × ℤ)) (best : Best) (i : ℕ) :
    (considerCandidate score best i = best ∧
      ∀ b, IsCandidate score [i] b → best.paneId ≠ 0 ∧ best.Before b) ∨
    (IsCandidate score [i] (considerCandidate score best i) ∧
      (best.paneId ≠ 0 → (considerCandidate score best i).Before best)) := by
  unfold considerCandidate
  cases hscore : score i with
  | none =>
    refine .inl ⟨rfl, fun b hb => ?_⟩
    obtain ⟨hmem, hb⟩ := hb
    rw [mem_singleton.mp hmem, hscore] at hb
    simp at hb
  | some s =>
    obtain ⟨gap, perpendicular⟩ := s
    dsimp only
    split_ifs with hbetter
    · refine .inr ⟨⟨mem_singleton_self i, hscore⟩, fun hne => ?_⟩
      unfold Best.Before
      dsimp only
      omega
    · refine .inl ⟨rfl, fun b hb => ?_⟩
      obtain ⟨hmem, hb⟩ := hb
      have hid := mem_singleton.mp hmem
      rw [hid, hscore] at hb
      simp only [Option.some.injEq, Prod.mk.injEq] at hb
      unfold Best.Before
      omega

/-- What a pass has found: nothing while there is no candidate, and otherwise the first one in the
order. -/
theorem foldl_considerCandidate {l : List ℕ} (hpos : ∀ i ∈ l, i ≠ 0) (best : Best) :
    (l.foldl (considerCandidate score) best = best ∧
      ∀ b, IsCandidate score l b → best.paneId ≠ 0 ∧ best.Before b) ∨
    (IsCandidate score l (l.foldl (considerCandidate score) best) ∧
      (best.paneId ≠ 0 → (l.foldl (considerCandidate score) best).Before best) ∧
      ∀ b, IsCandidate score l b → (l.foldl (considerCandidate score) best).Before b) := by
  induction l generalizing best with
  | nil => exact .inl ⟨rfl, fun b hb => by simp [IsCandidate] at hb⟩
  | cons i l ih =>
    obtain ⟨hi, hpos⟩ := forall_mem_cons.mp hpos
    have hsplit : ∀ b, IsCandidate score (i :: l) b ↔
        IsCandidate score [i] b ∨ IsCandidate score l b := by
      intro b
      simp only [IsCandidate, mem_cons, not_mem_nil, or_false]
      tauto
    rw [foldl_cons]
    rcases considerCandidate_spec score best i with ⟨hkept, hall⟩ | ⟨hnew, hbefore⟩
    · rw [hkept]
      rcases ih hpos best with ⟨hsame, hrest⟩ | ⟨hin, hbetter, hleast⟩
      · refine .inl ⟨hsame, fun b hb => ?_⟩
        rcases (hsplit b).mp hb with hb | hb
        · exact hall b hb
        · exact hrest b hb
      · refine .inr ⟨(hsplit _).mpr (.inr hin), hbetter, fun b hb => ?_⟩
        rcases (hsplit b).mp hb with hb | hb
        · exact (hbetter (hall b hb).1).trans (hall b hb).2
        · exact hleast b hb
    · generalize considerCandidate score best i = next at hnew hbefore ⊢
      have hid : next.paneId = i := mem_singleton.mp hnew.1
      have hnext : ∀ b, IsCandidate score [i] b → next.Before b := by
        intro b hb
        have hscore := hb.2
        rw [mem_singleton.mp hb.1, ← hid, hnew.2] at hscore
        simp only [Option.some.injEq, Prod.mk.injEq] at hscore
        have hb' := mem_singleton.mp hb.1
        unfold Best.Before
        omega
      rcases ih hpos next with ⟨hsame, hrest⟩ | ⟨hin, hbetter, hleast⟩
      · rw [hsame]
        refine .inr ⟨(hsplit _).mpr (.inl hnew), hbefore, fun b hb => ?_⟩
        rcases (hsplit b).mp hb with hb | hb
        · exact hnext b hb
        · exact (hrest b hb).2
      · have hfirst := hbetter (hid ▸ hi)
        refine .inr ⟨(hsplit _).mpr (.inr hin), fun hne => hfirst.trans (hbefore hne),
          fun b hb => ?_⟩
        rcases (hsplit b).mp hb with hb | hb
        · exact hfirst.trans (hnext b hb)
        · exact hleast b hb

theorem bestCandidate_spec (h : IsCandidate score (List.range' 1 paneCount) b) :
    IsCandidate score (List.range' 1 paneCount) (bestCandidate score paneCount) ∧
      ∀ b, IsCandidate score (List.range' 1 paneCount) b →
        (bestCandidate score paneCount).Before b := by
  have hpos : ∀ i ∈ List.range' 1 paneCount, i ≠ 0 := by
    intro i hi
    rw [mem_range'_1] at hi
    omega
  rcases foldl_considerCandidate hpos ⟨0, 0, 0⟩ with ⟨-, hnone⟩ | ⟨hin, -, hleast⟩
  · exact absurd rfl (hnone b h).1
  · exact ⟨hin, hleast⟩

def opposite : Direction → Direction
  | .left => .right
  | .right => .left
  | .above => .below
  | .below => .above

/-- A rectangle starts strictly on the side of the direction. -/
def StartsOn (direction : Direction) (active r : Rect) : Prop :=
  match direction with
  | .left => r.col < active.col
  | .right => active.col < r.col
  | .above => r.row < active.row
  | .below => active.row < r.row

/-- Two rectangles share a row, for left and right, or a column. -/
def SharesLine (direction : Direction) (active r : Rect) : Prop :=
  match direction with
  | .left | .right => ∃ row, active.row ≤ row ∧ row < active.row + active.rows ∧
      r.row ≤ row ∧ row < r.row + r.rows
  | .above | .below => ∃ col, active.col ≤ col ∧ col < active.col + active.cols ∧
      r.col ≤ col ∧ col < r.col + r.cols

/-- How far a rectangle is from the edge of the active one. -/
def distance (direction : Direction) (active r : Rect) : ℤ :=
  match direction with
  | .left => active.col - (r.col + r.cols)
  | .right => r.col - (active.col + active.cols)
  | .above => active.row - (r.row + r.rows)
  | .below => r.row - (active.row + active.rows)

/-- How far apart the centers are along the edge, in half cells. -/
def offCentre (direction : Direction) (active r : Rect) : ℤ :=
  match direction with
  | .left | .right => |rectCenterRow active - rectCenterRow r|
  | .above | .below => |rectCenterCol active - rectCenterCol r|

theorem rectOverlap1d_pos {startA lengthA startB lengthB : ℤ} :
    0 < rectOverlap1d startA lengthA startB lengthB ↔
      ∃ x, startA ≤ x ∧ x < startA + lengthA ∧ startB ≤ x ∧ x < startB + lengthB := by
  unfold rectOverlap1d
  dsimp only
  constructor
  · intro h
    refine ⟨max startA startB, ?_⟩
    split_ifs at h <;> omega
  · rintro ⟨x, h⟩
    split_ifs <;> omega

variable {active : Rect}

theorem paneDirectionCandidateScore_eq_some {s : ℤ × ℤ} :
    paneDirectionCandidateScore active r direction true = some s ↔
      StartsOn direction active r ∧ SharesLine direction active r ∧
        s = (max 0 (distance direction active r), offCentre direction active r) := by
  have hgap : ∀ gap : ℤ, (if gap < 0 then 0 else gap) = max 0 gap := by
    intro gap
    split_ifs <;> omega
  unfold paneDirectionCandidateScore
  dsimp only
  rw [hgap]
  cases direction <;>
    simp [StartsOn, SharesLine, distance, offCentre, ← rectOverlap1d_pos, eq_comm (a := s)]

theorem startsOn_opposite :
    StartsOn (opposite direction) r active ↔ StartsOn direction active r := by
  cases direction <;> exact Iff.rfl

theorem sharesLine_opposite :
    SharesLine (opposite direction) r active ↔ SharesLine direction active r := by
  cases direction <;>
    exact ⟨fun ⟨x, h⟩ => ⟨x, h.2.2.1, h.2.2.2, h.1, h.2.1⟩,
      fun ⟨x, h⟩ => ⟨x, h.2.2.1, h.2.2.2, h.1, h.2.1⟩⟩

/-- Of two rectangles without a common cell, one that starts on a side of the other and shares a
line with it lies beyond its edge. -/
theorem distance_nonneg (hactive : ¬ active.IsEmpty) (hr : ¬ r.IsEmpty)
    (hdisjoint : ∀ row col, ¬ (active.Contains row col ∧ r.Contains row col))
    (hstarts : StartsOn direction active r) (hshares : SharesLine direction active r) :
    0 ≤ distance direction active r := by
  by_contra hneg
  unfold Rect.IsEmpty at hactive hr
  cases direction with
  | left =>
    obtain ⟨row, hrow⟩ := hshares
    simp only [StartsOn, distance] at hstarts hneg
    exact hdisjoint row active.col (by unfold Rect.Contains; omega)
  | right =>
    obtain ⟨row, hrow⟩ := hshares
    simp only [StartsOn, distance] at hstarts hneg
    exact hdisjoint row r.col (by unfold Rect.Contains; omega)
  | above =>
    obtain ⟨col, hcol⟩ := hshares
    simp only [StartsOn, distance] at hstarts hneg
    exact hdisjoint active.row col (by unfold Rect.Contains; omega)
  | below =>
    obtain ⟨col, hcol⟩ := hshares
    simp only [StartsOn, distance] at hstarts hneg
    exact hdisjoint r.row col (by unfold Rect.Contains; omega)

section
variable {panes : PaneLayout} {t : PaneTree} {terminal : Terminal}

variable {paneId : ℕ}

/-- Two visible panes have no cell in common. -/
theorem visible_disjoint (h : Shaped panes t) {paneId' : ℕ} {r' : Rect}
    (hr : paneLayoutRectForPane panes terminal paneId = some r)
    (hr' : paneLayoutRectForPane panes terminal paneId' = some r') (hne : paneId ≠ paneId')
    (row col : ℤ) : ¬ (r.Contains row col ∧ r'.Contains row col) := by
  rintro ⟨hin, hin'⟩
  obtain ⟨i, label, hp⟩ := (rectForPane_eq_some h terminal paneId r).mp hr
  obtain ⟨j, label', hq⟩ := (rectForPane_eq_some h terminal paneId' r').mp hr'
  obtain ⟨place, -, -, honly⟩ := exists_place (t := t)
    (contains_of_shows hp (shows_leaf.mpr hin))
  have hsame := (honly _ hp (shows_leaf.mpr hin)).trans (honly _ hq (shows_leaf.mpr hin')).symm
  simp only [Prod.mk.injEq, LinkedTree.leaf.injEq] at hsame
  exact hne hsame.1.2.1

theorem visible_not_isEmpty (h : Shaped panes t)
    (hr : paneLayoutRectForPane panes terminal paneId = some r) : ¬ r.IsEmpty := by
  obtain ⟨i, label, hp⟩ := (rectForPane_eq_some h terminal paneId r).mp hr
  exact not_isEmpty_of_mem_places hp

theorem places_full {target : ℕ} {label : Bytes} {rect : Rect} {j : ℤ} (htarget : target ∈ ids t)
    (hp : (LinkedTree.leaf j (paneId, label), r) ∈ places .full target t rect) :
    paneId = target := by
  induction t generalizing rect with
  | leaf k a =>
    rw [places] at hp
    split_ifs at hp
    · simp at hp
    · simp only [mem_singleton, Prod.mk.injEq, LinkedTree.leaf.injEq] at hp
      rw [ids_leaf, mem_singleton] at htarget
      rw [htarget, ← hp.1.2]
  | split k b first second ih₁ ih₂ =>
    have hzoom : ZoomsAt .full target b first second :=
      ⟨rfl, by rwa [ids_split, mem_append] at htarget⟩
    rw [places, if_pos hzoom] at hp
    split_ifs at hp with hempty hfirst
    · simp at hp
    · exact ih₁ hfirst (by simpa using hp)
    · exact ih₂ (hzoom.2.resolve_left hfirst) (by simpa using hp)

theorem only_active_visible (h : Shaped panes t) (hzoom : panes.zoom = .full)
    (hactive : paneLayoutRectForPane panes terminal panes.activePaneId = some active)
    (hr : paneLayoutRectForPane panes terminal paneId = some r) : paneId = panes.activePaneId := by
  have htarget : paneLayoutZoomTarget panes = panes.activePaneId := if_neg (by simp [hzoom])
  obtain ⟨i, label, hp⟩ := (rectForPane_eq_some h terminal _ active).mp hactive
  obtain ⟨j, label', hq⟩ := (rectForPane_eq_some h terminal paneId r).mp hr
  have hmem : panes.activePaneId ∈ ids t :=
    ids_subset_of_mem_places hp (by simp)
  rw [hzoom, htarget] at hq
  exact places_full hmem hq

/-- A layout as the desk keeps it: a zoom in one direction is the zoom of one of its panes. -/
structure WellFormed (panes : PaneLayout) (t : PaneTree) : Prop extends Shaped panes t where
  zoomed : panes.zoom = .horizontal ∨ panes.zoom = .vertical →
    0 < panes.zoomPaneId ∧ panes.zoomPaneId ∈ ids t

theorem findLeafNode_nonneg (h : Shaped panes t) :
    0 ≤ panes.findLeafNode paneId ↔ paneId ∈ ids t := by
  rw [PaneLayout.findLeafNode, h.root, paneFindLeafNode_eq h.holds paneId h.depth_le]
  cases hfound : t.findLeaf fun a => a.1 = paneId with
  | none =>
    have hnone := findLeaf_eq_none.mp hfound
    simp only [Option.getD_none, ids, mem_map]
    refine iff_of_false (by decide) ?_
    rintro ⟨a, ha, rfl⟩
    simpa using hnone a ha
  | some i =>
    obtain ⟨frames, a, rfl, ha⟩ := exists_fill_of_findLeaf hfound
    refine iff_of_true (view_leaf (holds_of_holds_fill h.holds)).1 ?_
    rw [ids, mem_map]
    exact ⟨a, (leaves_fill frames _).symm.subset (by simp [leaves]), by simpa using ha⟩

/-- Without a full zoom the rectangles do not depend on which pane is active. -/
theorem rectForPane_setActive (h : WellFormed panes t) (hfull : panes.zoom ≠ .full)
    (activePaneId paneId : ℕ) :
    paneLayoutRectForPane { panes with activePaneId } terminal paneId =
      paneLayoutRectForPane panes terminal paneId := by
  have hchildren : ∀ node kind rect,
      childRects { panes with activePaneId } node kind rect = childRects panes node kind rect := by
    intro node kind rect
    have hcases : panes.zoom = .none ∨ panes.zoom = .horizontal ∨ panes.zoom = .vertical := by
      cases hzoom : panes.zoom with
      | full => exact absurd hzoom hfull
      | none | horizontal | vertical => simp
    rcases hcases with hzoom | hzoom
    · simp [childRects, hzoom, Zoom.zooms]
    · obtain ⟨hpos, hpane⟩ := h.zoomed hzoom
      have hfound := (findLeafNode_nonneg h.toShaped).mpr hpane
      have htarget : paneLayoutZoomTarget { panes with activePaneId } =
          paneLayoutZoomTarget panes := by
        unfold paneLayoutZoomTarget
        rw [if_pos ⟨hzoom, hpos, hfound⟩, if_pos ⟨hzoom, hpos, hfound⟩]
      rw [childRects, htarget]
      rfl
  have hrect : ∀ (hit : ℤ → Bool) (fuel : ℕ) (node : ℤ) (rect : Rect),
      rectWhere { panes with activePaneId } hit fuel node rect =
        rectWhere panes hit fuel node rect := by
    intro hit fuel
    induction fuel with
    | zero => exact fun _ _ => rfl
    | succ fuel ih =>
      intro node rect
      simp only [rectWhere, hchildren, ih]
  exact hrect _ _ _ _

/-- A visible pane on a side of the active one that shares a line with it. -/
structure Neighbour (panes : PaneLayout) (terminal : Terminal) (paneCount : ℕ)
    (direction : Direction) (active : Rect) (paneId : ℕ) (r : Rect) : Prop where
  pane : 0 < paneId ∧ paneId ≤ paneCount
  other : paneId ≠ panes.activePaneId
  visible : paneLayoutRectForPane panes terminal paneId = some r
  starts : StartsOn direction active r
  shares : SharesLine direction active r

theorem neighbour_iff_candidate :
    IsCandidate (candidateScore panes terminal active direction true) (List.range' 1 paneCount) b ↔
      ∃ r, Neighbour panes terminal paneCount direction active b.paneId r ∧
        b.gap = max 0 (distance direction active r) ∧
        b.perpendicular = offCentre direction active r := by
  rw [IsCandidate, mem_range'_1, candidateScore]
  constructor
  · rintro ⟨hpane, hscore⟩
    split_ifs at hscore with hother
    split at hscore
    · simp at hscore
    · rename_i r hvisible
      obtain ⟨hstarts, hshares, hs⟩ := paneDirectionCandidateScore_eq_some.mp hscore
      obtain ⟨hgap, hperp⟩ := Prod.mk.inj hs
      exact ⟨r, ⟨by omega, hother, hvisible, hstarts, hshares⟩, hgap, hperp⟩
  · rintro ⟨r, hn, hgap, hperp⟩
    refine ⟨by have := hn.pane; omega, ?_⟩
    rw [if_neg hn.other, hn.visible]
    dsimp only
    rw [paneDirectionCandidateScore_eq_some]
    exact ⟨hn.starts, hn.shares, by rw [hgap, hperp]⟩

/-- When there is a neighbour, the nearest one is selected, then the best centred one, then the one
with the smallest id. It lies beyond the edge of the active pane, and from it the way back leads to
the pane that was active. -/
theorem select_direction_nearest (h : WellFormed panes t) (terminal : Terminal) {paneCount : ℕ}
    (direction : Direction) {active : Rect}
    (hpane : 0 < panes.activePaneId ∧ panes.activePaneId ≤ paneCount)
    (hactive : paneLayoutRectForPane panes terminal panes.activePaneId = some active)
    (hexists : ∃ paneId r, Neighbour panes terminal paneCount direction active paneId r) :
    ∃ paneId r, Neighbour panes terminal paneCount direction active paneId r ∧
      paneLayoutSelectDirection panes terminal paneCount direction 0 =
        ({ panes with activePaneId := paneId }, true) ∧
      (∀ paneId' r', Neighbour panes terminal paneCount direction active paneId' r' →
        Best.Before ⟨paneId, distance direction active r, offCentre direction active r⟩
          ⟨paneId', distance direction active r', offCentre direction active r'⟩) ∧
      0 ≤ distance direction active r ∧
      paneLayoutSelectDirection { panes with activePaneId := paneId } terminal paneCount
        (opposite direction) panes.activePaneId = (panes, true) := by
  have hbeyond : ∀ {paneId r}, Neighbour panes terminal paneCount direction active paneId r →
      0 ≤ distance direction active r := fun hn =>
    distance_nonneg (visible_not_isEmpty h.toShaped hactive)
      (visible_not_isEmpty h.toShaped hn.visible)
      (visible_disjoint h.toShaped hactive hn.visible hn.other.symm) hn.starts hn.shares
  obtain ⟨someId, someRect, hsome⟩ := hexists
  have hcandidate := neighbour_iff_candidate (b := ⟨someId, _, _⟩).mpr ⟨someRect, hsome, rfl, rfl⟩
  obtain ⟨hbest, hleast⟩ := bestCandidate_spec hcandidate
  generalize hchosen : bestCandidate (candidateScore panes terminal active direction true)
    paneCount = best at hbest hleast
  obtain ⟨r, hn, hgap, hperp⟩ := neighbour_iff_candidate.mp hbest
  have hfull : panes.zoom ≠ .full := fun hzoom => hn.other (only_active_visible h.toShaped hzoom
    hactive hn.visible)
  refine ⟨best.paneId, r, hn, ?_, fun paneId' r' hn' => ?_, hbeyond hn, ?_⟩
  · have hne : best.paneId ≠ 0 := by
      have := hn.pane
      omega
    unfold paneLayoutSelectDirection
    dsimp only
    rw [if_neg (by omega), hactive]
    dsimp only
    rw [if_neg (by simp), hchosen, if_neg hne, if_neg hne]
  · have hbefore := hleast
      ⟨paneId', max 0 (distance direction active r'), offCentre direction active r'⟩
      (neighbour_iff_candidate.mpr ⟨r', hn', rfl, rfl⟩)
    have h₁ := hbeyond hn
    have h₂ := hbeyond hn'
    unfold Best.Before at hbefore ⊢
    dsimp only at hbefore ⊢
    omega
  · have hvisible : paneLayoutRectForPane { panes with activePaneId := best.paneId } terminal
        best.paneId = some r := by rw [rectForPane_setActive h hfull, hn.visible]
    have hback : (candidateScore { panes with activePaneId := best.paneId } terminal r
        (opposite direction) true panes.activePaneId).isSome = true := by
      rw [candidateScore, if_neg hn.other.symm, rectForPane_setActive h hfull, hactive]
      dsimp only
      rw [paneDirectionCandidateScore_eq_some.mpr ⟨startsOn_opposite.mpr hn.starts,
        sharesLine_opposite.mpr hn.shares, rfl⟩]
      rfl
    have hpaneId := hn.pane
    unfold paneLayoutSelectDirection
    dsimp only
    rw [if_neg (by omega), hvisible]
    dsimp only
    rw [if_pos ⟨hpane.1, hn.other.symm, hpane.2, hback⟩]

end

theorem wellFormed_reset : WellFormed paneLayoutReset resetTree where
  toShaped := shaped_reset
  zoomed := by
    rintro (hzoom | hzoom) <;> simp [paneLayoutReset] at hzoom

/-- From the first of four panes the way to the right leads to the second one. -/
theorem reset_select_right :
    ∃ r, Neighbour paneLayoutReset ⟨24, 80⟩ 4 .right ⟨0, 0, 12, 40⟩ 2 r ∧
      ∃ paneId r', Neighbour paneLayoutReset ⟨24, 80⟩ 4 .right ⟨0, 0, 12, 40⟩ paneId r' ∧
        paneLayoutSelectDirection paneLayoutReset ⟨24, 80⟩ 4 .right 0 =
          ({ paneLayoutReset with activePaneId := paneId }, true) := by
  have hneighbour : Neighbour paneLayoutReset ⟨24, 80⟩ 4 .right ⟨0, 0, 12, 40⟩ 2
      ⟨0, 41, 12, 39⟩ :=
    ⟨by decide, by decide, by decide +kernel, show (0 : ℤ) < 41 by decide, ⟨0, by decide⟩⟩
  obtain ⟨paneId, r, hn, hselect, -⟩ := select_direction_nearest wellFormed_reset ⟨24, 80⟩
    .right (by decide) (by decide +kernel)
    ⟨2, _, hneighbour⟩
  exact ⟨_, hneighbour, paneId, r, hn, hselect⟩

end Cubicle.PaneNodes

import Cubicle.PaneDirections
import Cubicle.PaneTransposes

/-!
# Removing the pane of an ended process

A desk session has a list of panes, one for each leaf of the layout. Removing a pane takes its leaf
out of the layout, which chooses a new active pane, and moves the panes after it one place down.
-/

namespace Cubicle.DeskRemovals
open List

open ByteText LinkedTrees LinkedTree PaneNodes
open DeskLayouts (SplitKind)

/-- The layout's part of `desk_remove_pane_at`. -/
def paneLayoutRemove (paneId : ℕ) (panes : PaneLayout) : PaneLayout × Bool :=
  match paneLayoutDeleteActive { panes with activePaneId := paneId } with
  | (deleted, true) => (paneLayoutCompactAfterDelete paneId deleted, true)
  | (failed, false) => ({ failed with activePaneId := panes.activePaneId }, false)

/-- The id of a pane after another one is removed. -/
def renumber (removed paneId : ℕ) : ℕ := if removed < paneId then paneId - 1 else paneId

section
variable {panes : PaneLayout} {t : PaneTree} {frames : List (Frame (ℕ × Bytes) (SplitKind × ℤ))}

theorem ids_fill (frames : List (Frame (ℕ × Bytes) (SplitKind × ℤ))) (t : PaneTree) :
    (ids (fill frames t)).Perm (ids t ++ (frameLeaves frames).map Prod.fst) := by
  have hperm := (leaves_fill frames t).map Prod.fst
  rwa [map_append] at hperm

theorem findLeafNode_cases (h : Shaped panes t) (paneId : ℕ) :
    panes.findLeafNode paneId = -1 ∧ paneId ∉ ids t ∨
    ∃ frames label, t = fill frames (.leaf (panes.findLeafNode paneId) (paneId, label)) ∧
      0 ≤ panes.findLeafNode paneId := by
  by_cases hmem : paneId ∈ ids t
  · right
    have hfound := (findLeafNode_nonneg h).mpr hmem
    have heq : panes.findLeafNode paneId = (t.findLeaf fun a => a.1 = paneId).getD (-1) := by
      rw [PaneLayout.findLeafNode, h.root, paneFindLeafNode_eq h.holds paneId h.depth_le]
    rw [heq] at hfound ⊢
    cases hleaf : t.findLeaf fun a => a.1 = paneId with
    | none => simp [hleaf] at hfound
    | some i =>
      rw [hleaf] at hfound
      obtain ⟨frames, ⟨id, label⟩, ht, hid⟩ := exists_fill_of_findLeaf hleaf
      obtain rfl : id = paneId := by simpa using hid
      exact ⟨frames, label, ht, hfound⟩
  · left
    refine ⟨?_, hmem⟩
    rw [PaneLayout.findLeafNode, h.root, paneFindLeafNode_eq h.holds paneId h.depth_le]
    have hnone : t.findLeaf (fun a => decide (a.1 = paneId)) = none := by
      rw [findLeaf_eq_none]
      intro a ha
      simp only [decide_eq_false_iff_not]
      rintro rfl
      exact hmem (mem_map_of_mem ha)
    rw [hnone]
    rfl

theorem paneLayoutDeleteActive_eq (h : Shaped panes t) {f : Frame (ℕ × Bytes) (SplitKind × ℤ)}
    {i : ℤ} {a : ℕ × Bytes} (hi : panes.findLeafNode panes.activePaneId = i) (hi' : 0 ≤ i)
    (ht : t = fill (f :: frames) (.leaf i a)) :
    paneLayoutDeleteActive panes =
      ((({ panes with activePaneId := firstId f.other }.set f.index
        (panes.nodes f.other.index)).free i).free f.other.index, true) := by
  have hsibling := sibling_eq h ht
  rw [index_leaf] at hsibling
  subst ht
  have hroot : i ≠ panes.root := by
    have hnodup := h.nodup
    rw [indices_eq, nodup_cons] at hnodup
    rw [h.root]
    intro heq
    exact hnodup.1 (heq ▸ index_mem_inner_fill f frames (.leaf i a))
  have hparent : panes.findParent i = f.index := by
    have hfound := findParent_fill h.nodup
    rw [index_leaf] at hfound
    rw [PaneLayout.findParent, h.root, paneFindParent_eq h.holds i h.depth_le, hfound]
    rfl
  have hplug : (f.plug (.leaf i a)).Holds (view panes.nodes) :=
    holds_of_holds_fill (show (fill frames (f.plug (.leaf i a))).Holds _ from h.holds)
  have hfNonneg : 0 ≤ f.index := by
    have := index_nonneg hplug
    rwa [f.index_plug] at this
  have hdepth : f.other.depth ≤ nodeCount := by
    have hle := (depth_le_fill frames (f.plug (.leaf i a))).trans h.depth_le
    unfold Frame.plug at hle
    split_ifs at hle <;> simp only [depth] at hle <;> omega
  have hother := ((f.holds_plug _).mp hplug).2.2
  unfold paneLayoutDeleteActive
  dsimp only
  rw [hi, hparent, if_neg (by omega), if_neg (by omega), hsibling, paneFirstLeaf_eq hother hdepth]

/-- Removing a pane fails, or its sibling's first pane becomes active under its new number. -/
theorem paneLayoutRemove_cases (h : Shaped panes t) (paneId : ℕ) :
    paneLayoutRemove paneId panes = (panes, false) ∨
    ∃ f frames i label panes', t = fill (f :: frames) (.leaf i (paneId, label)) ∧
      paneLayoutRemove paneId panes = (panes', true) ∧
      panes'.activePaneId = renumber paneId (firstId f.other) := by
  have hshaped : Shaped { panes with activePaneId := paneId } t :=
    ⟨h.holds, h.root, h.nodup, h.range, h.ids_nodup⟩
  have hfailed : paneLayoutDeleteActive { panes with activePaneId := paneId } =
      ({ panes with activePaneId := paneId }, false) →
      paneLayoutRemove paneId panes = (panes, false) := by
    intro hdelete
    rw [paneLayoutRemove, hdelete]
  obtain ⟨hnone, -⟩ | ⟨frames, label, ht, hfound⟩ := findLeafNode_cases hshaped paneId
  · left
    apply hfailed
    unfold paneLayoutDeleteActive
    dsimp only
    rw [hnone, if_pos (.inl (by decide))]
  cases frames with
  | nil =>
    left
    apply hfailed
    unfold paneLayoutDeleteActive
    dsimp only
    have hroot := h.root.trans (congrArg index ht)
    exact if_pos (.inr hroot.symm)
  | cons f frames =>
    right
    have hdelete := paneLayoutDeleteActive_eq hshaped rfl hfound ht
    have hremove : ∀ deleted, paneLayoutDeleteActive { panes with activePaneId := paneId } =
        (deleted, true) → paneLayoutRemove paneId panes =
          (paneLayoutCompactAfterDelete paneId deleted, true) := by
      intro deleted hdeleted
      rw [paneLayoutRemove, hdeleted]
    exact ⟨f, frames, _, label, _, ht, hremove _ hdelete, rfl⟩

end

/-- `cubicle_process_state_t` -/
inductive ProcessState
  | allocated | starting | running | stopping | draining | completed | failed | lost | removed
deriving DecidableEq

/-- The fields of `cubicle_process_info_t` that a pane uses. -/
structure ProcessInfo where
  id : Bytes
  workspaceId : Bytes
  friendlyName : Bytes
  state : ProcessState
deriving DecidableEq

/-- `desk_pane_t`. The grid, the terminal model and the attachment of a pane are of one process,
whose id is `shows`. -/
structure DeskPane where
  process : ProcessInfo
  shows : Bytes
  attached : Bool
  hasManager : Bool
  workspaceName : Bytes
  managerUri : Bytes
  remoteName : Bytes
  rows : ℤ
  cols : ℤ
  endedNoticeShown : Bool
deriving DecidableEq

/-- `desk_session_t`, as far as panes are concerned. -/
structure DeskSession where
  managerUri : Bytes
  panes : List DeskPane
  layout : PaneLayout
  zoomed : Bool
  previousPaneId : ℕ
  notice : Bytes
  nextProcessRefreshMs : ℤ

/-- `desk_pane_base_name` -/
def deskPaneBaseName (pane : DeskPane) : Bytes :=
  if pane.process.friendlyName ≠ [] then pane.process.friendlyName
  else if pane.process.id ≠ [] then pane.process.id
  else ascii "unavailable"

/-- `desk_format_pane_title` with its buffer of 192 bytes. -/
def deskFormatPaneTitle (pane : DeskPane) : Bytes :=
  if pane.remoteName ≠ [] then
    let workspaceName :=
      if pane.workspaceName ≠ [] then pane.workspaceName else pane.process.workspaceId
    (workspaceName ++ ascii "." ++ deskPaneBaseName pane ++ ascii "@" ++ pane.remoteName).take 191
  else (deskPaneBaseName pane).take 191

/-- One round of `desk_apply_pane_labels`. -/
def applyPaneLabel (panes : List DeskPane) (layout : PaneLayout) (i : ℕ) : PaneLayout :=
  match panes[i]? with
  | none => layout
  | some pane =>
    let node := layout.findLeafNode (i + 1)
    if node < 0 then layout
    else layout.set node { layout.nodes node with label := (deskFormatPaneTitle pane).take 63 }

/-- `desk_apply_pane_labels` -/
def deskApplyPaneLabels (s : DeskSession) : DeskSession :=
  { s with layout := (List.range s.panes.length).foldl (applyPaneLabel s.panes) s.layout }

/-- What comes of telling a pane its new size: the attachment or the grid refuses it, or the
snapshot cannot be read again after it was taken. -/
inductive ResizeOutcome
  | resized | refused | notReloaded
deriving DecidableEq

/-- `resize_pane_attachment`; a pane has one title row. -/
def resizePaneAttachment (outcome : ℕ → ResizeOutcome) (terminal : Terminal) (s : DeskSession)
    (i : ℕ) : DeskSession × Bool :=
  match paneLayoutRectForPane s.layout terminal (i + 1) with
  | none => (s, true)
  | some rect =>
    if rect.rows < minPaneRows ∨ rect.cols < minPaneCols then (s, false)
    else
      let sized := { s with panes := s.panes.modify i fun pane =>
        { pane with rows := rect.rows - 1, cols := rect.cols } }
      match outcome i with
      | .resized => (sized, true)
      | .refused => (s, false)
      | .notReloaded => (sized, false)

def resizePanes (outcome : ℕ → ResizeOutcome) (terminal : Terminal) :
    List ℕ → DeskSession → DeskSession × Bool
  | [], s => (s, true)
  | i :: l, s =>
    match resizePaneAttachment outcome terminal s i with
    | (s, true) => resizePanes outcome terminal l s
    | (s, false) => (s, false)

/-- `resize_all_panes` -/
def resizeAllPanes (outcome : ℕ → ResizeOutcome) (terminal : Terminal) (s : DeskSession) :
    DeskSession × Bool :=
  resizePanes outcome terminal (List.range s.panes.length) s

/-- The session of `desk_remove_pane_at` when the layout has been changed and the panes not yet
resized. -/
def withoutPane (s : DeskSession) (layout : PaneLayout) (index : ℕ) : DeskSession :=
  deskApplyPaneLabels { s with layout, panes := s.panes.eraseIdx index, zoomed := false }

/-- `desk_remove_pane_at`, with the error message when it fails. Saving the layout does not change
the session. -/
def deskRemovePaneAt (outcome : ℕ → ResizeOutcome) (terminal : Terminal) (s : DeskSession)
    (index : ℕ) : DeskSession × Option String :=
  if s.panes.length ≤ index then (s, some "no such pane")
  else if s.panes.length ≤ 1 then (s, some "cannot delete the only pane")
  else match paneLayoutRemove (index + 1) s.layout with
    | (layout, false) => ({ s with layout }, some "failed to delete pane")
    | (layout, true) =>
      match resizeAllPanes outcome terminal (withoutPane s layout index) with
      | (s, true) => (s, none)
      | (s, false) => (s, some "failed to resize panes")

/-- The part of a pane that says which process it shows. -/
def DeskPane.core (pane : DeskPane) : ProcessInfo × Bytes × Bool :=
  (pane.process, pane.shows, pane.endedNoticeShown)

/-- Two sessions with the same processes in the same panes. -/
structure SamePanes (s s' : DeskSession) : Prop where
  panes : s'.panes.map DeskPane.core = s.panes.map DeskPane.core
  active : s'.layout.activePaneId = s.layout.activePaneId
  previous : s'.previousPaneId = s.previousPaneId

theorem SamePanes.refl (s : DeskSession) : SamePanes s s := ⟨rfl, rfl, rfl⟩

variable {s s' : DeskSession} {t : PaneTree}

theorem SamePanes.trans {s'' : DeskSession} (h : SamePanes s s') (h' : SamePanes s' s'') :
    SamePanes s s'' :=
  ⟨h'.panes.trans h.panes, h'.active.trans h.active, h'.previous.trans h.previous⟩

theorem applyPaneLabel_active (panes : List DeskPane) (layout : PaneLayout) (i : ℕ) :
    (applyPaneLabel panes layout i).activePaneId = layout.activePaneId := by
  unfold applyPaneLabel
  split
  · rfl
  · dsimp only
    split_ifs <;> rfl

theorem samePanes_applyPaneLabels (s : DeskSession) : SamePanes s (deskApplyPaneLabels s) := by
  refine ⟨rfl, ?_, rfl⟩
  have hfold : ∀ (l : List ℕ) (layout : PaneLayout),
      (l.foldl (applyPaneLabel s.panes) layout).activePaneId = layout.activePaneId := by
    intro l
    induction l with
    | nil => exact fun _ => rfl
    | cons i l ih =>
      intro layout
      rw [foldl_cons, ih, applyPaneLabel_active]
  exact hfold _ _

theorem samePanes_resizePaneAttachment (outcome : ℕ → ResizeOutcome) (terminal : Terminal)
    (s : DeskSession) (i : ℕ) : SamePanes s (resizePaneAttachment outcome terminal s i).1 := by
  have hsized : ∀ rows cols : ℤ, SamePanes s { s with panes := s.panes.modify i fun pane =>
      { pane with rows := rows, cols := cols } } := by
    intro rows cols
    refine ⟨ext_getElem? fun j => ?_, rfl, rfl⟩
    simp only [getElem?_map, getElem?_modify]
    split_ifs
    · simp only [Option.map_eq_map, Option.map_map]
      rfl
    · simp
  unfold resizePaneAttachment
  split
  · exact .refl s
  · split_ifs
    · exact .refl s
    · dsimp only
      split
      · exact hsized _ _
      · exact .refl s
      · exact hsized _ _

theorem samePanes_resizePanes (outcome : ℕ → ResizeOutcome) (terminal : Terminal) (l : List ℕ)
    (s : DeskSession) : SamePanes s (resizePanes outcome terminal l s).1 := by
  induction l generalizing s with
  | nil => exact .refl s
  | cons i l ih =>
    have hone := samePanes_resizePaneAttachment outcome terminal s i
    rw [resizePanes]
    split
    · rename_i s' hresized
      rw [hresized] at hone
      exact hone.trans (ih s')
    · rename_i s' hresized
      rw [hresized] at hone
      exact hone

theorem samePanes_withoutPane (outcome : ℕ → ResizeOutcome) (terminal : Terminal) (s : DeskSession)
    (layout : PaneLayout) (index : ℕ) :
    SamePanes { s with layout, panes := s.panes.eraseIdx index, zoomed := false }
      (resizeAllPanes outcome terminal (withoutPane s layout index)).1 :=
  (samePanes_applyPaneLabels _).trans (samePanes_resizePanes _ _ _ _)

variable {index removed : ℕ}

/-- Every way that `desk_remove_pane_at` ends for a pane that is not the only one. -/
theorem deskRemovePaneAt_cases (outcome : ℕ → ResizeOutcome) (terminal : Terminal)
    (hindex : index < s.panes.length) (hmany : 1 < s.panes.length) :
    (paneLayoutRemove (index + 1) s.layout).2 = false ∧
      deskRemovePaneAt outcome terminal s index =
        ({ s with layout := (paneLayoutRemove (index + 1) s.layout).1 },
          some "failed to delete pane") ∨
    ∃ s', (paneLayoutRemove (index + 1) s.layout).2 = true ∧
      SamePanes { s with layout := (paneLayoutRemove (index + 1) s.layout).1,
                         panes := s.panes.eraseIdx index, zoomed := false } s' ∧
      deskRemovePaneAt outcome terminal s index =
        (s', if (resizeAllPanes outcome terminal (withoutPane s
          (paneLayoutRemove (index + 1) s.layout).1 index)).2 then none
          else some "failed to resize panes") := by
  unfold deskRemovePaneAt
  rw [if_neg (not_le.mpr hindex), if_neg (not_le.mpr hmany)]
  cases hremove : paneLayoutRemove (index + 1) s.layout with
  | mk layout removed =>
    cases removed with
    | false => exact .inl ⟨rfl, rfl⟩
    | true =>
      right
      have hsame := samePanes_withoutPane outcome terminal s layout index
      dsimp only
      cases hresize : resizeAllPanes outcome terminal (withoutPane s layout index) with
      | mk s' resized =>
        rw [hresize] at hsame
        cases resized with
        | false => exact ⟨s', rfl, hsame, rfl⟩
        | true => exact ⟨s', rfl, hsame, rfl⟩

def isPane (paneId : ℕ) : PaneTree → Bool
  | .leaf _ a => a.1 = paneId
  | .split _ _ _ _ => false

/-- The first pane of the sibling of a pane. -/
def takesOver (removed : ℕ) : PaneTree → Option ℕ
  | .leaf _ _ => none
  | .split _ _ first second =>
    if isPane removed first then some (firstId second)
    else if isPane removed second then some (firstId first)
    else (takesOver removed first).or (takesOver removed second)

theorem isPane_eq_false (h : removed ∉ ids t) : isPane removed t = false := by
  cases t with
  | leaf i a =>
    rw [ids_leaf, mem_singleton] at h
    simpa [isPane] using Ne.symm h
  | split => rfl

theorem takesOver_eq_none (h : removed ∉ ids t) : takesOver removed t = none := by
  induction t with
  | leaf => rfl
  | split i b first second ih₁ ih₂ =>
    rw [ids_split, mem_append, not_or] at h
    rw [takesOver, isPane_eq_false h.1, isPane_eq_false h.2, ih₁ h.1, ih₂ h.2]
    rfl

theorem isPane_fill_cons (removed : ℕ) (f : Frame (ℕ × Bytes) (SplitKind × ℤ))
    (frames : List (Frame (ℕ × Bytes) (SplitKind × ℤ))) (u : PaneTree) :
    isPane removed (fill (f :: frames) u) = false := by
  induction frames generalizing f u with
  | nil =>
    rw [fill_cons, fill_nil, Frame.plug]
    split_ifs <;> rfl
  | cons g frames ih => exact ih g (f.plug u)

/-- The sibling is beside the removed pane wherever it is in the tree. -/
theorem takesOver_fill {f : Frame (ℕ × Bytes) (SplitKind × ℤ)}
    (frames : List (Frame (ℕ × Bytes) (SplitKind × ℤ))) {i : ℤ} {label : Bytes}
    (hnodup : (ids (fill (f :: frames) (.leaf i (removed, label)))).Nodup) :
    takesOver removed (fill (f :: frames) (.leaf i (removed, label))) = some (firstId f.other) := by
  induction frames using List.reverseRecOn with
  | nil =>
    have hout : removed ∉ ids f.other := by
      have := (ids_fill [f] (.leaf i (removed, label))).nodup_iff.mp hnodup
      simp only [ids_leaf, singleton_append, nodup_cons] at this
      simpa [frameLeaves, ids] using this.1
    rw [fill_cons, fill_nil, Frame.plug]
    split_ifs
    · simp [takesOver, isPane]
    · rw [takesOver, isPane_eq_false hout]
      simp [isPane]
  | append_singleton frames g ih =>
    rw [← cons_append, fill_append] at hnodup ⊢
    generalize hu : fill (f :: frames) (.leaf i (removed, label)) = u at hnodup ih ⊢
    have hmem : removed ∈ ids u := by
      rw [← hu]
      exact (ids_fill _ _).mem_iff.mpr (by simp)
    have hparts := (ids_fill [g] u).nodup_iff.mp hnodup
    have hout : removed ∉ ids g.other := fun hother =>
      (disjoint_of_nodup_append hparts) hmem (by simpa [frameLeaves, ids] using hother)
    have hsplit : isPane removed u = false := by
      rw [← hu]
      exact isPane_fill_cons removed f frames _
    have hinside := ih (hparts.sublist (sublist_append_left _ _))
    rw [fill_cons, fill_nil, Frame.plug]
    split_ifs
    · rw [takesOver, hsplit, isPane_eq_false hout, hinside]
      rfl
    · rw [takesOver, hsplit, isPane_eq_false hout, hinside, takesOver_eq_none hout]
      rfl

def processOf (s : DeskSession) (paneId : ℕ) : Option ProcessInfo :=
  if paneId = 0 then none else s.panes[paneId - 1]?.map DeskPane.process

/-- The layout holds a tree with a leaf for each pane. -/
structure Consistent (s : DeskSession) (t : PaneTree) : Prop where
  shaped : Shaped s.layout t
  leaves : ∀ paneId, paneId ∈ ids t ↔ 1 ≤ paneId ∧ paneId ≤ s.panes.length

theorem processOf_congr (h : s'.panes.map DeskPane.core = s.panes.map DeskPane.core) (paneId : ℕ) :
    processOf s' paneId = processOf s paneId := by
  have hat := congrArg (fun l => (l[paneId - 1]?).map Prod.fst) h
  simp only [getElem?_map, Option.map_map] at hat
  unfold processOf
  split_ifs
  · rfl
  · exact hat

theorem processOf_eraseIdx
    (h : s'.panes.map DeskPane.core = (s.panes.eraseIdx index).map DeskPane.core) {paneId : ℕ}
    (hother : paneId ≠ index + 1) :
    processOf s' (renumber (index + 1) paneId) = processOf s paneId := by
  rw [processOf_congr (s := { s with panes := s.panes.eraseIdx index }) h]
  unfold processOf renumber
  dsimp only
  rw [getElem?_eraseIdx]
  split_ifs with h₁ h₂ h₃ h₄ h₅ h₆
  all_goals first | rfl | omega | skip
  all_goals
    congr 2
    omega

/-- A session after a pane was removed keeps the process of the active pane, the process of the
remembered pane and the processes of the other panes. -/
structure KeepsProcesses (s s' : DeskSession) (removed : ℕ) : Prop where
  active : processOf s' s'.layout.activePaneId = processOf s s.layout.activePaneId
  previous : processOf s' s'.previousPaneId =
    if s.previousPaneId = removed then none else processOf s s.previousPaneId
  others : ∀ paneId, paneId ≠ removed →
    processOf s' (renumber removed paneId) = processOf s paneId

theorem deskRemovePaneAt_ok (h : Consistent s t) {outcome : ℕ → ResizeOutcome} {terminal : Terminal}
    (hremoved : deskRemovePaneAt outcome terminal s index = (s', none)) :
    ∃ paneId, takesOver (index + 1) t = some paneId ∧ paneId ≠ index + 1 ∧
      s'.layout.activePaneId = renumber (index + 1) paneId ∧
      s'.previousPaneId = s.previousPaneId ∧
      s'.panes.map DeskPane.core = (s.panes.eraseIdx index).map DeskPane.core := by
  have hindex : index < s.panes.length := by
    by_contra hout
    rw [deskRemovePaneAt, if_pos (not_lt.mp hout)] at hremoved
    simp at hremoved
  have hmany : 1 < s.panes.length := by
    by_contra hone
    rw [deskRemovePaneAt, if_neg (not_le.mpr hindex), if_pos (not_lt.mp hone)] at hremoved
    simp at hremoved
  obtain ⟨-, hfailed⟩ | ⟨s'', htrue, hsame, hresult⟩ :=
    deskRemovePaneAt_cases outcome terminal hindex hmany
  · rw [hfailed] at hremoved
    simp at hremoved
  obtain rfl : s'' = s' := by
    rw [hresult] at hremoved
    exact (Prod.mk.inj hremoved).1
  obtain hnot | ⟨f, frames, i, label, panes', ht, hpanes', hactive⟩ :=
    paneLayoutRemove_cases h.shaped (index + 1)
  · rw [hnot] at htrue
    simp at htrue
  have hids := h.shaped.ids_nodup
  rw [ht] at hids
  have hnodup := (ids_fill (f :: frames) _).nodup_iff.mp hids
  refine ⟨firstId f.other, ?_, ?_, ?_, hsame.previous, hsame.panes⟩
  · rw [ht]
    exact takesOver_fill frames hids
  · intro heq
    have hfirst : firstId f.other ∈ (frameLeaves (f :: frames)).map Prod.fst := by
      rw [show frameLeaves (f :: frames) = f.other.leaves ++ frameLeaves frames from rfl,
        map_append]
      exact mem_append_left _ (firstId_mem f.other)
    exact (nodup_cons.mp hnodup).1 (heq ▸ hfirst)
  · rw [hsame.active, hpanes']
    exact hactive

/-- The active pane keeps its process exactly when the pane that takes over has it, and the
remembered pane exactly when it is before the removed one (or the next one has its process, or the
removed one is the last). -/
theorem remove_keeps_processes_iff {s s' : DeskSession} {t : PaneTree} (h : Consistent s t)
    {outcome : ℕ → ResizeOutcome} {terminal : Terminal} {index : ℕ}
    (hremoved : deskRemovePaneAt outcome terminal s index = (s', none)) :
    KeepsProcesses s s' (index + 1) ↔
      (∃ paneId, takesOver (index + 1) t = some paneId ∧
        processOf s paneId = processOf s s.layout.activePaneId) ∧
      (s.previousPaneId ≤ index ∨ processOf s (s.previousPaneId + 1) =
        if s.previousPaneId = index + 1 then none else processOf s s.previousPaneId) := by
  obtain ⟨paneId, htakes, hne, hactive, hprevious, hpanes⟩ := deskRemovePaneAt_ok h hremoved
  have hothers : ∀ id, id ≠ index + 1 →
      processOf s' (renumber (index + 1) id) = processOf s id := fun id hid =>
    processOf_eraseIdx hpanes hid
  have hnow : processOf s' s'.layout.activePaneId = processOf s paneId := by
    rw [hactive, hothers paneId hne]
  have hbefore : s.previousPaneId ≤ index →
      processOf s' s.previousPaneId = processOf s s.previousPaneId := by
    intro hle
    have hkept := hothers s.previousPaneId (by omega)
    rwa [renumber, if_neg (by omega)] at hkept
  have hafter : index < s.previousPaneId →
      processOf s' s.previousPaneId = processOf s (s.previousPaneId + 1) := by
    intro hlt
    have hkept := hothers (s.previousPaneId + 1) (by omega)
    rwa [renumber, if_pos (by omega), Nat.add_sub_cancel] at hkept
  constructor
  · intro hkeeps
    refine ⟨⟨paneId, htakes, hnow ▸ hkeeps.active⟩, ?_⟩
    by_cases hle : s.previousPaneId ≤ index
    · exact .inl hle
    · right
      rw [← hafter (by omega), ← hprevious]
      rw [hkeeps.previous, hprevious]
  · rintro ⟨⟨paneId', htakes', hprocess⟩, hremembered⟩
    obtain rfl : paneId = paneId' := Option.some.inj (htakes.symm.trans htakes')
    refine ⟨hnow.trans hprocess, ?_, hothers⟩
    rw [hprevious]
    by_cases hle : s.previousPaneId ≤ index
    · rw [hbefore hle, if_neg (by omega)]
    · rw [hafter (by omega)]
      exact hremembered.resolve_left hle

def fourCubes (active previous : ℕ) : DeskSession where
  managerUri := []
  panes := [1, 2, 3, 4].map fun n =>
    { process := ⟨dec n, [], dec n, .running⟩, shows := dec n, attached := true,
      hasManager := false, workspaceName := [], managerUri := [], remoteName := [], rows := 11,
      cols := 40, endedNoticeShown := false }
  layout := { paneLayoutReset with activePaneId := active }
  zoomed := false
  previousPaneId := previous
  notice := []
  nextProcessRefreshMs := 0

theorem consistent_fourCubes (active previous : ℕ) :
    Consistent (fourCubes active previous) resetTree where
  shaped := ⟨shaped_reset.holds, shaped_reset.root, shaped_reset.nodup, shaped_reset.range,
    shaped_reset.ids_nodup⟩
  leaves := by
    intro paneId
    have hids : ids resetTree = [1, 2, 3, 4] := rfl
    have hlength : (fourCubes active previous).panes.length = 4 := rfl
    rw [hids, hlength]
    simp only [mem_cons, not_mem_nil, or_false]
    omega

/-- The cube in pane 4 ends while pane 1 is active and pane 2 remembered: pane 3 becomes active. -/
theorem removal_moves_active :
    Consistent (fourCubes 1 2) resetTree ∧
      (deskRemovePaneAt (fun _ => .resized) ⟨24, 80⟩ (fourCubes 1 2) 3).2 = none ∧
      (deskRemovePaneAt (fun _ => .resized) ⟨24, 80⟩ (fourCubes 1 2) 3).1.layout.activePaneId = 3 ∧
      processOf (fourCubes 1 2) 1 = some ⟨dec 1, [], dec 1, .running⟩ ∧
      processOf (deskRemovePaneAt (fun _ => .resized) ⟨24, 80⟩ (fourCubes 1 2) 3).1 3 =
        some ⟨dec 3, [], dec 3, .running⟩ :=
  ⟨consistent_fourCubes 1 2, by decide +kernel, by decide +kernel, by decide +kernel,
    by decide +kernel⟩

/-- The cube in pane 2 ends while its sibling, pane 1, is active. -/
theorem removal_of_sibling_keeps :
    ∃ s', deskRemovePaneAt (fun _ => .resized) ⟨24, 80⟩ (fourCubes 1 0) 1 = (s', none) ∧
      KeepsProcesses (fourCubes 1 0) s' 2 := by
  have hnone : (deskRemovePaneAt (fun _ => .resized) ⟨24, 80⟩ (fourCubes 1 0) 1).2 = none := by
    decide +kernel
  cases hresult : deskRemovePaneAt (fun _ => .resized) ⟨24, 80⟩ (fourCubes 1 0) 1 with
  | mk s' error =>
    rw [hresult] at hnone
    obtain rfl : error = none := hnone
    have hactive : (fourCubes 1 0).layout.activePaneId = 1 := rfl
    refine ⟨s', rfl, (remove_keeps_processes_iff (consistent_fourCubes 1 0)
      hresult).mpr ⟨⟨1, by decide +kernel, ?_⟩, .inl (by decide)⟩⟩
    rw [hactive]

end Cubicle.DeskRemovals

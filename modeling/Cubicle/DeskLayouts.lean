import Cubicle.ByteText

/-!
# The layout of a desk

The panes of a desk are an array, and their arrangement on the screen is a tree whose leaves name
panes by their place in the array. Commands change the two in different functions. This module
follows both through whole sessions: the leaves are the panes, each once, and the active pane is one
of them, as long as automatic layouts are only made for numbers of panes that fill a grid.

The tree lives in an array of 32 nodes, of which a tree with `n` leaves uses `2 * n - 1`.
-/

namespace Cubicle.DeskLayouts
open ByteText List

inductive SplitKind
  | horizontal | vertical
deriving DecidableEq, Repr

/-- `desk_pane_node_t`, as a tree. -/
inductive Tree
  | leaf (paneId : ℕ) (label : Bytes)
  | split (kind : SplitKind) (size : ℕ) (first second : Tree)
deriving DecidableEq, Repr

namespace Tree

/-- The pane ids of the leaves. -/
def leaves : Tree → List ℕ
  | leaf paneId _ => [paneId]
  | split _ _ first second => first.leaves ++ second.leaves

/-- How many nodes of the array are in use. -/
def nodes : Tree → ℕ
  | leaf _ _ => 1
  | split _ _ first second => first.nodes + second.nodes + 1

def firstLeaf : Tree → ℕ
  | leaf paneId _ => paneId
  | split _ _ first second => if first.firstLeaf ≠ 0 then first.firstLeaf else second.firstLeaf

/-- The first leaf of a pane is replaced by a tree made from its label. -/
def replaceLeaf (paneId : ℕ) (f : Bytes → Tree) : Tree → Option Tree
  | leaf id label => if id = paneId then some (f label) else none
  | split kind size first second =>
    match replaceLeaf paneId f first with
    | some first' => some (split kind size first' second)
    | none => (replaceLeaf paneId f second).map (split kind size first)

def labelOf (paneId : ℕ) : Tree → Option Bytes
  | leaf id label => if id = paneId then some label else none
  | split _ _ first second => (labelOf paneId first).or (labelOf paneId second)

/-- The first leaf of a pane is removed and its sibling takes the place of their parent; also the
pane that is active then. Nothing is removed when the leaf is the whole tree. -/
def deleteLeaf (paneId : ℕ) : Tree → Option (Tree × ℕ)
  | leaf _ _ => none
  | split kind size first second =>
    if paneId ∈ first.leaves then
      match deleteLeaf paneId first with
      | some (first', active) => some (split kind size first' second, active)
      | none => some (second, second.firstLeaf)
    else if paneId ∈ second.leaves then
      match deleteLeaf paneId second with
      | some (second', active) => some (split kind size first second', active)
      | none => some (first, first.firstLeaf)
    else none

def mapIds (f : ℕ → ℕ) : Tree → Tree
  | leaf paneId label => leaf (f paneId) label
  | split kind size first second => split kind size (first.mapIds f) (second.mapIds f)

/-- `desk_apply_pane_labels`: the first leaf of each pane shows its title, cut to 63 bytes. -/
def applyLabels (titles : List Bytes) (root : Tree) : Tree :=
  (List.range titles.length).foldl
    (fun root i =>
      (root.replaceLeaf (i + 1) fun _ => .leaf (i + 1) ((titles.getD i []).take 63)).getD root)
    root

end Tree

/-- The fields of `desk_pane_layout_t` that say which panes there are. -/
structure Layout where
  root : Tree
  activePaneId : ℕ
  nextPaneId : ℕ
deriving DecidableEq, Repr

/-- `pane_layout_split`: the label has to leave room for two more characters, and two nodes have to
be free. -/
def paneLayoutSplit (kind : SplitKind) (panes : Layout) : Option Layout :=
  match panes.root.labelOf panes.activePaneId with
  | none => none
  | some label =>
    if 64 ≤ label.length + 2 ∨ 32 < panes.root.nodes + 2 then none
    else
      (panes.root.replaceLeaf panes.activePaneId fun label =>
        .split kind 0 (.leaf panes.activePaneId (label ++ ascii ".1"))
          (.leaf panes.nextPaneId (label ++ ascii ".2"))).map fun root =>
      { root, activePaneId := panes.nextPaneId, nextPaneId := panes.nextPaneId + 1 }

inductive Direction
  | left | right | above | below
deriving DecidableEq, Repr

def Direction.splitKind : Direction → SplitKind
  | .left | .right => .horizontal
  | .above | .below => .vertical

def Direction.beside (direction : Direction) (leaf tree : Tree) : Tree :=
  match direction with
  | .left | .above => .split direction.splitKind 0 leaf tree
  | .right | .below => .split direction.splitKind 0 tree leaf

/-- The way up from the leaf of a pane, through splits of the other kind than the one wanted: the
tree with the subtree that is reached placed beside the new leaf, or `none` while that subtree is
the whole tree. -/
def Tree.addBeside (paneId : ℕ) (wanted : SplitKind) (place : Tree → Tree) :
    Tree → Option (Option Tree)
  | .leaf id _ => if id = paneId then some none else none
  | .split kind size first second =>
    match addBeside paneId wanted place first with
    | some (some first') => some (some (.split kind size first' second))
    | some none =>
      if kind ≠ wanted then some none else some (some (.split kind size (place first) second))
    | none =>
      match addBeside paneId wanted place second with
      | some (some second') => some (some (.split kind size first second'))
      | some none =>
        if kind ≠ wanted then some none else some (some (.split kind size first (place second)))
      | none => none

def paneLayoutAddDirection (direction : Direction) (panes : Layout) : Option Layout :=
  let place := direction.beside (.leaf panes.nextPaneId (dec panes.nextPaneId))
  match panes.root.addBeside panes.activePaneId direction.splitKind place with
  | none => none
  | some placed =>
    if 32 < panes.root.nodes + 2 then none
    else some { root := placed.getD (place panes.root),
                activePaneId := panes.nextPaneId, nextPaneId := panes.nextPaneId + 1 }

def paneLayoutNextId (root : Tree) : ℕ :=
  root.leaves.foldl (fun next paneId => if next ≤ paneId then paneId + 1 else next) 1

/-- The number of a pane after the removal of another. -/
def compacted (removed paneId : ℕ) : ℕ := if removed < paneId then paneId - 1 else paneId

/-- `pane_layout_delete_active` for a pane, and `pane_layout_compact_after_delete`. -/
def paneLayoutDelete (removed : ℕ) (panes : Layout) : Option Layout :=
  match panes.root.deleteLeaf removed with
  | none => none
  | some (root, active) =>
    some { root := root.mapIds (compacted removed), activePaneId := compacted removed active,
           nextPaneId := paneLayoutNextId (root.mapIds (compacted removed)) }

/-- The loop over the leaves that `pane_layout_next` and `pane_layout_previous` share: the first
pane after the active one in an order, or the first one of all. -/
def chooseLeaf (before : ℕ → ℕ → Bool) (panes : Layout) : Layout :=
  let fallback := panes.root.leaves.foldl
    (fun fallback paneId => if fallback = 0 ∨ before paneId fallback then paneId else fallback) 0
  let best := panes.root.leaves.foldl
    (fun best paneId =>
      if before panes.activePaneId paneId ∧ (best = 0 ∨ before paneId best) then paneId else best) 0
  { panes with activePaneId := if best ≠ 0 then best else fallback }

def paneLayoutNext : Layout → Layout := chooseLeaf fun a b => a < b

def paneLayoutPrevious : Layout → Layout := chooseLeaf fun a b => b < a

/-- `pane_layout_build_grid_range`; the fuel bounds the depth of the halving. -/
def buildGridRange (totalCols : ℕ) : ℕ → ℕ → ℕ → ℕ → ℕ → Tree
  | 0, rowStart, _, colStart, _ =>
    .leaf (rowStart * totalCols + colStart + 1) (dec (rowStart * totalCols + colStart + 1))
  | fuel + 1, rowStart, rows, colStart, cols =>
    if rows = 1 ∧ cols = 1 then
      .leaf (rowStart * totalCols + colStart + 1) (dec (rowStart * totalCols + colStart + 1))
    else if 1 < cols then
      .split .horizontal 0
        (buildGridRange totalCols fuel rowStart rows colStart (cols / 2))
        (buildGridRange totalCols fuel rowStart rows (colStart + cols / 2) (cols - cols / 2))
    else
      .split .vertical 0
        (buildGridRange totalCols fuel rowStart (rows / 2) colStart cols)
        (buildGridRange totalCols fuel (rowStart + rows / 2) (rows - rows / 2) colStart cols)

def paneLayoutGrid (rows cols : ℕ) : Option Layout :=
  if rows = 0 ∨ cols = 0 ∨ 16 < rows * cols then none
  else some { root := buildGridRange cols (rows + cols) 0 rows 0 cols, activePaneId := 1,
              nextPaneId := rows * cols + 1 }

def paneLayoutThreePanes : Layout where
  root := .split .horizontal 0
    (.split .vertical 0 (.leaf 1 (ascii "1")) (.leaf 2 (ascii "2"))) (.leaf 3 (ascii "3"))
  activePaneId := 1
  nextPaneId := 4

/-- The loop for the number of columns. -/
def gridCols (paneCount : ℕ) : ℕ → ℕ → ℕ
  | 0, cols => cols
  | fuel + 1, cols => if cols * cols < paneCount then gridCols paneCount fuel (cols + 1) else cols

/-- `desk_auto_grid`: rows and columns. -/
def deskAutoGrid (paneCount : ℕ) : ℕ × ℕ :=
  if paneCount ≤ 1 then (1, 1)
  else if paneCount = 2 then (1, 2)
  else if paneCount ≤ 4 then (2, 2)
  else
    let cols := gridCols paneCount paneCount 1
    ((paneCount + cols - 1) / cols, cols)

def paneLayoutAuto (paneCount : ℕ) : Option Layout :=
  if paneCount = 3 then some paneLayoutThreePanes
  else paneLayoutGrid (deskAutoGrid paneCount).1 (deskAutoGrid paneCount).2

/-- The panes of a session are known by their titles. -/
structure Session where
  panes : List Bytes
  layout : Layout
deriving DecidableEq

/-- What happens to the panes of a session. Whether resizing and attaching succeed is part of the
event, and so are a pane's title and the pane that the geometry of the screen proposes. -/
inductive Event
  | reflow
  | reset
  | split (kind : SplitKind) (title : Bytes) (resized attached : Bool)
  | add (direction : Direction) (title : Bytes) (resized attached : Bool)
  | replaceActive (title : Bytes) (attached : Bool)
  | ended (paneIndex : ℕ)
  | delete
  | next
  | previous
  | select (candidate : ℕ)
deriving Repr

namespace Session

def applyLabels (s : Session) : Session :=
  { s with layout.root := s.layout.root.applyLabels s.panes }

def activePane (s : Session) : Option Bytes :=
  if s.layout.activePaneId = 0 ∨ s.panes.length < s.layout.activePaneId then none
  else s.panes[s.layout.activePaneId - 1]?

/-- The place of the active pane in `desk_replace_active_pane_process`; the array has 32. -/
def placeActive (s : Session) (title : Bytes) : Option Session :=
  if s.layout.activePaneId = 0 ∨ 32 < s.layout.activePaneId ∨
      s.panes.length + 1 < s.layout.activePaneId then none
  else if s.layout.activePaneId - 1 = s.panes.length then
    some { s with panes := s.panes ++ [title] }
  else some { s with panes := s.panes.set (s.layout.activePaneId - 1) title }

def replaceActivePaneProcess (s : Session) (title : Bytes) (attached : Bool) : Session :=
  match s.placeActive title with
  | none => s
  | some placed => if attached then placed.applyLabels else placed

/-- `desk_commit_pending_split_process`: when the panes cannot be resized or the new one cannot be
attached, the layout and the number of panes are put back. -/
def commitPendingSplitProcess (s : Session) (change : Layout → Option Layout) (title : Bytes)
    (resized attached : Bool) : Session :=
  if 32 ≤ s.panes.length then s
  else match change s.layout with
    | none => s
    | some layout =>
      if resized then
        match placeActive { s with layout } title with
        | none => s
        | some placed =>
          if attached then placed.applyLabels
          else { s with panes := placed.panes.take s.panes.length }
      else s

def removePaneAt (s : Session) (paneIndex : ℕ) : Session :=
  if s.panes.length ≤ paneIndex ∨ s.panes.length ≤ 1 then s
  else match paneLayoutDelete (paneIndex + 1) s.layout with
    | none => s
    | some layout => applyLabels { panes := s.panes.eraseIdx paneIndex, layout }

def step (s : Session) : Event → Session
  | .reflow =>
    match paneLayoutAuto s.panes.length with
    | none => s
    | some layout => applyLabels { s with layout }
  | .reset =>
    match paneLayoutAuto s.panes.length with
    | none => s
    | some layout =>
      let s' := applyLabels { s with layout }
      if 0 < s.layout.activePaneId ∧ s.layout.activePaneId ≤ s.panes.length then
        { s' with layout.activePaneId := s.layout.activePaneId }
      else s'
  | .split kind title resized attached =>
    s.commitPendingSplitProcess (paneLayoutSplit kind) title resized attached
  | .add direction title resized attached =>
    s.commitPendingSplitProcess (paneLayoutAddDirection direction) title resized attached
  | .replaceActive title attached => s.replaceActivePaneProcess title attached
  | .ended paneIndex => s.removePaneAt paneIndex
  | .delete =>
    if s.layout.activePaneId = 0 then s else s.removePaneAt (s.layout.activePaneId - 1)
  | .next => { s with layout := paneLayoutNext s.layout }
  | .previous => { s with layout := paneLayoutPrevious s.layout }
  | .select candidate =>
    if 0 < candidate ∧ candidate ≤ s.panes.length ∧ candidate ∈ s.layout.root.leaves then
      { s with layout.activePaneId := candidate }
    else s

/-- A session with an automatic layout, as `load_or_create_layout` makes it. -/
def start (panes : List Bytes) : Option Session :=
  (paneLayoutAuto panes.length).map fun layout => applyLabels { panes, layout }

end Session

namespace Tree

theorem leaves_ne_nil (t : Tree) : t.leaves ≠ [] := by
  induction t with
  | leaf => simp [leaves]
  | split _ _ _ _ hfirst _ => simp [leaves, hfirst]

theorem firstLeaf_mem (t : Tree) : t.firstLeaf ∈ t.leaves := by
  induction t with
  | leaf => simp [leaves, firstLeaf]
  | split _ _ first second hfirst hsecond =>
    rw [firstLeaf, leaves, mem_append]
    split
    · exact Or.inl hfirst
    · exact Or.inr hsecond

variable {paneId : ℕ} {t t' : Tree}

theorem leaves_replaceLeaf {f : Bytes → Tree} (new : List ℕ)
    (hf : ∀ label, (f label).leaves.Perm (new ++ [paneId])) (h : t.replaceLeaf paneId f = some t') :
    t'.leaves.Perm (new ++ t.leaves) := by
  induction t generalizing t' with
  | leaf id label =>
    rw [replaceLeaf] at h
    split at h
    case isTrue hid =>
      rw [← Option.some.inj h, leaves, hid]
      exact hf label
    case isFalse => simp at h
  | split kind size first second hfirst hsecond =>
    rw [replaceLeaf] at h
    split at h
    case h_1 first' heq =>
      rw [← Option.some.inj h, leaves, leaves, ← append_assoc]
      exact (hfirst heq).append_right _
    case h_2 =>
      obtain ⟨second', heq, rfl⟩ := Option.map_eq_some_iff.mp h
      rw [leaves, leaves]
      exact ((hsecond heq).append_left _).trans (perm_append_comm_assoc ..)

theorem leaves_applyLabels (titles : List Bytes) (t : Tree) :
    (t.applyLabels titles).leaves.Perm t.leaves := by
  rw [applyLabels]
  induction List.range titles.length generalizing t with
  | nil => exact .refl _
  | cons i is ih =>
    rw [foldl_cons]
    refine (ih _).trans ?_
    cases heq : t.replaceLeaf (i + 1) fun _ => .leaf (i + 1) ((titles.getD i []).take 63) with
    | none => exact .refl _
    | some t' => exact leaves_replaceLeaf [] (fun _ => .refl _) heq

theorem leaves_beside (direction : Direction) (new t : Tree) :
    (direction.beside new t).leaves.Perm (new.leaves ++ t.leaves) := by
  cases direction
  case left | above => exact .refl _
  case right | below => exact perm_append_comm

theorem leaves_addBeside {wanted : SplitKind} {place : Tree → Tree} {new : List ℕ}
    (hplace : ∀ u, (place u).leaves.Perm (new ++ u.leaves))
    (h : t.addBeside paneId wanted place = some (some t')) : t'.leaves.Perm (new ++ t.leaves) := by
  induction t generalizing t' with
  | leaf => simp [addBeside] at h
  | split kind size first second hfirst hsecond =>
    have hleft : ∀ first' : Tree, first'.leaves.Perm (new ++ first.leaves) →
        (split kind size first' second).leaves.Perm
          (new ++ (split kind size first second).leaves) := by
      intro first' hperm
      rw [leaves, leaves, ← append_assoc]
      exact hperm.append_right _
    have hright : ∀ second' : Tree, second'.leaves.Perm (new ++ second.leaves) →
        (split kind size first second').leaves.Perm
          (new ++ (split kind size first second).leaves) := by
      intro second' hperm
      rw [leaves, leaves]
      exact (hperm.append_left _).trans (perm_append_comm_assoc ..)
    rw [addBeside] at h
    split at h
    case h_1 first' heq =>
      simp only [Option.some.injEq] at h
      exact h ▸ hleft _ (hfirst heq)
    case h_2 =>
      split at h <;> simp only [Option.some.injEq, reduceCtorEq] at h
      exact h ▸ hleft _ (hplace _)
    case h_3 =>
      split at h
      case h_1 second' heq =>
        simp only [Option.some.injEq] at h
        exact h ▸ hright _ (hsecond heq)
      case h_2 =>
        split at h <;> simp only [Option.some.injEq, reduceCtorEq] at h
        exact h ▸ hright _ (hplace _)
      case h_3 => simp at h

theorem leaves_eq_of_deleteLeaf_eq_none (hmem : paneId ∈ t.leaves) (h : t.deleteLeaf paneId =
    none) :
    t.leaves = [paneId] := by
  cases t with
  | leaf id label => rw [leaves, mem_singleton.mp hmem]
  | split kind size first second =>
    rw [deleteLeaf] at h
    split at h
    · split at h <;> simp at h
    · rename_i hfirst
      rw [if_pos ((mem_append.mp hmem).resolve_left hfirst)] at h
      split at h <;> simp at h

/-- Removing a pane removes one leaf of it, and the pane that becomes active is still there. -/
theorem leaves_deleteLeaf {active : ℕ} (h : t.deleteLeaf paneId = some (t', active)) :
    (paneId :: t'.leaves).Perm t.leaves ∧ active ∈ t'.leaves := by
  induction t generalizing t' active with
  | leaf => simp [deleteLeaf] at h
  | split kind size first second hfirst hsecond =>
    rw [deleteLeaf] at h
    split at h
    case isTrue hmem =>
      split at h
      case h_1 first' active' heq =>
        simp only [Option.some.injEq, Prod.mk.injEq] at h
        obtain ⟨rfl, rfl⟩ := h
        obtain ⟨hperm, hactive⟩ := hfirst heq
        exact ⟨hperm.append_right _, mem_append_left _ hactive⟩
      case h_2 heq =>
        simp only [Option.some.injEq, Prod.mk.injEq] at h
        obtain ⟨rfl, rfl⟩ := h
        rw [leaves, leaves_eq_of_deleteLeaf_eq_none hmem heq]
        exact ⟨.refl _, firstLeaf_mem _⟩
    case isFalse =>
      split at h
      case isFalse => simp at h
      case isTrue hmem =>
        split at h
        case h_1 second' active' heq =>
          simp only [Option.some.injEq, Prod.mk.injEq] at h
          obtain ⟨rfl, rfl⟩ := h
          obtain ⟨hperm, hactive⟩ := hsecond heq
          exact ⟨perm_middle.symm.trans (hperm.append_left _),
            mem_append_right _ hactive⟩
        case h_2 heq =>
          simp only [Option.some.injEq, Prod.mk.injEq] at h
          obtain ⟨rfl, rfl⟩ := h
          rw [leaves, leaves_eq_of_deleteLeaf_eq_none hmem heq]
          exact ⟨(perm_append_singleton ..).symm, firstLeaf_mem _⟩

theorem leaves_mapIds (f : ℕ → ℕ) (t : Tree) : (t.mapIds f).leaves = t.leaves.map f := by
  induction t with
  | leaf => rfl
  | split _ _ _ _ hfirst hsecond => rw [mapIds, leaves, leaves, hfirst, hsecond, map_append]

end Tree

variable {n : ℕ} {panes panes' : Layout}

/-- Without one of its members, a run of pane ids closes up again. -/
theorem map_compacted_perm {removed : ℕ} {l : List ℕ}
    (hperm : (removed :: l).Perm (List.range' 1 n)) :
    (l.map (compacted removed)).Perm (List.range' 1 (n - 1)) := by
  have hmem : removed ∈ List.range' 1 n := hperm.subset (mem_cons_self ..)
  rw [mem_range'_1] at hmem
  obtain ⟨k, rfl⟩ : ∃ k, removed = k + 1 := ⟨removed - 1, by omega⟩
  obtain ⟨m, rfl⟩ : ∃ m, n = k + (m + 1) := ⟨n - k - 1, by omega⟩
  rw [← range'_append_1, range'_succ, Nat.add_comm 1 k] at hperm
  have hrest := (List.Perm.cons_inv (hperm.trans perm_middle)).map (compacted (k + 1))
  refine hrest.trans ?_
  have hlow : (List.range' 1 k).map (compacted (k + 1)) = List.range' 1 k := by
    refine (map_congr_left fun i hi => ?_).trans (map_id _)
    rw [mem_range'_1] at hi
    exact if_neg (by omega)
  have hhigh : (List.range' (k + 1 + 1) m).map (compacted (k + 1)) = List.range' (1 + k) m := by
    rw [show k + 1 + 1 = 1 + (1 + k) by omega, ← map_add_range', map_map]
    refine (map_congr_left fun i hi => ?_).trans (map_id _)
    rw [mem_range'_1] at hi
    rw [Function.comp_apply, compacted, if_pos (by omega), Nat.add_sub_cancel_left, id]
  rw [map_append, hlow, hhigh, range'_append_1]
  exact .of_eq (by congr 1)

/-- The accumulator of `pane_layout_next_id` is what it was, or one more than a leaf that was
passed. -/
theorem foldl_nextId (l : List ℕ) (next : ℕ) {result : ℕ}
    (h : l.foldl (fun next paneId => if next ≤ paneId then paneId + 1 else next) next = result) :
    next ≤ result ∧ (∀ i ∈ l, i < result) ∧ (result = next ∨ ∃ i ∈ l, result = i + 1) := by
  induction l generalizing next with
  | nil => exact ⟨h.le, by simp, Or.inl h.symm⟩
  | cons i is ih =>
    rw [foldl_cons] at h
    obtain ⟨hle, hbound, hresult⟩ := ih _ h
    by_cases hi : next ≤ i
    · rw [if_pos hi] at hle hresult
      refine ⟨by omega, forall_mem_cons.mpr ⟨by omega, hbound⟩, Or.inr ?_⟩
      rcases hresult with hresult | ⟨j, hj, hresult⟩
      · exact ⟨i, mem_cons_self .., hresult⟩
      · exact ⟨j, mem_cons_of_mem _ hj, hresult⟩
    · rw [if_neg hi] at hle hresult
      refine ⟨hle, forall_mem_cons.mpr ⟨by omega, hbound⟩, hresult.imp_right ?_⟩
      exact fun ⟨j, hj, hresult⟩ => ⟨j, mem_cons_of_mem _ hj, hresult⟩

theorem paneLayoutNextId_of_perm {root : Tree} (hperm : root.leaves.Perm (List.range' 1 n)) :
    paneLayoutNextId root = n + 1 := by
  obtain ⟨-, hbound, hresult⟩ := foldl_nextId root.leaves 1 (rfl : _ = paneLayoutNextId root)
  have hmem : ∀ i, i ∈ root.leaves ↔ 1 ≤ i ∧ i < 1 + n := fun i => by
    rw [hperm.mem_iff, mem_range'_1]
  obtain ⟨i, hi⟩ := exists_mem_of_ne_nil _ root.leaves_ne_nil
  have hn := hbound n ((hmem n).mpr (by have := (hmem i).mp hi; omega))
  rcases hresult with h | ⟨j, hj, h⟩
  · have := (hmem i).mp hi
    omega
  · have := (hmem j).mp hj
    omega

theorem foldl_pick_mem {take : ℕ → ℕ → Prop} [∀ a b, Decidable (take a b)] (l : List ℕ)
    (best : ℕ) :
    l.foldl (fun best paneId => if take best paneId then paneId else best) best ∈ best :: l := by
  induction l generalizing best with
  | nil => simp
  | cons i is ih =>
    rw [foldl_cons]
    split
    · exact mem_cons_of_mem _ (ih i)
    · refine mem_cons.mpr ((mem_cons.mp (ih best)).imp_right ?_)
      exact mem_cons_of_mem _

theorem chooseLeaf_mem (before : ℕ → ℕ → Bool) (panes : Layout) :
    (chooseLeaf before panes).activePaneId ∈ panes.root.leaves := by
  simp only [chooseLeaf]
  split
  case isTrue hbest => exact (mem_cons.mp (foldl_pick_mem _ 0)).resolve_left hbest
  case isFalse =>
    -- the first leaf is taken whatever it is
    obtain ⟨i, is, heq⟩ := exists_cons_of_ne_nil panes.root.leaves_ne_nil
    rw [heq, foldl_cons, if_pos (Or.inl rfl)]
    exact foldl_pick_mem is i

/-- The next pane was added to a layout and made active. -/
structure Grown (panes panes' : Layout) : Prop where
  leaves : panes'.root.leaves.Perm (panes.nextPaneId :: panes.root.leaves)
  active : panes'.activePaneId = panes.nextPaneId
  next : panes'.nextPaneId = panes.nextPaneId + 1

theorem grown_of_paneLayoutSplit {kind : SplitKind} (h : paneLayoutSplit kind panes = some panes') :
    Grown panes panes' := by
  rw [paneLayoutSplit] at h
  split at h
  case h_1 => simp at h
  case h_2 =>
    split at h
    case isTrue => simp at h
    case isFalse =>
      obtain ⟨root, hroot, rfl⟩ := Option.map_eq_some_iff.mp h
      refine ⟨Tree.leaves_replaceLeaf [panes.nextPaneId] (fun label => ?_) hroot, rfl, rfl⟩
      exact .swap panes.nextPaneId panes.activePaneId []

theorem grown_of_paneLayoutAddDirection {direction : Direction}
    (h : paneLayoutAddDirection direction panes = some panes') : Grown panes panes' := by
  rw [paneLayoutAddDirection] at h
  split at h
  case h_1 => simp at h
  case h_2 placed hplaced =>
    split at h
    case isTrue => simp at h
    case isFalse =>
      rw [← Option.some.inj h]
      refine ⟨?_, rfl, rfl⟩
      cases placed with
      | none => exact Tree.leaves_beside ..
      | some t' => exact Tree.leaves_addBeside (Tree.leaves_beside direction _) hplaced

/-- The numbers of panes for which the automatic grid has a place too many. -/
def GridLeavesGap (paneCount : ℕ) : Prop := paneCount ∈ [5, 7, 8, 10, 11, 13, 14, 15]

instance (paneCount : ℕ) : Decidable (GridLeavesGap paneCount) :=
  inferInstanceAs (Decidable (paneCount ∈ _))

theorem gridCols_pos (paneCount fuel cols : ℕ) (hcols : 0 < cols) :
    0 < gridCols paneCount fuel cols := by
  induction fuel generalizing cols with
  | zero => exact hcols
  | succ fuel ih =>
    rw [gridCols]
    split
    · exact ih _ (Nat.succ_pos _)
    · exact hcols

theorem paneLayoutAuto_of_sixteen_lt {paneCount : ℕ} (h : 16 < paneCount) :
    paneLayoutAuto paneCount = none := by
  have hcols := gridCols_pos paneCount paneCount 1 Nat.one_pos
  have hgrid : deskAutoGrid paneCount =
      ((paneCount + gridCols paneCount paneCount 1 - 1) / gridCols paneCount paneCount 1,
        gridCols paneCount paneCount 1) := by
    rw [deskAutoGrid, if_neg (by omega), if_neg (by omega), if_neg (by omega)]
  have hcover : 16 < (deskAutoGrid paneCount).1 * (deskAutoGrid paneCount).2 := by
    simp only [hgrid]
    have hdiv := Nat.div_add_mod' (paneCount + gridCols paneCount paneCount 1 - 1)
      (gridCols paneCount paneCount 1)
    have hmod := Nat.mod_lt (paneCount + gridCols paneCount paneCount 1 - 1) hcols
    omega
  rw [paneLayoutAuto, if_neg (by omega), paneLayoutGrid, if_pos (Or.inr (Or.inr hcover))]

theorem paneLayoutAuto_leaves (paneCount : ℕ) (hmem : paneCount ∈ List.range' 1 16) :
    ∀ layout ∈ paneLayoutAuto paneCount,
      layout.nextPaneId = layout.root.leaves.length + 1 ∧ layout.activePaneId = 1 ∧
        layout.root.leaves.Perm (List.range' 1 layout.root.leaves.length) ∧
        (layout.root.leaves.length = paneCount ↔ ¬ GridLeavesGap paneCount) := by
  revert paneCount
  decide

/-- The leaves are the panes, each once; the active pane is one of them, and the next pane is the
one after them. -/
structure Coupled (s : Session) : Prop where
  leaves : s.layout.root.leaves.Perm (List.range' 1 s.panes.length)
  active : s.layout.activePaneId ∈ s.layout.root.leaves
  next : s.layout.nextPaneId = s.panes.length + 1

namespace Coupled

variable {s : Session}

variable {paneId : ℕ} {layout : Layout}

theorem mem_leaves_iff (h : Coupled s) :
    paneId ∈ s.layout.root.leaves ↔ 1 ≤ paneId ∧ paneId ≤ s.panes.length := by
  rw [h.leaves.mem_iff, mem_range'_1]
  omega

theorem active_bounds (h : Coupled s) :
    1 ≤ s.layout.activePaneId ∧ s.layout.activePaneId ≤ s.panes.length :=
  h.mem_leaves_iff.mp h.active

theorem isSome_activePane (h : Coupled s) : s.activePane.isSome := by
  obtain ⟨hpos, hle⟩ := h.active_bounds
  rw [Session.activePane, if_neg (by omega), getElem?_eq_getElem (by omega)]
  rfl

theorem applyLabels (h : Coupled s) : Coupled s.applyLabels where
  leaves := (Tree.leaves_applyLabels ..).trans h.leaves
  active := (Tree.leaves_applyLabels ..).mem_iff.mpr h.active
  next := h.next

theorem setActive (h : Coupled s) (hmem : paneId ∈ s.layout.root.leaves) :
    Coupled { s with layout.activePaneId := paneId } :=
  ⟨h.leaves, hmem, h.next⟩

theorem chooseLeaf (h : Coupled s) (before : ℕ → ℕ → Bool) :
    Coupled { s with layout := chooseLeaf before s.layout } :=
  ⟨h.leaves, chooseLeaf_mem before s.layout, h.next⟩

theorem setPanes (h : Coupled s) {panes : List Bytes} (hlen : panes.length = s.panes.length) :
    Coupled { s with panes } :=
  ⟨hlen ▸ h.leaves, h.active, hlen ▸ h.next⟩

/-- A layout that has grown takes the next place in the array. -/
theorem placeActive_of_grown (h : Coupled s) (hlen : s.panes.length < 32)
    (hgrown : Grown s.layout layout) (title : Bytes) :
    Session.placeActive { s with layout } title = some ⟨s.panes ++ [title], layout⟩ := by
  have hactive : layout.activePaneId = s.panes.length + 1 := hgrown.active.trans h.next
  rw [Session.placeActive, if_neg (by simp only [hactive]; omega),
    if_pos (by simp only [hactive]; omega)]

theorem of_grown (h : Coupled s) {layout : Layout} (hgrown : Grown s.layout layout)
    (title : Bytes) : Coupled ⟨s.panes ++ [title], layout⟩ where
  leaves := by
    rw [length_append, length_singleton, range'_concat]
    refine hgrown.leaves.trans ?_
    rw [h.next, Nat.one_mul, Nat.add_comm 1]
    exact (h.leaves.cons _).trans (perm_append_singleton ..).symm
  active := by
    rw [hgrown.leaves.mem_iff, hgrown.active]
    exact mem_cons_self ..
  next := by rw [hgrown.next, h.next, length_append, length_singleton]

theorem commitPendingSplitProcess (h : Coupled s) {change : Layout → Option Layout}
    (hchange : ∀ {panes panes'}, change panes = some panes' → Grown panes panes') (title : Bytes)
    (resized attached : Bool) :
    Coupled (s.commitPendingSplitProcess change title resized attached) := by
  rw [Session.commitPendingSplitProcess]
  split
  case isTrue => exact h
  case isFalse hlen =>
    split
    case h_1 => exact h
    case h_2 layout heq =>
      rw [h.placeActive_of_grown (by omega) (hchange heq)]
      cases resized <;> cases attached
      case true.true => exact (h.of_grown (hchange heq) title).applyLabels
      case true.false => simpa using h
      case false.true | false.false => exact h

theorem replaceActivePaneProcess (h : Coupled s) (title : Bytes) (attached : Bool) :
    Coupled (s.replaceActivePaneProcess title attached) := by
  obtain ⟨hpos, hle⟩ := h.active_bounds
  rw [Session.replaceActivePaneProcess, Session.placeActive]
  by_cases hlen : 32 < s.layout.activePaneId
  · rw [if_pos (by omega)]
    exact h
  · rw [if_neg (by omega), if_neg (by omega)]
    have hset : Coupled { s with panes := s.panes.set (s.layout.activePaneId - 1) title } :=
      h.setPanes length_set
    cases attached
    · exact hset
    · exact hset.applyLabels

theorem removePaneAt (h : Coupled s) (paneIndex : ℕ) : Coupled (s.removePaneAt paneIndex) := by
  rw [Session.removePaneAt]
  split
  case isTrue => exact h
  case isFalse hbounds =>
    split
    case h_1 => exact h
    case h_2 layout heq =>
      refine applyLabels ?_
      rw [paneLayoutDelete] at heq
      split at heq
      case h_1 => simp at heq
      case h_2 root active hdelete =>
        obtain ⟨hperm, hactive⟩ := Tree.leaves_deleteLeaf hdelete
        have hleaves := map_compacted_perm (hperm.trans h.leaves)
        rw [← Tree.leaves_mapIds] at hleaves
        have hlen : (s.panes.eraseIdx paneIndex).length = s.panes.length - 1 :=
          length_eraseIdx_of_lt (by omega)
        rw [← Option.some.inj heq]
        refine ⟨hlen ▸ hleaves, ?_, ?_⟩
        · simp only [Tree.leaves_mapIds]
          exact mem_map_of_mem hactive
        · exact hlen ▸ paneLayoutNextId_of_perm hleaves

/-- An automatic layout is coupled to its panes exactly when they fill it. -/
theorem paneLayoutAuto_iff {panes : List Bytes} (hpos : 0 < panes.length)
    (hauto : paneLayoutAuto panes.length = some layout) :
    Coupled { panes, layout } ↔ ¬ GridLeavesGap panes.length := by
  have hle : panes.length ≤ 16 := by
    by_contra hgt
    rw [paneLayoutAuto_of_sixteen_lt (by omega)] at hauto
    simp at hauto
  obtain ⟨hnext, hactive, hperm, hlen⟩ :=
    paneLayoutAuto_leaves panes.length (mem_range'_1.mpr (by omega)) layout hauto
  rw [← hlen]
  constructor
  · intro h
    rw [h.leaves.length_eq, length_range']
  · intro heq
    rw [heq] at hnext hperm
    refine ⟨hperm, ?_, hnext⟩
    rw [hactive, hperm.mem_iff, mem_range'_1]
    omega

end Coupled

/-- Automatic layouts are only made for numbers of panes that fill them. -/
def Event.FillsGrid (s : Session) : Event → Prop
  | .reflow | .reset => ¬ GridLeavesGap s.panes.length
  | _ => True

theorem Coupled.step {s : Session} (h : Coupled s) {e : Event} (he : e.FillsGrid s) :
    Coupled (s.step e) := by
  have hpos : 0 < s.panes.length := by
    have := h.active_bounds
    omega
  cases e with
  | reflow =>
    rw [Session.step]
    split
    case h_1 => exact h
    case h_2 layout hauto => exact ((paneLayoutAuto_iff hpos hauto).mpr he).applyLabels
  | reset =>
    rw [Session.step]
    split
    case h_1 => exact h
    case h_2 layout hauto =>
      have hnew := ((paneLayoutAuto_iff hpos hauto).mpr he).applyLabels
      split
      case isTrue hactive => exact hnew.setActive (hnew.mem_leaves_iff.mpr hactive)
      case isFalse => exact hnew
  | split kind title resized attached =>
    exact h.commitPendingSplitProcess grown_of_paneLayoutSplit title resized attached
  | add direction title resized attached =>
    exact h.commitPendingSplitProcess grown_of_paneLayoutAddDirection title resized attached
  | replaceActive title attached => exact h.replaceActivePaneProcess title attached
  | ended paneIndex => exact h.removePaneAt paneIndex
  | delete =>
    rw [Session.step]
    split
    · exact h
    · exact h.removePaneAt _
  | next => exact h.chooseLeaf _
  | previous => exact h.chooseLeaf _
  | select candidate =>
    rw [Session.step]
    split
    case isTrue hcandidate => exact h.setActive hcandidate.2.2
    case isFalse => exact h

/-- Sessions of one to 32 panes in which every automatic layout is filled. -/
inductive FilledRun : Session → Prop
  | start {panes : List Bytes} {s : Session} (hpos : 1 ≤ panes.length) (hle : panes.length ≤ 32)
    (hgap : ¬ GridLeavesGap panes.length) (hstart : Session.start panes = some s) : FilledRun s
  | step {s : Session} (hrun : FilledRun s) {e : Event} (he : e.FillsGrid s) : FilledRun (s.step e)

theorem FilledRun.coupled {s : Session} (hrun : FilledRun s) : Coupled s := by
  induction hrun with
  | start hpos _ hgap hstart =>
    obtain ⟨layout, hauto, rfl⟩ := Option.map_eq_some_iff.mp hstart
    exact ((Coupled.paneLayoutAuto_iff hpos hauto).mpr hgap).applyLabels
  | step _ he ih => exact ih.step he

/-- In every session whose automatic layouts are filled, the leaves are the panes, there is an
active pane, and a split or an added pane is given the next place in the array. -/
theorem layout_shows_panes {s : Session} (hrun : FilledRun s) :
    s.layout.root.leaves.Perm (List.range' 1 s.panes.length) ∧
      s.layout.activePaneId ∈ s.layout.root.leaves ∧ s.activePane.isSome ∧
      ∀ (layout : Layout) (title : Bytes), s.panes.length < 32 →
        ((∃ kind, paneLayoutSplit kind s.layout = some layout) ∨
          ∃ direction, paneLayoutAddDirection direction s.layout = some layout) →
        Session.placeActive { s with layout } title = some ⟨s.panes ++ [title], layout⟩ := by
  have h := hrun.coupled
  refine ⟨h.leaves, h.active, h.isSome_activePane, fun layout title hlen hchange => ?_⟩
  rcases hchange with ⟨kind, hsplit⟩ | ⟨direction, hadd⟩
  · exact h.placeActive_of_grown hlen (grown_of_paneLayoutSplit hsplit) title
  · exact h.placeActive_of_grown hlen (grown_of_paneLayoutAddDirection hadd) title

theorem two_panes_split :
    ∃ s, FilledRun s ∧ s.panes.length = 3 ∧ s.layout.root.leaves = [1, 2, 3] ∧
      s.layout.activePaneId = 1 ∧ s.activePane.isSome := by
  have hstart : FilledRun ((Session.start [ascii "a", ascii "b"]).get rfl) :=
    .start (by decide) (by decide) (by decide) (Option.some_get _).symm
  have hprevious := hstart.step (e := .previous) trivial
  have hsplit := hprevious.step (e := .split .vertical (ascii "c") true true) trivial
  have hnext := hsplit.step (e := .next) trivial
  exact ⟨_, hnext, by decide, by decide, by decide, (layout_shows_panes hnext).2.2.1⟩

/-- The grid for five panes has six leaves. The pane before the first one is then no pane, and a
split does not get a place. -/
theorem five_panes_leave_gap :
    ∃ s, Session.start (List.replicate 5 (ascii "a")) = some s ∧
      s.layout.root.leaves.Perm [1, 2, 3, 4, 5, 6] ∧ s.panes.length = 5 ∧
      (s.step .previous).layout.activePaneId = 6 ∧ (s.step .previous).activePane = none ∧
      s.step (.split .vertical (ascii "b") true true) = s := by
  refine ⟨_, rfl, ?_, ?_, ?_, ?_, ?_⟩ <;> decide

end Cubicle.DeskLayouts

import Cubicle.DeskRemovals

/-!
# Refreshing the panes of ended processes

A refresh asks the managers about the process of each pane in turn. A process that has ended gives
up its pane, and when that fails the pane keeps the last information and is marked. The mark goes to
the place of the pane, where another pane may have moved by then.
-/

namespace Cubicle.DeskRemovals
open List

open ByteText LinkedTrees PaneNodes

/-- `desk_process_has_ended` -/
def deskProcessHasEnded : ProcessState → Bool
  | .completed | .failed | .lost | .removed => true
  | _ => false

/-- What the calls of a refresh come to. The rounds of the loop are told apart by a number, so that
one call may go well and the next one not. -/
structure RefreshCalls where
  now : ℤ
  connects : ℕ → Bool
  answers : ℕ → Bytes → Option ProcessInfo
  attaches : ℕ → Bool
  resizes : ℕ → ℕ → ResizeOutcome

def DeskSession.setPane (s : DeskSession) (i : ℕ) (pane : DeskPane) : DeskSession :=
  { s with panes := s.panes.set i pane }

/-- `desk_show_process_ended_notice`, in buffers of 256 bytes. -/
def showProcessEndedNotice (s : DeskSession) (name : Bytes) : DeskSession :=
  { s with notice := ((if name ≠ [] then name else ascii "process") ++ ascii " just ended").take 255 }

section Refreshes
variable (calls : RefreshCalls) (terminal : Terminal)

/-- The start of a round: a pane with a process, connected to its manager. -/
def connectPane (round i : ℕ) (s : DeskSession) : Option (DeskSession × DeskPane) :=
  match s.panes[i]? with
  | none => none
  | some pane =>
    if pane.process.id = [] then none
    else if pane.hasManager = false ∧ pane.managerUri ≠ [] ∧ pane.managerUri ≠ s.managerUri then
      if calls.connects round then
        some (s.setPane i { pane with hasManager := true }, { pane with hasManager := true })
      else none
    else some (s, pane)

/-- The end of a round when the process of the pane has not ended. -/
def refreshLivePane (round i : ℕ) (s : DeskSession) (pane : DeskPane)
    (updated : ProcessInfo) : DeskSession :=
  if pane.attached = false ∧ calls.attaches round then
    s.setPane i { pane with process := updated, attached := true, shows := updated.id }
  else s.setPane i { pane with process := updated }

/-- The end of a round when the process has ended, with the place where the loop goes on. -/
def refreshEndedPane (round i : ℕ) (s : DeskSession)
    (pane : DeskPane) (updated : ProcessInfo) : DeskSession × ℕ :=
  let name := if pane.process.friendlyName ≠ [] then pane.process.friendlyName else pane.process.id
  if 1 < s.panes.length then
    match deskRemovePaneAt (calls.resizes round) terminal s i with
    | (s, none) => (showProcessEndedNotice s name, i)
    | (s, some _) =>
      -- The pointer to the pane is not taken anew: it points to what is at its place now.
      let s := { s with panes := s.panes.modify i fun pane =>
        { pane with process := updated, endedNoticeShown := true } }
      (showProcessEndedNotice s name, i + 1)
  else
    (showProcessEndedNotice (s.setPane i
      { pane with attached := false, process := updated, endedNoticeShown := true }) name, i + 1)

/-- A round of the loop of `desk_refresh_ended_panes`. -/
def refreshRound (round i : ℕ) (s : DeskSession) : DeskSession × ℕ :=
  match connectPane calls round i s with
  | none => (s, i + 1)
  | some (s, pane) =>
    match calls.answers round pane.process.id with
    | none => (s, i + 1)
    | some updated =>
      if deskProcessHasEnded updated.state = false then
        (refreshLivePane calls round i s pane updated, i + 1)
      else if pane.endedNoticeShown then (s.setPane i { pane with process := updated }, i + 1)
      else refreshEndedPane calls terminal round i s pane updated

/-- The loop: each round goes on to the next place or takes a pane out, so there are no more rounds
than panes. -/
def refreshRounds : ℕ → ℕ → DeskSession → DeskSession
  | 0, _, s => s
  | rounds + 1, i, s =>
    if i < s.panes.length then
      refreshRounds rounds (refreshRound calls terminal rounds i s).2
        (refreshRound calls terminal rounds i s).1
    else s

/-- The time of the next refresh, after 1000 ms. -/
def setNextRefresh (s : DeskSession) : DeskSession :=
  { s with nextProcessRefreshMs := if 0 < calls.now then calls.now + 1000 else 0 }

def tooEarly (s : DeskSession) : Bool :=
  0 < calls.now ∧ 0 < s.nextProcessRefreshMs ∧ calls.now < s.nextProcessRefreshMs

/-- `desk_refresh_ended_panes` -/
def deskRefreshEndedPanes (s : DeskSession) : DeskSession :=
  if tooEarly calls s then s
  else refreshRounds calls terminal s.panes.length 0 (setNextRefresh calls s)

end Refreshes

section Slips
variable (ended : Bytes → Prop) (calls : RefreshCalls) (terminal : Terminal)

/-- The pane has the information of the process it shows, and a mark only if that has ended. -/
def CoreSound (core : ProcessInfo × Bytes × Bool) : Prop :=
  core.1.id = core.2.1 ∧ (core.2.2 = true → ended core.2.1)

def Sound (s : DeskSession) : Prop :=
  ∀ core ∈ s.panes.map DeskPane.core, CoreSound ended core

/-- The managers answer with the process they are asked for. -/
def Named : Prop :=
  ∀ round id info, calls.answers round id = some info → info.id = id

/-- The panes there are when the one at a place could not be taken out: all of them, or all others
when it was a resize that failed. -/
def LeftBy (round i : ℕ) (s : DeskSession) (l : List DeskPane) : Prop :=
  l = s.panes ∧ ((paneLayoutRemove (i + 1) s.layout).2 = false ∨ s.panes.length ≤ 1) ∨
    l = s.panes.eraseIdx i ∧ 1 < s.panes.length ∧ (paneLayoutRemove (i + 1) s.layout).2 = true ∧
      (resizeAllPanes (calls.resizes round) terminal
        (withoutPane s (paneLayoutRemove (i + 1) s.layout).1 i)).2 = false

/-- The process of the pane is reported to have ended, the pane cannot be taken out, and the pane
that is at its place then shows another process or one that has not ended. -/
def SlipsAt (round i : ℕ) (s : DeskSession) : Prop :=
  ∃ s₁ pane updated l marked, connectPane calls round i s = some (s₁, pane) ∧
    calls.answers round pane.process.id = some updated ∧
    deskProcessHasEnded updated.state = true ∧ pane.endedNoticeShown = false ∧
    LeftBy calls terminal round i s₁ l ∧ l[i]? = some marked ∧
    ¬ (marked.shows = pane.process.id ∧ ended marked.shows)

/-- Some round of the loop slips. -/
def Slips : ℕ → ℕ → DeskSession → Prop
  | 0, _, _ => False
  | rounds + 1, i, s => i < s.panes.length ∧ (SlipsAt ended calls terminal rounds i s ∨
      Slips rounds (refreshRound calls terminal rounds i s).2
        (refreshRound calls terminal rounds i s).1)

end Slips

variable {ended : Bytes → Prop} {s s' : DeskSession} {i : ℕ}

/-- The panes before a place tell the same. -/
def SameBelow (i : ℕ) (s s' : DeskSession) : Prop :=
  ∀ k < i, (s'.panes[k]?).map DeskPane.core = (s.panes[k]?).map DeskPane.core

theorem SameBelow.trans {s'' : DeskSession} (h : SameBelow i s s') (h' : SameBelow i s' s'') :
    SameBelow i s s'' :=
  fun k hk => (h' k hk).trans (h k hk)

theorem sameBelow_setPane (s : DeskSession) (i : ℕ) (pane : DeskPane) :
    SameBelow i s (s.setPane i pane) := by
  intro k hk
  rw [DeskSession.setPane, getElem?_set_ne (by omega)]

theorem sameBelow_of_panes (h : s'.panes.map DeskPane.core = (s.panes.eraseIdx i).map DeskPane.core) :
    SameBelow i s s' := by
  intro k hk
  rw [← getElem?_map, h, getElem?_map, getElem?_eraseIdx_of_lt hk]

variable {calls : RefreshCalls} {round : ℕ} {pane : DeskPane} {terminal : Terminal}

theorem connectPane_some {s₁ : DeskSession} (h : connectPane calls round i s = some (s₁, pane)) :
    s₁.panes.map DeskPane.core = s.panes.map DeskPane.core ∧ s₁.panes[i]? = some pane := by
  unfold connectPane at h
  split at h
  · simp at h
  · rename_i pane₀ hpane
    split_ifs at h with hid hneeds hconnects
    · obtain ⟨rfl, rfl⟩ := Prod.mk.inj (Option.some.inj h)
      obtain ⟨hlt, hget⟩ := List.getElem?_eq_some_iff.mp hpane
      refine ⟨ext_getElem? fun k => ?_, ?_⟩
      · rw [DeskSession.setPane, getElem?_map, getElem?_map]
        by_cases hk : i = k
        · subst hk
          rw [getElem?_set_self hlt, hpane]
          rfl
        · rw [getElem?_set_ne hk]
      · simp [DeskSession.setPane, hlt]
    · obtain ⟨rfl, rfl⟩ := Prod.mk.inj (Option.some.inj h)
      exact ⟨rfl, hpane⟩

theorem sound_of_panes (h : s'.panes.map DeskPane.core = s.panes.map DeskPane.core) :
    Sound ended s' ↔ Sound ended s := by
  rw [Sound, h, Sound]

theorem Sound.setPane (h : Sound ended s) (hpane : CoreSound ended pane.core) :
    Sound ended (s.setPane i pane) := by
  intro core hcore
  rw [DeskSession.setPane, map_set] at hcore
  rcases mem_or_eq_of_mem_set hcore with hcore | rfl
  · exact h core hcore
  · exact hpane

theorem Sound.core (h : Sound ended s) (hpane : s.panes[i]? = some pane) :
    CoreSound ended pane.core :=
  h _ (mem_map_of_mem (mem_of_getElem? hpane))

/-- The mark that a failed removal leaves. -/
def markCore (updated : ProcessInfo) (core : ProcessInfo × Bytes × Bool) :
    ProcessInfo × Bytes × Bool :=
  (updated, core.2.1, true)

theorem map_core_modify (l : List DeskPane) (i : ℕ) (updated : ProcessInfo) :
    (l.modify i fun pane => { pane with process := updated, endedNoticeShown := true }).map
      DeskPane.core = (l.map DeskPane.core).modify i (markCore updated) := by
  refine ext_getElem? fun k => ?_
  simp only [getElem?_map, getElem?_modify]
  split_ifs
  · simp only [Option.map_eq_map, Option.map_map]
    rfl
  · simp

/-- What becomes of the panes when the process of one has ended: it is taken out, or the pane at its
place is marked, which is another one when the removal failed late. -/
theorem refreshEndedPane_cases (calls : RefreshCalls) (terminal : Terminal) (round : ℕ)
    (hpane : s.panes[i]? = some pane) (updated : ProcessInfo) :
    (refreshEndedPane calls terminal round i s pane updated).2 = i ∧
      (¬ ∃ l, LeftBy calls terminal round i s l) ∧
      (refreshEndedPane calls terminal round i s pane updated).1.panes.map DeskPane.core =
        (s.panes.eraseIdx i).map DeskPane.core ∨
    (refreshEndedPane calls terminal round i s pane updated).2 = i + 1 ∧
      ∃ l, LeftBy calls terminal round i s l ∧
        (refreshEndedPane calls terminal round i s pane updated).1.panes.map DeskPane.core =
          (l.map DeskPane.core).modify i (markCore updated) := by
  obtain ⟨hi, hget⟩ := List.getElem?_eq_some_iff.mp hpane
  unfold refreshEndedPane
  dsimp only
  generalize (if pane.process.friendlyName ≠ [] then pane.process.friendlyName
    else pane.process.id) = name
  by_cases hmany : 1 < s.panes.length
  · rw [if_pos hmany]
    obtain ⟨hnot, hfailed⟩ | ⟨s', hremoved, hsame, hresult⟩ :=
      deskRemovePaneAt_cases (calls.resizes round) terminal hi hmany
    · right
      rw [hfailed]
      exact ⟨rfl, s.panes, .inl ⟨rfl, .inl hnot⟩, map_core_modify _ _ _⟩
    · rw [hresult]
      cases hresized : (resizeAllPanes (calls.resizes round) terminal
          (withoutPane s (paneLayoutRemove (i + 1) s.layout).1 i)).2 with
      | true =>
        refine .inl ⟨rfl, ?_, hsame.panes⟩
        rintro ⟨l, ⟨-, hno | hno⟩ | ⟨-, -, -, hno⟩⟩
        · simp [hremoved] at hno
        · omega
        · simp [hresized] at hno
      | false =>
        right
        refine ⟨rfl, s.panes.eraseIdx i, .inr ⟨rfl, hmany, hremoved, hresized⟩, ?_⟩
        exact (map_core_modify _ _ _).trans (by rw [hsame.panes])
  · right
    rw [if_neg hmany]
    refine ⟨rfl, s.panes, .inl ⟨rfl, .inr (not_lt.mp hmany)⟩, ?_⟩
    refine ext_getElem? fun k => ?_
    rw [showProcessEndedNotice, DeskSession.setPane, getElem?_map]
    by_cases hk : i = k
    · subst hk
      rw [getElem?_set_self hi, getElem?_modify, getElem?_map, hpane]
      simp [markCore, DeskPane.core]
    · rw [getElem?_set_ne hk, getElem?_modify_ne _ _ hk, getElem?_map]

theorem sameBelow_refreshRound (calls : RefreshCalls) (terminal : Terminal) (round i : ℕ)
    (s : DeskSession) :
    i ≤ (refreshRound calls terminal round i s).2 ∧
      SameBelow i s (refreshRound calls terminal round i s).1 := by
  unfold refreshRound
  split
  · exact ⟨Nat.le_succ i, fun k _ => rfl⟩
  · rename_i s₁ pane hconnect
    obtain ⟨hpanes, hpane⟩ := connectPane_some hconnect
    have hsame : SameBelow i s s₁ := by
      intro k _
      rw [← getElem?_map, hpanes, getElem?_map]
    split
    · exact ⟨Nat.le_succ i, hsame⟩
    · split_ifs
      · refine ⟨Nat.le_succ i, ?_⟩
        unfold refreshLivePane
        split_ifs
        · exact hsame.trans (sameBelow_setPane _ _ _)
        · exact hsame.trans (sameBelow_setPane _ _ _)
      · exact ⟨Nat.le_succ i, hsame.trans (sameBelow_setPane _ _ _)⟩
      · rename_i updated _ _ _
        obtain ⟨hplace, -, hafter⟩ | ⟨hplace, l, hl, hafter⟩ :=
          refreshEndedPane_cases calls terminal round hpane updated
        · exact ⟨hplace.ge, hsame.trans (sameBelow_of_panes hafter)⟩
        · refine ⟨by omega, hsame.trans fun k hk => ?_⟩
          rw [← getElem?_map, hafter, getElem?_modify_ne _ _ (by omega),
            getElem?_map]
          rcases hl with ⟨rfl, -⟩ | ⟨rfl, -⟩
          · rfl
          · rw [getElem?_eraseIdx_of_lt hk]

theorem sameBelow_refreshRounds (calls : RefreshCalls) (terminal : Terminal) (rounds i k : ℕ)
    (s : DeskSession) (hk : k < i) :
    ((refreshRounds calls terminal rounds i s).panes[k]?).map DeskPane.core =
      (s.panes[k]?).map DeskPane.core := by
  induction rounds generalizing i s with
  | zero => rfl
  | succ rounds ih =>
    rw [refreshRounds]
    split_ifs
    · obtain ⟨hle, hsame⟩ := sameBelow_refreshRound calls terminal rounds i s
      rw [ih _ _ (by omega), hsame k hk]
    · rfl

theorem LeftBy.unique {l l' : List DeskPane} (h : LeftBy calls terminal round i s l)
    (h' : LeftBy calls terminal round i s l') : l = l' := by
  rcases h with ⟨rfl, hno⟩ | ⟨rfl, hmany, hremoved, -⟩ <;>
    rcases h' with ⟨rfl, hno'⟩ | ⟨rfl, hmany', hremoved', -⟩
  · rfl
  · rcases hno with hno | hno
    · simp [hremoved'] at hno
    · omega
  · rcases hno' with hno' | hno'
    · simp [hremoved] at hno'
    · omega
  · rfl

/-- A round that does not slip keeps every pane telling of its own process. -/
theorem sound_refreshRound (hcalls : Named calls) (h : Sound ended s)
    (hslip : ¬ SlipsAt ended calls terminal round i s) :
    Sound ended (refreshRound calls terminal round i s).1 := by
  unfold refreshRound
  split
  · exact h
  · rename_i s₁ pane hconnect
    obtain ⟨hpanes, hpane⟩ := connectPane_some hconnect
    have h₁ : Sound ended s₁ := (sound_of_panes hpanes).mpr h
    obtain ⟨hid, hmark⟩ : pane.process.id = pane.shows ∧
      (pane.endedNoticeShown = true → ended pane.shows) := h₁.core hpane
    split
    · exact h₁
    · rename_i updated hanswer
      have hupdated := hcalls round _ updated hanswer
      split_ifs with hlive hmarked
      · unfold refreshLivePane
        split_ifs
        · refine h₁.setPane ⟨rfl, fun hshown => ?_⟩
          show ended updated.id
          rw [hupdated, hid]
          exact hmark hshown
        · exact h₁.setPane ⟨hupdated.trans hid, hmark⟩
      · exact h₁.setPane ⟨hupdated.trans hid, hmark⟩
      · have hended : deskProcessHasEnded updated.state = true := by simpa using hlive
        have herased : ∀ core ∈ (s₁.panes.eraseIdx i).map DeskPane.core, CoreSound ended core :=
          fun core hcore => h₁ core ((eraseIdx_sublist _ _).map _ |>.subset hcore)
        obtain ⟨-, -, hafter⟩ | ⟨-, l, hl, hafter⟩ :=
          refreshEndedPane_cases calls terminal round hpane updated
        · intro core hcore
          rw [hafter] at hcore
          exact herased core hcore
        · -- The pane that is marked shows the process that has ended, as nothing slips.
          have hmarks : ∀ next, l[i]? = some next →
              next.shows = pane.process.id ∧ ended next.shows := by
            intro next hnext
            by_contra hne
            exact hslip ⟨s₁, pane, updated, l, next, hconnect, hanswer, hended,
              by simpa using hmarked, hl, hnext, hne⟩
          have hrest : ∀ core ∈ l.map DeskPane.core, CoreSound ended core := by
            rcases hl with ⟨rfl, -⟩ | ⟨rfl, -⟩
            · exact h₁
            · exact herased
          intro core hcore
          rw [hafter] at hcore
          obtain ⟨k, hk⟩ := mem_iff_getElem?.mp hcore
          by_cases hki : i = k
          · subst hki
            rw [getElem?_modify, getElem?_map] at hk
            cases hnext : l[i]? with
            | none => simp [hnext] at hk
            | some next =>
              obtain ⟨hshows, hover⟩ := hmarks next hnext
              obtain rfl : markCore updated next.core = core := by simpa [hnext] using hk
              exact ⟨hupdated.trans hshows.symm, fun _ => hover⟩
          · rw [getElem?_modify_ne _ _ hki] at hk
            exact hrest core (mem_of_getElem? hk)

/-- A round that slips leaves a pane with the information of another process or a wrong mark. -/
theorem not_coreSound_of_slipsAt (hcalls : Named calls)
    (hslip : SlipsAt ended calls terminal round i s) :
    (refreshRound calls terminal round i s).2 = i + 1 ∧
      ∃ core, ((refreshRound calls terminal round i s).1.panes[i]?).map DeskPane.core = some core ∧
        ¬ CoreSound ended core := by
  obtain ⟨s₁, pane, updated, l, next, hconnect, hanswer, hended, hmarked, hleft, hnext, hne⟩ := hslip
  obtain ⟨-, hpane⟩ := connectPane_some hconnect
  have hround : refreshRound calls terminal round i s =
      refreshEndedPane calls terminal round i s₁ pane updated := by
    unfold refreshRound
    rw [hconnect]
    dsimp only
    rw [hanswer]
    simp [hended, hmarked]
  rw [hround]
  obtain ⟨-, hnot, -⟩ | ⟨hplace, l', hleft', hafter⟩ :=
    refreshEndedPane_cases calls terminal round hpane updated
  · exact absurd ⟨l, hleft⟩ hnot
  · obtain rfl := hleft.unique hleft'
    refine ⟨hplace, markCore updated next.core, ?_, fun hsound => hne ?_⟩
    · rw [← getElem?_map, hafter, getElem?_modify, getElem?_map, hnext]
      simp
    · have hsame : updated.id = next.shows := hsound.1
      exact ⟨hsame.symm.trans (hcalls round _ updated hanswer), hsound.2 rfl⟩

/-- The loop keeps every pane telling of its own process exactly when no round slips. -/
theorem sound_refreshRounds (hcalls : Named calls) (terminal : Terminal) (rounds i : ℕ)
    {s : DeskSession} (h : Sound ended s) :
    Sound ended (refreshRounds calls terminal rounds i s) ↔ ¬ Slips ended calls terminal rounds i s := by
  induction rounds generalizing i s with
  | zero => simp [refreshRounds, Slips, h]
  | succ rounds ih =>
    rw [refreshRounds, Slips]
    by_cases hi : i < s.panes.length
    · rw [if_pos hi]
      by_cases hslip : SlipsAt ended calls terminal rounds i s
      · -- The pane that slipped stays at its place to the end.
        obtain ⟨hplace, core, hcore, hunsound⟩ := not_coreSound_of_slipsAt hcalls hslip
        refine iff_of_false (fun hsound => hunsound ?_) (fun hnot => hnot ⟨hi, .inl hslip⟩)
        have hkept := sameBelow_refreshRounds calls terminal rounds
          (refreshRound calls terminal rounds i s).2 i (refreshRound calls terminal rounds i s).1
          (by omega)
        rw [hcore, ← getElem?_map] at hkept
        exact hsound core (mem_of_getElem? hkept)
      · rw [ih _ (sound_refreshRound hcalls h hslip)]
        simp [hi, hslip]
    · rw [if_neg hi]
      simp [hi, h]

theorem sound_fourCubes (active previous : ℕ) : Sound ended (fourCubes active previous) := by
  intro core hcore
  simp only [fourCubes, map_cons, map_nil, mem_cons, not_mem_nil, or_false]
    at hcore
  rcases hcore with rfl | rfl | rfl | rfl <;> exact ⟨rfl, by simp [DeskPane.core]⟩

/-- Cube 1 has ended, and the first pane cannot be resized. -/
def firstEnded : RefreshCalls where
  now := 0
  connects := fun _ => true
  answers := fun _ id =>
    some ⟨id, [], id, if id = dec 1 then .completed else .running⟩
  attaches := fun _ => true
  resizes := fun _ i => if i = 0 then .refused else .resized

theorem named_firstEnded : Named firstEnded := by
  rintro round id info hanswer
  rw [← Option.some.inj hanswer]

/-- Cube 1 has ended, and every pane can be resized. -/
def firstRemoved : RefreshCalls := { firstEnded with resizes := fun _ _ => .resized }

end Cubicle.DeskRemovals

import Cubicle.ControllerLoop

/-!
# Three records of the terminal size

The size of a terminal is kept in the window of the child's PTY, in the recorded size and in the
terminal model. A resize, by either kind of request or by the local terminal, changes them one
after the other.
-/

namespace Cubicle.Controller
open ByteText CStrings JsonText JsonEncoding RpcEnvelope

/-- The three sizes; the size of the PTY is the one that was set last. -/
@[ext] structure Sizes where
  pty : Option (ℕ × ℕ)
  recorded : Option TerminalSize
  model : Option (ℕ × ℕ)

def Shared.sizes (s : Shared) : Sizes where
  pty := s.windowSizes.getLast?
  recorded := s.size
  model := s.terminal.map fun t => (t.rows, t.cols)

/-- A size that is marked known is the size of all three. -/
def Sizes.Agree (z : Sizes) : Prop :=
  ∀ size, z.recorded = some size → size.known = true →
    z.pty = some (size.rows, size.columns) ∧ ∀ m, z.model = some m → m = (size.rows, size.columns)

/-- All three have one size, which is known. -/
structure Sizes.Set (z : Sizes) (rows columns : ℕ) : Prop where
  pty : z.pty = some (rows, columns)
  recorded : ∀ size, z.recorded = some size → size = ⟨rows, columns, true⟩
  model : ∀ m, z.model = some m → m = (rows, columns)

variable {rows columns : ℕ} {s s₁ s₂ : Shared} {p : Process}

theorem Sizes.Set.agree {z : Sizes} (h : z.Set rows columns) : z.Agree := by
  intro size hsize hknown
  obtain rfl := h.recorded size hsize
  exact ⟨h.pty, h.model⟩

/-- `sync_local_terminal_window_size`: the size of the local terminal, if it has one. -/
def syncLocalWindowSize (p : Process) (s : Shared) (rows columns : ℕ) : Shared × Option Int32 :=
  if p.resizable = false then (s, none)
  else if sizeUnchanged s rows columns then
    s.tryTerminalDebug (ascii "type=debug category=terminal event=local_resize action=skipped" ++
      sizeText rows columns ++ ascii " reason=unchanged")
  else match setWindowSizes p s rows columns with
    | (s, some errno) => (s, some errno)
    | (s, none) =>
      if s.size.isSome then
        let s := { s with size := s.size.map fun _ => ⟨rows, columns, true⟩ }
        match resizeTerminalModel s rows columns with
        | (s, some errno) => (s, some errno)
        | (s, none) => s.tryTerminalDebug
            (ascii "type=debug category=terminal event=local_resize action=applied" ++
              sizeText rows columns)
      else (s, none)

@[simp] theorem sizes_event (s : Shared) (event : Bytes) : (s.event event).sizes = s.sizes := rfl

@[simp] theorem sizes_tryEvent (s : Shared) (event : Bytes) :
    (s.tryEvent event).1.sizes = s.sizes := rfl

@[simp] theorem sizes_tryTerminalDebug (s : Shared) (event : Bytes) :
    (s.tryTerminalDebug event).1.sizes = s.sizes := rfl

theorem sizes_reportResize (s : Shared) (event debugEvent : Bytes) :
    (reportResize s event debugEvent).1.sizes = s.sizes := by
  unfold reportResize
  cases h : s.tryEvent event with
  | mk s' error =>
    have hs : s'.sizes = s.sizes := by
      rw [← sizes_tryEvent s event, h]
    cases error with
    | some errno => exact hs
    | none => rw [sizes_tryTerminalDebug, hs]

/-- The second PTY does not refuse a size that the first one took. -/
def PtysAgree (p : Process) (s : Shared) : Prop :=
  p.stderrResizable = true → (nextAnswer s.system.ioctls).1 = none →
    (nextAnswer (nextAnswer s.system.ioctls).2).1 = none

/-- The window has the new size, and nothing else has changed. -/
structure WindowSet (s s' : Shared) (rows columns : ℕ) : Prop where
  sizes : s'.sizes = { s.sizes with pty := some (rows, columns) }
  journal : s'.journal = s.journal
  size : s'.size = s.size
  terminal : s'.terminal = s.terminal

theorem WindowSet.trans (h : WindowSet s s₁ rows columns) (h' : WindowSet s₁ s₂ rows columns) :
    WindowSet s s₂ rows columns :=
  ⟨by rw [h'.sizes, h.sizes], h'.journal.trans h.journal, h'.size.trans h.size,
    h'.terminal.trans h.terminal⟩

theorem setWindowSize_cases (s : Shared) (rows columns : ℕ) :
    (∃ s', (nextAnswer s.system.ioctls).1 = none ∧ setWindowSize s rows columns = (s', none) ∧
        WindowSet s s' rows columns ∧ s'.system.ioctls = (nextAnswer s.system.ioctls).2) ∨
      ∃ s' errno, (nextAnswer s.system.ioctls).1 = some errno ∧
        setWindowSize s rows columns = (s', some errno) ∧ s'.sizes = s.sizes := by
  cases h : (nextAnswer s.system.ioctls).1 with
  | none =>
    refine .inl ⟨{ s with
      system := { s.system with ioctls := (nextAnswer s.system.ioctls).2 }
      windowSizes := s.windowSizes ++ [(rows, columns)] }, rfl, ?_, ⟨?_, rfl, rfl, rfl⟩, rfl⟩
    · simp only [setWindowSize, h]
    · simp [Shared.sizes]
  | some errno =>
    refine .inr ⟨{ s with system := { s.system with ioctls := (nextAnswer s.system.ioctls).2 } },
      errno, rfl, ?_, rfl⟩
    simp only [setWindowSize, h]

theorem setWindowSizes_cases (p : Process) (s : Shared) (rows columns : ℕ) :
    (∃ s', setWindowSizes p s rows columns = (s', none) ∧ WindowSet s s' rows columns) ∨
      ∃ s' errno, setWindowSizes p s rows columns = (s', some errno) ∧
        (PtysAgree p s → s'.sizes = s.sizes) := by
  rcases setWindowSize_cases s rows columns with
    ⟨s₁, hanswer, hfirst, hwindow, hioctls⟩ | ⟨s₁, errno, -, hfirst, hsame⟩
  · cases hstderr : p.stderrResizable with
    | false => exact .inl ⟨s₁, by simp [setWindowSizes, hfirst, hstderr], hwindow⟩
    | true =>
      rcases setWindowSize_cases s₁ rows columns with
        ⟨s₂, -, hsecond, hwindow₂, -⟩ | ⟨s₂, errno, hrefused, hsecond, -⟩
      · exact .inl ⟨s₂, by simp [setWindowSizes, hfirst, hstderr, hsecond],
          hwindow.trans hwindow₂⟩
      · refine .inr ⟨s₂, errno, by simp [setWindowSizes, hfirst, hstderr, hsecond], ?_⟩
        intro hptys
        rw [hioctls, hptys hstderr hanswer] at hrefused
        simp at hrefused
  · exact .inr ⟨s₁, errno, by simp [setWindowSizes, hfirst], fun _ => hsame⟩

def ModelTakes (s : Shared) (rows columns : ℕ) : Prop :=
  s.terminal.isSome = true → (0 < rows ∧ rows ≤ 1000) ∧ 0 < columns ∧ columns ≤ 1000

/-- The terminal model, if there is one, has the new size. -/
structure ModelSet (s s' : Shared) (rows columns : ℕ) : Prop where
  windowSizes : s'.windowSizes = s.windowSizes
  size : s'.size = s.size
  journal : s'.journal = s.journal
  model : ∀ m, s'.sizes.model = some m → m = (rows, columns)

theorem resizeTerminalModel_cases (s : Shared) (rows columns : ℕ) :
    (∃ s', resizeTerminalModel s rows columns = (s', none) ∧ ModelSet s s' rows columns) ∨
      ¬ ModelTakes s rows columns ∧ resizeTerminalModel s rows columns = (s, some EINVAL) := by
  unfold resizeTerminalModel ModelTakes
  cases hterminal : s.terminal with
  | none =>
    refine .inl ⟨s, rfl, rfl, rfl, rfl, ?_⟩
    intro m hm
    simp [Shared.sizes, hterminal] at hm
  | some terminal =>
    dsimp only
    by_cases hsize : 0 < rows ∧ rows ≤ 1000 ∧ 0 < columns ∧ columns ≤ 1000
    · rw [dif_pos hsize]
      refine .inl ⟨_, rfl, rfl, rfl, rfl, ?_⟩
      intro m hm
      simpa [Shared.sizes] using hm.symm
    · rw [dif_neg hsize]
      refine .inr ⟨?_, rfl⟩
      intro htakes
      have := htakes rfl
      omega

/-- The two requests: a `resize` line with the numbers read from it, and `controller.resize`. -/
inductive ResizeRequest
  | line (c : ControlClient) (arguments : Option (ℕ × ℕ))
  | api (params : Members)

/-- The state after a line, and whether it was answered with an error. -/
def lineAnswer (c : ControlClient) (h : Handled) : Shared × Bool :=
  (h.shared, (ascii "error ").isPrefixOf (h.client.response.drop c.response.length))

def apiAnswer : Shared × Reply → Shared × Bool
  | (s, .success _) => (s, false)
  | (s, .failure _ _ _ _) => (s, true)

def ResizeRequest.handle (p : Process) (s : Shared) : ResizeRequest → Shared × Bool
  | .line c arguments => lineAnswer c ((LineCommand.resize arguments).handle p c s)
  | .api params => apiAnswer (controllerResize p s params)

/-- The numbers a request asks for, where it gets as far as changing anything. -/
def ResizeRequest.asked (p : Process) : ResizeRequest → Option (ℕ × ℕ)
  | .line _ arguments =>
    if p.completed = false ∧ p.resizable = true then
      arguments.filter fun size => 0 < size.1 && 0 < size.2
    else none
  | .api params =>
    if p.completed = false ∧ p.resizable = true then
      match getU64 params (ascii "rows"), getU64 params (ascii "columns") with
      | some rows, some columns =>
        if validDimension rows && validDimension columns then some (rows, columns) else none
      | _, _ => none
    else none

/-- The event lines that report a resize through the API can be written. -/
def ResizeReported (s : Shared) (rows columns : ℕ) : Prop :=
  ∀ s' : Shared, s'.journal = s.journal →
    (reportResize s' (ascii "type=terminal_resized" ++ sizeText rows columns)
      (ascii "type=debug category=terminal event=api_resize action=applied" ++
        sizeText rows columns)).2 = none

/-- A resize to another size is one that the terminal model takes, that the PTYs agree on and,
through the API, that can be reported. -/
def ResizeRequest.Meets (p : Process) (s : Shared) (r : ResizeRequest) : Prop :=
  ∀ rows columns, r.asked p = some (rows, columns) →
    sizeUnchanged s (rows % 2 ^ 16) (columns % 2 ^ 16) = false →
      (rows ≤ 1000 ∧ columns ≤ 1000) ∧ PtysAgree p s ∧
        match r with
        | .line _ _ => True
        | .api _ => ResizeReported s rows columns

/-- Either all three sizes are as before, or all are the new one and no error was answered. -/
def Resized (s : Shared) (result : Shared × Bool) : Prop :=
  result.1.sizes = s.sizes ∨ (∃ rows columns, result.1.sizes.Set rows columns) ∧ result.2 = false

theorem WindowSet.set (hwindow : WindowSet s s₁ rows columns) (hmodel :
    ModelSet s₁ s₂ rows columns) :
    ({ s₂ with size := s₂.size.map fun _ => ⟨rows, columns, true⟩ } : Shared).sizes.Set
      rows columns := by
  refine ⟨?_, ?_, hmodel.model⟩
  · have hpty := congrArg Sizes.pty hwindow.sizes
    simpa [Shared.sizes, hmodel.windowSizes] using hpty
  · intro size hrecorded
    obtain ⟨-, -, heq⟩ := Option.map_eq_some_iff.mp hrecorded
    exact heq.symm

theorem set_sizes (hptys : PtysAgree p s) (htakes : ModelTakes s rows columns) :
    (∃ s' errno, setWindowSizes p s rows columns = (s', some errno) ∧ s'.sizes = s.sizes) ∨
      ∃ s₁ s₂, setWindowSizes p s rows columns = (s₁, none) ∧
        resizeTerminalModel s₁ rows columns = (s₂, none) ∧ s₂.journal = s.journal ∧
        ({ s₂ with size := s₂.size.map fun _ => ⟨rows, columns, true⟩ } : Shared).sizes.Set
          rows columns := by
  rcases setWindowSizes_cases p s rows columns with ⟨s₁, hset, hwindow⟩ | ⟨s', errno, hset, hsame⟩
  · rcases resizeTerminalModel_cases s₁ rows columns with ⟨s₂, hresized, hmodel⟩ | ⟨hnot, -⟩
    · exact .inr ⟨s₁, s₂, hset, hresized, hmodel.journal.trans hwindow.journal, hwindow.set hmodel⟩
    · unfold ModelTakes at hnot
      rw [hwindow.terminal] at hnot
      exact absurd htakes hnot
  · exact .inl ⟨s', errno, hset, hsame hptys⟩

theorem enqueueResponse_drop (c : ControlClient) (data : Bytes) :
    (enqueueResponse c data).1.response.drop c.response.length = data ∨
      (enqueueResponse c data).1.response.drop c.response.length = [] := by
  unfold enqueueResponse
  split_ifs
  · simp
  · simp

theorem respond_ok_not_error (c : ControlClient) (s : Shared) :
    (ascii "error ").isPrefixOf
      ((respond c s (ascii "ok\n")).client.response.drop c.response.length) = false := by
  have hdrop := enqueueResponse_drop { c with kind := .responding } (ascii "ok\n")
  have hresponse : (respond c s (ascii "ok\n")).client =
      (enqueueResponse { c with kind := .responding } (ascii "ok\n")).1 := rfl
  rw [hresponse]
  rcases hdrop with h | h
  · rw [show c.response = ({ c with kind := .responding } : ControlClient).response from rfl, h]
    decide
  · rw [show c.response = ({ c with kind := .responding } : ControlClient).response from rfl, h]
    decide

theorem resized_resizeLine (c : ControlClient)
    (h : 0 < rows → 0 < columns → sizeUnchanged s (rows % 2 ^ 16) (columns % 2 ^ 16) = false →
      (rows ≤ 1000 ∧ columns ≤ 1000) ∧ PtysAgree p s) :
    Resized s (lineAnswer c (resizeLine p c s rows columns)) := by
  rw [resizeLine]
  by_cases hzero : rows = 0 ∨ columns = 0
  · rw [if_pos hzero]
    exact .inl rfl
  rw [if_neg hzero]
  by_cases hunchanged : sizeUnchanged s (rows % 2 ^ 16) (columns % 2 ^ 16) = true
  · rw [if_pos hunchanged]
    exact .inl rfl
  rw [if_neg hunchanged]
  have hpositive : 0 < rows ∧ 0 < columns := by omega
  obtain ⟨⟨hrows, hcolumns⟩, hptys⟩ := h hpositive.1 hpositive.2 (by simpa using hunchanged)
  rw [Nat.mod_eq_of_lt (show rows < 2 ^ 16 by omega),
    Nat.mod_eq_of_lt (show columns < 2 ^ 16 by omega)]
  rcases set_sizes hptys (fun _ => ⟨⟨hpositive.1, hrows⟩, hpositive.2, hcolumns⟩) with
    ⟨s', errno, hset, hsizes⟩ | ⟨s₁, s₂, hset, hmodel, -, hdone⟩
  · rw [hset]
    exact .inl hsizes
  · rw [hset]
    dsimp only
    rw [hmodel]
    exact .inr ⟨⟨rows, columns, hdone⟩, respond_ok_not_error _ _⟩

theorem resized_line {c : ControlClient} {arguments : Option (ℕ × ℕ)}
    (h : (ResizeRequest.line c arguments).Meets p s) :
    Resized s ((ResizeRequest.line c arguments).handle p s) := by
  unfold ResizeRequest.Meets ResizeRequest.asked at h
  unfold ResizeRequest.handle LineCommand.handle
  dsimp only at h ⊢
  by_cases hcompleted : p.completed = true
  · rw [if_pos hcompleted]
    exact .inl rfl
  rw [if_neg hcompleted]
  by_cases hresizable : p.resizable = true
  · rw [if_pos hresizable]
    rw [if_pos ⟨by simpa using hcompleted, hresizable⟩] at h
    cases arguments with
    | none => exact .inl rfl
    | some size =>
      obtain ⟨rows, columns⟩ := size
      apply resized_resizeLine
      intro hrows hcolumns hchanged
      obtain ⟨hsmall, hptys, -⟩ := h rows columns (by simp [hrows, hcolumns]) hchanged
      exact ⟨hsmall, hptys⟩
  · rw [if_neg hresizable]
    exact .inl rfl

theorem resized_applyResize (hrows : 0 < rows) (hcolumns : 0 < columns)
    (h : sizeUnchanged s rows columns = false → (rows ≤ 1000 ∧ columns ≤ 1000) ∧ PtysAgree p s ∧
      ResizeReported s rows columns) :
    Resized s ((applyResize p s rows columns).1, (applyResize p s rows columns).2.isSome) := by
  rw [applyResize]
  by_cases hunchanged : sizeUnchanged s rows columns = true
  · rw [if_pos hunchanged]
    exact .inl (sizes_reportResize _ _ _)
  rw [if_neg hunchanged]
  obtain ⟨⟨hr, hc⟩, hptys, hreported⟩ := h (by simpa using hunchanged)
  rcases set_sizes hptys (fun _ => ⟨⟨hrows, hr⟩, hcolumns, hc⟩) with
    ⟨s', errno, hset, hsizes⟩ | ⟨s₁, s₂, hset, hmodel, hjournal, hdone⟩
  · rw [hset]
    exact .inl hsizes
  · rw [hset]
    dsimp only
    rw [hmodel]
    dsimp only
    rw [hreported { s₂ with size := s₂.size.map fun _ => ⟨rows, columns, true⟩ } hjournal]
    refine .inr ⟨⟨rows, columns, ?_⟩, rfl⟩
    rw [sizes_reportResize]
    exact hdone

theorem resized_api {params : Members} (h : (ResizeRequest.api params).Meets p s) :
    Resized s ((ResizeRequest.api params).handle p s) := by
  unfold ResizeRequest.Meets ResizeRequest.asked at h
  unfold ResizeRequest.handle controllerResize
  dsimp only at h ⊢
  by_cases hcompleted : p.completed = true
  · rw [if_pos hcompleted]
    exact .inl rfl
  rw [if_neg hcompleted]
  cases hresizable : p.resizable with
  | false => exact .inl rfl
  | true =>
    rw [if_pos ⟨by simpa using hcompleted, hresizable⟩] at h
    cases hrows : getU64 params (ascii "rows") with
    | none => exact .inl rfl
    | some rows =>
      cases hcolumns : getU64 params (ascii "columns") with
      | none => exact .inl rfl
      | some columns =>
        simp only [hrows, hcolumns] at h
        dsimp only
        by_cases hvalid : (validDimension rows && validDimension columns) = true
        · rw [if_pos hvalid] at h ⊢
          have hbounds := hvalid
          simp only [validDimension, Bool.and_eq_true, decide_eq_true_eq] at hbounds
          obtain ⟨⟨hrow, hrow'⟩, hcolumn, hcolumn'⟩ := hbounds
          have h := h rows columns rfl
          rw [Nat.mod_eq_of_lt (show rows < 2 ^ 16 by omega),
            Nat.mod_eq_of_lt (show columns < 2 ^ 16 by omega)] at h
          have hresized := resized_applyResize hrow hcolumn h
          generalize applyResize p s rows columns = applied at hresized ⊢
          obtain ⟨s', error⟩ := applied
          cases error with
          | none => exact hresized
          | some errno => exact hresized
        · rw [if_neg hvalid]
          exact .inl rfl

theorem ResizeRequest.Meets.resized {r : ResizeRequest} (h : r.Meets p s) :
    Resized s (r.handle p s) := by
  cases r with
  | line c arguments => exact resized_line h
  | api params => exact resized_api h

/-- States reached by resizes, by the local terminal as long as it causes no failure, and by
whatever leaves the sizes alone. -/
inductive ResizeRun (p : Process) (start : Shared) : Shared → Prop
  | start : ResizeRun p start start
  | request {s : Shared} (h : ResizeRun p start s) (r : ResizeRequest) (hmeets : r.Meets p s) :
      ResizeRun p start (r.handle p s).1
  | localTerminal {s s' : Shared} (h : ResizeRun p start s) (rows columns : ℕ)
      (hok : syncLocalWindowSize p s rows columns = (s', none)) : ResizeRun p start s'
  | other {s s' : Shared} (h : ResizeRun p start s) (hsame : s'.sizes = s.sizes) :
      ResizeRun p start s'

theorem Resized.agree {result : Shared × Bool} (h : Resized s result) (hagree : s.sizes.Agree) :
    result.1.sizes.Agree := by
  rcases h with hsame | ⟨⟨rows, columns, hset⟩, -⟩
  · rw [hsame]
    exact hagree
  · exact hset.agree

theorem agree_syncLocalWindowSize {s' : Shared}
    (h : syncLocalWindowSize p s rows columns = (s', none)) (hagree : s.sizes.Agree) :
    s'.sizes.Agree := by
  unfold syncLocalWindowSize at h
  by_cases hresizable : p.resizable = false
  · rw [if_pos hresizable] at h
    obtain ⟨rfl, -⟩ := Prod.mk.inj h
    exact hagree
  rw [if_neg hresizable] at h
  by_cases hunchanged : sizeUnchanged s rows columns = true
  · rw [if_pos hunchanged] at h
    have hs : _ = s' := congrArg Prod.fst h
    rw [← hs, sizes_tryTerminalDebug]
    exact hagree
  rw [if_neg hunchanged] at h
  rcases setWindowSizes_cases p s rows columns with ⟨s₁, hset, hwindow⟩ | ⟨s₁, errno, hset, -⟩
  · rw [hset] at h
    dsimp only at h
    by_cases hsize : s₁.size.isSome = true
    · rw [if_pos hsize] at h
      rcases resizeTerminalModel_cases
          { s₁ with size := s₁.size.map fun _ => ⟨rows, columns, true⟩ } rows columns with
        ⟨s₂, hresized, hmodel⟩ | ⟨-, hfailed⟩
      · rw [hresized] at h
        have hs : _ = s' := congrArg Prod.fst h
        rw [← hs, sizes_tryTerminalDebug]
        refine (show s₂.sizes.Set rows columns from ⟨?_, ?_, hmodel.model⟩).agree
        · have hpty := congrArg Sizes.pty hwindow.sizes
          simpa [Shared.sizes, hmodel.windowSizes] using hpty
        · intro size hrecorded
          change s₂.size = some size at hrecorded
          rw [hmodel.size] at hrecorded
          obtain ⟨-, -, heq⟩ := Option.map_eq_some_iff.mp hrecorded
          exact heq.symm
      · rw [hfailed] at h
        simp at h
    · rw [if_neg hsize] at h
      obtain ⟨rfl, -⟩ := Prod.mk.inj h
      intro size hrecorded
      have hnone : s₁.size = none := by simpa using hsize
      change s₁.size = some size at hrecorded
      simp [hnone] at hrecorded
  · rw [hset] at h
    simp at h

/-- Along every run the sizes agree, and a resize that is answered with an error leaves them as
they are. -/
theorem sizes_agree {p : Process} {start s : Shared} (hstart : start.sizes.Agree)
    (h : ResizeRun p start s) :
    s.sizes.Agree ∧ ∀ r : ResizeRequest, r.Meets p s → (r.handle p s).2 = true →
      (r.handle p s).1.sizes = s.sizes := by
  constructor
  · induction h with
    | start => exact hstart
    | request _ r hmeets ih => exact hmeets.resized.agree ih
    | localTerminal _ rows columns hok ih => exact agree_syncLocalWindowSize hok ih
    | other _ hsame ih =>
      rw [hsame]
      exact ih
  · intro r hmeets herror
    rcases hmeets.resized with hsame | ⟨-, hfine⟩
    · exact hsame
    · rw [hfine] at herror
      simp at herror

/-- A terminal of 24 rows and 80 columns whose size is known. -/
def Shared.sized : Shared :=
  { Shared.started with
    windowSizes := [(24, 80)]
    size := some ⟨24, 80, true⟩
    terminal := some ⟨⟨0, 0, true, false, fun _ _ => none, by decide⟩, 24, 80, by decide⟩ }

def Process.onPty : Process := { Process.started 1 with resizable := true }

/-- A request for 30 rows and 100 columns changes all three. -/
theorem resized_thirty :
    ((ResizeRequest.line (.accepted 0) (some (30, 100))).handle .onPty .sized).1.sizes =
        ⟨some (30, 100), some ⟨30, 100, true⟩, some (30, 100)⟩ ∧
      ((ResizeRequest.line (.accepted 0) (some (30, 100))).handle .onPty .sized).1.sizes.Agree := by
  have hmeets : (ResizeRequest.line (.accepted 0) (some (30, 100))).Meets .onPty .sized := by
    intro rows columns hasked _
    simp only [ResizeRequest.asked, Process.onPty, Process.started, Option.filter_some] at hasked
    obtain ⟨rfl, rfl⟩ : 30 = rows ∧ 100 = columns := by simpa using hasked
    exact ⟨by decide, fun h => by simp [Process.onPty, Process.started] at h, trivial⟩
  have hstart : Shared.sized.sizes.Agree := by
    intro size hsize _
    obtain rfl : (⟨24, 80, true⟩ : TerminalSize) = size := by
      simpa [Shared.sized, Shared.sizes] using hsize
    exact ⟨rfl, by simp [Shared.sized, Shared.sizes]⟩
  exact ⟨rfl, (sizes_agree hstart (.request .start _ hmeets)).1⟩

/-- A request for 2000 rows is answered with an error, and the PTY has them. -/
theorem resized_two_thousand :
    ((ResizeRequest.line (.accepted 0) (some (2000, 80))).handle .onPty .sized).2 = true ∧
      ((ResizeRequest.line (.accepted 0) (some (2000, 80))).handle .onPty .sized).1.sizes =
        ⟨some (2000, 80), some ⟨24, 80, true⟩, some (24, 80)⟩ := by
  exact ⟨by decide, rfl⟩

end Cubicle.Controller

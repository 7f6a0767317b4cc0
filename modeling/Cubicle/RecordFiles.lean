import Cubicle.CStrings

/-!
# Files of records

A text file that holds one record in each line, read with `fgets` through a buffer of fixed size and
written by appending a line or by writing out all records anew. A lawful format reads every record
back that it prints, in one line that fits the buffer.
-/

namespace Cubicle.RecordFiles
open ByteText CStrings List

/-- Empty, or ended by a newline. -/
def Terminated (file : Bytes) : Prop := file = [] ∨ file.getLast? = some 0x0a

instance (file : Bytes) : Decidable (Terminated file) := inferInstanceAs (Decidable (_ ∨ _))

/-- One line: a text without newline and NUL, and a newline. -/
def IsLine (line : Bytes) : Prop := ∃ body, line = body ++ [0x0a] ∧ 0x0a ∉ body ∧ 0 ∉ body

variable {line : Bytes}

theorem IsLine.terminated (h : IsLine line) : Terminated line := by
  obtain ⟨body, rfl, -⟩ := h
  exact .inr (by simp)

theorem IsLine.zero_notMem (h : IsLine line) : 0 ∉ line := by
  obtain ⟨body, rfl, -, h0⟩ := h
  simp [h0]

variable {file rest s t f : Bytes} {size : ℕ}

theorem terminated_append (hfile : Terminated file) (hrest : Terminated rest) :
    Terminated (file ++ rest) := by
  rcases hrest with rfl | hrest
  · simpa using hfile
  · exact .inr (by simp [getLast?_append, hrest])

theorem terminated_drop (h : Terminated file) (n : ℕ) : Terminated (file.drop n) := by
  rcases h with rfl | h
  · exact .inl (by simp)
  · by_cases hn : n < file.length
    · refine .inr ?_
      rw [getLast?_drop, if_neg (by omega), h]
    · exact .inl (drop_of_length_le (by omega))

theorem takeWhile_append_of_mem (h : 0x0a ∈ file) :
    (file ++ rest).takeWhile (· ≠ 0x0a) = file.takeWhile (· ≠ 0x0a) := by
  obtain ⟨before, after, rfl, hbefore⟩ := eq_append_cons_of_mem h
  rw [append_assoc, cons_append]
  exact (cutNewline_append hbefore _).trans (cutNewline_append hbefore _).symm

theorem takeWhile_newline_isPrefix (h : 0x0a ∈ file) :
    file.takeWhile (· ≠ 0x0a) ++ [0x0a] <+: file := by
  obtain ⟨before, after, rfl, hbefore⟩ := eq_append_cons_of_mem h
  have hcut : (before ++ 0x0a :: after).takeWhile (· ≠ 0x0a) = before :=
    cutNewline_append hbefore after
  rw [hcut]
  exact ⟨after, by simp⟩

theorem takeWhile_length_lt (h : 0x0a ∈ file) :
    (file.takeWhile (· ≠ 0x0a)).length < file.length := by
  simpa using (takeWhile_newline_isPrefix h).length_le

/-- A read that finds a newline does not look behind it. -/
theorem fgetsLine_append (h : 0x0a ∈ file) :
    fgetsLine size (file ++ rest) = fgetsLine size file := by
  have hlt := takeWhile_length_lt h
  unfold fgetsLine
  rw [takeWhile_append_of_mem h]
  dsimp only
  by_cases hsize : (file.takeWhile (· ≠ 0x0a)).length < size - 1
  · rw [if_pos ⟨by rw [length_append]; omega, hsize⟩, if_pos ⟨hlt, hsize⟩]
  · rw [if_neg fun hc => hsize hc.2, if_neg fun hc => hsize hc.2]

theorem fgetsLine_length_le (size : ℕ) (file : Bytes) :
    (fgetsLine size file).length ≤ file.length := by
  have hle : (file.takeWhile (· ≠ 0x0a)).length ≤ file.length := (List.takeWhile_prefix _).length_le
  unfold fgetsLine
  dsimp only
  split_ifs with hc
  · rw [length_append, length_singleton]
    omega
  · rw [length_take]
    omega

theorem fgetsLine_length_lt (hsize : 1 < size) (file : Bytes) :
    (fgetsLine size file).length < size := by
  unfold fgetsLine
  dsimp only
  split_ifs with hc
  · rw [length_append, length_singleton]
    omega
  · rw [length_take]
    omega

theorem fgetsLine_ne_nil (hsize : 1 < size) (h : file ≠ []) : fgetsLine size file ≠ [] := by
  unfold fgetsLine
  dsimp only
  split_ifs with hc
  · simp
  · cases file with
    | nil => exact absurd rfl h
    | cons b t =>
      by_cases hb : b = 0x0a
      · exact absurd ⟨by simp [hb], by simp [hb]; omega⟩ hc
      · obtain ⟨k, hk⟩ : ∃ k, size - 1 = k + 1 := ⟨size - 2, by omega⟩
        simp [hb, hk]

theorem fgetsFrom_eq (hsize : 1 < size) {fuel : ℕ} (h : file.length ≤ fuel) :
    fgetsFrom size fuel file = fgetsFrom size file.length file := by
  induction fuel using Nat.strong_induction_on generalizing file with
  | _ fuel ih =>
    cases file with
    | nil => cases fuel <;> simp [fgetsFrom]
    | cons b t =>
      obtain ⟨k, rfl⟩ : ∃ k, fuel = k + 1 := ⟨fuel - 1, by simp at h; omega⟩
      have hpos : 0 < (fgetsLine size (b :: t)).length :=
        length_pos_of_ne_nil (fgetsLine_ne_nil hsize (by simp))
      have hdrop : ((b :: t).drop (fgetsLine size (b :: t)).length).length ≤ t.length := by
        rw [length_drop, length_cons]
        omega
      simp only [length_cons] at h ⊢
      rw [fgetsFrom, fgetsFrom, ih k (by omega) (by omega)]
      by_cases hk : t.length < k + 1
      · rw [ih t.length hk hdrop]
      · omega

theorem fgetsLines_cons (hsize : 1 < size) (h : file ≠ []) :
    fgetsLines size file = cstr (fgetsLine size file) ::
      fgetsLines size (file.drop (fgetsLine size file).length) := by
  obtain ⟨k, hk⟩ : ∃ k, file.length = k + 1 :=
    ⟨file.length - 1, by have := length_pos_of_ne_nil h; omega⟩
  have hpos : 0 < (fgetsLine size file).length :=
    length_pos_of_ne_nil (fgetsLine_ne_nil hsize h)
  have hdrop : (file.drop (fgetsLine size file).length).length ≤ k := by
    rw [length_drop]
    omega
  rw [fgetsLines, hk, fgetsFrom, if_neg (by simpa using h), map_cons,
    fgetsFrom_eq hsize hdrop]
  rfl

@[simp] theorem fgetsLines_nil (size : ℕ) : fgetsLines size [] = [] := rfl

/-- Reading goes on with the next file after one that ends with a newline. -/
theorem fgetsLines_append (hsize : 1 < size) (h : Terminated file) (rest : Bytes) :
    fgetsLines size (file ++ rest) = fgetsLines size file ++ fgetsLines size rest := by
  induction hn : file.length using Nat.strong_induction_on generalizing file with
  | _ n ih =>
    by_cases hnil : file = []
    · simp [hnil]
    · have hlast : file.getLast? = some 0x0a := h.resolve_left hnil
      have hmem : 0x0a ∈ file := mem_of_getLast? hlast
      have hpos : 0 < (fgetsLine size file).length :=
        length_pos_of_ne_nil (fgetsLine_ne_nil hsize hnil)
      have hle := fgetsLine_length_le size file
      rw [fgetsLines_cons hsize (by simp [hnil]), fgetsLine_append hmem,
        fgetsLines_cons hsize hnil, drop_append_of_le_length hle, cons_append,
        ih _ (by rw [length_drop]; omega) (terminated_drop h _) rfl]

theorem fgetsLine_isPrefix (size : ℕ) (file : Bytes) : fgetsLine size file <+: file := by
  unfold fgetsLine
  dsimp only
  split_ifs with hc
  · refine takeWhile_newline_isPrefix ?_
    by_contra hmem
    rw [takeWhile_eq_self_iff.mpr] at hc
    · omega
    · intro b hb
      simpa using fun h0 : b = 0x0a => hmem (h0 ▸ hb)
  · exact (List.take_prefix _ _).trans (List.takeWhile_prefix _)

theorem exists_read_of_mem_fgetsLines (hsize : 1 < size) (h : line ∈ fgetsLines size file) :
    ∃ n, line = cstr (fgetsLine size (file.drop n)) := by
  induction hn : file.length using Nat.strong_induction_on generalizing file with
  | _ n ih =>
    by_cases hnil : file = []
    · simp [hnil] at h
    · have hpos : 0 < (fgetsLine size file).length :=
        length_pos_of_ne_nil (fgetsLine_ne_nil hsize hnil)
      have hlength := length_pos_of_ne_nil hnil
      rw [fgetsLines_cons hsize hnil] at h
      rcases mem_cons.mp h with rfl | h
      · exact ⟨0, rfl⟩
      · obtain ⟨m, rfl⟩ := ih _ (by rw [length_drop]; omega) h rfl
        exact ⟨_, by rw [drop_drop]⟩

/-- Whatever is read at once stands in the file in one piece. -/
theorem isInfix_of_mem_fgetsLines (hsize : 1 < size) (h : line ∈ fgetsLines size file) :
    line <:+: file := by
  obtain ⟨n, rfl⟩ := exists_read_of_mem_fgetsLines hsize h
  exact ((cstr_prefix_self _).trans (fgetsLine_isPrefix size _)).isInfix.trans
    (List.drop_suffix _ _).isInfix

theorem length_lt_of_mem_fgetsLines (hsize : 1 < size) (h : line ∈ fgetsLines size file) :
    line.length < size := by
  obtain ⟨n, rfl⟩ := exists_read_of_mem_fgetsLines hsize h
  exact (cstr_length_le _).trans_lt (fgetsLine_length_lt hsize _)

theorem fgetsLine_line {body : Bytes} (h : 0x0a ∉ body) (size : ℕ) :
    fgetsLine size (body ++ [0x0a]) = (body ++ [0x0a]).take (size - 1) := by
  have htake : (body ++ [0x0a]).takeWhile (· ≠ 0x0a) = body := cutNewline_append h []
  rw [fgetsLine, htake]
  simp only [length_append, length_singleton]
  split_ifs with hfits
  · rw [take_of_length_le (by simp; omega)]
  · rw [take_append_of_le_length (by omega)]

/-- The first read takes of a line what fits the buffer; the others get pieces of what is left. -/
theorem IsLine.fgetsLines_eq (hsize : 1 < size) (h : IsLine line) :
    ∃ pieces, fgetsLines size line = line.take (size - 1) :: pieces ∧
      ∀ p ∈ pieces, p <:+: line.drop (size - 1) := by
  have hzero := h.zero_notMem
  obtain ⟨body, rfl, hnewline, -⟩ := h
  have hdrop : (body ++ [0x0a]).drop ((body ++ [0x0a]).take (size - 1)).length =
      (body ++ [0x0a]).drop (size - 1) := by
    rw [length_take]
    rcases Nat.le_total (size - 1) (body ++ [0x0a]).length with hle | hle
    · rw [Nat.min_eq_left hle]
    · rw [Nat.min_eq_right hle, drop_length, drop_of_length_le hle]
  refine ⟨fgetsLines size ((body ++ [0x0a]).drop (size - 1)), ?_, fun p hp => ?_⟩
  · rw [fgetsLines_cons hsize (by simp), fgetsLine_line hnewline, hdrop,
      cstr_eq_self fun h0 => hzero (mem_of_mem_take h0)]
  · exact isInfix_of_mem_fgetsLines hsize hp

/-- A line that fits the buffer is read in one piece. -/
theorem IsLine.fgetsLines_short (h : IsLine line) (hlength : line.length < size) :
    fgetsLines size line = [line] := by
  have hzero := h.zero_notMem
  obtain ⟨body, rfl, hnewline, -⟩ := h
  have hread : fgetsLine size (body ++ [0x0a]) = body ++ [0x0a] := by
    rw [fgetsLine_line hnewline, take_of_length_le (by omega)]
  have hsize : 1 < size := by
    rw [length_append, length_singleton] at hlength
    omega
  rw [fgetsLines_cons hsize (by simp), hread, drop_length, cstr_eq_self hzero]
  rfl

/-- A tab or a newline. -/
def isSeparator (b : UInt8) : Bool := b = 0x09 || b = 0x0a

/-- A text that neither ends a field nor a string. -/
def Clean (s : Bytes) : Prop := ∀ b ∈ s, isSeparator b = false ∧ b ≠ 0

instance (s : Bytes) : Decidable (Clean s) := inferInstanceAs (Decidable (∀ b ∈ s, _))

/-- The fields that repeated `strpbrk` finds, empty ones included. -/
def fieldsOf : Bytes → List Bytes
  | [] => [[]]
  | b :: t =>
    if isSeparator b then [] :: fieldsOf t
    else match fieldsOf t with
      | [] => [[b]]
      | f :: fs => (b :: f) :: fs

/-- The tokens that repeated `strtok` finds: empty fields are passed over. -/
def tokensOf (line : Bytes) : List Bytes := (fieldsOf line).filter (· ≠ [])

/-- The fields of one record, with tabs between them and a newline at the end. -/
def lineOf : List Bytes → Bytes
  | [] => [0x0a]
  | [f] => f ++ [0x0a]
  | f :: g :: fs => f ++ 0x09 :: lineOf (g :: fs)

/-- `snprintf` with `%s` into a buffer of `size` bytes. -/
def clip (size : ℕ) (s : Bytes) : Bytes := s.take (size - 1)

@[simp] theorem clip_nil (size : ℕ) : clip size [] = [] := by simp [clip]

@[simp] theorem clean_nil : Clean [] := by simp [Clean]

theorem Clean.of_isInfix (h : Clean t) (hs : s <:+: t) : Clean s :=
  fun b hb => h b (hs.subset hb)

theorem Clean.clip (h : Clean s) (size : ℕ) : Clean (clip size s) :=
  fun b hb => h b (mem_of_mem_take hb)

theorem Clean.zero_notMem (h : Clean s) : 0 ∉ s := fun hb => (h 0 hb).2 rfl

theorem clean_dec (n : ℕ) : Clean (dec n) := by
  intro b hb
  obtain ⟨hlow, -⟩ := between_of_mem_dec n b hb
  refine ⟨?_, fun h0 => by simp [h0] at hlow⟩
  by_contra hsep
  simp only [isSeparator, Bool.or_eq_false_iff, decide_eq_false_iff_not, not_and_or, not_not]
    at hsep
  rcases hsep with rfl | rfl
  · exact absurd hlow (by decide)
  · exact absurd hlow (by decide)

theorem clip_length_lt (hsize : 0 < size) (s : Bytes) : (clip size s).length < size := by
  rw [clip, length_take]
  omega

theorem clip_eq_self (h : s.length < size) : clip size s = s :=
  take_of_length_le (by omega)

theorem clip_ne_nil (hsize : 1 < size) (h : s ≠ []) : clip size s ≠ [] := by
  obtain ⟨k, hk⟩ : ∃ k, size - 1 = k + 1 := ⟨size - 2, by omega⟩
  cases s with
  | nil => exact absurd rfl h
  | cons b t => simp [clip, hk]

theorem clean_fieldsOf (h : 0 ∉ line) : ∀ f ∈ fieldsOf line, Clean f := by
  induction line with
  | nil => simp [fieldsOf]
  | cons b t ih =>
    have ht := ih fun hb => h (mem_cons_of_mem _ hb)
    rw [fieldsOf]
    split_ifs with hb
    · simpa using ht
    · have hclean : isSeparator b = false ∧ b ≠ 0 :=
        ⟨by simpa using hb, fun h0 => h (by simp [h0])⟩
      split
      · intro f hf
        obtain rfl := mem_singleton.mp hf
        simpa [Clean] using hclean
      · rename_i f fs heq
        rw [heq] at ht
        intro g hg
        rcases mem_cons.mp hg with rfl | hg
        · intro c hc
          rcases mem_cons.mp hc with rfl | hc
          · exact hclean
          · exact ht f mem_cons_self c hc
        · exact ht g (mem_cons_of_mem _ hg)

theorem fieldsOf_clean (h : Clean f) : fieldsOf f = [f] := by
  induction f with
  | nil => rfl
  | cons b t ih =>
    have hb := (h b mem_cons_self).1
    rw [fieldsOf, if_neg (by simp [hb]), ih fun c hc => h c (mem_cons_of_mem _ hc)]

/-- The first field ends before the first separator. -/
theorem fieldsOf_eq_cons (s : Bytes) :
    ∃ rest, fieldsOf s = s.takeWhile (fun b => !isSeparator b) :: rest := by
  induction s with
  | nil => exact ⟨[], rfl⟩
  | cons b t ih =>
    obtain ⟨rest, hrest⟩ := ih
    rw [fieldsOf]
    split_ifs with hb
    · exact ⟨fieldsOf t, by simp [hb]⟩
    · exact ⟨rest, by simp [hrest, hb]⟩

theorem fieldsOf_length (line : Bytes) :
    (fieldsOf line).length = line.countP isSeparator + 1 := by
  induction line with
  | nil => rfl
  | cons b t ih =>
    rw [fieldsOf]
    split_ifs with hb
    · simp [ih, hb]
    · cases hfields : fieldsOf t with
      | nil => simp [hfields] at ih
      | cons f fs => simpa [hfields, hb] using ih

/-- Every byte of a line is in a field or between two fields. -/
theorem sum_fieldsOf (line : Bytes) :
    ((fieldsOf line).map (·.length + 1)).sum = line.length + 1 := by
  induction line with
  | nil => rfl
  | cons b t ih =>
    rw [fieldsOf]
    split_ifs with hb
    · simp only [map_cons, sum_cons, ih, length_nil, length_cons]
      omega
    · cases hfields : fieldsOf t with
      | nil => simp [hfields] at ih
      | cons f fs =>
        simp only [hfields, map_cons, sum_cons, length_cons] at ih ⊢
        omega

theorem sum_tokensOf_le (line : Bytes) :
    ((tokensOf line).map (·.length + 1)).sum ≤ line.length + 1 := by
  rw [← sum_fieldsOf]
  exact (filter_sublist.map _).sum_le_sum fun _ _ => Nat.zero_le _

theorem fieldsOf_append_separator (h : Clean f) {b : UInt8} (hb : isSeparator b = true)
    (rest : Bytes) : fieldsOf (f ++ b :: rest) = f :: fieldsOf rest := by
  induction f with
  | nil => simp [fieldsOf, hb]
  | cons c t ih =>
    have hc := (h c mem_cons_self).1
    have ht : Clean t := fun d hd => h d (mem_cons_of_mem _ hd)
    rw [cons_append, fieldsOf, if_neg (by simp [hc]), ih ht]

variable {fields : List Bytes}

/-- A printed line is read back as its fields, and the empty one behind the newline. -/
theorem fieldsOf_lineOf (hne : fields ≠ []) (h : ∀ f ∈ fields, Clean f) :
    fieldsOf (lineOf fields) = fields ++ [[]] := by
  induction fields with
  | nil => exact absurd rfl hne
  | cons f fs ih =>
    have hf := h f mem_cons_self
    cases fs with
    | nil => exact fieldsOf_append_separator hf rfl []
    | cons g gs =>
      rw [lineOf, fieldsOf_append_separator hf rfl, ih (by simp) fun e he =>
        h e (mem_cons_of_mem _ he)]
      rfl

theorem fieldsOf_take_newline {last : Bytes} (h : Clean last) (k : ℕ) :
    ∃ rest, fieldsOf ((last ++ [0x0a]).take k) = last.take k :: rest ∧ ∀ f ∈ rest, f = [] := by
  by_cases hk : last.length < k
  · rw [take_of_length_le (by simp; omega), take_of_length_le (by omega),
      fieldsOf_append_separator h rfl]
    exact ⟨_, rfl, by simp [fieldsOf]⟩
  · rw [take_append_of_le_length (by omega),
      fieldsOf_clean fun b hb => h b (mem_of_mem_take hb)]
    exact ⟨[], rfl, by simp⟩

/-- The fields of a text that starts with some fields and their tabs. -/
theorem fieldsOf_flatMap_append (h : ∀ f ∈ fields, Clean f) (rest : Bytes) :
    fieldsOf (fields.flatMap (· ++ [0x09]) ++ rest) = fields ++ fieldsOf rest := by
  induction fields with
  | nil => rfl
  | cons f fs ih =>
    rw [flatMap_cons, append_assoc, append_assoc, singleton_append,
      fieldsOf_append_separator (h f mem_cons_self) rfl,
      ih fun e he => h e (mem_cons_of_mem _ he), cons_append]

theorem lineOf_append_singleton (fields : List Bytes) (last : Bytes) :
    lineOf (fields ++ [last]) = fields.flatMap (· ++ [0x09]) ++ last ++ [0x0a] := by
  induction fields with
  | nil => rfl
  | cons f fs ih =>
    have hne : ∃ g gs, fs ++ [last] = g :: gs := by
      cases fs <;> simp
    obtain ⟨g, gs, hgs⟩ := hne
    rw [cons_append, hgs, lineOf, ← hgs, ih]
    simp

theorem tokensOf_clean_length (h : Clean f) : (tokensOf f).length ≤ 1 := by
  rw [tokensOf, fieldsOf_clean h]
  exact length_filter_le _ _

theorem tokensOf_clean_newline_length (h : Clean f) : (tokensOf (f ++ [0x0a])).length ≤ 1 := by
  rw [tokensOf, fieldsOf_append_separator h rfl]
  simp only [fieldsOf, filter_cons, filter_nil]
  split_ifs <;> simp_all

/-- The pieces of a clean text with a newline behind it. -/
theorem isInfix_clean_newline (h : Clean f) (hline : line <:+: f ++ [0x0a]) :
    ∃ g, Clean g ∧ (line = g ∨ line = g ++ [0x0a]) := by
  obtain ⟨before, after, heq⟩ := hline
  rcases eq_nil_or_concat after with rfl | ⟨rest, b, rfl⟩
  · rw [append_nil] at heq
    rcases eq_nil_or_concat line with rfl | ⟨g, b, rfl⟩
    · exact ⟨[], clean_nil, .inl rfl⟩
    · rw [concat_eq_append, ← append_assoc] at heq
      obtain ⟨hg, hb⟩ := append_inj' heq rfl
      refine ⟨g, h.of_isInfix ⟨before, [], by simpa using hg⟩, .inr ?_⟩
      simpa using hb
  · rw [concat_eq_append, ← append_assoc] at heq
    obtain ⟨hg, -⟩ := append_inj' heq rfl
    exact ⟨line, h.of_isInfix ⟨before, rest, hg⟩, .inl rfl⟩

theorem lineOf_length (fields : List Bytes) (hne : fields ≠ []) :
    (lineOf fields).length = (fields.map List.length).sum + fields.length := by
  induction fields with
  | nil => exact absurd rfl hne
  | cons f fs ih =>
    cases fs with
    | nil => simp [lineOf]
    | cons g gs =>
      rw [lineOf, length_append, length_cons, ih (by simp)]
      simp only [map_cons, sum_cons, length_cons]
      omega

/-- Clean fields print to one line. -/
theorem isLine_lineOf (h : ∀ f ∈ fields, Clean f) : IsLine (lineOf fields) := by
  induction fields with
  | nil => exact ⟨[], rfl, by simp, by simp⟩
  | cons f fs ih =>
    have hf := h f mem_cons_self
    have hnewline : 0x0a ∉ f := fun hmem => absurd (hf _ hmem).1 (by decide)
    cases fs with
    | nil => exact ⟨f, rfl, hnewline, hf.zero_notMem⟩
    | cons g gs =>
      obtain ⟨body, hbody, h10, h0⟩ := ih fun e he => h e (mem_cons_of_mem _ he)
      refine ⟨f ++ 0x09 :: body, by rw [lineOf, hbody]; simp, ?_, ?_⟩
      · simp [hnewline, h10]
      · simp [hf.zero_notMem, h0]

theorem terminated_lineOf (fields : List Bytes) : Terminated (lineOf fields) := by
  induction fields with
  | nil => exact .inr rfl
  | cons f fs ih =>
    cases fs with
    | nil => exact .inr (by simp [lineOf])
    | cons g gs =>
      have hne : lineOf (g :: gs) ≠ [] := by
        cases gs <;> simp [lineOf]
      have hlast : (lineOf (g :: gs)).getLast? = some 0x0a := ih.resolve_left hne
      rw [lineOf, ← singleton_append, ← append_assoc]
      exact .inr (by rw [getLast?_append, hlast]; rfl)

/-- How records are read from the lines of a file, and how one is printed. -/
structure Format (α : Type) where
  size : ℕ
  parse : Bytes → Option α
  print : α → Bytes

namespace Format
variable {α : Type} (F : Format α)

/-- The records of a file: lines that cannot be read are passed over. -/
def records (file : Bytes) : List α := (fgetsLines F.size file).filterMap F.parse

def printAll (rs : List α) : Bytes := rs.flatMap F.print

/-- A file written anew from its records, each one changed or left out. -/
def rewrite (change : α → Option α) (file : Bytes) : Bytes :=
  F.printAll ((F.records file).filterMap change)

/-- Every valid record is read back from what is printed for it, perhaps cut short. -/
structure Reads (Valid : α → Prop) (kept : α → α) : Prop where
  one_lt_size : 1 < F.size
  terminated_print : ∀ r, Valid r → Terminated (F.print r)
  records_print : ∀ r, Valid r → F.records (F.print r) = [kept r]

/-- A file that holds the printed lines of valid records and nothing else. -/
def Holds (Valid : α → Prop) (file : Bytes) (rs : List α) : Prop :=
  file = F.printAll rs ∧ ∀ r ∈ rs, Valid r

variable {F} {Valid : α → Prop} {kept : α → α}

@[simp] theorem records_nil : F.records [] = [] := rfl

theorem records_append (hsize : 1 < F.size) (h : Terminated file) (rest : Bytes) :
    F.records (file ++ rest) = F.records file ++ F.records rest := by
  rw [records, fgetsLines_append hsize h, filterMap_append]
  rfl

variable {r : α} {rs : List α}

/-- Every record comes from one line. -/
theorem exists_parse_of_mem_records (h : r ∈ F.records file) :
    ∃ line, 0 ∉ line ∧ F.parse line = some r := by
  obtain ⟨line, hline, hparse⟩ := mem_filterMap.mp h
  obtain ⟨text, -, rfl⟩ := mem_map.mp hline
  exact ⟨cstr text, zero_notMem_cstr text, hparse⟩

theorem printAll_append (rs ss : List α) : F.printAll (rs ++ ss) = F.printAll rs ++ F.printAll ss :=
  flatMap_append

/-- A line yields one record when its beginning is one and no piece of the rest is. -/
theorem records_line (hsize : 1 < F.size) (hline : IsLine line)
    (hparse : F.parse (line.take (F.size - 1)) = some r)
    (hrest : ∀ p, p <:+: line.drop (F.size - 1) → F.parse p = none) : F.records line = [r] := by
  obtain ⟨pieces, hlines, hpieces⟩ := hline.fgetsLines_eq hsize
  have hnone : pieces.filterMap F.parse = [] := by
    rw [filterMap_eq_nil_iff]
    exact fun p hp => hrest p (hpieces p hp)
  rw [records, hlines, filterMap_cons_some hparse, hnone]

theorem Reads.terminated_printAll (hF : F.Reads Valid kept) (h : ∀ r ∈ rs, Valid r) :
    Terminated (F.printAll rs) := by
  induction rs with
  | nil => exact .inl rfl
  | cons r rs ih =>
    exact terminated_append (hF.terminated_print r (h r mem_cons_self))
      (ih fun s hs => h s (mem_cons_of_mem _ hs))

theorem Reads.records_printAll (hF : F.Reads Valid kept) (h : ∀ r ∈ rs, Valid r) :
    F.records (F.printAll rs) = rs.map kept := by
  induction rs with
  | nil => rfl
  | cons r rs ih =>
    have hr := h r mem_cons_self
    have hcons : F.printAll (r :: rs) = F.print r ++ F.printAll rs := rfl
    rw [hcons, records_append hF.one_lt_size (hF.terminated_print r hr), hF.records_print r hr,
      ih fun s hs => h s (mem_cons_of_mem _ hs)]
    rfl

theorem Reads.records_append_print (hF : F.Reads Valid kept) (hfile : Terminated file)
    (hr : Valid r) : F.records (file ++ F.print r) = F.records file ++ [kept r] := by
  rw [records_append hF.one_lt_size hfile, hF.records_print r hr]

variable {change : α → Option α}

theorem Reads.terminated_rewrite (hF : F.Reads Valid kept)
    (h : ∀ s ∈ (F.records file).filterMap change, Valid s) : Terminated (F.rewrite change file) :=
  hF.terminated_printAll h

theorem Reads.records_rewrite (hF : F.Reads Valid kept)
    (h : ∀ s ∈ (F.records file).filterMap change, Valid s) :
    F.records (F.rewrite change file) = ((F.records file).filterMap change).map kept :=
  hF.records_printAll h

theorem Holds.records_eq (hF : F.Reads Valid id) (h : F.Holds Valid file rs) :
    F.records file = rs := by
  rw [h.1, hF.records_printAll h.2, map_id]

theorem holds_nil : F.Holds Valid [] [] := ⟨rfl, by simp⟩

theorem Holds.append (h : F.Holds Valid file rs) (hr : Valid r) :
    F.Holds Valid (file ++ F.print r) (rs ++ [r]) := by
  refine ⟨?_, ?_⟩
  · rw [printAll_append, ← h.1]
    simp [printAll]
  · intro s hs
    rcases mem_append.mp hs with hs | hs
    · exact h.2 s hs
    · obtain rfl := mem_singleton.mp hs
      exact hr

theorem Holds.rewrite (hF : F.Reads Valid id) (h : F.Holds Valid file rs)
    (hchange : ∀ s ∈ rs.filterMap change, Valid s) :
    F.Holds Valid (F.rewrite change file) (rs.filterMap change) :=
  ⟨by rw [Format.rewrite, h.records_eq hF], hchange⟩

end Format

end Cubicle.RecordFiles

import Cubicle.ControllerLoop

/-!
# Terminal queries that the controller answers

Without a local terminal the controller itself answers three queries that a program may send to its
terminal. It looks for them in each read from the program and writes the answers to the program's
standard input, if it still holds that open. The standard input does not block, and each answer is
put on record before the next one.
-/

namespace Cubicle.ControllerQueries
open List

open ByteText PartialWrites
open Controller

inductive Query
  | keyboardProtocol | foregroundColor | backgroundColor
deriving DecidableEq, Repr

def Query.text : Query → Bytes
  | .keyboardProtocol => ascii "\x1b[?u"
  | .foregroundColor => ascii "\x1b]10;?\x1b\\"
  | .backgroundColor => ascii "\x1b]11;?\x1b\\"

def Query.name : Query → Bytes
  | .keyboardProtocol => ascii "keyboard-protocol"
  | .foregroundColor => ascii "foreground-color"
  | .backgroundColor => ascii "background-color"

def Query.response : Query → Bytes
  | .keyboardProtocol => ascii "\x1b[?0u"
  | .foregroundColor => ascii "\x1b]10;rgb:e3e3/e3e3/eaea\x1b\\"
  | .backgroundColor => ascii "\x1b]11;rgb:0808/0505/2b2b\x1b\\"

def queryAt (bytes : Bytes) : Option Query :=
  [Query.keyboardProtocol, .foregroundColor, .backgroundColor].find? fun query =>
    query.text.isPrefixOf bytes

/-- The loop of `handle_unsupported_terminal_queries`: the queries of a buffer, with the number of
bytes to be passed over first. -/
def scanQueries : ℕ → Bytes → List Query
  | _, [] => []
  | skip + 1, _ :: rest => scanQueries skip rest
  | 0, b :: rest =>
    match queryAt (b :: rest) with
    | some query => query :: scanQueries (query.text.length - 1) rest
    | none => scanQueries 0 rest

/-- `handle_unsupported_terminal_queries` -/
def handleUnsupportedTerminalQueries (s : Shared) (buffer : Bytes) : Shared × Option Int32 :=
  if s.stdin.isOpen then
    writeTerminalResponses s ((scanQueries 0 buffer).map fun query => (query.name, query.response))
  else (s, none)

/-- A read from the program's standard output, and the state of the controller by then. -/
structure Read where
  shared : Shared
  bytes : Bytes

/-- What the answers to a read add to the program's standard input. -/
def Read.answered (read : Read) : Bytes :=
  (handleUnsupportedTerminalQueries read.shared read.bytes).1.stdin.delivered.drop
    read.shared.stdin.delivered.length

/-- What the answers to reads come to; a failure ends the controller. -/
def answeredAll : List Read → Bytes
  | [] => []
  | read :: reads => read.answered ++
      if (handleUnsupportedTerminalQueries read.shared read.bytes).2 = none then answeredAll reads
      else []

/-- The queries of a stream, wherever they are in it. -/
def queriesOf : Bytes → List Query
  | [] => []
  | b :: rest => (queryAt (b :: rest)).toList ++ queriesOf rest

theorem queryAt_eq_some {bytes : Bytes} {query : Query} :
    queryAt bytes = some query ↔ query.text <+: bytes := by
  constructor
  · intro h
    have hfound := find?_some (p := fun query : Query => query.text.isPrefixOf bytes) h
    exact List.isPrefixOf_iff_prefix.mp hfound
  · rintro ⟨rest, rfl⟩
    cases query <;> simp [queryAt, Query.text, ascii]

theorem Query.text_eq (query : Query) : query.text = 27 :: query.text.tail := by
  cases query <;> rfl

/-- No query begins inside another one. -/
theorem queriesOf_tail (query : Query) (rest : Bytes) :
    queriesOf (query.text.tail ++ rest) = queriesOf rest := by
  cases query <;> simp [Query.text, ascii, queriesOf, queryAt]

/-- The scanner finds all queries of a buffer. -/
theorem scanQueries_eq (skip : ℕ) (bytes : Bytes) :
    scanQueries skip bytes = queriesOf (bytes.drop skip) := by
  induction bytes generalizing skip with
  | nil => cases skip <;> rfl
  | cons b rest ih =>
    cases skip with
    | succ skip => exact ih skip
    | zero =>
      rw [scanQueries, drop_zero, queriesOf]
      cases hquery : queryAt (b :: rest) with
      | none => exact ih 0
      | some query =>
        obtain ⟨post, hpost⟩ := queryAt_eq_some.mp hquery
        have hrest : rest = query.text.tail ++ post := by
          have htail := congrArg List.tail hpost
          rw [query.text_eq] at htail
          exact htail.symm
        have hlength : query.text.length - 1 = query.text.tail.length := length_tail.symm
        dsimp only
        rw [ih, hlength, hrest, drop_left, queriesOf_tail]
        rfl

/-- A query begins in the one part and ends in the other. -/
def Cut (x y : Bytes) : Prop :=
  ∃ (query : Query) (pre post : Bytes), query.text = pre ++ post ∧ pre ≠ [] ∧ post ≠ [] ∧
    pre <:+ x ∧ post <+: y

/-- No query begins in one read and ends in a later one. -/
def Uncut : List Bytes → Prop
  | [] => True
  | buffer :: reads => ¬ Cut buffer reads.flatten ∧ Uncut reads

theorem cut_cons {b : UInt8} {x y : Bytes} :
    Cut (b :: x) y ↔ Cut x y ∨
      ∃ (query : Query) (post : Bytes), query.text = b :: x ++ post ∧ post ≠ [] ∧ post <+: y := by
  constructor
  · rintro ⟨query, pre, post, htext, hpre, hpost, hx, hy⟩
    rcases suffix_cons_iff.mp hx with rfl | hx
    · exact .inr ⟨query, post, htext, hpost, hy⟩
    · exact .inl ⟨query, pre, post, htext, hpre, hpost, hx, hy⟩
  · rintro (⟨query, pre, post, htext, hpre, hpost, hx, hy⟩ | ⟨query, post, htext, hpost, hy⟩)
    · exact ⟨query, pre, post, htext, hpre, hpost, hx.trans (suffix_cons b x), hy⟩
    · exact ⟨query, b :: x, post, htext, by simp, hpost, suffix_refl _, hy⟩

/-- A query that is whole in a part is not cut there. -/
theorem whole_of_starts {query query' : Query} {x post : Bytes} (h : query.text <+: x)
    (h' : query'.text = x ++ post) : post = [] := by
  have hstarts : query.text <+: query'.text := h.trans (h' ▸ prefix_append x post)
  have hsame : query = query' := by
    rw [prefix_iff_eq_take] at hstarts
    revert hstarts
    cases query <;> cases query' <;> decide
  subst hsame
  have hlength := congrArg List.length h'
  rw [length_append] at hlength
  have := h.length_le
  exact length_eq_zero_iff.mp (by omega)

/-- The queries of two parts are queries of the whole, and all of them when none is cut. -/
theorem queriesOf_append (x y : Bytes) :
    (queriesOf x ++ queriesOf y).Sublist (queriesOf (x ++ y)) ∧
      (queriesOf (x ++ y) = queriesOf x ++ queriesOf y ↔ ¬ Cut x y) := by
  induction x with
  | nil =>
    refine ⟨List.Sublist.refl _, iff_of_true rfl ?_⟩
    rintro ⟨query, pre, post, -, hpre, -, hx, -⟩
    exact hpre (suffix_nil.mp hx)
  | cons b x ih =>
    obtain ⟨hsub, heq⟩ := ih
    rw [cons_append, queriesOf, queriesOf, append_assoc, cut_cons]
    cases hone : queryAt (b :: x) with
    | some query =>
      have hstarts := queryAt_eq_some.mp hone
      have hwhole : queryAt (b :: (x ++ y)) = some query :=
        queryAt_eq_some.mpr (hstarts.trans (prefix_append (b :: x) y))
      have hnone : ¬ ∃ (query : Query) (post : Bytes), query.text = b :: x ++ post ∧ post ≠ [] ∧
          post <+: y := by
        rintro ⟨query', post, htext, hpost, -⟩
        exact hpost (whole_of_starts hstarts htext)
      rw [hwhole, or_iff_left hnone, ← heq]
      exact ⟨hsub.cons_cons query, by simp⟩
    | none =>
      cases hwhole : queryAt (b :: (x ++ y)) with
      | none =>
        have hnone : ¬ ∃ (query : Query) (post : Bytes), query.text = b :: x ++ post ∧ post ≠ [] ∧
            post <+: y := by
          rintro ⟨query, post, htext, -, hpost⟩
          have hquery : query.text <+: b :: (x ++ y) := by
            rw [htext]
            exact (prefix_append_right_inj (b :: x)).mpr hpost
          rw [queryAt_eq_some.mpr hquery] at hwhole
          simp at hwhole
        rw [or_iff_left hnone, ← heq]
        exact ⟨hsub, Iff.rfl⟩
      | some query =>
        have hquery := queryAt_eq_some.mp hwhole
        have hcut : ∃ (query : Query) (post : Bytes), query.text = b :: x ++ post ∧ post ≠ [] ∧
            post <+: y := by
          rcases List.prefix_or_prefix_of_prefix hquery (prefix_append (b :: x) y) with h | h
          · rw [queryAt_eq_some.mpr h] at hone
            simp at hone
          · obtain ⟨post, hpost⟩ := h
            refine ⟨query, post, hpost.symm, ?_, ?_⟩
            · rintro rfl
              rw [append_nil] at hpost
              have hself : query.text <+: b :: x := hpost ▸ prefix_refl (b :: x)
              rw [queryAt_eq_some.mpr hself] at hone
              simp at hone
            · rw [← hpost] at hquery
              exact (prefix_append_right_inj (b :: x)).mp hquery
        refine ⟨hsub.cons query, iff_of_false (fun hsame => ?_) (fun hnot => hnot (.inr hcut))⟩
        have hlength := congrArg List.length hsame
        have hle := hsub.length_le
        simp only [Option.toList_some, Option.toList_none, length_append, length_cons,
          length_nil] at hlength hle
        omega

/-- The queries found in the reads are those of the stream exactly when none is cut. -/
theorem queriesOf_reads (reads : List Bytes) :
    (reads.flatMap queriesOf).Sublist (queriesOf reads.flatten) ∧
      (reads.flatMap queriesOf = queriesOf reads.flatten ↔ Uncut reads) := by
  induction reads with
  | nil => exact ⟨List.Sublist.refl _, iff_of_true rfl trivial⟩
  | cons buffer reads ih =>
    obtain ⟨hsub, heq⟩ := ih
    obtain ⟨hsub', heq'⟩ := queriesOf_append buffer reads.flatten
    rw [flatMap_cons, flatten_cons, Uncut, ← heq, ← heq']
    have happend := hsub.append_left (queriesOf buffer)
    refine ⟨happend.trans hsub', fun hsame => ?_, fun hboth => ?_⟩
    · have hlength := congrArg List.length hsame
      have hle := hsub'.length_le
      have hle' := hsub.length_le
      simp only [length_append] at hlength hle
      exact ⟨(hsub'.eq_of_length (by simp only [length_append]; omega)).symm,
        hsub.eq_of_length (by omega)⟩
    · rw [hboth.1, hboth.2]

def responses (queries : List Query) : Bytes := queries.flatMap Query.response

theorem Query.response_ne_nil (query : Query) : 0 < query.response.length := by
  cases query <;> decide

theorem length_responses_cons (query : Query) (queries : List Query) :
    (responses (query :: queries)).length = query.response.length + (responses queries).length := by
  simp [responses]

theorem eq_nil_of_length_responses {queries : List Query} (h : (responses queries).length = 0) :
    queries = [] := by
  cases queries with
  | nil => rfl
  | cons query queries =>
    have := query.response_ne_nil
    rw [length_responses_cons] at h
    omega

theorem writeLoop_error_of_accepted (answers : List Answer) (data : Bytes)
    (h : (writeLoop answers data).accepted.length = data.length) :
    (writeLoop answers data).error = none := by
  induction answers generalizing data with
  | nil => simp
  | cons a answers ih =>
    cases data with
    | nil => simp
    | cons b data =>
      cases a with
      | wrote n =>
        refine ih _ ?_
        simp only [writeLoop, length_append, length_take] at h
        have := (writeLoop_accepted answers ((b :: data).drop (n + 1))).1.length_le
        simp only [length_drop] at this ⊢
        omega
      | interrupted => exact ih _ h
      | refused errno => simp [writeLoop] at h

/-- No write of an answer is refused, and each one is put on record before the next. -/
def Complete (s : Shared) : List Query → Prop
  | [] => True
  | query :: queries => (writeLoop s.stdin.answers query.response).error = none ∧
      (queries ≠ [] → (writeTerminalResponse s query.name query.response).2 = none) ∧
      Complete (writeTerminalResponse s query.name query.response).1 queries

theorem writeTerminalResponse_stdin (s : Shared) (name response : Bytes)
    (hopen : s.stdin.isOpen = true) :
    (writeTerminalResponse s name response).1.stdin =
      ⟨true, s.stdin.delivered ++ (writeLoop s.stdin.answers response).accepted,
        (writeLoop s.stdin.answers response).answers⟩ := by
  unfold writeTerminalResponse
  dsimp only
  split_ifs <;>
    simp [writeStdin, hopen, Shared.tryEvent, Shared.tryTerminalDebug]

/-- The answers arrive in full exactly when nothing stops them, and are shorter otherwise. -/
theorem writeTerminalResponses_delivered (queries : List Query) (s : Shared)
    (hopen : s.stdin.isOpen = true) :
    ∃ added, (writeTerminalResponses s
        (queries.map fun query => (query.name, query.response))).1.stdin.delivered =
          s.stdin.delivered ++ added ∧
      added.length ≤ (responses queries).length ∧
      (added.length = (responses queries).length → Complete s queries) ∧
      (Complete s queries → added = responses queries) := by
  induction queries generalizing s with
  | nil => exact ⟨[], (append_nil _).symm, Nat.le_refl _, fun _ => trivial, fun _ => rfl⟩
  | cons query queries ih =>
    obtain ⟨hpre, hall⟩ := writeLoop_accepted s.stdin.answers query.response
    have hle := hpre.length_le
    have hresponses := length_responses_cons query queries
    have hstdin := writeTerminalResponse_stdin s query.name query.response hopen
    obtain ⟨added, hadded, hshort, hfull, hcomplete⟩ :=
      ih (writeTerminalResponse s query.name query.response).1 (by rw [hstdin])
    rw [hstdin] at hadded
    dsimp only at hadded
    rw [map_cons, writeTerminalResponses]
    cases hresult : (writeTerminalResponse s query.name query.response).2 with
    | some errno =>
      -- the controller ends after this answer
      have hpair : writeTerminalResponse s query.name query.response =
          ((writeTerminalResponse s query.name query.response).1, some errno) :=
        Prod.ext rfl hresult
      rw [hpair]
      refine ⟨(writeLoop s.stdin.answers query.response).accepted, by simp [hstdin], by omega,
        fun hlength => ?_, fun hdone => ?_⟩
      · obtain rfl : queries = [] := eq_nil_of_length_responses (by omega)
        exact ⟨writeLoop_error_of_accepted _ _ (by simpa [responses] using hlength),
          fun hne => absurd rfl hne, trivial⟩
      · have hnil : queries = [] := by
          by_contra hne
          simpa [hresult] using hdone.2.1 hne
        rw [hnil]
        simpa [responses] using hall hdone.1
    | none =>
      have hpair : writeTerminalResponse s query.name query.response =
          ((writeTerminalResponse s query.name query.response).1, none) := Prod.ext rfl hresult
      rw [hpair]
      refine ⟨(writeLoop s.stdin.answers query.response).accepted ++ added, ?_, ?_,
        fun hlength => ?_, fun hdone => ?_⟩
      · rw [hadded, append_assoc]
      · rw [length_append]
        omega
      · rw [length_append] at hlength
        exact ⟨writeLoop_error_of_accepted _ _ (by omega), fun _ => hresult, hfull (by omega)⟩
      · rw [hall hdone.1, hcomplete hdone.2.2]
        rfl

/-- A read whose queries are answered: the standard input is open and takes the answers. -/
def Read.Answers (read : Read) : Prop :=
  queriesOf read.bytes ≠ [] →
    read.shared.stdin.isOpen = true ∧ Complete read.shared (queriesOf read.bytes)

theorem Read.answered_eq (read : Read) :
    read.answered.length ≤ (responses (queriesOf read.bytes)).length ∧
      (read.answered.length = (responses (queriesOf read.bytes)).length → read.Answers) ∧
      (read.Answers → read.answered = responses (queriesOf read.bytes)) := by
  unfold Read.answered handleUnsupportedTerminalQueries Read.Answers
  rw [scanQueries_eq, drop_zero]
  by_cases hopen : read.shared.stdin.isOpen = true
  · obtain ⟨added, hadded, hshort, hfull, hcomplete⟩ :=
      writeTerminalResponses_delivered (queriesOf read.bytes) read.shared hopen
    rw [if_pos hopen, hadded, drop_left]
    refine ⟨hshort, fun hlength _ => ⟨hopen, hfull hlength⟩, fun hanswers => hcomplete ?_⟩
    by_cases hnone : queriesOf read.bytes = []
    · rw [hnone]
      trivial
    · exact (hanswers hnone).2
  · rw [if_neg hopen, drop_length]
    refine ⟨Nat.zero_le _, fun hlength hsome => ?_, fun hanswers => ?_⟩
    · exact absurd (eq_nil_of_length_responses hlength.symm) hsome
    · by_cases hnone : queriesOf read.bytes = []
      · rw [hnone]
        rfl
      · exact absurd (hanswers hnone).1 hopen

/-- Every read is answered, and a read after which the controller ends has no queries after it. -/
def AllAnswered : List Read → Prop
  | [] => True
  | read :: reads => read.Answers ∧ AllAnswered reads ∧
      ((handleUnsupportedTerminalQueries read.shared read.bytes).2 = none ∨
        reads.flatMap (fun read => queriesOf read.bytes) = [])

theorem allAnswered_of_no_queries {reads : List Read}
    (h : reads.flatMap (fun read => queriesOf read.bytes) = []) : AllAnswered reads := by
  induction reads with
  | nil => trivial
  | cons read reads ih =>
    rw [flatMap_cons, append_eq_nil_iff] at h
    exact ⟨fun hsome => absurd h.1 hsome, ih h.2, .inr h.2⟩

theorem answeredAll_eq (reads : List Read) :
    (answeredAll reads).length ≤
        (responses (reads.flatMap fun read => queriesOf read.bytes)).length ∧
      ((answeredAll reads).length =
          (responses (reads.flatMap fun read => queriesOf read.bytes)).length →
        AllAnswered reads) ∧
      (AllAnswered reads →
        answeredAll reads = responses (reads.flatMap fun read => queriesOf read.bytes)) := by
  induction reads with
  | nil => exact ⟨Nat.le_refl _, fun _ => trivial, fun _ => rfl⟩
  | cons read reads ih =>
    obtain ⟨hshort, hfull, hall⟩ := read.answered_eq
    obtain ⟨hshort', hfull', hall'⟩ := ih
    have hresponses : responses ((read :: reads).flatMap fun read => queriesOf read.bytes) =
        responses (queriesOf read.bytes) ++
          responses (reads.flatMap fun read => queriesOf read.bytes) := by
      simp [responses]
    rw [hresponses, answeredAll, AllAnswered]
    split_ifs with hok
    · refine ⟨?_, fun hlength => ?_, fun h => by rw [hall h.1, hall' h.2.1]⟩
      · rw [length_append, length_append]
        omega
      · rw [length_append, length_append] at hlength
        exact ⟨hfull (by omega), hfull' (by omega), .inl hok⟩
    · rw [append_nil]
      refine ⟨?_, fun hlength => ?_, fun h => ?_⟩
      · rw [length_append]
        omega
      · rw [length_append] at hlength
        have hnone : reads.flatMap (fun read => queriesOf read.bytes) = [] :=
          eq_nil_of_length_responses (by omega)
        exact ⟨hfull (by omega), allAnswered_of_no_queries hnone, .inr hnone⟩
      · have hnone := h.2.2.resolve_left hok
        rw [hall h.1, hnone]
        simp [responses]

theorem eq_of_responses_length {l l' : List Query} (hsub : l.Sublist l')
    (h : (responses l').length ≤ (responses l).length) : l = l' := by
  have hmono : ∀ {l l' : List Query}, l.Sublist l' →
      (responses l).length ≤ (responses l').length := by
    intro l l' hsub
    induction hsub with
    | slnil => exact Nat.le_refl _
    | cons query _ ih => rw [length_responses_cons]; omega
    | cons_cons query _ ih => rw [length_responses_cons, length_responses_cons]; omega
  induction hsub with
  | slnil => rfl
  | cons query hsub _ =>
    have := hmono hsub
    have := query.response_ne_nil
    rw [length_responses_cons] at h
    omega
  | cons_cons query hsub ih =>
    rw [length_responses_cons, length_responses_cons] at h
    rw [ih (by omega)]

-- two queries in one read and one in the next are answered, unless the standard input is closed
example :
    answeredAll [⟨.started, ascii "a\x1b[?u\x1b]11;?\x1b\\"⟩, ⟨.started, ascii "\x1b]10;?\x1b\\"⟩,
        ⟨{ Shared.started with stdin := ⟨false, [], []⟩ }, ascii "\x1b[?u"⟩] =
      responses [.keyboardProtocol, .backgroundColor, .foregroundColor] := by
  decide +kernel

end Cubicle.ControllerQueries

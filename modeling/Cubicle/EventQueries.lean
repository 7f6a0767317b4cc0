import Cubicle.ControllerFragments
import Cubicle.ControllerLines

/-!
# Queries of the event log

A client may ask for events with a line or with an API request. Both give the first events behind a
cursor, up to a limit, but each of them has limits of its own: the line stops at what fits a buffer,
the API passes over lines that are too long when they are escaped, refuses an answer that does not
fit, and takes a cursor beyond the signed numbers for a negative one.
-/

namespace Cubicle.Controller
open ByteText Utf8Sequences CStrings JsonText JsonSpelling JsonEncoding RpcEnvelope List

/-- The first events behind a cursor. -/
def eventPage (file : Bytes) (after : ℤ) (limit : ℕ) : List (ℤ × Bytes) :=
  (eventsAfter file after).take limit

/-- The result of `controller.events_after` for a log that can be opened. -/
def apiEvents (file : Bytes) (after limit : ℕ) : Option Bytes :=
  if 1024 < limit then none else eventsAfterJson file after limit

/-- The body that `events after` is answered with, and the number of its events, for a log that can
be opened. -/
def lineEvents (file : Bytes) (after limit : ℤ) : Option (Bytes × ℕ) :=
  if after < 0 ∨ limit < 0 ∨ 1024 < limit then none
  else some (collectEvents limit.toNat (eventsAfter file after) [] 0)

theorem collectEvents_eq_iff (limit : ℕ) (events : List (ℤ × Bytes)) (used : Bytes) (count : ℕ)
    (hused : used.length ≤ 65536) :
    collectEvents limit events used count =
        (used ++ (events.take (limit - count)).flatMap Prod.snd,
          count + (events.take (limit - count)).length) ↔
      used.length + ((events.take (limit - count)).flatMap Prod.snd).length ≤ 65536 := by
  induction events generalizing used count with
  | nil => simpa [collectEvents] using hused
  | cons event rest ih =>
    obtain ⟨sequence, line⟩ := event
    rw [collectEvents]
    by_cases hlimit : limit ≤ count
    · simpa [hlimit, Nat.sub_eq_zero_of_le hlimit] using hused
    have hsucc : limit - count = limit - (count + 1) + 1 := by omega
    by_cases hlong : 65536 < used.length + line.length
    · rw [if_pos (Or.inr hlong), hsucc]
      simp only [take_succ_cons, flatMap_cons, length_cons, length_append,
        Prod.mk.injEq]
      constructor
      · rintro ⟨-, hcount⟩
        omega
      · omega
    · rw [if_neg (not_or.mpr ⟨hlimit, hlong⟩), hsucc]
      have hstep := ih (used ++ line) (count + 1) (by
        rw [length_append]
        omega)
      simp only [take_succ_cons, flatMap_cons, length_cons, length_append,
        append_assoc] at hstep ⊢
      rw [show count + ((rest.take (limit - (count + 1))).length + 1) =
        count + 1 + (rest.take (limit - (count + 1))).length by omega, hstep, Nat.add_assoc]

/-- What is printed for some events when `count` of them are there already. -/
def printedEvents (count : ℕ) (shown : List (ℤ × Bytes)) : Bytes :=
  if count = 0 then joinComma (shown.map eventText)
  else (shown.map eventText).flatMap (0x2c :: ·)

theorem printedEvents_cons_length (count : ℕ) (event : ℤ × Bytes) (shown : List (ℤ × Bytes)) :
    (printedEvents count (event :: shown)).length =
      ((if count = 0 then [] else ascii ",") ++ eventText event).length +
        (printedEvents (count + 1) shown).length := by
  unfold printedEvents
  rw [if_neg (Nat.succ_ne_zero count), map_cons, joinComma_cons, flatMap_cons]
  split_ifs
  · simp
  · simp only [length_append, length_cons, ascii]
    simp
    omega

variable {limit n : ℕ} {events events' : List (ℤ × Bytes)} {file : Bytes} {a : ℤ}

theorem printEvents_of_fits {size : ℕ} {used : Bytes} {count : ℕ}
    (h : used.length +
      (printedEvents count ((events.filter eventFits).take (limit - count))).length < size) :
    (printEvents size limit events used count).isSome = true := by
  induction events generalizing used count with
  | nil => rfl
  | cons event events ih =>
    obtain ⟨sequence, line⟩ := event
    rw [printEvents, jsonEscape_eq (by decide)]
    by_cases hlimit : limit ≤ count
    · rw [if_pos hlimit]
      rfl
    rw [if_neg hlimit]
    by_cases hfits : 2048 ≤ (escapeText (cstr (cutNewline line))).length
    · have hskip : ¬ eventFits (sequence, line) = true := by simp [eventFits]; omega
      rw [if_pos hfits]
      rw [filter_cons_of_neg hskip] at h
      exact ih h
    · have hkeep : eventFits (sequence, line) = true := by simp [eventFits]; omega
      rw [if_neg hfits]
      rw [filter_cons_of_pos hkeep, show limit - count = limit - (count + 1) + 1 by omega,
        take_succ_cons, printedEvents_cons_length] at h
      simp only [eventText] at h
      simp only [appendRaw]
      rw [if_neg (by omega)]
      simp only [Option.bind_eq_bind, Option.bind_some]
      refine ih ?_
      rw [length_append]
      omega

variable {after : ℕ}

theorem eventsAfterJson_eq_some_iff {r : Bytes} :
    eventsAfterJson file after limit = some r ↔
      r = eventsText (shownEvents file after limit) ∧ r.length < 8192 := by
  constructor
  · intro h
    obtain ⟨htext, hlength⟩ := eventsAfterJson_some h
    exact ⟨htext.symm, hlength⟩
  · rintro ⟨rfl, hlength⟩
    have hshape : (eventsText (shownEvents file after limit)).length =
        (ascii "\x7b\"events\":[").length +
          (printedEvents 0 (shownEvents file after limit)).length +
          (ascii "],\"count\":" ++ dec (shownEvents file after limit).length ++
            ascii "\x7d").length := by
      simp only [eventsText, printedEvents, if_true, length_append, length_cons, ascii]
      simp
      omega
    have hprint : (printEvents 8192 limit (eventsAfter file (asLongLong after))
        (ascii "\x7b\"events\":[") 0).isSome = true := by
      refine printEvents_of_fits ?_
      rw [Nat.sub_zero, ← shownEvents]
      omega
    obtain ⟨⟨used, count⟩, hused⟩ := Option.isSome_iff_exists.mp hprint
    obtain ⟨hcount, htext⟩ := printEvents_some hused
    rw [Nat.sub_zero, ← shownEvents] at hcount htext
    have hsome : (eventsAfterJson file after limit).isSome = true := by
      have hlen : used.length = (ascii "\x7b\"events\":[").length +
          (printedEvents 0 (shownEvents file after limit)).length := by
        rw [← htext, length_append]
        rfl
      simp only [eventsAfterJson, hused, Option.bind_eq_bind, Option.bind_some, appendRaw]
      rw [Nat.zero_add] at hcount
      rw [hcount, if_neg (by omega)]
      rfl
    obtain ⟨r, hr⟩ := Option.isSome_iff_exists.mp hsome
    rw [hr, (eventsAfterJson_some hr).1]

/-- Both queries give the first events behind the cursor and nothing else. A cursor and a limit
stand in a line as numbers, which are cut to the signed range when they are read. -/
structure QueriesRight (file : Bytes) (after limit : ℕ) : Prop where
  api : ∃ r, apiEvents file after limit = some r ∧ fragmentValid r = true ∧
    readDocument r = some (.obj (eventsMembers (eventPage file after limit)))
  line : lineEvents file (longLongValue false (dec after)) (longLongValue false (dec limit)) =
    some ((eventPage file after limit).flatMap Prod.snd, (eventPage file after limit).length)

/-- When both queries are right. -/
structure QueriesFit (file : Bytes) (after limit : ℕ) : Prop where
  limit_le : limit ≤ 1024
  cursor : after < 2 ^ 63 ∨ limit = 0 ∨ ∀ e ∈ eventsAfter file (after - 2 ^ 64), eventFits e = false
  escaped : ∀ e ∈ eventPage file after limit, eventFits e = true
  utf8 : ∀ e ∈ eventPage file after limit, EventUtf8 e
  api_length : (eventsText (eventPage file after limit)).length < 8192
  line_length : ((eventPage file after limit).flatMap Prod.snd).length ≤ 65536

theorem longLongValue_dec (n : ℕ) : longLongValue false (dec n) = (min n (2 ^ 63 - 1) : ℕ) := by
  simp only [longLongValue, decimalValue_dec, Bool.false_eq_true, if_false]

theorem eventsAfter_eq_nil {after : ℤ} (h : 2 ^ 63 - 1 ≤ after) : eventsAfter file after = [] := by
  refine eq_nil_iff_forall_not_mem.mpr fun e he => ?_
  obtain ⟨line, -, hline⟩ := mem_filterMap.mp he
  split_ifs at hline
  split at hline
  · rename_i sequence rest hscan
    split_ifs at hline with hle
    have hbound := (scanLongLong_bounds hscan).2
    omega
  · cases hline

/-- A cursor beyond the signed range has no events behind it, cut to that range or not. -/
theorem eventsAfter_longLongValue (file : Bytes) (after : ℕ) :
    eventsAfter file (longLongValue false (dec after)) = eventsAfter file after := by
  rw [longLongValue_dec]
  by_cases h : after ≤ 2 ^ 63 - 1
  · rw [min_eq_left h]
  · rw [min_eq_right (by omega), eventsAfter_eq_nil (by norm_num), eventsAfter_eq_nil (by omega)]

theorem lineEvents_eq_iff :
    lineEvents file (longLongValue false (dec after)) (longLongValue false (dec limit)) =
        some ((eventPage file after limit).flatMap Prod.snd, (eventPage file after limit).length) ↔
      limit ≤ 1024 ∧ ((eventPage file after limit).flatMap Prod.snd).length ≤ 65536 := by
  unfold lineEvents
  rw [eventsAfter_longLongValue, longLongValue_dec, longLongValue_dec]
  by_cases hlimit : limit ≤ 1024
  · have hmin : min limit (2 ^ 63 - 1) = limit := min_eq_left (by omega)
    rw [hmin, if_neg (by omega), Int.toNat_natCast, Option.some.injEq]
    have hcollect := collectEvents_eq_iff limit (eventsAfter file after) [] 0 (by simp)
    simp only [Nat.sub_zero, nil_append, Nat.zero_add, length_nil] at hcollect
    rw [eventPage, hcollect]
    exact (and_iff_right hlimit).symm
  · rw [if_pos (by omega)]
    simp [hlimit]

/-- What an answer tells of an event: its number and its line without the line end. -/
def eventContent (event : ℤ × Bytes) : ℤ × Bytes := (event.1, cstr (cutNewline event.2))

theorem intJson_injective : Function.Injective intJson := by
  intro a b h
  cases a <;> cases b <;> simp_all [intJson]

theorem eventsMembers_eq_iff :
    Json.obj (eventsMembers events) = .obj (eventsMembers events') ↔
      events.map eventContent = events'.map eventContent := by
  have hitem : ∀ e e' : ℤ × Bytes, Json.obj (eventMembers e) = .obj (eventMembers e') ↔
      eventContent e = eventContent e' := by
    intro e e'
    simp [eventMembers, eventContent, intJson_injective.eq_iff]
  constructor
  · intro h
    simp only [eventsMembers, Json.obj.injEq, List.cons.injEq, Prod.mk.injEq, true_and, and_true,
      Json.arr.injEq] at h
    have hitems := h.1
    clear h
    induction events generalizing events' with
    | nil =>
      cases events' with
      | nil => rfl
      | cons e' rest' => cases hitems
    | cons e rest ih =>
      cases events' with
      | nil => cases hitems
      | cons e' rest' =>
        obtain ⟨hhead, htail⟩ := List.cons.inj hitems
        rw [map_cons, map_cons, (hitem e e').mp hhead, ih htail]
  · intro h
    have hlength : events.length = events'.length := by simpa using congrArg List.length h
    have hitems : (events.map fun e => Json.obj (eventMembers e)) =
        events'.map fun e => Json.obj (eventMembers e) := by
      have hmap : ∀ es : List (ℤ × Bytes), (es.map fun e => Json.obj (eventMembers e)) =
          (es.map eventContent).map fun c => Json.obj
            [(ascii "sequence", intJson c.1), (ascii "payload", .str c.2)] := by
        intro es
        simp [eventMembers, eventContent]
      rw [hmap, hmap, h]
    rw [eventsMembers, eventsMembers, hitems, hlength]

theorem eventsText_congr (h : events.map eventContent = events'.map eventContent) :
    eventsText events = eventsText events' := by
  have hlength : events.length = events'.length := by simpa using congrArg List.length h
  have hmap : ∀ es : List (ℤ × Bytes), es.map eventText =
      (es.map eventContent).map fun c => eventJson c.1 (escapeText c.2) := by
    intro es
    simp [eventText, eventContent]
  rw [eventsText, eventsText, hmap, hmap, h, hlength]

theorem take_filter_eq {α : Type} {p : α → Bool} {l : List α} (h : ∀ x ∈ l.take n, p x = true) :
    (l.filter p).take n = l.take n := by
  induction l generalizing n with
  | nil => rfl
  | cons a l ih =>
    cases n with
    | zero => rfl
    | succ n =>
      have ha : p a = true := h a (by simp)
      rw [filter_cons_of_pos ha, take_succ_cons, take_succ_cons,
        ih fun x hx => h x (by simp [hx])]

theorem asLongLong_of_lt (h : n < 2 ^ 63) : asLongLong n = n := by
  unfold asLongLong
  rw [Int.bmod_def]
  norm_num
  omega

theorem asLongLong_of_ge (h : 2 ^ 63 ≤ n) (h64 : n < 2 ^ 64) : asLongLong n = n - 2 ^ 64 := by
  unfold asLongLong
  rw [Int.bmod_def]
  norm_num
  omega

theorem shownEvents_eq_page (h64 : after < 2 ^ 64)
    (hcursor : after < 2 ^ 63 ∨ limit = 0 ∨ ∀ e ∈ eventsAfter file (after - 2 ^ 64),
      eventFits e = false)
    (hescaped : ∀ e ∈ eventPage file after limit, eventFits e = true) :
    shownEvents file after limit = eventPage file after limit := by
  unfold shownEvents
  by_cases hlt : after < 2 ^ 63
  · rw [asLongLong_of_lt hlt]
    exact take_filter_eq hescaped
  · have hpage : eventPage file after limit = [] := by
      rw [eventPage, eventsAfter_eq_nil (by omega), take_nil]
    rw [hpage, asLongLong_of_ge (by omega) h64]
    rcases hcursor.resolve_left hlt with rfl | hnone
    · exact take_zero
    · rw [filter_eq_nil_iff.mpr fun e he => by simp [hnone e he], take_nil]

theorem queriesRight_iff (h64 : after < 2 ^ 64) :
    QueriesRight file after limit ↔ QueriesFit file after limit := by
  constructor
  · rintro ⟨⟨r, hr, hvalid, hread⟩, hline⟩
    obtain ⟨hlimit, hbody⟩ := lineEvents_eq_iff.mp hline
    rw [apiEvents, if_neg (by omega)] at hr
    have hutf := (fragmentValid_eventsAfterJson hr).mp hvalid
    have hcount := shownEvents_length_le hr
    obtain ⟨rfl, hlength⟩ := eventsAfterJson_eq_some_iff.mp hr
    have hspell := spells_eventsText (fun e he => eventsAfter_range (mem_shownEvents he).1)
      (by omega) hutf
    rw [readDocument_spelled hspell, Option.some.injEq, eventsMembers_eq_iff] at hread
    -- a property of what is told of an event passes from the shown events to the asked ones
    have hpass : ∀ P : ℤ × Bytes → Prop, (∀ e ∈ shownEvents file after limit, P (eventContent e)) →
        ∀ e ∈ eventPage file after limit, P (eventContent e) := by
      intro P hP e he
      have hmem : eventContent e ∈ (eventPage file after limit).map eventContent :=
        mem_map_of_mem he
      rw [← hread] at hmem
      obtain ⟨e', he', heq⟩ := mem_map.mp hmem
      rw [← heq]
      exact hP e' he'
    refine ⟨hlimit, ?_, ?_, ?_, ?_, hbody⟩
    · by_cases hlt : after < 2 ^ 63
      · exact Or.inl hlt
      · right
        have hpage : eventPage file after limit = [] := by
          rw [eventPage, eventsAfter_eq_nil (by omega), take_nil]
        rw [hpage, map_nil, map_eq_nil_iff, shownEvents, take_eq_nil_iff,
          asLongLong_of_ge (by omega) h64, filter_eq_nil_iff] at hread
        rcases hread with hzero | hnone
        · exact Or.inl hzero
        · exact Or.inr fun e he => Bool.eq_false_iff.mpr (hnone e he)
    · have hfits := hpass (fun c => decide ((escapeText c.2).length < 2048) = true)
        fun e he => (mem_shownEvents he).2
      exact hfits
    · exact hpass (fun c => Text c.2) hutf
    · rwa [← eventsText_congr hread]
  · rintro ⟨hlimit, hcursor, hescaped, hutf, hlength, hbody⟩
    have hshown := shownEvents_eq_page h64 hcursor hescaped
    have hjson : eventsAfterJson file after limit =
        some (eventsText (eventPage file after limit)) :=
      eventsAfterJson_eq_some_iff.mpr ⟨by rw [hshown], hlength⟩
    have hcount := shownEvents_length_le hjson
    rw [hshown] at hcount
    refine ⟨⟨eventsText (eventPage file after limit), ?_, ?_, ?_⟩,
      lineEvents_eq_iff.mpr ⟨hlimit, hbody⟩⟩
    · rw [apiEvents, if_neg (by omega)]
      exact hjson
    · rw [fragmentValid_eventsAfterJson hjson, hshown]
      exact hutf
    · refine readDocument_spelled (spells_eventsText (fun e he => ?_) (by omega) hutf)
      exact eventsAfter_range (mem_of_mem_take he)

theorem eventsAfter_filter (file : Bytes) {b : ℤ} (h : a ≤ b) :
    eventsAfter file b = (eventsAfter file a).filter fun e => b < e.1 := by
  unfold eventsAfter
  rw [filter_filterMap]
  refine filterMap_congr fun line _ => ?_
  split_ifs
  · cases scanLongLong (line.drop 4) with
    | none => rfl
    | some r =>
      obtain ⟨sequence, rest⟩ := r
      dsimp only
      by_cases hb : sequence ≤ b
      · rw [if_pos hb]
        split_ifs
        · rfl
        · simp [Option.filter, hb]
      · rw [if_neg hb, if_neg (by omega)]
        simp [Option.filter, not_le.mp hb]
  · rfl

def Increasing (file : Bytes) : Prop :=
  (eventsAfter file (-2 ^ 63 - 1)).Pairwise fun a b => a.1 < b.1

theorem Increasing.eventsAfter (h : Increasing file) (ha : 0 ≤ a) :
    (eventsAfter file a).Pairwise fun a b => a.1 < b.1 := by
  rw [eventsAfter_filter file (show -2 ^ 63 - 1 ≤ a by omega)]
  exact h.filter _

/-- The events that repeated queries give, each one asking behind the last event of the one before
it, until one gives nothing. -/
inductive Paged (file : Bytes) (limit : ℕ) : ℕ → List (ℤ × Bytes) → Prop
  | done {after : ℕ} (hright : QueriesRight file after limit)
      (hempty : eventPage file after limit = []) : Paged file limit after []
  | more {after : ℕ} {last : ℤ × Bytes} {rest : List (ℤ × Bytes)}
      (hright : QueriesRight file after limit)
      (hlast : (eventPage file after limit).getLast? = some last)
      (hrest : Paged file limit last.1.toNat rest) :
      Paged file limit after (eventPage file after limit ++ rest)

/-- What is behind the last event of a page is the rest. -/
theorem eventsAfter_last (h : Increasing file) {last : ℤ × Bytes}
    (hlast : (eventPage file after limit).getLast? = some last) :
    (after : ℤ) < last.1 ∧
      eventsAfter file last.1 = (eventsAfter file after).drop limit := by
  have hsorted := h.eventsAfter (Int.natCast_nonneg after)
  obtain ⟨before, hpage⟩ := getLast?_eq_some_iff.mp hlast
  have hmem : last ∈ eventsAfter file after := by
    refine mem_of_mem_take (i := limit) ?_
    rw [← eventPage, hpage]
    simp
  have hafter : (after : ℤ) < last.1 := by
    rw [eventsAfter_filter file (le_refl (after : ℤ))] at hmem
    simpa using (mem_filter.mp hmem).2
  refine ⟨hafter, ?_⟩
  rw [eventsAfter_filter file hafter.le]
  nth_rewrite 1 [← take_append_drop limit (eventsAfter file after)]
  rw [← take_append_drop limit (eventsAfter file after), ← eventPage, hpage,
    pairwise_append, pairwise_append] at hsorted
  obtain ⟨⟨-, -, hbefore⟩, -, hbehind⟩ := hsorted
  rw [filter_append, ← eventPage, hpage]
  have hnone : (before ++ [last]).filter (fun e => last.1 < e.1) = [] := by
    refine filter_eq_nil_iff.mpr fun e he => ?_
    rcases mem_append.mp he with he | he
    · have := hbefore e he last (by simp)
      simp only [decide_eq_true_eq]
      omega
    · obtain rfl := mem_singleton.mp he
      simp
  rw [hnone, nil_append]
  exact filter_eq_self.mpr fun e he => decide_eq_true (hbehind last (by simp) e he)

/-- The queries fit at a cursor and at each event behind it. -/
def PagesFit (file : Bytes) (after limit : ℕ) : Prop :=
  QueriesFit file after limit ∧
    ∀ e ∈ eventsAfter file after, QueriesFit file e.1.toNat limit

theorem paged_all (h : Increasing file) (hlimit : 0 < limit) (h64 : after < 2 ^ 64)
    (hfit : PagesFit file after limit) :
    Paged file limit after (eventsAfter file after) := by
  -- every page takes at least one event from what is left
  induction hn : (eventsAfter file after).length using Nat.strong_induction_on
    generalizing after with
  | _ n ih =>
    have hright := (queriesRight_iff h64).mpr hfit.1
    cases hlast : (eventPage file after limit).getLast? with
    | none =>
      have hempty := getLast?_eq_none_iff.mp hlast
      have hall : eventsAfter file after = [] := by
        rcases take_eq_nil_iff.mp hempty with hzero | hnil
        · omega
        · exact hnil
      rw [hall]
      exact .done hright hempty
    | some last =>
      obtain ⟨hafter, hrest⟩ := eventsAfter_last h hlast
      have hne : eventsAfter file after ≠ [] := by
        intro hnil
        rw [eventPage, hnil] at hlast
        simp at hlast
      have hmem : last ∈ eventsAfter file after := mem_of_mem_take (mem_of_getLast? hlast)
      have hbound := (eventsAfter_range hmem).2
      have hcast : ((last.1.toNat : ℕ) : ℤ) = last.1 := by omega
      have hpos := length_pos_of_ne_nil hne
      have hless : (eventsAfter file last.1).length < (eventsAfter file after).length := by
        rw [hrest, length_drop]
        omega
      have hfit' : PagesFit file last.1.toNat limit := by
        refine ⟨hfit.2 last hmem, fun e he => hfit.2 e ?_⟩
        rw [hcast, hrest] at he
        exact mem_of_mem_drop he
      have hmore := @ih (eventsAfter file last.1).length (by omega) last.1.toNat (by omega) hfit'
        (by rw [hcast])
      have hstep := Paged.more hright hlast hmore
      rwa [hcast, hrest, eventPage, take_append_drop] at hstep

/-- Both queries give exactly the first events behind the cursor when they fit, and only then; and
as long as they fit, repeated queries reach the end of the log. -/
theorem event_queries_right_iff (file : Bytes) (after limit : ℕ) (h64 : after < 2 ^ 64) :
    (QueriesRight file after limit ↔ QueriesFit file after limit) ∧
      (Increasing file → 0 < limit → PagesFit file after limit →
        Paged file limit after (eventsAfter file after)) :=
  ⟨queriesRight_iff h64, fun h hlimit hfit => paged_all h hlimit h64 hfit⟩

/-- Behind a cursor above all numbers the API still shows the first event. -/
theorem apiEvents_huge_cursor :
    apiEvents (ascii "seq=1 a\n") (2 ^ 63) 1 =
        some (ascii "\x7b\"events\":[\x7b\"sequence\":1,\"payload\":\"seq=1 a\"\x7d]" ++
          ascii ",\"count\":1\x7d") ∧
      lineEvents (ascii "seq=1 a\n") (longLongValue false (dec (2 ^ 63))) 1 = some ([], 0) ∧
      eventPage (ascii "seq=1 a\n") (2 ^ 63) 1 = [] := by
  decide +kernel

def twoEvents : Bytes := ascii "seq=1 a\nseq=2 b\n"

theorem queriesFit_twoEvents : ∀ after < 3, QueriesFit twoEvents after 1 := by
  intro after hafter
  have hpage : eventPage twoEvents after 1 =
      ([(1, ascii "seq=1 a\n"), (2, ascii "seq=2 b\n")].drop after).take 1 := by
    interval_cases after <;> decide +kernel
  have hutf : ∀ e ∈ [((1 : ℤ), ascii "seq=1 a\n"), (2, ascii "seq=2 b\n")], EventUtf8 e := by
    simp only [mem_cons, not_mem_nil, or_false, EventUtf8]
    rintro e (rfl | rfl) <;> decide +kernel
  refine ⟨by decide, .inl (by omega), ?_, ?_, ?_, ?_⟩
  · rw [hpage]
    interval_cases after <;> decide +kernel
  · rw [hpage]
    exact fun e he => hutf e (mem_of_mem_drop (mem_of_mem_take he))
  · rw [hpage]
    interval_cases after <;> decide +kernel
  · rw [hpage]
    interval_cases after <;> decide

/-- Two events, one a query. -/
theorem queries_of_two_events_right :
    QueriesRight twoEvents 0 1 ∧
      Paged twoEvents 1 0 [(1, ascii "seq=1 a\n"), (2, ascii "seq=2 b\n")] := by
  have hevents : eventsAfter twoEvents (0 : ℕ) =
      [(1, ascii "seq=1 a\n"), (2, ascii "seq=2 b\n")] := by
    decide +kernel
  have hincreasing : Increasing twoEvents := by
    unfold Increasing
    decide +kernel
  have hfit : PagesFit twoEvents 0 1 := by
    refine ⟨queriesFit_twoEvents 0 (by decide), ?_⟩
    rw [hevents]
    simp only [mem_cons, not_mem_nil, or_false]
    rintro e (rfl | rfl)
    · exact queriesFit_twoEvents 1 (by decide)
    · exact queriesFit_twoEvents 2 (by decide)
  obtain ⟨hright, hpaged⟩ := event_queries_right_iff twoEvents 0 1 (by decide)
  exact ⟨hright.mpr hfit.1, hevents ▸ hpaged hincreasing (by decide) hfit⟩

end Cubicle.Controller

import Cubicle.RpcEnvelope

/-!
# Pages of output

A read of an output log answers with a page of it. The page starts where the reader asked and
ends at a character boundary if the code can find one; the data field holds its bytes as a JSON
string, which is valid exactly when the page is UTF-8 text.
-/

namespace Cubicle.OutputPages
open ByteText Utf8Sequences JsonText JsonSpelling JsonEncoding RpcEnvelope List

/-- The page of a log that a read returns: cut back to whole characters, unless nothing would
be left. -/
def pageOf (log : Bytes) (offset maximumLength : ℕ) : Bytes :=
  let data := (log.drop offset).take maximumLength
  let safeTotal := safeUtf8PrefixLength data
  if 0 < safeTotal ∧ safeTotal < data.length then data.take safeTotal else data

def pageJson (offset : ℕ) (page : Bytes) (available : ℕ) : Bytes :=
  ascii "\x7b\"start_offset\":" ++ dec offset ++ ascii ",\"next_offset\":" ++
    dec (offset + page.length) ++ ascii ",\"end_of_stream\":" ++
    boolText (available ≤ offset + page.length) ++ ascii ",\"data\":" ++ appendStringN page ++
    ascii ",\"length\":" ++ dec page.length ++ ascii "\x7d"

variable {data : Bytes} {offset : ℕ}

variable {log page : Bytes} {stop : ℕ}

/-- A stretch of a log and the bytes that come next are a longer stretch. -/
theorem stretch_append {start : ℕ} (hstart : start ≤ stop) (hdata : data <+: log.drop stop) :
    (log.drop start).take (stop - start) ++ data =
      (log.drop start).take (stop + data.length - start) := by
  obtain ⟨rest, hrest⟩ := hdata
  have hdrop : (log.drop start).drop (stop - start) = data ++ rest := by
    rw [drop_drop, Nat.add_sub_cancel' hstart, hrest]
  rw [Nat.sub_add_comm hstart, take_add, hdrop, take_left]

theorem stretch_length_le (hstop : stop ≤ log.length) (hdata : data <+: log.drop stop) :
    stop + data.length ≤ log.length := by
  have hlength := hdata.length_le
  rw [length_drop] at hlength
  omega

theorem pageOf_length_le (log : Bytes) (offset maximumLength : ℕ) :
    (pageOf log offset maximumLength).length ≤ maximumLength ∧
      (pageOf log offset maximumLength).length ≤ log.length - offset := by
  have hdata : ((log.drop offset).take maximumLength).length =
      min maximumLength (log.length - offset) := by simp
  unfold pageOf
  dsimp only
  split_ifs
  · rw [length_take]
    omega
  · omega

def pageMembers (offset : ℕ) (page : Bytes) (available : ℕ) : Members :=
  [(ascii "start_offset", .uint offset), (ascii "next_offset", .uint (offset + page.length)),
    (ascii "end_of_stream", .bool (available ≤ offset + page.length)),
    (ascii "data", .str (transcode page)), (ascii "length", .uint page.length)]

theorem spells_pageJson (available : ℕ) (h : offset + page.length < 2 ^ 64) :
    Spells (pageJson offset page available) (.obj (pageMembers offset page available)) := by
  have hspell := spells_obj
    [.plain "start_offset" (by decide) (spells_uint (n := offset) (by omega)),
      .plain "next_offset" (by decide) (spells_uint (n := offset + page.length) h),
      .plain "end_of_stream" (by decide)
        (spells_bool (decide (available ≤ offset + page.length))),
      .plain "data" (by decide) (spells_appendStringN page),
      .plain "length" (by decide) (spells_uint (n := page.length) (by omega))]
  convert hspell using 1
  · simp [pageJson, objectText, joinComma, memberText, Field.text, Field.plain, ascii, boolText]
  · rfl

theorem pageJson_length_le (available : ℕ) (h : offset + page.length < 2 ^ 64) :
    (pageJson offset page available).length ≤ 6 * page.length + 150 := by
  have h1 := dec_length_le_u64 (n := offset) (by omega)
  have h2 := dec_length_le_u64 h
  have h3 := dec_length_le_u64 (n := page.length) (by omega)
  have h4 := appendStringN_length_le page
  have h5 := boolText_length_le (decide (available ≤ offset + page.length))
  simp [pageJson, ascii]
  omega

theorem validateValue_pageMembers {depth : ℕ} (hdepth : depth < maxDepth) (offset : ℕ)
    (available : ℕ) (hpage : page.length ≤ 8192) :
    validateValue depth (.obj (pageMembers offset page available)) = true := by
  have htr := transcode_length_le page
  have hdata : (transcode page).length ≤ maxStringBytes := by unfold maxStringBytes; omega
  have hkeys : validKeys ((pageMembers offset page available).map Prod.fst) = true := by
    simp only [pageMembers, map_cons, map_nil]
    decide
  have hle : depth ≤ maxDepth := hdepth.le
  have hnext : depth + 1 ≤ maxDepth := hdepth
  rw [validateValue, validateMembers_eq, hkeys]
  simp [validateValue, pageMembers, maxObjectMembers, hdata, hle, hnext]

/-- Every page is a valid fragment with the transcoded bytes as its data. -/
theorem parse_pageJson (available : ℕ) (hpage : page.length ≤ 8192)
    (h : offset + page.length < 2 ^ 64) :
    parse (pageJson offset page available) = some (.obj (pageMembers offset page available)) := by
  have hlen := pageJson_length_le available h
  rw [parse_spelled (spells_pageJson available h) (by unfold maxDocumentBytes; omega),
    if_pos (validateValue_pageMembers (by decide) offset available hpage)]

/-- The last bytes of a window when they do not make a complete character. -/
def cutTail (window : Bytes) : Bytes := window.drop (completeLength window)

/-- The window of a read ends with a complete character, or inside one that the code cuts off:
there are complete characters before it and it is not a lone lead byte. -/
def CleanCut (window : Bytes) : Prop :=
  cutTail window = [] ∨ 0 < completeLength window ∧ ¬ LoneLead (cutTail window)

instance (window : Bytes) : Decidable (CleanCut window) := inferInstanceAs (Decidable (_ ∨ _))

def windowOf (log : Bytes) (offset maximumLength : ℕ) : Bytes := (log.drop offset).take maximumLength

/-- A page from a character boundary is text exactly when its window ends cleanly. -/
theorem text_pageOf_iff (log : Bytes) (offset maximumLength : ℕ) {text : Bytes} (htext : Text text)
    (hwindow : windowOf log offset maximumLength <+: text) :
    Text (pageOf log offset maximumLength) ↔ CleanCut (windowOf log offset maximumLength) := by
  unfold pageOf
  dsimp only
  rw [← windowOf]
  generalize windowOf log offset maximumLength = window at hwindow ⊢
  obtain ⟨a, r, rfl, ha, hr⟩ := text_prefix_cases htext hwindow
  have htail : cutTail (a ++ r) = r := by rw [cutTail, completeLength_cut ha hr, drop_left]
  rw [CleanCut, htail, completeLength_cut ha hr, safeUtf8PrefixLength_cut ha hr]
  rcases hr with rfl | ⟨hne, hcut⟩
  · have hno : ¬ LoneLead [] := by rintro ⟨b, l, h, -⟩; simp at h
    rw [if_neg hno, if_neg (by simp)]
    simpa using ha
  have hbroken : ¬ Text (a ++ r) := fun h => not_text_cut hne hcut (text_of_append h ha)
  by_cases hlone : LoneLead r
  · -- the lone lead byte passes as a character of its own
    have hone : r.length = 1 := by obtain ⟨b, _, rfl, -⟩ := hlone; rfl
    rw [if_pos hlone, if_neg (by simp [hone])]
    exact iff_of_false hbroken (by simp [hne, hlone])
  · rw [if_neg hlone, Nat.add_zero]
    have hpos : 0 < r.length := length_pos_iff.mpr hne
    by_cases hempty : a.length = 0
    · rw [if_neg (by omega)]
      exact iff_of_false hbroken (by simp [hne, hempty])
    · rw [if_pos ⟨by omega, by simp; omega⟩, take_left]
      exact iff_of_true ha (.inr ⟨by omega, hlone⟩)

theorem pageOf_prefix_drop (log : Bytes) (offset maximumLength : ℕ) :
    pageOf log offset maximumLength <+: log.drop offset := by
  unfold pageOf
  dsimp only
  split_ifs
  · exact (List.take_prefix _ _).trans (List.take_prefix _ _)
  · exact List.take_prefix _ _

end Cubicle.OutputPages

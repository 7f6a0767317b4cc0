import Cubicle.ManagerSessions
import Cubicle.SlotTables

/-!
# Saving sessions

The session store after any number of saves, when each session has an id of its own and none is
older than the ones saved before it.
-/

namespace Cubicle.Manager
open ByteText SlotTables List

namespace Store

def authenticatedAt (r : SessionRecord) : ℕ := r.session.authenticatedAtMs

def active (s : Store) : List SessionRecord := used s.slots

/-- The store after a sequence of saves. -/
def saveAll (s : Store) (records : List SessionRecord) : Store := records.foldl save s

variable {s : Store} {r : SessionRecord}

theorem findIdx?_hasId_eq_none {sessionId : Bytes}
    (h : ∀ r ∈ s.active, r.session.sessionId ≠ sessionId) :
    s.slots.findIdx? (hasId sessionId) = none := by
  rw [findIdx?_eq_none_iff]
  intro slot hslot
  cases slot with
  | none => rfl
  | some r => simpa [hasId] using h r (mem_used.mpr hslot)

/-- The session that has to go is the oldest one. -/
theorem oldest_least (s : Store) (hfull : none ∉ s.slots) :
    ∃ d, s.slots[s.oldest]? = some (some d) ∧
      ∀ k ∈ s.active, authenticatedAt d ≤ authenticatedAt k := by
  obtain ⟨hmem, -, hleast⟩ := foldl_least s.createdAt (List.range maxSessions) 0
  have hlt : s.oldest < s.slots.length := by
    rw [s.length_eq]
    rcases hmem with hzero | hmem
    · exact hzero.trans_lt (by decide)
    · exact mem_range.mp hmem
  have hcreated : ∀ {i r}, s.slots[i]? = some (some r) → s.createdAt i = authenticatedAt r := by
    intro i r hi
    rw [createdAt, getD_eq_getElem?_getD, hi]
    rfl
  obtain ⟨d, hd⟩ : ∃ d, s.slots[s.oldest] = some d :=
    Option.ne_none_iff_exists'.mp fun hnone => hfull (hnone ▸ getElem_mem hlt)
  have hslot : s.slots[s.oldest]? = some (some d) := List.getElem?_eq_some_iff.mpr ⟨hlt, hd⟩
  refine ⟨d, hslot, fun k hk => ?_⟩
  obtain ⟨j, hj⟩ := mem_iff_getElem?.mp (mem_used.mp hk)
  obtain ⟨hjlt, -⟩ := List.getElem?_eq_some_iff.mp hj
  have hle := hleast j (mem_range.mpr (hjlt.trans_eq s.length_eq))
  rw [hcreated hj] at hle
  exact (hcreated hslot).symm.trans_le hle

/-- One save of a session with a new id that is not older than the saved ones. -/
theorem save_keepsLatest {saved : List SessionRecord}
    (h : KeepsLatest authenticatedAt saved s.slots)
    (hid : ∀ b ∈ saved, b.session.sessionId ≠ r.session.sessionId)
    (htime : ∀ b ∈ saved, authenticatedAt b ≤ authenticatedAt r) :
    KeepsLatest authenticatedAt (saved ++ [r]) (s.save r).slots := by
  have hnew : r ∉ saved := fun hr => hid r hr rfl
  have hnone : s.slots.findIdx? (hasId r.session.sessionId) = none :=
    findIdx?_hasId_eq_none fun b hb => hid b (h.subset b hb)
  have hplace : s.place r.session.sessionId =
      (s.slots.findIdx? (·.isNone)).getD s.oldest := by
    rw [place, hnone, ite_self, Option.none_or]
  change KeepsLatest _ _ (s.slots.set (s.place r.session.sessionId) (some r))
  rw [hplace]
  cases hfree : s.slots.findIdx? (·.isNone) with
  | some i =>
    obtain ⟨hlt, hslot, -⟩ := findIdx?_eq_some_iff_getElem.mp hfree
    exact h.set_free hnew htime
      (List.getElem?_eq_some_iff.mpr ⟨hlt, Option.isNone_iff_eq_none.mp hslot⟩)
  | none =>
    have hfull : none ∉ s.slots := fun hmem => by
      simpa using findIdx?_eq_none_iff.mp hfree none hmem
    obtain ⟨d, hslot, hleast⟩ := s.oldest_least hfull
    exact h.set_least hnew htime hfull hslot hleast

theorem saveAll_keepsLatest {s : Store} {saved records : List SessionRecord}
    (h : KeepsLatest authenticatedAt saved s.slots)
    (hids : ((saved ++ records).map fun r => r.session.sessionId).Nodup)
    (htimes : (saved ++ records).Pairwise fun a b => authenticatedAt a ≤ authenticatedAt b) :
    KeepsLatest authenticatedAt (saved ++ records) (s.saveAll records).slots := by
  induction records generalizing s saved with
  | nil => rwa [append_nil]
  | cons r records ih =>
    have hsplit : saved ++ r :: records = saved ++ [r] ++ records := by simp
    have hsave : KeepsLatest authenticatedAt (saved ++ [r]) (s.save r).slots := by
      apply save_keepsLatest h
      · rw [map_append, map_cons] at hids
        intro b hb heq
        exact (nodup_append.mp hids).2.2 _ (mem_map_of_mem hb) _
          (mem_cons_self ..) heq
      · intro b hb
        exact (pairwise_append.mp htimes).2.2 b hb r (mem_cons_self ..)
    rw [hsplit] at hids htimes ⊢
    exact ih hsave hids htimes

theorem find_active (hids : (s.active.map fun r => r.session.sessionId).Nodup) (hr : r ∈ s.active)
    (hne : r.session.sessionId ≠ []) : s.find r.session.sessionId = some r := by
  have hsome : (s.slots.find? (hasId r.session.sessionId)).isSome := by
    rw [find?_isSome]
    exact ⟨some r, mem_used.mp hr, by simp [hasId]⟩
  obtain ⟨slot, hslot⟩ := Option.isSome_iff_exists.mp hsome
  cases slot with
  | none => simpa [hasId] using find?_some hslot
  | some b =>
    have hfound : s.find r.session.sessionId = some b := by
      rw [find, if_neg hne, hslot]
      rfl
    obtain ⟨hmem, hid⟩ := mem_of_find hfound
    rw [hfound, inj_on_of_nodup_map hids (mem_used.mpr hmem) hr hid]

end Store

/-- After any number of saves, the store has as many of the saved sessions as fit, none of them
older than one it lost, each under an id of its own and found under it. -/
theorem sessions_kept {records : List SessionRecord}
    (hids : (records.map fun r => r.session.sessionId).Nodup)
    (htimes : records.Pairwise fun a b =>
      a.session.authenticatedAtMs ≤ b.session.authenticatedAtMs) :
    let kept := (Store.empty.saveAll records).active
    (kept.map fun r => r.session.sessionId).Nodup ∧
      (∀ r ∈ kept, r ∈ records) ∧ kept.length = min records.length maxSessions ∧
      (∀ r ∈ records, r ∉ kept → ∀ k ∈ kept,
        r.session.authenticatedAtMs ≤ k.session.authenticatedAtMs) ∧
      (records.Pairwise (fun a b => a.session.authenticatedAtMs < b.session.authenticatedAtMs) →
        kept.Perm (records.drop (records.length - maxSessions))) ∧
      ∀ r ∈ kept, r.session.sessionId ≠ [] →
        (Store.empty.saveAll records).find r.session.sessionId = some r := by
  have hkept : KeepsLatest Store.authenticatedAt records (Store.empty.saveAll records).slots :=
    @Store.saveAll_keepsLatest .empty [] records (KeepsLatest.empty maxSessions) hids htimes
  have hkeptIds :
      ((Store.empty.saveAll records).active.map fun r => r.session.sessionId).Nodup := by
    apply hkept.nodup.map_on
    intro a ha b hb heq
    exact inj_on_of_nodup_map hids (hkept.subset a ha) (hkept.subset b hb) heq
  refine ⟨hkeptIds, hkept.subset, ?_, hkept.latest, fun hstrict => ?_, fun r hr hne => ?_⟩
  · rw [← (Store.empty.saveAll records).length_eq]
    exact hkept.length
  · rw [← (Store.empty.saveAll records).length_eq]
    exact hkept.perm_drop hstrict
  · exact Store.find_active hkeptIds hr hne

/-- The session that is authenticated at a given time, with an id of its own. -/
def sessionAt (time : ℕ) : SessionRecord where
  session := ⟨List.replicate (time + 1) 0x30, [], time, time⟩
  resumeSecret := []
  peerUid := 0
  peerGid := 0
  managerGeneration := 0
  clientPublicKeyHex := []

/-- Of 130 sessions the first two are lost. -/
theorem sessions_kept_130 :
    (Store.empty.saveAll ((List.range 130).map sessionAt)).active.Perm
      (((List.range 130).map sessionAt).drop 2) := by
  have hstrict : ((List.range 130).map sessionAt).Pairwise fun a b =>
      a.session.authenticatedAtMs < b.session.authenticatedAtMs :=
    pairwise_map.mpr (pairwise_lt_range (n := 130))
  have hids : (((List.range 130).map sessionAt).map fun r => r.session.sessionId).Nodup := by
    rw [map_map]
    apply nodup_range.map
    intro i j heq
    simpa [sessionAt] using congrArg List.length heq
  have hkept := (sessions_kept hids (hstrict.imp le_of_lt)).2.2.2.2.1 hstrict
  rwa [length_map, length_range] at hkept

end Cubicle.Manager

import TFDB.Query
import TFDB.Fresh

/-!
# Damaged headers

A slot whose partition header does not validate may still hold a footer or a first block of the
volume.  Open then has evidence that the slot was in use: a lazy read-only open records it as
damaged and every scan starts with its gap, a strict open fails, and a writable open refuses
before it writes anything (`damaged_slot_reported`).

The evidence is not looked for behind a header of 1024 zero bytes, so that is the one kind of
damage for which all of this fails.
-/

set_option autoImplicit false

namespace TFDB

open ByteLib Writer

/-! ## Gaps of damaged slots -/

theorem Query.emit_extends {q : Query} {qs qs' : QueryState} {ev : BlockEvent} {r : Option Status}
    (h : q.emit qs ev = (qs', r)) : qs.events <+: qs'.events := by
  have hqs : qs' = qs.deliver ev := by
    unfold Query.emit at h
    simp only at h
    split at h
    · exact (Prod.mk.inj h).1.symm
    · split at h
      · exact (Prod.mk.inj h).1.symm
      · exact (Prod.mk.inj h).1.symm
  rw [hqs]
  exact List.prefix_append ..

section
variable (env : Env) (src : Source Status) (q : Query)

/-- The events of a partition's entries come behind those before. -/
theorem queryEntries_extends (p : PartitionState) (es : List IndexEntry) (qs : QueryState) :
    qs.events <+: (ReadProg.run src (queryEntries env q p es qs)).1.events := by
  induction es generalizing qs with
  | nil => exact List.prefix_refl _
  | cons e es ih =>
    unfold queryEntries
    split
    · exact ih qs
    simp only [ReadProg.run_bind', Rd.run_outcome]
    split
    · split
      · rename_i heq
        exact Query.emit_extends heq
      · rename_i heq
        exact (Query.emit_extends heq).trans (ih _)
    · split
      · rename_i heq
        exact Query.emit_extends heq
      · rename_i heq
        split
        · exact Query.emit_extends heq
        · exact (Query.emit_extends heq).trans (ih _)

theorem queryPartition_extends (p : PartitionState) (qs : QueryState) :
    qs.events <+: (ReadProg.run src (queryPartition env q p qs)).1.events := by
  unfold queryPartition
  split
  · exact List.prefix_refl _
  simp only [ReadProg.run_bind', Rd.run_outcome]
  split
  · exact List.prefix_refl _
  · simp only [ReadProg.run_bind', Rd.run_outcome]
    split
    · exact List.prefix_refl _
    · exact Query.emit_extends rfl
    · split
      · split
        · rename_i heq
          exact Query.emit_extends heq
        · rename_i heq
          exact (Query.emit_extends heq).trans (queryEntries_extends ..)
      · exact queryEntries_extends ..

theorem queryPartitions_extends (ps : List PartitionState) (qs : QueryState) :
    qs.events <+: (ReadProg.run src (queryPartitions env q ps qs)).1.events := by
  induction ps generalizing qs with
  | nil => exact List.prefix_refl _
  | cons p ps ih =>
    unfold queryPartitions
    simp only [ReadProg.run_bind']
    have hp := queryPartition_extends env src q p qs
    split
    · rename_i heq
      rw [heq] at hp
      exact hp
    · rename_i heq
      rw [heq] at hp
      exact hp.trans (ih _)

end

/-- The call has reported the slot, or it ended with the gap of another damaged slot because the
visitor or its options did not let it go on. -/
def GapReported (q : Query) (slots : List UInt32) (slot : UInt32) (events : List BlockEvent) : Prop :=
  slotGap slot ∈ events ∨
    ∃ other ∈ slots, events.getLast? = some (slotGap other) ∧
      (q.visitor events = false ∨ q.continueOnGap = false)

/-- The gaps of damaged slots come one after the other. -/
theorem queryCorruptSlots_reports (q : Query) {slot : UInt32} (slots : List UInt32)
    (hs : slot ∈ slots) (qs : QueryState) :
    (slotGap slot ∈ (queryCorruptSlots q slots qs).1.events) ∨
      ∃ st, (queryCorruptSlots q slots qs).2 = some st ∧
        GapReported q slots slot (queryCorruptSlots q slots qs).1.events := by
  induction slots generalizing qs with
  | nil => cases hs
  | cons t slots ih =>
    unfold queryCorruptSlots
    have hev : ({ kind := .corruptGap, metadata := { partitionSlot := t }
                  detail := ⟨.corrupt, "partition header is damaged"⟩ } : BlockEvent) = slotGap t := rfl
    rw [hev]
    cases hem : q.emit qs (slotGap t) with
    | mk qs' r =>
      have hqs : qs' = qs.deliver (slotGap t) ∧
          (r ≠ none → q.visitor qs'.events = false ∨ q.continueOnGap = false) := by
        unfold Query.emit at hem
        simp only at hem
        split at hem
        · rename_i hv
          cases hem
          exact ⟨rfl, fun _ => Or.inl (by simpa using hv)⟩
        · split at hem
          · rename_i hg
            cases hem
            exact ⟨rfl, fun _ => Or.inr (by simpa using hg.2)⟩
          · cases hem
            exact ⟨rfl, fun h => absurd rfl h⟩
      obtain ⟨rfl, hstop⟩ := hqs
      cases r with
      | some st =>
        refine Or.inr ⟨st, rfl, Or.inr ⟨t, List.mem_cons_self .., ?_, hstop (by simp)⟩⟩
        simp [QueryState.deliver]
      | none =>
        simp only
        rcases List.mem_cons.mp hs with rfl | hs
        · left
          have : ∀ (slots : List UInt32) (qs : QueryState),
              qs.events <+: (queryCorruptSlots q slots qs).1.events := by
            intro slots
            induction slots with
            | nil => exact fun qs => List.prefix_refl _
            | cons u slots ihs =>
              intro qs
              unfold queryCorruptSlots
              split
              · rename_i heq
                exact Query.emit_extends heq
              · rename_i heq
                exact (Query.emit_extends heq).trans (ihs _)
          refine (this slots _).subset ?_
          simp [QueryState.deliver]
        · rcases ih hs (qs.deliver (slotGap t)) with h | ⟨st, hst, h⟩
          · exact Or.inl h
          · refine Or.inr ⟨st, hst, ?_⟩
            rcases h with h | ⟨u, hu, h⟩
            · exact Or.inl h
            · exact Or.inr ⟨u, List.mem_cons_of_mem _ hu, h⟩

/-- A query on a store with damaged slots reports each of them, whatever it reads. -/
theorem query_reports (s : Store) {q : Query} (hv : q.Valid) {slot : UInt32}
    (hs : slot ∈ s.corruptSlots) (src : Source Status) :
    GapReported q s.corruptSlots slot (ReadProg.run src (s.query q)).1.events := by
  have hrun : GapReported q s.corruptSlots slot
      (ReadProg.run src (query.run s.env q s.partitions s.corruptSlots)).1.events := by
    unfold query.run
    have h := queryCorruptSlots_reports q s.corruptSlots hs {}
    split
    · rename_i heq
      rw [heq] at h
      rcases h with h | ⟨st, -, h⟩
      · exact Or.inl h
      · exact h
    · rename_i heq
      rw [heq] at h
      rcases h with h | ⟨st, hst, -⟩
      · exact Or.inl ((queryPartitions_extends ..).subset h)
      · cases hst
  unfold Store.query query
  cases hr : q.range with
  | none => exact hrun
  | some r =>
    obtain ⟨h1, h2⟩ := hv r hr
    simp only
    rw [if_neg (Int64.not_le.mpr h1), if_neg h2]
    exact hrun

/-! ## Opens of a volume with a damaged slot -/

section
variable {env : Env} {m : Image}

/-- The footer or the first block of the slot is one of this volume and slot. -/
def HoldsEvidence (env : Env) (m : Image) (slot : UInt32) : Prop :=
  footerEvidence env slot
      (m.window (env.partitionBase slot + env.footerOffset) partitionFooterEncodedSize) = true ∨
    blockEvidence env slot
      (m.window (env.partitionBase slot + partitionHeaderRegionSize) blockHeaderEncodedSize) = true

/-- The bytes of the slot's partition header are all zero. -/
def HeaderZeroed (env : Env) (m : Image) (slot : UInt32) : Prop :=
  (m.window (env.partitionBase slot) partitionHeaderEncodedSize).all (· == 0) = true

theorem slotEvidence_iff {slot : UInt32} (h : HoldsEvidence env m slot) :
    slotEvidence env m slot = true ↔ ¬ HeaderZeroed env m slot := by
  unfold slotEvidence HeaderZeroed
  simp only [Bool.and_eq_true, Bool.not_eq_true', Bool.not_eq_true, and_iff_left_iff_imp]
  intro _
  rcases h with h | h
  · simp [h]
  · simp [h]

/-- A strict open does not get past a damaged slot. -/
theorem recoverSlots_strict_undamaged (g : Geometry env) (hm : env.volume.volumeSize.toNat ≤ m.size)
    (slots : List UInt32) (hs : ∀ slot ∈ slots, slot < env.volume.partitionCount) {r r' : Recovery}
    (h : Rd.run (imageSource m) (recoverSlots env true slots r) = .ok r') :
    ∀ slot ∈ slots, slotDamaged env m slot = false := by
  induction slots generalizing r with
  | nil => exact fun slot h => (by cases h)
  | cons slot slots ih =>
    have hlt := hs slot (List.mem_cons_self ..)
    have ih' {r : Recovery} := ih (r := r) fun t ht => hs t (List.mem_cons_of_mem _ ht)
    unfold recoverSlots at h
    rw [Rd.run_bind] at h
    obtain ⟨x, hx, h⟩ := bind_ok_inv h
    have hund : slotDamaged env m slot = false := by
      cases hh : slotHeader env m slot with
      | ok hd => exact slotDamaged_of_ok hh
      | error e =>
        rw [slotDamaged_of_error hh]
        by_contra hev
        simp only [recoverHeader, Rd.run_bind, Rd.run_attempt, Rd.bind_ok, run_slotHeader g hm hlt, hh,
          Rd.run_ite, Rd.run_fail, run_currentVolumeEvidence g hm hlt, Bool.not_eq_false] at hx hev
        simp only [hev, if_true, ite_self] at hx
        cases hx
    have hrest : ∃ r, Rd.run (imageSource m) (recoverSlots env true slots r) = .ok r' := by
      cases x with
      | empty => exact ⟨_, h⟩
      | damaged => exact ⟨_, h⟩
      | valid hd =>
        simp only [Rd.run_ite, Rd.run_fail] at h
        split at h
        · cases h
        split at h
        · cases h
        rw [Rd.run_bind] at h
        obtain ⟨p, _, h⟩ := bind_ok_inv h
        exact ⟨_, h⟩
    obtain ⟨r'', hr⟩ := hrest
    intro t ht
    rcases List.mem_cons.mp ht with rfl | ht
    · exact hund
    · exact ih' hr t ht

/-- The slot is treated as damaged: the open is not a strict one, the store knows the slot, every
scan reports it, and a writable open refuses without a write. -/
structure TreatedAsDamaged (o : OpenOptions) (s : Store) (slot : UInt32) : Prop where
  lazy : o.verifyPayloadsOnOpen = false
  known : slot ∈ s.corruptSlots
  scans : ∀ q : Query, q.Valid → ∀ src,
    GapReported q s.corruptSlots slot (ReadProg.run src (s.query q)).1.events
  refuses : o.writable = true → ∃ st, startWriter s = .done (.error st, s)

/-- **Damaged headers with evidence.**  On every image, a slot whose header does not validate but
which holds a footer or a first block of the volume is treated as damaged by every open that gets
past the recovery, exactly if its header is not zeroed. -/
theorem damaged_slot_reported {m : Image} {o : OpenOptions} {random : Except Status (UInt64 × UInt64)}
    {s : Store} (hopen : Rd.run (imageSource m) (recover m.size o random) = .ok s) {slot : UInt32}
    (hslot : slot < s.env.volume.partitionCount) {e : Status}
    (hbad : slotHeader s.env m slot = .error e) (hev : HoldsEvidence s.env m slot) :
    TreatedAsDamaged o s slot ↔ ¬ HeaderZeroed s.env m slot := by
  obtain ⟨-, g, hm, ⟨id, -, hs⟩, -, -, r, hr⟩ := recover_inv hopen
  have hmem : slot ∈ s.corruptSlots ↔ ¬ HeaderZeroed s.env m slot := by
    have : s.corruptSlots = (slotList s.env).filter (slotDamaged s.env m) := by
      rw [hs]
      rfl
    rw [this, List.mem_filter, slotDamaged_of_error hbad, slotEvidence_iff hev]
    exact and_iff_right (mem_slotList.mpr hslot)
  refine ⟨fun h => hmem.mp h.known, fun hz => ?_⟩
  have hlazy : o.verifyPayloadsOnOpen = false := by
    by_contra hstrict
    rw [Bool.not_eq_false] at hstrict
    rw [hstrict] at hr
    have := recoverSlots_strict_undamaged g hm (slotList s.env) (fun _ h => mem_slotList.mp h) hr slot
      (mem_slotList.mpr hslot)
    rw [slotDamaged_of_error hbad, (slotEvidence_iff hev).mpr hz] at this
    cases this
  refine ⟨hlazy, hmem.mpr hz, fun q hq src => query_reports s hq (hmem.mpr hz) src, fun _ => ?_⟩
  refine ⟨⟨.corrupt, "writable open refuses ambiguous damaged partition headers"⟩, ?_⟩
  have hne : s.corruptSlots ≠ [] := List.ne_nil_of_mem (hmem.mpr hz)
  show WriteProg.bind _ _ = _
  simp only [WriteProg.bind, Wr.get, if_pos hne]
  rfl

end

/-! ## A slot with a block and a damaged header -/

namespace Sample

/-- The formatted volume with a first block in slot 0 and one byte where its header starts. -/
def evidenceImage (x : UInt8) : Image :=
  ((formatted.volatile (Item.bytes env)).write 12288
    (Item.bytes env (.frame (block 0 (0, 0) (3, 4)) record record))).write 8192 [x]

theorem evidenceImage_byte (x : UInt8) {a : Nat} (h1 : 8192 < a)
    (h2 : a < 12288 ∨ 12417 ≤ a) : (evidenceImage x).byte a = 0 := by
  rw [evidenceImage, Image.write_byte_out (by simp only [List.length_singleton]; omega),
    Image.write_byte_out (by rw [Item.bytes_frame_length]; simp only [record, List.length_singleton]; omega),
    formatted_seen, Image.write_byte_out (by rw [Item.bytes_volume_length]; omega),
    Image.write_byte_out (by rw [Item.bytes_volume_length]; omega)]
  rfl

theorem evidenceImage_first (x : UInt8) : (evidenceImage x).byte 8192 = x := by
  rw [evidenceImage, Image.write_byte_in (Nat.le_refl _) (by rw [List.length_singleton]; decide)]
  rfl

theorem evidenceImage_window (x : UInt8) {o n : Nat} (h : o + n ≤ 8192) :
    (evidenceImage x).window o n = (formatted.volatile (Item.bytes env)).window o n := by
  rw [evidenceImage, Image.window_write_out (by omega), Image.window_write_out (by omega)]

theorem evidenceImage_holds (x : UInt8) : HoldsEvidence env (evidenceImage x) 0 := by
  right
  have hw : (evidenceImage x).window (env.partitionBase 0 + partitionHeaderRegionSize)
      blockHeaderEncodedSize = encodeBlockHeader (block 0 (0, 0) (3, 4)) := by
    rw [evidenceImage, Image.window_write_out (by rw [List.length_singleton]; decide)]
    have hframe : ((formatted.volatile (Item.bytes env)).write 12288
        (Item.bytes env (.frame (block 0 (0, 0) (3, 4)) record record))).window 12288
          (blockHeaderEncodedSize + record.length) =
            encodeBlockHeader (block 0 (0, 0) (3, 4)) ++ record :=
      Image.window_write_same _ (Item.bytes_frame_length env _ record record).symm
    exact (window_frame hframe).1
  rw [blockEvidence, hw, decodeBlockHeader_encode (by rfl)]
  rfl

theorem evidenceImage_size (x : UInt8) :
    env.volume.volumeSize.toNat ≤ (evidenceImage x).size := formatted_blank.size

/-- The volume opens whatever the first header byte is, and slot 0 has no valid header. -/
theorem evidenceImage_opens {x : UInt8} (hx : x ≠ magicByte) :
    openReadOnly [] (evidenceImage x) =
        .ok (openedStore env (evidenceImage x) { codecs := [] } (0, 0)) ∧
      ∃ e, slotHeader env (evidenceImage x) 0 = .error e := by
  have hv : Rd.run (imageSource (evidenceImage x)) readVolumeHeader = .ok env.volume := by
    refine run_readVolumeHeader geometry (evidenceImage_size x) ?_ ?_
    · rw [evidenceImage_window x (by decide)]
      exact formatted_blank.first
    · rw [evidenceImage_window x (by decide)]
      exact formatted_blank.second
  have hfirst : ∀ slot : UInt32, slot < env.volume.partitionCount →
      (evidenceImage x).byte (env.partitionBase slot) ≠ magicByte := by
    intro slot hs
    rcases slots hs with rfl | rfl
    · rw [show env.partitionBase 0 = 8192 from rfl, evidenceImage_first]
      exact hx
    · rw [show env.partitionBase 1 = 17024 from rfl, evidenceImage_byte x (by decide) (by decide)]
      exact blank_byte
  have hnone : slotStates env (evidenceImage x) = [] := by
    refine List.filterMap_eq_nil_iff.mpr fun slot hs => ?_
    obtain ⟨e, he, -⟩ := slotHeader_foreign (hfirst slot (mem_slotList.mp hs))
    exact slotState_of_error he
  obtain ⟨s, hs⟩ := recover_isOk geometry (evidenceImage_size x) hv (o := { codecs := [] }) rfl rfl
    (show prepareWriter env { codecs := [] } (.ok (0, 0)) = .ok (0, 0) from rfl)
    (fun slot hs => by
      obtain ⟨e, he, hcode⟩ := slotHeader_foreign (hfirst slot hs)
      rw [slotFails_of_error he, hcode]
      exact fun hf => absurd hf.1 (by decide))
    (by rw [hnone]; exact ⟨fun p hp => (by cases hp), List.nodup_nil⟩)
  obtain ⟨⟨id, hid, rfl⟩, -⟩ := recover_ok geometry (evidenceImage_size x)
    (fun v hv' => by rw [hv] at hv'; cases hv'; rfl) (o := { codecs := [] }) rfl hs
  cases hid
  exact ⟨hs, (slotHeader_foreign (hfirst 0 (by decide))).imp fun _ h => h.1⟩

end Sample

/-- With a zeroed header the slot is not known as damaged although its first block is there. -/
theorem zeroed_header_ignored : ∃ (s : Store) (e : Status),
    openReadOnly [] (Sample.evidenceImage 0) = .ok s ∧
      slotHeader s.env (Sample.evidenceImage 0) 0 = .error e ∧
      HoldsEvidence s.env (Sample.evidenceImage 0) 0 ∧
      0 ∉ s.corruptSlots ∧ ¬ TreatedAsDamaged {} s 0 := by
  obtain ⟨hopen, e, he⟩ := Sample.evidenceImage_opens (x := 0) Sample.blank_byte
  suffices hunknown : 0 ∉ (openedStore Sample.env (Sample.evidenceImage 0) { codecs := [] }
      (0, 0)).corruptSlots from
    ⟨_, e, hopen, he, Sample.evidenceImage_holds 0, hunknown, fun h => hunknown h.known⟩
  intro hknown
  have hmem : (0 : UInt32) ∈ (slotList Sample.env).filter (slotDamaged Sample.env (Sample.evidenceImage 0)) :=
    hknown
  have hz : HeaderZeroed Sample.env (Sample.evidenceImage 0) 0 := by
    unfold HeaderZeroed
    rw [List.all_eq_true]
    intro b hb
    obtain ⟨i, hi, rfl⟩ := List.mem_map.mp hb
    have hi' : i < 1024 := List.mem_range.mp hi
    rw [show Sample.env.partitionBase 0 = 8192 from rfl]
    rcases Nat.eq_zero_or_pos i with rfl | hpos
    · rw [Nat.add_zero, Sample.evidenceImage_first]
      rfl
    · rw [Sample.evidenceImage_byte 0 (by omega) (by omega)]
      rfl
  rw [List.mem_filter, slotDamaged_of_error he] at hmem
  exact (slotEvidence_iff (Sample.evidenceImage_holds 0)).mp hmem.2 hz

/-- With any other damage the slot is treated as damaged. -/
theorem damaged_header_known : ∃ s : Store,
    openReadOnly [] (Sample.evidenceImage 1) = .ok s ∧ TreatedAsDamaged {} s 0 := by
  obtain ⟨hopen, e, he⟩ := Sample.evidenceImage_opens (x := 1) (by decide)
  refine ⟨_, hopen, ?_⟩
  refine (damaged_slot_reported hopen (by decide) he (Sample.evidenceImage_holds 1)).mpr fun hz => ?_
  have := List.all_eq_true.mp hz _ (List.mem_map_of_mem (List.mem_range.mpr (show 0 < 1024 by decide)))
  rw [Nat.add_zero, show (openedStore Sample.env (Sample.evidenceImage 1) { codecs := [] } (0, 0)).env.partitionBase 0 = 8192 from rfl,
    Sample.evidenceImage_first] at this
  exact absurd this (by decide)

end TFDB

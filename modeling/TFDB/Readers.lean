import TFDB.RustEvents

/-!
# Two readers of one image

The C++ store, opened read-only, and the Rust reader make the same of an image, whatever its bytes
are, unless one of the differences of `Alike` shows.

* `agree_readVolumeHeader`, `agree_openSlots` — the volume header, and the recovery of every slot;
* `agree_open` — the two openings fail with one class, or recover the same partitions;
* `readers_agree` — and then every call has the same events.
-/

set_option autoImplicit false

namespace TFDB

open ByteLib

/-! ## The volume header -/

theorem Rust.decodeVolumeHeader_ok {bs : Bytes} {v : VolumeHeader}
    (h : Rust.decodeVolumeHeader bs = .ok v) :
    (v.volumeIdHigh ≠ 0 ∨ v.volumeIdLow ≠ 0) ∧ 2 ≤ v.partitionCount.toNat ∧ v.partitionSize ≠ 0 ∧
      v.maxBlockPayload ≠ 0 := by
  unfold Rust.decodeVolumeHeader at h
  cases hcommon : Rust.common bs volumeMagic volumeHeaderEncodedSize 72 with
  | error e =>
    rw [hcommon, Rust.error_bind] at h
    cases h
  | ok bytes =>
    rw [hcommon, Rust.ok_bind] at h
    cases hres : Rust.reservedZero bytes 76 volumeHeaderEncodedSize "volume header" with
    | error e =>
      rw [hres, Rust.error_bind] at h
      cases h
    | ok u =>
      rw [hres, Rust.ok_bind] at h
      simp only at h
      split at h
      · cases h
      rename_i hid
      split at h
      · cases h
      rename_i hgeo
      cases h
      push Not at hgeo
      obtain ⟨hcount, hpart, hmax, -⟩ := hgeo
      refine ⟨?_, ?_, hpart, hmax⟩
      · by_cases hhigh : get64 bytes 16 = 0
        · exact .inr fun hlow => hid ⟨hhigh, hlow⟩
        · exact .inl hhigh
      · exact Nat.not_lt.mp fun hlt => absurd (UInt32.lt_iff_toNat_lt.mpr hlt) hcount

/-- The choice between the two copies. -/
theorem agree_select {a b : Except Status VolumeHeader} {a' b' : Except Rust.Error VolumeHeader}
    (ha : Agree Eq a a') (hb : Agree Eq b b') :
    Agree Eq (selectVolumeHeader a b) (Rust.selectVolumeHeader a' b') := by
  obtain ⟨v, v', rfl, rfl, rfl⟩ | ⟨e, e', rfl, rfl, he⟩ := ha.elim <;>
    obtain ⟨w, w', rfl, rfl, rfl⟩ | ⟨d, d', rfl, rfl, hd⟩ := hb.elim
  · unfold selectVolumeHeader Rust.selectVolumeHeader
    by_cases heq : v = w
    · simp only [heq, if_true, ne_eq, not_true_eq_false, if_false]
      exact rfl
    · simp only [ne_eq, heq, not_false_eq_true, if_false, if_true]
      exact .corrupt _ _
  · exact rfl
  · exact rfl
  · unfold selectVolumeHeader Rust.selectVolumeHeader
    rcases he with ⟨he, he'⟩ | ⟨he, he'⟩
    · rcases hd with ⟨hd, hd'⟩ | ⟨hd, hd'⟩
      · simp only [he, he', hd, hd', reduceCtorEq, if_false, Status.isIo]
        exact .corrupt _ _
      · simp only [he, he', hd, hd', reduceCtorEq, if_false, if_true]
        exact .inr ⟨hd, hd'⟩
    · simp only [he, he', if_true]
      exact .inr ⟨he, he'⟩

theorem Rust.selectVolumeHeader_ok {a b : Except Rust.Error VolumeHeader} {v : VolumeHeader}
    (h : Rust.selectVolumeHeader a b = .ok v) : a = .ok v ∨ b = .ok v := by
  unfold Rust.selectVolumeHeader at h
  split at h
  · split at h
    · cases h
    · exact .inl h
  · exact .inl h
  · exact .inr h
  · split at h
    · cases h
    split at h
    · cases h
    split at h
    · cases h
    split at h
    · cases h
    · cases h

theorem Rust.readDecode_ok {α : Type} {file : Rust.File} {off n : Nat}
    {decoder : Bytes → Except Rust.Error α} {a : α} (h : Rust.readDecode file off n decoder = .ok a) :
    ∃ bytes, decoder bytes = .ok a := by
  unfold Rust.readDecode at h
  cases hfile : file off n with
  | error e =>
    rw [hfile, Rust.error_bind] at h
    cases h
  | ok bytes =>
    rw [hfile, Rust.ok_bind] at h
    exact ⟨bytes, h⟩

/-- The two copies of the volume header are both read, and neither has a zero ID. -/
structure CopiesNamed (m : Image) : Prop where
  size : volumePrefixSize ≤ m.size
  first : ¬ ZeroVolumeId (m.window 0 volumeHeaderEncodedSize)
  second : ¬ ZeroVolumeId (m.window volumeHeaderCopySize volumeHeaderEncodedSize)

section
variable {m : Image} (hm : CopiesNamed m)
include hm

/-- **The volume header.** -/
theorem agree_readVolumeHeader :
    Agree Eq (Rd.run (imageSource m) readVolumeHeader)
      (Rust.selectVolumeHeader
        (Rust.readDecode (Rust.fileOf m) 0 volumeHeaderEncodedSize Rust.decodeVolumeHeader)
        (Rust.readDecode (Rust.fileOf m) volumeHeaderCopySize volumeHeaderEncodedSize
          Rust.decodeVolumeHeader)) := by
  have hsize := hm.size
  have hread (off : Nat) (h : off + volumeHeaderEncodedSize ≤ volumePrefixSize) :
      imageSource m off volumeHeaderEncodedSize = .ok (m.window off volumeHeaderEncodedSize) :=
    if_neg (by omega)
  have hfile (off : Nat) (h : off + volumeHeaderEncodedSize ≤ volumePrefixSize) :
      Rust.readDecode (Rust.fileOf m) off volumeHeaderEncodedSize Rust.decodeVolumeHeader =
        Rust.decodeVolumeHeader (m.window off volumeHeaderEncodedSize) := by
    unfold Rust.readDecode
    rw [fileOf_ok (by omega), Rust.ok_bind]
  have hrun : Rd.run (imageSource m) readVolumeHeader =
      selectVolumeHeader (decodeVolumeHeader (m.window 0 volumeHeaderEncodedSize))
        (decodeVolumeHeader (m.window volumeHeaderCopySize volumeHeaderEncodedSize)) := by
    simp only [readVolumeHeader, Rd.run_bind, Rd.run_attempt, Rd.run_readExact,
      hread 0 (by decide), hread volumeHeaderCopySize (by decide), Rd.bind_ok, Rd.run_lift]
  rw [hrun, hfile 0 (by decide), hfile volumeHeaderCopySize (by decide)]
  exact agree_select ((agree_volumeHeader (Image.window_length ..)).mpr hm.first)
    ((agree_volumeHeader (Image.window_length ..)).mpr hm.second)

end

/-! ## One slot -/

theorem Scan.rust_few {scan : Scan} (h : scan.entries.length < 2 ^ 32) :
    scan.rust.entries.length < 2 ^ 32 := h

@[simp] theorem scannedState_dataEnd (h : PartitionHeader) (scan : Scan) :
    (scannedState h scan).dataEnd = scan.dataEnd := (summarize_fields _).2.1

/-- The gap of a damaged header. -/
def SameGap (slot : UInt32) (gap : Rust.Gap) : Prop := SameEvent (slotGap slot) (.gap gap)

/-- The gap the Rust reader keeps of one. -/
def Rust.headerGap (slot : UInt32) : Rust.Gap where
  kind := .corrupt
  partitionSlot := slot
  partitionGeneration := 0
  blockSequence := none
  message := "partition header is damaged"

theorem sameGap (slot : UInt32) : SameGap slot (Rust.headerGap slot) :=
  ⟨rfl, rfl, rfl, rfl, fun n hn => (by cases hn)⟩

/-- A partition that a slot holds, and what the Rust reader has of it. -/
def Recovered (env : Env) (m : Image) (p : PartitionState) (p' : Rust.PartitionState) : Prop :=
  p ∈ slotStates env m ∧ SameState p p'

/-- What the Rust reader keeps of a partition without a valid footer. -/
def Rust.scannedState (header : Rust.PartitionHeader) (scan : Rust.ScanResult) :
    Rust.PartitionState where
  header := header
  footer := none
  activeEntries := scan.entries
  dataEnd := scan.dataEnd
  blockCount := UInt32.ofNat scan.entries.length
  minTimeNs := (Rust.summarize scan.entries).2.1
  maxTimeNs := (Rust.summarize scan.entries).2.2
  flags := (Rust.summarize scan.entries).1

theorem Rust.openPartition_scanned {file : Rust.File} {volume : VolumeHeader}
    {header : Rust.PartitionHeader} {index : Nat} {scan : Rust.ScanResult}
    (hfooter : Rust.openFooter file volume header = .ok none)
    (hindex : Rust.indexBegin volume = .ok index)
    (hscan : Rust.scanPartition file volume header index = .ok scan)
    (hfew : scan.entries.length < 2 ^ 32) :
    Rust.openPartition file volume header = .ok (Rust.scannedState header scan) := by
  unfold Rust.openPartition
  rw [hfooter, Rust.ok_bind]
  simp only
  rw [hindex, Rust.ok_bind, hscan, Rust.ok_bind]
  exact if_neg (Nat.not_le.mpr hfew)

/-- The partition of a scan. -/
theorem Recovered.scanned {env : Env} {m : Image} {h : PartitionHeader} {h' : Rust.PartitionHeader}
    (hsame : SameHeader h h') {scan : Scan} (hmem : TFDB.scannedState h scan ∈ slotStates env m) :
    Recovered env m (TFDB.scannedState h scan) (Rust.scannedState h' scan.rust) := by
  refine ⟨hmem, ?_, ?_, fun _ => ?_, ?_⟩
  · rw [scannedState_header]
    exact hsame
  · rw [scannedState_isSealed]
    rfl
  · rw [scannedState_activeIndex]
    rfl
  · rw [scannedState_dataEnd]
    rfl

section
variable {env : Env} (g : Geometry env) {m : Image} (hm : env.volume.volumeSize.toNat ≤ m.size)
  (ha : Alike env m) (hc : env.codecs = []) {slot : UInt32} (hs : slot < env.volume.partitionCount)
include g hm ha hc hs

/-- The header of a slot, or what its absence means. -/
theorem openHeader_same :
    (∃ h h', slotHeader env m slot = .ok h ∧ SameHeader h h' ∧
      Rust.openHeader (Rust.fileOf m) env.volume slot = .ok (.valid h')) ∨
    ∃ e e', slotHeader env m slot = .error e ∧
      ((e.code = .corrupt ∧ e'.kind = .corrupt) ∨ (e.code = .unsupported ∧ e'.kind = .unsupported)) ∧
      Rust.openHeader (Rust.fileOf m) env.volume slot =
        if slotEvidence env m slot then
          if e'.kind = .unsupported then .error e' else .ok (.damaged (Rust.headerGap slot))
        else .ok .empty := by
  have hin := (slot_regions g slot).2.2.1
  have hread := slot_file g hm hs (o := 0) (n := partitionHeaderEncodedSize) (by omega)
  have hevidence := evidence_same g hm hs (ha.unwrapped slot hs)
  have hshort := ha.short slot hs
  have hnamed := ha.named slot hs
  have hlen := Image.window_length m (env.partitionBase slot) partitionHeaderEncodedSize
  rw [Nat.add_zero] at hread
  unfold slotHeader
  generalize m.window (env.partitionBase slot) partitionHeaderEncodedSize = bytes at *
  have hag : Agree SameHeader (acceptPartitionHeader env slot bytes)
      (Rust.acceptHeader env.volume slot bytes) :=
    agree_header hc (indexBegin_same g) hlen hshort hnamed
  unfold Rust.openHeader
  rw [partitionBase_same g hs, Rust.ok_bind, hread, Rust.ok_bind]
  obtain ⟨h, h', hh, hh', hsame⟩ | ⟨e, e', he, he', hclass⟩ := hag.elim
  · refine .inl ⟨h, h', hh, hsame, ?_⟩
    unfold Rust.acceptHeader at hh'
    rw [hh']
  · refine .inr ⟨e, e', he, hclass, ?_⟩
    unfold Rust.acceptHeader at he'
    rw [he']
    simp only
    rw [hevidence, Rust.ok_bind]
    rfl

omit ha hc in
/-- The footer of a partition, or what its absence means. -/
theorem openFooter_same {h : PartitionHeader} {h' : Rust.PartitionHeader} (hslot : h.slot = slot)
    (hsame : SameHeader h h') :
    (∃ f, slotFooter env m h = .ok f ∧
      Rust.openFooter (Rust.fileOf m) env.volume h' = .ok (some f)) ∨
    (∃ e, slotFooter env m h = .error e ∧ e.code = .corrupt ∧
      Rust.openFooter (Rust.fileOf m) env.volume h' = .ok none) ∨
    ∃ e e', slotFooter env m h = .error e ∧ e.code = .unsupported ∧ e'.kind = .unsupported ∧
      Rust.openFooter (Rust.fileOf m) env.volume h' = .error e' := by
  subst hslot
  have hslot : h'.slot = h.slot := by rw [hsame]
  have hread := slot_file g hm hs (slot_regions g h.slot).1
  have hend := g.slot_end hs
  have hlt := env.volume.volumeSize.toNat_lt
  have hin := (slot_regions g h.slot).1
  have hoff : env.partitionBase h.slot + (env.volume.partitionSize.toNat - partitionFooterRegionSize) =
      env.partitionBase h.slot + env.footerOffset := rfl
  have hpos : env.partitionBase h.slot + env.footerOffset < 2 ^ 64 := by omega
  have hag := agree_acceptFooter (indexBegin_same g) hsame
    (Image.window_length m (env.partitionBase h.slot + env.footerOffset) partitionFooterEncodedSize)
  unfold slotFooter
  generalize m.window (env.partitionBase h.slot + env.footerOffset) partitionFooterEncodedSize =
    bytes at *
  have hresult : (do
      let footer ← Rust.readDecode (Rust.fileOf m) (env.partitionBase h.slot + env.footerOffset)
        partitionFooterEncodedSize Rust.decodeFooter
      Rust.validateFooter env.volume h' footer
      Except.ok footer) = Rust.acceptFooter env.volume h' bytes := by
    unfold Rust.readDecode Rust.acceptFooter
    rw [hread, Rust.ok_bind]
  unfold Rust.openFooter
  rw [hslot, partitionBase_same g hs, Rust.ok_bind, hoff, Rust.checked, if_pos hpos, Rust.ok_bind, hresult]
  obtain ⟨f, f', hf, hf', rfl⟩ | ⟨e, e', he, he', ⟨hcode, hkind⟩ | ⟨hcode, hkind⟩⟩ := hag.elim
  · rw [hf']
    exact .inl ⟨f, hf, rfl⟩
  · rw [he']
    exact .inr (.inl ⟨e, he, hcode, if_pos hkind⟩)
  · rw [he']
    exact .inr (.inr ⟨e, e', he, hcode, hkind, if_neg (by rw [hkind]; simp)⟩)

omit hc in
/-- **The partition behind a valid header.** -/
theorem openPartition_same {h : PartitionHeader} {h' : Rust.PartitionHeader}
    (hh : slotHeader env m slot = .ok h) (hsame : SameHeader h h') :
    Agree (Recovered env m) (slotRecovered env m h)
      (Rust.openPartition (Rust.fileOf m) env.volume h') := by
  obtain rfl := slotHeader_slot hh
  have hfeat := indexBegin_same g
  unfold slotRecovered
  obtain ⟨f, hf, hopen⟩ | ⟨e, he, hcode, hopen⟩ | ⟨e, e', he, hcode, hkind, hopen⟩ :=
    openFooter_same g hm hs rfl hsame
  · unfold Rust.openPartition
    rw [hf, hopen, Rust.ok_bind]
    have hstate := slotState_of_sealed hh hf
    exact ⟨mem_slotStates.mpr ⟨hs, hstate⟩, hsame, rfl, fun hopen => (by cases hopen), rfl⟩
  · have hstate := slotState_of_open hh he
    have hrun := run_scanPartition g hm hs
    have hmem : scannedState h (slotScan env m h) ∈ slotStates env m := by
      rw [mem_slotStates, scannedState_header]
      exact ⟨hs, hstate⟩
    have hfew := ha.room _ hmem 0 _ (by rw [scannedState_header]; exact hrun)
    have hscan := scan_same g hm hs hsame hfeat 0 env.indexBegin (if_pos rfl)
      (Nat.le_of_lt g.header_lt_indexBegin) (Nat.le_refl _) hrun hfew
    rw [he, Rust.openPartition_scanned hopen hfeat hscan (Scan.rust_few hfew)]
    show Agree _ (if _ then _ else _) _
    rw [hcode, if_neg (by simp)]
    exact Recovered.scanned hsame hmem
  · unfold Rust.openPartition
    rw [he, hopen, Rust.error_bind]
    show Agree _ (if _ then _ else _) _
    rw [hcode, if_pos rfl]
    exact .inr ⟨hcode, hkind⟩

end

/-! ## Every slot -/

theorem any_generation {env : Env} {m : Image} {qs : List PartitionState}
    {ps : List Rust.PartitionState} (h : List.Forall₂ (Recovered env m) qs ps) (generation : UInt64) :
    (qs.any fun p => p.header.generation == generation) =
      ps.any fun p => p.header.generation == generation := by
  induction h with
  | nil => rfl
  | cons hp _ ih =>
    have hgen := congrArg Rust.PartitionHeader.generation hp.2.header
    rw [List.any_cons, List.any_cons, ih, hgen]

section
variable {env : Env} (g : Geometry env) {m : Image} (hm : env.volume.volumeSize.toNat ≤ m.size)
  (ha : Alike env m) (hc : env.codecs = [])
include g hm ha hc

/-- **The recovery of the slots.**  The catalogs so far are `qs` and `ps`. -/
theorem agree_openSlots (slots : List UInt32)
    (hslots : ∀ slot ∈ slots, slot < env.volume.partitionCount) {r : Recovery}
    {qs : List PartitionState} {ps : List Rust.PartitionState} {gaps : List Rust.Gap}
    (hr : r.partitions = dropOlderIndexes qs) (hps : List.Forall₂ (Recovered env m) qs ps)
    (hgaps : List.Forall₂ SameGap r.corruptSlots gaps) :
    Agree (fun r' out => ∃ qs, r'.partitions = dropOlderIndexes qs ∧
        List.Forall₂ (Recovered env m) qs out.1 ∧ List.Forall₂ SameGap r'.corruptSlots out.2)
      (Rd.run (imageSource m) (recoverSlots env false slots r))
      (Rust.openSlots (Rust.fileOf m) env.volume slots ps gaps) := by
  induction slots generalizing r qs ps gaps with
  | nil => exact ⟨qs, hr, hps, hgaps⟩
  | cons slot slots ih =>
    have hs := hslots slot (List.mem_cons_self ..)
    have hrest : ∀ slot ∈ slots, slot < env.volume.partitionCount :=
      fun slot h => hslots slot (List.mem_cons_of_mem _ h)
    unfold Rust.openSlots
    obtain ⟨h, h', hh, hsame, hopen⟩ | ⟨e, e', he, hclass, hopen⟩ := openHeader_same g hm ha hc hs
    · have hgen : h'.generation = h.generation := by rw [hsame]
      have hzero : h.generation ≠ 0 := by
        unfold slotHeader at hh
        obtain ⟨hdecode, hhigh, hlow, -⟩ := acceptPartitionHeader_inv hh
        exact (ha.named slot hs h hdecode hhigh hlow).1
      rw [run_recoverSlots_ok g hm hs slots r hh, if_neg hzero, hopen, Rust.ok_bind]
      have hany := any_generation hps h.generation
      simp only [hr, any_dropOlderIndexes qs (· == h.generation), hgen, hany]
      refine .corrupt_ite Iff.rfl fun _ => ?_
      refine (openPartition_same g hm ha hs hh hsame).bind fun p p' hp => ?_
      have hps' : List.Forall₂ (Recovered env m) (qs ++ [p]) (ps ++ [p']) :=
        List.rel_append hps (.cons hp .nil)
      exact ih hrest (dropOlderIndexes_append qs p) hps' hgaps
    · rw [run_recoverSlots_error g hm hs slots r he, hopen]
      by_cases hevidence : slotEvidence env m slot = true
      · rw [if_pos hevidence, if_pos hevidence]
        rcases hclass with ⟨hcode, hkind⟩ | ⟨hcode, hkind⟩
        · rw [if_neg (by rw [hcode]; simp), if_neg (by rw [hkind]; simp), Rust.ok_bind]
          exact ih hrest hr hps (List.rel_append hgaps (.cons (sameGap slot) .nil))
        · rw [if_pos hcode, if_pos hkind, Rust.error_bind]
          exact .inr ⟨hcode, hkind⟩
      · rw [if_neg hevidence, if_neg hevidence, Rust.ok_bind]
        exact ih hrest hr hps hgaps

end

/-! ## The catalog -/

/-- Lists whose members correspond are sorted alike. -/
theorem forall₂_mergeSort {α β : Type} {R : α → β → Prop} {xs : List α} {ys : List β}
    (h : List.Forall₂ R xs ys) {le : α → α → Bool} {le' : β → β → Bool}
    (hle : ∀ a b a' b', R a a' → R b b' → le a b = le' a' b') :
    List.Forall₂ R (xs.mergeSort le) (ys.mergeSort le') := by
  -- sort the pairs
  obtain ⟨zs, hzs, rfl, rfl⟩ : ∃ zs : List (α × β), (∀ z ∈ zs, R z.1 z.2) ∧ xs = zs.map Prod.fst ∧
      ys = zs.map Prod.snd := by
    induction h with
    | nil => exact ⟨[], by simp, rfl, rfl⟩
    | cons hab _ ih =>
      obtain ⟨zs, hzs, rfl, rfl⟩ := ih
      exact ⟨(_, _) :: zs, List.forall_mem_cons.mpr ⟨hab, hzs⟩, rfl, rfl⟩
  rw [← List.map_mergeSort (r := fun a b => le a.1 b.1) (fun a _ b _ => rfl),
    ← List.map_mergeSort (r := fun a b => le a.1 b.1)
      (fun a ha b hb => hle _ _ _ _ (hzs a ha) (hzs b hb)),
    List.forall₂_map_left_iff, List.forall₂_map_right_iff, List.forall₂_same]
  exact fun z hz => hzs z (List.mem_mergeSort.mp hz)

/-- Clearing older indexes leaves the entries of the catalog. -/
theorem catalogued_keepLastIndex {env : Env} {m : Image} {qs : List PartitionState}
    {ps : List Rust.PartitionState} (h : List.Forall₂ (Recovered env m) qs ps) :
    List.Forall₂ (Catalogued env m) (keepLastIndex qs) ps := by
  induction h with
  | nil => exact .nil
  | cons hp hrest ih =>
    rename_i p p' qs ps
    cases qs with
    | nil =>
      cases hrest
      exact .cons ⟨p, hp.1, .inl rfl, hp.2⟩ .nil
    | cons q qs =>
      refine .cons ⟨p, hp.1, ?_, hp.2⟩ ih
      unfold PartitionState.cleared
      exact .inr rfl

theorem keepLastIndex_headers (ps : List PartitionState) :
    (keepLastIndex ps).map PartitionState.header = ps.map PartitionState.header := by
  rcases List.eq_nil_or_concat ps with rfl | ⟨older, newest, rfl⟩
  · rfl
  · rw [List.concat_eq_append, keepLastIndex_append]
    simp [Function.comp_def]

theorem sortPartitions_keepLastIndex (ps : List PartitionState) :
    sortPartitions (keepLastIndex (sortPartitions ps)) = keepLastIndex (sortPartitions ps) := by
  have hsorted := sortPartitions_sorted ps
  generalize sortPartitions ps = qs at hsorted ⊢
  have hheaders : ((keepLastIndex qs).map PartitionState.header).Pairwise
      fun a b => a.generation ≤ b.generation := by
    rw [keepLastIndex_headers]
    exact List.pairwise_map.mpr hsorted
  refine List.mergeSort_of_pairwise ((List.pairwise_map.mp hheaders).imp fun hab => ?_)
  exact decide_eq_true hab

/-- The C++ store and the Rust reader have the same catalog of an image. -/
structure CommonCatalog (m : Image) (s : Store) (r : Rust.Reader) : Prop where
  geometry : Geometry s.env
  size : s.env.volume.volumeSize.toNat ≤ m.size
  codecs : s.env.codecs = []
  alike : Alike s.env m
  file : r.file = Rust.fileOf m
  volume : r.volume = s.env.volume
  partitions : List.Forall₂ (Catalogued s.env m) (sortPartitions s.partitions) r.partitions
  gaps : List.Forall₂ SameGap s.corruptSlots r.headerGaps

/-- **The two openings.** -/
theorem agree_open {m : Image} (hm : CopiesNamed m)
    (ha : ∀ v, Rd.run (imageSource m) readVolumeHeader = .ok v → Alike { volume := v, codecs := [] } m) :
    Agree (CommonCatalog m) (openReadOnly [] m)
      (Rust.Reader.fromFileWithSize (Rust.fileOf m) m.size) := by
  unfold openReadOnly recover Rust.Reader.fromFileWithSize
  simp only [Rd.run_bind, Rd.run_lift]
  obtain ⟨v, v', hv, hv', rfl⟩ | ⟨e, e', he, he', hclass⟩ := (agree_readVolumeHeader hm).elim
  swap
  · rw [he, he', Rust.error_bind]
    exact hclass
  -- the header is one that the Rust decoder accepted
  obtain ⟨hid, hcount, hpart, hmax⟩ : (v.volumeIdHigh ≠ 0 ∨ v.volumeIdLow ≠ 0) ∧
      2 ≤ v.partitionCount.toNat ∧ v.partitionSize ≠ 0 ∧ v.maxBlockPayload ≠ 0 := by
    rcases Rust.selectVolumeHeader_ok hv' with h | h
    · obtain ⟨bytes, hbytes⟩ := Rust.readDecode_ok h
      exact Rust.decodeVolumeHeader_ok hbytes
    · obtain ⟨bytes, hbytes⟩ := Rust.readDecode_ok h
      exact Rust.decodeVolumeHeader_ok hbytes
  rw [hv, hv', Rd.bind_ok, Rust.ok_bind]
  refine (agree_geometry hid hcount hpart hmax m.size).bind_of fun _ _ hgeometry _ => ?_
  have halike := ha v hv
  obtain ⟨g, hsize⟩ := @geometry_of_validate { volume := v, codecs := [] } _ hgeometry
  refine (agree_openSlots g hsize halike rfl _ (fun _ h => mem_slotList.mp h) (r := {}) rfl
    (.nil : List.Forall₂ (Recovered _ m) [] []) .nil).bind fun r out hout => ?_
  obtain ⟨partitions, gaps⟩ := out
  obtain ⟨qs, hqs, hps, hgaps⟩ := hout
  have hsorted : List.Forall₂ _ (qs.mergeSort byGeneration) (partitions.mergeSort
      fun a b => decide (a.header.generation ≤ b.header.generation)) :=
    forall₂_mergeSort hps fun a b a' b' ha hb => by
      have hgen := congrArg Rust.PartitionHeader.generation ha.2.header
      have hgen' := congrArg Rust.PartitionHeader.generation hb.2.header
      rw [byGeneration, hgen, hgen']
  refine ⟨g, hsize, rfl, halike, rfl, rfl, ?_, hgaps⟩
  show List.Forall₂ _ (sortPartitions (keepLastIndex (sortPartitions r.partitions))) _
  rw [sortPartitions_keepLastIndex, hqs, keepLastIndex_dropOlderIndexes]
  exact catalogued_keepLastIndex hsorted

/-! ## The calls -/

/-- The two calls deliver the same events and end alike. -/
def SameCall (x : QueryState × Status) (y : List Rust.Event × Except Rust.Error Unit) : Prop :=
  List.Forall₂ SameEvent x.1.events y.1 ∧
    ((x.2 = {} ∧ y.2 = .ok ()) ∨
      (x.2.code = .invalidArgument ∧ ∃ e, y.2 = .error e ∧ e.kind = .invalidArgument))

/-- Every call on the two readers of an image delivers the same events and ends alike. -/
structure SameReader (m : Image) (s : Store) (r : Rust.Reader) : Prop where
  scan : ∀ visitor visitor', SameVisitor visitor visitor' →
    SameCall (ReadProg.run (imageSource m) (s.query { visitor := visitor })) (r.scanBlocks visitor')
  query : ∀ range visitor visitor', SameVisitor visitor visitor' →
    SameCall (ReadProg.run (imageSource m) (s.query { range := some range, visitor := visitor }))
      (r.queryBlocks range visitor')

/-- The calls on one catalog. -/
theorem CommonCatalog.sameReader {m : Image} {s : Store} {r : Rust.Reader} (h : CommonCatalog m s r) :
    SameReader m s r := by
  have hread : ∀ p ∈ s.partitions, Readable s.env m p := by
    intro p hp
    obtain ⟨p', -, hp'⟩ := forall₂_mem_right h.partitions.flip (mem_sortPartitions.mpr hp)
    exact Catalogued.readable h.geometry h.size h.alike h.codecs h.file h.volume hp'
  have hcall {q : Query} (hgaps : q.continueOnGap = true) {visitor' : List Rust.Event → Bool}
      (hvisit : SameVisitor q.visitor visitor') (hv : q.Valid) :
      SameCall (ReadProg.run (imageSource m) (s.query q)) (r.visitBlocks q.range visitor') := by
    unfold Store.query
    rw [run_query_answer h.geometry h.size hv s.corruptSlots hread]
    obtain ⟨hevents, hx, hy⟩ := visitBlocks_same h.geometry h.size h.alike h.codecs h.file h.volume
      hgaps hvisit hv h.partitions h.gaps
    exact ⟨hevents, .inl ⟨hx, hy⟩⟩
  refine ⟨fun visitor visitor' hvisit => ?_, fun range visitor visitor' hvisit => ?_⟩
  · exact hcall (q := { visitor := visitor }) rfl hvisit fun range hrange => (by cases hrange)
  · unfold Rust.Reader.queryBlocks
    by_cases hempty : range.endNs ≤ range.beginNs
    · rw [if_pos hempty]
      unfold Store.query TFDB.query
      simp only [if_pos hempty]
      exact ⟨.nil, .inr ⟨rfl, _, rfl, rfl⟩⟩
    rw [if_neg hempty]
    by_cases hdomain : range.timeDomainId = 0
    · rw [if_pos hdomain]
      unfold Store.query TFDB.query
      simp only [if_neg hempty, if_pos hdomain]
      exact ⟨.nil, .inr ⟨rfl, _, rfl, rfl⟩⟩
    · rw [if_neg hdomain]
      refine hcall (q := { range := some range, visitor := visitor }) rfl hvisit fun range' hrange => ?_
      cases hrange
      exact ⟨Int64.not_le.mp hempty, hdomain⟩

/-- **The readers agree.** -/
theorem readers_agree {m : Image} (hm : CopiesNamed m)
    (ha : ∀ v, Rd.run (imageSource m) readVolumeHeader = .ok v → Alike { volume := v, codecs := [] } m) :
    Agree (SameReader m) (openReadOnly [] m)
      (Rust.Reader.fromFileWithSize (Rust.fileOf m) m.size) :=
  (agree_open hm ha).mono fun _ _ => CommonCatalog.sameReader

end TFDB

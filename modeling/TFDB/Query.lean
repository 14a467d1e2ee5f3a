import TFDB.Seal

/-!
# What a scan delivers

`scan_blocks` on a fixed image, as a function of the image: `blockOutcome` is what reading one
block gives, `partitionEvents` the data events of one partition and `run_query` the data events of
the call.

* `BlockAt` — the image holds, at an index entry, a block that agrees with it;
* `Readable` — the image still holds the snapshotted partition;
* `Query.emitAll` — events are emitted up to the one that ends the call;
* `run_queryEntries`, `run_queryPartitions` — the loops emit these events, in order.
-/

set_option autoImplicit false

namespace TFDB

open ByteLib Writer

/-! ## One block -/

/-- The frame an entry names lies in the data region. -/
structure EntryIn (env : Env) (e : IndexEntry) : Prop where
  lower : partitionHeaderRegionSize ≤ e.offset.toNat
  aligned : e.offset.toNat % env.quantum = 0
  span : blockHeaderEncodedSize ≤ e.frameSpan.toNat
  upper : e.offset.toNat + e.frameSpan.toNat ≤ env.indexBegin

section
variable (env : Env) (m : Image) (p : PartitionState) (e : IndexEntry)

/-- The block header at an entry. -/
@[irreducible] def blockHeaderAt : Except Status BlockHeader :=
  decodeBlockHeader
    (m.window (env.partitionBase p.header.slot + e.offset.toNat) blockHeaderEncodedSize)

/-- The stored payload behind it. -/
def payloadAt (b : BlockHeader) : Bytes :=
  m.window (env.partitionBase p.header.slot + e.offset.toNat + blockHeaderEncodedSize)
    b.storedSize.toNat

/-- The image holds a block at the entry that agrees with it. -/
structure BlockAt (b : BlockHeader) : Prop where
  header : blockHeaderAt env m p e = .ok b
  identity : identityAgrees env p e b = true
  metadata : metadataAgrees env p e b = true
  span : alignUp (blockHeaderEncodedSize + b.storedSize.toNat) env.quantum = some b.frameSpan.toNat
  crc : crc32c (payloadAt env m p e b) = b.payloadCrc

/-- What reading a block of a partition that is still in place gives. -/
def blockOutcome : Except Status (BlockMetadata × Bytes) :=
  match blockHeaderAt env m p e with
  | .error st => .error st
  | .ok b =>
    if ¬ identityAgrees env p e b then
      .error ⟨.corrupt, "block identity disagrees with snapshot"⟩
    else if ¬ metadataAgrees env p e b then
      .error ⟨.corrupt, "block metadata disagrees with partition/index"⟩
    else if alignUp (blockHeaderEncodedSize + b.storedSize.toNat) env.quantum ≠
        some b.frameSpan.toNat then .error ⟨.corrupt, "block frame span mismatch"⟩
    else if crc32c (payloadAt env m p e b) ≠ b.payloadCrc then
      .error ⟨.corrupt, "block payload CRC mismatch"⟩
    else (decodePayload env b (payloadAt env m p e b)).map fun decoded =>
      (blockMetadata env p e b, decoded)

end

section
variable {env : Env} {m : Image} {p : PartitionState} {e : IndexEntry}

theorem blockOutcome_blockAt {b : BlockHeader} (h : BlockAt env m p e b) :
    blockOutcome env m p e = (decodePayload env b (payloadAt env m p e b)).map fun decoded =>
      (blockMetadata env p e b, decoded) := by
  simp only [blockOutcome, h.header, h.identity, h.metadata, h.span, h.crc, not_true, if_false, ne_eq]

theorem blockOutcome_ok {metadata : BlockMetadata} {decoded : Bytes}
    (h : blockOutcome env m p e = .ok (metadata, decoded)) :
    ∃ b, BlockAt env m p e b ∧ decodePayload env b (payloadAt env m p e b) = .ok decoded ∧
      metadata = blockMetadata env p e b := by
  unfold blockOutcome at h
  cases hb : blockHeaderAt env m p e with
  | error st =>
    rw [hb] at h
    cases h
  | ok b =>
    rw [hb] at h
    dsimp only at h
    split at h
    · cases h
    rename_i h1
    split at h
    · cases h
    rename_i h2
    split at h
    · cases h
    rename_i h3
    split at h
    · cases h
    rename_i h4
    refine ⟨b, ⟨hb, by simpa using h1, by simpa using h2, by simpa using h3, by simpa using h4⟩, ?_⟩
    cases hd : decodePayload env b (payloadAt env m p e b) with
    | error st =>
      rw [hd] at h
      cases h
    | ok decoded' =>
      rw [hd] at h
      cases h
      exact ⟨rfl, rfl⟩

theorem codes_decodeBlockHeader (bytes : Bytes) : Codes MediaCode (decodeBlockHeader bytes) := by
  refine Codes.bind (codes_commonCheck _ _ _ _) fun _ => ?_
  exact Codes.ite (Codes.failWith (by decide)) (Codes.ok _)

/-- An unreadable block is not an overwrite, unless a codec says so. -/
theorem blockOutcome_error {st : Status} (h : blockOutcome env m p e = .error st) :
    MediaCode st.code ∨
      ∃ b, BlockAt env m p e b ∧ decodePayload env b (payloadAt env m p e b) = .error st := by
  unfold blockOutcome at h
  cases hb : blockHeaderAt env m p e with
  | error st' =>
    rw [hb] at h
    cases h
    left
    unfold blockHeaderAt at hb
    exact codes_decodeBlockHeader _ _ hb
  | ok b =>
    rw [hb] at h
    dsimp only at h
    split at h
    · cases h
      exact Or.inl (by decide)
    rename_i h1
    split at h
    · cases h
      exact Or.inl (by decide)
    rename_i h2
    split at h
    · cases h
      exact Or.inl (by decide)
    rename_i h3
    split at h
    · cases h
      exact Or.inl (by decide)
    rename_i h4
    refine Or.inr ⟨b, ⟨hb, by simpa using h1, by simpa using h2, by simpa using h3, by simpa using h4⟩, ?_⟩
    cases hd : decodePayload env b (payloadAt env m p e b) with
    | error st' =>
      rw [hd] at h
      cases h
      rfl
    | ok decoded =>
      rw [hd] at h
      cases h

variable (g : Geometry env) (hm : env.volume.volumeSize.toNat ≤ m.size)
include g hm

theorem run_slotHeader {slot : UInt32} (hs : slot < env.volume.partitionCount) :
    Rd.run (imageSource m) (readPartitionHeader env slot) = slotHeader env m slot := by
  rw [run_readPartitionHeader g hm hs]
  unfold slotHeader
  rfl

/-- Reading a block of a partition that is still in place. -/
theorem run_readBlock (hs : p.header.slot < env.volume.partitionCount) {h : PartitionHeader}
    (hh : slotHeader env m p.header.slot = .ok h) (hg : h.generation = p.header.generation)
    (hin : EntryIn env e) :
    Rd.run (imageSource m) (readBlock env p e) = blockOutcome env m p e := by
  have hsum := g.indexBegin_add
  have hup := hin.upper
  have hsp := hin.span
  have hread1 : imageSource m (env.partitionBase p.header.slot + e.offset.toNat)
      blockHeaderEncodedSize = .ok (m.window (env.partitionBase p.header.slot + e.offset.toNat)
        blockHeaderEncodedSize) := slot_read g hm hs (by omega)
  have hclass {α : Type} (st : Status) :
      Rd.run (imageSource m) (classifySnapshotFailure env p st : Rd Status α) = .error st := by
    simp only [classifySnapshotFailure, Rd.run_bind, Rd.run_attempt, Rd.bind_ok,
      run_slotHeader g hm hs, hh, hg, ne_eq, not_true, if_false, Rd.run_fail]
  simp only [readBlock, Rd.run_bind, Rd.run_attempt, Rd.bind_ok, run_slotHeader g hm hs, hh, hg,
    ne_eq, not_true, if_false, Rd.run_readExact, hread1]
  unfold blockOutcome
  cases hb : blockHeaderAt env m p e with
  | error st =>
    unfold blockHeaderAt at hb
    simp only [hb, hclass]
  | ok b =>
    have hb' := hb
    unfold blockHeaderAt at hb'
    simp only [hb', Rd.run_ite, hclass]
    split
    · rfl
    rename_i h1
    split
    · rfl
    rename_i h2
    split
    · rfl
    rename_i h3
    have hfs : b.frameSpan = e.frameSpan := by
      simp only [metadataAgrees, Bool.and_eq_true, beq_iff_eq, Decidable.not_not] at h2
      tauto
    have hspan := (alignUp_spec (not_not.mp h3)).2.1
    have hread2 : imageSource m (env.partitionBase p.header.slot + e.offset.toNat +
        blockHeaderEncodedSize) b.storedSize.toNat = .ok (payloadAt env m p e b) := by
      rw [Nat.add_assoc (env.partitionBase p.header.slot)]
      have := slot_read g hm hs (o := e.offset.toNat + blockHeaderEncodedSize)
        (n := b.storedSize.toNat) (by rw [hfs] at hspan; omega)
      rw [this, payloadAt, Nat.add_assoc (env.partitionBase p.header.slot)]
    simp only [Rd.run_bind, Rd.run_readExact, hread2, Rd.bind_ok, Rd.run_attempt,
      run_slotHeader g hm hs, hh, hg, ne_eq, not_true, if_false, Rd.run_ite, hclass, Rd.run_lift]
    split
    · rfl
    · cases decodePayload env b (payloadAt env m p e b) with
      | error st => rfl
      | ok decoded => rfl

end

/-! ## The entries of a partition -/

/-- The visitor always goes on, and so does the query behind a gap. -/
structure Query.Total (q : Query) : Prop where
  visitor : ∀ events, q.visitor events = true
  gaps : q.continueOnGap = true

theorem scan_total : ({} : Query).Total := ⟨fun _ => rfl, rfl⟩

/-- Deliver events in order. -/
def QueryState.deliverAll (qs : QueryState) (events : List BlockEvent) : QueryState :=
  events.foldl QueryState.deliver qs

@[simp] theorem QueryState.deliverAll_events (qs : QueryState) (events : List BlockEvent) :
    (qs.deliverAll events).events = qs.events ++ events := by
  induction events generalizing qs with
  | nil => simp [deliverAll]
  | cons ev events ih =>
    have := ih (qs.deliver ev)
    simp only [deliverAll, List.foldl_cons] at this ⊢
    rw [this]
    simp [QueryState.deliver]

theorem QueryState.deliverAll_append (qs : QueryState) (xs ys : List BlockEvent) :
    qs.deliverAll (xs ++ ys) = (qs.deliverAll xs).deliverAll ys := List.foldl_append

theorem Query.Total.emit {q : Query} (h : q.Total) (qs : QueryState) (ev : BlockEvent) :
    q.emit qs ev = (qs.deliver ev, none) := by
  simp [Query.emit, h.visitor, h.gaps]

/-- Emit events in order, up to the one that ends the call. -/
def Query.emitAll (q : Query) : QueryState → List BlockEvent → QueryState × Option Status
  | qs, [] => (qs, none)
  | qs, ev :: evs => if (q.emit qs ev).2 = none then q.emitAll (q.emit qs ev).1 evs else q.emit qs ev

theorem Query.emitAll_append (q : Query) (qs : QueryState) (xs ys : List BlockEvent) :
    q.emitAll qs (xs ++ ys) =
      if (q.emitAll qs xs).2 = none then q.emitAll (q.emitAll qs xs).1 ys else q.emitAll qs xs := by
  induction xs generalizing qs with
  | nil => rfl
  | cons x xs ih =>
    simp only [List.cons_append, emitAll]
    split
    · exact ih _
    · rfl

theorem Query.Total.emitAll {q : Query} (h : q.Total) (qs : QueryState) (events : List BlockEvent) :
    q.emitAll qs events = (qs.deliverAll events, none) := by
  induction events generalizing qs with
  | nil => rfl
  | cons ev events ih =>
    simp only [Query.emitAll, h.emit, if_true]
    exact ih _

/-- The gap of an unreadable block. -/
def blockGap (p : PartitionState) (e : IndexEntry) (st : Status) : BlockEvent :=
  { gapEvent .corruptGap st p with
    metadata := { (gapEvent .corruptGap st p).metadata with blockSequence := e.sequence } }

/-- The event of an entry. -/
def entryEvent (env : Env) (m : Image) (p : PartitionState) (e : IndexEntry) : BlockEvent :=
  match blockOutcome env m p e with
  | .ok (metadata, decoded) => { metadata := metadata, data := decoded }
  | .error st => blockGap p e st

/-- No codec reports an overwrite. -/
def NotOverwritten (env : Env) (m : Image) (p : PartitionState) (e : IndexEntry) : Prop :=
  ∀ st, blockOutcome env m p e = .error st → st.code ≠ .overwritten

section
variable {env : Env} {m : Image} (g : Geometry env) (hm : env.volume.volumeSize.toNat ≤ m.size)
include g hm

/-- The events of the entries of a partition that is still in place. -/
theorem run_queryEntries (q : Query) {p : PartitionState}
    (hs : p.header.slot < env.volume.partitionCount) {h : PartitionHeader}
    (hh : slotHeader env m p.header.slot = .ok h) (hg : h.generation = p.header.generation)
    (es : List IndexEntry) (hin : ∀ e ∈ es, EntryIn env e)
    (hov : ∀ e ∈ es, NotOverwritten env m p e) (qs : QueryState) :
    ReadProg.run (imageSource m) (queryEntries env q p es qs) =
      q.emitAll qs ((es.filter q.selectsEntry).map (entryEvent env m p)) := by
  induction es generalizing qs with
  | nil => rfl
  | cons e es ih =>
    have hin' (e' : IndexEntry) (he : e' ∈ es) := hin e' (List.mem_cons_of_mem _ he)
    have hov' (e' : IndexEntry) (he : e' ∈ es) := hov e' (List.mem_cons_of_mem _ he)
    unfold queryEntries
    by_cases hsel : q.selectsEntry e = true
    · rw [if_neg (by simp [hsel])]
      simp only [ReadProg.run_bind', Rd.run_outcome,
        run_readBlock g hm hs hh hg (hin e (List.mem_cons_self ..))]
      simp only [List.filter_cons, hsel, if_true, List.map_cons, Query.emitAll]
      cases hb : blockOutcome env m p e with
      | ok r =>
        have hev : entryEvent env m p e = { metadata := r.1, data := r.2 } := by
          unfold entryEvent
          rw [hb]
        simp only [hev]
        cases he : q.emit qs { metadata := r.1, data := r.2 } with
        | mk qs' stop =>
          cases stop with
          | none => exact ih hin' hov' _
          | some st => rfl
      | error st =>
        have hne := hov e (List.mem_cons_self ..) st hb
        have hev : entryEvent env m p e = blockGap p e st := by
          unfold entryEvent
          rw [hb]
        have hkind : (if st.code = .overwritten then BlockEventKind.overwrittenGap
            else BlockEventKind.corruptGap) = .corruptGap := if_neg hne
        simp only [hkind, hev, reduceCtorEq, if_false]
        split
        · rename_i heq
          have he : q.emit qs (blockGap p e st) = (_, some _) := heq
          rw [he]
          rfl
        · rename_i heq
          have he : q.emit qs (blockGap p e st) = (_, none) := heq
          rw [he]
          exact ih hin' hov' _
    · rw [if_pos (by simpa using hsel)]
      simp only [List.filter_cons, hsel]
      exact ih hin' hov' qs

end

/-! ## Partitions -/

/-- The index of a partition as a query acquires it. -/
@[irreducible] def acquired (env : Env) (m : Image) (p : PartitionState) : Acquired :=
  (Rd.run (imageSource m) (acquireIndex env p)).toOption.getD { entries := [] }

theorem acquired_of_run {env : Env} {m : Image} {p : PartitionState} {a : Acquired}
    (h : Rd.run (imageSource m) (acquireIndex env p) = .ok a) : acquired env m p = a := by
  unfold acquired
  rw [h]
  rfl

/-- The gap of a partition whose index contradicts the catalog. -/
def prefixGap (p : PartitionState) : BlockEvent :=
  gapEvent .corruptGap ⟨.corrupt,
    if p.isSealed then "sealed partition has invalid data/index prefix"
    else "footerless partition changed after catalog snapshot"⟩ p

/-- The events of one partition. -/
def partitionEvents (env : Env) (m : Image) (q : Query) (p : PartitionState) : List BlockEvent :=
  if q.selectsPartition p then
    (if (acquired env m p).invalidPrefix p then [prefixGap p] else []) ++
      ((acquired env m p).entries.filter q.selectsEntry).map (entryEvent env m p)
  else []

/-- The image holds the snapshotted partition, with an index that can be acquired. -/
structure Readable (env : Env) (m : Image) (p : PartitionState) : Prop where
  slot : p.header.slot < env.volume.partitionCount
  header : ∃ h, slotHeader env m p.header.slot = .ok h ∧ h.generation = p.header.generation
  index : ∃ a, Rd.run (imageSource m) (acquireIndex env p) = .ok a
  entries : ∀ e ∈ (acquired env m p).entries, EntryIn env e ∧ NotOverwritten env m p e

section
variable {env : Env} {m : Image} (g : Geometry env) (hm : env.volume.volumeSize.toNat ≤ m.size)
include g hm

theorem run_queryPartition (q : Query) {p : PartitionState} (hr : Readable env m p)
    (qs : QueryState) :
    ReadProg.run (imageSource m) (queryPartition env q p qs) =
      q.emitAll qs (partitionEvents env m q p) := by
  obtain ⟨h, hh, hg⟩ := hr.header
  obtain ⟨a, ha⟩ := hr.index
  have hacq := acquired_of_run ha
  have hent (qs : QueryState) := run_queryEntries g hm q hr.slot hh hg (acquired env m p).entries
    (fun e he => (hr.entries e he).1) (fun e he => (hr.entries e he).2) qs
  unfold queryPartition partitionEvents
  by_cases hsel : q.selectsPartition p = true
  · rw [if_neg (by simp [hsel]), if_pos hsel]
    simp only [ReadProg.run_bind', Rd.run_outcome, ha, run_slotHeader g hm hr.slot, hh,
      generationGap, hg, ne_eq, not_true, if_false]
    rw [← hacq]
    by_cases hinv : (acquired env m p).invalidPrefix p = true
    · simp only [hinv, if_true]
      rw [List.singleton_append, Query.emitAll]
      split
      · rename_i heq
        have he : q.emit qs (prefixGap p) = (_, some _) := heq
        rw [he]
        rfl
      · rename_i heq
        have he : q.emit qs (prefixGap p) = (_, none) := heq
        rw [he]
        exact hent _
    · rw [if_neg hinv, if_neg hinv, List.nil_append]
      exact hent qs
  · rw [if_pos (by simpa using hsel), if_neg hsel]
    rfl

theorem run_queryPartitions (q : Query) (ps : List PartitionState)
    (hr : ∀ p ∈ ps, Readable env m p) (qs : QueryState) :
    ReadProg.run (imageSource m) (queryPartitions env q ps qs) =
      ((q.emitAll qs (ps.flatMap (partitionEvents env m q))).1,
        (q.emitAll qs (ps.flatMap (partitionEvents env m q))).2.getD {}) := by
  induction ps generalizing qs with
  | nil => rfl
  | cons p ps ih =>
    unfold queryPartitions
    simp only [ReadProg.run_bind', run_queryPartition g hm q (hr p (List.mem_cons_self ..))]
    rw [List.flatMap_cons, Query.emitAll_append]
    cases he : q.emitAll qs (partitionEvents env m q p) with
    | mk qs' stop =>
      cases stop with
      | none => exact ih (fun p' hp => hr p' (List.mem_cons_of_mem _ hp)) qs'
      | some st => rfl

end

/-! ## The whole call -/

/-- The gap of a slot whose header open found damaged. -/
def slotGap (slot : UInt32) : BlockEvent where
  kind := .corruptGap
  metadata := { partitionSlot := slot }
  detail := ⟨.corrupt, "partition header is damaged"⟩

theorem queryCorruptSlots_eq (q : Query) (slots : List UInt32) (qs : QueryState) :
    queryCorruptSlots q slots qs = q.emitAll qs (slots.map slotGap) := by
  induction slots generalizing qs with
  | nil => rfl
  | cons slot slots ih =>
    unfold queryCorruptSlots
    rw [List.map_cons, Query.emitAll]
    split
    · rename_i heq
      have he : q.emit qs (slotGap slot) = (_, some _) := heq
      rw [he]
      rfl
    · rename_i heq
      have he : q.emit qs (slotGap slot) = (_, none) := heq
      rw [he]
      exact ih _

/-- The range is one `query_blocks` accepts; `scan_blocks` has none. -/
def Query.Valid (q : Query) : Prop :=
  ∀ r, q.range = some r → r.beginNs < r.endNs ∧ r.timeDomainId ≠ 0

/-- The events of a call on a snapshot. -/
def queryEvents (env : Env) (m : Image) (q : Query) (snapshot : List PartitionState)
    (corruptSlots : List UInt32) : List BlockEvent :=
  corruptSlots.map slotGap ++ (sortPartitions snapshot).flatMap (partitionEvents env m q)

/-- What the caller of a query gets: the events up to the one that ends the call, and its status. -/
def Query.answer (q : Query) (events : List BlockEvent) : QueryState × Status :=
  ((q.emitAll {} events).1, (q.emitAll {} events).2.getD {})

theorem Query.Total.answer {q : Query} (h : q.Total) (events : List BlockEvent) :
    q.answer events = (({} : QueryState).deliverAll events, {}) := by
  rw [Query.answer, h.emitAll]
  rfl

/-- **What a query delivers** on an image that still holds its snapshot. -/
theorem run_query_answer {env : Env} {m : Image} (g : Geometry env)
    (hm : env.volume.volumeSize.toNat ≤ m.size) {q : Query} (hv : q.Valid)
    {snapshot : List PartitionState} (corruptSlots : List UInt32)
    (hr : ∀ p ∈ snapshot, Readable env m p) :
    ReadProg.run (imageSource m) (query env q snapshot corruptSlots) =
      q.answer (queryEvents env m q snapshot corruptSlots) := by
  have hrun : ReadProg.run (imageSource m) (query.run env q snapshot corruptSlots) =
      q.answer (queryEvents env m q snapshot corruptSlots) := by
    unfold query.run queryEvents Query.answer
    rw [queryCorruptSlots_eq, Query.emitAll_append]
    cases he : q.emitAll {} (corruptSlots.map slotGap) with
    | mk qs' stop =>
      cases stop with
      | none => exact run_queryPartitions g hm q _ (fun p hp => hr p (mem_sortPartitions.mp hp)) qs'
      | some st => rfl
  unfold query
  cases hrange : q.range with
  | none => exact hrun
  | some r =>
    obtain ⟨h1, h2⟩ := hv r hrange
    simp only
    rw [if_neg (Int64.not_le.mpr h1), if_neg h2]
    exact hrun

/-- A query that goes on delivers everything. -/
theorem run_query {env : Env} {m : Image} (g : Geometry env)
    (hm : env.volume.volumeSize.toNat ≤ m.size) {q : Query} (hq : q.Total) (hv : q.Valid)
    {snapshot : List PartitionState} (corruptSlots : List UInt32)
    (hr : ∀ p ∈ snapshot, Readable env m p) :
    ReadProg.run (imageSource m) (query env q snapshot corruptSlots) =
      (({} : QueryState).deliverAll (queryEvents env m q snapshot corruptSlots), {}) :=
  (run_query_answer g hm hv corruptSlots hr).trans (hq.answer _)

/-- A query with a range that is refused reads nothing. -/
theorem query_refused {q : Query} (hv : ¬ q.Valid) (env : Env) (src src' : Source Status)
    (snapshot : List PartitionState) (corruptSlots : List UInt32) :
    ReadProg.run src (query env q snapshot corruptSlots) =
      ReadProg.run src' (query env q snapshot corruptSlots) := by
  unfold query
  cases hrange : q.range with
  | none =>
    refine absurd (fun r hr => ?_) hv
    rw [hrange] at hr
    cases hr
  | some r =>
    simp only
    split
    · rfl
    rename_i h1
    split
    · rfl
    rename_i h2
    refine absurd (fun r' hr => ?_) hv
    rw [hrange] at hr
    cases hr
    exact ⟨Int64.not_le.mp h1, h2⟩

end TFDB

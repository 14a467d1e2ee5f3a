import TFDB.Geometry
import TFDB.Lossless

/-!
# The write protocol

The order in which a live writer touches the medium, as a transition system over phases.  A
phase holds the catalog the writer works from: it is `ready` for blocks, or on its way through
a seal (`indexed`, `footed`) and the creation of the next partition (`rotating`, `headed`), or
`halted` by a storage error.

* `Phase.Write`, `Phase.Flush` — the steps, each with everything the code guarantees about the
  structure it writes;
* `program_follows` — every mutating call follows the protocol, whatever fails.
-/

set_option autoImplicit false

namespace TFDB

open ByteLib Writer

/-! ## Catalogs -/

/-- The catalog of a live writer: the partitions, the active one, the slots known to be damaged,
and whether blocks have been written since the last flush. -/
structure Cat where
  partitions : List PartitionState
  generation : UInt64
  slot : UInt32
  writerId : UInt64 × UInt64
  dirty : Bool
  damaged : List UInt32

def Store.cat (s : Store) : Cat :=
  ⟨s.partitions, s.activeGeneration, s.activeSlot, (s.writerIdHigh, s.writerIdLow), s.dirty,
    s.corruptSlots⟩

namespace Cat

def active (c : Cat) : Option PartitionState := c.partitions.find? (·.is c.generation c.slot)

def update (c : Cat) (f : PartitionState → PartitionState) : Cat :=
  { c with partitions := updateFirst (·.is c.generation c.slot) f c.partitions }

/-- The catalog with a block added to the active partition. -/
def addFrame (c : Cat) (b : BlockHeader) : Cat :=
  { c.update (fun p => addBlock p b (blockHeaderEncodedSize + b.storedSize.toNat) b.frameSpan.toNat)
    with dirty := true }

/-- The catalog with the active partition sealed. -/
def sealed (env : Env) (c : Cat) (p : PartitionState) : Cat :=
  c.update fun q => { q with isSealed := true, indexValid := true, footer := sealFooter env p }

/-- The catalog with a new active partition. -/
def install (c : Cat) (h : PartitionHeader) : Cat where
  partitions := sortPartitions
    (c.partitions.filter (fun p => p.header.slot != h.slot) ++ [{ header := h }])
  generation := h.generation
  slot := h.slot
  writerId := c.writerId
  dirty := false
  damaged := c.damaged.filter (· != h.slot)

end Cat

/-- The writer ID of the last entry; zero for an empty index. -/
def lastWriter (es : List IndexEntry) : UInt64 × UInt64 :=
  match es.getLast? with
  | some e => (e.writerIdHigh, e.writerIdLow)
  | none => (0, 0)

/-! ## Steps -/

/-- The registered codecs give back the payloads they were given. -/
def Env.Lawful (env : Env) : Prop :=
  ∀ c ∈ env.codecs, ∀ x y, x.length ≤ env.maxBlockPayload → c.compress x = .ok y →
    c.decompress y x.length = .ok x

/-- The longest frame of the volume has a length of 32 bits. -/
def Env.SpanFits (env : Env) : Prop := ∃ span, worstSpan env = some span ∧ span < 2 ^ 32

/-- Every codec that can be selected gives back the payloads it was given. -/
theorem Env.Lawful.decompress {env : Env} (hl : env.Lawful) {id : CompressionId} {version : UInt16}
    {c : CompressionCodec} (hc : env.codecFor id version = some c) {x y : Bytes}
    (hx : x.length ≤ env.maxBlockPayload) (h : c.compress x = .ok y) :
    c.decompress y x.length = .ok x := by
  unfold Env.codecFor at hc
  split at hc
  · rename_i codec hb
    split at hc
    · obtain rfl := Option.some.inj hc
      have hmax : env.maxBlockPayload < 2 ^ 32 := env.volume.maxBlockPayload.toNat_lt
      exact builtInCodec_lossless hb (by simp only [sizeMax]; omega) h
    · exact hl c (List.mem_of_find?_eq_some hc) x y hx h
  · exact hl c (List.mem_of_find?_eq_some hc) x y hx h

/-- What is known about a frame written at the end of partition `p`. -/
structure FrameOk (env : Env) (c : Cat) (p : PartitionState) (b : BlockHeader)
    (payload raw : Bytes) : Prop where
  generation : b.generation = p.header.generation
  slot : b.slot = p.header.slot
  sequence : b.sequence = UInt32.ofNat p.activeIndex.length
  writer : (b.writerIdHigh, b.writerIdLow) = c.writerId
  previous : (b.previousWriterIdHigh, b.previousWriterIdLow) = lastWriter p.activeIndex
  idHigh : b.volumeIdHigh = env.volume.volumeIdHigh
  idLow : b.volumeIdLow = env.volume.volumeIdLow
  inBounds : b.inBounds = true
  stored : b.storedSize.toNat = payload.length
  rawSize : b.rawSize.toNat = raw.length
  stored_le : payload.length ≤ env.maxBlockPayload
  raw_le : raw.length ≤ env.maxBlockPayload
  stored_le_raw : payload.length ≤ raw.length
  span : alignUp (blockHeaderEncodedSize + payload.length) env.quantum = some b.frameSpan.toNat
  frame_lt : blockHeaderEncodedSize + payload.length < 2 ^ 32
  compression : compressionAgrees p.header.options b = true
  crc : crc32c payload = b.payloadCrc
  decodes : env.Lawful → decodePayload env b payload = .ok raw
  room : p.dataEnd + b.frameSpan.toNat ≤ env.indexBegin
  count : p.activeIndex.length + 1 ≤ env.indexRegionSize / indexEntryEncodedSize

inductive Phase
  /-- Blocks can be added to the active partition. -/
  | ready (c : Cat)
  /-- The index of the active partition is written. -/
  | indexed (c : Cat)
  /-- Its footer is written. -/
  | footed (c : Cat)
  /-- The partition with this slot and generation is to be created. -/
  | rotating (c : Cat) (slot : UInt32) (generation : UInt64)
  /-- Its header is written. -/
  | headed (c : Cat) (h : PartitionHeader)
  | halted

section
variable (env : Env)

inductive Phase.Write : Phase → Nat → Item → Phase → Prop
  | frame {c : Cat} {p : PartitionState} {b : BlockHeader} {payload raw : Bytes}
      (hp : c.active = some p) (hs : p.isSealed = false) (hf : FrameOk env c p b payload raw) :
      Phase.Write (.ready c) (env.partitionBase p.header.slot + p.dataEnd) (.frame b payload raw)
        (.ready (c.addFrame b))
  | index {c : Cat} {p : PartitionState} (hp : c.active = some p) (hs : p.isSealed = false)
      (hd : c.dirty = false) (hne : p.activeIndex ≠ [])
      (hfit : (encodeIndex p.activeIndex).length ≤ env.indexRegionSize) :
      Phase.Write (.ready c) (env.partitionBase p.header.slot + env.indexBegin)
        (.index p.activeIndex) (.indexed c)
  | footer {c : Cat} {p : PartitionState} (hp : c.active = some p) (hs : p.isSealed = false)
      (hfit : (encodeIndex p.activeIndex).length ≤ env.indexRegionSize) :
      Phase.Write (.indexed c) (env.partitionBase p.header.slot + env.footerOffset)
        (.footer (sealFooter env p) p.activeIndex) (.footed c)
  | emptyFooter {c : Cat} {p : PartitionState} (hp : c.active = some p) (hs : p.isSealed = false)
      (hd : c.dirty = false) (hne : p.activeIndex = []) :
      Phase.Write (.ready c) (env.partitionBase p.header.slot + env.footerOffset)
        (.footer (sealFooter env p) p.activeIndex) (.footed c)
  | header {c : Cat} {slot : UInt32} {generation : UInt64} {options : PartitionOptions}
      (ho : env.validatePartitionOptions options = .ok ()) :
      Phase.Write (.rotating c slot generation) (env.partitionBase slot)
        (.header (newHeader env slot generation options))
        (.headed c (newHeader env slot generation options))

inductive Phase.Flush : Phase → Phase → Prop
  | sync {c : Cat} : Phase.Flush (.ready c) (.ready { c with dirty := false })
  | sealed {c : Cat} {p : PartitionState} (hp : c.active = some p) (hs : p.isSealed = false)
      (hg : p.header.generation ≠ 0xffffffffffffffff) :
      Phase.Flush (.footed c) (.rotating (c.sealed env p)
        ((p.header.slot + 1) % env.volume.partitionCount) (p.header.generation + 1))
  | install {c : Cat} {h : PartitionHeader} : Phase.Flush (.headed c h) (.ready (c.install h))

/-- A step never ends the protocol. -/
theorem Phase.Write.live {φ φ' : Phase} {off : Nat} {i : Item} (h : Phase.Write env φ off i φ') :
    φ' ≠ .halted := by
  cases h <;> exact fun h => by cases h

theorem Phase.Flush.live {φ φ' : Phase} (h : Phase.Flush env φ φ') : φ' ≠ .halted := by
  cases h <;> exact fun h => by cases h

/-- The protocol as a transition system. -/
def protocol : Lts Item Phase where
  write := Phase.Write env
  flush := Phase.Flush env
  fail _ := .halted

end

/-! ## The store invariant -/

/-- What holds of a store that has not latched a fault. -/
structure StoreOk (env : Env) (s : Store) : Prop where
  env_eq : s.env = env
  next : env.validatePartitionOptions s.nextOptions = .ok ()
  builder_le : s.builder.length ≤ env.maxBlockPayload
  records_le : s.builderRecords.toNat ≤ s.builder.length
  records_pos : s.builder ≠ [] → 0 < s.builderRecords.toNat
  times : s.builder ≠ [] → s.builderMinTime ≤ s.builderMaxTime
  writer : (s.writerIdHigh, s.writerIdLow) ≠ (0, 0)
  active : ∃ p, s.active = some p ∧ p.isSealed = false

/-- A store between two calls and the phase it stands for. -/
def Matches (env : Env) (s : Store) (φ : Phase) : Prop :=
  s.faulted = true ∨ (StoreOk env s ∧ φ = .ready s.cat)

/-- The phase is the one the catalog stands for, unless a storage operation failed. -/
def AtRest (env : Env) (s : Store) (φ : Phase) : Prop :=
  φ = .halted ∨ (s.env = env ∧ φ = .ready s.cat)

section
variable {env : Env} {α : Type} {Q : Except Status α → Store → Phase → Prop} {s : Store} {φ : Phase}

/-- The postcondition accepts any faulted end. -/
def AcceptsFault (env : Env) (Q : Except Status α → Store → Phase → Prop) : Prop :=
  ∀ st s' φ', s'.faulted = true → AtRest env s' φ' → Q (.error st) s' φ'

theorem follows_failFault (hQ : AcceptsFault env Q) (st : Status) (hφ : AtRest env s φ) :
    Wr.Follows (protocol env) Q (failFault st) s φ := by
  simp only [failFault, Wr.follows_bind, Wr.follows_modify, Wr.after_ok, Wr.follows_fail]
  exact hQ _ _ _ rfl hφ

theorem follows_writeItem {Q : Except Status Unit → Store → Phase → Prop} (hQ : AcceptsFault env Q)
    {off : Nat} {i : Item} {φ' : Phase} (hw : Phase.Write env φ off i φ') (hok : Q (.ok ()) s φ') :
    Wr.Follows (protocol env) Q (writeItem off i) s φ := by
  simp only [writeItem, Wr.follows_bind, Wr.follows_tryWrite, Wr.after_ok]
  exact ⟨⟨φ', hw, hok⟩, fun e => follows_failFault hQ e (Or.inl rfl)⟩

theorem follows_syncMedia {Q : Except Status Unit → Store → Phase → Prop} (hQ : AcceptsFault env Q)
    {advances : Bool} {φ' : Phase} (hf : Phase.Flush env φ φ')
    (hok : Q (.ok ()) (synced advances s) φ') :
    Wr.Follows (protocol env) Q (syncMedia advances) s φ := by
  simp only [syncMedia, Wr.follows_bind, Wr.follows_tryFlush, Wr.after_ok, Wr.follows_modify]
  exact ⟨⟨φ', hf, hok⟩, fun e => follows_failFault hQ e (Or.inl rfl)⟩

theorem AcceptsFault.after {β : Type} {Q : Except Status β → Store → Phase → Prop}
    (hQ : AcceptsFault env Q) (L : Lts Item Phase) (f : α → Writer β) :
    AcceptsFault env (Wr.After L Q f) := fun st s' φ' h hφ => hQ st s' φ' h hφ

end

/-! ## The active partition -/

theorem find?_of_unique {α : Type} {c : α → Bool} {l : List α} {a : α} (ha : a ∈ l) (hc : c a = true)
    (hu : ∀ b ∈ l, c b = true → b = a) : l.find? c = some a := by
  induction l with
  | nil => cases ha
  | cons x xs ih =>
    rw [List.find?_cons]
    cases hx : c x with
    | true => rw [hu x (List.mem_cons_self ..) hx]
    | false =>
      rcases List.mem_cons.mp ha with rfl | ha
      · rw [hc] at hx; cases hx
      · exact ih ha fun b hb => hu b (List.mem_cons_of_mem _ hb)

theorem find?_updateFirst {c : PartitionState → Bool} {f : PartitionState → PartitionState}
    (hf : ∀ p, c p = true → c (f p) = true) :
    ∀ ps : List PartitionState, (updateFirst c f ps).find? c = (ps.find? c).map f
  | [] => rfl
  | p :: ps => by
    simp only [updateFirst]
    split
    · rename_i hc
      simp [hc, hf p hc]
    · rename_i hc
      simp only [List.find?_cons, hc]
      exact find?_updateFirst hf ps

theorem Cat.active_update {c : Cat} {f : PartitionState → PartitionState}
    (hf : ∀ p, (f p).header = p.header) : (c.update f).active = c.active.map f := by
  refine find?_updateFirst (fun p hp => ?_) c.partitions
  simpa only [PartitionState.is, hf p] using hp

theorem Cat.active_addFrame (c : Cat) (b : BlockHeader) :
    (c.addFrame b).active = c.active.map fun p =>
      addBlock p b (blockHeaderEncodedSize + b.storedSize.toNat) b.frameSpan.toNat :=
  Cat.active_update (c := c) fun _ => rfl

theorem Cat.active_spec {c : Cat} {p : PartitionState} (h : c.active = some p) :
    p ∈ c.partitions ∧ p.header.generation = c.generation ∧ p.header.slot = c.slot := by
  have hm := List.mem_of_find?_eq_some h
  have hc := List.find?_some h
  simp only [PartitionState.is, Bool.and_eq_true, beq_iff_eq] at hc
  exact ⟨hm, hc⟩

theorem Cat.active_install (c : Cat) (h : PartitionHeader) :
    (c.install h).active = some { header := h } := by
  refine find?_of_unique ?_ ?_ ?_
  · refine List.mem_mergeSort.mpr (List.mem_append_right _ (List.mem_singleton_self _))
  · simp [PartitionState.is, Cat.install]
  · intro q hq hc
    simp only [PartitionState.is, Cat.install, Bool.and_eq_true, beq_iff_eq] at hc
    rcases List.mem_append.mp (List.mem_mergeSort.mp hq) with hq | hq
    · have := (List.mem_filter.mp hq).2
      simp [hc.2] at this
    · exact List.mem_singleton.mp hq

theorem Store.active_cat (s : Store) : s.cat.active = s.active := rfl

/-! ## The programs follow the protocol -/

section
variable {env : Env} {Q : Except Status Unit → Store → Phase → Prop} {s : Store}

theorem follows_createPartition (hQ : AcceptsFault env Q) (he : s.env = env) {slot : UInt32}
    {generation : UInt64} {options : PartitionOptions} (hg : generation ≠ 0)
    (ho : env.validatePartitionOptions options = .ok ())
    (hok : ∀ changed, Q (.ok ())
      (installPartition (synced false s) (newHeader env slot generation options) changed)
      (.ready (s.cat.install (newHeader env slot generation options)))) :
    Wr.Follows (protocol env) Q (createPartition slot generation options) s
      (.rotating s.cat slot generation) := by
  subst he
  simp only [createPartition, if_neg hg, Wr.follows_bind, Wr.follows_get, Wr.after_ok, ho]
  refine follows_writeItem (hQ.after _ _) (.header ho) ?_
  simp only [Wr.after_ok, Wr.follows_bind]
  refine follows_syncMedia (hQ.after _ _) .install ?_
  simp only [Wr.after_ok, Wr.follows_modify]
  exact hok _

theorem follows_writeSeal (hQ : AcceptsFault env Q) (he : s.env = env) {p : PartitionState}
    (hp : s.active = some p) (hs : p.isSealed = false) (hd : s.dirty = false)
    (hg : p.header.generation ≠ 0xffffffffffffffff)
    (hok : Q (.ok ()) (markSealed (sealFooter env p) (synced false s))
      (.rotating (s.cat.sealed env p) ((p.header.slot + 1) % env.volume.partitionCount)
        (p.header.generation + 1))) :
    Wr.Follows (protocol env) Q (writeSeal p) s (.ready s.cat) := by
  subst he
  -- behind the index: the footer and the flush
  have tail {φ : Phase} (hw : Phase.Write s.env φ (s.env.partitionBase p.header.slot + s.env.footerOffset)
      (.footer (sealFooter s.env p) p.activeIndex) (.footed s.cat)) :
      Wr.Follows (protocol s.env) Q (do
        writeItem (s.env.partitionBase p.header.slot + s.env.footerOffset)
          (.footer (sealFooter s.env p) p.activeIndex)
        syncMedia false
        Wr.modify (markSealed (sealFooter s.env p))) s φ := by
    simp only [Wr.follows_bind]
    refine follows_writeItem (hQ.after _ _) hw ?_
    simp only [Wr.after_ok, Wr.follows_bind]
    refine follows_syncMedia (hQ.after _ _) (.sealed hp hs hg) ?_
    simp only [Wr.after_ok, Wr.follows_modify]
    exact hok
  simp only [writeSeal, Wr.follows_bind, Wr.follows_get, Wr.after_ok, Wr.follows_ite]
  refine ⟨fun _ => follows_failFault hQ _ (Or.inr ⟨rfl, rfl⟩), fun hfit => ?_⟩
  simp only [Wr.follows_when]
  refine ⟨fun hne => ?_, fun hne => ?_⟩
  · refine follows_writeItem (hQ.after _ _) (.index hp hs hd hne (Nat.not_lt.mp hfit)) ?_
    exact tail (.footer hp hs (Nat.not_lt.mp hfit))
  · exact tail (.emptyFooter hp hs hd (not_not.mp hne))

theorem follows_sealActiveOnly (hQ : AcceptsFault env Q) (he : s.env = env) {p : PartitionState}
    (hp : s.active = some p) (hs : p.isSealed = false)
    (hg : p.header.generation ≠ 0xffffffffffffffff)
    (hok : ∀ t : Store, t = s ∨ t = synced true s → t.dirty = false →
      Q (.ok ()) (markSealed (sealFooter env p) (synced false t))
        (.rotating (t.cat.sealed env p) ((p.header.slot + 1) % env.volume.partitionCount)
          (p.header.generation + 1))) :
    Wr.Follows (protocol env) Q sealActiveOnly s (.ready s.cat) := by
  simp only [sealActiveOnly, Wr.follows_bind, Wr.follows_get, Wr.after_ok, hp, hs, Wr.follows_ite]
  refine ⟨fun h => absurd h (by decide), fun _ => ?_⟩
  simp only [Wr.follows_when]
  refine ⟨fun hd => ?_, fun hd => ?_⟩
  · refine follows_syncMedia (hQ.after _ _) .sync ?_
    exact follows_writeSeal (s := synced true s) hQ he hp hs rfl hg (hok _ (Or.inr rfl) rfl)
  · have hd : s.dirty = false := by simpa using hd
    exact follows_writeSeal hQ he hp hs hd hg (hok s (Or.inl rfl) hd)

/-- Everything of a store but the catalog, the durability state and the counters is the same. -/
structure Store.Same (s t : Store) : Prop where
  env_eq : t.env = s.env
  next : t.nextOptions = s.nextOptions
  builder : t.builder = s.builder
  records : t.builderRecords = s.builderRecords
  minTime : t.builderMinTime = s.builderMinTime
  maxTime : t.builderMaxTime = s.builderMaxTime
  high : t.writerIdHigh = s.writerIdHigh
  low : t.writerIdLow = s.writerIdLow

theorem Store.Same.refl (s : Store) : s.Same s := ⟨rfl, rfl, rfl, rfl, rfl, rfl, rfl, rfl⟩

theorem Store.Same.trans {s t u : Store} (h : s.Same t) (h' : t.Same u) : s.Same u :=
  ⟨h'.1.trans h.1, h'.2.trans h.2, h'.3.trans h.3, h'.4.trans h.4, h'.5.trans h.5, h'.6.trans h.6,
   h'.7.trans h.7, h'.8.trans h.8⟩

theorem synced_same (advances : Bool) (s : Store) : s.Same (synced advances s) := by
  cases advances <;> exact ⟨rfl, rfl, rfl, rfl, rfl, rfl, rfl, rfl⟩

theorem markSealed_same (f : PartitionFooter) (s : Store) : s.Same (markSealed f s) :=
  ⟨rfl, rfl, rfl, rfl, rfl, rfl, rfl, rfl⟩

theorem installPartition_same (s : Store) (h : PartitionHeader) (changed : Bool) :
    s.Same (installPartition s h changed) := ⟨rfl, rfl, rfl, rfl, rfl, rfl, rfl, rfl⟩

theorem countRotation_same (s : Store) : s.Same (countRotation s) :=
  ⟨rfl, rfl, rfl, rfl, rfl, rfl, rfl, rfl⟩

@[simp] theorem installPartition_cat (s : Store) (h : PartitionHeader) (changed : Bool) :
    (installPartition s h changed).cat = s.cat.install h := rfl

@[simp] theorem countRotation_cat (s : Store) : (countRotation s).cat = s.cat := rfl

@[simp] theorem synced_false_cat (s : Store) : (synced false s).cat = s.cat := rfl

@[simp] theorem markSealed_cat (p : PartitionState) (s : Store) :
    (markSealed (sealFooter s.env p) s).cat = s.cat.sealed s.env p := rfl

theorem StoreOk.of_same {t : Store} (h : StoreOk env s) (hst : s.Same t)
    (ha : ∃ p, t.active = some p ∧ p.isSealed = false) : StoreOk env t where
  env_eq := hst.env_eq.trans h.env_eq
  next := by rw [hst.next]; exact h.next
  builder_le := by rw [hst.builder]; exact h.builder_le
  records_le := by rw [hst.builder, hst.records]; exact h.records_le
  records_pos := by rw [hst.builder, hst.records]; exact h.records_pos
  times := by rw [hst.builder, hst.minTime, hst.maxTime]; exact h.times
  writer := by rw [hst.high, hst.low]; exact h.writer
  active := ha

theorem follows_rotateInternal (hQ : AcceptsFault env Q) (hs : StoreOk env s)
    {options : PartitionOptions} (ho : env.validatePartitionOptions options = .ok ())
    (hok : ∀ t, s.Same t → StoreOk env t → Q (.ok ()) t (.ready t.cat)) :
    Wr.Follows (protocol env) Q (rotateInternal options) s (.ready s.cat) := by
  obtain ⟨p, hp, hns⟩ := hs.active
  have he := hs.env_eq
  simp only [rotateInternal, Wr.follows_bind, Wr.follows_get, Wr.after_ok, hp, Wr.follows_ite]
  refine ⟨fun _ => follows_failFault hQ _ (Or.inr ⟨he, rfl⟩), fun hg => ?_⟩
  refine follows_sealActiveOnly (hQ.after _ _) he hp hns hg fun t ht hd => ?_
  have hg0 : p.header.generation + 1 ≠ 0 := by
    intro h0
    apply hg
    have : p.header.generation = p.header.generation + 1 - 1 := by simp
    rw [this, h0]
    rfl
  have hte : t.env = s.env := by rcases ht with rfl | rfl <;> rfl
  simp only [Wr.after_ok, Wr.follows_bind]
  rw [he]
  refine follows_createPartition (s := markSealed (sealFooter env p) (synced false t))
    (hQ.after _ _) (hte.trans he) hg0 ho fun changed => ?_
  simp only [Wr.after_ok, Wr.follows_modify]
  generalize newHeader env ((p.header.slot + 1) % env.volume.partitionCount)
    (p.header.generation + 1) options = h
  have hst : s.Same t := by
    rcases ht with rfl | rfl
    · exact .refl _
    · exact synced_same true s
  have hsame : s.Same (countRotation (installPartition
      (synced false (markSealed (sealFooter env p) (synced false t))) h changed)) :=
    hst.trans ((synced_same _ _).trans ((markSealed_same _ _).trans ((synced_same _ _).trans
      ((installPartition_same _ _ _).trans (countRotation_same _)))))
  have hact := Cat.active_install (markSealed (sealFooter env p) (synced false t)).cat h
  exact hok _ hsame (hs.of_same hsame ⟨_, hact, rfl⟩)

theorem follows_ensureEmptyBuilderCapacity (hQ : AcceptsFault env Q) (hs : StoreOk env s)
    (hok : ∀ t, s.Same t → StoreOk env t → Q (.ok ()) t (.ready t.cat)) :
    Wr.Follows (protocol env) Q ensureEmptyBuilderCapacity s (.ready s.cat) := by
  have hself := hok s (.refl s) hs
  obtain ⟨p, hp, hns⟩ := hs.active
  simp only [ensureEmptyBuilderCapacity, Wr.follows_bind, Wr.follows_get, Wr.after_ok, hp,
    Wr.follows_ite, Wr.follows_pure]
  refine ⟨fun _ => hself, fun _ => ?_⟩
  have hrest : AtRest env s (.ready s.cat) := Or.inr ⟨hs.env_eq, rfl⟩
  split
  · exact follows_failFault hQ _ hrest
  · simp only [Wr.follows_ite, Wr.follows_pure]
    exact ⟨fun _ => follows_failFault hQ _ hrest, fun _ =>
      ⟨fun _ => follows_rotateInternal hQ hs hs.next hok, fun _ => hself⟩⟩

/-! ### Blocks -/

theorem codecFor_version {env : Env} {id : CompressionId} {v : UInt16} {c : CompressionCodec}
    (h : env.codecFor id v = some c) : c.version = v := by
  unfold Env.codecFor at h
  have hfind {h : env.codecs.find? (fun c => decide (c.id = id ∧ c.version = v)) = some c} :
      c.version = v := by
    have := List.find?_some h
    simp only [decide_eq_true_eq] at this
    exact this.2
  split at h
  · split at h
    · rename_i hv; cases h; exact hv
    · exact hfind (h := h)
  · exact hfind (h := h)

/-- What the compression step of `emit_builder` guarantees. -/
theorem packBuilder_spec {env : Env} {options : PartitionOptions} {builder : Bytes} {st : Stored}
    (hb : builder ≠ []) (h : packBuilder env options builder = .ok st) :
    st.payload ≠ [] ∧ st.payload.length ≤ builder.length ∧
      ((st.compression = .none ∧ st.version = 1 ∧ st.payload = builder) ∨
       (st.compression ≠ .none ∧ st.compression = options.compression ∧
        st.version = options.compressionVersion ∧
        ∃ c, env.codecFor st.compression st.version = some c ∧
          c.compress builder = .ok st.payload)) := by
  unfold packBuilder at h
  split at h
  · simp at h
  rename_i c hc
  split at h
  · cases h
    exact ⟨hb, Nat.le_refl _, Or.inl ⟨rfl, rfl, rfl⟩⟩
  rename_i hne
  cases hcomp : c.compress builder with
  | error e => rw [hcomp] at h; cases h
  | ok compressed =>
    rw [hcomp] at h
    simp only [bind, Except.bind] at h
    split at h
    · simp at h
    split at h
    · simp at h
    rename_i hnil
    split at h
    · rename_i hlt
      cases h
      refine ⟨hnil, Nat.le_of_lt hlt, Or.inr ⟨hne, rfl, codecFor_version hc, c, ?_, hcomp⟩⟩
      rw [codecFor_version hc]
      exact hc
    · cases h
      exact ⟨hb, Nat.le_refl _, Or.inl ⟨rfl, rfl, rfl⟩⟩

theorem toNat_ofNat32 {n : Nat} (h : n < 2 ^ 32) : (UInt32.ofNat n).toNat = n := by
  rw [UInt32.toNat_ofNat']
  omega

theorem ofNat32_ne_zero {n : Nat} (h : n < 2 ^ 32) (h0 : n ≠ 0) : UInt32.ofNat n ≠ 0 := by
  intro hn
  have := congrArg UInt32.toNat hn
  rw [toNat_ofNat32 h] at this
  exact h0 this

theorem frameOk_builder (hs : StoreOk env s) {p : PartitionState} {stored : Stored} {span : Nat}
    (hb : s.builder ≠ []) (hpack : packBuilder env p.header.options s.builder = .ok stored)
    (hspan : alignUp (blockHeaderEncodedSize + stored.payload.length) env.quantum = some span)
    (hsz : ¬ (blockHeaderEncodedSize + stored.payload.length > 0xffffffff ∨ span > 0xffffffff))
    (hcap : ¬ (p.dataEnd > env.indexBegin ∨ span > env.indexBegin - p.dataEnd ∨
      p.activeIndex.length + 1 > env.indexRegionSize / indexEntryEncodedSize)) :
    FrameOk env s.cat p (builderBlock s p stored span) stored.payload s.builder := by
  obtain ⟨hne, hle, hcomp⟩ := packBuilder_spec hb hpack
  have hmax : env.maxBlockPayload < 2 ^ 32 := env.volume.maxBlockPayload.toNat_lt
  have hbl := hs.builder_le
  have hpl : 0 < stored.payload.length := List.length_pos_of_ne_nil hne
  have hbp : 0 < s.builder.length := List.length_pos_of_ne_nil hb
  have hrec := hs.records_pos hb
  obtain ⟨-, hsp1, -, -⟩ := alignUp_spec hspan
  simp only [blockHeaderEncodedSize] at hsp1 hsz
  have hspan32 : (UInt32.ofNat span).toNat = span := toNat_ofNat32 (by omega)
  have hst32 : (UInt32.ofNat stored.payload.length).toNat = stored.payload.length :=
    toNat_ofNat32 (by omega)
  have hin : (builderBlock s p stored span).inBounds = true := by
    have h1 : UInt32.ofNat stored.payload.length ≠ 0 := ofNat32_ne_zero (by omega) (by omega)
    have h2 : UInt32.ofNat s.builder.length ≠ 0 := ofNat32_ne_zero (by omega) (by omega)
    have h3 : s.builderRecords ≠ 0 := by
      intro h0
      rw [h0] at hrec
      exact absurd hrec (by decide)
    have h4 : ¬ (s.writerIdHigh = 0 ∧ s.writerIdLow = 0) := by
      rintro ⟨ha, hb⟩
      exact hs.writer (by rw [ha, hb])
    have h5 : ¬ (s.builderMinTime > s.builderMaxTime) := Int64.not_lt.mpr (hs.times hb)
    have h6 : ¬ (UInt32.ofNat span < 128 + UInt32.ofNat stored.payload.length) := by
      rw [UInt32.lt_iff_toNat_lt, UInt32.toNat_add, hspan32, hst32]
      show ¬ (span < (128 + _) % 2 ^ 32)
      omega
    simp only [BlockHeader.inBounds, builderBlock, Bool.not_eq_true', Bool.or_eq_false_iff,
      beq_eq_false_iff_ne, Bool.and_eq_false_iff]
    refine ⟨⟨⟨⟨⟨h1, h2⟩, h3⟩, ?_⟩, decide_eq_false h5⟩, decide_eq_false h6⟩
    by_cases ha : s.writerIdHigh = 0
    · exact Or.inr fun hb => h4 ⟨ha, hb⟩
    · exact Or.inl ha
  have hprev : ((builderBlock s p stored span).previousWriterIdHigh,
      (builderBlock s p stored span).previousWriterIdLow) = lastWriter p.activeIndex := by
    simp only [builderBlock, lastWriter]
    cases p.activeIndex.getLast? <;> rfl
  refine
    { generation := rfl, slot := rfl, sequence := rfl, writer := rfl, previous := hprev,
      idHigh := congrArg (·.volume.volumeIdHigh) hs.env_eq,
      idLow := congrArg (·.volume.volumeIdLow) hs.env_eq, inBounds := hin, stored := hst32,
      rawSize := toNat_ofNat32 (by omega), stored_le := by omega, raw_le := hbl,
      stored_le_raw := hle, span := ?_, frame_lt := ?_, compression := ?_, crc := rfl, decodes := ?_, room := ?_,
      count := by omega }
  · rw [hspan]
    exact congrArg some hspan32.symm
  · simp only [blockHeaderEncodedSize]
    omega
  · rcases hcomp with ⟨h1, h2, h3⟩ | ⟨h1, h2, h3, -⟩
    · simp [compressionAgrees, builderBlock, h1, h2, h3]
    · simp only [compressionAgrees, builderBlock, h1, if_false, h2.symm, h3.symm, beq_self_eq_true,
        Bool.and_self]
  · intro hl
    have hr : (UInt32.ofNat s.builder.length).toNat = s.builder.length := toNat_ofNat32 (by omega)
    rcases hcomp with ⟨h1, h2, h3⟩ | ⟨h1, h2, h3, c, hc, hcompress⟩
    · simp [decodePayload, builderBlock, h1, h2, h3, Env.codecFor, builtInCodec, noCompressionCodec,
        NoneCodec.decompress, hr, bind, Except.bind]
    · have := hl.decompress hc hbl hcompress
      simp [decodePayload, builderBlock, hc, hr, this, bind, Except.bind]
  · show p.dataEnd + (UInt32.ofNat span).toNat ≤ env.indexBegin
    omega

theorem publishBlock_cat {p : PartitionState} {stored : Stored} (span : Nat)
    (h1 : blockHeaderEncodedSize + stored.payload.length < 2 ^ 32) (h2 : span < 2 ^ 32) :
    (publishBlock s (builderBlock s p stored span)
      (blockHeaderEncodedSize + stored.payload.length) span).cat =
      s.cat.addFrame (builderBlock s p stored span) := by
  have e1 : (builderBlock s p stored span).storedSize.toNat = stored.payload.length :=
    toNat_ofNat32 (by simp only [blockHeaderEncodedSize] at h1; omega)
  have e2 : (builderBlock s p stored span).frameSpan.toNat = span := toNat_ofNat32 h2
  simp only [Cat.addFrame, e1, e2]
  rfl

theorem publishBlock_active {b : BlockHeader} {n m : Nat} :
    (publishBlock s b n m).active = s.active.map (addBlock · b n m) :=
  Cat.active_update (c := s.cat) fun _ => rfl

theorem publishBlock_ok (hs : StoreOk env s) (b : BlockHeader) (n m : Nat) :
    StoreOk env (publishBlock s b n m) where
  env_eq := hs.env_eq
  next := hs.next
  builder_le := Nat.zero_le _
  records_le := Nat.le_refl _
  records_pos := fun h => absurd rfl h
  times := fun h => absurd rfl h
  writer := hs.writer
  active := by
    obtain ⟨p, hp, hns⟩ := hs.active
    rw [publishBlock_active, hp]
    exact ⟨_, rfl, hns⟩

theorem follows_emitBuilder (hQ : AcceptsFault env Q) (hs : StoreOk env s)
    (hok : ∀ t, StoreOk env t → t.builder = [] → t.writable = s.writable → t.closed = s.closed →
      t.faulted = s.faulted → Q (.ok ()) t (.ready t.cat)) :
    Wr.Follows (protocol env) Q emitBuilder s (.ready s.cat) := by
  obtain ⟨p, hp, hns⟩ := hs.active
  have he := hs.env_eq
  simp only [emitBuilder, Wr.follows_bind, Wr.follows_get, Wr.after_ok, hp, he, Wr.follows_ite,
    Wr.follows_pure]
  refine ⟨fun hnil => hok s hs hnil rfl rfl rfl, fun hb => ?_⟩
  have hrest : AtRest env s (.ready s.cat) := Or.inr ⟨he, rfl⟩
  split
  · exact follows_failFault hQ _ hrest
  rename_i stored hpack
  split
  · exact follows_failFault hQ _ hrest
  rename_i span hspan
  simp only [Wr.follows_ite]
  refine ⟨fun _ => follows_failFault hQ _ hrest, fun hsz =>
    ⟨fun _ => follows_failFault hQ _ hrest, fun hcap => ?_⟩⟩
  have hframe := frameOk_builder hs hb hpack hspan hsz hcap
  simp only [Wr.follows_bind]
  refine follows_writeItem (hQ.after _ _) (.frame hp hns hframe) ?_
  simp only [Wr.after_ok, Wr.follows_modify]
  have hcat := publishBlock_cat (s := s) (p := p) span hframe.frame_lt (by omega)
  rw [← hcat]
  exact hok _ (publishBlock_ok hs _ _ _) rfl rfl rfl rfl

/-! ### Calls -/

theorem min_le_max {a b c d : Int64} (h : c ≤ d) : min a c ≤ max b d := by
  have h1 : min a c ≤ c := by
    show (if a ≤ c then a else c) ≤ c
    split
    · assumption
    · exact Int64.le_refl c
  have h2 : d ≤ max b d := by
    show d ≤ (if b ≤ d then d else b)
    split
    · exact Int64.le_refl d
    · rename_i hn
      exact Int64.le_of_lt (Int64.not_le.mp hn)
  exact Int64.le_trans h1 (Int64.le_trans h h2)

theorem acceptRecord_ok (hs : StoreOk env s) {record : Bytes} (hr : record ≠ [])
    (hfit : s.builder.length + record.length ≤ env.maxBlockPayload) (options : PartitionOptions)
    (time : Int64) (flags : UInt32) : StoreOk env (acceptRecord s options record time flags) where
  env_eq := hs.env_eq
  next := hs.next
  builder_le := by
    show (s.builder ++ record).length ≤ _
    rw [List.length_append]
    exact hfit
  records_le := by
    show (s.builderRecords + 1).toNat ≤ (s.builder ++ record).length
    have hpos : 0 < record.length := List.length_pos_of_ne_nil hr
    have hle := hs.records_le
    have h1 : (s.builderRecords + 1).toNat = (s.builderRecords.toNat + 1) % 2 ^ 32 :=
      UInt32.toNat_add ..
    have := Nat.mod_le (s.builderRecords.toNat + 1) (2 ^ 32)
    rw [h1, List.length_append]
    omega
  records_pos := by
    intro _
    show 0 < (s.builderRecords + 1).toNat
    have hpos : 0 < record.length := List.length_pos_of_ne_nil hr
    have hmax : env.maxBlockPayload < 2 ^ 32 := env.volume.maxBlockPayload.toNat_lt
    have hle := hs.records_le
    have h1 : (s.builderRecords + 1).toNat = (s.builderRecords.toNat + 1) % 2 ^ 32 :=
      UInt32.toNat_add ..
    rw [h1, Nat.mod_eq_of_lt (by omega)]
    omega
  times := by
    intro _
    show (if s.builder.isEmpty then time else min s.builderMinTime time) ≤
      (if s.builder.isEmpty then time else max s.builderMaxTime time)
    split
    · exact Int64.le_refl time
    · exact min_le_max (Int64.le_refl time)
  writer := hs.writer
  active := hs.active

/-- The guard returns an error, or the store is live. -/
theorem follows_guardWritable {φ : Phase} (herr : ∀ st, Q (.error st) s φ)
    (hok : s.faulted = false → Q (.ok ()) s φ) :
    Wr.Follows (protocol env) Q guardWritable s φ := by
  simp only [guardWritable, Wr.follows_bind, Wr.follows_get, Wr.after_ok, Wr.follows_ite,
    Wr.follows_fail, Wr.follows_pure]
  refine ⟨fun _ => herr _, fun _ => ⟨fun _ => herr _, fun _ => ⟨fun _ => herr _, fun hf => hok ?_⟩⟩⟩
  simpa using hf

/-- The postcondition accepts any store in order. -/
def AcceptsReady (env : Env) (Q : Except Status Unit → Store → Phase → Prop) : Prop :=
  ∀ r t, StoreOk env t → Q r t (.ready t.cat)

/-- The builder is emitted first if the record does not fit behind it. -/
theorem follows_makeRoom (hQ : AcceptsFault env Q) (hs : StoreOk env s) {record : Bytes}
    (hle : record.length ≤ env.maxBlockPayload) {f : Unit → Writer Unit}
    (hf : ∀ t, StoreOk env t → t.builder.length + record.length ≤ env.maxBlockPayload →
      Wr.Follows (protocol env) Q (f ()) t (.ready t.cat)) :
    Wr.Follows (protocol env) Q
      (Wr.when (record.length > s.env.maxBlockPayload - s.builder.length) emitBuilder >>= f) s
      (.ready s.cat) := by
  simp only [Wr.follows_bind, Wr.follows_when]
  refine ⟨fun _ => ?_, fun hsmall => ?_⟩
  · refine follows_emitBuilder (hQ.after _ _) hs fun t ht hnil _ _ _ => ?_
    exact hf t ht (by rw [hnil]; simpa using hle)
  · have := hs.builder_le
    rw [hs.env_eq] at hsmall
    exact hf s hs (by omega)

theorem follows_appendImpl (hQ : AcceptsFault env Q) (hR : AcceptsReady env Q) (hs : StoreOk env s)
    (record : Bytes) (time : Int64) (flags : UInt32) (expected : Option AppendContract) :
    Wr.Follows (protocol env) Q (appendImpl record time flags expected) s (.ready s.cat) := by
  have he := hs.env_eq
  rw [appendImpl, Wr.follows_bind]
  refine follows_guardWritable (fun st => hR _ _ hs) fun _ => ?_
  simp only [Wr.after_ok]
  rw [Wr.follows_bind, Wr.follows_get, Wr.after_ok]
  simp only [Wr.follows_ite, Wr.follows_fail, he]
  refine ⟨fun _ => hR _ _ hs, fun hne => ⟨fun _ => hR _ _ hs, fun hle => ?_⟩⟩
  -- from a store whose builder has room: reserve capacity, then accept
  refine follows_makeRoom hQ hs (Nat.not_lt.mp hle) fun t ht hfit => ?_
  simp only [Wr.follows_bind]
  refine follows_ensureEmptyBuilderCapacity (hQ.after _ _) ht fun u hu huo => ?_
  obtain ⟨p, hp, -⟩ := huo.active
  simp only [Wr.after_ok, Wr.follows_bind, Wr.follows_get, hp, Wr.follows_ite, Wr.follows_fail,
    Wr.follows_set]
  refine ⟨fun _ => hR _ _ huo, fun _ => ?_⟩
  exact hR _ _ (acceptRecord_ok huo hne (by rw [hu.builder]; exact hfit) _ _ _)

theorem follows_checkpoint_tail (hQ : AcceptsFault env Q) (hR : AcceptsReady env Q)
    (hs : StoreOk env s) : Wr.Follows (protocol env) Q (Wr.when s.dirty (syncMedia true)) s
      (.ready s.cat) := by
  simp only [Wr.follows_when]
  refine ⟨fun _ => ?_, fun _ => hR _ _ hs⟩
  refine follows_syncMedia hQ .sync ?_
  exact hR _ (synced true s) (hs.of_same (synced_same true s) hs.active)

/-- A live store: every call follows the protocol. -/
theorem program_follows_ready (hQ : AcceptsFault env Q) (hR : AcceptsReady env Q) (hs : StoreOk env s)
    (hf : s.faulted = false) (op : Op) :
    Wr.Follows (protocol env) Q op.program s (.ready s.cat) := by
  cases op with
  | append record time flags => exact follows_appendImpl hQ hR hs _ _ _ _
  | appendChecked record time expected flags =>
    simp only [Op.program, appendChecked, Wr.follows_ite, Wr.follows_fail]
    exact ⟨fun _ => hR _ _ hs, fun _ => follows_appendImpl hQ hR hs _ _ _ _⟩
  | publish =>
    simp only [Op.program, publish, Wr.follows_bind]
    refine follows_guardWritable (fun st => hR _ _ hs) fun _ => ?_
    exact follows_emitBuilder hQ hs fun t ht _ _ _ _ => hR _ _ ht
  | checkpoint =>
    simp only [Op.program, checkpoint, Wr.follows_bind]
    refine follows_guardWritable (fun st => hR _ _ hs) fun _ => ?_
    simp only [Wr.after_ok, Wr.follows_bind]
    refine follows_emitBuilder (hQ.after _ _) hs fun t ht _ _ _ _ => ?_
    exact follows_checkpoint_tail hQ hR ht
  | close =>
    have hclosed (t : Store) (ht : StoreOk env t) : StoreOk env { t with closed := true } :=
      ht.of_same ⟨rfl, rfl, rfl, rfl, rfl, rfl, rfl, rfl⟩ ht.active
    simp only [Op.program, close, Wr.follows_bind, Wr.follows_get, Wr.after_ok, Wr.follows_ite,
      Wr.follows_pure, Wr.follows_modify, Wr.follows_fail]
    refine ⟨fun _ => hR _ _ hs, fun _ => ⟨fun _ => hR _ _ (hclosed s hs),
      fun _ => ⟨fun h => absurd (hf.symm.trans h) (by decide), fun _ => ?_⟩⟩⟩
    refine follows_emitBuilder (hQ.after _ _) hs fun t ht _ _ _ _ => ?_
    simp only [Wr.after_ok, Wr.follows_bind, Wr.follows_get]
    refine follows_checkpoint_tail (hQ.after _ _) ?_ ht
    intro r u hu
    cases r with
    | ok _ => exact hR _ _ (hclosed u hu)
    | error e => exact hR _ _ hu
  | rotate next =>
    simp only [Op.program, rotate, Wr.follows_bind]
    refine follows_guardWritable (fun st => hR _ _ hs) fun _ => ?_
    simp only [Wr.after_ok, Wr.follows_bind, Wr.follows_get, hs.env_eq]
    cases ho : env.validatePartitionOptions next with
    | error st => exact hR _ _ hs
    | ok u =>
      cases u
      simp only [Wr.follows_bind]
      refine follows_emitBuilder (hQ.after _ _) hs fun t ht _ _ _ _ => ?_
      simp only [Wr.after_ok, Wr.follows_bind, Wr.follows_modify]
      have ht' : StoreOk env { t with nextOptions := next } :=
        ⟨ht.env_eq, ho, ht.builder_le, ht.records_le, ht.records_pos, ht.times, ht.writer, ht.active⟩
      exact follows_rotateInternal (s := { t with nextOptions := next }) hQ ht' ho
        fun u _ hu => hR _ _ hu
  | setNext options =>
    simp only [Op.program, setNextPartitionOptions, Wr.follows_bind]
    refine follows_guardWritable (fun st => hR _ _ hs) fun _ => ?_
    simp only [Wr.after_ok, Wr.follows_bind, Wr.follows_get, hs.env_eq]
    cases ho : env.validatePartitionOptions options with
    | error st => exact hR _ _ hs
    | ok u =>
      have hs' : StoreOk env { s with nextOptions := options } :=
        ⟨hs.env_eq, ho, hs.builder_le, hs.records_le, hs.records_pos, hs.times, hs.writer, hs.active⟩
      exact hR _ _ hs'

theorem follows_guardWritable_faulted {φ : Phase} (hf : s.faulted = true)
    (herr : ∀ st, Q (.error st) s φ) : Wr.Follows (protocol env) Q guardWritable s φ :=
  follows_guardWritable herr fun h => by rw [hf] at h; cases h

/-- A faulted store makes no effect. -/
theorem program_follows_faulted {φ : Phase} (hf : s.faulted = true)
    (hQ : ∀ r t, t.faulted = true → t.env = s.env → t.cat = s.cat → Q r t φ) (op : Op) :
    Wr.Follows (protocol env) Q op.program s φ := by
  have hself : ∀ st, Q (.error st) s φ := fun st => hQ _ s hf rfl rfl
  have happ (record : Bytes) (time : Int64) (flags : UInt32) (expected : Option AppendContract) :
      Wr.Follows (protocol env) Q (appendImpl record time flags expected) s φ := by
    simp only [appendImpl, Wr.follows_bind]
    exact follows_guardWritable_faulted hf hself
  cases op with
  | append record time flags => exact happ _ _ _ _
  | appendChecked record time expected flags =>
    simp only [Op.program, appendChecked, Wr.follows_ite, Wr.follows_fail]
    exact ⟨fun _ => hself _, fun _ => happ _ _ _ _⟩
  | publish =>
    simp only [Op.program, publish, Wr.follows_bind]
    exact follows_guardWritable_faulted hf hself
  | checkpoint =>
    simp only [Op.program, checkpoint, Wr.follows_bind]
    exact follows_guardWritable_faulted hf hself
  | close =>
    simp only [Op.program, close, Wr.follows_bind, Wr.follows_get, Wr.after_ok, Wr.follows_ite,
      Wr.follows_pure, Wr.follows_modify, Wr.follows_fail]
    exact ⟨fun _ => hQ _ s hf rfl rfl, fun _ => ⟨fun _ => hQ _ _ hf rfl rfl,
      fun _ => ⟨fun _ => hself _, fun h => absurd hf h⟩⟩⟩
  | rotate next =>
    simp only [Op.program, rotate, Wr.follows_bind]
    exact follows_guardWritable_faulted hf hself
  | setNext options =>
    simp only [Op.program, setNextPartitionOptions, Wr.follows_bind]
    exact follows_guardWritable_faulted hf hself

end

/-- **Every mutating call follows the protocol.** -/
theorem program_follows {env : Env} (op : Op) {s : Store} {φ : Phase} (h : Matches env s φ) :
    Wr.Follows (protocol env) (fun _ t φ' => Matches env t φ') op.program s φ := by
  have faulted (hf : s.faulted = true) :
      Wr.Follows (protocol env) (fun _ t φ' => Matches env t φ') op.program s φ :=
    program_follows_faulted hf (fun _ _ ht _ _ => Or.inl ht) op
  rcases h with hf | ⟨hs, rfl⟩
  · exact faulted hf
  · cases hf : s.faulted with
    | true => exact faulted hf
    | false =>
      exact program_follows_ready (fun _ _ _ ht _ => Or.inl ht) (fun _ _ ht => Or.inr ⟨ht, rfl⟩) hs hf op

/-- A call from the phase of the catalog ends in the phase of the catalog, with or without a fault,
unless a storage operation fails. -/
theorem program_follows_rest {env : Env} (op : Op) {s : Store} (he : s.env = env)
    (hs : s.faulted = true ∨ StoreOk env s) :
    Wr.Follows (protocol env)
      (fun _ t φ' => (t.faulted = true ∨ StoreOk env t) ∧ AtRest env t φ') op.program s
      (.ready s.cat) := by
  cases hf : s.faulted with
  | true =>
    refine program_follows_faulted hf (fun r t ht hte hc => ?_) op
    exact ⟨Or.inl ht, Or.inr ⟨hte.trans he, by rw [hc]⟩⟩
  | false =>
    have hok : StoreOk env s := by
      rcases hs with h | h
      · rw [hf] at h
        cases h
      · exact h
    refine program_follows_ready (fun st t φ' ht hr => ⟨Or.inl ht, hr⟩) (fun r t ht => ?_) hok hf op
    exact ⟨Or.inr ht, Or.inr ⟨ht.env_eq, rfl⟩⟩

end TFDB

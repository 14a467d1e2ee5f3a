import TFDB.Run
import TFDB.Fresh

/-!
# The ledger of a store

What becomes of the records a store accepts.  A `Session` is kept by an observer who only sees
which calls returned and what was written and flushed: a record whose append returned `Ok` is
pending, the next frame takes all pending records, and a flush covers the blocks written so far.

* `Books` — the fields of a store agree with the session: builder, counters, durability;
* `ledger` — the transition system of sessions: a frame holds exactly the pending records and
  these fit the contract of the active partition, a header is only written, and a flush only
  done, when no record is pending;
* `program_books` — every call of a store follows it;
* `Tracked` — the run of one store object with its session;
* `durability_accounting` — the durable counters tell what a flush has covered.
-/

set_option autoImplicit false

namespace TFDB

open ByteLib Writer

/-! ## Sessions -/

/-- A record whose append returned `Ok`. -/
structure AcceptedRecord where
  record : Bytes
  time : Int64
  flags : UInt32
  expected : Option AppendContract

/-- A block whose frame was written as a whole, with the options of its partition and the
records that were pending. -/
structure PublishedBlock where
  off : Nat
  header : BlockHeader
  payload : Bytes
  raw : Bytes
  options : PartitionOptions
  records : List AcceptedRecord

def PublishedBlock.item (block : PublishedBlock) : Item :=
  .frame block.header block.payload block.raw

/-- What an observer of a store knows. -/
structure Session where
  /-- The options of the partition whose header was seen last. -/
  options : Option PartitionOptions := none
  pending : List AcceptedRecord := []
  blocks : List PublishedBlock := []
  /-- How many blocks the last successful flush covers. -/
  synced : Nat := 0
  /-- How many flushes succeeded. -/
  flushes : Nat := 0

/-- The record a call asks the store to accept. -/
def Op.submits : Op → Option AcceptedRecord
  | .append record time flags => some ⟨record, time, flags, none⟩
  | .appendChecked record time expected flags => some ⟨record, time, flags, some expected⟩
  | _ => none

namespace Session

/-- The records accepted so far, in order. -/
def accepted (S : Session) : List AcceptedRecord :=
  S.blocks.flatMap PublishedBlock.records ++ S.pending

/-- The records in blocks the last successful flush covers. -/
def durable (S : Session) : List AcceptedRecord :=
  (S.blocks.take S.synced).flatMap PublishedBlock.records

def wrote (S : Session) (off : Nat) : Item → Session
  | .frame b payload raw =>
    { S with
      pending := []
      blocks := S.blocks ++ [⟨off, b, payload, raw, S.options.getD {}, S.pending⟩] }
  | .header h => { S with options := some h.options }
  | _ => S

def flushed (S : Session) : Session :=
  { S with synced := S.blocks.length, flushes := S.flushes + 1 }

def returned (S : Session) (op : Op) : Except Status Unit → Session
  | .ok () => { S with pending := S.pending ++ op.submits.toList }
  | .error _ => S

end Session

/-- What a session requires of a write. -/
def WellPacked (S : Session) : Item → Prop
  | .frame b _ raw =>
    S.pending ≠ [] ∧ raw = S.pending.flatMap AcceptedRecord.record ∧
      b.recordCount = UInt32.ofNat S.pending.length ∧
      ∃ o, S.options = some o ∧ ∀ r ∈ S.pending, contractHolds o r.expected = true
  | .header _ => S.pending = []
  | _ => True

def ledger : Lts Item Session where
  write S off i S' := WellPacked S i ∧ S' = S.wrote off i
  flush S S' := S.pending = [] ∧ S' = S.flushed
  fail S := S

/-! ## The books of a store -/

/-- The counters and the builder of the store agree with the session. -/
structure Tally (s : Store) (S : Session) : Prop where
  builder : s.builder = S.pending.flatMap AcceptedRecord.record
  count : s.builderRecords = UInt32.ofNat S.pending.length
  nonempty : ∀ r ∈ S.pending, r.record ≠ []
  synced_le : S.synced ≤ S.blocks.length
  accepted : s.metrics.acceptedRecords = UInt64.ofNat S.accepted.length
  published : s.metrics.publishedBlocks = UInt64.ofNat S.blocks.length
  durableRecords : s.metrics.durableRecords = UInt64.ofNat S.durable.length
  durableBlocks : s.metrics.durableBlocks = UInt64.ofNat S.synced
  undurable : s.haveUndurableRecords = decide (S.durable.length < S.accepted.length)
  packed : ∀ block ∈ S.blocks, block.records ≠ [] ∧
    block.raw = block.records.flatMap AcceptedRecord.record ∧
    ∀ r ∈ block.records, contractHolds block.options r.expected = true

/-- The store agrees with the session; without a fault the partition does so too. -/
structure Books (s : Store) (S : Session) : Prop extends Tally s S where
  clean : s.faulted = false → s.dirty = false → S.synced = S.blocks.length
  options : s.faulted = false → S.options = s.active.map fun p => p.header.options
  contracts : s.faulted = false → ∀ r ∈ S.pending, ∀ o, S.options = some o →
    contractHolds o r.expected = true

section
variable {s t : Store} {S : Session}

theorem Tally.pending_nil (h : Tally s S) (hb : s.builder = []) : S.pending = [] := by
  cases hp : S.pending with
  | nil => rfl
  | cons r rs =>
    have hr : r.record = [] := by
      have := h.builder
      rw [hb, hp, List.flatMap_cons] at this
      exact (List.append_eq_nil_iff.mp this.symm).1
    exact absurd hr (h.nonempty r (by rw [hp]; exact List.mem_cons_self ..))

/-- Of two sessions of one store, the later one has the earlier blocks and at least its flushes. -/
theorem Session.durable_grows {S S' : Session} (hb : S.blocks <+: S'.blocks)
    (hs : S.synced ≤ S'.synced) (hle : S.synced ≤ S.blocks.length) : S.durable <+: S'.durable := by
  obtain ⟨rest, hrest⟩ := hb
  have htake : S.blocks.take S.synced <+: S'.blocks.take S'.synced := by
    rw [← hrest]
    have h1 : S.blocks.take S.synced = (S.blocks ++ rest).take S.synced :=
      (List.take_append_of_le_length hle).symm
    rw [h1]
    exact List.take_prefix_take_left hs
  obtain ⟨more, hmore⟩ := htake
  refine ⟨more.flatMap PublishedBlock.records, ?_⟩
  rw [Session.durable, Session.durable, ← hmore, List.flatMap_append]

/-- What is durable comes first among what was accepted. -/
theorem Session.durable_accepted (S : Session) : S.durable <+: S.accepted := by
  refine ⟨(S.blocks.drop S.synced).flatMap PublishedBlock.records ++ S.pending, ?_⟩
  unfold Session.durable Session.accepted
  rw [← List.append_assoc, ← List.flatMap_append, List.take_append_drop]

theorem Session.durable_le (S : Session) : S.durable.length ≤ S.accepted.length :=
  S.durable_accepted.length_le

/-- With nothing pending and every block covered, all records are durable. -/
theorem Session.durable_all (hp : S.pending = []) (hs : S.synced = S.blocks.length) :
    S.durable = S.accepted := by
  unfold Session.durable Session.accepted
  rw [hs, List.take_length, hp, List.append_nil]

/-- A latched fault keeps the counters, and the partition no longer matters. -/
theorem Tally.fault (h : Tally s S) (st : Status) :
    Books { s with faulted := true, faultStatus := st } S :=
  { h with
    clean := fun hf => by cases hf
    options := fun hf => by cases hf
    contracts := fun hf => by cases hf }

theorem Tally.syncFailed (h : Tally s S) : Tally (syncFailed s) S := { h with }

/-- A flush that advances the durable counters. -/
theorem Tally.synced_true (h : Tally s S) (hp : S.pending = []) :
    Tally (synced true s) S.flushed := by
  have hall : S.flushed.durable = S.accepted := Session.durable_all (S := S.flushed) hp rfl
  refine { h with
    synced_le := Nat.le_refl _
    durableRecords := ?_
    durableBlocks := h.published
    undurable := ?_ }
  · rw [hall]
    exact h.accepted
  · rw [hall]
    exact (decide_eq_false (Nat.lt_irrefl _)).symm

/-- A flush that does not advance them, with nothing to advance. -/
theorem Tally.synced_false (h : Tally s S) (hs : S.synced = S.blocks.length) :
    Tally (synced false s) S.flushed := by
  have hdur : S.flushed.durable = S.durable := by
    unfold Session.durable Session.flushed
    rw [hs]
  refine { h with
    synced_le := Nat.le_refl _
    durableRecords := ?_
    durableBlocks := ?_
    undurable := ?_ }
  · rw [hdur]
    exact h.durableRecords
  · show s.metrics.durableBlocks = UInt64.ofNat S.blocks.length
    rw [← hs]
    exact h.durableBlocks
  · rw [hdur]
    exact h.undurable

end

/-! ## The calls keep the books -/

section
variable {α : Type} {Q : Except Status α → Store → Session → Prop} {s : Store} {S : Session}

/-- The postcondition accepts any error that leaves the books in order. -/
def AcceptsBooks (Q : Except Status α → Store → Session → Prop) : Prop :=
  ∀ st s' S', Books s' S' → Q (.error st) s' S'

theorem AcceptsBooks.after {β : Type} {Q : Except Status β → Store → Session → Prop}
    (hQ : AcceptsBooks Q) (L : Lts Item Session) (f : α → Writer β) :
    AcceptsBooks (Wr.After L Q f) := fun st s' S' h => hQ st s' S' h

theorem tally_failFault (hQ : AcceptsBooks Q) (h : Tally s S) (st : Status) :
    Wr.Follows ledger Q (failFault st) s S := by
  simp only [failFault, Wr.follows_bind, Wr.follows_modify, Wr.after_ok, Wr.follows_fail]
  exact hQ _ _ _ (h.fault st)

end

section
variable {Q : Except Status Unit → Store → Session → Prop} {s : Store} {S : Session}

theorem tally_writeItem (hQ : AcceptsBooks Q) (h : Tally s S) {off : Nat} {i : Item}
    (hi : WellPacked S i) (hok : Q (.ok ()) s (S.wrote off i)) :
    Wr.Follows ledger Q (writeItem off i) s S := by
  simp only [writeItem, Wr.follows_bind, Wr.follows_tryWrite, Wr.after_ok]
  exact ⟨⟨_, ⟨hi, rfl⟩, hok⟩, fun e => tally_failFault hQ h e⟩

theorem tally_syncMedia (hQ : AcceptsBooks Q) (h : Tally s S) (hp : S.pending = [])
    {advances : Bool} (hok : Q (.ok ()) (synced advances s) S.flushed) :
    Wr.Follows ledger Q (syncMedia advances) s S := by
  simp only [syncMedia, Wr.follows_bind, Wr.follows_tryFlush, Wr.after_ok, Wr.follows_modify]
  exact ⟨⟨_, ⟨hp, rfl⟩, hok⟩, fun e => tally_failFault hQ h.syncFailed e⟩

/-- The store and the session at a partition boundary: nothing pending, every block covered. -/
structure Balanced (s : Store) (S : Session) : Prop extends Books s S where
  pending : S.pending = []
  covered : S.synced = S.blocks.length
  live : s.faulted = false
  dirty : s.dirty = false

theorem books_createPartition (hQ : AcceptsBooks Q) (h : Balanced s S) (slot : UInt32)
    (generation : UInt64) (options : PartitionOptions)
    (hok : ∀ t S', Balanced t S' → Q (.ok ()) t S') :
    Wr.Follows ledger Q (createPartition slot generation options) s S := by
  simp only [createPartition, Wr.follows_ite, Wr.follows_fail]
  refine ⟨fun _ => hQ _ _ _ h.toBooks, fun _ => ?_⟩
  simp only [Wr.follows_bind, Wr.follows_get, Wr.after_ok]
  cases s.env.validatePartitionOptions options with
  | error st => exact hQ _ _ _ h.toBooks
  | ok u =>
    simp only [Wr.follows_bind]
    generalize newHeader s.env slot generation options = hd
    refine tally_writeItem (hQ.after _ _) h.toTally h.pending ?_
    have h1 : Tally s (S.wrote (s.env.partitionBase slot) (.header hd)) := { h.toTally with }
    simp only [Wr.after_ok, Wr.follows_bind]
    refine tally_syncMedia (hQ.after _ _) h1 h.pending ?_
    simp only [Wr.after_ok, Wr.follows_modify]
    have h2 := h1.synced_false h.covered
    have hact := Cat.active_install (synced false s).cat hd
    refine hok _ _ ?_
    refine
      { builder := h2.builder, count := h2.count, nonempty := h2.nonempty
        synced_le := h2.synced_le, accepted := h2.accepted, published := h2.published
        durableRecords := h2.durableRecords, durableBlocks := h2.durableBlocks
        undurable := h2.undurable, packed := h2.packed
        clean := fun _ _ => rfl
        options := fun _ => ?_
        contracts := ?_
        pending := h.pending, covered := rfl, live := h.live, dirty := rfl }
    · show some hd.options = (installPartition (synced false s) hd _).active.map _
      rw [← Store.active_cat, installPartition_cat, hact]
      rfl
    · intro _ r hr
      have hp : S.pending = [] := h.pending
      rw [show (S.wrote _ (.header hd)).flushed.pending = S.pending from rfl, hp] at hr
      cases hr

theorem markSealed_options (f : PartitionFooter) (s : Store) :
    ((markSealed f s).active.map fun p => p.header.options) =
      s.active.map fun p => p.header.options := by
  have : (markSealed f s).active =
      s.active.map fun p => { p with isSealed := true, indexValid := true, footer := f } :=
    Cat.active_update (c := s.cat) fun _ => rfl
  rw [this, Option.map_map]
  rfl

theorem books_writeSeal (hQ : AcceptsBooks Q) (h : Balanced s S) (p : PartitionState)
    (hok : ∀ t S', Balanced t S' → Q (.ok ()) t S') :
    Wr.Follows ledger Q (writeSeal p) s S := by
  have tail : Wr.Follows ledger Q (do
      writeItem (s.env.partitionBase p.header.slot + s.env.footerOffset)
        (.footer (sealFooter s.env p) p.activeIndex)
      syncMedia false
      Wr.modify (markSealed (sealFooter s.env p))) s S := by
    simp only [Wr.follows_bind]
    refine tally_writeItem (hQ.after _ _) h.toTally trivial ?_
    simp only [Wr.after_ok, Wr.follows_bind]
    refine tally_syncMedia (hQ.after _ _) h.toTally h.pending ?_
    simp only [Wr.after_ok, Wr.follows_modify]
    have h2 := h.toTally.synced_false h.covered
    refine hok _ _ ?_
    refine
      { builder := h2.builder, count := h2.count, nonempty := h2.nonempty
        synced_le := h2.synced_le, accepted := h2.accepted, published := h2.published
        durableRecords := h2.durableRecords, durableBlocks := h2.durableBlocks
        undurable := h2.undurable, packed := h2.packed
        clean := fun _ _ => rfl
        options := fun hf => ?_
        contracts := h.contracts
        pending := h.pending, covered := rfl, live := h.live, dirty := h.dirty }
    rw [markSealed_options]
    exact h.options hf
  simp only [writeSeal, Wr.follows_bind, Wr.follows_get, Wr.after_ok, Wr.follows_ite]
  refine ⟨fun _ => tally_failFault hQ h.toTally _, fun _ => ?_⟩
  simp only [Wr.follows_when]
  refine ⟨fun _ => ?_, fun _ => tail⟩
  exact tally_writeItem (hQ.after _ _) h.toTally trivial tail

theorem books_sealActiveOnly (hQ : AcceptsBooks Q) (h : Books s S) (hl : s.faulted = false)
    (hp : S.pending = []) (hok : ∀ t S', Balanced t S' → Q (.ok ()) t S') :
    Wr.Follows ledger Q sealActiveOnly s S := by
  simp only [sealActiveOnly, Wr.follows_bind, Wr.follows_get, Wr.after_ok]
  cases hact : s.active with
  | none => exact hQ _ _ _ h
  | some p =>
    simp only [Wr.follows_ite, Wr.follows_fail]
    refine ⟨fun _ => hQ _ _ _ h, fun _ => ?_⟩
    simp only [Wr.follows_bind, Wr.follows_when]
    refine ⟨fun _ => ?_, fun hd => ?_⟩
    · refine tally_syncMedia (hQ.after _ _) h.toTally hp ?_
      have h2 : Balanced (synced true s) S.flushed :=
        { h.toTally.synced_true hp with
          clean := fun _ _ => rfl
          options := h.options
          contracts := h.contracts
          pending := hp, covered := rfl, live := hl, dirty := rfl }
      exact books_writeSeal hQ h2 p hok
    · have hd : s.dirty = false := by simpa using hd
      exact books_writeSeal hQ ⟨h, hp, h.clean hl hd, hl, hd⟩ p hok

theorem books_rotateInternal (hQ : AcceptsBooks Q) (h : Books s S) (hl : s.faulted = false)
    (hp : S.pending = []) (options : PartitionOptions)
    (hok : ∀ t S', Balanced t S' → Q (.ok ()) t S') :
    Wr.Follows ledger Q (rotateInternal options) s S := by
  simp only [rotateInternal, Wr.follows_bind, Wr.follows_get, Wr.after_ok]
  cases hact : s.active with
  | none => exact hQ _ _ _ h
  | some p =>
    simp only [Wr.follows_ite]
    refine ⟨fun _ => tally_failFault hQ h.toTally _, fun _ => ?_⟩
    simp only [Wr.follows_bind]
    refine books_sealActiveOnly (hQ.after _ _) h hl hp fun t S' ht => ?_
    simp only [Wr.after_ok, Wr.follows_bind]
    refine books_createPartition (hQ.after _ _) ht _ _ _ fun u S'' hu => ?_
    simp only [Wr.after_ok, Wr.follows_modify]
    exact hok _ _ { hu with }

theorem books_ensureEmptyBuilderCapacity (hQ : AcceptsBooks Q) (h : Books s S)
    (hl : s.faulted = false)
    (hok : ∀ t S', Books t S' → t.faulted = false → Q (.ok ()) t S') :
    Wr.Follows ledger Q ensureEmptyBuilderCapacity s S := by
  simp only [ensureEmptyBuilderCapacity, Wr.follows_bind, Wr.follows_get, Wr.after_ok,
    Wr.follows_ite, Wr.follows_pure]
  refine ⟨fun _ => hok _ _ h hl, fun hb => ?_⟩
  have hp : S.pending = [] := h.pending_nil (not_not.mp hb)
  cases hact : s.active with
  | none => exact hQ _ _ _ h
  | some p =>
    dsimp only
    cases worstSpan s.env with
    | none => exact tally_failFault hQ h.toTally _
    | some span =>
      simp only [Wr.follows_ite, Wr.follows_pure]
      refine ⟨fun _ => tally_failFault hQ h.toTally _, fun _ => ⟨fun _ => ?_, fun _ => hok _ _ h hl⟩⟩
      exact books_rotateInternal hQ h hl hp _ fun t S' ht => hok _ _ ht.toBooks ht.live

/-- A block written with the pending records. -/
theorem Books.publish (h : Books s S) (hl : s.faulted = false) (hne : S.pending ≠ [])
    {p : PartitionState} (hp : s.active = some p) (off : Nat) {b : BlockHeader} {payload : Bytes}
    (frameSize span : Nat) :
    Books (publishBlock s b frameSize span) (S.wrote off (.frame b payload s.builder)) := by
  have ho : S.options = some p.header.options := by
    rw [h.options hl, hp]
    rfl
  have hacc : (S.wrote off (.frame b payload s.builder)).accepted = S.accepted := by
    simp [Session.accepted, Session.wrote]
  have hdur : (S.wrote off (.frame b payload s.builder)).durable = S.durable := by
    simp only [Session.durable, Session.wrote]
    rw [List.take_append_of_le_length h.synced_le]
  have hlen : (S.wrote off (.frame b payload s.builder)).blocks.length = S.blocks.length + 1 := by
    simp [Session.wrote]
  refine
    { builder := rfl
      count := rfl
      nonempty := fun r hr => by cases hr
      synced_le := ?_
      accepted := ?_
      published := ?_
      durableRecords := ?_
      durableBlocks := h.durableBlocks
      undurable := ?_
      packed := ?_
      clean := fun _ hd => by cases hd
      options := fun _ => ?_
      contracts := fun _ r hr => by cases hr }
  · rw [hlen]
    exact Nat.le_succ_of_le h.synced_le
  · rw [hacc]
    exact h.accepted
  · rw [hlen, UInt64.ofNat_add]
    exact congrArg (· + 1) h.published
  · rw [hdur]
    exact h.durableRecords
  · rw [hdur, hacc]
    exact h.undurable
  · intro block hb
    rcases List.mem_append.mp hb with hb | hb
    · exact h.packed block hb
    · rw [List.mem_singleton.mp hb]
      refine ⟨hne, h.builder, fun r hr => ?_⟩
      refine h.contracts hl r hr _ ?_
      simp only [ho, Option.getD_some]
  · rw [publishBlock_active, hp]
    exact ho

theorem books_emitBuilder (hQ : AcceptsBooks Q) (h : Books s S) (hl : s.faulted = false)
    (hok : ∀ t S', Books t S' → t.faulted = false → S'.pending = [] → Q (.ok ()) t S') :
    Wr.Follows ledger Q emitBuilder s S := by
  simp only [emitBuilder, Wr.follows_bind, Wr.follows_get, Wr.after_ok, Wr.follows_ite,
    Wr.follows_pure]
  refine ⟨fun hb => hok _ _ h hl (h.pending_nil hb), fun hb => ?_⟩
  have hne : S.pending ≠ [] := by
    intro hnil
    rw [h.builder, hnil] at hb
    exact hb rfl
  cases hp : s.active with
  | none => exact tally_failFault hQ h.toTally _
  | some p =>
    dsimp only
    cases packBuilder s.env p.header.options s.builder with
    | error st => exact tally_failFault hQ h.toTally _
    | ok stored =>
      dsimp only
      cases alignUp (blockHeaderEncodedSize + stored.payload.length) s.env.quantum with
      | none => exact tally_failFault hQ h.toTally _
      | some span =>
        simp only [Wr.follows_ite]
        refine ⟨fun _ => tally_failFault hQ h.toTally _, fun _ =>
          ⟨fun _ => tally_failFault hQ h.toTally _, fun _ => ?_⟩⟩
        simp only [Wr.follows_bind]
        have ho : S.options = some p.header.options := by
          rw [h.options hl, hp]
          rfl
        refine tally_writeItem (hQ.after _ _) h.toTally ?_ ?_
        · exact ⟨hne, h.builder, h.count, _, ho, fun r hr => h.contracts hl r hr _ ho⟩
        · simp only [Wr.after_ok, Wr.follows_modify]
          exact hok _ _ (h.publish hl hne hp _ _ _) hl rfl

/-- A record accepted into the active partition. -/
theorem Books.accept (h : Books s S) {p : PartitionState} (hp : s.active = some p) {record : Bytes}
    (hne : record ≠ []) (time : Int64) (flags : UInt32) {expected : Option AppendContract}
    (hc : contractHolds p.header.options expected = true) :
    Books (acceptRecord s p.header.options record time flags)
      { S with pending := S.pending ++ [⟨record, time, flags, expected⟩] } := by
  generalize hr : (⟨record, time, flags, expected⟩ : AcceptedRecord) = r
  have hacc : ({ S with pending := S.pending ++ [r] } : Session).accepted = S.accepted ++ [r] := by
    simp [Session.accepted]
  have hlt : S.durable.length < (S.accepted ++ [r]).length := by
    have := S.durable_le
    rw [List.length_append, List.length_singleton]
    omega
  refine
    { builder := ?_
      count := ?_
      nonempty := ?_
      synced_le := h.synced_le
      accepted := ?_
      published := h.published
      durableRecords := h.durableRecords
      durableBlocks := h.durableBlocks
      undurable := ?_
      packed := h.packed
      clean := h.clean
      options := h.options
      contracts := ?_ }
  · show s.builder ++ record = (S.pending ++ [r]).flatMap AcceptedRecord.record
    rw [List.flatMap_append, ← h.builder, ← hr]
    simp
  · show s.builderRecords + 1 = UInt32.ofNat (S.pending ++ [r]).length
    rw [List.length_append, UInt32.ofNat_add, ← h.count]
    rfl
  · intro q hq
    rcases List.mem_append.mp hq with hq | hq
    · exact h.nonempty q hq
    · rw [List.mem_singleton.mp hq, ← hr]
      exact hne
  · rw [hacc, List.length_append, UInt64.ofNat_add, ← h.accepted]
    rfl
  · rw [hacc]
    exact (decide_eq_true hlt).symm
  · intro hf q hq o ho
    rcases List.mem_append.mp hq with hq | hq
    · exact h.contracts hf q hq o ho
    · have : S.options = some p.header.options := by
        rw [h.options hf, show s.active = some p from hp]
        rfl
      rw [show o = p.header.options from Option.some.inj (ho.symm.trans this),
        List.mem_singleton.mp hq, ← hr]
      exact hc

theorem books_guardWritable (herr : ∀ st, Q (.error st) s S)
    (hok : s.faulted = false → Q (.ok ()) s S) : Wr.Follows ledger Q guardWritable s S := by
  simp only [guardWritable, Wr.follows_bind, Wr.follows_get, Wr.after_ok, Wr.follows_ite,
    Wr.follows_fail, Wr.follows_pure]
  refine ⟨fun _ => herr _, fun _ => ⟨fun _ => herr _, fun _ => ⟨fun _ => herr _, fun hf => hok ?_⟩⟩⟩
  simpa using hf

/-- The builder is emitted first if the record does not fit behind it. -/
theorem books_makeRoom (hQ : AcceptsBooks Q) (h : Books s S) (hl : s.faulted = false) {c : Prop}
    [Decidable c] {f : Unit → Writer Unit}
    (hf : ∀ t S', Books t S' → t.faulted = false → Wr.Follows ledger Q (f ()) t S') :
    Wr.Follows ledger Q (Wr.when c emitBuilder >>= f) s S := by
  rw [Wr.follows_bind, Wr.follows_when]
  refine ⟨fun _ => ?_, fun _ => hf s S h hl⟩
  exact books_emitBuilder (hQ.after _ _) h hl fun t S' ht htl _ => hf t S' ht htl

theorem books_appendImpl (hQ : AcceptsBooks Q) (h : Books s S) (record : Bytes) (time : Int64)
    (flags : UInt32) (expected : Option AppendContract)
    (hok : ∀ t S', Books t { S' with pending := S'.pending ++ [⟨record, time, flags, expected⟩] } →
      Q (.ok ()) t S') :
    Wr.Follows ledger Q (appendImpl record time flags expected) s S := by
  rw [appendImpl, Wr.follows_bind]
  refine books_guardWritable (fun st => hQ _ _ _ h) fun hl => ?_
  simp only [Wr.after_ok]
  rw [Wr.follows_bind, Wr.follows_get, Wr.after_ok]
  simp only [Wr.follows_ite, Wr.follows_fail]
  refine ⟨fun _ => hQ _ _ _ h, fun hne => ⟨fun _ => hQ _ _ _ h, fun _ => ?_⟩⟩
  -- behind the room made for the record: reserve capacity, check the contract, accept
  refine books_makeRoom hQ h hl fun t S' ht htl => ?_
  simp only [Wr.follows_bind]
  refine books_ensureEmptyBuilderCapacity (hQ.after _ _) ht htl fun u S'' hu _ => ?_
  simp only [Wr.after_ok, Wr.follows_bind, Wr.follows_get]
  cases hp : u.active with
  | none => exact hQ _ _ _ hu
  | some p =>
    simp only [Wr.follows_ite, Wr.follows_fail, Wr.follows_set]
    refine ⟨fun _ => hQ _ _ _ hu, fun hc => hok _ _ ?_⟩
    exact hu.accept hp hne time flags (not_not.mp hc)

/-- The flush behind an emitted builder. -/
theorem books_flushDirty (hQ : AcceptsBooks Q) (h : Books s S)
    (hp : S.pending = []) (hok : ∀ t S', Books t S' → Q (.ok ()) t S') :
    Wr.Follows ledger Q (Wr.when s.dirty (syncMedia true)) s S := by
  simp only [Wr.follows_when]
  refine ⟨fun _ => ?_, fun _ => hok _ _ h⟩
  refine tally_syncMedia hQ h.toTally hp (hok _ _ ?_)
  exact { h.toTally.synced_true hp with
    clean := fun _ _ => rfl
    options := h.options
    contracts := h.contracts }

end

/-- **Every call keeps the books.** -/
theorem program_books (op : Op) {s : Store} {S : Session} (h : Books s S) :
    Wr.Follows ledger (fun r t S' => Books t (S'.returned op r)) op.program s S := by
  have hsame (t : Store) (S' : Session) (hop : op.submits = none) (ht : Books t S') :
      Books t (S'.returned op (.ok ())) := by
    simp only [Session.returned, hop, Option.toList_none, List.append_nil]
    exact ht
  have hQ : AcceptsBooks fun r t S' => Books t (S'.returned op r) := fun _ _ _ ht => ht
  cases op with
  | append record time flags =>
    exact books_appendImpl hQ h record time flags none fun t S' ht => ht
  | appendChecked record time expected flags =>
    simp only [Op.program, appendChecked, Wr.follows_ite, Wr.follows_fail]
    exact ⟨fun _ => h, fun _ =>
      books_appendImpl hQ h record time flags (some expected) fun t S' ht => ht⟩
  | publish =>
    simp only [Op.program, publish, Wr.follows_bind]
    refine books_guardWritable (fun _ => h) fun hl => ?_
    exact books_emitBuilder hQ h hl fun t S' ht _ _ => hsame t S' rfl ht
  | checkpoint =>
    simp only [Op.program, checkpoint, Wr.follows_bind]
    refine books_guardWritable (fun _ => h) fun hl => ?_
    simp only [Wr.after_ok, Wr.follows_bind]
    refine books_emitBuilder (hQ.after _ _) h hl fun t S' ht _ hp => ?_
    exact books_flushDirty hQ ht hp fun u S'' hu => hsame u S'' rfl hu
  | close =>
    have hclosed (t : Store) (S' : Session) (ht : Books t S') :
        Books { t with closed := true } (S'.returned .close (.ok ())) := hsame _ _ rfl { ht with }
    simp only [Op.program, close, Wr.follows_bind, Wr.follows_get, Wr.after_ok, Wr.follows_ite,
      Wr.follows_pure, Wr.follows_modify, Wr.follows_fail]
    refine ⟨fun _ => hsame _ _ rfl h, fun _ => ⟨fun _ => hclosed _ _ h, fun _ => ⟨fun _ => h,
      fun hf => ?_⟩⟩⟩
    have hl : s.faulted = false := by simpa using hf
    refine books_emitBuilder (hQ.after _ _) h hl fun t S' ht _ hp => ?_
    simp only [Wr.after_ok, Wr.follows_bind, Wr.follows_get]
    exact books_flushDirty (hQ.after _ _) ht hp fun u S'' hu => hclosed _ _ hu
  | rotate next =>
    simp only [Op.program, rotate, Wr.follows_bind]
    refine books_guardWritable (fun _ => h) fun hl => ?_
    simp only [Wr.after_ok, Wr.follows_bind, Wr.follows_get]
    cases s.env.validatePartitionOptions next with
    | error st => exact h
    | ok u =>
      simp only [Wr.follows_bind]
      refine books_emitBuilder (hQ.after _ _) h hl fun t S' ht htl hp => ?_
      simp only [Wr.after_ok, Wr.follows_bind, Wr.follows_modify]
      refine books_rotateInternal (s := { t with nextOptions := next }) hQ { ht with } htl hp next ?_
      exact fun u S'' hu => hsame u S'' rfl hu.toBooks
  | setNext options =>
    simp only [Op.program, setNextPartitionOptions, Wr.follows_bind]
    refine books_guardWritable (fun _ => h) fun _ => ?_
    simp only [Wr.after_ok, Wr.follows_bind, Wr.follows_get]
    cases s.env.validatePartitionOptions options with
    | error st => exact h
    | ok u => exact hsame { s with nextOptions := options } S rfl { h with }

/-- The session of a store that has just been opened. -/
def Store.session (s : Store) : Session := { options := s.active.map fun p => p.header.options }

theorem openedStore_balanced (env : Env) (m : Image) (o : OpenOptions) (id : UInt64 × UInt64) :
    Balanced (openedStore env m o id) (openedStore env m o id).session where
  builder := rfl
  count := rfl
  nonempty := fun r hr => by cases hr
  synced_le := Nat.le_refl _
  accepted := rfl
  published := rfl
  durableRecords := rfl
  durableBlocks := rfl
  undurable := rfl
  packed := fun block hb => by cases hb
  clean := fun _ _ => rfl
  options := fun _ => rfl
  contracts := fun _ r hr => by cases hr
  pending := rfl
  covered := rfl
  live := rfl
  dirty := rfl

/-- The writing part of `open` keeps the books. -/
theorem startWriter_books {s : Store} {S : Session} (h : Balanced s S) :
    Wr.Follows ledger (fun _ t S' => Books t S') startWriter s S := by
  have hQ : AcceptsBooks fun (_ : Except Status Unit) t S' => Books t S' := fun _ _ _ ht => ht
  have hcreate (slot : UInt32) (generation : UInt64) :
      Wr.Follows ledger (fun _ t S' => Books t S')
        (createPartition slot generation s.nextOptions) s S :=
    books_createPartition hQ h _ _ _ fun t S' ht => ht.toBooks
  simp only [startWriter, Wr.follows_bind, Wr.follows_get, Wr.after_ok, Wr.follows_ite,
    Wr.follows_fail]
  refine ⟨fun _ => h.toBooks, fun _ => ?_⟩
  cases s.partitions.getLast? with
  | none => exact hcreate 0 1
  | some newest =>
    simp only [Wr.follows_ite, Wr.follows_fail, Wr.follows_pure]
    exact ⟨fun _ => ⟨fun _ => h.toBooks, fun _ => hcreate _ _⟩, fun _ => h.toBooks⟩

/-! ## The run of one store -/

section
variable (env : Env)

/-- The effect of a storage operation and what the observer makes of it. -/
inductive Observed {α : Type} (d : Disk Item) (S : Session) :
    WriteProg Status Item α → Disk Item → WriteProg Status Item α → Session → Prop
  | write (off : Nat) (i : Item) (k : Except Status Unit → WriteProg Status Item α) :
      Observed d S (.write off i k) (d.issue off i (i.bytes env).length) (k (.ok ())) (S.wrote off i)
  | writeFails (off : Nat) (i : Item) (k : Except Status Unit → WriteProg Status Item α)
      (n : Nat) (st : Status) : Observed d S (.write off i k) (d.issue off i n) (k (.error st)) S
  | flush (k : Except Status Unit → WriteProg Status Item α) :
      Observed d S (.flush k) (d.flush (Item.bytes env)) (k (.ok ())) S.flushed
  | flushFails (k : Except Status Unit → WriteProg Status Item α) (st : Status) :
      Observed d S (.flush k) d (k (.error st)) S

/-- A step of a store object, with its session. -/
inductive Observe : Sys × Session → Sys × Session → Prop
  | openEffect (x : Sys) (S : Session) {k k' d' S'} (hp : x.proc = .opening k)
      (h : Observed env x.disk S k d' k' S') :
      Observe (x, S) ({ x with disk := d', proc := .opening k' }, S')
  | opened (x : Sys) (S : Session) {s : Store} (hp : x.proc = .opening (.done (.ok (), s))) :
      Observe (x, S) ({ x with proc := .idle s none }, S)
  | call (x : Sys) (S : Session) {s : Store} {last} (op : Op) (hp : x.proc = .idle s last) :
      Observe (x, S) ({ x with proc := .busy op (op.program s) }, S)
  | effect (x : Sys) (S : Session) {op k k' d' S'} (hp : x.proc = .busy op k)
      (h : Observed env x.disk S k d' k' S') :
      Observe (x, S) ({ x with disk := d', proc := .busy op k' }, S')
  | returned (x : Sys) (S : Session) {op r} {s : Store} (hp : x.proc = .busy op (.done (r, s))) :
      Observe (x, S) ({ x with proc := .idle s (some (op, r)) }, S.returned op r)

/-- A store object from a writable open on: on any image, with any storage errors.  The random
source never returns the zero ID. -/
inductive Tracked : Sys → Session → Prop
  | opening (x : Sys) {s : Store} {o : OpenOptions} {random : Except Status (UInt64 × UInt64)}
      (hw : o.writable = true) (hrandom : random ≠ .ok (0, 0)) (he : s.env = env)
      (hrec : Rd.run (imageSource (x.disk.volatile (Item.bytes env)))
        (recover (x.disk.volatile (Item.bytes env)).size o random) = .ok s)
      (hp : x.proc = .opening (startWriter s)) : Tracked x s.session
  | step {x y : Sys} {S S' : Session} (hx : Tracked x S) (h : Observe env (x, S) (y, S')) :
      Tracked y S'

end

section
variable {env : Env}

/-- The process will keep the books. -/
def KeepsBooks (S : Session) : Proc → Prop
  | .opening k => k.Follows ledger (fun r S' => Books r.2 S') S
  | .busy op k => k.Follows ledger (fun r S' => Books r.2 (S'.returned op r.1)) S
  | .idle s _ => Books s S
  | _ => False

/-- The blocks of the session are on the disk: all written as a whole, the covered ones flushed. -/
structure Session.OnDisk (env : Env) (S : Session) (d : Disk Item) : Prop where
  live : ∀ block ∈ S.blocks, d.Live (Item.bytes env) (block.off, block.item)
  flushed : ∀ block ∈ S.blocks.take S.synced, (block.off, block.item) ∈ d.flushed
  synced_le : S.synced ≤ S.blocks.length

theorem Session.OnDisk.wrote {S : Session} {d : Disk Item} (h : S.OnDisk env d) (off : Nat)
    (i : Item) : (S.wrote off i).OnDisk env (d.issue off i (i.bytes env).length) := by
  have hlive : ∀ w, d.Live (Item.bytes env) w →
      (d.issue off i (i.bytes env).length).Live (Item.bytes env) w :=
    fun w hw => (Disk.live_issue _).mpr (Or.inl hw)
  cases i with
  | frame b payload raw =>
    refine ⟨fun block hb => ?_, fun block hb => ?_, ?_⟩
    · rcases List.mem_append.mp hb with hb | hb
      · exact hlive _ (h.live block hb)
      · rw [List.mem_singleton.mp hb]
        exact (Disk.live_issue _).mpr (Or.inr ⟨Nat.le_refl _, rfl⟩)
    · simp only [Session.wrote] at hb
      rw [List.take_append_of_le_length h.synced_le] at hb
      exact h.flushed block hb
    · simp only [Session.wrote, List.length_append]
      exact Nat.le_trans h.synced_le (Nat.le_add_right ..)
  | header hd => exact ⟨fun block hb => hlive _ (h.live block hb), h.flushed, h.synced_le⟩
  | volume v => exact ⟨fun block hb => hlive _ (h.live block hb), h.flushed, h.synced_le⟩
  | index es => exact ⟨fun block hb => hlive _ (h.live block hb), h.flushed, h.synced_le⟩
  | footer f es => exact ⟨fun block hb => hlive _ (h.live block hb), h.flushed, h.synced_le⟩

theorem Session.OnDisk.flush {S : Session} {d : Disk Item} (h : S.OnDisk env d) :
    S.flushed.OnDisk env (d.flush (Item.bytes env)) := by
  refine ⟨fun block hb => (Disk.live_flush _).mpr (h.live block hb), fun block hb => ?_,
    Nat.le_refl _⟩
  exact (Disk.flushed_flush _).mpr (h.live block (List.mem_of_mem_take hb))

/-- Blocks are only added and flushes only counted. -/
structure Session.Extends (S S' : Session) : Prop where
  accepted : S.accepted <+: S'.accepted
  blocks : S.blocks <+: S'.blocks
  synced : S.synced ≤ S'.synced
  flushes : S.flushes ≤ S'.flushes
  unflushed : S.flushes = S'.flushes → S.synced = S'.synced

theorem Session.Extends.refl (S : Session) : S.Extends S :=
  ⟨List.prefix_rfl, List.prefix_rfl, Nat.le_refl _, Nat.le_refl _, fun _ => rfl⟩

theorem Session.Extends.trans {S T U : Session} (h : S.Extends T) (h' : T.Extends U) :
    S.Extends U where
  accepted := h.accepted.trans h'.accepted
  blocks := h.blocks.trans h'.blocks
  synced := Nat.le_trans h.synced h'.synced
  flushes := Nat.le_trans h.flushes h'.flushes
  unflushed := by
    intro he
    have h1 := h.flushes
    have h2 := h'.flushes
    exact (h.unflushed (by omega)).trans (h'.unflushed (by omega))

theorem Session.extends_wrote (S : Session) (off : Nat) (i : Item) : S.Extends (S.wrote off i) := by
  cases i with
  | frame b payload raw =>
    refine ⟨?_, List.prefix_append .., Nat.le_refl _, Nat.le_refl _, fun _ => rfl⟩
    simp [Session.accepted, Session.wrote]
  | header hd => exact ⟨List.prefix_rfl, List.prefix_rfl, Nat.le_refl _, Nat.le_refl _, fun _ => rfl⟩
  | volume v => exact .refl S
  | index es => exact .refl S
  | footer f es => exact .refl S

theorem Session.extends_returned (S : Session) (op : Op) (r : Except Status Unit) :
    S.Extends (S.returned op r) := by
  cases r with
  | error st => exact .refl S
  | ok u =>
    refine ⟨?_, List.prefix_rfl, Nat.le_refl _, Nat.le_refl _, fun _ => rfl⟩
    simp [Session.accepted, Session.returned]

/-- One storage operation keeps the books, the blocks on the disk and the order of sessions. -/
theorem Observed.keeps {α : Type} {Q : α → Session → Prop} {d d' : Disk Item} {S S' : Session}
    {k k' : WriteProg Status Item α} (h : Observed env d S k d' k' S') (hk : k.Follows ledger Q S)
    (hd : S.OnDisk env d) : k'.Follows ledger Q S' ∧ S'.OnDisk env d' ∧ S.Extends S' := by
  cases h with
  | write off i k =>
    obtain ⟨⟨S', ⟨-, rfl⟩, hk⟩, -⟩ := hk
    exact ⟨hk, hd.wrote off i, S.extends_wrote off i⟩
  | writeFails off i k n st =>
    exact ⟨hk.2 st, ⟨fun block hb => (Disk.live_issue _).mpr (Or.inl (hd.live block hb)), hd.flushed,
      hd.synced_le⟩, .refl S⟩
  | flush k =>
    obtain ⟨⟨S', ⟨-, rfl⟩, hk⟩, -⟩ := hk
    refine ⟨hk, hd.flush, List.prefix_rfl, List.prefix_rfl, hd.synced_le, Nat.le_succ _, ?_⟩
    intro he
    simp only [Session.flushed] at he
    omega
  | flushFails k st => exact ⟨hk.2 st, hd, .refl S⟩

/-- One step of a store keeps the books, the blocks on the disk and the order of sessions. -/
theorem Observe.keeps {x y : Sys} {S S' : Session} (h : Observe env (x, S) (y, S'))
    (hk : KeepsBooks S x.proc) (hd : S.OnDisk env x.disk) :
    KeepsBooks S' y.proc ∧ S'.OnDisk env y.disk ∧ S.Extends S' := by
  cases h with
  | openEffect _ _ hp h =>
    rw [hp] at hk
    exact h.keeps hk hd
  | opened _ _ hp =>
    rw [hp] at hk
    exact ⟨hk, hd, .refl S⟩
  | call _ _ op hp =>
    rw [hp] at hk
    exact ⟨program_books op hk, hd, .refl S⟩
  | effect _ _ hp h =>
    rw [hp] at hk
    exact h.keeps hk hd
  | @returned _ _ op r s hp =>
    rw [hp] at hk
    refine ⟨hk, ?_, S.extends_returned op r⟩
    cases r with
    | error st => exact hd
    | ok u => exact ⟨hd.live, hd.flushed, hd.synced_le⟩

/-- In every state of a store its books are in order and its blocks are on the disk. -/
theorem Tracked.keeps {x : Sys} {S : Session} (h : Tracked env x S) :
    KeepsBooks S x.proc ∧ S.OnDisk env x.disk := by
  induction h with
  | opening x hw hrandom he hrec hp =>
    obtain ⟨-, -, -, ⟨id, -, hs⟩, -⟩ := recover_inv hrec
    refine ⟨?_, fun block hb => (by cases hb), fun block hb => (by cases hb), Nat.le_refl _⟩
    rw [hp, hs]
    exact startWriter_books (openedStore_balanced ..)
  | step hx h ih =>
    obtain ⟨h1, h2, -⟩ := h.keeps ih.1 ih.2
    exact ⟨h1, h2⟩

/-- The later states of a store. -/
abbrev Later (env : Env) : Sys × Session → Sys × Session → Prop :=
  Relation.ReflTransGen (Observe env)

theorem Later.tracked {x y : Sys} {S S' : Session} (hx : Tracked env x S)
    (h : Later env (x, S) (y, S')) : Tracked env y S' ∧ S.Extends S' := by
  generalize hb : (y, S') = b at h
  induction h generalizing y S' with
  | refl =>
    cases hb
    exact ⟨hx, .refl S⟩
  | @tail c b _ hstep ih =>
    obtain ⟨z, T⟩ := c
    subst hb
    obtain ⟨hz, hext⟩ := ih rfl
    obtain ⟨hk, hd⟩ := hz.keeps
    exact ⟨.step hz hstep, hext.trans (hstep.keeps hk hd).2.2⟩

/-- An effect has an observation. -/
theorem Effect.observed {α : Type} {d d' : Disk Item} {k k' : WriteProg Status Item α}
    (h : Effect env d k d' k') (S : Session) : ∃ S', Observed env d S k d' k' S' := by
  cases h with
  | write off i k => exact ⟨_, .write off i k⟩
  | writeFails off i k n st => exact ⟨_, .writeFails off i k n st⟩
  | flush k => exact ⟨_, .flush k⟩
  | flushFails k st => exact ⟨_, .flushFails k st⟩

/-- A store object exists. -/
def Proc.hasStore : Proc → Prop
  | .opening _ | .busy .. | .idle .. => True
  | _ => False

/-- The store of every reachable state of the system has a session. -/
theorem reach_tracked {cut : Disk Item → Image → Prop} {assumed : Disk Item → Prop}
    (hcut : ∀ d m, cut d m → d.MixCut (Item.bytes env) m)
    (hassumed : ∀ d, assumed d → CollisionFreeNow env d) {x : Sys} (h : Reach env cut assumed x) :
    x.proc.hasStore → ∃ S, Tracked env x S := by
  induction h with
  | @init x h =>
    rw [h.proc]
    exact False.elim
  | @step x y hx hstep ih =>
    intro hs
    cases hstep with
    | formatEffect hp he => exact hs.elim
    | formatted r hp => exact hs.elim
    | @startOpen s o id hp had hw hfresh hid hrec hwid =>
      obtain ⟨φ, hpr, -⟩ := reach_simulated hcut hassumed hx
      obtain ⟨⟨wid, -, hopened⟩, -⟩ := recover_ok (o := { o with codecs := env.codecs }) hpr.geometry
        (hpr.seen_size hcut) (fun v hv => readVolumeHeader_eq hpr.volumes (hassumed _ had) hv) rfl hrec
      have hid' : (Except.ok id : Except Status (UInt64 × UInt64)) ≠ .ok (0, 0) :=
        fun h => hid (Except.ok.inj h)
      exact ⟨_, .opening _ (o := { o with codecs := env.codecs }) hw hid' (by rw [hopened]; rfl) hrec
        rfl⟩
    | openEffect hp he =>
      obtain ⟨S, hS⟩ := ih (by rw [hp]; trivial)
      obtain ⟨S', hS'⟩ := he.observed S
      exact ⟨S', .step hS (.openEffect x S hp hS')⟩
    | opened s hp =>
      obtain ⟨S, hS⟩ := ih (by rw [hp]; trivial)
      exact ⟨S, .step hS (.opened x S hp)⟩
    | openFailed st s hp => exact hs.elim
    | call op hp =>
      obtain ⟨S, hS⟩ := ih (by rw [hp]; trivial)
      exact ⟨S, .step hS (.call x S op hp)⟩
    | effect hp he =>
      obtain ⟨S, hS⟩ := ih (by rw [hp]; trivial)
      obtain ⟨S', hS'⟩ := he.observed S
      exact ⟨S', .step hS (.effect x S hp hS')⟩
    | returned hp =>
      obtain ⟨S, hS⟩ := ih (by rw [hp]; trivial)
      exact ⟨_, .step hS (.returned x S hp)⟩
    | restart => exact hs.elim
    | powerCut m h => exact hs.elim

/-- What the durability metrics of a store say is true of its session and its disk.  The counters
are the numbers of the session modulo `2 ^ 64`. -/
structure Truthful (s : Store) (S : Session) (d : Disk Item) : Prop where
  acceptedRecords : s.metrics.acceptedRecords = UInt64.ofNat S.accepted.length
  publishedBlocks : s.metrics.publishedBlocks = UInt64.ofNat S.blocks.length
  durableRecords : s.metrics.durableRecords = UInt64.ofNat S.durable.length
  durableBlocks : s.metrics.durableBlocks = UInt64.ofNat S.synced
  /-- The first durable records lie in blocks that were written as a whole before a flush. -/
  covered : ∀ r ∈ S.accepted.take S.durable.length, ∃ block ∈ S.blocks, r ∈ block.records ∧
    block.raw = block.records.flatMap AcceptedRecord.record ∧ (block.off, block.item) ∈ d.flushed
  records_le : S.durable.length ≤ S.accepted.length
  blocks_le : S.synced ≤ S.blocks.length
  undurable : s.haveUndurableRecords = true ↔ S.durable.length < S.accepted.length
  /-- The same of the counters, as long as they have not wrapped. -/
  counters : S.accepted.length < 2 ^ 64 →
    s.metrics.durableRecords ≤ s.metrics.acceptedRecords ∧
    s.metrics.durableBlocks ≤ s.metrics.publishedBlocks ∧
    (s.haveUndurableRecords = true ↔ s.metrics.durableRecords < s.metrics.acceptedRecords)

theorem Tally.blocks_le_accepted {s : Store} {S : Session} (h : Tally s S) :
    S.blocks.length ≤ S.accepted.length := by
  have hle (blocks : List PublishedBlock) (hb : ∀ block ∈ blocks, block.records ≠ []) :
      blocks.length ≤ (blocks.flatMap PublishedBlock.records).length := by
    induction blocks with
    | nil => exact Nat.le_refl _
    | cons block rest ih =>
      have h1 := List.length_pos_of_ne_nil (hb block (List.mem_cons_self ..))
      have h2 := ih fun b hb' => hb b (List.mem_cons_of_mem _ hb')
      rw [List.flatMap_cons, List.length_append, List.length_cons]
      omega
  have h1 := hle S.blocks fun block hb => (h.packed block hb).1
  rw [Session.accepted, List.length_append]
  omega

theorem Tally.truthful {s : Store} {S : Session} {d : Disk Item} (h : Tally s S)
    (hd : S.OnDisk env d) : Truthful s S d := by
  have hund : s.haveUndurableRecords = true ↔ S.durable.length < S.accepted.length := by
    rw [h.undurable]
    exact decide_eq_true_iff
  refine ⟨h.accepted, h.published, h.durableRecords, h.durableBlocks, ?_, S.durable_le, h.synced_le,
    hund, fun hlt => ?_⟩
  · intro r hr
    rw [List.prefix_iff_eq_take.mp S.durable_accepted |>.symm] at hr
    obtain ⟨block, hb, hrb⟩ := List.mem_flatMap.mp hr
    have hmem := List.mem_of_mem_take hb
    exact ⟨block, hmem, hrb, (h.packed block hmem).2.1, hd.flushed block hb⟩
  · have h1 := S.durable_le
    have h2 := h.synced_le
    have h3 := h.blocks_le_accepted
    rw [hund, h.accepted, h.published, h.durableRecords, h.durableBlocks, UInt64.le_iff_toNat_le,
      UInt64.le_iff_toNat_le, UInt64.lt_iff_toNat_lt]
    rw [UInt64.toNat_ofNat_of_lt' hlt, UInt64.toNat_ofNat_of_lt' (Nat.lt_of_le_of_lt h1 hlt),
      UInt64.toNat_ofNat_of_lt' (Nat.lt_of_le_of_lt h3 hlt),
      UInt64.toNat_ofNat_of_lt' (Nat.lt_of_le_of_lt (Nat.le_trans h2 h3) hlt)]
    exact ⟨h1, h2, Iff.rfl⟩

/-- **Durability accounting is truthful.**  In every state of a store between two calls, after any
schedule of write and flush failures, its metrics tell the truth; a later state has at least the
durable records and blocks of an earlier one, and the same ones if no flush succeeded between. -/
theorem durability_accounting {x : Sys} {S : Session} {s : Store}
    {last : Option (Op × Except Status Unit)} (hx : Tracked env x S) (hp : x.proc = .idle s last) :
    Truthful s S x.disk ∧
      ∀ y S' t last', Later env (x, S) (y, S') → y.proc = .idle t last' →
        S.durable <+: S'.durable ∧ S.synced ≤ S'.synced ∧
          (S.flushes = S'.flushes → t.metrics.durableRecords = s.metrics.durableRecords ∧
            t.metrics.durableBlocks = s.metrics.durableBlocks) := by
  obtain ⟨hk, hd⟩ := hx.keeps
  rw [hp] at hk
  have hb : Books s S := hk
  refine ⟨hb.toTally.truthful hd, fun y S' t last' hl hpy => ?_⟩
  obtain ⟨hy, hext⟩ := Later.tracked hx hl
  obtain ⟨hky, -⟩ := hy.keeps
  rw [hpy] at hky
  have hby : Books t S' := hky
  refine ⟨Session.durable_grows hext.blocks hext.synced hb.synced_le, hext.synced, fun he => ?_⟩
  have hs := hext.unflushed he
  have hdur : S'.durable = S.durable := by
    obtain ⟨rest, hrest⟩ := hext.blocks
    unfold Session.durable
    rw [← hs, ← hrest, List.take_append_of_le_length hb.synced_le]
  constructor
  · rw [hby.durableRecords, hb.durableRecords, hdur]
  · rw [hby.durableBlocks, hb.durableBlocks, hs]

end

/-! ## The sessions of the sample volume -/

/-- The session after a program without failures. -/
def Session.run {α : Type} : WriteProg Status Item α → Session → Session
  | .done _, S => S
  | .write off i k, S => Session.run (k (.ok ())) (S.wrote off i)
  | .flush k, S => Session.run (k (.ok ())) S.flushed

/-- A program that the process `mk` runs ends, without a failure, in what `exec` computes. -/
theorem Tracked.exec {env : Env} {α : Type} {mk : WriteProg Status Item α → Proc}
    (hstep : ∀ {x : Sys} {S k k' d' S'}, x.proc = mk k → Observed env x.disk S k d' k' S' →
      Observe env (x, S) ({ x with disk := d', proc := mk k' }, S'))
    (k : WriteProg Status Item α) {d : Disk Item} {writers : List (UInt64 × UInt64)} {S : Session}
    (hx : Tracked env ⟨d, writers, mk k⟩ S) :
    Tracked env ⟨(k.exec (Item.bytes env) d).2, writers, mk (.done (k.exec (Item.bytes env) d).1)⟩
      (S.run k) := by
  induction k generalizing d S with
  | done r => exact hx
  | write off i k ih => exact ih _ (hx.step (hstep rfl (.write off i k)))
  | flush k ih => exact ih _ (hx.step (hstep rfl (.flush k)))

/-- A call without a failure. -/
theorem Tracked.call {env : Env} {d d' : Disk Item} {writers : List (UInt64 × UInt64)} {s t : Store}
    {S : Session} {last : Option (Op × Except Status Unit)} {r : Except Status Unit} (op : Op)
    (hx : Tracked env ⟨d, writers, .idle s last⟩ S)
    (hrun : (op.program s).exec (Item.bytes env) d = ((r, t), d')) :
    Tracked env ⟨d', writers, .idle t (some (op, r))⟩ ((S.run (op.program s)).returned op r) := by
  have h1 := Tracked.exec (fun hp h => .effect _ _ hp h) _ (hx.step (.call _ S op rfl))
  rw [hrun] at h1
  exact h1.step (.returned _ _ rfl)

namespace Sample

def firstRecord : AcceptedRecord := ⟨record, 0, 0, none⟩

def firstBlock : PublishedBlock :=
  ⟨12288, block 0 (0, 0) (3, 4), record, record, {}, [firstRecord]⟩

def openedSession : Session := { options := some {}, flushes := 1 }

def syncedSession : Session :=
  { options := some {}, blocks := [firstBlock], synced := 1, flushes := 2 }

def bufferedSession : Session := { syncedSession with pending := [firstRecord] }

def followedSession : Session := { syncedSession with
  blocks := [firstBlock, ⟨12544, block 1 (3, 4) (3, 4), record, record, {}, [firstRecord]⟩] }

theorem tracked_opened : Tracked env ⟨created, [(3, 4)], .idle opened none⟩ openedSession := by
  have h : Rd.run (imageSource (formatted.volatile (Item.bytes env)))
      (recover (formatted.volatile (Item.bytes env)).size openOptions (.ok (3, 4))) = .ok recovered := by
    rw [← recovered_eq]
    exact formatted_blank.recover geometry rfl rfl rfl
  have hopen : Tracked env ⟨formatted, [(3, 4)], .opening (startWriter recovered)⟩
      recovered.session := by
    refine Tracked.opening _ (o := openOptions) rfl ?_ rfl h rfl
    exact fun h => absurd (Except.ok.inj h) (by decide)
  have h1 := Tracked.exec (fun hp h => .openEffect _ _ hp h) _ hopen
  have hS : Session.run (startWriter recovered) recovered.session = openedSession := rfl
  rw [exec_open, hS] at h1
  exact h1.step (.opened _ _ rfl)

theorem tracked_synced :
    Tracked env ⟨flushedDisk, [(3, 4)], .idle synced (some (.checkpoint, .ok ()))⟩ syncedSession :=
  ((tracked_opened.call _ exec_append).call _ exec_publish).call _ exec_checkpoint

theorem tracked_buffered : Tracked env
    ⟨flushedDisk, [(3, 4)], .idle buffered (some (.append record 0 0, .ok ()))⟩ bufferedSession :=
  tracked_synced.call _ exec_buffer

theorem tracked_followed : Tracked env
    ⟨followedDisk, [(3, 4)], .idle followed (some (.publish, .ok ()))⟩ followedSession :=
  tracked_buffered.call _ exec_follow

end Sample

/-- The record in front of the flush is durable, the published one behind it is not yet, and the
store says so. -/
theorem sample_durability :
    Truthful Sample.followed Sample.followedSession Sample.followedDisk ∧
      Sample.followedSession.durable = [Sample.firstRecord] ∧
      Sample.followedSession.accepted = [Sample.firstRecord, Sample.firstRecord] :=
  ⟨(durability_accounting Sample.tracked_followed rfl).1, rfl, rfl⟩

end TFDB

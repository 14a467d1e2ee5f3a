import TFDB.Lib.Guard
import TFDB.Log

/-!
# Faults

A mutating call of an open, writable store ends in one of four ways: it succeeds; it refuses an
argument and the store stays as usable as before; a storage operation fails and the call returns
that error at once; or the call itself finds a reason to stop.  The last two latch the error.

* `Live` — the invariant of a store between two calls;
* `Reserved` — its capacity: the partition has room for the longest block as long as records are
  buffered, and for its index at any time;
* `Cause` — the errors a call can latch without a storage error;
* `stops_program` — one spec for every call.
-/

set_option autoImplicit false

namespace TFDB

open ByteLib Writer

/-! ## Stores -/

/-- Open for writing. -/
structure Up (s : Store) : Prop where
  writable : s.writable = true
  opened : s.closed = false

/-- The store holds this fault. -/
structure Latched (st : Status) (s : Store) : Prop where
  up : Up s
  faulted : s.faulted = true
  status : s.faultStatus = st

/-- The blocks of a partition leave the index and the footer their place. -/
structure Fits (env : Env) (p : PartitionState) : Prop where
  dataEnd : p.dataEnd ≤ env.indexBegin
  count : p.activeIndex.length ≤ env.indexRegionSize / indexEntryEncodedSize
  empty : p.activeIndex = [] → p.dataEnd = partitionHeaderRegionSize

/-- A partition with room for the longest block. -/
structure Roomy (env : Env) (p : PartitionState) : Prop where
  data : ∃ span, worstSpan env = some span ∧ p.dataEnd + span ≤ env.indexBegin
  count : p.activeIndex.length + 1 ≤ env.indexRegionSize / indexEntryEncodedSize

/-- A store between two calls that accepts records. -/
structure Live (env : Env) (s : Store) : Prop where
  ok : StoreOk env s
  up : Up s
  sound : s.faulted = false

/-- The active partition has the capacity that the accepted records need. -/
structure Reserved (env : Env) (s : Store) : Prop where
  fits : ∀ p, s.active = some p → Fits env p
  room : s.builder ≠ [] → ∀ p, s.active = some p → Roomy env p

def tooLarge : Status := ⟨.outOfRange, "encoded block too large"⟩

def exhausted : Status := ⟨.generationExhausted, "partition generation exhausted"⟩

/-- The active partition carries the last generation. -/
def AtEnd (s : Store) : Prop :=
  ∃ p, s.active = some p ∧ p.header.generation = 0xffffffffffffffff

/-- What a call can latch although every storage operation succeeds. -/
inductive Cause (env : Env) (s : Store) : Status → Prop
  /-- The codec of the active partition does not store the builder. -/
  | codec {p : PartitionState} {st : Status} (hp : s.active = some p)
      (h : packBuilder env p.header.options s.builder = .error st) : Cause env s st
  | tooLarge (h : ¬ env.SpanFits) : Cause env s tooLarge
  | exhausted (h : AtEnd s) : Cause env s exhausted
  /-- One of the capacity checks fails. -/
  | capacity {st : Status} (h : ¬ Reserved env s) : Cause env s st

/-- What `emit_builder` can latch. -/
inductive EmitCause (env : Env) (s : Store) : Status → Prop
  | codec {p : PartitionState} {st : Status} (hp : s.active = some p)
      (h : packBuilder env p.header.options s.builder = .error st) : EmitCause env s st
  | tooLarge (h : ¬ env.SpanFits) : EmitCause env s tooLarge
  | capacity {st : Status} (h : ¬ Reserved env s) : EmitCause env s st

theorem EmitCause.cause {env : Env} {s : Store} {st : Status} (h : EmitCause env s st) :
    Cause env s st := by
  cases h with
  | codec hp h => exact .codec hp h
  | tooLarge h => exact .tooLarge h
  | capacity h => exact .capacity h

/-- What a rotation can latch. -/
inductive RotationCause (env : Env) (s : Store) : Status → Prop
  | exhausted (h : AtEnd s) : RotationCause env s exhausted
  | capacity {st : Status} (h : ¬ Reserved env s) : RotationCause env s st

/-! ## Effects -/

section
variable {Q : Except Status Unit → Store → Prop} {s : Store}

theorem stops_failFault (h : Up s) {st : Status} (hQ : ∀ t, Latched st t → Q (.error st) t) :
    Wr.Stops Latched Q (failFault st) s := by
  simp only [failFault, Wr.stops_modify_bind, Wr.stops_fail]
  exact hQ _ ⟨⟨h.writable, h.opened⟩, rfl, rfl⟩

theorem stops_writeItem (h : Up s) {off : Nat} {i : Item} (hQ : Q (.ok ()) s) :
    Wr.Stops Latched Q (writeItem off i) s :=
  ⟨fun _ => ⟨_, rfl, rfl, ⟨h.writable, h.opened⟩, rfl, rfl⟩, hQ⟩

theorem stops_syncMedia (h : Up s) {advances : Bool} (hQ : Q (.ok ()) (synced advances s)) :
    Wr.Stops Latched Q (syncMedia advances) s :=
  ⟨fun _ => ⟨_, rfl, rfl, ⟨h.writable, h.opened⟩, rfl, rfl⟩, hQ⟩

end

/-! ## Partitions -/

theorem Geometry.worstSpan {env : Env} (g : Geometry env) :
    ∃ span, worstSpan env = some span ∧ partitionHeaderRegionSize + span ≤ env.indexBegin := by
  obtain ⟨span, hspan, hle⟩ := g.span
  have hadd := g.indexBegin_add
  have hroom := g.room
  exact ⟨span, hspan, by omega⟩

theorem Geometry.fits_new {env : Env} (g : Geometry env) (h : PartitionHeader) :
    Fits env { header := h } := by
  obtain ⟨span, -, hle⟩ := g.worstSpan
  refine ⟨?_, Nat.zero_le _, fun _ => rfl⟩
  show partitionHeaderRegionSize ≤ env.indexBegin
  omega

/-- A new partition has room for the longest block. -/
theorem Geometry.roomy_new {env : Env} (g : Geometry env) (h : PartitionHeader) :
    Roomy env { header := h } where
  data := g.worstSpan
  count := (Nat.one_le_div_iff (by decide)).mpr g.index_min

/-- The index of a partition in order fits its region. -/
theorem Fits.index {env : Env} {p : PartitionState} (h : Fits env p) :
    (encodeIndex p.activeIndex).length ≤ env.indexRegionSize := by
  have hcount := (Nat.le_div_iff_mul_le (by decide)).mp h.count
  rw [encodeIndex_length]
  exact hcount

section
variable {env : Env} {Q : Except Status Unit → Store → Prop} {s : Store}

/-- What a seal leaves unchanged: the rest of the store. -/
theorem stops_sealActiveOnly (he : s.env = env) (hup : Up s) {p : PartitionState}
    (hp : s.active = some p) (hs : p.isSealed = false)
    (hok : ∀ t : Store, t = s ∨ t = synced true s →
      Q (.ok ()) (markSealed (sealFooter env p) (synced false t)))
    (herr : ∀ st t, Latched st t → ¬ Reserved env s → Q (.error st) t) :
    Wr.Stops Latched Q sealActiveOnly s := by
  subst he
  -- behind the first flush
  have tail (t : Store) (ht : t = s ∨ t = synced true s) : Wr.Stops Latched Q (writeSeal p) t := by
    have hupt : Up t := by
      rcases ht with rfl | rfl
      · exact hup
      · exact ⟨hup.writable, hup.opened⟩
    have hte : t.env = s.env := by
      rcases ht with rfl | rfl
      · rfl
      · rfl
    simp only [writeSeal, Wr.stops_get_bind, Wr.stops_ite, hte]
    refine ⟨fun hbig => stops_failFault hupt fun u hu => herr _ u hu fun hres => ?_, fun _ => ?_⟩
    · exact absurd (hres.fits p hp).index (Nat.not_le.mpr hbig)
    have hrest : Wr.Stops Latched Q (do
        writeItem (s.env.partitionBase p.header.slot + s.env.footerOffset)
          (.footer (sealFooter s.env p) p.activeIndex)
        syncMedia false
        Wr.modify (markSealed (sealFooter s.env p))) t :=
      Wr.stops_bind (stops_writeItem hupt (Wr.stops_bind (stops_syncMedia hupt (hok t ht))))
    refine Wr.stops_bind (Wr.stops_when.mpr ⟨fun _ => ?_, fun _ => hrest⟩)
    exact stops_writeItem hupt hrest
  simp only [sealActiveOnly, Wr.stops_get_bind, hp, hs]
  refine Wr.stops_bind (Wr.stops_when.mpr ⟨fun _ => ?_, fun _ => tail s (Or.inl rfl)⟩)
  exact stops_syncMedia hup (tail _ (Or.inr rfl))

theorem stops_createPartition (he : s.env = env) (hup : Up s) {slot : UInt32} {generation : UInt64}
    {options : PartitionOptions} (hg : generation ≠ 0)
    (ho : env.validatePartitionOptions options = .ok ())
    (hok : ∀ changed, Q (.ok ())
      (installPartition (synced false s) (newHeader env slot generation options) changed)) :
    Wr.Stops Latched Q (createPartition slot generation options) s := by
  subst he
  simp only [createPartition, if_neg hg, Wr.stops_get_bind, ho]
  exact Wr.stops_bind (stops_writeItem hup (Wr.stops_bind (stops_syncMedia hup (hok _))))

theorem stops_rotateInternal (g : Geometry env) (hl : Live env s) (hb : s.builder = [])
    {options : PartitionOptions} (ho : env.validatePartitionOptions options = .ok ())
    (hok : ∀ t h, Live env t → t.builder = [] → t.active = some { header := h } →
      Reserved env t → Q (.ok ()) t)
    (herr : ∀ st t, Latched st t → RotationCause env s st → Q (.error st) t) :
    Wr.Stops Latched Q (rotateInternal options) s := by
  obtain ⟨p, hp, hns⟩ := hl.ok.active
  have he := hl.ok.env_eq
  simp only [rotateInternal, Wr.stops_get_bind, hp, Wr.stops_ite]
  refine ⟨fun hmax => stops_failFault hl.up fun t ht =>
    herr _ t ht (.exhausted ⟨p, hp, hmax⟩), fun hg => ?_⟩
  refine Wr.stops_bind (stops_sealActiveOnly he hl.up hp hns (fun t ht => ?_) fun st t ht hres =>
    herr st t ht (.capacity hres))
  have hg0 : p.header.generation + 1 ≠ 0 := by
    intro h0
    apply hg
    have : p.header.generation = p.header.generation + 1 - 1 := by simp
    rw [this, h0]
    rfl
  have hst : s.Same t := by
    rcases ht with rfl | rfl
    · exact .refl _
    · exact synced_same true s
  have hupt : Up t ∧ t.faulted = false := by
    rcases ht with rfl | rfl
    · exact ⟨hl.up, hl.sound⟩
    · exact ⟨⟨hl.up.writable, hl.up.opened⟩, hl.sound⟩
  rw [he]
  refine Wr.stops_bind (stops_createPartition (s := markSealed (sealFooter env p) (synced false t))
    (hst.env_eq.trans he) ⟨hupt.1.writable, hupt.1.opened⟩ hg0 ho fun changed => ?_)
  show Q (.ok ()) (countRotation _)
  generalize newHeader env ((p.header.slot + 1) % env.volume.partitionCount)
    (p.header.generation + 1) options = h
  have hsame : s.Same (countRotation (installPartition
      (synced false (markSealed (sealFooter env p) (synced false t))) h changed)) :=
    hst.trans ((synced_same _ _).trans ((markSealed_same _ _).trans ((synced_same _ _).trans
      ((installPartition_same _ _ _).trans (countRotation_same _)))))
  have hact : (countRotation (installPartition
      (synced false (markSealed (sealFooter env p) (synced false t))) h changed)).active =
        some { header := h } :=
    Cat.active_install (markSealed (sealFooter env p) (synced false t)).cat h
  refine hok _ h ?_ (hsame.builder.trans hb) hact ⟨?_, ?_⟩
  · exact ⟨hl.ok.of_same hsame ⟨_, hact, rfl⟩, ⟨hupt.1.writable, hupt.1.opened⟩, hupt.2⟩
  · intro q hq
    rw [hact] at hq
    cases hq
    exact g.fits_new h
  · intro hne
    exact absurd (hsame.builder.trans hb) hne

/-- An empty partition is never rotated for want of room. -/
theorem ensureEmptyBuilderCapacity_empty (g : Geometry env) (hl : Live env s)
    (hres : Reserved env s) {p : PartitionState} (hp : s.active = some p) (hnil : p.activeIndex = []) :
    ensureEmptyBuilderCapacity s = .done (.ok (), s) := by
  have he := hl.ok.env_eq
  have hend := (hres.fits p hp).empty hnil
  obtain ⟨span, hspan, hle⟩ := g.worstSpan
  have hcount := (Nat.one_le_div_iff (b := indexEntryEncodedSize) (by decide)).mpr g.index_min
  show (if s.builder ≠ [] then pure () else _ : Writer Unit) s = _
  split
  · rfl
  · simp only [hp, he, hspan]
    rw [if_neg (by omega), if_neg (by rw [hend, hnil]; simp only [List.length_nil]; omega)]
    rfl

/-- What the reservation leaves: a partition with room for the longest block. -/
theorem stops_ensureEmptyBuilderCapacity (g : Geometry env) (hl : Live env s)
    (hok : ∀ t, Live env t → t.builder = s.builder →
      (Reserved env s → Reserved env t ∧ ∀ p, t.active = some p → Roomy env p) → Q (.ok ()) t)
    (herr : ∀ st t, Latched st t → RotationCause env s st → Q (.error st) t) :
    Wr.Stops Latched Q ensureEmptyBuilderCapacity s := by
  obtain ⟨p, hp, hns⟩ := hl.ok.active
  have he := hl.ok.env_eq
  obtain ⟨span, hspan, hle⟩ := g.worstSpan
  simp only [ensureEmptyBuilderCapacity, Wr.stops_get_bind, Wr.stops_ite, Wr.stops_pure, hp, he, hspan]
  refine ⟨fun hne => hok s hl rfl fun hres => ⟨hres, hres.room hne⟩, fun hb => ⟨fun hbig => ?_, fun _ => ⟨fun _ => ?_,
    fun hroom => ?_⟩⟩⟩
  · omega
  · have hnil := not_not.mp hb
    refine stops_rotateInternal g hl hnil hl.ok.next (fun t h ht htb hact hres => ?_) herr
    refine hok t ht (htb.trans hnil.symm) fun _ => ⟨hres, fun q hq => ?_⟩
    rw [hact] at hq
    cases hq
    exact g.roomy_new h
  · refine hok s hl rfl fun hres => ⟨hres, fun q hq => ?_⟩
    rw [hp] at hq
    cases hq
    have hend := (hres.fits p hp).dataEnd
    exact ⟨⟨span, hspan, by omega⟩, by omega⟩

/-! ## Blocks -/

/-- Every frame of a builder is as long as the longest frame at most. -/
theorem packed_span (g : Geometry env) (hs : StoreOk env s) (hb : s.builder ≠ [])
    {options : PartitionOptions} {stored : Stored}
    (hpack : packBuilder env options s.builder = .ok stored) :
    ∃ span, alignUp (blockHeaderEncodedSize + stored.payload.length) env.quantum = some span ∧
      ∀ worst, worstSpan env = some worst → span ≤ worst := by
  obtain ⟨-, hle, -⟩ := packBuilder_spec hb hpack
  have hmax : blockHeaderEncodedSize + stored.payload.length ≤
      blockHeaderEncodedSize + env.maxBlockPayload := by
    have := hs.builder_le
    omega
  obtain ⟨worst, hworst, hfit⟩ := g.worstSpan
  have hsize := Geometry.partitionSize_lt env
  have hbegin : env.indexBegin ≤ env.partitionSize := by
    have := g.indexBegin_add
    omega
  obtain ⟨span, hspan⟩ := alignUp_isSome_of_le hmax hworst (by omega)
  refine ⟨span, hspan, fun worst' hworst' => ?_⟩
  exact alignUp_mono hmax hspan hworst'

theorem Live.publishBlock (hl : Live env s) (b : BlockHeader) (n span : Nat) :
    Live env (Writer.publishBlock s b n span) where
  ok := publishBlock_ok hl.ok b n span
  up := ⟨hl.up.writable, hl.up.opened⟩
  sound := hl.sound

theorem Reserved.publishBlock {p : PartitionState} (hp : s.active = some p)
    {b : BlockHeader} {n span : Nat} (hend : p.dataEnd + span ≤ env.indexBegin)
    (hcount : p.activeIndex.length + 1 ≤ env.indexRegionSize / indexEntryEncodedSize) :
    Reserved env (Writer.publishBlock s b n span) where
  fits := by
    intro q hq
    rw [publishBlock_active, hp] at hq
    cases hq
    refine ⟨hend, ?_, fun hnil => ?_⟩
    · show (p.activeIndex ++ [_]).length ≤ _
      rw [List.length_append]
      exact hcount
    · exact absurd hnil (List.append_ne_nil_of_right_ne_nil _ (List.cons_ne_nil _ _))
  room := fun hne => absurd rfl hne

theorem stops_emitBuilder (g : Geometry env) (hl : Live env s)
    (hok : ∀ t, Live env t → t.builder = [] → (Reserved env s → Reserved env t) →
      t.active.map (·.header) = s.active.map (·.header) → Q (.ok ()) t)
    (herr : ∀ st t, Latched st t → EmitCause env s st → Q (.error st) t) :
    Wr.Stops Latched Q emitBuilder s := by
  obtain ⟨p, hp, hns⟩ := hl.ok.active
  have he := hl.ok.env_eq
  simp only [emitBuilder, Wr.stops_get_bind, Wr.stops_ite, Wr.stops_pure, hp, he]
  refine ⟨fun hnil => hok s hl hnil id rfl, fun hb => ?_⟩
  cases hpack : packBuilder env p.header.options s.builder with
  | error st => exact stops_failFault hl.up fun t ht => herr st t ht (.codec hp hpack)
  | ok stored =>
    obtain ⟨span, hspan, hworst⟩ := packed_span g hl.ok hb hpack
    obtain ⟨-, hframe, -, -⟩ := alignUp_spec hspan
    simp only [hspan, Wr.stops_ite]
    refine ⟨fun hbig => ?_, fun _ => ⟨fun hfull => ?_, fun hroom => ?_⟩⟩
    · refine stops_failFault hl.up fun t ht => herr tooLarge t ht (.tooLarge ?_)
      rintro ⟨worst', hw', hlt⟩
      have hle' := hworst worst' hw'
      omega
    · refine stops_failFault hl.up fun t ht => herr _ t ht (.capacity fun hres => ?_)
      obtain ⟨⟨worst, hw, hfit⟩, hcount⟩ := hres.room hb p hp
      have hle := hworst worst hw
      omega
    · refine Wr.stops_bind (stops_writeItem hl.up ?_)
      refine hok _ (hl.publishBlock _ _ _) rfl (fun _ => Reserved.publishBlock hp (by omega) (by omega)) ?_
      show (Writer.publishBlock s _ _ _).active.map _ = _
      rw [publishBlock_active, hp]
      rfl

/-! ## Calls -/

/-- The argument errors of a call.  None of them is latched. -/
inductive Refused (env : Env) : Op → Status → Prop
  | emptyRecord {time : Int64} {flags : UInt32} : Refused env (.append [] time flags)
      ⟨.invalidArgument, "zero-length record is not allowed"⟩
  | emptyChecked {time : Int64} {expected : AppendContract} {flags : UInt32} :
      Refused env (.appendChecked [] time expected flags)
        ⟨.invalidArgument, "zero-length record is not allowed"⟩
  | longRecord {record : Bytes} {time : Int64} {flags : UInt32}
      (h : env.maxBlockPayload < record.length) : Refused env (.append record time flags)
        ⟨.outOfRange, "record exceeds block payload limit"⟩
  | longChecked {record : Bytes} {time : Int64} {expected : AppendContract} {flags : UInt32}
      (h : env.maxBlockPayload < record.length) :
      Refused env (.appendChecked record time expected flags)
        ⟨.outOfRange, "record exceeds block payload limit"⟩
  | zeroContract {record : Bytes} {time : Int64} {expected : AppendContract} {flags : UInt32}
      (h : expected.recordFormatId = 0 ∨ expected.recordFormatVersion = 0 ∨
        expected.timeDomainId = 0) : Refused env (.appendChecked record time expected flags)
        ⟨.invalidArgument, "checked append requires a nonzero partition contract"⟩
  | contract {record : Bytes} {time : Int64} {expected : AppendContract} {flags : UInt32} :
      Refused env (.appendChecked record time expected flags)
        ⟨.invalidArgument, "active partition contract changed before append"⟩
  | rotation {next : PartitionOptions} {st : Status}
      (h : env.validatePartitionOptions next = .error st) : Refused env (.rotate next) st
  | options {options : PartitionOptions} {st : Status}
      (h : env.validatePartitionOptions options = .error st) : Refused env (.setNext options) st

theorem stops_guardWritable (hup : Up s) (hf : s.faulted = false) {f : Unit → Writer Unit} :
    Wr.Stops Latched Q (guardWritable >>= f) s ↔ Wr.Stops Latched Q (f ()) s := by
  have hguard : (guardWritable >>= f) s = f () s := by
    show WriteProg.bind (guardWritable s) _ = _
    have hpass : guardWritable s = .done (.ok (), s) := by
      show (if ¬ s.writable = true then _ else _ : Writer Unit) s = _
      rw [if_neg (not_not.mpr hup.writable), if_neg (by rw [hup.opened]; decide),
        if_neg (by rw [hf]; decide)]
      rfl
    rw [hpass]
    rfl
  unfold Wr.Stops
  rw [hguard]

theorem Live.acceptRecord (hl : Live env s) {record : Bytes} (hr : record ≠ [])
    (hfit : s.builder.length + record.length ≤ env.maxBlockPayload) (options : PartitionOptions)
    (time : Int64) (flags : UInt32) :
    Live env (Writer.acceptRecord s options record time flags) where
  ok := acceptRecord_ok hl.ok hr hfit options time flags
  up := ⟨hl.up.writable, hl.up.opened⟩
  sound := hl.sound

theorem AtEnd.of_header {t : Store} (h : AtEnd t)
    (hact : t.active.map (·.header) = s.active.map (·.header)) : AtEnd s := by
  obtain ⟨p, hp, hgen⟩ := h
  rw [hp, Option.map_some] at hact
  obtain ⟨q, hq, hheader⟩ := Option.map_eq_some_iff.mp hact.symm
  exact ⟨q, hq, by rw [hheader]; exact hgen⟩

theorem RotationCause.cause {t : Store} {st : Status} (h : RotationCause env t st)
    (hres : Reserved env s → Reserved env t) (hend : AtEnd t → AtEnd s) : Cause env s st := by
  cases h with
  | exhausted h => exact .exhausted (hend h)
  | capacity h => exact .capacity (mt hres h)

theorem stops_appendImpl (g : Geometry env) (hl : Live env s) (record : Bytes) (time : Int64)
    (flags : UInt32) (expected : Option AppendContract) (hok : ∀ t, Live env t → (Reserved env s → Reserved env t) → Q (.ok ()) t)
    (hempty : record = [] → Q (.error ⟨.invalidArgument, "zero-length record is not allowed"⟩) s)
    (hlong : env.maxBlockPayload < record.length →
      Q (.error ⟨.outOfRange, "record exceeds block payload limit"⟩) s)
    (hcontract : ∀ t, Live env t → (Reserved env s → Reserved env t) → expected ≠ none →
      Q (.error ⟨.invalidArgument, "active partition contract changed before append"⟩) t)
    (herr : ∀ st t, Latched st t → Cause env s st → Q (.error st) t) :
    Wr.Stops Latched Q (appendImpl record time flags expected) s := by
  have he := hl.ok.env_eq
  rw [appendImpl, stops_guardWritable hl.up hl.sound]
  simp only [Wr.stops_get_bind, Wr.stops_ite, Wr.stops_fail, he]
  refine ⟨hempty, fun hne => ⟨hlong, fun hle => ?_⟩⟩
  have hbuilder := hl.ok.builder_le
  -- a store whose builder has room for the record
  have hfront : Wr.Stops Latched (fun r t => (r = .ok () ∧ Live env t ∧
      t.builder.length + record.length ≤ env.maxBlockPayload ∧ (Reserved env s → Reserved env t) ∧
      (AtEnd t → AtEnd s)) ∨ ∃ st, r = .error st ∧ Latched st t ∧ Cause env s st)
      (Wr.when (record.length > s.env.maxBlockPayload - s.builder.length) emitBuilder) s := by
    rw [he]
    refine Wr.stops_when.mpr ⟨fun _ => ?_, fun hsmall => .inl ⟨rfl, hl, by omega, id, id⟩⟩
    refine stops_emitBuilder g hl (fun t ht hnil hres hact => .inl ⟨rfl, ht, ?_, hres, ?_⟩)
      fun st t ht hc => .inr ⟨st, rfl, ht, hc.cause⟩
    · rw [hnil]
      simpa using Nat.not_lt.mp hle
    · exact fun hend => hend.of_header hact
  refine Wr.stops_bind (hfront.mono ?_)
  rintro r t (⟨rfl, ht, hfit, hres, hend⟩ | ⟨st, rfl, ht, hc⟩)
  · refine Wr.stops_bind (stops_ensureEmptyBuilderCapacity g ht (fun u hu hub hroom => ?_)
      fun st u hu hc => herr st u hu (hc.cause hres hend))
    obtain ⟨p, hp, -⟩ := hu.ok.active
    show Wr.Stops Latched Q _ u
    simp only [Wr.stops_get_bind, hp, Wr.stops_ite, Wr.stops_fail, Wr.stops_set]
    refine ⟨fun hbad => hcontract u hu (fun h => (hroom (hres h)).1) fun hnone => ?_, fun _ => ?_⟩
    · rw [hnone] at hbad
      exact hbad rfl
    · refine hok _ (hu.acceptRecord hne (by rw [hub]; exact hfit) _ _ _) fun h => ?_
      exact ⟨(hroom (hres h)).1.fits, fun _ => (hroom (hres h)).2⟩
  · exact herr st t ht hc

/-- The end of a call that no storage error disturbed. -/
inductive Ended (env : Env) (s : Store) (op : Op) : Except Status Unit → Store → Prop
  | accepted {t : Store} (h : Live env t) (hres : Reserved env s → Reserved env t) :
      Ended env s op (.ok ()) t
  | closed {t : Store} (hop : op = .close) (h : t.closed = true) : Ended env s op (.ok ()) t
  | refused {t : Store} {st : Status} (h : Live env t) (hres : Reserved env s → Reserved env t)
      (hr : Refused env op st) : Ended env s op (.error st) t
  | faulted {t : Store} {st : Status} (h : Latched st t) (hc : Cause env s st) :
      Ended env s op (.error st) t

theorem Live.synced (hl : Live env s) : Live env (Writer.synced true s) :=
  ⟨hl.ok.of_same (synced_same true s) hl.ok.active, ⟨hl.up.writable, hl.up.opened⟩, hl.sound⟩

theorem Live.setNext (hl : Live env s) {options : PartitionOptions}
    (ho : env.validatePartitionOptions options = .ok ()) :
    Live env { s with nextOptions := options } where
  ok := ⟨hl.ok.env_eq, ho, hl.ok.builder_le, hl.ok.records_le, hl.ok.records_pos, hl.ok.times,
    hl.ok.writer, hl.ok.active⟩
  up := ⟨hl.up.writable, hl.up.opened⟩
  sound := hl.sound

/-- **One call.**  A storage error ends it at once and is latched; otherwise it ends as `Ended`
says. -/
theorem stops_program (g : Geometry env) (hl : Live env s) (op : Op) :
    Wr.Stops Latched (Ended env s op) op.program s := by
  have he := hl.ok.env_eq
  have hfault : ∀ st t, Latched st t → Cause env s st → Ended env s op (.error st) t :=
    fun st t ht hc => .faulted ht hc
  have hemit : ∀ st t, Latched st t → EmitCause env s st → Ended env s op (.error st) t :=
    fun st t ht hc => .faulted ht hc.cause
  cases op with
  | append record time flags =>
    refine stops_appendImpl g hl record time flags none (fun t ht hres => .accepted ht hres) ?_ ?_ ?_
      hfault
    · rintro rfl
      exact .refused hl id .emptyRecord
    · exact fun h => .refused hl id (.longRecord h)
    · exact fun t _ _ hne => absurd rfl hne
  | appendChecked record time expected flags =>
    simp only [Op.program, appendChecked, Wr.stops_ite, Wr.stops_fail]
    refine ⟨fun hzero => .refused hl id (.zeroContract hzero), fun _ => ?_⟩
    refine stops_appendImpl g hl record time flags (some expected)
      (fun t ht hres => .accepted ht hres) ?_ ?_ ?_ hfault
    · rintro rfl
      exact .refused hl id .emptyChecked
    · exact fun h => .refused hl id (.longChecked h)
    · exact fun t ht hres _ => .refused ht hres .contract
  | publish =>
    rw [Op.program, publish, stops_guardWritable hl.up hl.sound]
    exact stops_emitBuilder g hl (fun t ht _ hres _ => .accepted ht hres) hemit
  | checkpoint =>
    rw [Op.program, checkpoint, stops_guardWritable hl.up hl.sound]
    refine Wr.stops_bind (stops_emitBuilder g hl (fun t ht _ hres _ => ?_) hemit)
    show Wr.Stops Latched _ _ t
    rw [Wr.stops_get_bind, Wr.stops_when]
    refine ⟨fun _ => stops_syncMedia ht.up ?_, fun _ => .accepted ht hres⟩
    exact .accepted ht.synced fun h => ⟨(hres h).fits, (hres h).room⟩
  | close =>
    simp only [Op.program, close, Wr.stops_get_bind, Wr.stops_ite]
    refine ⟨fun h => absurd h (by rw [hl.up.opened]; decide), fun _ =>
      ⟨fun h => absurd hl.up.writable h, fun _ => ⟨fun h => absurd h (by rw [hl.sound]; decide),
        fun _ => ?_⟩⟩⟩
    refine Wr.stops_bind (stops_emitBuilder g hl (fun t ht _ _ _ => ?_) hemit)
    show Wr.Stops Latched _ _ t
    rw [Wr.stops_get_bind]
    refine Wr.stops_bind (Wr.stops_when.mpr ⟨fun _ => ?_, fun _ => .closed rfl rfl⟩)
    exact stops_syncMedia ht.up (.closed rfl rfl)
  | rotate next =>
    rw [Op.program, rotate, stops_guardWritable hl.up hl.sound, Wr.stops_get_bind, he]
    cases ho : env.validatePartitionOptions next with
    | error st => exact .refused hl id (.rotation ho)
    | ok u =>
      refine Wr.stops_bind (stops_emitBuilder g hl (fun t ht hnil hres hact => ?_) hemit)
      show Wr.Stops Latched _ _ t
      rw [Wr.stops_modify_bind]
      refine stops_rotateInternal g (ht.setNext ho) hnil ho
        (fun u _ hu _ _ hur => .accepted hu fun _ => hur) fun st u hu hc => ?_
      refine .faulted hu (hc.cause (fun h => ⟨(hres h).fits, (hres h).room⟩) fun hend => ?_)
      exact AtEnd.of_header (t := { t with nextOptions := next }) hend hact
  | setNext options =>
    rw [Op.program, setNextPartitionOptions, stops_guardWritable hl.up hl.sound, Wr.stops_get_bind, he]
    cases ho : env.validatePartitionOptions options with
    | error st => exact .refused hl id (.options ho)
    | ok u => exact .accepted (hl.setNext ho) fun h => ⟨h.fits, h.room⟩

end

end TFDB

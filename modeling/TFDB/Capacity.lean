import TFDB.Latch

/-!
# Capacity

A record is only accepted when the active partition has room for the longest block.  The builder
grows until it is emitted, the block may be compressed, the store may be reopened: the room is
still there.

* `Chain.count_le` — a scan of what the writer wrote finds no more blocks than the index holds;
* `reach_reserved` — every live store of a run is `Reserved`;
* `capacity_reserved` — so the capacity checks of `emit_builder` and `seal_active_only` never fail,
  an automatic rotation leaves room for the record that caused it and is never made for an empty
  partition, and no block is stored longer than its records.
-/

set_option autoImplicit false

namespace TFDB

open ByteLib Writer

/-! ## What a scan finds -/

/-- The blocks of a chain are numbered. -/
theorem Chain.sequence_at {env : Env} {m : Image} {h : PartitionHeader} {limit : Nat}
    {st st' : ScanState} {fs : List (BlockHeader × Bytes)} (hc : Chain env m h limit st fs st')
    {i : Nat} (hseq : st.expectedSequence = UInt32.ofNat i) {j : Nat} {f : BlockHeader × Bytes}
    (hf : fs[j]? = some f) : f.1.sequence = UInt32.ofNat (i + j) := by
  induction hc generalizing i j with
  | nil st => cases hf
  | @cons st st' b x fs hframe hc ih =>
    cases j with
    | zero =>
      cases hf
      rw [hframe.accepted.sequence, hseq]
      rfl
    | succ j =>
      have hnext : (st.next b).expectedSequence = UInt32.ofNat (i + 1) := by
        show st.expectedSequence + 1 = _
        rw [hseq, UInt32.ofNat_add]
        rfl
      rw [ih hnext hf]
      congr 1
      omega

/-- No more blocks than the index has room for. -/
theorem Chain.count_le {env : Env} {issued : List (Nat × Item)} {writers : List (UInt64 × UInt64)}
    {m : Image} (hitems : ∀ w ∈ issued, ItemOk env issued writers w.1 w.2)
    (hc : CollisionFree env issued m) {h : PartitionHeader} (hs : h.slot < env.volume.partitionCount)
    {fs : List (BlockHeader × Bytes)} {st : ScanState}
    (hch : Chain env m h env.indexBegin {} fs st) :
    fs.length ≤ env.indexRegionSize / indexEntryEncodedSize := by
  by_contra hlt
  rw [Nat.not_le] at hlt
  -- the block behind the last one that has an entry
  have hget : fs[env.indexRegionSize / indexEntryEncodedSize]? = some (fs.get ⟨_, hlt⟩) :=
    List.getElem?_eq_getElem hlt
  generalize fs.get ⟨_, hlt⟩ = f at hget
  have hseq := hch.sequence_at (i := 0) rfl hget
  have hissued := hch.frames_issued hc hs (Nat.le_refl _) (Nat.le_refl _)
  obtain ⟨off, raw, -, hmade⟩ := FramesIssued.made hitems hissued (List.mem_of_getElem? hget)
  obtain ⟨c, p, hframe, -, -⟩ := hmade.made
  have hcount := hframe.count
  have hregion : env.indexRegionSize < 2 ^ 32 := env.volume.indexRegionSize.toNat_lt
  have hdiv : env.indexRegionSize / indexEntryEncodedSize ≤ env.indexRegionSize := Nat.div_le_self ..
  have heq := congrArg UInt32.toNat (hframe.sequence.symm.trans hseq)
  rw [toNat_ofNat32 (by omega), toNat_ofNat32 (by omega)] at heq
  omega

theorem fits_of_slotState {env : Env} (g : Geometry env) {issued : List (Nat × Item)}
    {writers : List (UInt64 × UInt64)} {m : Image}
    (hitems : ∀ w ∈ issued, ItemOk env issued writers w.1 w.2) (hc : CollisionFree env issued m)
    (hm : env.volume.volumeSize.toNat ≤ m.size) {slot : UInt32}
    (hs : slot < env.volume.partitionCount) {p : PartitionState}
    (hp : slotState env m slot = some p) (ho : p.isSealed = false) : Fits env p := by
  have hslot := slotState_slot hp
  obtain ⟨fs, st, hopen, hch, -⟩ := slotState_open g hm hs hp ho
  have hbegin := g.header_lt_indexBegin
  rw [hopen]
  refine ⟨?_, ?_, fun hnil => ?_⟩
  · have hend := hch.cursor_limit (Nat.le_of_lt hbegin)
    rw [hch.cursor_eq] at hend
    rw [openState_dataEnd]
    exact hend
  · rw [openState_activeIndex, chainEntries_length]
    exact hch.count_le hitems hc (hslot ▸ hs)
  · rw [openState_activeIndex] at hnil
    have hlen := congrArg List.length hnil
    rw [chainEntries_length] at hlen
    rw [openState_dataEnd, List.eq_nil_of_length_eq_zero hlen]
    rfl

/-! ## Runs -/

section
variable {env : Env} {cut : Disk Item → Image → Prop} {assumed : Disk Item → Prop}

theorem Reserved.of_active {s : Store} {p : PartitionState} (hp : s.active = some p)
    (hfit : Fits env p) (hb : s.builder = []) : Reserved env s := by
  refine ⟨fun q hq => ?_, fun hne => absurd hb hne⟩
  rw [hp] at hq
  cases hq
  exact hfit

/-- The writing part of `open` ends in a store with its capacity. -/
theorem startWriter_reserved (g : Geometry env) {m : Image} {o : OpenOptions} {id : UInt64 × UInt64}
    (hw : o.writable = true) (ho : env.validatePartitionOptions o.nextPartition = .ok ())
    (hgen : GenerationsOk (slotStates env m))
    (hfit : (slotList env).filter (slotDamaged env m) = [] →
      ∀ p ∈ slotStates env m, p.isSealed = false → Fits env p) :
    Wr.Stops Latched (fun r t => r = .ok () → Reserved env t) startWriter (openedStore env m o id) := by
  have hup : Up (openedStore env m o id) := ⟨hw, rfl⟩
  have hcreate (slot : UInt32) (generation : UInt64) (h0 : generation ≠ 0) :
      Wr.Stops Latched (fun r t => r = .ok () → Reserved env t)
        (createPartition slot generation o.nextPartition) (openedStore env m o id) := by
    refine stops_createPartition rfl hup h0 ho fun changed _ => ?_
    exact .of_active (Cat.active_install (openedStore env m o id).cat _) (g.fits_new _) rfl
  simp only [startWriter, Wr.stops_get_bind, Wr.stops_ite, Wr.stops_fail]
  refine ⟨fun _ hr => (by cases hr), fun hd => ?_⟩
  have hfit := hfit (not_not.mp hd)
  rw [openedStore_partitions]
  cases hlast : (catalogOf env m).getLast? with
  | none => exact hcreate 0 1 (by decide)
  | some p =>
    simp only [Wr.stops_ite, Wr.stops_fail, Wr.stops_pure]
    refine ⟨fun hs => ⟨fun _ hr => (by cases hr), fun hmax => ?_⟩, fun hs _ => ?_⟩
    · refine hcreate _ _ fun h0 => hmax ?_
      have : p.header.generation = p.header.generation + 1 - 1 := by simp
      rw [this, h0]
      rfl
    · have hmem : p ∈ slotStates env m := by
        rcases catalogOf_cases env m with ⟨-, h⟩ | ⟨older, newest, h, -, hn, -⟩
        · rw [h] at hlast
          cases hlast
        · rw [h, List.getLast?_concat] at hlast
          cases hlast
          exact hn
      exact .of_active (openedCat_active id hgen hlast) (hfit p hmem (by simpa using hs)) rfl

/-- A live store at the end of the process has its capacity. -/
def Capable (env : Env) : Proc → Prop
  | .opening k => k.Stops (fun e r => r.1 = .error e ∧ Latched e r.2)
      fun r => r.1 = .ok () → Reserved env r.2
  | .busy _ k => k.Stops (fun e r => r.1 = .error e ∧ Latched e r.2)
      fun r => Live env r.2 → Reserved env r.2
  | .idle s _ => Live env s → Reserved env s
  | _ => True

theorem Latched.not_live {st : Status} {s : Store} (h : Latched st s) : ¬ Live env s := by
  intro hl
  have := hl.sound
  rw [h.faulted] at this
  cases this

theorem capable_program (g : Geometry env) {s : Store} (h : Standing env s)
    (hres : Live env s → Reserved env s) (op : Op) :
    Wr.Stops Latched (fun _ t => Live env t → Reserved env t) op.program s := by
  cases h with
  | live h =>
    refine (stops_program g h op).mono fun r t hend => ?_
    cases hend with
    | accepted _ hr => exact fun _ => hr (hres h)
    | closed _ hc =>
      intro hl
      rw [hl.up.opened] at hc
      cases hc
    | refused _ hr _ => exact fun _ => hr (hres h)
    | faulted hf _ => exact fun hl => absurd hl hf.not_live
  | @faulted st h =>
    unfold Wr.Stops
    by_cases hz : ZeroContract op
    · rw [hz.program s]
      exact hres
    · rw [h.program hz]
      exact hres
  | closed h =>
    obtain ⟨r, hr⟩ := closed_program h op
    unfold Wr.Stops
    rw [hr]
    exact hres

theorem Effect.stops {α : Type} {E : Status → α → Prop} {Q : α → Prop} {d d' : Disk Item}
    {k k' : WriteProg Status Item α} (h : Effect env d k d' k') (hk : k.Stops E Q)
    (hE : ∀ e a, E e a → Q a) : k'.Stops E Q := by
  obtain ⟨S', hS'⟩ := h.observed {}
  exact hS'.stops hk hE

/-- In every run, storage errors, restarts and power cuts included, a live store has the capacity
its records need. -/
theorem reach_reserved (hcut : ∀ d m, cut d m → d.MixCut (Item.bytes env) m)
    (hassumed : ∀ d, assumed d → CollisionFreeNow env d) {x : Sys} (h : Reach env cut assumed x) :
    Capable env x.proc := by
  induction h with
  | @init x h =>
    rw [h.proc]
    trivial
  | @step x y hx hstep ih =>
    cases hstep with
    | formatEffect hp he => trivial
    | formatted r hp => trivial
    | @startOpen s o id hp had hw hfresh hid hrec hwid =>
      obtain ⟨φ, hpr, -⟩ := reach_simulated hcut hassumed hx
      have g := hpr.geometry
      have hsize := hpr.seen_size hcut
      obtain ⟨⟨wid, hprep, hopened⟩, -, hgen⟩ := recover_ok (o := { o with codecs := env.codecs }) g
        hsize (fun v hv => readVolumeHeader_eq hpr.volumes (hassumed _ had) hv) rfl hrec
      have ho := prepareWriter_ok (o := { o with codecs := env.codecs }) hw hprep
      show Capable env (.opening (startWriter s))
      rw [hopened]
      refine startWriter_reserved (o := { o with codecs := env.codecs }) g hw ho hgen fun _ p hp hns => ?_
      obtain ⟨hslot, hstate⟩ := mem_slotStates.mp hp
      exact fits_of_slotState g (hpr.log hcut hassumed).items (hassumed _ had) hsize hslot hstate hns
    | openEffect hp he =>
      rw [hp] at ih
      refine he.stops ih ?_
      rintro e ⟨r, t⟩ ⟨hr, -⟩ hok
      rw [hr] at hok
      cases hok
    | opened s hp =>
      rw [hp] at ih
      exact fun _ => ih rfl
    | openFailed st s hp => trivial
    | @call s last op hp =>
      rw [hp] at ih
      obtain ⟨S, hS⟩ := reach_tracked hcut hassumed hx (by rw [hp]; trivial)
      have hst := hS.watched
      rw [hp] at hst
      exact capable_program hS.geometry hst ih op
    | effect hp he =>
      rw [hp] at ih
      refine he.stops ih ?_
      rintro e ⟨r, t⟩ ⟨-, hl⟩ hlive
      exact absurd hlive hl.not_live
    | returned hp =>
      rw [hp] at ih
      exact ih
    | restart => trivial
    | powerCut m h => trivial

/-! ## What the reserve is good for -/

/-- The checks of capacity pass on this store. -/
structure CapacityHeld (env : Env) (s : Store) : Prop where
  /-- Whatever the codec makes of the builder fits behind the blocks of the active partition. -/
  emit : s.builder ≠ [] → ∀ p stored, s.active = some p →
    packBuilder env p.header.options s.builder = .ok stored →
    stored.payload.length ≤ s.builder.length ∧
    ∃ span, alignUp (blockHeaderEncodedSize + stored.payload.length) env.quantum = some span ∧
      p.dataEnd + span ≤ env.indexBegin ∧
      p.activeIndex.length + 1 ≤ env.indexRegionSize / indexEntryEncodedSize
  /-- The index fits its region. -/
  sealing : ∀ p, s.active = some p → (encodeIndex p.activeIndex).length ≤ env.indexRegionSize
  /-- Behind the reservation, with or without a rotation, there is room for the longest block. -/
  reserve : Wr.Stops Latched (fun r t => r = .ok () → ∀ p, t.active = some p → Roomy env p)
    ensureEmptyBuilderCapacity s
  /-- A partition without a block is not rotated. -/
  empty : ∀ p, s.active = some p → p.activeIndex = [] →
    ensureEmptyBuilderCapacity s = .done (.ok (), s)

theorem Reserved.held (g : Geometry env) {s : Store} (hl : Live env s) (hres : Reserved env s) :
    CapacityHeld env s where
  emit := by
    intro hb p stored hp hpack
    obtain ⟨-, hle, -⟩ := packBuilder_spec hb hpack
    obtain ⟨span, hspan, hworst⟩ := packed_span g hl.ok hb hpack
    obtain ⟨⟨worst, hw, hfit⟩, hcount⟩ := hres.room hb p hp
    have hle' := hworst worst hw
    exact ⟨hle, span, hspan, by omega, hcount⟩
  sealing := fun p hp => (hres.fits p hp).index
  reserve := by
    refine stops_ensureEmptyBuilderCapacity g hl (fun t _ _ hroom _ => (hroom hres).2) ?_
    intro st t _ _ h
    cases h
  empty := fun p hp hnil => ensureEmptyBuilderCapacity_empty g hl hres hp hnil

/-- A reason other than the capacity. -/
theorem Cause.of_reserved {s : Store} {st : Status} (h : Cause env s st) (hres : Reserved env s)
    (hfits : env.SpanFits) :
    (∃ p, s.active = some p ∧ packBuilder env p.header.options s.builder = .error st) ∨
      (AtEnd s ∧ st = TFDB.exhausted) := by
  cases h with
  | codec hp h => exact Or.inl ⟨_, hp, h⟩
  | tooLarge h => exact absurd hfits h
  | exhausted h => exact Or.inr ⟨h, rfl⟩
  | capacity h => exact absurd hres h

theorem EmitCause.of_reserved {s : Store} {st : Status} (h : EmitCause env s st)
    (hres : Reserved env s) (hfits : env.SpanFits) :
    ∃ p, s.active = some p ∧ packBuilder env p.header.options s.builder = .error st := by
  cases h with
  | codec hp h => exact ⟨_, hp, h⟩
  | tooLarge h => exact absurd hfits h
  | capacity h => exact absurd hres h

/-- **Capacity is reserved before a record is accepted.**  In every run, a store that waits for a
call passes its capacity checks now and behind `emit_builder`, and a call on it only fails for a
storage error, a refused argument, an error of the codec or the end of the generations.  No block
is stored longer than its records. -/
theorem capacity_reserved (hcut : ∀ d m, cut d m → d.MixCut (Item.bytes env) m)
    (hassumed : ∀ d, assumed d → CollisionFreeNow env d) (hfits : env.SpanFits) {x : Sys}
    (h : Reach env cut assumed x) :
    (∀ s last, x.proc = .idle s last → Up s → s.faulted = false →
      CapacityHeld env s ∧
      Wr.Stops Latched (fun r t => r = .ok () → CapacityHeld env t) emitBuilder s ∧
      ∀ op, Wr.Stops Latched (fun r _ => ∀ st, r = .error st → Refused env op st ∨
        (∃ p, s.active = some p ∧ packBuilder env p.header.options s.builder = .error st) ∨
        (AtEnd s ∧ st = exhausted)) op.program s) ∧
    ∀ off b payload raw, (off, Item.frame b payload raw) ∈ x.disk.issued →
      payload.length ≤ raw.length ∧ b.storedSize ≤ b.rawSize := by
  refine ⟨fun s last hp hup hsound => ?_, fun off b payload raw hmem => ?_⟩
  · obtain ⟨S, hS⟩ := reach_tracked hcut hassumed h (by rw [hp]; trivial)
    have g := hS.geometry
    have hst := hS.watched
    rw [hp] at hst
    have hl : Live env s := by
      cases hst with
      | live hl => exact hl
      | faulted hf =>
        rw [hf.faulted] at hsound
        cases hsound
      | closed hc =>
        rw [hup.opened] at hc
        cases hc
    have hcap := reach_reserved hcut hassumed h
    rw [hp] at hcap
    have hres : Reserved env s := hcap hl
    refine ⟨hres.held g hl, ?_, fun op => ?_⟩
    · refine stops_emitBuilder g hl (fun t ht _ hr _ _ => (hr hres).held g ht) fun st t _ _ he => ?_
      cases he
    · refine (stops_program g hl op).mono fun r t hend st hr => ?_
      cases hend with
      | accepted _ _ => cases hr
      | closed _ _ => cases hr
      | refused _ _ hrefused =>
        cases hr
        exact Or.inl hrefused
      | faulted _ hc =>
        cases hr
        exact Or.inr (hc.of_reserved hres hfits)
  · obtain ⟨φ, hpr, -⟩ := reach_simulated hcut hassumed h
    obtain ⟨⟨c, p, hframe, -, -⟩, -⟩ := (hpr.log hcut hassumed).items _ hmem
    refine ⟨hframe.stored_le_raw, ?_⟩
    rw [UInt32.le_iff_toNat_le, hframe.stored, hframe.rawSize]
    exact hframe.stored_le_raw

end

/-- The sample store has its capacity with a record in the builder behind a flushed block, and keeps
it when the block of this record is emitted. -/
theorem sample_capacity : CapacityHeld Sample.env Sample.buffered ∧
    Wr.Stops Latched (fun r t => r = .ok () → CapacityHeld Sample.env t) emitBuilder
      Sample.buffered := by
  obtain ⟨hheld, hemit, -⟩ := (capacity_reserved
    (fun (d : Disk Item) m (h : d.MixCut (Item.bytes Sample.env) m) => h) (fun _ h => h)
    ⟨256, rfl, by decide⟩ Sample.reach_buffered).1 Sample.buffered _ rfl ⟨rfl, rfl⟩ rfl
  exact ⟨hheld, hemit⟩

end TFDB

import TFDB.Damage
import TFDB.Refinement
import TFDB.Usable
import TFDB.Incarnation

/-!
# What a checkpoint covers

A checkpoint flushes if the store has written blocks since its last flush.  Blocks of an earlier
store object on the same medium are none of them.

* `Clean.swept` — where each open finds a flushed medium, a store without unflushed blocks has one;
* `RingInv.quietSlot` — no slot of a run without faults stops an open;
* `RingInv.shown` — what a live catalog delivers, the recovered one delivers too;
* `checkpoint_durable` — behind a `checkpoint` or `close` every block that is delivered is durable.
-/

set_option autoImplicit false

namespace TFDB

open ByteLib Writer

/-! ## Nothing waits for a flush -/

/-- Where the phase counts on a flushed medium, nothing waits for a flush. -/
def Phase.Swept (d : Disk Item) : Phase → Prop
  | .ready c => c.dirty = false → d.pending = []
  | .rotating .. => d.pending = []
  | _ => True

theorem Phase.Write.swept {env : Env} {φ φ' : Phase} {off : Nat} {i : Item}
    (h : Phase.Write env φ off i φ') (d : Disk Item) : φ'.Swept d := by
  cases h with
  | frame hp hs hf =>
    intro hclean
    cases hclean
  | index => trivial
  | footer => trivial
  | emptyFooter => trivial
  | header => trivial

theorem Phase.Flush.swept {env : Env} {φ φ' : Phase} (h : Phase.Flush env φ φ') (d : Disk Item) :
    φ'.Swept (d.flush (Item.bytes env)) := by
  cases h with
  | sync => exact fun _ => rfl
  | sealed => exact rfl
  | install => exact fun _ => rfl

theorem openPhase_swept {env : Env} {m : Image} {id : UInt64 × UInt64} {d : Disk Item}
    (h : d.pending = []) : (openPhase env m id).Swept d := by
  unfold openPhase
  split
  · trivial
  · split
    · exact h
    · split
      · split
        · trivial
        · exact h
      · exact fun _ => h

/-- The calls that flush what the store has written. -/
def Op.Covers : Op → Prop
  | .checkpoint => True
  | .close => True
  | _ => False

/-- The store is flushed at its end. -/
theorem exec_cover {enc : Item → Bytes} {s t : Store} {d d' : Disk Item}
    (h : (Wr.when s.dirty (syncMedia true) s).exec enc d = ((.ok (), t), d')) : t.dirty = false := by
  cases hd : s.dirty with
  | true =>
    rw [hd] at h
    obtain rfl := congrArg (fun x => x.1.2) h
    rfl
  | false =>
    rw [hd] at h
    obtain rfl := congrArg (fun x => x.1.2) h
    exact hd

/-- A call that covers everything leaves no unflushed block. -/
theorem Standing.covered {env : Env} {s t : Store} (hst : Standing env s)
    (hclosed : s.closed = true → s.dirty = false) {op : Op} (hop : op.Covers) {enc : Item → Bytes}
    {d d' : Disk Item} (he : (op.program s).exec enc d = ((.ok (), t), d')) : t.dirty = false := by
  cases op with
  | checkpoint =>
    obtain ⟨_, u, e, -, he⟩ := Wr.exec_bind_inv he
    obtain ⟨_, u, e, -, he⟩ := Wr.exec_bind_inv he
    exact exec_cover he
  | close =>
    cases hst with
    | closed h =>
      obtain ⟨r, hr⟩ := closed_program h .close
      rw [hr] at he
      cases he
      exact hclosed h
    | faulted h =>
      rw [h.program (show ¬ ZeroContract .close from id)] at he
      cases he
    | live h =>
      have hprog : Op.close.program s = (do
          emitBuilder
          let s ← Wr.get
          Wr.when s.dirty (syncMedia true)
          Wr.modify fun s => { s with closed := true } : Writer Unit) s := by
        show (if s.closed = true then _ else _ : Writer Unit) s = _
        rw [if_neg (by rw [h.up.opened]; decide), if_neg (not_not.mpr h.up.writable),
          if_neg (by rw [h.sound]; decide)]
      rw [hprog] at he
      obtain ⟨_, u, e, -, he⟩ := Wr.exec_bind_inv he
      obtain ⟨w, u', e', hget, he⟩ := Wr.exec_bind_inv he
      cases hget
      obtain ⟨_, v, e'', hsync, he⟩ := Wr.exec_bind_inv he
      cases he
      have hclean : v.dirty = false := exec_cover hsync
      exact hclean
  | append => exact hop.elim
  | appendChecked => exact hop.elim
  | publish => exact hop.elim
  | rotate => exact hop.elim
  | setNext => exact hop.elim

section
variable {env : Env} {prior : Image} {assumed : Disk Item → Prop} {d : Disk Item} {so : Option Store}

/-- **Where every open finds a flushed medium, a store without unflushed blocks has one.** -/
theorem Clean.swept (hassumed : ∀ d, assumed d → CollisionFreeNow env d)
    (hflushed : ∀ d, assumed d → d.pending = []) (h : Clean env prior assumed d so) :
    ∀ s, so = some s → s.dirty = false → d.pending = [] :=
  (h.kept hassumed (K := fun d φ => φ.Swept d) trivial
    (fun _ _ _ _ _ ha _ => openPhase_swept (hflushed _ ha)) (fun _ _ _ _ _ _ _ _ hw _ => hw.swept _)
    (fun d _ _ _ _ _ hf _ => hf.swept d) fun _ _ _ => trivial).2

/-- A store that was closed has no unflushed blocks. -/
theorem Clean.closed_clean (hassumed : ∀ d, assumed d → CollisionFreeNow env d)
    (h : Clean env prior assumed d so) :
    ∀ s, so = some s → s.closed = true → s.dirty = false := by
  induction h with
  | formatted => exact fun s hs => (by cases hs)
  | opened h ha hw hcodecs hrandom hrec he ih =>
    intro s hs hclosed
    cases hs
    obtain ⟨g, hsize, hr, -⟩ := h.ring hassumed
    rw [(hr.openedLive g (Nat.le_of_eq hsize) hw hcodecs hrandom hrec he).up.opened] at hclosed
    cases hclosed
  | openFailed => exact fun s hs => (by cases hs)
  | @called d d' s t h op r he ih =>
    intro t' ht hclosed
    cases ht
    have hst := (h.attended hassumed s rfl).standing
    have g := (h.ring hassumed).geometry
    cases hst with
    | live hl =>
      have hend := (stops_program g hl op).exec (Item.bytes env) d
      rw [he] at hend
      cases hend with
      | accepted ht _ =>
        rw [ht.up.opened] at hclosed
        cases hclosed
      | closed hop _ =>
        subst hop
        exact Standing.covered (.live hl) (ih s rfl) (show Op.Covers .close from trivial) he
      | refused ht _ _ =>
        rw [ht.up.opened] at hclosed
        cases hclosed
      | faulted ht _ =>
        rw [ht.up.opened] at hclosed
        cases hclosed
    | faulted hf =>
      have hsame : t = s := by
        by_cases hz : ZeroContract op
        · rw [hz.program s] at he
          cases he
          rfl
        · rw [hf.program hz] at he
          cases he
          rfl
      rw [hsame, hf.up.opened] at hclosed
      cases hclosed
    | closed hc =>
      obtain ⟨r', hr'⟩ := closed_program hc op
      rw [hr'] at he
      cases he
      exact ih s rfl hc
  | destroyed => exact fun s hs => (by cases hs)

end

/-! ## An open of the medium -/

section
variable {env : Env} {prior : Image} {d : Disk Item} (hr : RingInv env prior d) (g : Geometry env)
  (hun : Unmarked env prior) (hquiet : QuietFooters env prior)
include hr g hun hquiet

/-- No slot stops an open. -/
theorem RingInv.quietSlot {slot : UInt32} (hs : slot < env.volume.partitionCount) :
    ¬ SlotFails env (d.volatile (Item.bytes env)) slot := by
  cases hh : TFDB.slotHeader env (d.volatile (Item.bytes env)) slot with
  | ok h =>
    rw [slotFails_of_ok hh]
    rintro ⟨e, he, hcode⟩
    exact hr.footer_quiet hquiet hs h (slotHeader_slot hh) he hcode
  | error e =>
    rw [slotFails_of_error hh]
    rintro ⟨hcode, hmarked⟩
    by_cases hused : ∀ q ∈ ringOf d.issued, q.header.slot ≠ slot
    · rw [hr.slotEvidence_unused g hs hused, hun slot hs] at hmarked
      cases hmarked
    · push Not at hused
      obtain ⟨q, hq, rfl⟩ := hused
      unfold TFDB.slotHeader at hh
      rw [(hr.media q hq).window] at hh
      rw [(hr.sound q hq).made.accepts g hh] at hcode
      cases hcode

end

/-! ## What two catalogs of one medium show -/

section
variable {env : Env} {h h' : PartitionHeader} (h1 : h.slot = h'.slot)
  (h2 : h.generation = h'.generation) (h3 : h.options = h'.options)
include h1 h2 h3

theorem scanLoop_congr (limit steps : Nat) (st : ScanState) :
    scanLoop env h limit steps st = scanLoop env h' limit steps st := by
  induction steps generalizing st with
  | zero => rfl
  | succ n ih =>
    unfold scanLoop scanAccepts
    rw [h1, h2, h3]
    simp only [ih]

/-- A scan does not look at the features. -/
theorem scanPartition_congr (limit : Nat) : scanPartition env h limit = scanPartition env h' limit := by
  unfold scanPartition
  simp only [scanLoop_congr h1 h2 h3]

end

section
variable {env : Env} {m : Image} {p p' : PartitionState} (h1 : p.header.slot = p'.header.slot)
  (h2 : p.header.generation = p'.header.generation) (h3 : p.header.options = p'.header.options)
include h1 h2 h3

/-- The index of a sealed partition is read from the medium. -/
theorem acquireIndex_sealed (hs : p.isSealed = true) (hs' : p'.isSealed = true)
    (hf : p.footer = p'.footer) : acquireIndex env p = acquireIndex env p' := by
  unfold acquireIndex loadIndex rescanAfter
  rw [if_pos hs, if_pos hs', hs, hs', hf, h1, scanPartition_congr h1 h2 h3]

theorem blockOutcome_congr (e : IndexEntry) : blockOutcome env m p e = blockOutcome env m p' e := by
  unfold blockOutcome blockHeaderAt payloadAt identityAgrees metadataAgrees blockMetadata
  rw [h1, h2, h3]

theorem entryEvent_congr (e : IndexEntry) : entryEvent env m p e = entryEvent env m p' e := by
  unfold entryEvent blockGap gapEvent
  rw [blockOutcome_congr h1 h2 h3, h1, h2]

/-- Two catalog entries with the same index show the same blocks. -/
theorem partitionEvents_data (hacquired : (acquired env m p).entries = (acquired env m p').entries)
    {q : Query} {ev : BlockEvent} (hev : ev ∈ partitionEvents env m q p) (hdata : ev.kind = .data) :
    ev ∈ partitionEvents env m q p' := by
  have hselects : q.selectsPartition p = q.selectsPartition p' := by
    unfold Query.selectsPartition
    rw [h3]
  unfold partitionEvents at hev ⊢
  rw [← hselects]
  split at hev
  · rcases List.mem_append.mp hev with hev | hev
    · split at hev
      · rw [List.mem_singleton.mp hev] at hdata
        cases hdata
      · cases hev
    · rw [if_pos ‹_›, ← hacquired]
      obtain ⟨e, he, rfl⟩ := List.mem_map.mp hev
      exact List.mem_append_right _ (List.mem_map.mpr ⟨e, he, (entryEvent_congr h1 h2 h3 e).symm⟩)
  · cases hev

end

/-- A scan of partitions that can be read, or whose headers cannot, delivers blocks of the first. -/
theorem queryPartitions_data {env : Env} {m : Image} (g : Geometry env)
    (hm : env.volume.volumeSize.toNat ≤ m.size) (q : Query) (ps : List PartitionState)
    (hps : ∀ p ∈ ps, Readable env m p ∨
      ∃ st, Rd.run (imageSource m) (readPartitionHeader env p.header.slot) = .error st)
    (qs : QueryState) :
    ∀ ev ∈ (ReadProg.run (imageSource m) (queryPartitions env q ps qs)).1.events, ev.kind = .data →
      ev ∈ qs.events ∨ ∃ p ∈ ps, Readable env m p ∧ ev ∈ partitionEvents env m q p := by
  induction ps generalizing qs with
  | nil => exact fun ev hev _ => Or.inl hev
  | cons p ps ih =>
    intro ev hev hdata
    -- the state behind the first partition, and the status if it ends the call
    obtain ⟨qs', r, hrun, hfirst⟩ : ∃ qs' r,
        ReadProg.run (imageSource m) (queryPartition env q p qs) = (qs', r) ∧
        ∀ ev ∈ qs'.events, ev.kind = .data →
          ev ∈ qs.events ∨ Readable env m p ∧ ev ∈ partitionEvents env m q p := by
      rcases hps p (List.mem_cons_self ..) with hr | ⟨st, hst⟩
      · refine ⟨_, _, run_queryPartition g hm q hr qs, fun ev hev _ => ?_⟩
        exact (Query.emitAll_subset q _ qs ev hev).imp_right fun h => ⟨hr, h⟩
      · obtain ⟨evs, r, hrun, hgaps⟩ := run_queryPartition_headerless env (imageSource m) q hst qs
        refine ⟨_, _, hrun, fun ev hev hdata => ?_⟩
        rw [QueryState.deliverAll_events] at hev
        refine Or.inl ((List.mem_append.mp hev).resolve_right fun hgap => ?_)
        have hnot : (ev.kind == .data) = false := hgaps ev hgap
        rw [hdata] at hnot
        cases hnot
    have hhead : ev ∈ qs'.events → ev ∈ qs.events ∨
        ∃ p' ∈ p :: ps, Readable env m p' ∧ ev ∈ partitionEvents env m q p' := fun hin =>
      (hfirst ev hin hdata).imp_right fun h => ⟨p, List.mem_cons_self .., h⟩
    unfold queryPartitions at hev
    rw [ReadProg.run_bind', hrun] at hev
    cases r with
    | some st => exact hhead hev
    | none =>
      rcases ih (fun p' hp' => hps p' (List.mem_cons_of_mem _ hp')) qs' ev hev hdata with hin | hin
      · exact hhead hin
      · obtain ⟨p', hp', hevents⟩ := hin
        exact Or.inr ⟨p', List.mem_cons_of_mem _ hp', hevents⟩

section
variable {env : Env} {prior : Image} {d : Disk Item} (hr : RingInv env prior d) (g : Geometry env)
  (hm : env.volume.volumeSize.toNat ≤ prior.size) (hc : CollisionFreeNow env d)
  {writers : List (UInt64 × UInt64)}
  (hg : Genuine env d.issued writers (d.volatile (Item.bytes env))) (hl : env.Lawful)
include hr g hm hc hg hl

/-- What a live catalog shows of a partition, the catalog of an open shows too. -/
theorem RingInv.shown {q : RingPartition} (hq : q ∈ ringOf d.issued)
    (hv : q.header.options.compressionVersion ≠ 0) {p : PartitionState} (hp : StateOf env q p) :
    Readable env (d.volatile (Item.bytes env)) p ∧
      ∃ p' ∈ catalogOf env (d.volatile (Item.bytes env)), ∀ qy ev,
        ev ∈ partitionEvents env (d.volatile (Item.bytes env)) qy p → ev.kind = .data →
          ev ∈ partitionEvents env (d.volatile (Item.bytes env)) qy p' := by
  have hstate : q.recovered env ∈ slotStates env (d.volatile (Item.bytes env)) := by
    rw [TFDB.mem_slotStates, RingPartition.recovered_header]
    exact ⟨(hr.sound q hq).made.slotOf.lt g, hr.slotState g hm hc hq hv⟩
  obtain ⟨p', hp', hcleared⟩ := mem_catalogOf_of_state hstate
  have hhead : p'.header = q.header.written env := by
    rcases hcleared with rfl | rfl <;> simp
  have h1 : p.header.slot = p'.header.slot := by
    rw [hp.slot, hhead]
    rfl
  have h2 : p.header.generation = p'.header.generation := by
    rw [hp.generation, hhead]
    rfl
  have h3 : p.header.options = p'.header.options := by
    rw [hp.options, hhead]
    rfl
  obtain ⟨hread, -⟩ := hg.readable g hl hp'
  -- both catalog entries have the same index
  have hindex : ∃ a a', Rd.run (imageSource (d.volatile (Item.bytes env))) (acquireIndex env p) =
      .ok a ∧ Rd.run (imageSource (d.volatile (Item.bytes env))) (acquireIndex env p') = .ok a' ∧
      a.entries = a'.entries := by
    cases hs : q.isSealed with
    | true =>
      have hfooter : p'.isSealed = true ∧ p'.footer = q.footer env := by
        have hrecovered : (q.recovered env).cleared = q.recovered env := by
          rw [PartitionState.cleared, if_pos (by rw [q.recovered_isSealed, hs])]
        rw [hrecovered, or_self] at hcleared
        rw [hcleared, RingPartition.recovered, if_pos hs]
        exact ⟨rfl, rfl⟩
      obtain ⟨a, ha⟩ := hread.index
      refine ⟨a, a, ?_, ha, rfl⟩
      rw [acquireIndex_sealed h1 h2 h3 (hp.isSealed.trans hs) hfooter.1
        ((hp.closed hs).trans hfooter.2.symm)]
      exact ha
    | false =>
      have hopen : q.recovered env = openState (q.header.written env) q.frames := by
        rw [RingPartition.recovered, if_neg (by rw [hs]; decide)]
      obtain ⟨fs, st, hfs, -, -, hver⟩ := hg.footerless g hl hstate (by rw [q.recovered_isSealed, hs])
      obtain ⟨a', ha', hentries, -⟩ := hver.acquired g hg.size (TFDB.mem_slotStates.mp hstate).1
        hcleared
      have hsame : chainEntries partitionHeaderRegionSize fs = q.entries := by
        rw [← openState_activeIndex (q.recovered env).header fs, ← hfs, hopen, openState_activeIndex]
        rfl
      refine ⟨{ entries := p.activeIndex }, a', ?_, ha', ?_⟩
      · have hresident : p.activeIndex ≠ [] ∨ p.dataEnd = partitionHeaderRegionSize :=
          (em (p.activeIndex = [])).symm.imp_right
            ((hr.media q hq).fits g (hr.sound q hq) hp hs).empty
        unfold acquireIndex
        rw [if_neg (by rw [hp.isSealed, hs]; decide), if_pos hresident]
        rfl
      · rw [hentries, hsame]
        exact hp.activeIndex hs
  obtain ⟨a, a', ha, ha', hsame⟩ := hindex
  have hentries : (acquired env (d.volatile (Item.bytes env)) p).entries =
      (acquired env (d.volatile (Item.bytes env)) p').entries := by
    rw [acquired_of_run ha, acquired_of_run ha', hsame]
  refine ⟨⟨h1 ▸ hread.slot, ?_, ⟨a, ha⟩, fun e he => ?_⟩, p', hp', fun qy ev hev hdata =>
    partitionEvents_data h1 h2 h3 hentries hev hdata⟩
  · obtain ⟨h, hh, hgen⟩ := hread.header
    exact ⟨h, by rw [h1]; exact hh, hgen.trans h2.symm⟩
  · rw [hentries] at he
    refine ⟨(hread.entries e he).1, fun st hst => (hread.entries e he).2 st ?_⟩
    rw [← blockOutcome_congr h1 h2 h3]
    exact hst

end

/-! ## Behind a checkpoint -/

/-- An open finds a medium on which nothing waits for a flush. -/
def FlushedFirst (env : Env) (d : Disk Item) : Prop := CollisionFreeNow env d ∧ d.pending = []

section
variable {env : Env} {prior : Image} {d d' : Disk Item} {s t : Store}

/-- What a store of a run without faults delivers, a read-only open of its medium delivers. -/
theorem Clean.delivered {assumed : Disk Item → Prop} (hassumed : ∀ d, assumed d → CollisionFreeNow env d)
    (h : Clean env prior assumed d (some t)) (hc : CollisionFreeNow env d) (hl : env.Lawful)
    (hun : Unmarked env prior) (hquiet : QuietFooters env prior) :
    ∃ r, openReadOnly env.codecs (d.volatile (Item.bytes env)) = .ok r ∧
      ∀ ev ∈ (scanBlocks t (d.volatile (Item.bytes env))).1.events, ev.kind = .data →
        ev ∈ (scanBlocks r (d.volatile (Item.bytes env))).1.events := by
  obtain ⟨g, hsize, hr, hstore⟩ := h.ring hassumed
  obtain ⟨writers, hitems⟩ := h.logged hassumed
  obtain ⟨henv, -, hcat, -⟩ := hstore t rfl
  have hm := Nat.le_of_eq hsize
  have hm' : env.volume.volumeSize.toNat ≤ (d.volatile (Item.bytes env)).size := by
    rw [hr.size]
    exact hm
  have hg : Genuine env d.issued writers (d.volatile (Item.bytes env)) := ⟨hm', hitems, hc⟩
  have hvolumes : ∀ off v, (off, Item.volume v) ∈ d.issued → v = env.volume := by
    intro off v hmem
    have hok : v = env.volume ∧ _ := hitems _ hmem
    exact hok.1
  have hvol := hr.readVolumeHeader g hm
  obtain ⟨r, hopen⟩ : ∃ r, openReadOnly env.codecs (d.volatile (Item.bytes env)) = .ok r :=
    recover_isOk (o := { codecs := env.codecs }) g hm' hvol rfl rfl rfl
      (fun slot hs => hr.quietSlot g hun hquiet hs) (generationsOk_issued g hitems hc)
  obtain ⟨rfl, -⟩ := openReadOnly_ok g hm' hvolumes hc hopen
  refine ⟨_, hopen, fun ev hev hdata => ?_⟩
  -- the partitions of the store are those of the ring
  have hstates : List.Forall₂ (StateOf env) (ringOf d.issued) t.partitions := hcat.states
  have hundamaged : t.corruptSlots = [] := hcat.undamaged
  have hparts : ∀ p ∈ sortPartitions t.partitions, Readable env (d.volatile (Item.bytes env)) p ∨
      ∃ st, Rd.run (imageSource (d.volatile (Item.bytes env)))
        (readPartitionHeader env p.header.slot) = .error st := by
    intro p hp
    rw [mem_sortPartitions] at hp
    obtain ⟨q, hq, hstate⟩ := forall₂_mem_right hstates hp
    by_cases hv : q.header.options.compressionVersion = 0
    · exact Or.inr (h.headerless hassumed hp (by rw [hstate.options, hv]))
    · exact Or.inl (hr.shown g hm hc hg hl hq hv hstate).1
  have hscan : scanBlocks t (d.volatile (Item.bytes env)) =
      ReadProg.run (imageSource (d.volatile (Item.bytes env)))
        (queryPartitions env {} (sortPartitions t.partitions) {}) := by
    unfold scanBlocks Store.query
    rw [hundamaged, henv]
    rfl
  rw [hscan] at hev
  rcases queryPartitions_data g hm' {} _ hparts {} ev hev hdata with hin | ⟨p, hp, hread, hevents⟩
  · cases hin
  · rw [mem_sortPartitions] at hp
    obtain ⟨q, hq, hstate⟩ := forall₂_mem_right hstates hp
    have hv : q.header.options.compressionVersion ≠ 0 := by
      intro hzero
      obtain ⟨st, hst⟩ := h.headerless hassumed hp (by rw [hstate.options, hzero])
      obtain ⟨hd, hheader, -⟩ := hread.header
      rw [run_slotHeader g hm' hread.slot, hheader] at hst
      cases hst
    obtain ⟨-, p', hp', hshows⟩ := hr.shown g hm hc hg hl hq hv hstate
    unfold scanBlocks
    rw [hg.answers g hl (fun _ hrange => (by cases hrange)), scan_total.answer,
      QueryState.deliverAll_events, List.nil_append]
    exact List.mem_append_right _ (List.mem_flatMap.mpr
      ⟨p', mem_sortPartitions.mpr hp', hshows {} ev hevents hdata⟩)

/-- **A checkpoint makes everything that is visible durable.**  Where each open finds a flushed
medium: behind a `checkpoint` or `close` that returns `Ok`, a read-only open of what has been flushed
succeeds, and delivers every block that a scan of the store delivers. -/
theorem checkpoint_durable (h : Clean env prior (FlushedFirst env) d (some s)) {op : Op}
    (hop : op.Covers) (he : (op.program s).exec (Item.bytes env) d = ((.ok (), t), d'))
    (hc : CollisionFreeNow env d') (hl : env.Lawful) (hun : Unmarked env prior)
    (hquiet : QuietFooters env prior) :
    ∃ r, openReadOnly env.codecs d'.durable = .ok r ∧
      ∀ ev ∈ (scanBlocks t (d'.volatile (Item.bytes env))).1.events, ev.kind = .data →
        ev ∈ (scanBlocks r d'.durable).1.events := by
  have hassumed (d : Disk Item) (hd : FlushedFirst env d) : CollisionFreeNow env d := hd.1
  have hst := (h.attended hassumed s rfl).standing
  have hclean : t.dirty = false := hst.covered (h.closed_clean hassumed s rfl) hop he
  have hafter : Clean env prior (FlushedFirst env) d' (some t) := h.called op he
  have hpending := hafter.swept hassumed (fun _ hd => hd.2) t rfl hclean
  have hdurable : d'.volatile (Item.bytes env) = d'.durable := by
    rw [Disk.volatile, hpending]
    rfl
  have hdelivered := hafter.delivered hassumed hc hl hun hquiet
  rw [hdurable] at hdelivered ⊢
  exact hdelivered

end

/-! ## Two store objects on the sample volume -/

namespace Sample

theorem swept_opened : Clean env image (FlushedFirst env) created (some opened) := by
  refine @Clean.opened _ _ _ _ _ recovered _
    (Clean.formatted (o := options) formats (by decide) (by decide))
    ⟨formatted_inOrder.collisionFree, rfl⟩ openOptions (.ok (3, 4)) rfl rfl ?_ ?_ exec_open
  · exact fun h => absurd (Except.ok.inj h) (by decide)
  · rw [← recovered_eq]
    exact formatted_blank.recover geometry rfl rfl rfl

/-- The second store object finds a flushed medium, and publishes a block. -/
theorem swept_continued :
    Clean env image (FlushedFirst env) continued (some resumedPublished) := by
  have hsynced : Clean env image (FlushedFirst env) flushedDisk (some synced) :=
    ((swept_opened.called _ exec_append).called _ exec_publish).called _ exec_checkpoint
  have hopened : Clean env image (FlushedFirst env) flushedDisk (some resumed) := by
    refine @Clean.opened _ _ _ _ _ resumed _ hsynced.destroyed
      ⟨flushed_inOrder.collisionFree, rfl⟩ openOptions (.ok (5, 6)) rfl rfl ?_ ?_ exec_resume
    · exact fun h => absurd (Except.ok.inj h) (by decide)
    · exact recover_flushed rfl rfl
  exact (hopened.called _ exec_resumedAppend).called _ exec_resumedPublish

theorem exec_resumedCheckpoint :
    (Op.checkpoint.program resumedPublished).exec (Item.bytes env) continued =
      ((.ok (), Writer.synced true resumedPublished), continued.flush (Item.bytes env)) := rfl

/-- What a scan of a store on the sample volume delivers. -/
theorem scan_clean {d : Disk Item} {s : Store}
    (h : Clean env image (CollisionFreeNow env) d (some s))
    (hv : ∀ q ∈ ringOf d.issued, q.header.options.compressionVersion ≠ 0) :
    (scanBlocks s (d.volatile (Item.bytes env))).1.events = ringEvents env {} (ringOf d.issued) := by
  obtain ⟨g, hsize, hr, hstore⟩ := h.ring fun _ hd => hd
  obtain ⟨henv, -, hcat, -⟩ := hstore s rfl
  have hstates : List.Forall₂ (StateOf env) (ringOf d.issued) s.partitions := hcat.states
  have hundamaged : s.corruptSlots = [] := hcat.undamaged
  have hm : env.volume.volumeSize.toNat ≤ (d.volatile (Item.bytes env)).size := by
    rw [hr.size]
    exact Nat.le_of_eq hsize
  unfold scanBlocks Store.query
  rw [hundamaged, henv, ring_query g hm hr.media hr.sound spanFits lawful hstates hr.order hv
    scan_total fun _ hrange => (by cases hrange), QueryState.deliverAll_events, List.nil_append]

/-- The event of the first block. -/
def firstEvent : BlockEvent :=
  blockEvent env (header 0 1) 4096 ⟨block 0 (0, 0) (3, 4), record, record⟩

/-- What is flushed behind the publication is what the storage held before it. -/
theorem framed_durable : framed.durable = created.volatile (Item.bytes env) := by
  rw [framed, write, Disk.issue_durable, created, Disk.flush_durable, Disk.flush_volatile]

/-- The process ends behind the publication of the first block; a second store object opens the
medium, on which the block waits for a flush. -/
theorem clean_resumed : Clean env image (CollisionFreeNow env) framed (some resumed) := by
  have hpublished : Clean env image (CollisionFreeNow env) framed (some published) :=
    (clean_opened.called _ exec_append).called _ exec_publish
  have hrecover := recover_flushed (o := openOptions) rfl
    (show prepareWriter env openOptions (.ok (5, 6)) = .ok (5, 6) from rfl)
  rw [flushedDisk, Disk.flush_volatile] at hrecover
  refine @Clean.opened _ _ _ _ _ resumed _ hpublished.destroyed framed_inOrder.collisionFree
    openOptions (.ok (5, 6)) rfl rfl ?_ hrecover ?_
  · exact fun h => absurd (Except.ok.inj h) (by decide)
  · rfl

end Sample

/-- Both blocks of the sample volume are durable behind the checkpoint of the second store object. -/
theorem sample_checkpoint_durable :
    ∃ r, openReadOnly Sample.env.codecs (Sample.continued.flush (Item.bytes Sample.env)).durable = .ok r ∧
      ∀ ev ∈ [Sample.firstEvent,
          blockEvent Sample.env (Sample.header 0 1) 4352 ⟨Sample.secondBlock, Sample.record, Sample.record⟩],
        ev ∈ (scanBlocks r (Sample.continued.flush (Item.bytes Sample.env)).durable).1.events := by
  obtain ⟨r, hopen, hall⟩ := checkpoint_durable Sample.swept_continued
    (show Op.Covers .checkpoint from trivial) Sample.exec_resumedCheckpoint
    Sample.continued_inOrder.flush.collisionFree Sample.lawful Sample.unmarked Sample.quietFooters
  refine ⟨r, hopen, fun ev hev => hall ev ?_ ?_⟩
  · rw [Sample.scan_clean (Sample.clean_continued.called _ Sample.exec_resumedCheckpoint) (by decide)]
    exact hev
  · rcases List.mem_pair.mp hev with rfl | rfl <;> rfl

/-- A block that an earlier store object did not flush is delivered, and is not durable behind a
checkpoint that returns `Ok`. -/
theorem restarted_block_not_durable :
    Clean Sample.env Sample.image (CollisionFreeNow Sample.env) Sample.framed (some Sample.resumed) ∧
      (Op.checkpoint.program Sample.resumed).exec (Item.bytes Sample.env) Sample.framed =
        ((.ok (), Sample.resumed), Sample.framed) ∧
      CollisionFreeNow Sample.env Sample.framed ∧
      ∃ ev ∈ (scanBlocks Sample.resumed (Sample.framed.volatile (Item.bytes Sample.env))).1.events,
        ev.kind = .data ∧ ∀ r, openReadOnly Sample.env.codecs Sample.framed.durable = .ok r →
          ev ∉ (scanBlocks r Sample.framed.durable).1.events := by
  refine ⟨Sample.clean_resumed, rfl, Sample.framed_inOrder.collisionFree, Sample.firstEvent, ?_, rfl, ?_⟩
  · rw [Sample.scan_clean Sample.clean_resumed (by decide)]
    exact List.mem_singleton_self _
  · intro r hopen hev
    -- the flushed part is the medium before the block was published
    rw [Sample.framed_durable] at hopen hev
    obtain ⟨g, hsize, hr, -⟩ := Sample.clean_opened.ring fun _ hd => hd
    have hm := Nat.le_of_eq hsize
    have hc := Sample.created_inOrder.collisionFree
    have hv : ∀ q ∈ ringOf Sample.created.issued, q.header.options.compressionVersion ≠ 0 := by decide
    have hrun := hr.recovers (o := { codecs := Sample.env.codecs }) g hm hc hv Sample.spanFits
      Sample.lawful Sample.unmarked Sample.quietFooters rfl
      (show prepareWriter Sample.env { codecs := Sample.env.codecs } (.ok (0, 0)) = .ok (0, 0) from rfl)
    obtain rfl := Except.ok.inj (hopen.symm.trans hrun)
    unfold scanBlocks at hev
    rw [hr.openedQuery g hm hc hv Sample.spanFits Sample.lawful Sample.unmarked Sample.quietFooters _ _
      scan_total fun _ hrange => (by cases hrange)] at hev
    have hnone : ringEvents Sample.env {} (ringOf Sample.created.issued) = [] := rfl
    rw [hnone] at hev
    cases hev

end TFDB

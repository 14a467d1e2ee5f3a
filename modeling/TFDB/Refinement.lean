import TFDB.Isolation
import TFDB.Deliver
import TFDB.Metadata
import TFDB.Ledger
import TFDB.Lib.BlockRing
import TFDB.Lib.Observe

/-!
# The store refines a ring of blocks

An observer of a run keeps a `BlockRing` of the accepted records: a frame that is written is a
published block, a header begins a generation.

* `Recorded` — the runs without faults, with what the observer has seen;
* `Mirrors` — the ring of the observer has the blocks of the log, record for record;
* `Recorded.observes` — it does so throughout every run;
* `ring_refined` — in a run of one store the ring has exactly the accepted records, and a scan shows
  what is left of the newest generations.
-/

set_option autoImplicit false

namespace TFDB

open ByteLib Writer

abbrev RecordRing : Type := BlockRing AcceptedRecord

/-- What a write means for the records. -/
def RecordRing.wrote (R : RecordRing) : Item → RecordRing
  | .frame .. => R.publish
  | .header _ => R.rotate
  | _ => R

/-- The records a call has accepted. -/
def Op.accepts (op : Op) : Except Status Unit → List AcceptedRecord
  | .ok () => op.submits.toList
  | .error _ => []

/-! ## Observed runs -/

section
variable (env : Env) (prior : Image) (assumed : Disk Item → Prop) (calls : Store → Op → Prop)

/-- The runs without faults, as in `Clean`, with the ring of the observer; `calls` are the calls the
client makes. -/
inductive Recorded : RecordRing → Disk Item → Option Store → Prop
  | formatted {o : VolumeOptions} {random : Except Status (UInt64 × UInt64)}
      (hformat : formatHeader prior.size o random = .ok env.volume)
      (hid : env.volume.volumeIdHigh ≠ 0 ∨ env.volume.volumeIdLow ≠ 0) (hsize : prior.size < 2 ^ 64) :
      Recorded {} ((formatProgram env.volume).exec (Item.bytes env) { durable := prior }).2 none
  | opened {R : RecordRing} {d d' : Disk Item} {s t : Store} (h : Recorded R d none) (ha : assumed d)
      {o : OpenOptions} {random : Except Status (UInt64 × UInt64)} (hw : o.writable = true)
      (hcodecs : o.codecs = env.codecs) (hrandom : random ≠ .ok (0, 0))
      (hr : Rd.run (imageSource (d.volatile (Item.bytes env)))
        (recover (d.volatile (Item.bytes env)).size o random) = .ok s)
      (he : (startWriter s).exec (Item.bytes env) d = ((.ok (), t), d')) :
      Recorded ((startWriter s).observe RecordRing.wrote R) d' (some t)
  | openFailed {R : RecordRing} {d d' : Disk Item} {s t : Store} (h : Recorded R d none)
      (ha : assumed d) {o : OpenOptions} {random : Except Status (UInt64 × UInt64)}
      (hw : o.writable = true) (hcodecs : o.codecs = env.codecs) (hrandom : random ≠ .ok (0, 0))
      (hr : Rd.run (imageSource (d.volatile (Item.bytes env)))
        (recover (d.volatile (Item.bytes env)).size o random) = .ok s) {st : Status}
      (he : (startWriter s).exec (Item.bytes env) d = ((.error st, t), d')) :
      Recorded ((startWriter s).observe RecordRing.wrote R) d' none
  | called {R : RecordRing} {d d' : Disk Item} {s t : Store} (h : Recorded R d (some s)) (op : Op)
      (hop : calls s op) {r : Except Status Unit} (he : (op.program s).exec (Item.bytes env) d = ((r, t), d')) :
      Recorded (((op.program s).observe RecordRing.wrote R).accept (op.accepts r)) d' (some t)
  | destroyed {R : RecordRing} {d : Disk Item} {s : Store} (h : Recorded R d (some s)) :
      Recorded R.discard d none

end

section
variable {env : Env} {prior : Image} {assumed : Disk Item → Prop} {calls : Store → Op → Prop}
  {R : RecordRing} {d : Disk Item}

theorem Recorded.clean {so : Option Store} (h : Recorded env prior assumed calls R d so) :
    Clean env prior assumed d so := by
  induction h with
  | formatted hformat hid hsize => exact .formatted hformat hid hsize
  | opened h ha hw hcodecs hrandom hr he ih => exact ih.opened ha hw hcodecs hrandom hr he
  | openFailed h ha hw hcodecs hrandom hr he ih => exact ih.openFailed ha hw hcodecs hrandom hr he
  | called h op hop he ih => exact ih.called op he
  | destroyed h ih => exact ih.destroyed

end

/-! ## The ring of the observer -/

/-- The block holds these records, and its metadata are theirs. -/
structure BlockOf (o : PartitionOptions) (rs : List AcceptedRecord) (k : RingBlock) : Prop where
  raw : k.raw = rs.flatMap AcceptedRecord.record
  count : k.header.recordCount.toNat = rs.length
  times : Spans (rs.map AcceptedRecord.time) (rs.map AcceptedRecord.time) k.header.minTimeNs
    k.header.maxTimeNs
  contracts : ∀ r ∈ rs, contractHolds o r.expected = true

/-- The partition holds these blocks. -/
def GenerationOf (gen : List (List AcceptedRecord)) (q : RingPartition) : Prop :=
  List.Forall₂ (BlockOf q.header.options) gen q.blocks

/-- A block that fits. -/
def FitsBlock (env : Env) (rs : List AcceptedRecord) : Prop :=
  (rs.flatMap AcceptedRecord.record).length ≤ env.maxBlockPayload

/-- The ring has the blocks of the log, and is one that can be reached. -/
structure OnRecord (env : Env) (issued : List (Nat × Item)) (R : RecordRing) : Prop where
  blocks : List.Forall₂ GenerationOf R.generations (historyOf issued)
  run : ∃ rs, BlockRing.Run (FitsBlock env) R rs

/-- The ring has the blocks of the log, and the records that are pending. -/
structure Mirrors (env : Env) (issued : List (Nat × Item)) (S : Session) (J : Journal)
    (R : RecordRing) : Prop extends OnRecord env issued R where
  builder : R.builder = S.pending
  journal : J.pending = S.pending
  options : ∀ o, S.options = some o →
    (historyOf issued).getLast?.map (fun q => q.header.options) = some o

section
variable {env : Env} {issued : List (Nat × Item)} {S : Session} {J : Journal} {R : RecordRing}

theorem forall₂_concat {α β : Type} {P : α → β → Prop} {xs : List α} {ys : List β} {x : α} {y : β}
    (h : List.Forall₂ P xs ys) (hxy : P x y) : List.Forall₂ P (xs ++ [x]) (ys ++ [y]) :=
  List.rel_append h (.cons hxy .nil)

/-- **A frame is a published block.** -/
theorem Mirrors.frame (h : Mirrors env issued S J R) {off : Nat} {b : BlockHeader}
    {payload raw : Bytes} (hs : WellPacked S (.frame b payload raw))
    (hj : Permits J (.frame b payload raw)) (hle : raw.length ≤ env.maxBlockPayload) :
    Mirrors env (issued ++ [(off, .frame b payload raw)]) (S.wrote off (.frame b payload raw))
      (J.wrote off (.frame b payload raw)) (R.wrote (.frame b payload raw)) := by
  obtain ⟨hne, hraw, -, o, ho, hcontract⟩ := hs
  obtain ⟨hdescr, -⟩ := hj
  have hlast := h.options o ho
  obtain ⟨older, q, hqs⟩ : ∃ older q, historyOf issued = older ++ [q] := by
    rcases List.eq_nil_or_concat (historyOf issued) with hnil | ⟨older, q, hqs⟩
    · rw [hnil] at hlast
      cases hlast
    · exact ⟨older, q, by rw [hqs, List.concat_eq_append]⟩
  have hq : q.header.options = o := by
    rw [hqs, List.getLast?_concat] at hlast
    exact Option.some.inj hlast
  have hblocks := h.blocks
  rw [hqs] at hblocks
  obtain ⟨older', gen, hgens, holder, hgen⟩ := forall₂_snoc_inv hblocks.flip
  have hnew : BlockOf q.header.options R.builder ⟨b, payload, raw⟩ := by
    rw [h.builder]
    refine ⟨hraw, ?_, ?_, ?_⟩
    · rw [← h.journal]
      exact hdescr.count
    · rw [← h.journal]
      exact hdescr.times
    · rw [hq]
      exact hcontract
  have hhistory : historyOf (issued ++ [(off, .frame b payload raw)]) =
      older ++ [q.addBlock ⟨b, payload, raw⟩] := by
    rw [historyOf_snoc, hqs]
    exact amendLast_append _ _ _
  have hpublish : R.publish.generations = older' ++ [gen ++ [R.builder]] := by
    simp [BlockRing.publish, hgens, List.modifyLast_concat]
  refine { blocks := ?_, run := ?_, builder := rfl, journal := ?_, options := ?_ }
  · show List.Forall₂ GenerationOf R.publish.generations _
    rw [hhistory, hpublish]
    exact forall₂_concat holder.flip (forall₂_concat hgen hnew)
  · obtain ⟨rs, hrun⟩ := h.run
    refine ⟨rs, hrun.publish ?_ ?_ ?_⟩
    · rw [hgens]
      simp
    · rw [h.builder]
      exact hne
    · unfold FitsBlock
      rw [h.builder, ← hraw]
      exact hle
  · exact Journal.pending_block J off b raw
  · intro o' ho'
    rw [hhistory, List.getLast?_concat]
    have : S.options = some o' := ho'
    rw [this] at ho
    rw [Option.some.inj ho, ← hq]
    rfl

/-- A header begins a generation. -/
theorem Mirrors.header (h : Mirrors env issued S J R) {off : Nat} {hd : PartitionHeader}
    (hs : WellPacked S (.header hd)) :
    Mirrors env (issued ++ [(off, .header hd)]) (S.wrote off (.header hd)) (J.wrote off (.header hd))
      (R.wrote (.header hd)) := by
  have hhistory : historyOf (issued ++ [(off, .header hd)]) = historyOf issued ++ [{ header := hd }] :=
    historyOf_snoc issued _
  have hempty : R.builder = [] := h.builder.trans hs
  refine { blocks := ?_, run := ?_, builder := h.builder, journal := ?_, options := ?_ }
  · rw [hhistory]
    exact forall₂_concat h.blocks .nil
  · obtain ⟨rs, hrun⟩ := h.run
    exact ⟨rs, hrun.rotate hempty⟩
  · exact (Journal.pending_partition J _).trans h.journal
  · intro o ho
    rw [hhistory, List.getLast?_concat]
    exact ho

/-- Nothing else changes the records. -/
theorem Mirrors.footer (h : Mirrors env issued S J R) {off : Nat} {f : PartitionFooter}
    {es : List IndexEntry} :
    Mirrors env (issued ++ [(off, .footer f es)]) (S.wrote off (.footer f es))
      (J.wrote off (.footer f es)) (R.wrote (.footer f es)) := by
  have hhistory : historyOf (issued ++ [(off, .footer f es)]) =
      amendLast RingPartition.close (historyOf issued) := historyOf_snoc issued _
  have hblocks := h.blocks
  have hoptions := h.options
  refine
    { blocks := ?_, run := h.run, builder := h.builder
      journal := (Journal.pending_footer J f).trans h.journal, options := fun o ho => ?_ }
  all_goals
    rw [hhistory]
    rcases List.eq_nil_or_concat (historyOf issued) with hnil | ⟨older, q, hqs⟩
  · rw [hnil] at hblocks ⊢
    exact hblocks
  · rw [List.concat_eq_append] at hqs
    rw [hqs] at hblocks ⊢
    rw [amendLast_append]
    obtain ⟨older', gen, hgens, holder, hgen⟩ := forall₂_snoc_inv hblocks.flip
    show List.Forall₂ GenerationOf R.generations _
    rw [hgens]
    exact forall₂_concat holder.flip hgen
  · have hlast := hoptions o ho
    rw [hnil] at hlast ⊢
    exact hlast
  · have hlast := hoptions o ho
    rw [List.concat_eq_append] at hqs
    rw [hqs, List.getLast?_concat] at hlast
    rw [hqs, amendLast_append, List.getLast?_concat]
    exact hlast

theorem Mirrors.index (h : Mirrors env issued S J R) {off : Nat} {es : List IndexEntry} :
    Mirrors env (issued ++ [(off, .index es)]) (S.wrote off (.index es)) (J.wrote off (.index es))
      (R.wrote (.index es)) := by
  have hhistory : historyOf (issued ++ [(off, .index es)]) = historyOf issued :=
    historyOf_snoc issued _
  refine
    { blocks := ?_, run := h.run, builder := h.builder, journal := h.journal, options := ?_ }
  · rw [hhistory]
    exact h.blocks
  · rw [hhistory]
    exact h.options

/-- **One write of the protocol.** -/
theorem Mirrors.write (h : Mirrors env issued S J R) {φ φ' : Phase} {off : Nat} {i : Item}
    (hw : Phase.Write env φ off i φ') (hs : WellPacked S i) (hj : Permits J i) :
    Mirrors env (issued ++ [(off, i)]) (S.wrote off i) (J.wrote off i) (R.wrote i) := by
  cases hw with
  | frame hp hopen hf => exact h.frame hs hj hf.raw_le
  | index => exact h.index
  | footer => exact h.footer
  | emptyFooter => exact h.footer
  | header => exact h.header hs

/-- No write loses, repeats or moves a record. -/
theorem Mirrors.write_records (h : Mirrors env issued S J R) {i : Item} (hs : WellPacked S i) :
    (R.wrote i).records = R.records := by
  cases i with
  | frame b payload raw =>
    obtain ⟨-, -, -, o, ho, -⟩ := hs
    refine BlockRing.publish_records fun hnil => ?_
    have hlast := h.options o ho
    have hblocks := h.blocks
    rw [hnil] at hblocks
    rw [List.forall₂_nil_left_iff.mp hblocks] at hlast
    cases hlast
  | header hd => exact BlockRing.rotate_records
  | volume v => rfl
  | index es => rfl
  | footer f es => rfl

/-- The records a call accepts are pending. -/
theorem Mirrors.returned (h : Mirrors env issued S J R) (op : Op) (r : Except Status Unit) :
    Mirrors env issued (S.returned op r) (noteResult Journal.note J op r) (R.accept (op.accepts r)) := by
  obtain ⟨rs, hrun⟩ := h.run
  cases r with
  | error st =>
    refine { h with builder := ?_, run := ⟨_, hrun.accept []⟩ }
    exact (List.append_nil _).trans h.builder
  | ok u =>
    refine { h with builder := ?_, run := ⟨_, hrun.accept op.submits.toList⟩, journal := ?_ }
    · exact congrArg (· ++ op.submits.toList) h.builder
    · show (op.submits.elim J (Journal.note J)).pending = S.pending ++ op.submits.toList
      cases op.submits with
      | none => exact h.journal.trans (List.append_nil _).symm
      | some r => exact (Journal.pending_record J r).trans (congrArg (· ++ [r]) h.journal)

end

/-! ## Throughout a run -/

/-- The ring of the observer agrees with the medium, and with the store if there is one. -/
def Observes (env : Env) (d : Disk Item) (R : RecordRing) : Option Store → Prop
  | none => OnRecord env d.issued R ∧ R.builder = []
  | some s => ∃ S J, Books s S ∧ (s.faulted = false → Settled s J) ∧ Mirrors env d.issued S J R

section
variable {env : Env} {prior : Image} {assumed : Disk Item → Prop} {calls : Store → Op → Prop}
  {R : RecordRing} {d : Disk Item}

/-- The three systems a writer follows, side by side. -/
abbrev observed (env : Env) : Lts Item (Phase × (Session × Journal)) :=
  (protocol env).prod (ledger.prod journaling)

/-- What the writes of an undisturbed program mean for the ring. -/
theorem Mirrors.exec {α : Type} {Q : α → Phase × (Session × Journal) → Prop}
    {p : WriteProg Status Item α} {φ : Phase} {S : Session} {J : Journal}
    (hp : p.Follows (observed env) Q (φ, (S, J))) (h : Mirrors env d.issued S J R) :
    ∃ φ' S' J', Mirrors env (p.exec (Item.bytes env) d).2.issued S' J' (p.observe RecordRing.wrote R) ∧
      (p.observe RecordRing.wrote R).records = R.records ∧
      Q (p.exec (Item.bytes env) d).1 (φ', (S', J')) := by
  obtain ⟨⟨φ', S', J'⟩, ⟨hm, hrecords⟩, hQ⟩ := hp.exec_observed RecordRing.wrote
    (I := fun d x R' => Mirrors env d.issued x.2.1 x.2.2 R' ∧ R'.records = R.records)
    (fun d x off i y R' hstep hm => by
      obtain ⟨hw, ⟨hs, he⟩, hj, hf⟩ := hstep
      rw [he, hf, Disk.issue_issued]
      exact ⟨hm.1.write hw hs hj, (hm.1.write_records hs).trans hm.2⟩)
    (fun d x y R' hstep hm => by
      obtain ⟨-, ⟨-, he⟩, hj⟩ := hstep
      rw [he, show y.2.2 = x.2.2 from hj, Disk.flush_issued]
      exact ⟨{ hm.1 with }, hm.2⟩)
    ⟨h, rfl⟩
  exact ⟨φ', S', J', hm, hrecords, hQ⟩

/-- The store that open has just built has nothing pending. -/
theorem OnRecord.opened (h : OnRecord env d.issued R) (hb : R.builder = []) (g : Geometry env)
    (hr : RingInv env prior d) (hm : env.volume.volumeSize.toNat ≤ prior.size)
    (hc : CollisionFreeNow env d) (hh : History env d)
    (hv : ∀ q ∈ ringOf d.issued, q.header.options.compressionVersion ≠ 0)
    (hgen : GenerationsOk (slotStates env (d.volatile (Item.bytes env)))) (o : OpenOptions)
    (id : UInt64 × UInt64) :
    Mirrors env d.issued (openedStore env (d.volatile (Item.bytes env)) o id).session
      (openedStore env (d.volatile (Item.bytes env)) o id).journal R := by
  have hcount : 0 < env.partitionCount := Nat.lt_of_lt_of_le (by decide) g.count
  have hlast := hr.catalog_getLast? g hm hc hv
  rw [hh.ring, newest_getLast? hcount] at hlast
  have hactive := @openedStore_active env (d.volatile (Item.bytes env)) o id hgen
  generalize openedStore env (d.volatile (Item.bytes env)) o id = s at hactive
  refine { h with builder := hb, journal := s.journal_pending, options := fun opts hopts => ?_ }
  obtain ⟨p, hp, rfl⟩ : ∃ p, s.active = some p ∧ p.header.options = opts := by
    have hs : (s.active.map fun p => p.header.options) = some opts := hopts
    simpa using hs
  rw [hactive p hp] at hlast
  cases hq : (historyOf d.issued).getLast? with
  | none =>
    rw [hq] at hlast
    cases hlast
  | some q =>
    rw [hq] at hlast
    rw [Option.some.inj hlast, RingPartition.recovered_header]
    rfl

/-- A writable open that succeeds keeps the records. -/
theorem Observes.opened (hassumed : ∀ d, assumed d → CollisionFreeNow env d) {d' : Disk Item}
    {s t : Store} (h : Observes env d R none) (hclean : Clean env prior assumed d none)
    (ha : assumed d) {o : OpenOptions} {random : Except Status (UInt64 × UInt64)}
    (hw : o.writable = true) (hcodecs : o.codecs = env.codecs) (hrandom : random ≠ .ok (0, 0))
    (hrec : Rd.run (imageSource (d.volatile (Item.bytes env)))
      (recover (d.volatile (Item.bytes env)).size o random) = .ok s)
    (he : (startWriter s).exec (Item.bytes env) d = ((.ok (), t), d')) :
    Observes env d' ((startWriter s).observe RecordRing.wrote R) (some t) ∧
      ((startWriter s).observe RecordRing.wrote R).records = R.records := by
  obtain ⟨honr, hb⟩ := h
  obtain ⟨g, hsize, hr, -⟩ := hclean.ring hassumed
  have hm := Nat.le_of_eq hsize
  have hc := hassumed _ ha
  obtain ⟨id, hproto⟩ := hr.startWriter_follows g hm hw hcodecs hrandom hrec
  have hvol := hr.readVolumeHeader g hm
  have hm' : env.volume.volumeSize.toNat ≤ (d.volatile (Item.bytes env)).size := by
    rw [hr.size]
    exact hm
  obtain ⟨⟨id', -, rfl⟩, -, hgen⟩ := recover_ok g hm' (fun v hv => by
    rw [hvol] at hv
    exact (Except.ok.inj hv).symm) hcodecs hrec
  have hdam : (slotList env).filter (slotDamaged env (d.volatile (Item.bytes env))) = [] := by
    by_contra hne
    obtain ⟨st, hs⟩ := startWriter_refused (s := openedStore env _ o id') hne
    rw [hs] at he
    cases he
  have hv : ∀ q ∈ ringOf d.issued, q.header.options.compressionVersion ≠ 0 := by
    intro q hq
    have hlt := (hr.sound q hq).made.slotOf.lt g
    exact hr.version g hq
      (Bool.eq_false_iff.mpr (List.filter_eq_nil_iff.mp hdam _ (mem_slotList.mpr hlt)))
  have hmirrors := honr.opened hb g hr hm hc (hclean.history hassumed) hv hgen o id'
  have hfollows := WriteProg.Follows.prod hproto (WriteProg.Follows.prod
    (startWriter_books (openedStore_balanced env (d.volatile (Item.bytes env)) o id'))
    (startWriter_settled g hm' hgen o id'))
  obtain ⟨φ, S, J, hend, hrecords, -, hbooks, hsettled⟩ := hmirrors.exec hfollows
  rw [he] at hend hbooks hsettled
  exact ⟨⟨S, J, hbooks, fun hf => hsettled hf rfl, hend⟩, hrecords⟩

/-- A call keeps the records, and adds those it accepts. -/
theorem Observes.called {d' : Disk Item} {s t : Store} (h : Observes env d R (some s))
    (hring : RingState env prior d (some s)) (op : Op) {r : Except Status Unit}
    (he : (op.program s).exec (Item.bytes env) d = ((r, t), d')) :
    Observes env d' (((op.program s).observe RecordRing.wrote R).accept (op.accepts r)) (some t) ∧
      ((op.program s).observe RecordRing.wrote R).records = R.records := by
  obtain ⟨S, J, hbooks, hsettled, hmirrors⟩ := h
  have hfollows := WriteProg.Follows.prod (hring.program_follows op)
    (WriteProg.Follows.prod (program_books op hbooks)
      (maintained_program maintained_settled hsettled op))
  obtain ⟨φ, S', J', hend, hrecords, -, hbooks', hsettled'⟩ := hmirrors.exec hfollows
  rw [he] at hend hbooks' hsettled'
  exact ⟨⟨_, _, hbooks', hsettled', hend.returned op r⟩, hrecords⟩

/-- **The ring of the observer agrees with the medium throughout every run.** -/
theorem Recorded.observes (hassumed : ∀ d, assumed d → CollisionFreeNow env d) {so : Option Store}
    (h : Recorded env prior assumed calls R d so) : Observes env d R so := by
  induction h with
  | formatted hformat hid hsize => exact ⟨⟨.nil, [], .start⟩, rfl⟩
  | opened h ha hw hcodecs hrandom hrec he ih =>
    exact (ih.opened hassumed h.clean ha hw hcodecs hrandom hrec he).1
  | openFailed h ha hw hcodecs hrandom hrec he ih =>
    obtain ⟨g, hsize, hr, -⟩ := h.clean.ring hassumed
    obtain ⟨st', hs⟩ := startWriter_refused (hr.openRefused g (Nat.le_of_eq hsize) (hassumed _ ha)
      (h.clean.rested hassumed) hw hcodecs hrec he)
    rw [hs] at he ⊢
    cases he
    exact ih
  | called h op hop he ih => exact (ih.called (h.clean.ring hassumed) op he).1
  | destroyed h ih =>
    obtain ⟨S, J, -, -, hmirrors⟩ := ih
    obtain ⟨rs, hrun⟩ := hmirrors.run
    exact ⟨⟨hmirrors.blocks, _, hrun.discard⟩, rfl⟩

end

/-! ## What a scan shows -/

/-- The bytes of a block. -/
def recordBytes (rs : List AcceptedRecord) : Bytes := rs.flatMap AcceptedRecord.record

/-- What the abstract ring says of a block: its generation, its number there, how many records it has
and their bytes. -/
def BlockEvent.view (ev : BlockEvent) : Nat × Nat × Nat × Bytes :=
  (ev.metadata.partitionGeneration.toNat, ev.metadata.blockSequence.toNat,
    ev.metadata.recordCount.toNat, ev.data)

/-- The event shows the block: its place and its bytes, with the metadata of its records. -/
def Shows (env : Env) (ev : BlockEvent) (block : Nat × Nat × List AcceptedRecord) : Prop :=
  ev.view = (block.1, block.2.1, block.2.2.length, recordBytes block.2.2) ∧
    ∃ hd offset k, ev = blockEvent env hd offset k ∧ BlockOf hd.options block.2.2 k

theorem chainEntries_sequence (cursor : Nat) (fs : List (BlockHeader × Bytes)) :
    (chainEntries cursor fs).map (·.sequence) = fs.map fun f => f.1.sequence := by
  induction fs generalizing cursor with
  | nil => rfl
  | cons f fs ih =>
    rw [chainEntries, List.map_cons, ih]
    rfl

section
variable {env : Env} {m : Image} {q : RingPartition}

/-- The blocks of a partition are numbered in order. -/
theorem OnMedia.sequences (h : OnMedia env m q) (hsound : q.Sound env) :
    q.blocks.map (fun k => k.header.sequence.toNat) = List.range q.blocks.length := by
  obtain ⟨st, hchain⟩ := h.chain
  have hnum := hchain.numbered
  unfold Numbered at hnum
  rw [chainEntries_sequence, chainEntries_length] at hnum
  have hlen : q.frames.length = q.blocks.length := List.length_map _
  have hseq : q.blocks.map (fun k => k.header.sequence) =
      (List.range q.blocks.length).map UInt32.ofNat := by
    rw [hlen] at hnum
    simpa [RingPartition.frames, RingBlock.frame, Function.comp_def] using hnum
  have hbound : q.blocks.length < 2 ^ 32 := by
    have hfits := hsound.fits
    have hregion : env.indexRegionSize < 2 ^ 32 := env.volume.indexRegionSize.toNat_lt
    simp only [indexEntryEncodedSize] at hfits
    omega
  have hmap := congrArg (List.map UInt32.toNat) hseq
  rw [List.map_map, List.map_map] at hmap
  refine hmap.trans ((List.map_congr_left fun i hi => ?_).trans (List.map_id _))
  rw [List.mem_range] at hi
  exact toNat_ofNat32 (by omega)

/-- The events of blocks that are numbered from `n` on. -/
theorem blockEvents_shown {hd : PartitionHeader} {gen : List (List AcceptedRecord)}
    {ks : List RingBlock} (hg : List.Forall₂ (BlockOf hd.options) gen ks) (n : Nat) {off : Nat}
    (h : ks.map (fun k => k.header.sequence.toNat) = List.range' n ks.length) :
    List.Forall₂ (Shows env) (blockEvents env hd off ks)
      ((gen.zipIdx n).map fun block => (hd.generation.toNat, block.2, block.1)) := by
  induction hg generalizing n off with
  | nil => exact .nil
  | @cons rs k gen ks hb _ ih =>
    rw [List.map_cons, List.length_cons, List.range'_succ, List.cons.injEq] at h
    refine .cons ⟨?_, hd, off, k, rfl, hb⟩ (ih (n + 1) h.2)
    show (hd.generation.toNat, k.header.sequence.toNat, k.header.recordCount.toNat, k.raw) = _
    rw [h.1, hb.count, hb.raw]
    rfl

/-- The newest partitions show the newest generations, block for block. -/
theorem OnRecord.shown {issued : List (Nat × Item)} {R : RecordRing} (h : OnRecord env issued R)
    (hn : Numbers env (historyOf issued)) (hseq : ∀ q ∈ newest env (historyOf issued),
      q.blocks.map (fun k => k.header.sequence.toNat) = List.range q.blocks.length) :
    List.Forall₂ (Shows env) ((newest env (historyOf issued)).flatMap (RingPartition.events env))
      (BlockRing.numbered env.partitionCount R.generations) := by
  have hpairs : List.Forall₂ (fun q (gen : List (List AcceptedRecord) × Nat) =>
      GenerationOf gen.1 q ∧ q.header.generation.toNat = gen.2) (historyOf issued)
      (R.generations.zipIdx 1) := by
    obtain ⟨hlen, hget⟩ := List.forall₂_iff_get.mp h.blocks
    refine List.forall₂_iff_get.mpr ⟨by rw [List.length_zipIdx, hlen], fun i h1 h2 => ?_⟩
    have h3 : i < R.generations.length := hlen ▸ h1
    have hgen := hget i h3 h1
    have hnum := hn.generations i h1
    simp only [List.get_eq_getElem, List.getElem_zipIdx] at hgen hnum ⊢
    exact ⟨hgen, hnum.trans (Nat.add_comm i 1)⟩
  have hkept := (List.forall₂_and_left _ _).mpr
    ⟨hseq, List.forall₂_drop ((historyOf issued).length - env.partitionCount) hpairs⟩
  unfold BlockRing.numbered
  rw [h.blocks.length_eq]
  refine List.rel_flatMap hkept fun q gen hq => ?_
  obtain ⟨hnums, hgen, he⟩ := hq
  rw [← he]
  exact blockEvents_shown hgen 0 (hnums.trans List.range_eq_range')

end

/-! ## The refinement -/

/-- The store shows the abstract ring: its builder, the generations it keeps, and in a scan their
blocks, in order and with no gap. -/
structure Refines (env : Env) (d : Disk Item) (s : Store) (R : RecordRing) : Prop where
  builder : s.builder = recordBytes R.builder
  catalog : s.partitions.map (fun p => p.header.generation.toNat) =
    BlockRing.generationsKept env.partitionCount R.generations
  scan : ∃ events, scanBlocks s (d.volatile (Item.bytes env)) =
      (({} : QueryState).deliverAll events, {}) ∧
    (∀ ev ∈ events, ev.kind = .data) ∧
    events.map BlockEvent.view = (BlockRing.numbered env.partitionCount R.generations).map
      fun block => (block.1, block.2.1, block.2.2.length, recordBytes block.2.2)

section
variable {env : Env} {prior : Image} {assumed : Disk Item → Prop} {calls : Store → Op → Prop}
  {R : RecordRing} {d : Disk Item}

/-- The events of a ring are data. -/
theorem ringEvents_data {qs : List RingPartition} {ev : BlockEvent}
    (hev : ev ∈ qs.flatMap (RingPartition.events env)) : ev.kind = .data := by
  obtain ⟨q, -, hq⟩ := List.mem_flatMap.mp hev
  obtain ⟨o, k, -, rfl⟩ := mem_blockEvents hq
  rfl

theorem ringEvents_scan (qs : List RingPartition) :
    ringEvents env {} qs = qs.flatMap (RingPartition.events env) :=
  List.filter_eq_self.mpr fun _ _ => rfl

/-- The generations of the newest partitions. -/
theorem newest_generations {qs : List RingPartition} (hn : Numbers env qs) :
    (newest env qs).map (fun q => q.header.generation.toNat) =
      BlockRing.generationsKept env.partitionCount qs := by
  have hall : qs.map (fun q => q.header.generation.toNat) = List.range' 1 qs.length := by
    refine List.ext_getElem (by simp) fun i h1 h2 => ?_
    rw [List.length_map] at h1
    have hgen := hn.generations i h1
    rw [List.get_eq_getElem] at hgen
    rw [List.getElem_map, List.getElem_range', hgen]
    omega
  unfold newest BlockRing.generationsKept
  rw [List.map_drop, hall]

/-- The events of a scan show the blocks of the newest generations. -/
theorem Recorded.shown (hassumed : ∀ d, assumed d → CollisionFreeNow env d) {so : Option Store}
    (h : Recorded env prior assumed calls R d so) : List.Forall₂ (Shows env)
      ((ringOf d.issued).flatMap (RingPartition.events env))
      (BlockRing.numbered env.partitionCount R.generations) := by
  have honr : OnRecord env d.issued R := by
    have hobs := h.observes hassumed
    cases so with
    | none => exact hobs.1
    | some s =>
      obtain ⟨S, J, -, -, hmirrors⟩ := hobs
      exact hmirrors.toOnRecord
  obtain ⟨-, -, hr, -⟩ := h.clean.ring hassumed
  have hhistory := h.clean.history hassumed
  rw [hhistory.ring]
  refine honr.shown hhistory.numbers fun q hq => ?_
  rw [← hhistory.ring] at hq
  exact (hr.media q hq).sequences (hr.sound q hq)

/-- **A live store refines the ring of the observer**, in every run without faults, while no
partition it keeps was created under version 0 of a codec. -/
theorem Recorded.refines (hassumed : ∀ d, assumed d → CollisionFreeNow env d) {s : Store}
    (h : Recorded env prior assumed calls R d (some s)) (hfits : env.SpanFits) (hl : env.Lawful)
    (hv : ∀ q ∈ ringOf d.issued, q.header.options.compressionVersion ≠ 0) : Refines env d s R := by
  obtain ⟨S, J, hbooks, -, hmirrors⟩ := h.observes hassumed
  obtain ⟨g, hsize, hr, hstore⟩ := h.clean.ring hassumed
  obtain ⟨henv, -, hcat, -⟩ := hstore s rfl
  have hhistory := h.clean.history hassumed
  have hm : env.volume.volumeSize.toNat ≤ (d.volatile (Item.bytes env)).size := by
    rw [hr.size]
    exact Nat.le_of_eq hsize
  constructor
  · rw [hbooks.builder, hmirrors.builder]
    rfl
  · have hgens : s.partitions.map (fun p => p.header.generation.toNat) =
        (ringOf d.issued).map fun q => q.header.generation.toNat := by
      have hstates : List.Forall₂ (StateOf env) (ringOf d.issued) s.partitions := hcat.states
      generalize ringOf d.issued = qs at hstates ⊢
      generalize s.partitions = ps at hstates ⊢
      induction hstates with
      | nil => rfl
      | cons hqp _ ih => rw [List.map_cons, List.map_cons, ih, hqp.header]
    rw [hgens, hhistory.ring, newest_generations hhistory.numbers]
    unfold BlockRing.generationsKept
    rw [hmirrors.blocks.length_eq]
  · refine ⟨ringEvents env {} (ringOf d.issued), ?_, ?_, ?_⟩
    · have hclean : s.corruptSlots = [] := hcat.undamaged
      unfold scanBlocks Store.query
      rw [henv, hclean]
      exact ring_query g hm hr.media hr.sound hfits hl hcat.states hr.order hv scan_total
        fun r hr => by cases hr
    · rw [ringEvents_scan]
      exact fun ev hev => ringEvents_data hev
    · rw [ringEvents_scan]
      refine List.forall₂_eq_eq_eq ▸ ?_
      rw [List.forall₂_map_left_iff, List.forall₂_map_right_iff]
      exact (h.shown hassumed).imp fun _ _ hshows => hshows.1

end

/-! ## The run of one store -/

section
variable (env : Env) (prior : Image)

/-- The run of one store, from the format and the first open on, with the records it accepted. -/
inductive Accepting : List AcceptedRecord → Disk Item → Store → Prop
  | opened {o : VolumeOptions} {random : Except Status (UInt64 × UInt64)}
      (hformat : formatHeader prior.size o random = .ok env.volume)
      (hid : env.volume.volumeIdHigh ≠ 0 ∨ env.volume.volumeIdLow ≠ 0) (hsize : prior.size < 2 ^ 64)
      {d d' : Disk Item} (hd : d = ((formatProgram env.volume).exec (Item.bytes env)
        { durable := prior }).2)
      {o : OpenOptions} {random : Except Status (UInt64 × UInt64)} {s t : Store}
      (hw : o.writable = true) (hcodecs : o.codecs = env.codecs) (hrandom : random ≠ .ok (0, 0))
      (hr : Rd.run (imageSource (d.volatile (Item.bytes env)))
        (recover (d.volatile (Item.bytes env)).size o random) = .ok s)
      (he : (startWriter s).exec (Item.bytes env) d = ((.ok (), t), d')) : Accepting [] d' t
  | called {records : List AcceptedRecord} {d d' : Disk Item} {s t : Store}
      (h : Accepting records d s) (op : Op) {r : Except Status Unit}
      (he : (op.program s).exec (Item.bytes env) d = ((r, t), d')) :
      Accepting (records ++ op.accepts r) d' t

end

section
variable {env : Env} {prior : Image} {records : List AcceptedRecord} {d : Disk Item} {s : Store}

/-- The ring of the observer of one store has all records the store accepted. -/
theorem Accepting.recorded (htrace : NoTrace env prior) (h : Accepting env prior records d s) :
    ∃ R, Recorded env prior (CollisionFreeNow env) (fun _ _ => True) R d (some s) ∧
      R.records = records := by
  induction h with
  | opened hformat hid hsize hd hw hcodecs hrandom hr he =>
    subst hd
    obtain ⟨g, -⟩ := formatHeader_geometry hsize hid hformat
    have hstart := @Recorded.formatted env prior (CollisionFreeNow env) (fun _ _ => True) _ _ hformat hid hsize
    have hc := htrace.collisionFree g
    refine ⟨_, hstart.opened hc hw hcodecs hrandom hr he, ?_⟩
    exact ((hstart.observes fun _ hd => hd).opened (fun _ hd => hd) hstart.clean hc hw hcodecs hrandom
      hr he).2
  | @called records d d' s t h op r he ih =>
    obtain ⟨R, hR, hrec⟩ := ih
    have hkept := ((hR.observes fun _ hd => hd).called (hR.clean.ring fun _ hd => hd) op he).2
    refine ⟨_, hR.called op trivial he, ?_⟩
    show _ ++ (_ ++ op.accepts r) = _
    rw [← List.append_assoc]
    exact congrArg (· ++ op.accepts r) (hkept.trans hrec)

/-- **The store refines a ring of blocks.**  In every run of one store on a volume just formatted,
whose storage operations all succeed: the accepted records, in order, are those of an abstract ring
whose blocks have one or more whole records and fit; the store has its builder, keeps its newest
generations, and a scan shows their blocks, and nothing else. -/
theorem ring_refined (h : Accepting env prior records d s) (htrace : NoTrace env prior)
    (hfits : env.SpanFits) (hl : env.Lawful)
    (hv : ∀ q ∈ ringOf d.issued, q.header.options.compressionVersion ≠ 0) :
    ∃ R : RecordRing, BlockRing.Run (FitsBlock env) R records ∧ R.records = records ∧
      (∀ gen ∈ R.generations, ∀ block ∈ gen, block ≠ [] ∧ FitsBlock env block) ∧
      Refines env d s R := by
  obtain ⟨R, hR, hrec⟩ := h.recorded htrace
  obtain ⟨S, J, -, -, hmirrors⟩ := hR.observes fun _ hd => hd
  obtain ⟨rs, hrun⟩ := hmirrors.run
  obtain rfl : rs = records := hrun.records.symm.trans hrec
  exact ⟨R, hrun, hrec, hrun.cut, hR.refines (fun _ hd => hd) hfits hl hv⟩

end

namespace Sample

theorem accepting_opened : Accepting env image [] created opened := by
  refine @Accepting.opened _ _ options _ formats (by decide) (by decide) formatted _ rfl openOptions
    (.ok (3, 4)) recovered _ rfl rfl ?_ ?_ exec_open
  · exact fun h => absurd (Except.ok.inj h) (by decide)
  · rw [← recovered_eq]
    exact formatted_blank.recover geometry rfl rfl rfl

theorem accepting_rotated : Accepting env image [⟨record, 0, 0, none⟩] rotated final :=
  (((accepting_opened.called _ exec_append).called _ exec_publish).called _ exec_checkpoint).called _
    exec_rotate

end Sample

/-- The sample run is the run of a ring with one record. -/
theorem sample_refined : ∃ R : RecordRing, R.records = [⟨Sample.record, 0, 0, none⟩] ∧
    Refines Sample.env Sample.rotated Sample.final R := by
  obtain ⟨R, -, hrec, -, hR⟩ := ring_refined Sample.accepting_rotated
    (NoTrace.blank fun _ => Sample.blank_byte) Sample.spanFits Sample.lawful (by decide)
  exact ⟨R, hrec, hR⟩

/-! ## A codec of version 0 -/

/-- The headers of partitions under version 0 of a codec cannot be read. -/
theorem Clean.headerless {env : Env} {prior : Image} {assumed : Disk Item → Prop} {d : Disk Item}
    {s : Store} (hassumed : ∀ d, assumed d → CollisionFreeNow env d)
    (h : Clean env prior assumed d (some s)) {p : PartitionState} (hp : p ∈ s.partitions)
    (hv : p.header.options.compressionVersion = 0) :
    ∃ st, Rd.run (imageSource (d.volatile (Item.bytes env)))
      (readPartitionHeader env p.header.slot) = .error st := by
  obtain ⟨g, hsize, hr, hstore⟩ := h.ring hassumed
  obtain ⟨-, -, hcat, -⟩ := hstore s rfl
  have hstates : List.Forall₂ (StateOf env) (ringOf d.issued) s.partitions := hcat.states
  obtain ⟨q, hq, hstate⟩ := forall₂_mem_right hstates hp
  have hmade := (hr.sound q hq).made
  have hm : env.volume.volumeSize.toNat ≤ (d.volatile (Item.bytes env)).size := by
    rw [hr.size]
    exact Nat.le_of_eq hsize
  rw [hstate.header] at hv ⊢
  rw [run_slotHeader g hm (hmade.slotOf.lt g)]
  cases hh : slotHeader env (d.volatile (Item.bytes env)) q.header.slot with
  | error st => exact ⟨st, rfl⟩
  | ok h =>
    unfold slotHeader at hh
    rw [(hr.media q hq).window] at hh
    exact absurd hv (hmade.accepted g hh).2.1

namespace Sample

def zeroAppended : Store :=
  (((Op.append record 0 0).program zeroOpened).exec (Item.bytes zeroEnv) zeroCreated).1.2

theorem exec_zeroAppend : ((Op.append record 0 0).program zeroOpened).exec (Item.bytes zeroEnv)
    zeroCreated = ((.ok (), zeroAppended), zeroCreated) := rfl

def zeroPublished : Store :=
  ((Op.publish.program zeroAppended).exec (Item.bytes zeroEnv) zeroCreated).1.2

def zeroFramed : Disk Item :=
  ((Op.publish.program zeroAppended).exec (Item.bytes zeroEnv) zeroCreated).2

theorem exec_zeroPublish : (Op.publish.program zeroAppended).exec (Item.bytes zeroEnv) zeroCreated =
    ((.ok (), zeroPublished), zeroFramed) := rfl

theorem accepting_zero :
    Accepting zeroEnv image [⟨record, 0, 0, none⟩] zeroFramed zeroPublished := by
  have hopened : Accepting zeroEnv image [] zeroCreated zeroOpened := by
    refine @Accepting.opened zeroEnv _ options _ formats (by decide) (by decide) formatted _ rfl
      { writable := true, nextPartition := zeroOptions, codecs := [versionZero] } (.ok (3, 4))
      zeroRecovered _ rfl rfl ?_ ?_ exec_zeroOpen
    · exact fun h => absurd (Except.ok.inj h) (by decide)
    · rw [← zeroRecovered_eq]
      exact formatted_blank_zero.recover zeroGeometry rfl rfl rfl
  exact (hopened.called _ exec_zeroAppend).called _ exec_zeroPublish

theorem zero_noTrace : NoTrace zeroEnv image := NoTrace.blank fun _ => blank_byte

/-- A scan of the store delivers no block. -/
theorem scan_zero : ∀ ev ∈ (scanBlocks zeroPublished (zeroFramed.volatile (Item.bytes zeroEnv))).1.events,
    ev.isData = false := by
  obtain ⟨R, hR, -⟩ := accepting_zero.recorded zero_noTrace
  have hzero : ∀ p ∈ zeroPublished.partitions, p.header.options.compressionVersion = 0 := by decide
  exact query_headerless zeroEnv _ {} _ _ fun p hp =>
    hR.clean.headerless (fun _ hd => hd) hp (hzero p hp)

end Sample

/-- A store that takes a record under version 0 of a codec shows no ring that has the record. -/
theorem version_zero_not_refined :
    Sample.zeroEnv.SpanFits ∧ Sample.zeroEnv.Lawful ∧ NoTrace Sample.zeroEnv Sample.image ∧
      Accepting Sample.zeroEnv Sample.image [⟨Sample.record, 0, 0, none⟩] Sample.zeroFramed
        Sample.zeroPublished ∧
      ∀ R : RecordRing, R.records = [⟨Sample.record, 0, 0, none⟩] →
        ¬ Refines Sample.zeroEnv Sample.zeroFramed Sample.zeroPublished R := by
  refine ⟨Sample.zeroSpanFits, Sample.zeroLawful, Sample.zero_noTrace, Sample.accepting_zero,
    fun R hR h => ?_⟩
  -- the builder is empty, so that the record is in a block of the only generation
  have hbuilder : R.builder = [] := by
    cases hb : R.builder with
    | nil => rfl
    | cons r rs =>
      have hmem : r ∈ R.records := List.mem_append_right _ (hb ▸ List.mem_cons_self ..)
      rw [hR] at hmem
      obtain rfl := List.mem_singleton.mp hmem
      have hempty : ([] : Bytes) = recordBytes R.builder := h.builder
      rw [hb] at hempty
      cases hempty
  have hkept : [1] = BlockRing.generationsKept 2 R.generations := h.catalog
  obtain ⟨events, hscan, hdata, hshown⟩ := h.scan
  have hevents : events = [] := by
    have hgap := Sample.scan_zero
    rw [hscan, QueryState.deliverAll_events, List.nil_append] at hgap
    refine List.eq_nil_iff_forall_not_mem.mpr fun ev hev => ?_
    have hisgap : (ev.kind == .data) = false := hgap ev hev
    rw [hdata ev hev] at hisgap
    cases hisgap
  have hblocks : BlockRing.numbered 2 R.generations = [] := by
    rw [hevents] at hshown
    exact List.map_eq_nil_iff.mp hshown.symm
  have hlength := congrArg List.length hkept
  simp only [BlockRing.generationsKept, List.length_singleton, List.length_drop,
    List.length_range'] at hlength
  obtain ⟨gen, hgen⟩ := List.length_eq_one_iff.mp (show R.generations.length = 1 by omega)
  have hblock : gen = [] := by
    rw [hgen] at hblocks
    have hzip : gen.zipIdx = [] := by simpa [BlockRing.numbered] using hblocks
    exact List.zipIdx_eq_nil_iff.mp hzip
  rw [BlockRing.records, hgen, hblock, hbuilder] at hR
  cases hR

end TFDB

import TFDB.Confine
import TFDB.Async

/-!
# Contracts and the headers on the medium

A record is accepted against the options of the active partition as the store has them in memory.
Here these options are tied to the bytes of the header on the medium, from any image a store was
opened on.

* `HeaderAt` — the bytes at the header position of a slot are this header;
* `Phase.HeaderOn`, `Agrees` — the header of the active partition is on the medium, and the
  session knows its options;
* `tracked_acts` — both hold in every state of a store;
* `contract_safety` — a checked record is only published under a header that meets its contract.
-/

set_option autoImplicit false

namespace TFDB

open ByteLib Writer

/-! ## Headers on the medium -/

/-- The bytes at the header position of its slot are this header: a reader accepts them as it, or
they are what a writer puts there. -/
inductive HeaderAt (env : Env) (m : Image) (h : PartitionHeader) : Prop
  | found (hh : slotHeader env m h.slot = .ok h)
  | written (hn : h = newHeader env h.slot h.generation h.options)
      (ho : env.validatePartitionOptions h.options = .ok ())
      (hw : m.window (env.partitionBase h.slot) partitionHeaderEncodedSize = Item.bytes env (.header h))

/-- The header of the active partition, or of the one being created, is on the medium. -/
def Phase.HeaderOn (env : Env) (m : Image) : Phase → Prop
  | .ready c => ∀ p, c.active = some p → HeaderAt env m p.header
  | .indexed c => ∀ p, c.active = some p → HeaderAt env m p.header
  | .footed c => ∀ p, c.active = some p → HeaderAt env m p.header
  | .headed _ h => HeaderAt env m h
  | _ => True

/-- The session knows the options of the active partition, or of the one being created. -/
def Agrees (S : Session) : Phase → Prop
  | .ready c => S.options = c.active.map fun p => p.header.options
  | .indexed c => S.options = c.active.map fun p => p.header.options
  | .footed c => S.options = c.active.map fun p => p.header.options
  | .headed _ h => S.options = some h.options
  | _ => True

section
variable {env : Env} {m m' : Image} {h : PartitionHeader}

theorem HeaderAt.congr (hh : HeaderAt env m h)
    (hw : m'.window (env.partitionBase h.slot) partitionHeaderEncodedSize =
      m.window (env.partitionBase h.slot) partitionHeaderEncodedSize) : HeaderAt env m' h := by
  cases hh with
  | found hh =>
    refine .found ?_
    unfold slotHeader at hh ⊢
    rw [hw]
    exact hh
  | written hn ho hb => exact .written hn ho (hw.trans hb)

/-- A reader finds the generation and the options of the header, unless its codec has version
zero. -/
theorem HeaderAt.decodes (g : Geometry env) (hh : HeaderAt env m h)
    (hv : h.options.compressionVersion ≠ 0) :
    ∃ h', slotHeader env m h.slot = .ok h' ∧ h'.generation = h.generation ∧
      h'.options = h.options := by
  cases hh with
  | found hh => exact ⟨h, hh, rfl, rfl⟩
  | written hn ho hw =>
    have hok : HeaderOk env h :=
      ⟨by rw [hn]; rfl, by rw [hn]; rfl, by rw [hn]; rfl, by rw [hn]; rfl, ho, hv⟩
    refine ⟨h.written env, ?_, rfl, rfl⟩
    unfold slotHeader
    rw [hw]
    exact acceptPartitionHeader_encode g hok

end

/-! ## Steps -/

section
variable {env : Env} (g : Geometry env) {φ φ' : Phase} {S : Session}

/-- A write behind the header region of a slot keeps every header of that slot. -/
theorem HeaderAt.issue {d : Disk Item} {h : PartitionHeader} {o : Nat} {i : Item}
    (hh : HeaderAt env (d.volatile (Item.bytes env)) h) (ho : partitionHeaderRegionSize ≤ o) (n : Nat) :
    HeaderAt env ((d.issue (env.partitionBase h.slot + o) i n).volatile (Item.bytes env)) h := by
  refine hh.congr (Image.window_congr fun x h1 h2 => Disk.volatile_issue_out _ (Or.inl ?_))
  simp only [partitionHeaderEncodedSize] at h2
  simp only [partitionHeaderRegionSize] at ho
  omega

include g

theorem Phase.Write.headerOn {off : Nat} {i : Item} (h : Phase.Write env φ off i φ')
    (hfit : φ.Fits env) {d : Disk Item} (hon : φ.HeaderOn env (d.volatile (Item.bytes env))) :
    φ'.HeaderOn env ((d.issue off i (i.bytes env).length).volatile (Item.bytes env)) := by
  have hindex : partitionHeaderRegionSize ≤ env.indexBegin := Nat.le_of_lt g.header_lt_indexBegin
  have hfooter : partitionHeaderRegionSize ≤ env.footerOffset := by
    have := g.footerOffset_eq
    omega
  cases h with
  | @frame c p b payload raw hp hs hf =>
    intro q hq
    rw [Cat.active_addFrame, hp] at hq
    rw [← Option.some.inj hq]
    exact HeaderAt.issue (h := p.header) (hon p hp) (Cat.active_fits hfit hp).lower _
  | @index c p hp hs hd hne hlen =>
    intro q hq
    rw [hp] at hq
    cases hq
    exact HeaderAt.issue (hon p hp) hindex _
  | @footer c p hp hs hlen =>
    intro q hq
    rw [hp] at hq
    cases hq
    exact HeaderAt.issue (hon p hp) hfooter _
  | @emptyFooter c p hp hs hd hne =>
    intro q hq
    rw [hp] at hq
    cases hq
    exact HeaderAt.issue (hon p hp) hfooter _
  | @header c slot generation options ho =>
    refine .written rfl ho ?_
    have hl : partitionHeaderEncodedSize =
        (Item.bytes env (.header (newHeader env slot generation options))).length :=
      (Item.bytes_header_length env _).symm
    rw [hl]
    exact Disk.volatile_issue_whole _ d _ (Nat.le_refl _)

omit g in
theorem Phase.Flush.headerOn (h : Phase.Flush env φ φ') {m : Image} (hon : φ.HeaderOn env m) :
    φ'.HeaderOn env m := by
  cases h with
  | sync => exact hon
  | sealed hp hs hg => trivial
  | @install c hd =>
    intro q hq
    rw [Cat.active_install] at hq
    rw [← Option.some.inj hq]
    exact hon

omit g in
theorem Phase.Write.agrees {off : Nat} {i : Item} (h : Phase.Write env φ off i φ')
    (ha : Agrees S φ) : Agrees (S.wrote off i) φ' := by
  cases h with
  | @frame c p b payload raw hp hs hf =>
    show S.options = _
    rw [Cat.active_addFrame, Option.map_map]
    exact ha
  | index hp hs hd hne hlen => exact ha
  | footer hp hs hlen => exact ha
  | emptyFooter hp hs hd hne => exact ha
  | header ho => exact rfl

omit g in
theorem Phase.Flush.agrees (h : Phase.Flush env φ φ') (ha : Agrees S φ) :
    Agrees S.flushed φ' := by
  cases h with
  | sync => exact ha
  | sealed hp hs hg => trivial
  | @install c hd =>
    show S.options = _
    rw [Cat.active_install]
    exact ha

/-- What a store is doing, what is on the medium and what the session knows. -/
structure InAgreement (env : Env) (x : Sys) (S : Session) (φ : Phase) : Prop extends Acts env x φ where
  headerOn : φ.HeaderOn env (x.disk.volatile (Item.bytes env))
  agrees : Agrees S φ

omit g in
theorem Observed.inAgreement {α : Type} {Q : α → Phase → Prop} {d d' : Disk Item} {S' : Session}
    {k k' : WriteProg Status Item α} (h : Observed env d S k d' k' S') (g : Geometry env)
    (hk : k.Follows (protocol env) Q φ) (hfit : φ.Fits env)
    (hon : φ.HeaderOn env (d.volatile (Item.bytes env))) (ha : Agrees S φ) :
    ∃ φ', k'.Follows (protocol env) Q φ' ∧ φ'.Fits env ∧
      φ'.HeaderOn env (d'.volatile (Item.bytes env)) ∧ Agrees S' φ' ∧
      d'.durable.size = d.durable.size := by
  cases h with
  | write off i k =>
    obtain ⟨⟨φ', hw, hk⟩, -⟩ := hk
    exact ⟨φ', hk, hw.fits g hfit, hw.headerOn g hfit hon, hw.agrees ha, rfl⟩
  | writeFails off i k n st => exact ⟨.halted, hk.2 st, trivial, trivial, trivial, rfl⟩
  | flush k =>
    obtain ⟨⟨φ', hw, hk⟩, -⟩ := hk
    exact ⟨φ', hk, hw.fits g hfit, hw.headerOn hon, hw.agrees ha, Disk.volatile_size ..⟩
  | flushFails k st => exact ⟨.halted, hk.2 st, trivial, trivial, trivial, rfl⟩

end

theorem openPhase_headerOn {env : Env} {m : Image} (hgen : GenerationsOk (slotStates env m))
    (id : UInt64 × UInt64) (o : OpenOptions) :
    (openPhase env m id).HeaderOn env m ∧ Agrees (openedStore env m o id).session (openPhase env m id) := by
  unfold openPhase
  split
  · exact ⟨trivial, trivial⟩
  · split
    · exact ⟨trivial, trivial⟩
    · rename_i p hp
      split
      · split
        · exact ⟨trivial, trivial⟩
        · exact ⟨trivial, trivial⟩
      · refine ⟨fun q hq => ?_, rfl⟩
        rw [openedCat_active id hgen hp] at hq
        cases hq
        obtain ⟨r, hr, he⟩ := catalogOf_mem (List.mem_of_getLast? hp)
        have hh : p.header = r.header := by
          rcases he with rfl | rfl
          · rfl
          · simp
        obtain ⟨slot, hslot, hst⟩ := List.mem_filterMap.mp hr
        have hok := slotState_header hst
        refine .found ?_
        rw [hh, slotHeader_slot hok]
        exact hok

/-- In every state of a store the header of its active partition is on the medium, and the session
knows its options. -/
theorem tracked_acts {env : Env} {x : Sys} {S : Session} (h : Tracked env x S) :
    ∃ φ, InAgreement env x S φ := by
  induction h with
  | @opening x s o random hw hrandom he hrec hp =>
    obtain ⟨-, g, hsize, ⟨id, hprep, hs⟩, hnf, hgen, -⟩ := recover_inv hrec
    rw [he] at g hsize hs hprep hgen
    have hid := prepareWriter_nonzero hw hrandom hprep
    refine ⟨openPhase env (x.disk.volatile (Item.bytes env)) id, ⟨g, ?_, ?_, ?_⟩, ?_, ?_⟩
    · exact Nat.le_trans hsize (Nat.le_of_eq (Disk.volatile_size ..))
    · rw [hp, hs]
      exact startWriter_follows hid (prepareWriter_ok hw hprep) hgen
    · exact openPhase_fits g hsize id
    · exact (openPhase_headerOn hgen id o).1
    · rw [hs]
      exact (openPhase_headerOn hgen id o).2
  | @step x y S S' hx h ih =>
    obtain ⟨φ, ⟨g, hsize, hc, hfit⟩, hon, ha⟩ := ih
    cases h with
    | openEffect _ _ hp h =>
      rw [hp] at hc
      obtain ⟨φ', hk, hfit', hon', ha', hd⟩ := h.inAgreement g hc hfit hon ha
      exact ⟨φ', ⟨g, by rw [hd]; exact hsize, hk, hfit'⟩, hon', ha'⟩
    | opened _ _ hp =>
      rw [hp] at hc
      exact ⟨φ, ⟨g, hsize, hc rfl, hfit⟩, hon, ha⟩
    | call _ _ op hp =>
      rw [hp] at hc
      exact ⟨φ, ⟨g, hsize, program_follows op hc, hfit⟩, hon, ha⟩
    | effect _ _ hp h =>
      rw [hp] at hc
      obtain ⟨φ', hk, hfit', hon', ha', hd⟩ := h.inAgreement g hc hfit hon ha
      exact ⟨φ', ⟨g, by rw [hd]; exact hsize, hk, hfit'⟩, hon', ha'⟩
    | @returned _ _ op r s hp =>
      rw [hp] at hc
      refine ⟨φ, ⟨g, hsize, hc, hfit⟩, hon, ?_⟩
      cases r with
      | error st => exact ha
      | ok u => cases φ <;> exact ha

/-! ## Published blocks -/

/-- The options have the record format and the time domain of the contract. -/
def Meets (o : PartitionOptions) (c : AppendContract) : Prop :=
  o.recordFormatId = c.recordFormatId ∧ o.recordFormatVersion = c.recordFormatVersion ∧
    o.timeDomainId = c.timeDomainId

theorem contractHolds_some {o : PartitionOptions} {c : AppendContract} :
    contractHolds o (some c) = true ↔ Meets o c := by
  simp [contractHolds, Meets, and_assoc]

/-- The header of the block's partition is on the medium, with the options the block has. -/
def UnderHeader (env : Env) (block : PublishedBlock) (m : Image) : Prop :=
  ∃ h, HeaderAt env m h ∧ h.slot = block.header.slot ∧ h.generation = block.header.generation ∧
    h.options = block.options

section
variable {env : Env}

/-- A storage operation publishes at most one block, by writing its frame as a whole. -/
theorem Observed.publishes {α : Type} {d d' : Disk Item} {S S' : Session}
    {k k' : WriteProg Status Item α} (h : Observed env d S k d' k' S') :
    S'.blocks = S.blocks ∨ ∃ off b payload raw next, k = .write off (.frame b payload raw) next ∧
      d' = d.issue off (.frame b payload raw) (Item.bytes env (.frame b payload raw)).length ∧
      S' = S.wrote off (.frame b payload raw) := by
  cases h with
  | write off i k =>
    cases i with
    | frame b payload raw => exact Or.inr ⟨off, b, payload, raw, k, rfl, rfl, rfl⟩
    | _ => exact Or.inl rfl
  | _ => exact Or.inl rfl

/-- The block that is published stands under the header of its partition. -/
theorem InAgreement.publishes {α : Type} {Q : α → Phase → Prop} {x : Sys} {S : Session} {φ : Phase}
    (h : InAgreement env x S φ) {off : Nat} {b : BlockHeader} {payload raw : Bytes}
    {next : Except Status Unit → WriteProg Status Item α}
    (hk : (WriteProg.write off (.frame b payload raw) next).Follows (protocol env) Q φ) :
    ∀ block ∈ (S.wrote off (.frame b payload raw)).blocks, block ∈ S.blocks ∨
      UnderHeader env block ((x.disk.issue off (.frame b payload raw)
        (Item.bytes env (.frame b payload raw)).length).volatile (Item.bytes env)) := by
  obtain ⟨⟨φ', hw, -⟩, -⟩ := hk
  have hon := hw.headerOn h.geometry h.fits h.headerOn
  have ha := h.agrees
  intro block hb
  rcases List.mem_append.mp hb with hb | hb
  · exact Or.inl hb
  · right
    rw [List.mem_singleton.mp hb]
    cases hw with
    | @frame c p _ _ _ hp hs hf =>
      have hopt : S.options = some p.header.options := by
        have : S.options = c.active.map fun p => p.header.options := ha
        rw [this, hp]
        rfl
      refine ⟨p.header, ?_, hf.slot.symm, hf.generation.symm, ?_⟩
      · have hact : (c.addFrame b).active = some (addBlock p b
            (blockHeaderEncodedSize + b.storedSize.toNat) b.frameSpan.toNat) := by
          rw [Cat.active_addFrame, hp]
          rfl
        have hq := hon _ hact
        exact hq
      · rw [hopt]
        rfl

/-- Every block of a session was published under the header of its partition. -/
theorem tracked_published {x : Sys} {S : Session} (h : Tracked env x S) :
    ∀ block ∈ S.blocks, ∃ y T, Later env (y, T) (x, S) ∧ block ∈ T.blocks ∧
      UnderHeader env block (y.disk.volatile (Item.bytes env)) := by
  induction h with
  | opening x hw hrandom he hrec hp => exact fun block hb => by cases hb
  | @step x y S S' hx h ih =>
    intro block hb
    -- an old block has its state already; a new one has this state
    have hold (hb : block ∈ S.blocks) : ∃ z T, Later env (z, T) (y, S') ∧ block ∈ T.blocks ∧
        UnderHeader env block (z.disk.volatile (Item.bytes env)) := by
      obtain ⟨z, T, hz, hb, hu⟩ := ih block hb
      exact ⟨z, T, hz.tail h, hb, hu⟩
    obtain ⟨φ, hφ⟩ := tracked_acts hx
    have hc := hφ.conforms
    have hstep := h
    cases h with
    | openEffect _ _ hp h =>
      rw [hp] at hc
      rcases h.publishes with hsame | ⟨off, b, payload, raw, next, rfl, rfl, rfl⟩
      · exact hold (hsame ▸ hb)
      · rcases hφ.publishes hc block hb with hb' | hu
        · exact hold hb'
        · exact ⟨_, _, .refl, hb, hu⟩
    | opened _ _ hp => exact hold hb
    | call _ _ op hp => exact hold hb
    | effect _ _ hp h =>
      rw [hp] at hc
      rcases h.publishes with hsame | ⟨off, b, payload, raw, next, rfl, rfl, rfl⟩
      · exact hold (hsame ▸ hb)
      · rcases hφ.publishes hc block hb with hb' | hu
        · exact hold hb'
        · exact ⟨_, _, .refl, hb, hu⟩
    | @returned _ _ op r s hp =>
      cases r with
      | error st => exact hold hb
      | ok u => exact hold hb

/-- The block holds its records, and these meet their contracts under its options. -/
def KeepsContracts (block : PublishedBlock) : Prop :=
  block.raw = block.records.flatMap AcceptedRecord.record ∧
    ∀ r ∈ block.records, ∀ c, r.expected = some c → Meets block.options c

theorem Observed.keepsContracts {α : Type} {Q : α → Session → Prop} {d d' : Disk Item}
    {S S' : Session} {k k' : WriteProg Status Item α} (h : Observed env d S k d' k' S')
    (hk : k.Follows ledger Q S) (hS : ∀ block ∈ S.blocks, KeepsContracts block) :
    ∀ block ∈ S'.blocks, KeepsContracts block := by
  rcases h.publishes with hsame | ⟨off, b, payload, raw, next, rfl, -, rfl⟩
  · rw [hsame]
    exact hS
  · obtain ⟨⟨-, ⟨⟨-, hraw, -, o, ho, hc⟩, -⟩, -⟩, -⟩ := hk
    intro block hb
    rcases List.mem_append.mp hb with hb | hb
    · exact hS block hb
    · rw [List.mem_singleton.mp hb]
      refine ⟨hraw, fun r hr c he => contractHolds_some.mp ?_⟩
      have hr' := hc r hr
      rw [he] at hr'
      rw [ho]
      exact hr'

/-- The blocks of a session keep the contracts of their records. -/
theorem tracked_keepsContracts {x : Sys} {S : Session} (h : Tracked env x S) :
    ∀ block ∈ S.blocks, KeepsContracts block := by
  induction h with
  | opening x hw hrandom he hrec hp => exact fun block hb => by cases hb
  | @step x y S S' hx h ih =>
    have hk := hx.keeps.1
    cases h with
    | openEffect _ _ hp h =>
      rw [hp] at hk
      exact h.keepsContracts hk ih
    | opened _ _ hp => exact ih
    | call _ _ op hp => exact ih
    | effect _ _ hp h =>
      rw [hp] at hk
      exact h.keepsContracts hk ih
    | @returned _ _ op r s hp =>
      cases r with
      | error st => exact ih
      | ok u => exact ih

/-- When a header is about to be written, no record is in the builder. -/
theorem tracked_boundary {x : Sys} {S : Session} (hx : Tracked env x S) {off : Nat}
    {h : PartitionHeader} (hw : x.Writing off (.header h)) : S.pending = [] := by
  have hk := hx.keeps.1
  unfold Sys.Writing at hw
  split at hw
  · rename_i k hp
    rw [hp] at hk
    obtain ⟨next, rfl⟩ := WriteProg.firstWrite_eq_some hw
    obtain ⟨⟨-, ⟨hnil, -⟩, -⟩, -⟩ := hk
    exact hnil
  · rename_i op k hp
    rw [hp] at hk
    obtain ⟨next, rfl⟩ := WriteProg.firstWrite_eq_some hw
    obtain ⟨⟨-, ⟨hnil, -⟩, -⟩, -⟩ := hk
    exact hnil
  · cases hw

/-- A framed append is a checked append for the profile and the time domain it found. -/
theorem appendFramedRecord_checked {s : Store} {time : Int64} {selector : UInt64} {flags : UInt16}
    {payload : Bytes} {op : Op} (h : appendFramedRecord s time selector flags payload = .ok op) :
    ∃ p record storageFlags, s.active = some p ∧
      op = .appendChecked record time
        ⟨framedRecordV1ProfileId, 1, p.header.options.timeDomainId⟩ storageFlags := by
  unfold appendFramedRecord at h
  cases hp : s.active with
  | none =>
    rw [hp] at h
    cases h
  | some p =>
    rw [hp] at h
    dsimp only at h
    split at h
    · simp at h
    · obtain ⟨encoded, -, h⟩ := bind_ok_inv h
      cases h
      exact ⟨p, _, _, rfl, rfl⟩

/-- **Checked appends are safe.**  In every run of a store, with any clients, an asynchronous
writer in front of it and any storage errors: an item the worker reported as processed is accepted
with its contract; every block holds records that meet their contracts under its options, and it was
published while the header of its partition on the medium had these options; and no record is in the
builder when a partition is created. -/
theorem contract_safety {z : Shared} (hz : SharedReach env z) :
    (∀ item ∈ z.processed, item.accepted ∈ z.session.accepted) ∧
    (∀ block ∈ z.session.blocks, KeepsContracts block ∧
      ∃ y T, Later env (y, T) (z.sys, z.session) ∧ block ∈ T.blocks ∧
        UnderHeader env block (y.disk.volatile (Item.bytes env))) ∧
    (∀ off h, z.sys.Writing off (.header h) → z.session.pending = []) ∧
    ∀ s time selector flags payload op, appendFramedRecord s time selector flags payload = .ok op →
      ∃ p record storageFlags, s.active = some p ∧ op = .appendChecked record time
        ⟨framedRecordV1ProfileId, 1, p.header.options.timeDomainId⟩ storageFlags := by
  obtain ⟨ht, hproc⟩ := shared_tracked hz
  refine ⟨hproc, fun block hb => ?_, fun off h hw => tracked_boundary ht hw,
    fun s time selector flags payload op h => appendFramedRecord_checked h⟩
  exact ⟨tracked_keepsContracts ht block hb, tracked_published ht block hb⟩

end

/-! ## A checked record in the sample volume -/

namespace Sample

def profile : PartitionOptions := { recordFormatId := 5, recordFormatVersion := 1 }

def contract : AppendContract := ⟨5, 1, 1⟩

def profileHeader : PartitionHeader := Writer.newHeader env 0 1 profile

def profileOptions : OpenOptions := { writable := true, nextPartition := profile }

def profileRecovered : Store := { recovered with nextOptions := profile }

def profileOpened : Store := { profileRecovered with
  partitions := [{ header := profileHeader }], activeGeneration := 1
  metrics := { syncCalls := 1 } }

def profileCreated : Disk Item :=
  (write formatted 8192 (.header profileHeader)).flush (Item.bytes env)

theorem exec_profileOpen : (startWriter profileRecovered).exec (Item.bytes env) formatted =
    ((.ok (), profileOpened), profileCreated) := by
  have h : (startWriter profileRecovered).exec (Item.bytes env) formatted =
    ((.ok (), { profileOpened with
      partitions := sortPartitions [{ header := profileHeader }] }), profileCreated) := rfl
  rw [h, sort_single]
  rfl

theorem profileRecovered_eq : recoveredStore env profileOptions (3, 4) {} = profileRecovered := by
  unfold recoveredStore sortPartitions
  simp only [List.mergeSort_nil]
  rfl

def profileSession : Session := { options := some profile, flushes := 1 }

theorem tracked_profileOpened :
    Tracked env ⟨profileCreated, [], .idle profileOpened none⟩ profileSession := by
  have h : Rd.run (imageSource (formatted.volatile (Item.bytes env)))
      (recover (formatted.volatile (Item.bytes env)).size profileOptions (.ok (3, 4))) =
        .ok profileRecovered := by
    rw [← profileRecovered_eq]
    exact formatted_blank.recover geometry rfl rfl rfl
  have hopen : Tracked env ⟨formatted, [], .opening (startWriter profileRecovered)⟩
      profileRecovered.session := by
    refine Tracked.opening _ (o := profileOptions) rfl ?_ rfl h rfl
    exact fun h => absurd (Except.ok.inj h) (by decide)
  have h1 := Tracked.exec (fun hp h => .openEffect _ _ hp h) _ hopen
  have hS : Session.run (startWriter profileRecovered) profileRecovered.session = profileSession := rfl
  rw [exec_profileOpen, hS] at h1
  exact h1.step (.opened _ _ rfl)

def checkedOp : Op := .appendChecked record 0 contract 0

def checkedAppended : Store := { profileOpened with
  builder := record, builderRecords := 1, haveLastTime := true, haveUndurableRecords := true
  metrics := { profileOpened.metrics with acceptedRecords := 1, acceptedPayloadBytes := 1 } }

theorem exec_checkedAppend : (checkedOp.program profileOpened).exec (Item.bytes env) profileCreated =
    ((.ok (), checkedAppended), profileCreated) := rfl

def checkedPublished : Store := { profileOpened with
  partitions := [Writer.addBlock { header := profileHeader } (block 0 (0, 0) (3, 4)) 129 256]
  haveLastTime := true, haveUndurableRecords := true, dirty := true
  metrics := { profileOpened.metrics with acceptedRecords := 1, acceptedPayloadBytes := 1
                                          publishedBlocks := 1, storedBlockBytes := 129
                                          rawBlockBytes := 1 } }

def checkedFramed : Disk Item :=
  write profileCreated 12288 (.frame (block 0 (0, 0) (3, 4)) record record)

theorem exec_checkedPublish : (Op.publish.program checkedAppended).exec (Item.bytes env) profileCreated =
    ((.ok (), checkedPublished), checkedFramed) := rfl

def checkedBlock : PublishedBlock :=
  ⟨12288, block 0 (0, 0) (3, 4), record, record, profile, [⟨record, 0, 0, some contract⟩]⟩

def checkedSession : Session := { options := some profile, blocks := [checkedBlock], flushes := 1 }

theorem tracked_checkedPublished : Tracked env
    ⟨checkedFramed, [], .idle checkedPublished (some (.publish, .ok ()))⟩ checkedSession :=
  (tracked_profileOpened.call _ exec_checkedAppend).call _ exec_checkedPublish

end Sample

/-- The checked record of the sample run is published under a header that meets its contract. -/
theorem sample_contract_safety : ∃ h m, HeaderAt Sample.env m h ∧ Meets h.options Sample.contract := by
  have hz : SharedReach Sample.env
      { sys := ⟨Sample.checkedFramed, [], .idle Sample.checkedPublished (some (.publish, .ok ()))⟩
        session := Sample.checkedSession } :=
    .construct Sample.tracked_checkedPublished {}
  obtain ⟨-, hblocks, -⟩ := contract_safety hz
  obtain ⟨hc, y, T, -, -, h, hh, -, -, ho⟩ := hblocks Sample.checkedBlock (List.mem_singleton_self _)
  refine ⟨h, _, hh, ?_⟩
  rw [ho]
  exact hc.2 _ (List.mem_singleton_self _) _ rfl

end TFDB

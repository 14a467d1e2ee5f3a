import TFDB.History
import TFDB.Verify
import TFDB.Latch
import TFDB.Inverse

/-!
# Formatting over old content

`format` writes the volume header and leaves the slots as they are.  `NoTrace` says that no
structure in them carries the ID of the new volume; then nothing in them is taken for a structure
of it.

* `NoTrace.collisionFree` — a medium formatted over foreign content is free of collisions;
* `RingInv.recovers` — an open of a medium with a ring succeeds and finds the ring;
* `Rested`, `rested_startWriter` — between two calls the newest partition takes blocks, so that the
  writing part of an open succeeds;
* `reformat_isolated` — the first writable open creates generation 1 in slot 0, and in every run
  without faults every open succeeds and a scan shows the blocks of the run.
-/

set_option autoImplicit false

namespace TFDB

open ByteLib Writer

/-! ## NoTrace content -/

/-- The bytes have the magic of a structure and, where it has its volume ID, that of this volume. -/
def Carries (env : Env) (bytes magic : Bytes) (high low : Nat) : Prop :=
  slice bytes 0 8 = magic ∧ get64 bytes high = env.volume.volumeIdHigh ∧
    get64 bytes low = env.volume.volumeIdLow

/-- No partition header, footer or block header in the slots carries this volume's ID. -/
structure NoTrace (env : Env) (m : Image) : Prop where
  header : ∀ slot < env.volume.partitionCount,
    ¬ Carries env (m.window (env.partitionBase slot) partitionHeaderEncodedSize) partitionMagic 16 24
  footer : ∀ slot < env.volume.partitionCount,
    ¬ Carries env (m.window (env.partitionBase slot + env.footerOffset) partitionFooterEncodedSize)
      footerMagic 16 24
  frame : ∀ slot < env.volume.partitionCount, ∀ o, partitionHeaderRegionSize ≤ o →
    o + blockHeaderEncodedSize ≤ env.indexBegin → o % env.quantum = 0 →
    ¬ Carries env (m.window (env.partitionBase slot + o) blockHeaderEncodedSize) blockMagic 88 80

section
variable {env : Env}

theorem Checks.magic {bytes magic : Bytes} {n c : Nat} (hl : bytes.length = n)
    (h : Checks bytes magic n c) : slice bytes 0 8 = magic := (commonCheck_inv hl h).magic

/-- A block header that decodes to this volume carries its ID. -/
theorem carries_of_block {bytes : Bytes} (hl : bytes.length = blockHeaderEncodedSize)
    {b : BlockHeader} (hd : decodeBlockHeader bytes = .ok b)
    (h1 : b.volumeIdHigh = env.volume.volumeIdHigh) (h2 : b.volumeIdLow = env.volume.volumeIdLow) :
    Carries env bytes blockMagic 88 80 := by
  unfold decodeBlockHeader at hd
  obtain ⟨_, hck, hd⟩ := bind_ok_inv hd
  simp only at hd
  split at hd
  · cases hd
  obtain rfl := Except.ok.inj hd
  exact ⟨(commonCheck_inv hl hck).magic, h1, h2⟩

/-- A footer that decodes to this volume carries its ID. -/
theorem carries_of_footer {bytes : Bytes} (hl : bytes.length = partitionFooterEncodedSize)
    {f : PartitionFooter} (hd : decodePartitionFooter bytes = .ok f)
    (h1 : f.volumeIdHigh = env.volume.volumeIdHigh) (h2 : f.volumeIdLow = env.volume.volumeIdLow) :
    Carries env bytes footerMagic 16 24 := by
  obtain ⟨hck, e1, e2⟩ := decodePartitionFooter_inv hd
  exact ⟨(commonCheck_inv hl hck).magic, e1.trans h1, e2.trans h2⟩

/-- There is no evidence of the volume in foreign content. -/
theorem NoTrace.unmarked (g : Geometry env) {m : Image} (h : NoTrace env m) : Unmarked env m := by
  intro slot hs
  have hroom : partitionHeaderRegionSize + blockHeaderEncodedSize ≤ env.indexBegin := by
    obtain ⟨span, hspan, hle⟩ := g.worstSpan
    obtain ⟨-, hspan, -, -⟩ := alignUp_spec hspan
    omega
  have hblock := h.frame slot hs partitionHeaderRegionSize (Nat.le_refl _) hroom g.header_aligned
  have h1 : headerEvidence env (m.window (env.partitionBase slot) partitionHeaderEncodedSize) =
      false := by
    rw [Bool.eq_false_iff]
    intro he
    simp only [headerEvidence, Bool.and_eq_true, beq_iff_eq] at he
    exact h.header slot hs ⟨he.1.1, he.1.2, he.2⟩
  have h2 : footerEvidence env slot (m.window (env.partitionBase slot + env.footerOffset)
      partitionFooterEncodedSize) = false := by
    rw [Bool.eq_false_iff]
    intro he
    unfold footerEvidence at he
    split at he
    · rename_i f hf
      simp only [Bool.and_eq_true, beq_iff_eq] at he
      exact h.footer slot hs (carries_of_footer (Image.window_length ..) hf he.1.2 he.2)
    · cases he
  have h3 : blockEvidence env slot (m.window (env.partitionBase slot + partitionHeaderRegionSize)
      blockHeaderEncodedSize) = false := by
    rw [Bool.eq_false_iff]
    intro he
    unfold blockEvidence at he
    split at he
    · rename_i b hb
      simp only [Bool.and_eq_true, beq_iff_eq] at he
      exact hblock (carries_of_block (Image.window_length ..) hb he.1.2 he.2)
    · cases he
  unfold slotEvidence
  simp only [h1, h2, h3, Bool.or_self, Bool.and_false]

/-- Content is foreign by the bytes of the slots. -/
theorem NoTrace.congr (g : Geometry env) {m m' : Image} (h : NoTrace env m)
    (hw : ∀ slot < env.volume.partitionCount, ∀ a, env.partitionBase slot ≤ a →
      a < env.partitionBase slot + env.partitionSize → m'.byte a = m.byte a) : NoTrace env m' := by
  obtain ⟨hregion, hheader, hfooter, hblock, -, -, -, hbegin, hoff, hsum⟩ := slot_parts g
  have hwin {slot : UInt32} (hs : slot < env.volume.partitionCount) {o n : Nat}
      (hle : o + n ≤ env.partitionSize) :
      m'.window (env.partitionBase slot + o) n = m.window (env.partitionBase slot + o) n :=
    Image.window_congr fun a h1 h2 => hw slot hs a (by omega) (by omega)
  constructor
  · intro slot hs
    have := hwin hs (o := 0) (n := partitionHeaderEncodedSize) (by omega)
    rw [Nat.add_zero] at this
    rw [this]
    exact h.header slot hs
  · intro slot hs
    rw [hwin hs (by omega)]
    exact h.footer slot hs
  · intro slot hs o h1 h2 h3
    rw [hwin hs (by omega)]
    exact h.frame slot hs o h1 h2 h3

/-- A medium formatted over foreign content is free of collisions. -/
theorem NoTrace.collisionFree (g : Geometry env) {prior : Image} (h : NoTrace env prior) :
    CollisionFreeNow env
      ((formatProgram env.volume).exec (Item.bytes env) { durable := prior }).2 := by
  have hr : RingInv env prior
      ((formatProgram env.volume).exec (Item.bytes env) { durable := prior }).2 := .formatted
  have hf := h.congr g fun slot hs a h1 h2 => hr.unused slot hs (fun q hq => (by cases hq)) a h1 h2
  have hdecode := g.decodeVolume
  constructor
  · rintro off (rfl | rfl) v hv
    · rw [hr.first, hdecode] at hv
      obtain rfl := Except.ok.inj hv
      simp [formatProgram, WriteProg.exec]
    · rw [hr.second, hdecode] at hv
      obtain rfl := Except.ok.inj hv
      simp [formatProgram, WriteProg.exec]
  · intro slot hs bytes hck h1 h2
    exact absurd ⟨hck.magic (Image.window_length ..), h1, h2⟩ (hf.header slot hs)
  · intro slot hs off bytes hck h1 h2
    exact absurd ⟨hck.magic (Image.window_length ..), h1, h2⟩ (hf.footer slot hs)
  · intro slot hs o h1 h2 h3 b hb hi1 hi2
    exact absurd (carries_of_block (Image.window_length ..) hb hi1 hi2) (hf.frame slot hs o h1 h2 h3)
  · intro slot hs f es hm
    simp [formatProgram, WriteProg.exec] at hm

end

/-! ## Opens of a medium with a ring -/

section
variable {env : Env} {prior : Image} {d : Disk Item} (g : Geometry env) (hr : RingInv env prior d)
  (hm : env.volume.volumeSize.toNat ≤ prior.size) (hc : CollisionFreeNow env d)
  (hv : ∀ q ∈ ringOf d.issued, q.header.options.compressionVersion ≠ 0) (hfits : env.SpanFits)
  (hl : env.Lawful) (hun : Unmarked env prior) (hquiet : QuietFooters env prior)
include g hr hm hc hv hfits hl hun hquiet

/-- No slot is damaged. -/
theorem RingInv.undamaged :
    (slotList env).filter (slotDamaged env (d.volatile (Item.bytes env))) = [] := by
  refine List.filter_eq_nil_iff.mpr fun slot hs => ?_
  rw [(hr.strictSlot g hm hc hv hfits hl hun hquiet (mem_slotList.mp hs)).1]
  exact Bool.false_ne_true

/-- An open, lazy or strict, succeeds. -/
theorem RingInv.recovers {o : OpenOptions} (ho : o.codecs = env.codecs)
    {random : Except Status (UInt64 × UInt64)} {id : UInt64 × UInt64}
    (hid : prepareWriter env o random = .ok id) :
    Rd.run (imageSource (d.volatile (Item.bytes env)))
        (recover (d.volatile (Item.bytes env)).size o random) =
      .ok (openedStore env (d.volatile (Item.bytes env)) o id) := by
  have hm' : env.volume.volumeSize.toNat ≤ (d.volatile (Item.bytes env)).size := by
    rw [hr.size]
    exact hm
  cases hstrict : o.verifyPayloadsOnOpen with
  | true => exact hr.recover_strict g hm hc hv hfits hl hun hquiet hstrict ho hid
  | false =>
    have hvol := hr.readVolumeHeader g hm
    have hnf : ∀ slot < env.volume.partitionCount,
        ¬ SlotFails env (d.volatile (Item.bytes env)) slot := fun slot hs =>
      (hr.strictSlot g hm hc hv hfits hl hun hquiet hs).not_fails g hm' hs
    obtain ⟨s, hs⟩ := recover_isOk g hm' hvol ho hstrict hid hnf (hr.generationsOk g hm hc hv)
    obtain ⟨⟨id', hid', rfl⟩, -⟩ := recover_ok g hm' (fun v hv' => by
      rw [hvol] at hv'
      exact (Except.ok.inj hv').symm) ho hs
    obtain rfl := Except.ok.inj (hid.symm.trans hid')
    exact hs

end

/-! ## Between two calls -/

/-- The newest partition, if there is one, takes blocks. -/
def Rested (issued : List (Nat × Item)) : Prop :=
  ∀ q, (ringOf issued).getLast? = some q → q.isSealed = false

section
variable {env : Env} {prior : Image} {d : Disk Item}

theorem RingPhase.rested {c : Cat} (h : RingPhase env d (.ready c)) : Rested d.issued := by
  obtain ⟨-, older, q, hqs, ho⟩ := h
  intro r hr
  rw [hqs, List.getLast?_concat] at hr
  obtain rfl := Option.some.inj hr
  exact ho

/-- The catalog of an open has the newest partition of the ring. -/
theorem RingInv.catalog_getLast? (g : Geometry env) (hr : RingInv env prior d)
    (hm : env.volume.volumeSize.toNat ≤ prior.size) (hc : CollisionFreeNow env d)
    (hv : ∀ q ∈ ringOf d.issued, q.header.options.compressionVersion ≠ 0) :
    (catalogOf env (d.volatile (Item.bytes env))).getLast? =
      (ringOf d.issued).getLast?.map (RingPartition.recovered env) := by
  rw [hr.catalog g hm hc hv, List.getLast?_map]

/-- An undisturbed creation of a partition writes its header. -/
theorem exec_createPartition {s : Store} (he : s.env = env) {slot : UInt32} {generation : UInt64}
    {options : PartitionOptions} (hg : generation ≠ 0)
    (ho : env.validatePartitionOptions options = .ok ()) (d : Disk Item) :
    ∃ t d', (createPartition slot generation options s).exec (Item.bytes env) d = ((.ok (), t), d') ∧
      d'.issued = d.issued ++
        [(env.partitionBase slot, .header (newHeader env slot generation options))] := by
  subst he
  generalize hh : newHeader s.env slot generation options = h
  have hget {f : Store → Writer Unit} : (Wr.get >>= f) s = f s s := rfl
  have hwrite : (writeItem (s.env.partitionBase slot) (.header h) s).exec (Item.bytes s.env) d =
      ((.ok (), s), d.issue (s.env.partitionBase slot) (.header h)
        (Item.bytes s.env (.header h)).length) := rfl
  have hsync (d : Disk Item) : (syncMedia false s).exec (Item.bytes s.env) d =
      ((.ok (), synced false s), d.flush (Item.bytes s.env)) := rfl
  have hrun : ∃ t, (createPartition slot generation options s).exec (Item.bytes s.env) d =
      ((.ok (), t), (d.issue (s.env.partitionBase slot) (.header h)
        (Item.bytes s.env (.header h)).length).flush (Item.bytes s.env)) := by
    unfold createPartition
    rw [if_neg hg, hget, ho, hh]
    dsimp only
    rw [Wr.exec_bind_ok hwrite, Wr.exec_bind_ok (hsync _)]
    exact ⟨_, rfl⟩
  obtain ⟨t, ht⟩ := hrun
  exact ⟨t, _, ht, rfl⟩

/-- The writing part of an open succeeds: it creates the first partition, or writes nothing. -/
theorem rested_startWriter (g : Geometry env) (hr : RingInv env prior d)
    (hm : env.volume.volumeSize.toNat ≤ prior.size) (hc : CollisionFreeNow env d)
    (hv : ∀ q ∈ ringOf d.issued, q.header.options.compressionVersion ≠ 0)
    (hdam : (slotList env).filter (slotDamaged env (d.volatile (Item.bytes env))) = [])
    (hrest : Rested d.issued) {o : OpenOptions} (id : UInt64 × UInt64)
    (ho : env.validatePartitionOptions o.nextPartition = .ok ()) :
    ∃ t d', (startWriter (openedStore env (d.volatile (Item.bytes env)) o id)).exec
        (Item.bytes env) d = ((.ok (), t), d') ∧
      d'.issued = if ringOf d.issued = [] then
        d.issued ++ [(env.partitionBase 0, .header (newHeader env 0 1 o.nextPartition))]
      else d.issued := by
  have hlast := hr.catalog_getLast? g hm hc hv
  have hclean : ¬ (openedStore env (d.volatile (Item.bytes env)) o id).corruptSlots ≠ [] :=
    not_not.mpr hdam
  have hparts := openedStore_partitions env (d.volatile (Item.bytes env)) o id
  have henv : (openedStore env (d.volatile (Item.bytes env)) o id).env = env := rfl
  have hnext : (openedStore env (d.volatile (Item.bytes env)) o id).nextOptions = o.nextPartition :=
    rfl
  generalize openedStore env (d.volatile (Item.bytes env)) o id = s at hclean hparts henv hnext ⊢
  have hget {f : Store → Writer Unit} : (Wr.get >>= f) s = f s s := rfl
  unfold startWriter
  rw [hget, if_neg hclean, hparts, hlast, hnext]
  cases hq : (ringOf d.issued).getLast? with
  | none =>
    rw [if_pos (List.getLast?_eq_none_iff.mp hq)]
    exact exec_createPartition henv (by decide) ho d
  | some q =>
    have hne : ringOf d.issued ≠ [] := fun h => by
      rw [h] at hq
      cases hq
    rw [if_neg hne]
    simp only [Option.map_some, RingPartition.recovered_isSealed, hrest q hq]
    exact ⟨_, _, rfl, rfl⟩

/-- A refused open writes nothing. -/
theorem startWriter_refused {s : Store} (hs : s.corruptSlots ≠ []) :
    ∃ st, startWriter s = .done (.error st, s) := by
  have hget {f : Store → Writer Unit} : (Wr.get >>= f) s = f s s := rfl
  unfold startWriter
  rw [hget, if_pos hs]
  exact ⟨_, rfl⟩

/-- A writable open that gets as far as the writing part fails for one reason only. -/
theorem RingInv.openRefused (g : Geometry env) (hr : RingInv env prior d)
    (hm : env.volume.volumeSize.toNat ≤ prior.size) (hc : CollisionFreeNow env d)
    (hrest : Rested d.issued) {o : OpenOptions} {random : Except Status (UInt64 × UInt64)}
    (hw : o.writable = true) (hcodecs : o.codecs = env.codecs) {s t : Store} {d' : Disk Item}
    (hrec : Rd.run (imageSource (d.volatile (Item.bytes env)))
      (recover (d.volatile (Item.bytes env)).size o random) = .ok s) {st : Status}
    (he : (TFDB.startWriter s).exec (Item.bytes env) d = ((.error st, t), d')) :
    s.corruptSlots ≠ [] := by
  have hvol := hr.readVolumeHeader g hm
  obtain ⟨⟨id, hid, rfl⟩, -, -⟩ := recover_ok g (by rw [hr.size]; exact hm) (fun v hv => by
    rw [hvol] at hv
    exact (Except.ok.inj hv).symm) hcodecs hrec
  intro hdam
  have hdam' : (slotList env).filter (slotDamaged env (d.volatile (Item.bytes env))) = [] := hdam
  have hv : ∀ q ∈ ringOf d.issued, q.header.options.compressionVersion ≠ 0 := by
    intro q hq
    have hlt := (hr.sound q hq).made.slotOf.lt g
    exact hr.version g hq
      (Bool.eq_false_iff.mpr (List.filter_eq_nil_iff.mp hdam' _ (mem_slotList.mpr hlt)))
  obtain ⟨t', d'', hrun, -⟩ := rested_startWriter g hr hm hc hv hdam' hrest id
    (prepareWriter_ok hw hid)
  rw [hrun] at he
  cases he

/-- Between two calls of a run without faults the newest partition takes blocks. -/
theorem Clean.rested {assumed : Disk Item → Prop} (hassumed : ∀ d, assumed d → CollisionFreeNow env d)
    {so : Option Store} (h : Clean env prior assumed d so) : Rested d.issued := by
  induction h with
  | formatted hformat hid hsize => exact fun q hq => (by cases hq)
  | opened h ha hw hcodecs hrandom hrec he ih =>
    exact (((h.opened ha hw hcodecs hrandom hrec he).ring hassumed).store _ rfl).2.2.rested
  | openFailed h ha hw hcodecs hrandom hrec he ih =>
    obtain ⟨g, hsize, hr, -⟩ := h.ring hassumed
    obtain ⟨st', hs⟩ := startWriter_refused (hr.openRefused g (Nat.le_of_eq hsize) (hassumed _ ha)
      ih hw hcodecs hrec he)
    rw [hs] at he
    cases he
    exact ih
  | called h op he ih => exact (((h.called op he).ring hassumed).store _ rfl).2.2.rested
  | destroyed h ih => exact ih

end

/-! ## Isolation -/

/-- Every open of the medium succeeds, lazy, strict or writable; a scan shows the blocks of the log
that no later partition has evicted, and no gap.  A writable open creates generation 1 in slot 0
where there is no partition yet. -/
def OpensAll (env : Env) (d : Disk Item) : Prop :=
  ∀ (o : OpenOptions) (random : Except Status (UInt64 × UInt64)) (id : UInt64 × UInt64),
    o.codecs = env.codecs → prepareWriter env o random = .ok id →
    ∃ s, Rd.run (imageSource (d.volatile (Item.bytes env)))
        (recover (d.volatile (Item.bytes env)).size o random) = .ok s ∧
      scanBlocks s (d.volatile (Item.bytes env)) =
        (({} : QueryState).deliverAll (ringEvents env {} (ringOf d.issued)), {}) ∧
      (o.writable = true → ∃ t d', (startWriter s).exec (Item.bytes env) d = ((.ok (), t), d') ∧
        d'.issued = if ringOf d.issued = [] then
          d.issued ++ [(env.partitionBase 0, .header (newHeader env 0 1 o.nextPartition))]
        else d.issued)

section
variable {env : Env} {prior : Image}

theorem RingInv.opensAll {d : Disk Item} (g : Geometry env) (hr : RingInv env prior d)
    (hm : env.volume.volumeSize.toNat ≤ prior.size) (hc : CollisionFreeNow env d)
    (hv : ∀ q ∈ ringOf d.issued, q.header.options.compressionVersion ≠ 0) (hfits : env.SpanFits)
    (hl : env.Lawful) (hun : Unmarked env prior) (hquiet : QuietFooters env prior)
    (hrest : Rested d.issued) : OpensAll env d := by
  intro o random id ho hid
  refine ⟨_, hr.recovers g hm hc hv hfits hl hun hquiet ho hid, ?_, fun hw => ?_⟩
  · exact hr.openedQuery g hm hc hv hfits hl hun hquiet o id scan_total fun r hr => by cases hr
  · have hdam := hr.undamaged g hm hc hv hfits hl hun hquiet
    exact rested_startWriter g hr hm hc hv hdam hrest id (prepareWriter_ok hw hid)

/-- **A reformatted volume is isolated from what was there before**, where no footer position holds a
footer of an unsupported version and no retained partition names version 0 of its codec: every open
succeeds, beginning with the first, and a scan shows the blocks of the run and nothing else. -/
theorem reformat_isolated {o : VolumeOptions} {random : Except Status (UInt64 × UInt64)}
    (hformat : formatHeader prior.size o random = .ok env.volume)
    (hid : env.volume.volumeIdHigh ≠ 0 ∨ env.volume.volumeIdLow ≠ 0) (hsize : prior.size < 2 ^ 64)
    (htrace : NoTrace env prior) (hfits : env.SpanFits) (hl : env.Lawful)
    (hquiet : QuietFooters env prior) :
    (ringOf ((formatProgram env.volume).exec (Item.bytes env) { durable := prior }).2.issued = [] ∧
      OpensAll env ((formatProgram env.volume).exec (Item.bytes env) { durable := prior }).2) ∧
    ∀ d so, Clean env prior (CollisionFreeNow env) d so → CollisionFreeNow env d →
      (∀ q ∈ ringOf d.issued, q.header.options.compressionVersion ≠ 0) →
      OpensAll env d ∧ ∀ s, so = some s → scanBlocks s (d.volatile (Item.bytes env)) =
        (({} : QueryState).deliverAll (ringEvents env {} (ringOf d.issued)), {}) := by
  obtain ⟨g, hprior⟩ := formatHeader_geometry hsize hid hformat
  have hm := Nat.le_of_eq hprior
  have hun := htrace.unmarked g
  refine ⟨⟨rfl, ?_⟩, fun d so h hc hv => ?_⟩
  · exact RingInv.formatted.opensAll g hm (htrace.collisionFree g) (fun q hq => (by cases hq)) hfits hl
      hun hquiet fun q hq => (by cases hq)
  · obtain ⟨-, -, hr, hstore⟩ := h.ring fun _ hd => hd
    refine ⟨hr.opensAll g hm hc hv hfits hl hun hquiet (h.rested fun _ hd => hd), fun s hs => ?_⟩
    obtain ⟨henv, -, hcat, -⟩ := hstore s hs
    have hm' : env.volume.volumeSize.toNat ≤ (d.volatile (Item.bytes env)).size := by
      rw [hr.size]
      exact hm
    have hclean : s.corruptSlots = [] := hcat.undamaged
    unfold scanBlocks Store.query
    rw [henv, hclean]
    exact ring_query g hm' hr.media hr.sound hfits hl hcat.states hr.order hv scan_total
      fun r hr => by cases hr

end

/-- Storage without the first byte of a magic has no trace of any volume. -/
theorem NoTrace.blank {env : Env} {m : Image} (h : ∀ x, m.byte x ≠ magicByte) : NoTrace env m := by
  have hslice {off n : Nat} {magic : Bytes} (hm : magic.head? = some magicByte) (hn : 8 ≤ n) :
      slice (m.window off n) 0 8 ≠ magic := by
    intro heq
    rw [Image.slice_window _ (by omega)] at heq
    exact foreign_window (n := 8) (h _) ((congrArg List.head? heq).trans hm)
  exact ⟨fun _ _ hc => hslice rfl (by decide) hc.1, fun _ _ hc => hslice rfl (by decide) hc.1,
    fun _ _ _ _ _ _ hc => hslice rfl (by decide) hc.1⟩

/-! ## A volume formatted over an old footer -/

namespace Sample

/-- Blank storage but for some bytes where the footer of slot 0 will be. -/
def leftover (bytes : Bytes) : Image := image.write 12928 bytes

section
variable {bytes : Bytes} (hlen : bytes.length = 10)
include hlen

theorem leftover_byte {x : Nat} (h : x < 12928 ∨ 12938 ≤ x) : (leftover bytes).byte x = 0 := by
  unfold leftover
  exact Image.write_byte_out (by omega)

theorem leftover_foreign {off n : Nat} {magic : Bytes} (hm : magic.head? = some magicByte)
    (hn : 8 ≤ n) (h : off < 12928 ∨ 12938 ≤ off) :
    slice ((leftover bytes).window off n) 0 8 ≠ magic := by
  intro heq
  rw [Image.slice_window _ (by omega)] at heq
  have hbyte : (leftover bytes).byte off ≠ magicByte := by
    rw [leftover_byte hlen h]
    exact blank_byte
  exact foreign_window (n := 8) hbyte ((congrArg List.head? heq).trans hm)

/-- Ten bytes are too few for an ID. -/
theorem leftover_id :
    get64 ((leftover bytes).window 12928 partitionFooterEncodedSize) 16 ≠ env.volume.volumeIdHigh := by
  have hzero : (leftover bytes).window (12928 + 16) 8 = List.replicate 8 0 := by
    refine List.eq_replicate_iff.mpr ⟨Image.window_length .., fun b hb => ?_⟩
    obtain ⟨k, -, rfl⟩ := List.mem_map.mp hb
    exact leftover_byte hlen (Or.inr (by omega))
  unfold get64
  rw [Image.slice_window _ (by decide), hzero]
  decide

/-- The old footer has no ID of this volume. -/
theorem leftover_noTrace : NoTrace env (leftover bytes) := by
  constructor
  · intro slot hs hc
    rcases slots hs with rfl | rfl
    · exact leftover_foreign hlen rfl (by decide) (by decide) hc.1
    · exact leftover_foreign hlen rfl (by decide) (by decide) hc.1
  · intro slot hs hc
    rcases slots hs with rfl | rfl
    · exact leftover_id hlen hc.2.1
    · exact leftover_foreign hlen rfl (by decide) (by decide) hc.1
  · intro slot hs o h1 h2 h3 hc
    have hend : env.indexBegin = 4608 := by decide
    rw [hend] at h2
    simp only [blockHeaderEncodedSize] at h2
    rcases slots hs with rfl | rfl
    · refine leftover_foreign hlen rfl (by decide) (Or.inl ?_) hc.1
      have hbase : env.partitionBase 0 = 8192 := by decide
      omega
    · refine leftover_foreign hlen rfl (by decide) (Or.inr ?_) hc.1
      have hbase : env.partitionBase 1 = 17024 := by decide
      omega

end

/-- The front of an old footer of this format version. -/
def oldFooter : Bytes := footerMagic ++ put16 formatMajor

def oldImage : Image := leftover oldFooter

theorem oldImage_slice {o n : Nat} (h : o + n ≤ partitionFooterEncodedSize) :
    slice (oldImage.window 12928 partitionFooterEncodedSize) o n = oldImage.window (12928 + o) n :=
  Image.slice_window _ h

/-- What is left of the old footer is no footer, and of no other version. -/
theorem oldImage_check {c : Nat} :
    commonCheck (oldImage.window 12928 partitionFooterEncodedSize) footerMagic
      partitionFooterEncodedSize c = failWith .corrupt "structure size mismatch" := by
  have hmagic : magicIs (oldImage.window 12928 partitionFooterEncodedSize) footerMagic = true := by
    unfold magicIs
    rw [Image.window_length, oldImage_slice (by decide)]
    decide
  have hmajor : get16 (oldImage.window 12928 partitionFooterEncodedSize) 8 = formatMajor := by
    unfold get16
    rw [oldImage_slice (by decide)]
    decide
  have hminor : ¬ get16 (oldImage.window 12928 partitionFooterEncodedSize) 10 > formatMinor := by
    unfold get16
    rw [oldImage_slice (by decide)]
    decide
  have hsize : (get32 (oldImage.window 12928 partitionFooterEncodedSize) 12).toNat ≠
      partitionFooterEncodedSize := by
    unfold get32
    rw [oldImage_slice (by decide)]
    decide
  unfold commonCheck
  rw [if_neg (by rw [Image.window_length]; omega), if_neg (not_not.mpr hmagic),
    if_neg (not_not.mpr hmajor), if_neg hminor, if_pos (Or.inl hsize)]

theorem oldImage_blank {x : Nat} (h : x < 12928 ∨ 12938 ≤ x) : oldImage.byte x ≠ magicByte := by
  rw [oldImage, leftover_byte rfl h]
  exact blank_byte

theorem oldImage_quiet : QuietFooters env oldImage := by
  intro slot hs e he
  rcases slots hs with rfl | rfl
  · have hfooter : decodePartitionFooter (oldImage.window 12928 partitionFooterEncodedSize) =
        failWith .corrupt "structure size mismatch" := by
      unfold decodePartitionFooter
      rw [oldImage_check]
      rfl
    obtain rfl := Except.error.inj (hfooter.symm.trans he)
    exact fun hx => by cases hx
  · obtain ⟨text, ht⟩ := (foreign_window (n := partitionFooterEncodedSize)
      (oldImage_blank (x := env.partitionBase 1 + env.footerOffset) (by decide))).decodePartitionFooter
    rw [ht] at he
    obtain rfl := Except.error.inj he
    exact fun hx => by cases hx

theorem oldImage_plain : Plain env [] oldImage := by
  refine .unwritten (fun off hoff => ?_) (fun slot hs => ?_) (fun slot hs => ?_) fun slot hs o h1 h2 => ?_
  · rcases hoff with rfl | rfl
    · exact oldImage_blank (by decide)
    · exact oldImage_blank (by decide)
  · rcases slots hs with rfl | rfl
    · exact oldImage_blank (by decide)
    · exact oldImage_blank (by decide)
  · rcases slots hs with rfl | rfl
    · intro hc
      have hcheck : commonCheck (oldImage.window 12928 partitionFooterEncodedSize) footerMagic
        partitionFooterEncodedSize 100 = .ok () := hc
      rw [oldImage_check] at hcheck
      cases hcheck
    · exact (foreign_window (oldImage_blank (by decide))).not_footer
  · have hend : env.indexBegin = 4608 := by decide
    rw [hend] at h2
    simp only [blockHeaderEncodedSize] at h2
    rcases slots hs with rfl | rfl
    · have hbase : env.partitionBase 0 = 8192 := by decide
      exact oldImage_blank (by omega)
    · have hbase : env.partitionBase 1 = 17024 := by decide
      exact oldImage_blank (by omega)

def oldDisk : Disk Item := { durable := oldImage }

def oldFormatted : Disk Item :=
  (write (write oldDisk 0 (.volume volume)) 4096 (.volume volume)).flush (Item.bytes env)

def oldCreated : Disk Item := (write oldFormatted 8192 (.header (header 0 1))).flush (Item.bytes env)

/-- A block of the new volume, with the old footer behind it. -/
def oldFramed : Disk Item :=
  write oldCreated 12288 (.frame (block 0 (0, 0) (3, 4)) record record)

theorem oldFormatted_inOrder : InOrder oldFormatted := by
  refine InOrder.flush ?_
  unfold InOrder
  rw [write_seen, write_seen]
  exact (oldImage_plain.issueVolume geometry (Or.inl rfl)).issueVolume geometry (Or.inr rfl)

theorem oldFramed_inOrder : InOrder oldFramed := by
  have hcreated : InOrder oldCreated := (oldFormatted_inOrder.header (header 0 1) rfl).flush
  refine hcreated.frame 0 4096 _ rfl (Or.inl rfl) rfl rfl fun o' b' payload' raw' h => ?_
  simp [oldCreated, oldFormatted, write, oldDisk, Disk.flush, Disk.issue] at h

theorem clean_oldFormatted : Clean env oldImage (CollisionFreeNow env) oldFormatted none :=
  Clean.formatted (o := options) formats (by decide) (by decide)

/-- The first open finds no partition. -/
theorem recover_oldFormatted : Rd.run (imageSource (oldFormatted.volatile (Item.bytes env)))
    (recover (oldFormatted.volatile (Item.bytes env)).size openOptions (.ok (3, 4))) =
      .ok recovered := by
  obtain ⟨g, hsize, hr, -⟩ := clean_oldFormatted.ring fun _ hd => hd
  have hm := Nat.le_of_eq hsize
  have hc := oldFormatted_inOrder.collisionFree
  have htrace : NoTrace env (leftover oldFooter) := leftover_noTrace rfl
  have hun := htrace.unmarked g
  have hcat := hr.catalog g hm hc (by decide)
  have hdamaged := hr.undamaged g hm hc (by decide) spanFits lawful hun oldImage_quiet
  have hid : prepareWriter env openOptions (.ok (3, 4)) = .ok (3, 4) := rfl
  rw [hr.recovers g hm hc (by decide) spanFits lawful hun oldImage_quiet rfl hid]
  unfold catalogOf at hcat
  simp only [openedStore, recoveredStore, hcat, hdamaged]
  rfl

theorem clean_oldFramed :
    Clean env oldImage (CollisionFreeNow env) oldFramed (some published) := by
  have hopened : Clean env oldImage (CollisionFreeNow env) oldCreated (some opened) := by
    refine @Clean.opened _ _ _ _ _ recovered _ clean_oldFormatted
      oldFormatted_inOrder.collisionFree openOptions (.ok (3, 4)) rfl rfl ?_ recover_oldFormatted
      (exec_open_on oldFormatted)
    exact fun h => absurd (Except.ok.inj h) (by decide)
  have happended : Clean env oldImage (CollisionFreeNow env) oldCreated (some appended) :=
    hopened.called (.append record 0 0) (r := .ok ()) rfl
  exact happended.called .publish (r := .ok ()) rfl

end Sample

/-- The sample volume, formatted over an old footer, is isolated before and behind its first block. -/
theorem sample_isolated : OpensAll Sample.env Sample.oldFormatted ∧
    OpensAll Sample.env Sample.oldFramed ∧
    scanBlocks Sample.published (Sample.oldFramed.volatile (Item.bytes Sample.env)) =
      (({} : QueryState).deliverAll (ringEvents Sample.env {} (ringOf Sample.oldFramed.issued)), {}) := by
  obtain ⟨⟨-, hformatted⟩, hlater⟩ := @reformat_isolated _ Sample.oldImage _ _ Sample.formats
    (by decide) (by decide) (Sample.leftover_noTrace rfl) Sample.spanFits Sample.lawful
    Sample.oldImage_quiet
  obtain ⟨hframed, hscan⟩ := hlater _ _ Sample.clean_oldFramed
    Sample.oldFramed_inOrder.collisionFree (by decide)
  exact ⟨hformatted, hframed, hscan _ rfl⟩

/-! ## A footer of a later version -/

section
variable {env : Env} {prior : Image} {d : Disk Item} (g : Geometry env) (hr : RingInv env prior d)
  (hm : env.volume.volumeSize.toNat ≤ prior.size) (hc : CollisionFreeNow env d)
  (hun : Unmarked env prior) (hempty : ringOf d.issued = [])
include g hr hm hc hun hempty

/-- While there is no partition, neither footers nor blocks matter to a writable open. -/
theorem RingInv.firstOpen {o : OpenOptions} (ho : o.codecs = env.codecs) (hw : o.writable = true)
    (hst : o.verifyPayloadsOnOpen = false) {random : Except Status (UInt64 × UInt64)}
    {id : UInt64 × UInt64} (hid : prepareWriter env o random = .ok id) :
    ∃ s t d', Rd.run (imageSource (d.volatile (Item.bytes env)))
        (recover (d.volatile (Item.bytes env)).size o random) = .ok s ∧
      (TFDB.startWriter s).exec (Item.bytes env) d = ((.ok (), t), d') ∧
      d'.issued = d.issued ++ [(env.partitionBase 0, .header (newHeader env 0 1 o.nextPartition))] := by
  have hm' : env.volume.volumeSize.toNat ≤ (d.volatile (Item.bytes env)).size := by
    rw [hr.size]
    exact hm
  have hvol := hr.readVolumeHeader g hm
  have hv : ∀ q ∈ ringOf d.issued, q.header.options.compressionVersion ≠ 0 := by
    rw [hempty]
    exact fun q hq => (by cases hq)
  have hnone : ∀ slot, ∀ q ∈ ringOf d.issued, q.header.slot ≠ slot := by
    rw [hempty]
    exact fun _ q hq => (by cases hq)
  have hslot : ∀ slot < env.volume.partitionCount,
      ¬ SlotFails env (d.volatile (Item.bytes env)) slot ∧
      slotDamaged env (d.volatile (Item.bytes env)) slot = false := by
    intro slot hs
    obtain ⟨e, he⟩ := hr.slotHeader_unused g hc hs (hnone slot)
    have hev : slotEvidence env (d.volatile (Item.bytes env)) slot = false := by
      rw [hr.slotEvidence_unused g hs (hnone slot), hun slot hs]
    rw [slotFails_of_error he, slotDamaged_of_error he, hev]
    exact ⟨fun h => Bool.false_ne_true h.2, rfl⟩
  have hdam : (slotList env).filter (slotDamaged env (d.volatile (Item.bytes env))) = [] := by
    refine List.filter_eq_nil_iff.mpr fun slot hs => ?_
    rw [(hslot slot (mem_slotList.mp hs)).2]
    exact Bool.false_ne_true
  obtain ⟨s, hs⟩ := recover_isOk g hm' hvol ho hst hid (fun slot h => (hslot slot h).1)
    (hr.generationsOk g hm hc hv)
  obtain ⟨⟨id', hid', rfl⟩, -⟩ := recover_ok g hm' (fun v hv' => by
    rw [hvol] at hv'
    exact (Except.ok.inj hv').symm) ho hs
  have hrest : Rested d.issued := by
    unfold Rested
    rw [hempty]
    exact fun q hq => (by cases hq)
  obtain ⟨t, d', hrun, hissued⟩ := rested_startWriter g hr hm hc hv hdam hrest id'
    (prepareWriter_ok hw hid')
  rw [if_pos hempty] at hissued
  exact ⟨_, t, d', hs, hrun, hissued⟩

end

namespace Sample

/-- The first bytes of a footer of format major 2. -/
def laterFooter : Bytes := footerMagic ++ put16 2

/-- Bytes that start like it are refused as those of another version. -/
theorem laterFooter_check (m : Image) (off c : Nat) :
    commonCheck ((m.write off laterFooter).window off partitionFooterEncodedSize) footerMagic
      partitionFooterEncodedSize c = failWith .unsupported "unsupported format major" := by
  have hslice {o n : Nat} (h : o + n ≤ laterFooter.length) :
      slice ((m.write off laterFooter).window off partitionFooterEncodedSize) o n =
        slice laterFooter o n := by
    rw [Image.slice_window _ (Nat.le_trans h (by decide)), ← Image.slice_window _ h,
      Image.window_write_same _ rfl]
  have hmagic : magicIs ((m.write off laterFooter).window off partitionFooterEncodedSize)
      footerMagic = true := by
    unfold magicIs
    rw [Image.window_length, hslice (by decide)]
    decide
  have hmajor : get16 ((m.write off laterFooter).window off partitionFooterEncodedSize) 8 ≠
      formatMajor := by
    unfold get16
    rw [hslice (by decide)]
    decide
  unfold commonCheck
  rw [if_neg (by rw [Image.window_length]; omega), if_neg (not_not.mpr hmagic), if_pos hmajor]

theorem laterFooter_refused (m : Image) (off : Nat) : decodePartitionFooter
    ((m.write off laterFooter).window off partitionFooterEncodedSize) =
      failWith .unsupported "unsupported format major" := by
  unfold decodePartitionFooter
  rw [laterFooter_check]
  rfl

/-- Blank storage but for a footer of another format version where the footer of slot 0 will be. -/
def staleImage : Image := image.write 12928 laterFooter

theorem staleImage_noTrace : NoTrace env staleImage := leftover_noTrace rfl

end Sample

/-- A footer of a later version, left where the footer of slot 0 will be, makes every open fail as
soon as the first writable open has created generation 1. -/
theorem later_footer_not_isolated : NoTrace Sample.env Sample.staleImage ∧
    formatHeader Sample.staleImage.size Sample.options (.ok (1, 2)) = .ok Sample.env.volume ∧
    ∃ d, Clean Sample.env Sample.staleImage (CollisionFreeNow Sample.env) d none ∧
      ∀ (o : OpenOptions) (random : Except Status (UInt64 × UInt64)) (s : Store),
        o.codecs = Sample.env.codecs →
        Rd.run (imageSource (d.volatile (Item.bytes Sample.env)))
          (recover (d.volatile (Item.bytes Sample.env)).size o random) ≠ .ok s := by
  have hformat : formatHeader Sample.staleImage.size Sample.options (.ok (1, 2)) =
      .ok Sample.env.volume := Sample.formats
  have hsize : Sample.staleImage.size = 25856 := Image.write_size ..
  have hlt : Sample.staleImage.size < 2 ^ 64 := by
    rw [hsize]
    decide
  obtain ⟨g, hprior⟩ := formatHeader_geometry hlt (by decide) hformat
  refine ⟨Sample.staleImage_noTrace, hformat, ?_⟩
  -- the first open, which looks at no footer
  have hid : prepareWriter Sample.env Sample.openOptions (.ok (3, 4)) = .ok (3, 4) := rfl
  have hfirst := RingInv.firstOpen g .formatted (Nat.le_of_eq hprior)
    (Sample.staleImage_noTrace.collisionFree g) (Sample.staleImage_noTrace.unmarked g) rfl
    (o := Sample.openOptions) rfl rfl rfl hid
  obtain ⟨s, t, d, hs, he, hissued⟩ := hfirst
  have hclean : Clean Sample.env Sample.staleImage (CollisionFreeNow Sample.env) d (some t) :=
    .opened (.formatted hformat (by decide) hlt) (Sample.staleImage_noTrace.collisionFree g) rfl rfl
      (fun h => absurd (Except.ok.inj h) (by decide)) hs he
  refine ⟨d, hclean.destroyed, fun o random s' ho hrec => ?_⟩
  -- the footer of slot 0 is still the old one
  obtain ⟨-, -, hr, -⟩ := hclean.ring fun _ hd => hd
  have hring : ringOf d.issued = [{ header := newHeader Sample.env 0 1 {} }] := by
    rw [hissued]
    rfl
  have hq : ({ header := newHeader Sample.env 0 1 {} } : RingPartition) ∈ ringOf d.issued := by
    rw [hring]
    exact List.mem_singleton_self _
  have hfooter : (d.volatile (Item.bytes Sample.env)).window (Sample.env.partitionBase 0 +
      Sample.env.footerOffset) partitionFooterEncodedSize =
      Sample.staleImage.window 12928 partitionFooterEncodedSize := by
    rcases hr.footed 0 (by decide) with hw | ⟨f, es, hi, -⟩
    · exact hw
    · rw [hissued] at hi
      simp [formatProgram, WriteProg.exec] at hi
  have hh := hr.slotHeader g hq (by decide)
  have hslot : (({ header := newHeader Sample.env 0 1 {} } : RingPartition).header.written
      Sample.env).slot = 0 := rfl
  generalize ({ header := newHeader Sample.env 0 1 {} } : RingPartition).header.written
    Sample.env = h at hh hslot
  have hm : Sample.env.volume.volumeSize.toNat ≤ (d.volatile (Item.bytes Sample.env)).size := by
    rw [hr.size]
    exact Nat.le_of_eq hprior
  obtain ⟨-, hnf, -⟩ := recover_ok g hm (fun v hv => by
    rw [hr.readVolumeHeader g (Nat.le_of_eq hprior)] at hv
    exact (Except.ok.inj hv).symm) ho hrec
  refine hnf 0 (by decide) ((slotFails_of_ok hh).mpr ?_)
  refine ⟨⟨.unsupported, "unsupported format major"⟩, ?_, rfl⟩
  unfold slotFooter acceptFooter
  rw [hslot, hfooter, Sample.staleImage, Sample.laterFooter_refused]
  rfl

end TFDB

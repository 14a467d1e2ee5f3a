import TFDB.Seal

/-!
# The ring of partitions

What the volume is for, said of the log of all writes: partitions come one after another, each
takes blocks until it is sealed, and a new one takes the slot, and with it the place, of an old
one.  `ringOf` computes the partitions that are still there, with their blocks.

A run without faults keeps the medium equal to that ring (`RingInv`): the header, the frames, the
index and the footer of every partition of the ring are where the format has them, and nothing
else on the medium was touched.  `RingPhase` adds the catalog of the writer.

`Phase.Write.ring` and `Phase.Flush.ring`: every step of the writing protocol keeps the invariant.
-/

set_option autoImplicit false

namespace TFDB

open ByteLib Writer

/-! ## The abstract ring -/

/-- A block as it was written. -/
structure RingBlock where
  header : BlockHeader
  payload : Bytes
  raw : Bytes

/-- A partition with its blocks, oldest first. -/
structure RingPartition where
  header : PartitionHeader
  blocks : List RingBlock := []
  isSealed : Bool := false

def RingBlock.frame (k : RingBlock) : BlockHeader × Bytes := (k.header, k.payload)

namespace RingPartition

def frames (q : RingPartition) : List (BlockHeader × Bytes) := q.blocks.map RingBlock.frame
def entries (q : RingPartition) : List IndexEntry := chainEntries partitionHeaderRegionSize q.frames
def dataEnd (q : RingPartition) : Nat := chainEnd partitionHeaderRegionSize q.frames

/-- The footer that closes the partition. -/
def footer (env : Env) (q : RingPartition) : PartitionFooter := sealFooter env (openState q.header q.frames)

def addBlock (q : RingPartition) (k : RingBlock) : RingPartition := { q with blocks := q.blocks ++ [k] }
def close (q : RingPartition) : RingPartition := { q with isSealed := true }

@[simp] theorem addBlock_header (q : RingPartition) (k : RingBlock) : (q.addBlock k).header = q.header := rfl
@[simp] theorem addBlock_isSealed (q : RingPartition) (k : RingBlock) :
    (q.addBlock k).isSealed = q.isSealed := rfl
@[simp] theorem close_header (q : RingPartition) : q.close.header = q.header := rfl
@[simp] theorem close_isSealed (q : RingPartition) : q.close.isSealed = true := rfl
@[simp] theorem close_frames (q : RingPartition) : q.close.frames = q.frames := rfl

@[simp] theorem addBlock_frames (q : RingPartition) (k : RingBlock) :
    (q.addBlock k).frames = q.frames ++ [k.frame] := by
  simp [frames, addBlock]

end RingPartition

/-- Change the newest partition. -/
def amendLast (f : RingPartition → RingPartition) : List RingPartition → List RingPartition
  | [] => []
  | [q] => [f q]
  | q :: qs => q :: amendLast f qs

theorem amendLast_append (f : RingPartition → RingPartition) (qs : List RingPartition) (q : RingPartition) :
    amendLast f (qs ++ [q]) = qs ++ [f q] := by
  induction qs with
  | nil => rfl
  | cons p qs ih =>
    obtain ⟨x, xs, hx⟩ : ∃ x xs, qs ++ [q] = x :: xs := by
      cases qs with
      | nil => exact ⟨q, [], rfl⟩
      | cons x xs => exact ⟨x, xs ++ [q], rfl⟩
    rw [List.cons_append, List.cons_append, ← ih, hx]
    rfl

/-- The partitions in other slots. -/
def evict (slot : UInt32) (qs : List RingPartition) : List RingPartition :=
  qs.filter fun q => q.header.slot != slot

/-- The generations grow, and each partition has a slot of its own. -/
def Ordered (qs : List RingPartition) : Prop :=
  qs.Pairwise fun a b =>
    a.header.generation < b.header.generation ∧ a.header.slot ≠ b.header.slot

/-- The ring after a write.  A header evicts the partition that had the slot. -/
def ringAfter (qs : List RingPartition) : Item → List RingPartition
  | .header h => evict h.slot qs ++ [{ header := h }]
  | .frame b payload raw => amendLast (·.addBlock ⟨b, payload, raw⟩) qs
  | .footer _ _ => amendLast RingPartition.close qs
  | _ => qs

/-- The partitions that are still there after these writes, oldest first. -/
def ringOf (issued : List (Nat × Item)) : List RingPartition :=
  issued.foldl (fun qs w => ringAfter qs w.2) []

theorem ringOf_snoc (issued : List (Nat × Item)) (w : Nat × Item) :
    ringOf (issued ++ [w]) = ringAfter (ringOf issued) w.2 := by
  simp [ringOf, List.foldl_append]

/-! ## A partition on the medium -/

/-- What is known about the blocks of a partition, whatever the medium holds. -/
structure RingPartition.Sound (env : Env) (q : RingPartition) : Prop where
  made : HeaderMade env q.header
  fits : q.blocks.length * indexEntryEncodedSize ≤ env.indexRegionSize
  decodes : env.Lawful → ∀ k ∈ q.blocks, decodePayload env k.header k.payload = .ok k.raw

/-- The structures of a partition lie where the format has them. -/
structure OnMedia (env : Env) (m : Image) (q : RingPartition) : Prop where
  window : m.window (env.partitionBase q.header.slot) partitionHeaderEncodedSize =
    Item.bytes env (.header q.header)
  chain : ∃ st, Chain env m q.header env.indexBegin {} q.frames st
  footer : q.isSealed = true → m.window (env.partitionBase q.header.slot + env.footerOffset)
    partitionFooterEncodedSize = encodePartitionFooter (q.footer env)
  index : q.isSealed = true → m.window (env.partitionBase q.header.slot + env.indexBegin)
    (encodeIndex q.entries).length = encodeIndex q.entries

/-- The catalog entry of a partition. -/
structure StateOf (env : Env) (q : RingPartition) (p : PartitionState) : Prop where
  header : p.header = { q.header with features := p.header.features }
  isSealed : p.isSealed = q.isSealed
  opened : q.isSealed = false → p = openState p.header q.frames
  closed : q.isSealed = true → p.footer = q.footer env

/-- The catalog lists the ring and nothing else, and its newest partition is the active one. -/
structure CatIs (env : Env) (qs : List RingPartition) (c : Cat) : Prop where
  states : List.Forall₂ (StateOf env) qs c.partitions
  newest : ∀ q, qs.getLast? = some q → c.generation = q.header.generation ∧ c.slot = q.header.slot
  undamaged : c.damaged = []

section
variable (env : Env) (prior : Image) (d : Disk Item)

/-- The medium holds the ring of the log over what was there before. -/
structure RingInv : Prop where
  size : (d.volatile (Item.bytes env)).size = prior.size
  first : (d.volatile (Item.bytes env)).window 0 volumeHeaderEncodedSize =
    encodeVolumeHeader env.volume
  second : (d.volatile (Item.bytes env)).window volumeHeaderCopySize volumeHeaderEncodedSize =
    encodeVolumeHeader env.volume
  sound : ∀ q ∈ ringOf d.issued, q.Sound env
  media : ∀ q ∈ ringOf d.issued, OnMedia env (d.volatile (Item.bytes env)) q
  order : Ordered (ringOf d.issued)
  closed : ∀ q ∈ (ringOf d.issued).dropLast, q.isSealed = true
  headers : ∀ off h, (off, Item.header h) ∈ d.issued →
    off = env.partitionBase h.slot ∧ ∃ q ∈ ringOf d.issued, q.header.slot = h.slot
  frames : ∀ off b payload raw, (off, Item.frame b payload raw) ∈ d.issued →
    (∃ q ∈ ringOf d.issued, b.generation ≤ q.header.generation) ∧
    ∀ q ∈ ringOf d.issued, b.generation = q.header.generation →
      (off, b, payload) ∈ chainFrames (env.partitionBase q.header.slot) partitionHeaderRegionSize
        q.frames
  footers : ∀ off f es, (off, Item.footer f es) ∈ d.issued →
    decodePartitionFooter (encodePartitionFooter f) = .ok f ∧
    (∃ q ∈ ringOf d.issued, f.generation ≤ q.header.generation) ∧
    ∀ q ∈ ringOf d.issued, f.generation = q.header.generation → q.isSealed = true
  footed : ∀ slot < env.volume.partitionCount,
    (d.volatile (Item.bytes env)).window (env.partitionBase slot + env.footerOffset)
        partitionFooterEncodedSize =
      prior.window (env.partitionBase slot + env.footerOffset) partitionFooterEncodedSize ∨
    ∃ f es, (env.partitionBase slot + env.footerOffset, Item.footer f es) ∈ d.issued ∧
      (d.volatile (Item.bytes env)).window (env.partitionBase slot + env.footerOffset)
        partitionFooterEncodedSize = encodePartitionFooter f
  unused : ∀ slot < env.volume.partitionCount, (∀ q ∈ ringOf d.issued, q.header.slot ≠ slot) →
    ∀ a, env.partitionBase slot ≤ a → a < env.partitionBase slot + env.partitionSize →
      (d.volatile (Item.bytes env)).byte a = prior.byte a

/-- What the phase of the writer has to do with the ring. -/
def RingPhase : Phase → Prop
  | .ready c => CatIs env (ringOf d.issued) c ∧
      ∃ older q, ringOf d.issued = older ++ [q] ∧ q.isSealed = false
  | .indexed c => CatIs env (ringOf d.issued) c ∧
      ∃ older q, ringOf d.issued = older ++ [q] ∧ q.isSealed = false ∧
        (d.volatile (Item.bytes env)).window (env.partitionBase q.header.slot + env.indexBegin)
          (encodeIndex q.entries).length = encodeIndex q.entries
  | .footed c => ∃ older q, ringOf d.issued = older ++ [q.close] ∧ q.isSealed = false ∧
      CatIs env (older ++ [q]) c
  | .rotating c slot generation => CatIs env (ringOf d.issued) c ∧
      (∀ q ∈ ringOf d.issued, q.isSealed = true ∧ q.header.generation < generation) ∧
      SlotOf env slot generation
  | .headed c h => ∃ older, ringOf d.issued = evict h.slot older ++ [{ header := h }] ∧
      CatIs env older c ∧ Ordered older ∧ ∀ q ∈ older, q.header.generation < h.generation
  | .halted => True

end

/-! ## Catalogs -/

theorem forall₂_snoc_inv {α β : Type} {R : α → β → Prop} {l : List α} {a : α} {m : List β}
    (h : List.Forall₂ R (l ++ [a]) m) : ∃ m' b, m = m' ++ [b] ∧ List.Forall₂ R l m' ∧ R a b := by
  induction l generalizing m with
  | nil =>
    cases h with
    | cons hab hn =>
      cases hn
      exact ⟨[], _, rfl, .nil, hab⟩
  | cons x l ih =>
    cases h with
    | cons hxy hl =>
      obtain ⟨m', b, rfl, hm, hb⟩ := ih hl
      exact ⟨_ :: m', b, rfl, .cons hxy hm, hb⟩

theorem forall₂_mem_right {α β : Type} {R : α → β → Prop} {l : List α} {m : List β}
    (h : List.Forall₂ R l m) {b : β} (hb : b ∈ m) : ∃ a ∈ l, R a b := by
  induction h with
  | nil => cases hb
  | cons hab _ ih =>
    rcases List.mem_cons.mp hb with rfl | hb
    · exact ⟨_, List.mem_cons_self .., hab⟩
    · obtain ⟨a, ha, hr⟩ := ih hb
      exact ⟨a, List.mem_cons_of_mem _ ha, hr⟩

theorem updateFirst_append {c : PartitionState → Bool} {f : PartitionState → PartitionState}
    {ps : List PartitionState} {p : PartitionState} (hps : ∀ q ∈ ps, c q = false) (hp : c p = true) :
    updateFirst c f (ps ++ [p]) = ps ++ [f p] := by
  induction ps with
  | nil => simp [updateFirst, hp]
  | cons q ps ih =>
    rw [List.cons_append, updateFirst, hps q (List.mem_cons_self ..), if_neg Bool.false_ne_true,
      ih fun r hr => hps r (List.mem_cons_of_mem _ hr), List.cons_append]

section
variable {env : Env} {q : RingPartition} {p : PartitionState}

theorem StateOf.slot (h : StateOf env q p) : p.header.slot = q.header.slot := by rw [h.header]

theorem StateOf.generation (h : StateOf env q p) : p.header.generation = q.header.generation := by
  rw [h.header]

theorem StateOf.options (h : StateOf env q p) : p.header.options = q.header.options := by
  rw [h.header]

/-- A footer says nothing about the features of the header. -/
theorem sealFooter_congr {h h' : PartitionHeader} (fs : List (BlockHeader × Bytes))
    (h1 : h'.slot = h.slot) (h2 : h'.generation = h.generation) :
    sealFooter env (openState h' fs) = sealFooter env (openState h fs) := by
  have hfold : ∀ (es : List IndexEntry) (a b : PartitionState), a.hasTime = b.hasTime →
      a.aggregateFlags = b.aggregateFlags → a.minTimeNs = b.minTimeNs → a.maxTimeNs = b.maxTimeNs →
      (es.foldl addTotals a).hasTime = (es.foldl addTotals b).hasTime ∧
      (es.foldl addTotals a).aggregateFlags = (es.foldl addTotals b).aggregateFlags ∧
      (es.foldl addTotals a).minTimeNs = (es.foldl addTotals b).minTimeNs ∧
      (es.foldl addTotals a).maxTimeNs = (es.foldl addTotals b).maxTimeNs := by
    intro es
    induction es with
    | nil => exact fun a b h1 h2 h3 h4 => ⟨h1, h2, h3, h4⟩
    | cons e es ih =>
      intro a b e1 e2 e3 e4
      exact ih _ _ rfl (by simp [addTotals, e2]) (by simp [addTotals, e1, e3])
        (by simp [addTotals, e1, e4])
  obtain ⟨e1, e2, e3, e4⟩ := hfold (chainEntries partitionHeaderRegionSize fs)
    { header := h', activeIndex := chainEntries partitionHeaderRegionSize fs
      dataEnd := chainEnd partitionHeaderRegionSize fs
      blockCount := UInt32.ofNat (chainEntries partitionHeaderRegionSize fs).length }
    { header := h, activeIndex := chainEntries partitionHeaderRegionSize fs
      dataEnd := chainEnd partitionHeaderRegionSize fs
      blockCount := UInt32.ofNat (chainEntries partitionHeaderRegionSize fs).length } rfl rfl rfl rfl
  have c1 : (openState h' fs).hasTime = (openState h fs).hasTime := e1
  have c2 : (openState h' fs).aggregateFlags = (openState h fs).aggregateFlags := e2
  have c3 : (openState h' fs).minTimeNs = (openState h fs).minTimeNs := e3
  have c4 : (openState h' fs).maxTimeNs = (openState h fs).maxTimeNs := e4
  simp only [sealFooter, openState_header, openState_activeIndex, openState_dataEnd, h1, h2, c1, c2,
    c3, c4]

/-- The footer the writer makes from its catalog entry. -/
theorem StateOf.sealFooter (h : StateOf env q p) (ho : q.isSealed = false) :
    sealFooter env p = q.footer env := by
  rw [h.opened ho]
  exact sealFooter_congr _ h.slot h.generation

theorem StateOf.activeIndex (h : StateOf env q p) (ho : q.isSealed = false) :
    p.activeIndex = q.entries := by
  rw [h.opened ho]
  exact openState_activeIndex _ _

theorem StateOf.dataEnd (h : StateOf env q p) (ho : q.isSealed = false) : p.dataEnd = q.dataEnd := by
  rw [h.opened ho]
  exact openState_dataEnd _ _

theorem StateOf.addBlock (h : StateOf env q p) (ho : q.isSealed = false) (k : RingBlock) :
    StateOf env (q.addBlock k) (Writer.addBlock p k.header
      (blockHeaderEncodedSize + k.header.storedSize.toNat) k.header.frameSpan.toNat) where
  header := h.header
  isSealed := h.isSealed
  opened _ := by
    rw [RingPartition.addBlock_frames, RingBlock.frame, ← addBlock_openState]
    show _ = Writer.addBlock (openState p.header q.frames) _ _ _
    rw [← h.opened ho]
  closed hs := by
    rw [RingPartition.addBlock_isSealed, ho] at hs
    cases hs

theorem StateOf.close (h : StateOf env q p) {f : PartitionFooter} (hf : f = q.footer env) :
    StateOf env q.close { p with isSealed := true, indexValid := true, footer := f } where
  header := h.header
  isSealed := rfl
  opened hs := by cases hs
  closed _ := hf

variable {qs older : List RingPartition} {c : Cat}

/-- The active partition of a catalog is the newest of the ring. -/
theorem CatIs.active (hc : CatIs env (older ++ [q]) c)
    (ho : ∀ r ∈ older, r.header.generation < q.header.generation) (hp : c.active = some p) :
    StateOf env q p := by
  obtain ⟨hmem, hgen, -⟩ := Cat.active_spec hp
  obtain ⟨r, hr, hrp⟩ := forall₂_mem_right hc.states hmem
  have hnew := (hc.newest q (by simp)).1
  rcases List.mem_append.mp hr with hr | hr
  · have hlt := ho r hr
    rw [← hrp.generation, hgen, hnew] at hlt
    exact absurd hlt (UInt64.lt_irrefl _)
  · rw [List.mem_singleton.mp hr] at hrp
    exact hrp

/-- A change of the active partition. -/
theorem CatIs.update (hc : CatIs env (older ++ [q]) c)
    (ho : ∀ r ∈ older, r.header.generation < q.header.generation) (q' : RingPartition)
    (hq : q'.header = q.header) {f : PartitionState → PartitionState}
    (hf : ∀ p, StateOf env q p → StateOf env q' (f p)) : CatIs env (older ++ [q']) (c.update f) := by
  obtain ⟨ps, p, hps, hstates, hp⟩ := forall₂_snoc_inv hc.states
  obtain ⟨hgen, hslot⟩ := hc.newest q (by simp)
  constructor
  · simp only [Cat.update]
    rw [hps, updateFirst_append]
    · exact List.rel_append hstates (.cons (hf p hp) .nil)
    · intro r hr
      obtain ⟨a, ha, har⟩ := forall₂_mem_right hstates hr
      have hlt := ho a ha
      have hne : r.header.generation ≠ c.generation := by
        intro he
        rw [← har.generation, he, hgen] at hlt
        exact UInt64.lt_irrefl _ hlt
      simp [PartitionState.is, hne]
    · simp [PartitionState.is, hp.generation, hp.slot, hgen, hslot]
  · intro r hr
    simp only [List.getLast?_append, List.getLast?_singleton, Option.some_or, Option.some.injEq] at hr
    subst hr
    rw [hq]
    exact ⟨hgen, hslot⟩
  · exact hc.undamaged

theorem states_generations {ps : List PartitionState} (h : List.Forall₂ (StateOf env) qs ps) :
    ps.map (fun p => p.header.generation) = qs.map fun q => q.header.generation := by
  induction h with
  | nil => rfl
  | cons hab _ ih => rw [List.map_cons, List.map_cons, ih, hab.generation]

/-- A catalog that lists a ring is in order. -/
theorem sortPartitions_states {ps : List PartitionState} (h : List.Forall₂ (StateOf env) qs ps)
    (horder : Ordered qs) : sortPartitions ps = ps := by
  have hmap : (ps.map fun p => p.header.generation).Pairwise (· < ·) := by
    rw [states_generations h, List.pairwise_map]
    exact horder.imp And.left
  rw [List.pairwise_map] at hmap
  refine List.mergeSort_of_pairwise (hmap.imp fun hab => ?_)
  simpa [byGeneration] using UInt64.le_of_lt hab

theorem Ordered.install (horder : Ordered qs) {h : PartitionHeader}
    (hnew : ∀ q ∈ qs, q.header.generation < h.generation) :
    Ordered (evict h.slot qs ++ [{ header := h }]) := by
  refine List.pairwise_append.mpr ⟨horder.filter _, List.pairwise_singleton _ _, ?_⟩
  intro a ha b hb
  obtain ⟨ha, hs⟩ := List.mem_filter.mp ha
  rw [List.mem_singleton.mp hb]
  exact ⟨hnew a ha, by simpa using hs⟩

/-- A new partition takes the place of the one that had its slot. -/
theorem CatIs.install (hc : CatIs env qs c) (horder : Ordered qs) {h : PartitionHeader}
    (hnew : ∀ q ∈ qs, q.header.generation < h.generation) :
    CatIs env (evict h.slot qs ++ [{ header := h }]) (c.install h) := by
  have hfilter : List.Forall₂ (StateOf env) (evict h.slot qs)
      (c.partitions.filter fun p => p.header.slot != h.slot) := by
    refine List.rel_filter (fun a b hab => ?_) hc.states
    simp [hab.slot]
  have hfresh : StateOf env { header := h } { header := h } :=
    ⟨rfl, rfl, fun _ => (openState_nil h).symm, fun hs => by cases hs⟩
  have hall := List.rel_append hfilter (.cons hfresh .nil)
  constructor
  · simp only [Cat.install]
    rw [sortPartitions_states hall (horder.install hnew)]
    exact hall
  · intro r hr
    simp only [List.getLast?_append, List.getLast?_singleton, Option.some_or, Option.some.injEq] at hr
    subst hr
    exact ⟨rfl, rfl⟩
  · simp [Cat.install, hc.undamaged]

end

/-! ## Writes into the newest partition -/

section
variable {env : Env} {m m' : Image} {q : RingPartition}

theorem OnMedia.dataEnd_le (h : OnMedia env m q) (g : Geometry env) :
    partitionHeaderRegionSize ≤ q.dataEnd ∧ q.dataEnd ≤ env.indexBegin := by
  obtain ⟨st, hc⟩ := h.chain
  have hcur := hc.cursor_eq
  have hlim := hc.cursor_limit (Nat.le_of_lt g.header_lt_indexBegin)
  rw [hcur] at hlim
  exact ⟨chainEnd_ge _ _, hlim⟩

/-- A partition only depends on its header, its frames and, once sealed, the rest of its slot. -/
theorem OnMedia.congr (h : OnMedia env m q) (g : Geometry env) (hsound : q.Sound env)
    (hw : ∀ a, env.partitionBase q.header.slot ≤ a →
      a < env.partitionBase q.header.slot + env.partitionSize →
      (a < env.partitionBase q.header.slot + partitionHeaderRegionSize ∨
        a < env.partitionBase q.header.slot + q.dataEnd ∨ q.isSealed = true) →
      m'.byte a = m.byte a) : OnMedia env m' q := by
  obtain ⟨h1, h2⟩ := h.dataEnd_le g
  obtain ⟨-, hheader, hfooter, -, -, -, -, -, hoff, hsum⟩ := slot_parts g
  constructor
  · rw [← h.window]
    refine Image.window_congr fun a ha1 ha2 => hw a ha1 ?_ (Or.inl ?_)
    · simp only [partitionHeaderRegionSize] at h1
      omega
    · simp only [partitionHeaderRegionSize]
      omega
  · obtain ⟨st, hc⟩ := h.chain
    have hcur := hc.cursor_eq
    refine ⟨st, hc.congr fun a ha1 ha2 => ?_⟩
    have ha2' : a < env.partitionBase q.header.slot + q.dataEnd := by
      rw [hcur] at ha2
      exact ha2
    exact hw a (by omega) (by omega) (Or.inr (Or.inl ha2'))
  · intro hs
    rw [← h.footer hs]
    exact Image.window_congr fun a ha1 ha2 => hw a (by omega) (by omega) (Or.inr (Or.inr hs))
  · intro hs
    refine Eq.trans (Image.window_congr fun a ha1 ha2 => ?_) (h.index hs)
    refine hw a (by omega) ?_ (Or.inr (Or.inr hs))
    have hfits := hsound.fits
    rw [encodeIndex_length, RingPartition.entries, chainEntries_length, RingPartition.frames,
      List.length_map] at ha2
    simp only [indexEntryEncodedSize] at hfits
    omega

end

section
variable {env : Env} {prior : Image} {d : Disk Item}

theorem volatile_issue_size (off : Nat) (i : Item) (n : Nat) :
    ((d.issue off i n).volatile (Item.bytes env)).size = (d.volatile (Item.bytes env)).size := by
  rw [Disk.volatile_size, Disk.volatile_size, Disk.issue_durable]

/-- A write into a slot does not touch another slot or the volume headers. -/
theorem volatile_issue_elsewhere {slot : UInt32} {off n : Nat} {i : Item}
    (hlow : env.partitionBase slot ≤ off)
    (hhigh : off + (i.bytes env).length ≤ env.partitionBase slot + env.partitionSize) {a : Nat}
    (ha : a < volumePrefixSize ∨ ∃ t, t ≠ slot ∧ env.partitionBase t ≤ a ∧
      a < env.partitionBase t + env.partitionSize) :
    ((d.issue off i n).volatile (Item.bytes env)).byte a = (d.volatile (Item.bytes env)).byte a := by
  refine Disk.volatile_issue_out _ ?_
  rcases ha with ha | ⟨t, ht, h1, h2⟩
  · have hbase : volumePrefixSize ≤ env.partitionBase slot := Nat.le_add_right ..
    omega
  · rcases Geometry.slots_disjoint env ht with hd | hd
    · omega
    · omega

/-- A generation occurs once. -/
theorem Ordered.unique {qs : List RingPartition} (h : Ordered qs) {q r : RingPartition} (hq : q ∈ qs)
    (hr : r ∈ qs) (hg : q.header.generation = r.header.generation) : q = r := by
  induction qs with
  | nil => cases hq
  | cons a qs ih =>
    obtain ⟨ha, hqs⟩ := List.pairwise_cons.mp h
    rcases List.mem_cons.mp hq with hqa | hqt
    · rcases List.mem_cons.mp hr with hra | hrt
      · rw [hqa, hra]
      · have hlt := (ha r hrt).1
        rw [← hqa, hg] at hlt
        exact absurd hlt (UInt64.lt_irrefl _)
    · rcases List.mem_cons.mp hr with hra | hrt
      · have hlt := (ha q hqt).1
        rw [← hra, hg] at hlt
        exact absurd hlt (UInt64.lt_irrefl _)
      · exact ih hqs hqt hrt

theorem Ordered.last {older : List RingPartition} {q : RingPartition} (h : Ordered (older ++ [q])) :
    Ordered older ∧ ∀ r ∈ older, r.header.generation < q.header.generation ∧
      r.header.slot ≠ q.header.slot := by
  obtain ⟨h1, -, h2⟩ := List.pairwise_append.mp h
  exact ⟨h1, fun r hr => h2 r hr q (List.mem_singleton_self q)⟩

/-- A write into the newest partition, behind its frames. -/
theorem RingInv.amend (g : Geometry env) (hr : RingInv env prior d) {older : List RingPartition}
    {q : RingPartition} (q' : RingPartition) (hqs : ringOf d.issued = older ++ [q])
    (hq : q'.header = q.header) {off : Nat} {i : Item}
    (hring : ringAfter (older ++ [q]) i = older ++ [q']) (hi : ∀ h, i ≠ .header h)
    (hlow : env.partitionBase q.header.slot ≤ off)
    (hhigh : off + (i.bytes env).length ≤ env.partitionBase q.header.slot + env.partitionSize)
    (hsound : q'.Sound env)
    (hmedia : OnMedia env ((d.issue off i (i.bytes env).length).volatile (Item.bytes env)) q')
    (hframes : ∀ o b payload raw, (o, Item.frame b payload raw) ∈ d.issued ++ [(off, i)] →
      b.generation = q.header.generation → (o, b, payload) ∈
        chainFrames (env.partitionBase q.header.slot) partitionHeaderRegionSize q'.frames)
    (hframe : ∀ b payload raw, i = .frame b payload raw → b.generation = q.header.generation)
    (hclosed : q.isSealed = true → q'.isSealed = true)
    (hfooter : ∀ f es, i = .footer f es → decodePartitionFooter (encodePartitionFooter f) = .ok f ∧
      q'.isSealed = true ∧ f.generation = q.header.generation)
    (hfoot : off + (i.bytes env).length ≤ env.partitionBase q.header.slot + env.footerOffset ∨
      ∃ f es, i = .footer f es ∧ off = env.partitionBase q.header.slot + env.footerOffset) :
    RingInv env prior (d.issue off i (i.bytes env).length) := by
  have hafter : ringOf (d.issue off i (i.bytes env).length).issued = older ++ [q'] := by
    rw [Disk.issue_issued, ringOf_snoc, hqs, hring]
  obtain ⟨-, -, -, -, -, -, -, -, hoffset, hend⟩ := slot_parts g
  have horder := hr.order
  rw [hqs] at horder
  obtain ⟨-, hlast⟩ := horder.last
  have helse : ∀ a, (a < volumePrefixSize ∨ ∃ t, t ≠ q.header.slot ∧ env.partitionBase t ≤ a ∧
      a < env.partitionBase t + env.partitionSize) →
      ((d.issue off i (i.bytes env).length).volatile (Item.bytes env)).byte a =
        (d.volatile (Item.bytes env)).byte a :=
    fun a ha => volatile_issue_elsewhere hlow hhigh ha
  have hold : ∀ r ∈ older, r ∈ ringOf d.issued := by
    intro r hr
    rw [hqs]
    exact List.mem_append_left _ hr
  -- the newest partition keeps its header, so the ring keeps its slots and generations
  have hmem : ∀ r ∈ ringOf d.issued, ∃ r' ∈ older ++ [q'], r'.header = r.header := by
    intro r hr
    rw [hqs] at hr
    rcases List.mem_append.mp hr with hr | hr
    · exact ⟨r, List.mem_append_left _ hr, rfl⟩
    · rw [List.mem_singleton.mp hr]
      exact ⟨q', List.mem_append_right _ (List.mem_singleton_self _), hq⟩
  constructor
  · rw [volatile_issue_size]
    exact hr.size
  · rw [← hr.first]
    refine Image.window_congr fun a _ h2 => helse a (Or.inl ?_)
    simp only [volumePrefixSize, volumeHeaderEncodedSize] at *
    omega
  · rw [← hr.second]
    refine Image.window_congr fun a _ h2 => helse a (Or.inl ?_)
    simp only [volumePrefixSize, volumeHeaderEncodedSize, volumeHeaderCopySize] at *
    omega
  · rw [hafter]
    intro r hm
    rcases List.mem_append.mp hm with hm | hm
    · exact hr.sound r (hold r hm)
    · rw [List.mem_singleton.mp hm]
      exact hsound
  · rw [hafter]
    intro r hm
    rcases List.mem_append.mp hm with hm | hm
    · exact (hr.media r (hold r hm)).congr g (hr.sound r (hold r hm)) fun a h1 h2 _ =>
        helse a (Or.inr ⟨_, (hlast r hm).2, h1, h2⟩)
    · rw [List.mem_singleton.mp hm]
      exact hmedia
  · rw [hafter]
    refine List.pairwise_append.mpr ⟨horder.last.1, List.pairwise_singleton _ _, ?_⟩
    intro a ha b hb
    rw [List.mem_singleton.mp hb, hq]
    exact hlast a ha
  · rw [hafter, List.dropLast_concat]
    have hc := hr.closed
    rw [hqs, List.dropLast_concat] at hc
    exact hc
  · intro o h hm
    rcases List.mem_append.mp hm with hm | hm
    · obtain ⟨ho, r, hr, hs⟩ := hr.headers o h hm
      obtain ⟨r', hr', hh⟩ := hmem r hr
      rw [hafter]
      exact ⟨ho, r', hr', by rw [hh]; exact hs⟩
    · exact absurd (Prod.mk.inj (List.mem_singleton.mp hm)).2.symm (hi h)
  · intro o b payload raw hm
    rw [hafter]
    constructor
    · rcases List.mem_append.mp hm with hm | hm
      · obtain ⟨⟨r, hr, hle⟩, -⟩ := hr.frames o b payload raw hm
        obtain ⟨r', hr', hh⟩ := hmem r hr
        exact ⟨r', hr', by rw [hh]; exact hle⟩
      · have := hframe b payload raw (Prod.mk.inj (List.mem_singleton.mp hm)).2.symm
        refine ⟨q', List.mem_append_right _ (List.mem_singleton_self _), ?_⟩
        rw [hq, this]
        exact UInt64.le_refl _
    · intro r hrm hg
      rcases List.mem_append.mp hrm with hrm | hrm
      · rcases List.mem_append.mp hm with hm | hm
        · exact (hr.frames o b payload raw hm).2 r (hold r hrm) hg
        · have := hframe b payload raw (Prod.mk.inj (List.mem_singleton.mp hm)).2.symm
          have hlt := (hlast r hrm).1
          rw [← hg, this] at hlt
          exact absurd hlt (UInt64.lt_irrefl _)
      · rw [List.mem_singleton.mp hrm] at hg ⊢
        rw [hq] at hg ⊢
        exact hframes o b payload raw hm hg
  · intro o f es hm
    rw [hafter]
    refine ⟨?_, ?_, ?_⟩
    · rcases List.mem_append.mp hm with hm | hm
      · exact (hr.footers o f es hm).1
      · exact (hfooter f es (Prod.mk.inj (List.mem_singleton.mp hm)).2.symm).1
    · rcases List.mem_append.mp hm with hm | hm
      · obtain ⟨-, ⟨r, hr, hle⟩, -⟩ := hr.footers o f es hm
        obtain ⟨r', hr', hh⟩ := hmem r hr
        exact ⟨r', hr', by rw [hh]; exact hle⟩
      · have := (hfooter f es (Prod.mk.inj (List.mem_singleton.mp hm)).2.symm).2.2
        refine ⟨q', List.mem_append_right _ (List.mem_singleton_self _), ?_⟩
        rw [hq, this]
        exact UInt64.le_refl _
    · intro r hrm hg
      rcases List.mem_append.mp hrm with hrm | hrm
      · have hc := hr.closed
        rw [hqs, List.dropLast_concat] at hc
        exact hc r hrm
      · rw [List.mem_singleton.mp hrm] at hg ⊢
        rcases List.mem_append.mp hm with hm | hm
        · rw [hq] at hg
          refine hclosed ((hr.footers o f es hm).2.2 q ?_ hg)
          rw [hqs]
          exact List.mem_append_right _ (List.mem_singleton_self _)
        · exact (hfooter f es (Prod.mk.inj (List.mem_singleton.mp hm)).2.symm).2.1
  · intro slot hslot
    by_cases hs : slot = q.header.slot
    · rcases hfoot with hfoot | ⟨f, es, rfl, hoff⟩
      · have hwin : ((d.issue off i (i.bytes env).length).volatile (Item.bytes env)).window
            (env.partitionBase slot + env.footerOffset) partitionFooterEncodedSize =
            (d.volatile (Item.bytes env)).window (env.partitionBase slot + env.footerOffset)
              partitionFooterEncodedSize := by
          refine Image.window_congr fun a h1 _ => Disk.volatile_issue_out _ (Or.inr ?_)
          rw [hs] at h1
          omega
        rw [hwin]
        rcases hr.footed slot hslot with h | ⟨f, es, hm, h⟩
        · exact Or.inl h
        · exact Or.inr ⟨f, es, List.mem_append_left _ hm, h⟩
      · refine Or.inr ⟨f, es, ?_, ?_⟩
        · rw [hs, ← hoff]
          exact List.mem_append_right _ (List.mem_singleton_self _)
        · rw [hs, ← hoff]
          have hlen : (Item.bytes env (.footer f es)).length = partitionFooterEncodedSize :=
            Item.bytes_footer_length env f es
          rw [← hlen]
          exact Disk.volatile_issue_whole _ _ off (Nat.le_refl _)
    · have hwin : ((d.issue off i (i.bytes env).length).volatile (Item.bytes env)).window
          (env.partitionBase slot + env.footerOffset) partitionFooterEncodedSize =
          (d.volatile (Item.bytes env)).window (env.partitionBase slot + env.footerOffset)
            partitionFooterEncodedSize := by
        refine Image.window_congr fun a h1 h2 => helse a (Or.inr ⟨slot, hs, by omega, ?_⟩)
        simp only [partitionFooterEncodedSize] at h2
        omega
      rw [hwin]
      rcases hr.footed slot hslot with h | ⟨f, es, hm, h⟩
      · exact Or.inl h
      · exact Or.inr ⟨f, es, List.mem_append_left _ hm, h⟩
  · rw [hafter]
    intro slot hslot hun a h1 h2
    have hs : slot ≠ q.header.slot := fun he =>
      hun q' (List.mem_append_right _ (List.mem_singleton_self _)) (by rw [hq, he])
    rw [helse a (Or.inr ⟨slot, hs, h1, h2⟩)]
    refine hr.unused slot hslot (fun r hrm => ?_) a h1 h2
    obtain ⟨r', hr', hh⟩ := hmem r hrm
    rw [← hh]
    exact hun r' hr'

/-- The open partition behind a catalog entry. -/
theorem OnMedia.open {m : Image} {q : RingPartition} {p : PartitionState} (h : OnMedia env m q)
    (hs : q.Sound env) (hp : StateOf env q p) (ho : q.isSealed = false) :
    ∃ st, Open env m p q.header q.frames st := by
  obtain ⟨st, hc⟩ := h.chain
  exact ⟨st, hs.made, hp.slot, hp.generation, hp.options, h.window, hc, hp.opened ho⟩

theorem RingPartition.frames_length (q : RingPartition) : q.frames.length = q.blocks.length := by
  simp [RingPartition.frames]

theorem RingPartition.index_length (q : RingPartition) :
    (encodeIndex q.entries).length = q.blocks.length * 48 := by
  rw [encodeIndex_length, RingPartition.entries, chainEntries_length, q.frames_length]

/-- A frame behind the last block. -/
theorem RingInv.frame (g : Geometry env) (hr : RingInv env prior d) {older : List RingPartition}
    {q : RingPartition} (hqs : ringOf d.issued = older ++ [q]) (ho : q.isSealed = false) {c : Cat}
    {p : PartitionState} (hp : StateOf env q p) {b : BlockHeader} {payload raw : Bytes}
    (hf : FrameOk env c p b payload raw) :
    RingInv env prior (d.issue (env.partitionBase p.header.slot + p.dataEnd) (.frame b payload raw)
      (Item.bytes env (.frame b payload raw)).length) := by
  have hq : q ∈ ringOf d.issued := by
    rw [hqs]
    exact List.mem_append_right _ (List.mem_singleton_self _)
  have hmedia := hr.media q hq
  have hsound := hr.sound q hq
  obtain ⟨h1, h2⟩ := hmedia.dataEnd_le g
  obtain ⟨-, -, -, -, -, -, -, -, hoffset, hend⟩ := slot_parts g
  obtain ⟨-, hspan, -, -⟩ := alignUp_spec hf.span
  have hroom := hf.room
  have hlen := Item.bytes_frame_length env b payload raw
  have hgen : b.generation = q.header.generation := hf.generation.trans hp.generation
  simp only [blockHeaderEncodedSize] at hspan
  rw [hp.dataEnd ho] at hroom ⊢
  rw [hp.slot]
  have hout (a : Nat) (ha : a < env.partitionBase q.header.slot + q.dataEnd) :
      ((d.issue (env.partitionBase q.header.slot + q.dataEnd) (.frame b payload raw)
        (Item.bytes env (.frame b payload raw)).length).volatile (Item.bytes env)).byte a =
        (d.volatile (Item.bytes env)).byte a := Disk.volatile_issue_out _ (Or.inl ha)
  -- the partition with the new frame
  obtain ⟨st, hopen⟩ := hmedia.open hsound hp ho
  have hnew := hopen.snoc g ((d.issue (env.partitionBase q.header.slot + q.dataEnd)
      (.frame b payload raw) (Item.bytes env (.frame b payload raw)).length).volatile
      (Item.bytes env)) hf (fun a ha => hout a (by rw [hp.dataEnd ho] at ha; exact ha)) (by
    rw [hp.dataEnd ho, ← hlen]
    exact Disk.volatile_issue_whole _ _ _ (Nat.le_refl _))
  refine hr.amend g (q.addBlock ⟨b, payload, raw⟩) hqs rfl ?_ (by simp) (by omega) ?_ ?_ ?_ ?_
    ?_ (fun hs => hs) (by simp) (Or.inl ?_)
  · exact amendLast_append _ _ _
  · rw [hlen]
    omega
  · refine ⟨hsound.made, ?_, fun hl k hk => ?_⟩
    · have hcount := hf.count
      rw [hp.activeIndex ho, RingPartition.entries, chainEntries_length, q.frames_length] at hcount
      simp only [RingPartition.addBlock, List.length_append, List.length_singleton]
      exact (Nat.le_div_iff_mul_le (by decide)).mp hcount
    · rcases List.mem_append.mp hk with hk | hk
      · exact hsound.decodes hl k hk
      · rw [List.mem_singleton.mp hk]
        exact hf.decodes hl
  · refine ⟨hnew.window, ⟨st.next b, ?_⟩, fun hs => ?_, fun hs => ?_⟩
    · rw [RingPartition.addBlock_frames]
      exact hnew.chain
    · rw [RingPartition.addBlock_isSealed, ho] at hs
      cases hs
    · rw [RingPartition.addBlock_isSealed, ho] at hs
      cases hs
  · intro o b' payload' raw' hm hg
    rw [RingPartition.addBlock_frames, chainFrames_append]
    rcases List.mem_append.mp hm with hm | hm
    · exact List.mem_append_left _ ((hr.frames o b' payload' raw' hm).2 q hq hg)
    · obtain ⟨rfl, hi⟩ := Prod.mk.inj (List.mem_singleton.mp hm)
      cases hi
      exact List.mem_append_right _ (List.mem_singleton.mpr rfl)
  · intro b' payload' raw' hi
    cases hi
    exact hgen
  · rw [hlen]
    omega

/-- The index of the newest partition. -/
theorem RingInv.index (g : Geometry env) (hr : RingInv env prior d) {older : List RingPartition}
    {q : RingPartition} (hqs : ringOf d.issued = older ++ [q]) (ho : q.isSealed = false)
    {p : PartitionState} (hp : StateOf env q p) :
    RingInv env prior (d.issue (env.partitionBase p.header.slot + env.indexBegin)
      (.index p.activeIndex) (Item.bytes env (.index p.activeIndex)).length) := by
  have hq : q ∈ ringOf d.issued := by
    rw [hqs]
    exact List.mem_append_right _ (List.mem_singleton_self _)
  have hmedia := hr.media q hq
  have hsound := hr.sound q hq
  obtain ⟨h1, h2⟩ := hmedia.dataEnd_le g
  obtain ⟨-, -, -, -, -, -, -, -, hoffset, hend⟩ := slot_parts g
  have hfits := hsound.fits
  have hlen : (Item.bytes env (.index p.activeIndex)).length = q.blocks.length * 48 := by
    rw [hp.activeIndex ho]
    exact q.index_length
  simp only [indexEntryEncodedSize] at hfits
  rw [hp.slot]
  refine hr.amend g q hqs rfl rfl (by simp) (by omega) (by omega) hsound ?_ ?_ (by simp)
    (fun hs => hs) (by simp) (Or.inl (by omega))
  · refine hmedia.congr g hsound fun a h3 h4 h5 => Disk.volatile_issue_out _ (Or.inl ?_)
    rcases h5 with h5 | h5 | h5
    · simp only [partitionHeaderRegionSize] at h5 h1
      omega
    · omega
    · rw [ho] at h5
      cases h5
  · intro o b payload raw hm hg
    rcases List.mem_append.mp hm with hm | hm
    · exact (hr.frames o b payload raw hm).2 q hq hg
    · cases (Prod.mk.inj (List.mem_singleton.mp hm)).2

theorem OnMedia.sealedBy {m : Image} {q : RingPartition} (h : OnMedia env m q) (hs : q.Sound env) :
    SealedBy env (q.footer env) q.entries q.header q.frames := by
  obtain ⟨st, hc⟩ := h.chain
  refine ⟨⟨m, st, hc⟩, rfl, rfl, ?_⟩
  rw [q.index_length]
  exact hs.fits

/-- The footer of the newest partition; its index is in place. -/
theorem RingInv.footer (g : Geometry env) (hr : RingInv env prior d) {older : List RingPartition}
    {q : RingPartition} (hqs : ringOf d.issued = older ++ [q]) (ho : q.isSealed = false)
    {p : PartitionState} (hp : StateOf env q p)
    (hindex : (d.volatile (Item.bytes env)).window (env.partitionBase q.header.slot + env.indexBegin)
      (encodeIndex q.entries).length = encodeIndex q.entries) :
    RingInv env prior (d.issue (env.partitionBase p.header.slot + env.footerOffset)
      (.footer (sealFooter env p) p.activeIndex)
      (Item.bytes env (.footer (sealFooter env p) p.activeIndex)).length) := by
  have hq : q ∈ ringOf d.issued := by
    rw [hqs]
    exact List.mem_append_right _ (List.mem_singleton_self _)
  have hmedia := hr.media q hq
  have hsound := hr.sound q hq
  have hseal := hmedia.sealedBy hsound
  obtain ⟨h1, h2⟩ := hmedia.dataEnd_le g
  obtain ⟨-, -, -, -, -, -, -, -, hoffset, hend⟩ := slot_parts g
  have hfits := hsound.fits
  rw [hp.sealFooter ho, hp.activeIndex ho, hp.slot]
  have hlen := Item.bytes_footer_length env (q.footer env) q.entries
  simp only [indexEntryEncodedSize] at hfits
  have hout (a : Nat) (ha : a < env.partitionBase q.header.slot + env.footerOffset) :
      ((d.issue (env.partitionBase q.header.slot + env.footerOffset)
        (.footer (q.footer env) q.entries)
        (Item.bytes env (.footer (q.footer env) q.entries)).length).volatile (Item.bytes env)).byte a =
        (d.volatile (Item.bytes env)).byte a := Disk.volatile_issue_out _ (Or.inl ha)
  refine hr.amend g q.close hqs rfl ?_ (by simp) (by omega) (by omega) ?_ ?_ ?_ (by simp)
    (fun _ => rfl) ?_ (Or.inr ⟨_, _, rfl, rfl⟩)
  · exact amendLast_append _ _ _
  · exact ⟨hsound.made, hsound.fits, hsound.decodes⟩
  · have hkept : OnMedia env ((d.issue
        (env.partitionBase q.header.slot + env.footerOffset) (.footer (q.footer env) q.entries)
        (Item.bytes env (.footer (q.footer env) q.entries)).length).volatile (Item.bytes env)) q :=
      hmedia.congr g hsound fun a h3 h4 h5 => hout a (by
        rcases h5 with h5 | h5 | h5
        · simp only [partitionHeaderRegionSize] at h5 h1
          omega
        · omega
        · rw [ho] at h5
          cases h5)
    refine ⟨hkept.window, hkept.chain, fun _ => ?_, fun _ => ?_⟩
    · have hsz : (Item.bytes env (.footer (q.footer env) q.entries)).length =
          partitionFooterEncodedSize := hlen
      rw [← hsz]
      exact Disk.volatile_issue_whole _ _ _ (Nat.le_refl _)
    · refine Eq.trans (Image.window_congr fun a _ h4 => hout a ?_) hindex
      have hlen' : (encodeIndex q.close.entries).length = q.blocks.length * 48 := q.index_length
      rw [hlen'] at h4
      have h4' : a < env.partitionBase q.header.slot + env.indexBegin + q.blocks.length * 48 := h4
      omega
  · intro o b payload raw hm hg
    rcases List.mem_append.mp hm with hm | hm
    · exact (hr.frames o b payload raw hm).2 q hq hg
    · cases (Prod.mk.inj (List.mem_singleton.mp hm)).2
  · intro f es hi
    cases hi
    exact ⟨hseal.decodes, rfl, hseal.generation⟩

/-! ## A new partition -/

theorem mem_evict {slot : UInt32} {qs : List RingPartition} {q : RingPartition} :
    q ∈ evict slot qs ↔ q ∈ qs ∧ q.header.slot ≠ slot := by
  simp [evict]

/-- The header of a new partition. -/
theorem RingInv.header (g : Geometry env) (hr : RingInv env prior d) {h : PartitionHeader}
    (hmade : HeaderMade env h)
    (hall : ∀ q ∈ ringOf d.issued, q.isSealed = true ∧ q.header.generation < h.generation) :
    RingInv env prior (d.issue (env.partitionBase h.slot) (.header h)
      (Item.bytes env (.header h)).length) := by
  have hafter : ringOf (d.issue (env.partitionBase h.slot) (.header h)
      (Item.bytes env (.header h)).length).issued =
      evict h.slot (ringOf d.issued) ++ [{ header := h }] := by
    rw [Disk.issue_issued, ringOf_snoc]
    rfl
  obtain ⟨-, -, -, -, -, -, -, hbegin, hoffset, hend⟩ := slot_parts g
  have hlen := Item.bytes_header_length env h
  have hslot := hmade.slotOf.lt g
  have helse : ∀ a, (a < volumePrefixSize ∨ ∃ t, t ≠ h.slot ∧ env.partitionBase t ≤ a ∧
      a < env.partitionBase t + env.partitionSize) →
      ((d.issue (env.partitionBase h.slot) (.header h)
        (Item.bytes env (.header h)).length).volatile (Item.bytes env)).byte a =
        (d.volatile (Item.bytes env)).byte a :=
    fun a ha => volatile_issue_elsewhere (Nat.le_refl _) (by omega) ha
  have hnew : ({ header := h } : RingPartition) ∈
      evict h.slot (ringOf d.issued) ++ [({ header := h } : RingPartition)] :=
    List.mem_append_right _ (List.mem_singleton_self _)
  -- nothing older reaches the new generation
  have hle {generation : UInt64} (hg : ∃ q ∈ ringOf d.issued, generation ≤ q.header.generation) :
      generation < h.generation := by
    obtain ⟨q, hq, hle⟩ := hg
    exact UInt64.lt_of_le_of_lt hle (hall q hq).2
  constructor
  · rw [volatile_issue_size]
    exact hr.size
  · rw [← hr.first]
    refine Image.window_congr fun a _ h2 => helse a (Or.inl ?_)
    simp only [volumePrefixSize, volumeHeaderEncodedSize] at *
    omega
  · rw [← hr.second]
    refine Image.window_congr fun a _ h2 => helse a (Or.inl ?_)
    simp only [volumePrefixSize, volumeHeaderEncodedSize, volumeHeaderCopySize] at *
    omega
  · rw [hafter]
    intro q hq
    rcases List.mem_append.mp hq with hq | hq
    · exact hr.sound q (mem_evict.mp hq).1
    · rw [List.mem_singleton.mp hq]
      exact ⟨hmade, Nat.zero_le _, fun _ k hk => by cases hk⟩
  · rw [hafter]
    intro q hq
    rcases List.mem_append.mp hq with hq | hq
    · obtain ⟨hq, hs⟩ := mem_evict.mp hq
      exact (hr.media q hq).congr g (hr.sound q hq) fun a h1 h2 _ =>
        helse a (Or.inr ⟨_, hs, h1, h2⟩)
    · rw [List.mem_singleton.mp hq]
      refine ⟨?_, ⟨{}, .nil _⟩, fun hs => (by cases hs), fun hs => (by cases hs)⟩
      have hsz : (Item.bytes env (.header h)).length = partitionHeaderEncodedSize := hlen
      rw [← hsz]
      exact Disk.volatile_issue_whole _ _ _ (Nat.le_refl _)
  · rw [hafter]
    exact hr.order.install fun q hq => (hall q hq).2
  · rw [hafter, List.dropLast_concat]
    exact fun q hq => (hall q (mem_evict.mp hq).1).1
  · intro o h' hm
    rw [hafter]
    rcases List.mem_append.mp hm with hm | hm
    · obtain ⟨ho, q, hq, hs⟩ := hr.headers o h' hm
      refine ⟨ho, ?_⟩
      by_cases he : h'.slot = h.slot
      · exact ⟨_, hnew, he.symm⟩
      · exact ⟨q, List.mem_append_left _ (mem_evict.mpr ⟨hq, by rw [hs]; exact he⟩), hs⟩
    · obtain ⟨rfl, hi⟩ := Prod.mk.inj (List.mem_singleton.mp hm)
      cases hi
      exact ⟨rfl, _, hnew, rfl⟩
  · intro o b payload raw hm
    rw [hafter]
    rcases List.mem_append.mp hm with hm | hm
    · obtain ⟨hg, hf⟩ := hr.frames o b payload raw hm
      have hlt := hle hg
      refine ⟨⟨_, hnew, UInt64.le_of_lt hlt⟩, fun q hq he => ?_⟩
      rcases List.mem_append.mp hq with hq | hq
      · exact hf q (mem_evict.mp hq).1 he
      · rw [List.mem_singleton.mp hq] at he
        rw [he] at hlt
        exact absurd hlt (UInt64.lt_irrefl _)
    · cases (Prod.mk.inj (List.mem_singleton.mp hm)).2
  · intro o f es hm
    rw [hafter]
    rcases List.mem_append.mp hm with hm | hm
    · obtain ⟨hdec, hg, hf⟩ := hr.footers o f es hm
      have hlt := hle hg
      refine ⟨hdec, ⟨_, hnew, UInt64.le_of_lt hlt⟩, fun q hq he => ?_⟩
      rcases List.mem_append.mp hq with hq | hq
      · exact hf q (mem_evict.mp hq).1 he
      · rw [List.mem_singleton.mp hq] at he
        rw [he] at hlt
        exact absurd hlt (UInt64.lt_irrefl _)
    · cases (Prod.mk.inj (List.mem_singleton.mp hm)).2
  · intro slot hs
    have hwin : ((d.issue (env.partitionBase h.slot) (.header h)
        (Item.bytes env (.header h)).length).volatile (Item.bytes env)).window
        (env.partitionBase slot + env.footerOffset) partitionFooterEncodedSize =
        (d.volatile (Item.bytes env)).window (env.partitionBase slot + env.footerOffset)
          partitionFooterEncodedSize := by
      refine Image.window_congr fun a h1 h2 => ?_
      simp only [partitionFooterEncodedSize] at h2
      by_cases he : slot = h.slot
      · refine Disk.volatile_issue_out _ (Or.inr ?_)
        rw [he] at h1
        omega
      · exact helse a (Or.inr ⟨slot, he, by omega, by omega⟩)
    rw [hwin]
    rcases hr.footed slot hs with h | ⟨f, es, hm, h⟩
    · exact Or.inl h
    · exact Or.inr ⟨f, es, List.mem_append_left _ hm, h⟩
  · rw [hafter]
    intro slot hs hun a h1 h2
    have hne : slot ≠ h.slot := fun he => hun _ hnew he.symm
    rw [helse a (Or.inr ⟨slot, hne, h1, h2⟩)]
    refine hr.unused slot hs (fun q hq he => ?_) a h1 h2
    exact hun q (List.mem_append_left _ (mem_evict.mpr ⟨hq, by rw [he]; exact hne⟩)) he

/-! ## Steps of the protocol -/

/-- The invariant speaks about what was issued and what the machine sees. -/
theorem RingInv.same (hr : RingInv env prior d) {d' : Disk Item} (hi : d'.issued = d.issued)
    (hv : d'.volatile (Item.bytes env) = d.volatile (Item.bytes env)) : RingInv env prior d' := by
  constructor
  · rw [hv]; exact hr.size
  · rw [hv]; exact hr.first
  · rw [hv]; exact hr.second
  · rw [hi]; exact hr.sound
  · rw [hi, hv]; exact hr.media
  · rw [hi]; exact hr.order
  · rw [hi]; exact hr.closed
  · rw [hi]; exact hr.headers
  · rw [hi]; exact hr.frames
  · rw [hi]; exact hr.footers
  · rw [hi, hv]; exact hr.footed
  · rw [hi, hv]; exact hr.unused

/-- The newest partition and the entry the writer has of it. -/
theorem RingInv.active (hr : RingInv env prior d) {older : List RingPartition} {q : RingPartition}
    (hqs : ringOf d.issued = older ++ [q]) {c : Cat} (hc : CatIs env (ringOf d.issued) c)
    {p : PartitionState} (hp : c.active = some p) :
    StateOf env q p ∧ ∀ r ∈ older, r.header.generation < q.header.generation := by
  have horder := hr.order
  rw [hqs] at horder hc
  have hlt : ∀ r ∈ older, r.header.generation < q.header.generation :=
    fun r hm => (horder.last.2 r hm).1
  exact ⟨hc.active hlt hp, hlt⟩

/-- A write of the protocol. -/
theorem Phase.Write.ring {φ φ' : Phase} {off : Nat} {i : Item} (h : Phase.Write env φ off i φ')
    (g : Geometry env) (hr : RingInv env prior d) (hφ : RingPhase env d φ) :
    RingInv env prior (d.issue off i (i.bytes env).length) ∧
      RingPhase env (d.issue off i (i.bytes env).length) φ' := by
  cases h with
  | @frame c p b payload raw hp hs hf =>
    obtain ⟨hc, older, q, hqs, ho⟩ := hφ
    obtain ⟨hst, hlt⟩ := hr.active hqs hc hp
    refine ⟨hr.frame g hqs ho hst hf, ?_⟩
    have hafter : ringOf (d.issue (env.partitionBase p.header.slot + p.dataEnd)
        (.frame b payload raw) (Item.bytes env (.frame b payload raw)).length).issued =
        older ++ [q.addBlock ⟨b, payload, raw⟩] := by
      rw [Disk.issue_issued, ringOf_snoc, hqs]
      exact amendLast_append _ _ _
    show CatIs env _ _ ∧ _
    rw [hafter]
    refine ⟨?_, older, _, rfl, ho⟩
    rw [hqs] at hc
    have hup := hc.update hlt (q.addBlock ⟨b, payload, raw⟩) rfl
      fun p hp => hp.addBlock ho ⟨b, payload, raw⟩
    exact ⟨hup.states, hup.newest, hup.undamaged⟩
  | @index c p hp hs hd hne hfit =>
    obtain ⟨hc, older, q, hqs, ho⟩ := hφ
    obtain ⟨hst, hlt⟩ := hr.active hqs hc hp
    refine ⟨hr.index g hqs ho hst, ?_⟩
    have hafter : ringOf (d.issue (env.partitionBase p.header.slot + env.indexBegin)
        (.index p.activeIndex) (Item.bytes env (.index p.activeIndex)).length).issued =
        ringOf d.issued := by
      rw [Disk.issue_issued, ringOf_snoc]
      rfl
    show CatIs env _ _ ∧ _
    rw [hafter]
    refine ⟨hc, older, q, hqs, ho, ?_⟩
    rw [hst.activeIndex ho, hst.slot]
    exact Disk.volatile_issue_whole _ _ _ (Nat.le_refl _)
  | @footer c p hp hs hfit =>
    obtain ⟨hc, older, q, hqs, ho, hindex⟩ := hφ
    obtain ⟨hst, hlt⟩ := hr.active hqs hc hp
    refine ⟨hr.footer g hqs ho hst hindex, older, q, ?_, ho, ?_⟩
    · rw [Disk.issue_issued, ringOf_snoc, hqs]
      exact amendLast_append _ _ _
    · rw [hqs] at hc
      exact hc
  | @emptyFooter c p hp hs hd hne =>
    obtain ⟨hc, older, q, hqs, ho⟩ := hφ
    obtain ⟨hst, hlt⟩ := hr.active hqs hc hp
    have hnil : q.entries = [] := by
      rw [← hst.activeIndex ho]
      exact hne
    refine ⟨hr.footer g hqs ho hst (by rw [hnil]; rfl), older, q, ?_, ho, ?_⟩
    · rw [Disk.issue_issued, ringOf_snoc, hqs]
      exact amendLast_append _ _ _
    · rw [hqs] at hc
      exact hc
  | @header c slot generation options ho =>
    obtain ⟨hc, hall, hso⟩ := hφ
    have hmade : HeaderMade env (newHeader env slot generation options) := ⟨rfl, ho, hso⟩
    refine ⟨hr.header g hmade hall, ringOf d.issued, ?_, hc, hr.order, fun q hq => (hall q hq).2⟩
    rw [Disk.issue_issued, ringOf_snoc]
    rfl

/-- A flush of the protocol. -/
theorem Phase.Flush.ring {φ φ' : Phase} (h : Phase.Flush env φ φ') (g : Geometry env)
    (hr : RingInv env prior d) (hφ : RingPhase env d φ) :
    RingInv env prior (d.flush (Item.bytes env)) ∧ RingPhase env (d.flush (Item.bytes env)) φ' := by
  refine ⟨hr.same (Disk.flush_issued _ d) (Disk.flush_volatile _ d), ?_⟩
  cases h with
  | sync =>
    obtain ⟨hc, hopen⟩ := hφ
    exact ⟨⟨hc.states, hc.newest, hc.undamaged⟩, hopen⟩
  | @sealed c p hp hs hg =>
    obtain ⟨older, q, hqs, ho, hc⟩ := hφ
    have horder := hr.order
    rw [hqs] at horder
    have hlt : ∀ r ∈ older, r.header.generation < q.header.generation :=
      fun r hm => (horder.last.2 r hm).1
    have hst := hc.active hlt hp
    have hq : q.close ∈ ringOf d.issued := by
      rw [hqs]
      exact List.mem_append_right _ (List.mem_singleton_self _)
    rw [hst.generation] at hg ⊢
    rw [hst.slot]
    refine ⟨?_, ?_, SlotOf.next g (hr.sound _ hq).made.slotOf hg⟩
    · rw [Disk.flush_issued, hqs]
      exact hc.update hlt q.close rfl fun p' hp' => hp'.close (hst.sealFooter ho)
    · rw [Disk.flush_issued, hqs]
      intro r hm
      have hcl := hr.closed
      rw [hqs, List.dropLast_concat] at hcl
      rcases List.mem_append.mp hm with hm | hm
      · exact ⟨hcl r hm, lt_succ64 hg (UInt64.le_of_lt (hlt r hm))⟩
      · rw [List.mem_singleton.mp hm]
        exact ⟨rfl, lt_succ64 hg (UInt64.le_refl _)⟩
  | @install c h =>
    obtain ⟨older, hqs, hc, horder, hnew⟩ := hφ
    have hin := hc.install horder hnew
    show CatIs env (ringOf d.issued) _ ∧ _
    rw [hqs]
    refine ⟨hin, evict h.slot older, { header := h }, ?_, rfl⟩
    rw [Disk.flush_issued, hqs]

end

end TFDB

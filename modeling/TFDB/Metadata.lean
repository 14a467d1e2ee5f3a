import TFDB.Chronicle

/-!
# The metadata of blocks and partitions

* `Accurate` — the builder, the last time and the catalog of a store carry what its journal says;
* `maintained_settled` — every change of the store keeps that, and every block and footer written
  says it;
* `block_metadata` — in every run, every block, every footer and every `inspect` is right.
-/

set_option autoImplicit false

namespace TFDB

open ByteLib Writer

/-! ## The invariant -/

/-- The store agrees with the journal. -/
structure Accurate (s : Store) (J : Journal) : Prop where
  ordered : OrderedCatalog s
  fits : s.builder.length ≤ s.env.maxBlockPayload
  builder : s.builder = J.pending.flatMap AcceptedRecord.record
  count : s.builderRecords = UInt32.ofNat J.pending.length
  nonempty : ∀ r ∈ J.pending, r.record ≠ []
  flags : FlagsOf J s.builderFlags
  times : J.pending ≠ [] → Spans (J.pending.map AcceptedRecord.time)
    (J.pending.map AcceptedRecord.time) s.builderMinTime s.builderMaxTime
  options : J.options = s.active.map fun p => p.header.options
  last : s.haveLastTime = true ↔ ∃ q, J.Previous q
  lastTime : ∀ q, J.Previous q → s.lastTime = q.time
  totals : ∀ p ∈ s.partitions, J.Opened p.header.generation →
    Totals (J.extents p.header.generation) p
  /-- What no newer partition has replaced is in the catalog. -/
  kept : ∀ p, J.Retained p → p.header ∈ s.partitions.map PartitionState.header
  /-- No block is newer than the catalog. -/
  past : ∀ h ∈ J, ∀ g, h.generation = some g →
    ∃ hd ∈ s.partitions.map PartitionState.header, g ≤ hd.generation

/-- And the active partition is one it has turned to without a footer. -/
structure Settled (s : Store) (J : Journal) : Prop extends Accurate s J where
  opened : ∀ p, s.active = some p → J.Opened p.header.generation

/-- What the journal requires of a write. -/
def Permits (J : Journal) : Item → Prop
  | .frame b _ raw => Describes J b raw ∧ J.Opened b.generation
  | .footer f _ => Summary (J.extents f.generation) f.flags f.minTimeNs f.maxTimeNs
  | _ => True

def journaling : Lts Item Journal where
  write J off i J' := Permits J i ∧ J' = J.wrote off i
  flush J J' := J' = J
  fail J := J

/-! ## The catalog -/

/-- Only the active partition changes, and no other has its generation. -/
theorem mem_updateFirst_distinct {c : PartitionState → Bool} {f : PartitionState → PartitionState}
    {p q : PartitionState} : ∀ {ps : List PartitionState},
      (ps.Pairwise fun a b => a.header.generation < b.header.generation) → ps.find? c = some p →
      q ∈ updateFirst c f ps → q = f p ∨ (q ∈ ps ∧ q.header.generation ≠ p.header.generation)
  | [], _, hp, _ => by cases hp
  | a :: ps, hord, hp, hq => by
    obtain ⟨hhead, htail⟩ := List.pairwise_cons.mp hord
    cases hc : c a with
    | true =>
      rw [List.find?_cons_of_pos hc] at hp
      obtain rfl := Option.some.inj hp
      rw [updateFirst, if_pos hc] at hq
      rcases List.mem_cons.mp hq with rfl | hq
      · exact .inl rfl
      · exact .inr ⟨List.mem_cons_of_mem _ hq, fun he => UInt64.ne_of_lt (hhead q hq) he.symm⟩
    | false =>
      have hneg : ¬ c a = true := by rw [hc]; exact Bool.false_ne_true
      rw [List.find?_cons_of_neg hneg] at hp
      rw [updateFirst, if_neg hneg] at hq
      rcases List.mem_cons.mp hq with rfl | hq
      · exact .inr ⟨List.mem_cons_self .., UInt64.ne_of_lt (hhead p (List.mem_of_find?_eq_some hp))⟩
      · rcases mem_updateFirst_distinct htail hp hq with h | ⟨h, hne⟩
        · exact .inl h
        · exact .inr ⟨List.mem_cons_of_mem _ h, hne⟩

theorem OrderedCatalog.unique {s : Store} (h : OrderedCatalog s) {p q : PartitionState}
    (hp : p ∈ s.partitions) (hq : q ∈ s.partitions)
    (he : p.header.generation = q.header.generation) : p = q := by
  have hnodup : (s.partitions.map fun p => p.header.generation).Nodup :=
    List.pairwise_map.mpr (h.order.imp UInt64.ne_of_lt)
  exact List.inj_on_of_nodup_map hnodup hp hq he

theorem Journal.extents_eq_nil {J : Journal} {g : UInt64}
    (h : ∀ x ∈ J, x.generation ≠ some g) : J.extents g = [] := by
  refine List.flatMap_eq_nil_iff.mpr fun x hx => ?_
  have hg := h x hx
  cases x with
  | partition p =>
    simp only [Happening.generation, ne_eq, Option.some.injEq] at hg
    rw [Happening.extents, if_neg fun hc => hg hc.1]
  | record r => rfl
  | block off b raw =>
    simp only [Happening.generation, ne_eq, Option.some.injEq] at hg
    rw [Happening.extents, if_neg hg]
  | footer f => rfl

section
variable {s : Store} {J : Journal}

/-- A change that concerns neither the builder nor the catalog. -/
theorem Accurate.congr (h : Accurate s J) {t : Store} (hc : SameCatalog s t) (he : t.env = s.env)
    (hb : t.builder = s.builder) (hn : t.builderRecords = s.builderRecords)
    (hf : t.builderFlags = s.builderFlags) (hmin : t.builderMinTime = s.builderMinTime)
    (hmax : t.builderMaxTime = s.builderMaxTime) (hhave : t.haveLastTime = s.haveLastTime)
    (hlast : t.lastTime = s.lastTime) : Accurate t J where
  ordered := h.ordered.congr hc
  fits := by
    rw [hb, he]
    exact h.fits
  builder := hb.trans h.builder
  count := hn.trans h.count
  nonempty := h.nonempty
  flags := by
    rw [hf]
    exact h.flags
  times := by
    rw [hmin, hmax]
    exact h.times
  options := by
    rw [hc.active]
    exact h.options
  last := by
    rw [hhave]
    exact h.last
  lastTime := by
    rw [hlast]
    exact h.lastTime
  totals := by
    rw [hc.partitions]
    exact h.totals
  kept := by
    rw [hc.partitions]
    exact h.kept
  past := by
    rw [hc.partitions]
    exact h.past

/-- Records that are not empty are no more than their bytes. -/
theorem records_le_bytes {rs : List AcceptedRecord} (h : ∀ r ∈ rs, r.record ≠ []) :
    rs.length ≤ (rs.flatMap AcceptedRecord.record).length := by
  induction rs with
  | nil => exact Nat.le_refl _
  | cons r rs ih =>
    have hr := List.length_pos_of_ne_nil (h r (List.mem_cons_self ..))
    have := ih fun q hq => h q (List.mem_cons_of_mem _ hq)
    rw [List.flatMap_cons, List.length_append, List.length_cons]
    omega

theorem Settled.congr (h : Settled s J) {t : Store} (hc : SameCatalog s t) (he : t.env = s.env)
    (hb : t.builder = s.builder) (hn : t.builderRecords = s.builderRecords)
    (hf : t.builderFlags = s.builderFlags) (hmin : t.builderMinTime = s.builderMinTime)
    (hmax : t.builderMaxTime = s.builderMaxTime) (hhave : t.haveLastTime = s.haveLastTime)
    (hlast : t.lastTime = s.lastTime) : Settled t J where
  toAccurate := h.toAccurate.congr hc he hb hn hf hmin hmax hhave hlast
  opened := by
    rw [hc.active]
    exact h.opened

theorem Accurate.length_lt (h : Accurate s J) : J.pending.length < 2 ^ 32 := by
  have hlen := records_le_bytes h.nonempty
  have hfits := h.fits
  rw [h.builder] at hfits
  have hmax : s.env.maxBlockPayload < 2 ^ 32 := s.env.volume.maxBlockPayload.toNat_lt
  omega

/-- The block the builder becomes describes the pending records. -/
theorem Accurate.describes (h : Accurate s J) (hb : s.builder ≠ []) (p : PartitionState)
    (stored : Stored) (span : Nat) : Describes J (builderBlock s p stored span) s.builder := by
  have hne : J.pending ≠ [] := by
    intro hnil
    rw [h.builder, hnil] at hb
    exact hb rfl
  refine ⟨hne, h.builder, ?_, h.times hne, h.flags⟩
  show s.builderRecords.toNat = J.pending.length
  rw [h.count, UInt32.toNat_ofNat_of_lt' h.length_lt]

/-- A block was written. -/
theorem Settled.publish (h : Settled s J) {p : PartitionState} (hp : s.active = some p)
    (stored : Stored) (span off : Nat) (raw : Bytes) :
    Settled (publishBlock s (builderBlock s p stored span)
      (blockHeaderEncodedSize + stored.payload.length) span)
      (J ++ [.block off (builderBlock s p stored span) raw]) := by
  generalize hbk : builderBlock s p stored span = b
  have hgen : b.generation = p.header.generation := by
    rw [← hbk]
    rfl
  have hseq : b.sequence = UInt32.ofNat p.activeIndex.length := by
    rw [← hbk]
    rfl
  generalize blockHeaderEncodedSize + stored.payload.length = n
  have hheads : (publishBlock s b n span).partitions.map PartitionState.header =
      s.partitions.map PartitionState.header :=
    updateFirst_headers (f := (addBlock · b n span)) (fun _ => rfl) _
  have hactive : (publishBlock s b n span).active = some (addBlock p b n span) := by
    rw [publishBlock_active, hp]
    rfl
  refine
    { ordered := ?_
      fits := Nat.zero_le _
      builder := ?_
      count := ?_
      nonempty := ?_
      flags := .zero (Journal.pending_block ..)
      times := ?_
      options := ?_
      last := ?_
      lastTime := fun q hq => h.lastTime q ((Journal.previous_other rfl fun _ => by simp).mp hq)
      totals := fun q hq hopen => ?_
      kept := fun q hq => ?_
      past := fun x hx g hg => ?_
      opened := fun q hq => ?_ }
  · have hordered : OrderedCatalog (s.updateActive (addBlock · b n span)) := by
      refine h.ordered.updateActive (fun _ => rfl) fun q hq hn => ?_
      rw [hp] at hq
      obtain rfl := Option.some.inj hq
      exact hn.snoc hseq
    exact hordered.congr ⟨rfl, rfl, rfl⟩
  · rw [Journal.pending_block]
    rfl
  · rw [Journal.pending_block]
    rfl
  · rw [Journal.pending_block]
    intro r hr
    cases hr
  · rw [Journal.pending_block]
    exact fun hne => absurd rfl hne
  · rw [Journal.options_block, hactive, h.options, hp]
    rfl
  · simp only [Journal.previous_other (J := J) (h := .block off b raw) rfl fun _ => by simp]
    exact h.last
  · have hopen := (Journal.opened_other fun _ => by simp).mp hopen
    rw [Journal.extents_snoc, Happening.extents]
    rcases mem_updateFirst_distinct h.ordered.order hp hq with rfl | ⟨hq, hne⟩
    · have hsame : (addBlock p b n span).header = p.header := rfl
      rw [hsame] at hopen ⊢
      rw [if_pos hgen]
      exact (h.totals p (active_generation hp).1 hopen).snoc b.extent rfl rfl rfl rfl
    · rw [if_neg (by rw [hgen]; exact fun he => hne he.symm), List.append_nil]
      exact h.totals q hq hopen
  · rw [hheads]
    exact h.kept q (hq.of_other fun _ => by simp)
  · rw [hheads]
    rcases List.mem_append.mp hx with hx | hx
    · exact h.past x hx g hg
    · rw [List.mem_singleton.mp hx] at hg
      obtain rfl := Option.some.inj hg
      refine ⟨p.header, List.mem_map_of_mem (active_generation hp).1, ?_⟩
      rw [hgen]
      exact UInt64.le_refl _
  · rw [hactive] at hq
    obtain rfl := Option.some.inj hq
    exact (h.opened p hp).snoc _

/-- The last time counts until a partition of another time domain is created. -/
theorem Accurate.last_install (h : Accurate s J) {options : PartitionOptions} {p : PartitionState}
    (hopt : p.header.options = options) :
    (if s.leavesDomain options then false else s.haveLastTime) = true ↔
      ∃ q, Journal.Previous (J ++ [.partition p]) q := by
  have ho := h.options
  simp only [Journal.previous_partition, hopt]
  cases hact : s.active with
  | none =>
    rw [hact] at ho
    have hnone : ∀ q, ¬ J.Previous q := fun q hq => by
      obtain ⟨o, hsome⟩ := hq.options
      rw [ho] at hsome
      cases hsome
    have hfalse : s.leavesDomain options = false := by rw [Store.leavesDomain, hact]; rfl
    rw [hfalse, if_neg Bool.false_ne_true, h.last]
    exact ⟨fun ⟨q, hq⟩ => absurd hq (hnone q), fun ⟨q, hq, _⟩ => absurd hq (hnone q)⟩
  | some p' =>
    rw [hact] at ho
    have hsame : s.leavesDomain options = true ↔
        p'.header.options.timeDomainId ≠ options.timeDomainId := by
      rw [Store.leavesDomain, hact]
      exact decide_eq_true_iff
    by_cases hd : p'.header.options.timeDomainId = options.timeDomainId
    · rw [if_neg fun hc => hsame.mp hc hd, h.last]
      exact exists_congr fun q => ⟨fun hq => ⟨hq, _, ho, hd⟩, fun hq => hq.1⟩
    · rw [if_pos (hsame.mpr hd)]
      refine iff_of_false Bool.false_ne_true ?_
      rintro ⟨q, -, o, hsome, hdom⟩
      rw [ho] at hsome
      obtain rfl := Option.some.inj hsome
      exact hd hdom

/-- A partition was created. -/
theorem Accurate.install (h : Accurate s J) {slot : UInt32} {generation : UInt64}
    {options : PartitionOptions} (hnew : ∀ p ∈ s.partitions, p.header.generation < generation) :
    Settled (installPartition (synced false s) (newHeader s.env slot generation options)
      (s.leavesDomain options))
      (J ++ [.partition { header := newHeader s.env slot generation options }]) := by
  generalize hhd : newHeader s.env slot generation options = hd
  have hgen : hd.generation = generation := by rw [← hhd]; rfl
  have hopt : hd.options = options := by rw [← hhd]; rfl
  generalize hu : installPartition (synced false s) hd (s.leavesDomain options) = u
  have hactive : u.active = some { header := hd } := by
    rw [← hu, ← Store.active_cat, installPartition_cat]
    exact Cat.active_install _ hd
  have hmem (p : PartitionState) (hp : p ∈ u.partitions) : p ∈ s.partitions ∨ p = { header := hd } := by
    rw [← hu] at hp
    rcases List.mem_append.mp (List.mem_mergeSort.mp hp) with hp | hp
    · exact .inl (List.mem_filter.mp hp).1
    · exact .inr (List.mem_singleton.mp hp)
  have hstays (p : PartitionState) (hp : p ∈ s.partitions) (hs : hd.slot ≠ p.header.slot) :
      p ∈ u.partitions := by
    rw [← hu]
    refine List.mem_mergeSort.mpr (List.mem_append_left _ (List.mem_filter.mpr ⟨hp, ?_⟩))
    exact bne_iff_ne.mpr hs.symm
  have hin : ({ header := hd } : PartitionState) ∈ u.partitions := (active_generation hactive).1
  have hnone : J.extents hd.generation = [] := by
    refine Journal.extents_eq_nil fun x hx hg => ?_
    obtain ⟨q, hq, hle⟩ := h.past x hx _ hg
    obtain ⟨p, hp, rfl⟩ := List.mem_map.mp hq
    rw [hgen] at hle
    exact absurd (hnew p hp) (UInt64.not_lt.mpr hle)
  have hext (g : UInt64) : Journal.extents (J ++ [.partition { header := hd }]) g = J.extents g := by
    rw [Journal.extents_snoc, Happening.extents]
    split
    · exact List.append_nil _
    · exact List.append_nil _
  have hfields : u.builder = s.builder ∧ u.env = s.env ∧ u.builderRecords = s.builderRecords ∧
      u.builderFlags = s.builderFlags ∧ u.builderMinTime = s.builderMinTime ∧
      u.builderMaxTime = s.builderMaxTime ∧ u.lastTime = s.lastTime ∧
      u.haveLastTime = if s.leavesDomain options then false else s.haveLastTime := by
    rw [← hu]
    exact ⟨rfl, rfl, rfl, rfl, rfl, rfl, rfl, rfl⟩
  obtain ⟨h1, h2, h3, h4, h5, h6, h7, h8⟩ := hfields
  refine
    { ordered := ?_
      fits := by rw [h1, h2]; exact h.fits
      builder := by rw [h1, Journal.pending_partition]; exact h.builder
      count := by rw [h3, Journal.pending_partition]; exact h.count
      nonempty := by rw [Journal.pending_partition]; exact h.nonempty
      flags := by rw [h4]; exact h.flags.other rfl rfl (Journal.pending_partition ..)
      times := by rw [h5, h6, Journal.pending_partition]; exact h.times
      options := by rw [Journal.options_partition, hactive]; rfl
      last := ?_
      lastTime := fun q hq => ?_
      totals := fun p hp hopen => ?_
      kept := fun p hp => ?_
      past := fun x hx g hg => ?_
      opened := fun p hp => ?_ }
  · rw [← hu]
    refine (h.ordered.congr (same_synced s false)).install (fun p hp => ?_) _
    rw [hgen]
    exact hnew p hp
  · rw [h8]
    exact h.last_install hopt
  · rw [h7]
    exact h.lastTime q (Journal.previous_partition.mp hq).1
  · rw [hext]
    rcases hmem p hp with hp | rfl
    · obtain ⟨p₀, hp₀, hg, hs⟩ := hopen
      rcases List.mem_append.mp hp₀ with hp₀ | hp₀
      · exact h.totals p hp ⟨p₀, hp₀, hg, hs⟩
      · obtain rfl : p₀ = { header := hd } := by simpa using hp₀
        have hlt := hnew p hp
        rw [← hg, show ({ header := hd } : PartitionState).header = hd from rfl, hgen] at hlt
        exact absurd hlt (UInt64.lt_irrefl _)
    · rw [hnone]
      exact ⟨rfl, by simp, by simp⟩
  · rcases hp.of_partition with rfl | ⟨hp, hs⟩
    · exact List.mem_map_of_mem (f := PartitionState.header) hin
    · obtain ⟨q, hq, he⟩ := List.mem_map.mp (h.kept p hp)
      rw [← he] at hs ⊢
      exact List.mem_map_of_mem (hstays q hq hs)
  · refine ⟨hd, List.mem_map_of_mem (f := PartitionState.header) hin, ?_⟩
    rcases List.mem_append.mp hx with hx | hx
    · obtain ⟨q, hq, hle⟩ := h.past x hx g hg
      obtain ⟨p, hp, rfl⟩ := List.mem_map.mp hq
      rw [hgen]
      exact UInt64.le_trans hle (UInt64.le_of_lt (hnew p hp))
    · rw [List.mem_singleton.mp hx] at hg
      obtain rfl := Option.some.inj hg
      exact UInt64.le_refl _
  · rw [hactive] at hp
    obtain rfl := Option.some.inj hp
    exact ⟨{ header := hd }, by simp, rfl, rfl⟩

theorem Accurate.creates (h : Accurate s J) {slot : UInt32} {generation : UInt64}
    {options : PartitionOptions} (hnew : ∀ p ∈ s.partitions, p.header.generation < generation) :
    Creates journaling Settled s J (newHeader s.env slot generation options) :=
  ⟨_, ⟨trivial, rfl⟩, _, rfl, h.install hnew⟩

/-- The active partition was sealed. -/
theorem Settled.sealed (h : Settled s J) (f : PartitionFooter) :
    Settled (markSealed f (synced false s)) (J ++ [.footer f]) := by
  have hs : Settled (synced false s) J :=
    h.congr (same_synced s false) rfl rfl rfl rfl rfl rfl rfl rfl
  generalize synced false s = t at hs
  have hheads : (markSealed f t).partitions.map PartitionState.header =
      t.partitions.map PartitionState.header :=
    updateFirst_headers (f := fun p => { p with isSealed := true, indexValid := true, footer := f })
      (fun _ => rfl) _
  have hprev (q : AcceptedRecord) : Journal.Previous (J ++ [.footer f]) q ↔ J.Previous q :=
    Journal.previous_other rfl fun _ => by simp
  refine
    { ordered := hs.ordered.updateActive (fun _ => rfl) fun _ _ hn => hn
      fits := hs.fits
      builder := by rw [Journal.pending_footer]; exact hs.builder
      count := by rw [Journal.pending_footer]; exact hs.count
      nonempty := by rw [Journal.pending_footer]; exact hs.nonempty
      flags := hs.flags.other rfl rfl (Journal.pending_footer ..)
      times := by rw [Journal.pending_footer]; exact hs.times
      options := by rw [Journal.options_footer, markSealed_options]; exact hs.options
      last := by simp only [hprev]; exact hs.last
      lastTime := fun q hq => hs.lastTime q ((hprev q).mp hq)
      totals := fun p hp hopen => ?_
      kept := fun p hp => ?_
      past := fun x hx g hg => ?_
      opened := fun p hp => ?_ }
  · have hopen := (Journal.opened_other fun _ => by simp).mp hopen
    rw [Journal.extents_footer]
    rcases mem_updateFirst hp with hp | ⟨q, hq, -, rfl⟩
    · exact hs.totals p hp hopen
    · obtain ⟨h1, h2, h3⟩ := hs.totals q hq hopen
      exact ⟨h1, h2, h3⟩
  · rw [hheads]
    exact hs.kept p (hp.of_other fun _ => by simp)
  · rw [hheads]
    rcases List.mem_append.mp hx with hx | hx
    · exact hs.past x hx g hg
    · rw [List.mem_singleton.mp hx] at hg
      cases hg
  · have hact : (markSealed f t).active =
        t.active.map fun p => { p with isSealed := true, indexValid := true, footer := f } :=
      Cat.active_update (c := t.cat) fun _ => rfl
    rw [hact] at hp
    obtain ⟨q, hq, rfl⟩ := Option.map_eq_some_iff.mp hp
    exact (hs.opened q hq).snoc _

/-- The builder is empty when no record is pending. -/
theorem Accurate.isEmpty_iff (h : Accurate s J) : s.builder.isEmpty = true ↔ J.pending = [] := by
  rw [List.isEmpty_iff, h.builder]
  constructor
  · intro hnil
    have hle := records_le_bytes h.nonempty
    rw [hnil] at hle
    exact List.length_eq_zero_iff.mp (Nat.le_zero.mp hle)
  · intro hnil
    rw [hnil]
    rfl

/-- The check against the last time is the comparison with the record before. -/
theorem Accurate.anomaly_iff (h : Accurate s J) {o : PartitionOptions} (ho : J.options = some o)
    (r : AcceptedRecord) : timeAnomaly s o r.time = true ↔ Anomalous J r := by
  rw [timeAnomaly_iff, h.last]
  constructor
  · rintro ⟨⟨q, hq⟩, hj⟩
    rw [h.lastTime q hq] at hj
    exact ⟨o, q, ho, hq, hj⟩
  · rintro ⟨o', q, ho', hq, hj⟩
    rw [ho] at ho'
    obtain rfl := Option.some.inj ho'
    rw [h.lastTime q hq]
    exact ⟨⟨q, hq⟩, hj⟩

theorem Accurate.accept_flags (h : Accurate s J) {o : PartitionOptions} (ho : J.options = some o)
    (r : AcceptedRecord) :
    FlagsOf (J ++ [.record r]) (acceptRecord s o r.record r.time r.flags).builderFlags := by
  have hmark : (acceptRecord s o r.record r.time r.flags).builderFlags =
      if s.builder.isEmpty then recordMark r.flags (timeAnomaly s o r.time)
      else s.builderFlags ||| recordMark r.flags (timeAnomaly s o r.time) := rfl
  have hanomaly := h.anomaly_iff ho r
  rw [hmark]
  split
  · rename_i hb
    have := (FlagsOf.zero (h.isEmpty_iff.mp hb)).record r hanomaly
    rwa [UInt32.zero_or] at this
  · exact h.flags.record r hanomaly

theorem Accurate.accept_times (h : Accurate s J) (o : PartitionOptions) (r : AcceptedRecord) :
    Spans ((Journal.pending (J ++ [.record r])).map AcceptedRecord.time)
      ((Journal.pending (J ++ [.record r])).map AcceptedRecord.time)
      (acceptRecord s o r.record r.time r.flags).builderMinTime
      (acceptRecord s o r.record r.time r.flags).builderMaxTime := by
  show Spans _ _ (if s.builder.isEmpty then r.time else min s.builderMinTime r.time)
    (if s.builder.isEmpty then r.time else max s.builderMaxTime r.time)
  rw [Journal.pending_record, List.map_append, List.map_singleton]
  by_cases hb : s.builder.isEmpty = true
  · rw [if_pos hb, if_pos hb, h.isEmpty_iff.mp hb]
    exact .single _ _
  · rw [if_neg hb, if_neg hb]
    exact (h.times fun hnil => hb (h.isEmpty_iff.mpr hnil)).snoc _ _

/-- A record was accepted. -/
theorem Settled.accept (h : Settled s J) {p : PartitionState} (hp : s.active = some p)
    {r : AcceptedRecord} (hne : r.record ≠ [])
    (hroom : s.builder.length + r.record.length ≤ s.env.maxBlockPayload) :
    Settled (acceptRecord s p.header.options r.record r.time r.flags) (J.note r) := by
  have ho : J.options = some p.header.options := by
    rw [h.options, hp]
    rfl
  generalize hu : acceptRecord s p.header.options r.record r.time r.flags = u
  have hsame : SameCatalog s u := by
    rw [← hu]
    exact ⟨rfl, rfl, rfl⟩
  unfold Journal.note
  refine
    { ordered := h.ordered.congr hsame
      fits := ?_
      builder := ?_
      count := ?_
      nonempty := ?_
      flags := ?_
      times := fun _ => ?_
      options := by rw [Journal.options_record, hsame.active]; exact h.options
      last := ?_
      lastTime := fun q hq => ?_
      totals := fun q hq hopen => ?_
      kept := fun q hq => ?_
      past := fun x hx g hg => ?_
      opened := fun q hq => ?_ }
  · rw [← hu]
    show (s.builder ++ r.record).length ≤ _
    rw [List.length_append]
    exact hroom
  · rw [Journal.pending_record, List.flatMap_append, ← h.builder, ← hu]
    simp [acceptRecord]
  · rw [Journal.pending_record, List.length_append, UInt32.ofNat_add, ← h.count, ← hu]
    rfl
  · rw [Journal.pending_record]
    intro q hq
    rcases List.mem_append.mp hq with hq | hq
    · exact h.nonempty q hq
    · rw [List.mem_singleton.mp hq]
      exact hne
  · rw [← hu]
    exact h.accept_flags ho r
  · rw [← hu]
    exact h.accept_times p.header.options r
  · rw [← hu]
    exact iff_of_true rfl ⟨r, (Journal.previous_record ho).mpr rfl⟩
  · rw [(Journal.previous_record ho).mp hq, ← hu]
    rfl
  · rw [hsame.partitions] at hq
    rw [Journal.extents_record]
    exact h.totals q hq ((Journal.opened_other fun _ => by simp).mp hopen)
  · rw [hsame.partitions]
    exact h.kept q (hq.of_other fun _ => by simp)
  · rw [hsame.partitions]
    rcases List.mem_append.mp hx with hx | hx
    · exact h.past x hx g hg
    · rw [List.mem_singleton.mp hx] at hg
      cases hg
  · rw [hsame.active] at hq
    exact (h.opened q hq).snoc _

end

/-- **Every change of a store keeps it accurate**, and what it writes is permitted. -/
theorem maintained_settled : Maintained journaling Journal.note Settled where
  ordered := fun _ _ h => h.ordered
  fits := fun _ _ h => h.fits
  emit := fun s J p stored span h hb hp _ =>
    ⟨_, ⟨⟨h.describes hb p stored span, h.opened p hp⟩, rfl⟩, h.publish hp stored span _ _⟩
  create := fun s J slot generation options h hnew => h.toAccurate.creates hnew
  sync := fun s J h => ⟨J, rfl, h.congr (same_synced s true) rfl rfl rfl rfl rfl rfl rfl rfl⟩
  seals := fun s J p h hp => by
    refine ⟨⟨J, ⟨trivial, rfl⟩, h⟩, _, ⟨?_, rfl⟩, _, rfl, h.sealed _⟩
    exact (h.totals p (active_generation hp).1 (h.opened p hp)).summary
  count := fun s J h => h.congr ⟨rfl, rfl, rfl⟩ rfl rfl rfl rfl rfl rfl rfl rfl
  next := fun s J _ h => h.congr ⟨rfl, rfl, rfl⟩ rfl rfl rfl rfl rfl rfl rfl rfl
  closed := fun s J h => h.congr ⟨rfl, rfl, rfl⟩ rfl rfl rfl rfl rfl rfl rfl rfl
  accept := fun s J p r h hp hne hroom => h.accept hp hne hroom

/-! ## Runs -/

/-- The journal of a store that open has just built. -/
def Store.journal (s : Store) : Journal := s.active.toList.map .partition

section
variable (env : Env)

/-- The effect of a storage operation and what goes into the journal. -/
inductive Noted {α : Type} (d : Disk Item) (J : Journal) :
    WriteProg Status Item α → Disk Item → WriteProg Status Item α → Journal → Prop
  | write (off : Nat) (i : Item) (k : Except Status Unit → WriteProg Status Item α) :
      Noted d J (.write off i k) (d.issue off i (i.bytes env).length) (k (.ok ())) (J.wrote off i)
  | writeFails (off : Nat) (i : Item) (k : Except Status Unit → WriteProg Status Item α)
      (n : Nat) (st : Status) : Noted d J (.write off i k) (d.issue off i n) (k (.error st)) J
  | flush (k : Except Status Unit → WriteProg Status Item α) :
      Noted d J (.flush k) (d.flush (Item.bytes env)) (k (.ok ())) J
  | flushFails (k : Except Status Unit → WriteProg Status Item α) (st : Status) :
      Noted d J (.flush k) d (k (.error st)) J

/-- A step of a store object, with its journal. -/
inductive Notes : Sys × Journal → Sys × Journal → Prop
  | openEffect (x : Sys) (J : Journal) {k k' d' J'} (hp : x.proc = .opening k)
      (h : Noted env x.disk J k d' k' J') :
      Notes (x, J) ({ x with disk := d', proc := .opening k' }, J')
  | opened (x : Sys) (J : Journal) {s : Store} (hp : x.proc = .opening (.done (.ok (), s))) :
      Notes (x, J) ({ x with proc := .idle s none }, J)
  | call (x : Sys) (J : Journal) {s : Store} {last} (op : Op) (hp : x.proc = .idle s last) :
      Notes (x, J) ({ x with proc := .busy op (op.program s) }, J)
  | effect (x : Sys) (J : Journal) {op k k' d' J'} (hp : x.proc = .busy op k)
      (h : Noted env x.disk J k d' k' J') :
      Notes (x, J) ({ x with disk := d', proc := .busy op k' }, J')
  | returned (x : Sys) (J : Journal) {op r} {s : Store} (hp : x.proc = .busy op (.done (r, s))) :
      Notes (x, J) ({ x with proc := .idle s (some (op, r)) }, noteResult Journal.note J op r)

/-- A store object from a writable open on: on any image, with any storage errors. -/
inductive Chronicled : Sys → Journal → Prop
  | opening (x : Sys) {s : Store} {o : OpenOptions} {random : Except Status (UInt64 × UInt64)}
      (hw : o.writable = true) (he : s.env = env)
      (hrec : Rd.run (imageSource (x.disk.volatile (Item.bytes env)))
        (recover (x.disk.volatile (Item.bytes env)).size o random) = .ok s)
      (hp : x.proc = .opening (startWriter s)) : Chronicled x s.journal
  | step {x y : Sys} {J J' : Journal} (hx : Chronicled x J) (h : Notes env (x, J) (y, J')) :
      Chronicled y J'

end

/-- Every block and footer of the journal says what came before it. -/
structure Journal.Right (J : Journal) : Prop where
  blocks : ∀ (A B : Journal) off b raw, J = A ++ .block off b raw :: B →
    Describes A b raw ∧ A.Opened b.generation
  footers : ∀ (A B : Journal) f, J = A ++ .footer f :: B →
    Summary (A.extents f.generation) f.flags f.minTimeNs f.maxTimeNs

theorem Journal.Right.snoc {J : Journal} (h : J.Right) {x : Happening}
    (hblock : ∀ off b raw, x = .block off b raw → Describes J b raw ∧ J.Opened b.generation)
    (hfooter : ∀ f, x = .footer f →
      Summary (J.extents f.generation) f.flags f.minTimeNs f.maxTimeNs) :
    Journal.Right (J ++ [x]) := by
  refine ⟨fun A B off b raw he => ?_, fun A B f he => ?_⟩
  · rcases snoc_split he with ⟨-, rfl, hx⟩ | ⟨C, -, he⟩
    · exact hblock off b raw hx
    · exact h.blocks A C off b raw he
  · rcases snoc_split he with ⟨-, rfl, hx⟩ | ⟨C, -, he⟩
    · exact hfooter f hx
    · exact h.footers A C f he

theorem Journal.Right.wrote {J : Journal} (h : J.Right) (off : Nat) {i : Item} (hi : Permits J i) :
    (J.wrote off i).Right := by
  cases i with
  | frame b payload raw =>
    refine h.snoc (fun off b raw hx => ?_) fun f hx => by cases hx
    cases hx
    exact hi
  | header hd => exact h.snoc (fun off b raw hx => by cases hx) fun f hx => by cases hx
  | footer f es =>
    refine h.snoc (fun off b raw hx => by cases hx) fun f hx => ?_
    cases hx
    exact hi
  | volume v => exact h
  | index es => exact h

section
variable {env : Env}

/-- The process will be accurate. -/
def StaysAccurate (J : Journal) : Proc → Prop
  | .opening k => k.Follows journaling
      (fun r J' => r.2.faulted = false → r.1 = .ok () → Settled r.2 J') J
  | .busy op k => k.Follows journaling
      (fun r J' => r.2.faulted = false → Settled r.2 (noteResult Journal.note J' op r.1)) J
  | .idle s _ => s.faulted = false → Settled s J
  | _ => False

theorem Noted.stays {α : Type} {Q : α → Journal → Prop} {d d' : Disk Item} {J J' : Journal}
    {k k' : WriteProg Status Item α} (h : Noted env d J k d' k' J') (hJ : J.Right)
    (hk : k.Follows journaling Q J) : J'.Right ∧ k'.Follows journaling Q J' := by
  cases h with
  | write off i k =>
    obtain ⟨_, ⟨hi, rfl⟩, hk⟩ := hk.1
    exact ⟨hJ.wrote off hi, hk⟩
  | writeFails off i k n st => exact ⟨hJ, hk.2 st⟩
  | flush k =>
    obtain ⟨_, rfl, hrest⟩ := hk.1
    exact ⟨hJ, hrest⟩
  | flushFails k st => exact ⟨hJ, hk.2 st⟩

theorem noteResult_right {J : Journal} (hJ : J.Right) (op : Op) (r : Except Status Unit) :
    (noteResult Journal.note J op r).Right := by
  cases r with
  | error st => exact hJ
  | ok u =>
    show (op.submits.elim J (Journal.note J)).Right
    cases op.submits with
    | none => exact hJ
    | some r => exact hJ.snoc (fun off b raw hx => by cases hx) fun f hx => by cases hx

theorem Notes.stays {x y : Sys} {J J' : Journal} (h : Notes env (x, J) (y, J'))
    (hx : J.Right ∧ StaysAccurate J x.proc) : J'.Right ∧ StaysAccurate J' y.proc := by
  obtain ⟨hJ, hk⟩ := hx
  cases h with
  | openEffect x J hp h =>
    rw [hp] at hk
    exact h.stays hJ hk
  | opened x J hp =>
    rw [hp] at hk
    exact ⟨hJ, fun hf => hk hf rfl⟩
  | call x J op hp =>
    rw [hp] at hk
    exact ⟨hJ, maintained_program maintained_settled hk op⟩
  | effect x J hp h =>
    rw [hp] at hk
    exact h.stays hJ hk
  | returned x J hp =>
    rw [hp] at hk
    exact ⟨noteResult_right hJ _ _, hk⟩

/-- The journal of an opened store only names its active partition. -/
theorem Store.mem_journal {s : Store} {x : Happening} :
    x ∈ s.journal ↔ ∃ p, s.active = some p ∧ x = .partition p := by
  unfold Store.journal
  cases s.active with
  | none => simp
  | some p => simp

theorem Store.journal_pending (s : Store) : s.journal.pending = [] := by
  unfold Store.journal
  cases s.active with
  | none => rfl
  | some p => rfl

theorem Store.journal_options (s : Store) :
    s.journal.options = s.active.map fun p => p.header.options := by
  unfold Store.journal
  cases s.active with
  | none => rfl
  | some p => rfl

theorem Store.journal_right (s : Store) : s.journal.Right := by
  refine ⟨fun A B off b raw he => ?_, fun A B f he => ?_⟩
  · obtain ⟨p, -, hx⟩ := Store.mem_journal.mp (he ▸ List.mem_append_right _ (List.mem_cons_self ..))
    cases hx
  · obtain ⟨p, -, hx⟩ := Store.mem_journal.mp (he ▸ List.mem_append_right _ (List.mem_cons_self ..))
    cases hx

/-- The newest partition that open found without a footer has the totals of its index. -/
theorem opened_totals {m : Image} (g : Geometry env) (hm : env.volume.volumeSize.toNat ≤ m.size)
    {p : PartitionState} (hp : (catalogOf env m).getLast? = some p) (hs : p.isSealed = false) :
    Totals (p.activeIndex.map IndexEntry.extent) p := by
  rcases catalogOf_cases env m with ⟨-, h⟩ | ⟨older, newest, h, -, hn, -⟩
  · rw [h] at hp
    cases hp
  · rw [h, List.getLast?_append] at hp
    obtain rfl : newest = p := by simpa using hp
    obtain ⟨hslot, hstate⟩ := mem_slotStates.mp hn
    obtain ⟨fs, st, hopen, -⟩ := slotState_open g hm hslot hstate hs
    rw [hopen, openState_activeIndex]
    exact totals_summarize { header := newest.header
                             activeIndex := chainEntries partitionHeaderRegionSize fs
                             dataEnd := chainEnd partitionHeaderRegionSize fs }

/-- The active partition of the store that open has just built is the newest. -/
theorem openedStore_active {m : Image} (o : OpenOptions) (id : UInt64 × UInt64)
    (hgen : GenerationsOk (slotStates env m)) (p : PartitionState)
    (hp : (openedStore env m o id).active = some p) : (catalogOf env m).getLast? = some p := by
  have hmem : p ∈ catalogOf env m := (active_generation hp).1
  obtain ⟨q, hq⟩ : ∃ q, (catalogOf env m).getLast? = some q :=
    ⟨_, List.getLast?_eq_some_getLast (List.ne_nil_of_mem hmem)⟩
  have hactive : (openedStore env m o id).active = some q := openedCat_active id hgen hq
  rw [hp] at hactive
  rw [Option.some.inj hactive]
  exact hq

/-- The store that open has just built is accurate. -/
theorem opened_accurate {m : Image} (g : Geometry env) (hm : env.volume.volumeSize.toNat ≤ m.size)
    (hgen : GenerationsOk (slotStates env m)) (o : OpenOptions) (id : UInt64 × UInt64) :
    Accurate (openedStore env m o id) (openedStore env m o id).journal := by
  have hordered := opened_ordered g hm hgen o id
  have hfields : (openedStore env m o id).builder = [] ∧ (openedStore env m o id).builderFlags = 0 ∧
      (openedStore env m o id).builderRecords = 0 ∧ (openedStore env m o id).haveLastTime = false ∧
      (openedStore env m o id).partitions = catalogOf env m := ⟨rfl, rfl, rfl, rfl, rfl⟩
  have hlast := openedStore_active o id hgen
  generalize openedStore env m o id = s at hordered hfields hlast
  obtain ⟨h1, h2, h3, h4, h5⟩ := hfields
  have hprev (q : AcceptedRecord) : ¬ s.journal.Previous q := by
    rintro ⟨A, B, o, he, -⟩
    obtain ⟨p, -, hx⟩ := Store.mem_journal.mp (he ▸ List.mem_append_right _ (List.mem_cons_self ..))
    cases hx
  refine
    { ordered := hordered
      fits := by rw [h1]; exact Nat.zero_le _
      builder := by rw [h1, s.journal_pending]; rfl
      count := by rw [h3, s.journal_pending]; rfl
      nonempty := by rw [s.journal_pending]; intro r hr; cases hr
      flags := by rw [h2]; exact .zero s.journal_pending
      times := by rw [s.journal_pending]; exact fun h => absurd rfl h
      options := s.journal_options
      last := by rw [h4]; exact iff_of_false Bool.false_ne_true fun ⟨q, hq⟩ => hprev q hq
      lastTime := fun q hq => absurd hq (hprev q)
      totals := fun p hp hopen => ?_
      kept := fun p hp => ?_
      past := fun x hx g' hg => ?_ }
  · obtain ⟨p₀, hp₀, hg, hs⟩ := hopen
    obtain ⟨q, hq, he⟩ := Store.mem_journal.mp hp₀
    obtain rfl : p₀ = q := by simpa using he
    obtain rfl : p = p₀ := hordered.unique hp (active_generation hq).1 hg.symm
    have hextents : s.journal.extents p.header.generation = p.activeIndex.map IndexEntry.extent := by
      simp [Store.journal, hq, Journal.extents, Happening.extents, hs]
    rw [hextents]
    exact opened_totals g hm (hlast p hq) hs
  · obtain ⟨A, B, he, -⟩ := hp
    obtain ⟨q, hq, hsame⟩ := Store.mem_journal.mp (he ▸ List.mem_append_right _ (List.mem_cons_self ..))
    obtain rfl : p = q := by simpa using hsame
    exact List.mem_map_of_mem (active_generation hq).1
  · obtain ⟨p, hp, rfl⟩ := Store.mem_journal.mp hx
    obtain rfl := Option.some.inj hg
    exact ⟨p.header, List.mem_map_of_mem (active_generation hp).1, UInt64.le_refl _⟩

/-- The writing part of `open` ends in a store that the journal describes. -/
theorem startWriter_settled {m : Image} (g : Geometry env)
    (hm : env.volume.volumeSize.toNat ≤ m.size) (hgen : GenerationsOk (slotStates env m))
    (o : OpenOptions) (id : UInt64 × UInt64) :
    Wr.Follows journaling (fun r t J => t.faulted = false → r = .ok () → Settled t J) startWriter
      (openedStore env m o id) (openedStore env m o id).journal := by
  have hacc := opened_accurate g hm hgen o id
  have hlast := openedStore_active o id hgen
  refine maintained_startWriter hacc.ordered rfl (fun p hnewest hopen => ⟨hacc, fun q hq => ?_⟩)
    fun slot generation hnew => hacc.creates hnew
  obtain rfl : p = q := Option.some.inj (hnewest.symm.trans (hlast q hq))
  exact ⟨p, Store.mem_journal.mpr ⟨p, hq, rfl⟩, rfl, hopen⟩

theorem Chronicled.stays {x : Sys} {J : Journal} (h : Chronicled env x J) :
    J.Right ∧ StaysAccurate J x.proc := by
  induction h with
  | @opening x s o random hw he hrec hp =>
    obtain ⟨-, g, hm, ⟨id, hprep, hs⟩, -, hgen, -⟩ := recover_inv hrec
    refine ⟨s.journal_right, ?_⟩
    rw [hp, hs]
    exact startWriter_settled g hm hgen o id
  | step hx h ih => exact h.stays ih

/-! ## What is reported -/

structure PartitionInfo where
  slot : UInt32
  generation : UInt64
  isSealed : Bool
  blockCount : UInt32
  dataBytes : Nat
  minTimeNs : Int64
  maxTimeNs : Int64
  flags : UInt32
  options : PartitionOptions

structure VolumeInfo where
  volumeSize : UInt64
  partitionSize : UInt64
  partitionCount : UInt32
  indexRegionSize : UInt32
  maxBlockPayload : UInt32
  persistenceQuantum : UInt32
  volumeIdHigh : UInt64
  volumeIdLow : UInt64
  partitions : List PartitionInfo

def PartitionState.info (p : PartitionState) : PartitionInfo where
  slot := p.header.slot
  generation := p.header.generation
  isSealed := p.isSealed
  blockCount := if p.isSealed then p.footer.blockCount else p.blockCount
  dataBytes := p.dataEnd - partitionHeaderRegionSize
  minTimeNs := if p.hasTime then p.minTimeNs else 0
  maxTimeNs := if p.hasTime then p.maxTimeNs else 0
  flags := p.aggregateFlags
  options := p.header.options

def Store.inspect (s : Store) : VolumeInfo where
  volumeSize := s.env.volume.volumeSize
  partitionSize := s.env.volume.partitionSize
  partitionCount := s.env.volume.partitionCount
  indexRegionSize := s.env.volume.indexRegionSize
  maxBlockPayload := s.env.volume.maxBlockPayload
  persistenceQuantum := s.env.volume.persistenceQuantum
  volumeIdHigh := s.env.volume.volumeIdHigh
  volumeIdLow := s.env.volume.volumeIdLow
  partitions := s.partitions.map PartitionState.info

/-- **Metadata describe exactly what they belong to.**  In every run of a store object: a block holds
the records accepted since the block before it, and its count, time range and flags are theirs; its
partition is one the store has turned to.  A footer, and what `inspect` reports of such a partition
while the store has no fault, are the union of the flags and the range of the times of its blocks;
and `inspect` reports every such partition whose slot no newer one has taken. -/
theorem block_metadata {x : Sys} {J : Journal} (h : Chronicled env x J) :
    (∀ (A B : Journal) off b raw, J = A ++ .block off b raw :: B →
      Describes A b raw ∧ A.Opened b.generation) ∧
    (∀ (A B : Journal) f, J = A ++ .footer f :: B →
      Summary (A.extents f.generation) f.flags f.minTimeNs f.maxTimeNs) ∧
    ∀ s last, x.proc = .idle s last → s.faulted = false →
      (∀ info ∈ s.inspect.partitions, J.Opened info.generation →
        Summary (J.extents info.generation) info.flags info.minTimeNs info.maxTimeNs) ∧
      ∀ p, J.Retained p → p.isSealed = false → ∃ info ∈ s.inspect.partitions,
        info.generation = p.header.generation ∧ info.slot = p.header.slot ∧
        Summary (J.extents p.header.generation) info.flags info.minTimeNs info.maxTimeNs := by
  obtain ⟨hJ, hk⟩ := h.stays
  refine ⟨hJ.blocks, hJ.footers, fun s last hp hf => ?_⟩
  rw [hp] at hk
  have hs : Settled s J := hk hf
  have hreport (p : PartitionState) (hp : p ∈ s.partitions) (hopen : J.Opened p.header.generation) :
      Summary (J.extents p.header.generation) p.info.flags p.info.minTimeNs p.info.maxTimeNs :=
    (hs.totals p hp hopen).summary
  constructor
  · intro info hinfo hopen
    obtain ⟨p, hp, rfl⟩ := List.mem_map.mp hinfo
    exact hreport p hp hopen
  · intro p hp hopen
    obtain ⟨q, hq, he⟩ := List.mem_map.mp (hs.kept p hp)
    refine ⟨q.info, List.mem_map_of_mem hq, congrArg PartitionHeader.generation he,
      congrArg PartitionHeader.slot he, ?_⟩
    rw [← he]
    exact hreport q hq (he ▸ hp.opened hopen)

end

/-! ## The journal of the sample volume -/

/-- The journal after a program without failures. -/
def Journal.run {α : Type} : WriteProg Status Item α → Journal → Journal
  | .done _, J => J
  | .write off i k, J => Journal.run (k (.ok ())) (J.wrote off i)
  | .flush k, J => Journal.run (k (.ok ())) J

theorem Chronicled.exec {env : Env} {α : Type} {mk : WriteProg Status Item α → Proc}
    (hstep : ∀ {x : Sys} {J k k' d' J'}, x.proc = mk k → Noted env x.disk J k d' k' J' →
      Notes env (x, J) ({ x with disk := d', proc := mk k' }, J'))
    (k : WriteProg Status Item α) {d : Disk Item} {writers : List (UInt64 × UInt64)} {J : Journal}
    (hx : Chronicled env ⟨d, writers, mk k⟩ J) :
    Chronicled env ⟨(k.exec (Item.bytes env) d).2, writers, mk (.done (k.exec (Item.bytes env) d).1)⟩
      (J.run k) := by
  induction k generalizing d J with
  | done r => exact hx
  | write off i k ih => exact ih _ (hx.step (hstep rfl (.write off i k)))
  | flush k ih => exact ih _ (hx.step (hstep rfl (.flush k)))

theorem Chronicled.call {env : Env} {d d' : Disk Item} {writers : List (UInt64 × UInt64)}
    {s t : Store} {J : Journal} {last : Option (Op × Except Status Unit)} {r : Except Status Unit}
    (op : Op) (hx : Chronicled env ⟨d, writers, .idle s last⟩ J)
    (hrun : (op.program s).exec (Item.bytes env) d = ((r, t), d')) :
    Chronicled env ⟨d', writers, .idle t (some (op, r))⟩
      (noteResult Journal.note (J.run (op.program s)) op r) := by
  have h1 := Chronicled.exec (fun hp h => .effect _ _ hp h) _ (hx.step (.call _ J op rfl))
  rw [hrun] at h1
  exact h1.step (.returned _ _ rfl)

namespace Sample

/-- What happens in the sample run up to its block. -/
def noted : Journal := [.partition { header := header 0 1 }, .record ⟨record, 0, 0, none⟩]

theorem chronicled_published : Chronicled env
    ⟨framed, [], .idle published (some (.publish, .ok ()))⟩
    (noted ++ [.block 12288 (block 0 (0, 0) (3, 4)) record]) := by
  have h : Rd.run (imageSource (formatted.volatile (Item.bytes env)))
      (recover (formatted.volatile (Item.bytes env)).size openOptions (.ok (3, 4))) =
        .ok recovered := by
    rw [← recovered_eq]
    exact formatted_blank.recover geometry rfl rfl rfl
  have hopen : Chronicled env ⟨formatted, [], .opening (startWriter recovered)⟩ recovered.journal :=
    Chronicled.opening _ (o := openOptions) rfl rfl h rfl
  have h1 := Chronicled.exec (fun hp h => .openEffect _ _ hp h) _ hopen
  rw [exec_open] at h1
  exact ((h1.step (.opened _ _ rfl)).call _ exec_append).call _ exec_publish

end Sample

/-- The block of the sample run says what it has to say of its record, and `inspect` reports its
partition with what the block says. -/
theorem block_metadata_sample :
    Describes Sample.noted (Sample.block 0 (0, 0) (3, 4)) Sample.record ∧
    ∃ info ∈ Sample.published.inspect.partitions, info.generation = 1 ∧ info.slot = 0 ∧
      Summary [(Sample.block 0 (0, 0) (3, 4)).extent] info.flags info.minTimeNs info.maxTimeNs := by
  obtain ⟨hblocks, -, hinspect⟩ := block_metadata Sample.chronicled_published
  refine ⟨(hblocks Sample.noted [] 12288 _ _ rfl).1, ?_⟩
  refine (hinspect _ _ rfl rfl).2 { header := Sample.header 0 1 } ⟨[], _, rfl, fun q hq => ?_⟩ rfl
  simp at hq

end TFDB

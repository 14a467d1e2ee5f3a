import TFDB.Strict

/-!
# The discipline of query events

`query` emits events in five places, each with its own way to stop, and takes the blocks of a
partition from its index, from the retained index or from one of two scans.

* `Delivered` — the visitor was shown these events one after the other, and the call went on behind
  each of them but the last;
* `run_queryEntries_spec`, `run_queryPartition_spec`, `run_queryPartitions_spec` — every loop of the
  query delivers, and its data events belong to the entries it was given, on any source of bytes;
* `Numbered` — however the blocks of a partition are found, entry `i` has sequence `i` modulo
  `2 ^ 32`.
-/

set_option autoImplicit false

namespace TFDB

open ByteLib

/-! ## Delivery -/

/-- The status a call returns with behind this event, if it ends there. -/
def Query.stopsAt (q : Query) (seen : List BlockEvent) (ev : BlockEvent) : Option Status :=
  if ¬ q.visitor (seen ++ [ev]) then some {}
  else if ev.kind ≠ .data ∧ ¬ q.continueOnGap then some ev.detail
  else none

theorem Query.emit_eq (q : Query) (qs : QueryState) (ev : BlockEvent) :
    q.emit qs ev = (qs.deliver ev, q.stopsAt qs.events ev) := by
  unfold emit stopsAt
  have hev : (qs.deliver ev).events = qs.events ++ [ev] := rfl
  simp only [hev]
  split
  · rfl
  · split <;> rfl

/-- Behind the events seen so far these were delivered; the last component is the status the call
ended with, if one of them ended it. -/
inductive Delivered (q : Query) : List BlockEvent → List BlockEvent → Option Status → Prop
  | nil (seen : List BlockEvent) : Delivered q seen [] none
  | last {seen : List BlockEvent} {ev : BlockEvent} {st : Status}
      (h : q.stopsAt seen ev = some st) : Delivered q seen [ev] (some st)
  | cons {seen : List BlockEvent} {ev : BlockEvent} {evs : List BlockEvent} {r : Option Status}
      (h : q.stopsAt seen ev = none) (hd : Delivered q (seen ++ [ev]) evs r) :
      Delivered q seen (ev :: evs) r

section
variable {q : Query} {seen evs : List BlockEvent} {r : Option Status}

theorem Delivered.append {evs' : List BlockEvent} (h : Delivered q seen evs none)
    (h' : Delivered q (seen ++ evs) evs' r) : Delivered q seen (evs ++ evs') r := by
  generalize hn : (none : Option Status) = n at h
  induction h with
  | nil seen =>
    rw [List.append_nil] at h'
    exact h'
  | last h => cases hn
  | @cons seen ev evs n hstop hd ih =>
    refine .cons hstop (ih ?_ hn)
    rw [List.append_assoc, List.singleton_append]
    exact h'

/-- One event that does not end the call. -/
theorem Delivered.single {ev : BlockEvent} (h : q.stopsAt seen ev = none) :
    Delivered q seen [ev] none := .cons h (.nil _)

/-- One event, however the call goes on. -/
theorem Delivered.emitted (q : Query) (seen : List BlockEvent) (ev : BlockEvent) :
    Delivered q seen [ev] (q.stopsAt seen ev) := by
  cases hs : q.stopsAt seen ev with
  | none => exact .single hs
  | some st => exact .last hs

/-- The event that ends a call is its last one. -/
theorem Delivered.stop (h : Delivered q seen evs r) {k : Nat} {ev : BlockEvent}
    (hk : evs[k]? = some ev) {st : Status} (hs : q.stopsAt (seen ++ evs.take k) ev = some st) :
    k + 1 = evs.length ∧ r = some st := by
  induction h generalizing k with
  | nil => cases hk
  | @last seen ev' st' h =>
    cases k with
    | zero =>
      cases hk
      rw [List.take_zero, List.append_nil] at hs
      exact ⟨rfl, h.symm.trans hs⟩
    | succ k => cases hk
  | @cons seen ev' evs r hstop hd ih =>
    cases k with
    | zero =>
      cases hk
      rw [List.take_zero, List.append_nil, hstop] at hs
      cases hs
    | succ k =>
      rw [List.take_succ_cons, List.append_cons] at hs
      obtain ⟨hlen, hr⟩ := ih hk hs
      exact ⟨by simpa using hlen, hr⟩

end

/-! ## The events of one partition -/

/-- A data event of a partition, inside the range that was asked for. -/
structure DataOf (q : Query) (p : PartitionState) (ev : BlockEvent) : Prop where
  slot : ev.metadata.partitionSlot = p.header.slot
  generation : ev.metadata.partitionGeneration = p.header.generation
  domain : ev.metadata.timeDomainId = p.header.options.timeDomainId
  range : ∀ r, q.range = some r →
    rangesIntersect ev.metadata.minTimeNs ev.metadata.maxTimeNs r = true

def BlockEvent.isData (ev : BlockEvent) : Bool := ev.kind == .data

/-- The data events of a partition are those of some of its entries, in their order. -/
structure FromEntries (q : Query) (p : PartitionState) (es : List IndexEntry)
    (evs : List BlockEvent) : Prop where
  owned : ∀ ev ∈ evs, ev.isData = true → DataOf q p ev
  sequences : List.Sublist ((evs.filter BlockEvent.isData).map (·.metadata.blockSequence))
    (es.map (·.sequence))

section
variable {q : Query} {p : PartitionState} {es : List IndexEntry} {evs : List BlockEvent}

theorem FromEntries.nil (q : Query) (p : PartitionState) (es : List IndexEntry) :
    FromEntries q p es [] := ⟨fun ev hev => (by cases hev), List.nil_sublist _⟩

theorem FromEntries.skip (h : FromEntries q p es evs) (e : IndexEntry) :
    FromEntries q p (e :: es) evs := ⟨h.owned, h.sequences.cons _⟩

theorem FromEntries.gap {ev : BlockEvent} (h : FromEntries q p es evs) (hev : ev.isData = false) :
    FromEntries q p es (ev :: evs) := by
  constructor
  · intro ev' hm hd
    rcases List.mem_cons.mp hm with rfl | hm
    · rw [hev] at hd
      cases hd
    · exact h.owned ev' hm hd
  · rw [List.filter_cons_of_neg (by simp [hev])]
    exact h.sequences

theorem FromEntries.data {ev : BlockEvent} {e : IndexEntry} (h : FromEntries q p es evs)
    (hev : ev.isData = true) (hdata : DataOf q p ev) (hseq : ev.metadata.blockSequence = e.sequence) :
    FromEntries q p (e :: es) (ev :: evs) := by
  constructor
  · intro ev' hm hd
    rcases List.mem_cons.mp hm with rfl | hm
    · exact hdata
    · exact h.owned ev' hm hd
  · rw [List.filter_cons_of_pos hev, List.map_cons, List.map_cons, hseq]
    exact h.sequences.cons_cons _

end

section
variable {env : Env} {src : Source Status} {p : PartitionState} {e : IndexEntry}

theorem run_classify_ne_ok {α : Type} (st : Status) {a : α} :
    Rd.run src (classifySnapshotFailure env p st : Rd Status α) ≠ .ok a := by
  intro h
  simp only [classifySnapshotFailure, Rd.run_bind, Rd.run_attempt, Rd.bind_ok] at h
  split at h
  · rw [Rd.run_ite] at h
    split at h <;> cases h
  · rw [Rd.run_ite] at h
    split at h <;> cases h

/-- What `read_block` delivers agrees with the entry. -/
theorem readBlock_agrees {metadata : BlockMetadata} {decoded : Bytes}
    (h : Rd.run src (readBlock env p e) = .ok (metadata, decoded)) :
    ∃ b, identityAgrees env p e b = true ∧ metadataAgrees env p e b = true ∧
      metadata = blockMetadata env p e b := by
  simp only [readBlock, Rd.run_bind, Rd.run_attempt, Rd.bind_ok] at h
  split at h
  · exact absurd h (run_classify_ne_ok _)
  rw [Rd.run_ite] at h
  split at h
  · cases h
  rw [Rd.run_bind] at h
  obtain ⟨bytes, -, h⟩ := bind_ok_inv h
  split at h
  · exact absurd h (run_classify_ne_ok _)
  rename_i b hb
  rw [Rd.run_ite] at h
  split at h
  · exact absurd h (run_classify_ne_ok _)
  rename_i hid
  rw [Rd.run_ite] at h
  split at h
  · exact absurd h (run_classify_ne_ok _)
  rename_i hmeta
  refine ⟨b, by simpa using hid, by simpa using hmeta, ?_⟩
  rw [Rd.run_ite] at h
  split at h
  · exact absurd h (run_classify_ne_ok _)
  rw [Rd.run_bind] at h
  obtain ⟨stored, -, h⟩ := bind_ok_inv h
  rw [Rd.run_bind, Rd.run_attempt, Rd.bind_ok] at h
  split at h
  · exact absurd h (run_classify_ne_ok _)
  rw [Rd.run_ite] at h
  split at h
  · cases h
  rw [Rd.run_ite] at h
  split at h
  · exact absurd h (run_classify_ne_ok _)
  rw [Rd.run_bind] at h
  obtain ⟨raw, -, h⟩ := bind_ok_inv h
  cases h
  rfl

theorem readBlock_dataOf {q : Query} (hsel : q.selectsEntry e = true) {metadata : BlockMetadata}
    {decoded : Bytes} (h : Rd.run src (readBlock env p e) = .ok (metadata, decoded)) :
    DataOf q p { metadata := metadata, data := decoded } ∧ metadata.blockSequence = e.sequence := by
  obtain ⟨b, hid, hmeta, rfl⟩ := readBlock_agrees h
  simp only [identityAgrees, metadataAgrees, Bool.and_eq_true, beq_iff_eq] at hid hmeta
  refine ⟨⟨rfl, rfl, rfl, fun r hr => ?_⟩, hid.1.1.1.2⟩
  show rangesIntersect b.minTimeNs b.maxTimeNs r = true
  rw [hmeta.1.1.1.2, hmeta.1.1.2]
  simpa [Query.selectsEntry, hr] using hsel

/-- The loop over the entries of a partition. -/
theorem run_queryEntries_spec (env : Env) (src : Source Status) (q : Query) (p : PartitionState)
    (es : List IndexEntry) (qs : QueryState) :
    ∃ evs r, ReadProg.run src (queryEntries env q p es qs) = (qs.deliverAll evs, r) ∧
      Delivered q qs.events evs r ∧ FromEntries q p es evs := by
  induction es generalizing qs with
  | nil => exact ⟨[], none, rfl, .nil _, .nil q p []⟩
  | cons e es ih =>
    unfold queryEntries
    split
    · obtain ⟨evs, r, hrun, hd, hf⟩ := ih qs
      exact ⟨evs, r, hrun, hd, hf.skip e⟩
    rename_i hsel
    rw [Decidable.not_not] at hsel
    -- an event, behind which the loop stops or goes on
    have rest (ev : BlockEvent) (hstop : q.stopsAt qs.events ev = none) :
        ∃ evs r, ReadProg.run src (queryEntries env q p es (qs.deliver ev)) =
            (qs.deliverAll (ev :: evs), r) ∧
          Delivered q qs.events (ev :: evs) r ∧ FromEntries q p es evs := by
      obtain ⟨evs, r, hrun, hd, hf⟩ := ih (qs.deliver ev)
      exact ⟨evs, r, hrun, .cons hstop hd, hf⟩
    cases hr : Rd.run src (readBlock env p e) with
    | ok block =>
      obtain ⟨metadata, decoded⟩ := block
      obtain ⟨hdata, hseq⟩ := readBlock_dataOf hsel hr
      simp only [ReadProg.run_bind', Rd.run_outcome, hr, Query.emit_eq]
      cases hstop : q.stopsAt qs.events { metadata := metadata, data := decoded } with
      | some st => exact ⟨_, _, rfl, .last hstop, (FromEntries.nil q p es).data rfl hdata hseq⟩
      | none =>
        obtain ⟨evs, r, hrun, hd, hf⟩ := rest _ hstop
        exact ⟨_, r, hrun, hd, hf.data rfl hdata hseq⟩
    | error st =>
      simp only [ReadProg.run_bind', Rd.run_outcome, hr, Query.emit_eq]
      generalize hkind : (if st.code = .overwritten then BlockEventKind.overwrittenGap
        else .corruptGap) = kind
      have hgap : kind ≠ .data := by
        rw [← hkind]
        split <;> decide
      generalize hev : ({ gapEvent kind st p with metadata :=
        { (gapEvent kind st p).metadata with blockSequence := e.sequence } } : BlockEvent) = ev
      have hev' : ev.isData = false := by
        rw [← hev]
        exact beq_eq_false_iff_ne.mpr hgap
      have hnone : FromEntries q p (e :: es) [ev] := (FromEntries.nil q p _).gap hev'
      cases hstop : q.stopsAt qs.events ev with
      | some st' => exact ⟨_, _, rfl, .last hstop, hnone⟩
      | none =>
        by_cases hover : kind = .overwrittenGap
        · refine ⟨[ev], none, ?_, .single hstop, hnone⟩
          simp only [if_pos hover]
          rfl
        · obtain ⟨evs, r, hrun, hd, hf⟩ := rest _ hstop
          refine ⟨_, r, ?_, hd, (hf.skip e).gap hev'⟩
          simp only [if_neg hover]
          exact hrun

/-- Events that a query delivers before it returns `r`; a failure of the source ends it without an
event. -/
def Brought (q : Query) (seen evs : List BlockEvent) (r : Option Status) : Prop :=
  ∃ r', Delivered q seen evs r' ∧ (r' = r ∨ r' = none)

theorem Delivered.brought {q : Query} {seen evs : List BlockEvent} {r : Option Status}
    (h : Delivered q seen evs r) : Brought q seen evs r := ⟨r, h, Or.inl rfl⟩

theorem Brought.append {q : Query} {seen evs evs' : List BlockEvent} {r : Option Status}
    (h : Brought q seen evs none) (h' : Brought q (seen ++ evs) evs' r) :
    Brought q seen (evs ++ evs') r := by
  obtain ⟨r', hd, hr⟩ := h
  obtain ⟨r'', hd', hr'⟩ := h'
  obtain rfl : r' = none := hr.elim id id
  exact ⟨r'', hd.append hd', hr'⟩

/-- The entries a query takes the blocks of a partition from. -/
def Lists (env : Env) (src : Source Status) (p : PartitionState) (es : List IndexEntry) : Prop :=
  es = [] ∨ ∃ a, Rd.run src (acquireIndex env p) = .ok a ∧ a.entries = es

/-- The events of one partition. -/
structure FromPartition (env : Env) (src : Source Status) (q : Query) (p : PartitionState)
    (evs : List BlockEvent) : Prop where
  selected : ∀ ev ∈ evs, ev.isData = true → q.selectsPartition p = true
  listed : ∃ es, Lists env src p es ∧ FromEntries q p es evs

theorem generationGap_isData {current : Except Status PartitionHeader} {ev : BlockEvent}
    (h : generationGap p current = some (.ok ev)) : ev.isData = false := by
  cases current with
  | ok h' =>
    simp only [generationGap] at h
    split at h
    · cases h
      rfl
    · cases h
  | error st =>
    simp only [generationGap] at h
    split at h <;> cases h
    rfl

theorem run_queryPartition_spec (env : Env) (src : Source Status) (q : Query) (p : PartitionState)
    (qs : QueryState) :
    ∃ evs r, ReadProg.run src (queryPartition env q p qs) = (qs.deliverAll evs, r) ∧
      Brought q qs.events evs r ∧ FromPartition env src q p evs := by
  have silent (r : Option Status) : ∃ evs r', (qs, r) = (qs.deliverAll evs, r') ∧
      Brought q qs.events evs r' ∧ FromPartition env src q p evs :=
    ⟨[], r, rfl, ⟨_, .nil _, Or.inr rfl⟩, fun ev hev => (by cases hev), [], Or.inl rfl, .nil q p []⟩
  unfold queryPartition
  split
  · exact silent _
  rename_i hsel
  rw [Decidable.not_not] at hsel
  rw [ReadProg.run_bind', Rd.run_outcome]
  cases ha : Rd.run src (acquireIndex env p) with
  | error st => exact silent _
  | ok a =>
    have hlist : Lists env src p a.entries := Or.inr ⟨a, ha, rfl⟩
    rw [ReadProg.run_bind', Rd.run_outcome]
    cases hg : generationGap p (Rd.run src (readPartitionHeader env p.header.slot)) with
    | some outcome =>
      cases outcome with
      | error st => exact silent _
      | ok ev =>
        show ∃ evs r, q.emit qs ev = _ ∧ _
        rw [Query.emit_eq]
        exact ⟨[ev], _, rfl, (Delivered.emitted q qs.events ev).brought, fun _ _ _ => hsel, [],
          Or.inl rfl, (FromEntries.nil q p []).gap (generationGap_isData hg)⟩
    | none =>
      dsimp only
      split
      · generalize hev : gapEvent .corruptGap ⟨.corrupt, if p.isSealed = true then
          "sealed partition has invalid data/index prefix"
          else "footerless partition changed after catalog snapshot"⟩ p = ev
        have hgap : ev.isData = false := by
          rw [← hev]
          rfl
        simp only [Query.emit_eq]
        cases hstop : q.stopsAt qs.events ev with
        | some st =>
          exact ⟨[ev], _, rfl, (Delivered.last hstop).brought, fun _ _ _ => hsel, [], Or.inl rfl,
            (FromEntries.nil q p []).gap hgap⟩
        | none =>
          obtain ⟨evs, r, hrun, hd, hf⟩ := run_queryEntries_spec env src q p a.entries
            (qs.deliver ev)
          exact ⟨ev :: evs, r, hrun, (Delivered.cons hstop hd).brought, fun _ _ _ => hsel, _, hlist,
            hf.gap hgap⟩
      · obtain ⟨evs, r, hrun, hd, hf⟩ := run_queryEntries_spec env src q p a.entries qs
        exact ⟨evs, r, hrun, hd.brought, fun _ _ _ => hsel, _, hlist, hf⟩

/-! ## The whole call -/

/-- The events of partitions, one after the other. -/
inductive FromPartitions (env : Env) (src : Source Status) (q : Query) :
    List PartitionState → List BlockEvent → Prop
  | nil (ps : List PartitionState) : FromPartitions env src q ps []
  | cons {p : PartitionState} {ps : List PartitionState} {evs evs' : List BlockEvent}
      (h : FromPartition env src q p evs) (ht : FromPartitions env src q ps evs') :
      FromPartitions env src q (p :: ps) (evs ++ evs')

theorem run_queryPartitions_spec (env : Env) (src : Source Status) (q : Query)
    (ps : List PartitionState) (qs : QueryState) :
    ∃ evs r, ReadProg.run src (queryPartitions env q ps qs) = (qs.deliverAll evs, r) ∧
      Brought q qs.events evs (some r) ∧ FromPartitions env src q ps evs := by
  induction ps generalizing qs with
  | nil => exact ⟨[], _, rfl, ⟨_, .nil _, Or.inr rfl⟩, .nil _⟩
  | cons p ps ih =>
    obtain ⟨evs, r, hrun, hb, hf⟩ := run_queryPartition_spec env src q p qs
    unfold queryPartitions
    rw [ReadProg.run_bind', hrun]
    cases r with
    | some st =>
      refine ⟨evs, st, rfl, hb, ?_⟩
      rw [← List.append_nil evs]
      exact .cons hf (.nil _)
    | none =>
      obtain ⟨evs', r', hrun', hb', hf'⟩ := ih (qs.deliverAll evs)
      rw [QueryState.deliverAll_events] at hb'
      refine ⟨evs ++ evs', r', ?_, hb.append hb', .cons hf hf'⟩
      rw [QueryState.deliverAll_append]
      exact hrun'

end

theorem queryCorruptSlots_spec (q : Query) (slots : List UInt32) (qs : QueryState) :
    ∃ evs r, queryCorruptSlots q slots qs = (qs.deliverAll evs, r) ∧ Delivered q qs.events evs r ∧
      ∀ ev ∈ evs, ev.isData = false := by
  induction slots generalizing qs with
  | nil => exact ⟨[], none, rfl, .nil _, fun ev hev => (by cases hev)⟩
  | cons slot slots ih =>
    unfold queryCorruptSlots
    rw [Query.emit_eq]
    cases hstop : q.stopsAt qs.events (slotGap slot) with
    | some st =>
      refine ⟨[slotGap slot], some st, ?_, .last hstop, fun ev hev => ?_⟩
      · unfold slotGap at hstop
        rw [hstop]
        rfl
      · rw [List.mem_singleton.mp hev]
        rfl
    | none =>
      obtain ⟨evs, r, hrun, hd, hgap⟩ := ih (qs.deliver (slotGap slot))
      refine ⟨slotGap slot :: evs, r, ?_, .cons hstop hd, fun ev hev => ?_⟩
      · unfold slotGap at hstop
        rw [hstop]
        exact hrun
      · rcases List.mem_cons.mp hev with rfl | hev
        · rfl
        · exact hgap ev hev

/-- Everything a call delivers: the gaps of the damaged slots, then the partitions in order. -/
structure Answer (env : Env) (src : Source Status) (q : Query) (ps : List PartitionState)
    (gaps evs : List BlockEvent) (st : Status) : Prop where
  brought : Brought q [] (gaps ++ evs) (some st)
  valid : evs ≠ [] → q.Valid
  gap : ∀ ev ∈ gaps, ev.isData = false
  partitions : FromPartitions env src q (sortPartitions ps) evs

theorem run_query_spec (env : Env) (src : Source Status) (q : Query) (ps : List PartitionState)
    (slots : List UInt32) : ∃ gaps evs st,
      ReadProg.run src (query env q ps slots) = (({} : QueryState).deliverAll (gaps ++ evs), st) ∧
      Answer env src q ps gaps evs st := by
  have refused (st : Status) : ∃ gaps evs st',
      (({}, st) : QueryState × Status) = (({} : QueryState).deliverAll (gaps ++ evs), st') ∧
      Answer env src q ps gaps evs st' :=
    ⟨[], [], st, rfl, ⟨_, .nil _, Or.inr rfl⟩, fun h => absurd rfl h, fun ev hev => (by cases hev),
      .nil _⟩
  have accepted (hv : q.Valid) : ∃ gaps evs st, ReadProg.run src (query.run env q ps slots) =
      (({} : QueryState).deliverAll (gaps ++ evs), st) ∧ Answer env src q ps gaps evs st := by
    obtain ⟨gaps, r, hslots, hd, hgap⟩ := queryCorruptSlots_spec q slots {}
    unfold query.run
    rw [hslots]
    cases r with
    | some st =>
      refine ⟨gaps, [], st, ?_, ?_, fun _ => hv, hgap, .nil _⟩
      · rw [List.append_nil]
        rfl
      · rw [List.append_nil]
        exact hd.brought
    | none =>
      obtain ⟨evs, st, hps, hb, hf⟩ := run_queryPartitions_spec env src q (sortPartitions ps)
        (({} : QueryState).deliverAll gaps)
      rw [QueryState.deliverAll_events] at hb
      refine ⟨gaps, evs, st, ?_, hd.brought.append hb, fun _ => hv, hgap, hf⟩
      rw [QueryState.deliverAll_append]
      exact hps
  unfold query
  cases hr : q.range with
  | none => exact accepted fun r hr' => (by rw [hr] at hr'; cases hr')
  | some r =>
    dsimp only
    split
    · exact refused _
    rename_i hempty
    split
    · exact refused _
    rename_i hdomain
    refine accepted fun r' hr' => ?_
    rw [hr] at hr'
    cases hr'
    exact ⟨Int64.not_le.mp hempty, hdomain⟩

theorem QueryState.deliverAll_gaps (qs : QueryState) (evs : List BlockEvent) :
    (qs.deliverAll evs).corruptGaps =
        qs.corruptGaps + evs.countP (fun ev => ev.kind == .corruptGap) ∧
      (qs.deliverAll evs).overwrittenGaps =
        qs.overwrittenGaps + evs.countP (fun ev => ev.kind == .overwrittenGap) := by
  induction evs generalizing qs with
  | nil => exact ⟨rfl, rfl⟩
  | cons ev evs ih =>
    obtain ⟨h1, h2⟩ := ih (qs.deliver ev)
    refine ⟨h1.trans ?_, h2.trans ?_⟩
    · simp only [QueryState.deliver, List.countP_cons, beq_iff_eq]
      omega
    · simp only [QueryState.deliver, List.countP_cons, beq_iff_eq]
      omega

/-- A gap is corrupt or overwritten. -/
theorem countP_gaps (evs : List BlockEvent) :
    evs.countP (fun ev => ev.kind == .corruptGap) +
      evs.countP (fun ev => ev.kind == .overwrittenGap) = evs.countP fun ev => !ev.isData := by
  induction evs with
  | nil => rfl
  | cons ev evs ih =>
    have hdata : ev.isData = (ev.kind == .data) := rfl
    simp only [List.countP_cons, ← ih, hdata]
    cases ev.kind <;> simp <;> omega

/-! ## Partitions without a header -/

theorem run_queryPartition_headerless (env : Env) (src : Source Status) (q : Query)
    {p : PartitionState} {st : Status}
    (hst : Rd.run src (readPartitionHeader env p.header.slot) = .error st) (qs : QueryState) :
    ∃ evs r, ReadProg.run src (queryPartition env q p qs) = (qs.deliverAll evs, r) ∧
      ∀ ev ∈ evs, ev.isData = false := by
  unfold queryPartition
  split
  · exact ⟨[], none, rfl, fun ev hev => (by cases hev)⟩
  rw [ReadProg.run_bind', Rd.run_outcome]
  cases Rd.run src (acquireIndex env p) with
  | error st' => exact ⟨[], some st', rfl, fun ev hev => (by cases hev)⟩
  | ok a =>
    rw [ReadProg.run_bind', Rd.run_outcome, hst]
    by_cases hfatal : (st.isIo || st.code == .unsupported) = true
    · simp only [generationGap, if_pos hfatal]
      exact ⟨[], some st, rfl, fun ev hev => (by cases hev)⟩
    · simp only [generationGap, if_neg hfatal]
      refine ⟨[gapEvent .corruptGap st p], _, Query.emit_eq .., fun ev hev => ?_⟩
      rw [List.mem_singleton.mp hev]
      rfl

/-- A query delivers no block of partitions whose headers cannot be read. -/
theorem run_queryPartitions_headerless (env : Env) (src : Source Status) (q : Query)
    (ps : List PartitionState)
    (hps : ∀ p ∈ ps, ∃ st, Rd.run src (readPartitionHeader env p.header.slot) = .error st)
    (qs : QueryState) :
    ∃ evs r, ReadProg.run src (queryPartitions env q ps qs) = (qs.deliverAll evs, r) ∧
      ∀ ev ∈ evs, ev.isData = false := by
  induction ps generalizing qs with
  | nil => exact ⟨[], _, rfl, fun ev hev => (by cases hev)⟩
  | cons p ps ih =>
    obtain ⟨st, hst⟩ := hps p (List.mem_cons_self ..)
    obtain ⟨evs, r, hrun, hgap⟩ := run_queryPartition_headerless env src q hst qs
    unfold queryPartitions
    rw [ReadProg.run_bind', hrun]
    cases r with
    | some r => exact ⟨evs, r, rfl, hgap⟩
    | none =>
      obtain ⟨evs', r', hrun', hgap'⟩ := ih (fun p hp => hps p (List.mem_cons_of_mem _ hp))
        (qs.deliverAll evs)
      refine ⟨evs ++ evs', r', ?_, fun ev hev => (List.mem_append.mp hev).elim (hgap ev) (hgap' ev)⟩
      rw [QueryState.deliverAll_append]
      exact hrun'

theorem query_headerless (env : Env) (src : Source Status) (q : Query) (ps : List PartitionState)
    (slots : List UInt32)
    (hps : ∀ p ∈ ps, ∃ st, Rd.run src (readPartitionHeader env p.header.slot) = .error st) :
    ∀ ev ∈ (ReadProg.run src (query env q ps slots)).1.events, ev.isData = false := by
  have accepted : ∀ ev ∈ (ReadProg.run src (query.run env q ps slots)).1.events,
      ev.isData = false := by
    obtain ⟨gaps, r, hslots, -, hgap⟩ := queryCorruptSlots_spec q slots {}
    unfold query.run
    rw [hslots]
    cases r with
    | some st =>
      rw [ReadProg.run_pure, QueryState.deliverAll_events]
      exact hgap
    | none =>
      obtain ⟨evs, st, hrun, hevs⟩ := run_queryPartitions_headerless env src q (sortPartitions ps)
        (fun p hp => hps p (mem_sortPartitions.mp hp)) (({} : QueryState).deliverAll gaps)
      have hrun : ReadProg.run src (queryPartitions env q (sortPartitions ps)
          (({} : QueryState).deliverAll gaps)) = _ := hrun
      simp only [hrun, QueryState.deliverAll_events]
      exact fun ev hev => (List.mem_append.mp hev).elim (hgap ev) (hevs ev)
  unfold query
  split
  · split
    · exact fun ev hev => (by cases hev)
    split
    · exact fun ev hev => (by cases hev)
    · exact accepted
  · exact accepted

/-- What a caller can rely on in every call. -/
structure EventRules (q : Query) (snapshot : List PartitionState) (qs : QueryState) (st : Status) :
    Prop where
  /-- The counters grow by the gaps that were delivered. -/
  gaps : qs.corruptGaps + qs.overwrittenGaps = qs.events.countP fun ev => !ev.isData
  /-- An event the visitor declines is the last one, and the call returns OK. -/
  declined : ∀ k, k < qs.events.length → q.visitor (qs.events.take (k + 1)) = false →
    k + 1 = qs.events.length ∧ st = {}
  /-- Without `continue_on_gap`, a gap the visitor accepts is the last event, and its detail is
  returned. -/
  gap : q.continueOnGap = false → ∀ k ev, qs.events[k]? = some ev → ev.kind ≠ .data →
    q.visitor (qs.events.take (k + 1)) = true → k + 1 = qs.events.length ∧ st = ev.detail
  /-- A data event belongs to a partition of the snapshot, and it is what was asked for. -/
  selected : ∀ ev ∈ qs.events, ev.kind = .data → ∃ p ∈ snapshot,
    ev.metadata.partitionSlot = p.header.slot ∧
    ev.metadata.partitionGeneration = p.header.generation ∧
    ∀ r, q.range = some r → p.header.options.timeDomainId = r.timeDomainId ∧
      rangesIntersect ev.metadata.minTimeNs ev.metadata.maxTimeNs r = true

section
variable {env : Env} {src : Source Status} {q : Query}

/-- The data events of partitions belong to them. -/
theorem FromPartitions.owned {ps : List PartitionState} {evs : List BlockEvent}
    (h : FromPartitions env src q ps evs) {ev : BlockEvent} (hev : ev ∈ evs)
    (hd : ev.isData = true) : ∃ p ∈ ps, q.selectsPartition p = true ∧ DataOf q p ev := by
  induction h with
  | nil => cases hev
  | @cons p ps evs evs' h ht ih =>
    rcases List.mem_append.mp hev with hev | hev
    · obtain ⟨es, -, hf⟩ := h.listed
      exact ⟨p, List.mem_cons_self .., h.selected ev hev hd, hf.owned ev hev hd⟩
    · obtain ⟨p', hp', h'⟩ := ih hev
      exact ⟨p', List.mem_cons_of_mem _ hp', h'⟩

theorem Brought.stop {seen evs : List BlockEvent} {st : Status} (h : Brought q seen evs (some st))
    {k : Nat} {ev : BlockEvent} (hk : evs[k]? = some ev) {st' : Status}
    (hs : q.stopsAt (seen ++ evs.take k) ev = some st') : k + 1 = evs.length ∧ st = st' := by
  obtain ⟨r, hd, hr⟩ := h
  obtain ⟨hlen, rfl⟩ := hd.stop hk hs
  refine ⟨hlen, ?_⟩
  rcases hr with hr | hr
  · exact (Option.some.inj hr).symm
  · cases hr

theorem take_succ_some {α : Type} {l : List α} {k : Nat} {a : α} (h : l[k]? = some a) :
    l.take (k + 1) = l.take k ++ [a] := by
  rw [List.take_add_one, h]
  rfl

/-- **Every call keeps the rules**, whatever the medium returns. -/
theorem query_rules (env : Env) (src : Source Status) (q : Query) (ps : List PartitionState)
    (slots : List UInt32) : EventRules q ps (ReadProg.run src (query env q ps slots)).1
      (ReadProg.run src (query env q ps slots)).2 := by
  obtain ⟨gaps, evs, st, hrun, hb, hv, hgap, hf⟩ := run_query_spec env src q ps slots
  rw [hrun]
  have hevents : (({} : QueryState).deliverAll (gaps ++ evs)).events = gaps ++ evs :=
    QueryState.deliverAll_events _ _
  obtain ⟨hcorrupt, hover⟩ := ({} : QueryState).deliverAll_gaps (gaps ++ evs)
  refine ⟨?_, ?_, ?_, ?_⟩
  · rw [hcorrupt, hover, hevents, ← countP_gaps]
    simp
  · intro k hk hvisitor
    rw [hevents] at hk hvisitor ⊢
    have hget := List.getElem?_eq_getElem hk
    rw [take_succ_some hget] at hvisitor
    refine hb.stop hget ?_
    rw [List.nil_append, Query.stopsAt, if_pos (Bool.eq_false_iff.mp hvisitor)]
  · intro hcont k ev hk hkind hvisitor
    rw [hevents] at hk hvisitor ⊢
    rw [take_succ_some hk] at hvisitor
    refine hb.stop hk ?_
    rw [List.nil_append, Query.stopsAt, if_neg (by simp [hvisitor]), if_pos ⟨hkind, by simp [hcont]⟩]
  · intro ev hev hkind
    rw [hevents] at hev
    have hd : ev.isData = true := beq_iff_eq.mpr hkind
    rcases List.mem_append.mp hev with hev | hev
    · rw [hgap ev hev] at hd
      cases hd
    · obtain ⟨p, hp, hsel, hdata⟩ := hf.owned hev hd
      refine ⟨p, (List.mergeSort_perm ..).mem_iff.mp hp, hdata.slot, hdata.generation, fun r hr => ?_⟩
      have hdomain := (hv (List.ne_nil_of_mem hev) r hr).2
      refine ⟨?_, hdata.range r hr⟩
      simpa [Query.selectsPartition, hr, hdomain] using hsel

end

/-! ## The order of the data -/

/-- One data event comes before another. -/
def BlockEvent.Before (a b : BlockEvent) : Prop :=
  a.metadata.partitionGeneration < b.metadata.partitionGeneration ∨
    (a.metadata.partitionGeneration = b.metadata.partitionGeneration ∧
      a.metadata.blockSequence < b.metadata.blockSequence)

/-- The data events have strictly increasing generation and sequence. -/
def Increasing (evs : List BlockEvent) : Prop :=
  (evs.filter BlockEvent.isData).Pairwise BlockEvent.Before

/-- Entry `i` has sequence `i` modulo `2 ^ 32`. -/
def Numbered (es : List IndexEntry) : Prop :=
  es.map (·.sequence) = (List.range es.length).map UInt32.ofNat

theorem Numbered.nil : Numbered [] := rfl

theorem Numbered.snoc {es : List IndexEntry} (h : Numbered es) {e : IndexEntry}
    (he : e.sequence = UInt32.ofNat es.length) : Numbered (es ++ [e]) := by
  unfold Numbered
  rw [List.map_append, h, List.length_append, List.length_singleton, List.range_succ,
    List.map_append]
  simp [he]

/-- Up to `2 ^ 32` numbers are strictly increasing. -/
theorem Numbered.increasing {es : List IndexEntry} (h : Numbered es) (hlen : es.length ≤ 2 ^ 32) :
    (es.map (·.sequence)).Pairwise (· < ·) := by
  rw [h, List.pairwise_map]
  refine List.pairwise_lt_range.imp_of_mem fun {a b} ha hb hab => ?_
  rw [List.mem_range] at ha hb
  rw [UInt32.lt_iff_toNat_lt, toNat_ofNat32 (by omega), toNat_ofNat32 (by omega)]
  exact hab

/-- And no more than these. -/
theorem Numbered.length_le {es : List IndexEntry} (h : Numbered es)
    (hinc : (es.map (·.sequence)).Pairwise (· < ·)) : es.length ≤ 2 ^ 32 := by
  by_contra hlt
  rw [Nat.not_le] at hlt
  rw [h, List.pairwise_map] at hinc
  have hwrap := List.pairwise_iff_getElem.mp hinc 0 (2 ^ 32) (by simp; omega) (by simpa using hlt)
    (by decide)
  simp only [List.getElem_range] at hwrap
  exact absurd hwrap (by decide)

theorem FromEntries.increasing {q : Query} {p : PartitionState} {es : List IndexEntry}
    {evs : List BlockEvent} (h : FromEntries q p es evs)
    (hinc : (es.map (·.sequence)).Pairwise (· < ·)) : Increasing evs := by
  have hpair := hinc.sublist h.sequences
  rw [List.pairwise_map] at hpair
  refine hpair.imp_of_mem fun {a b} ha hb hab => Or.inr ⟨?_, hab⟩
  obtain ⟨ha, hda⟩ := List.mem_filter.mp ha
  obtain ⟨hb, hdb⟩ := List.mem_filter.mp hb
  rw [(h.owned a ha hda).generation, (h.owned b hb hdb).generation]

section
variable {env : Env} {src : Source Status} {q : Query}

theorem FromPartitions.increasing {ps : List PartitionState} {evs : List BlockEvent}
    (h : FromPartitions env src q ps evs)
    (hps : ps.Pairwise fun a b => a.header.generation < b.header.generation)
    (hinc : ∀ p ∈ ps, ∀ es, Lists env src p es → (es.map (·.sequence)).Pairwise (· < ·)) :
    Increasing evs := by
  induction h with
  | nil => exact .nil
  | @cons p ps evs evs' h ht ih =>
    rw [List.pairwise_cons] at hps
    obtain ⟨es, hes, hf⟩ := h.listed
    unfold Increasing
    rw [List.filter_append, List.pairwise_append]
    refine ⟨hf.increasing (hinc p (List.mem_cons_self ..) es hes),
      ih hps.2 fun p' hp' => hinc p' (List.mem_cons_of_mem _ hp'), fun a ha b hb => Or.inl ?_⟩
    obtain ⟨ha, hda⟩ := List.mem_filter.mp ha
    obtain ⟨hb, hdb⟩ := List.mem_filter.mp hb
    obtain ⟨p', hp', -, hb'⟩ := ht.owned hb hdb
    rw [(hf.owned a ha hda).generation, hb'.generation]
    exact hps.1 p' hp'

theorem query_increasing {ps : List PartitionState} (slots : List UInt32)
    (hps : (sortPartitions ps).Pairwise fun a b => a.header.generation < b.header.generation)
    (hinc : ∀ p ∈ ps, ∀ es, Lists env src p es → (es.map (·.sequence)).Pairwise (· < ·)) :
    Increasing (ReadProg.run src (query env q ps slots)).1.events := by
  obtain ⟨gaps, evs, st, hrun, -, -, hgap, hf⟩ := run_query_spec env src q ps slots
  rw [hrun, QueryState.deliverAll_events, List.nil_append]
  unfold Increasing
  rw [List.filter_append, List.filter_eq_nil_iff.mpr fun ev hev => by simp [hgap ev hev],
    List.nil_append]
  exact hf.increasing hps fun p hp => hinc p ((List.mergeSort_perm ..).mem_iff.mp hp)

end

/-! ## Where the entries come from -/

section
variable {env : Env} {src : Source Status} {p : PartitionState}

theorem loadIndex_numbered {es : List IndexEntry}
    (h : Rd.run src (loadIndex env p) = .ok es) : Numbered es ∧ es.length < 2 ^ 32 := by
  rcases loadIndex_inv h with ⟨-, rfl⟩ | ⟨hlen, stop, hstop⟩
  · exact ⟨.nil, by decide⟩
  · have hseq := checkEntries_sequences hstop
    refine ⟨?_, hlen ▸ p.footer.blockCount.toNat_lt⟩
    have hmap := congrArg (List.map UInt32.ofNat) hseq
    rw [List.map_map, List.map_map] at hmap
    refine (List.map_congr_left fun e _ => ?_).trans (hmap.trans (List.map_congr_left fun i _ => ?_))
    · exact (UInt32.ofNat_toNat).symm
    · show UInt32.ofNat (0 + i) = UInt32.ofNat i
      rw [Nat.zero_add]

theorem imageSource_inv {m : Image} {off n : Nat} {bytes : Bytes}
    (h : imageSource m off n = .ok bytes) : m.window off n = bytes := by
  unfold imageSource at h
  split at h
  · cases h
  · exact Except.ok.inj h

/-- A scan of an image returns a chain, whatever its size. -/
theorem scanLoop_chain {m : Image} {h : PartitionHeader} {limit : Nat} {scan : Scan} :
    ∀ {steps : Nat} {st : ScanState},
      Rd.run (imageSource m) (scanLoop env h limit steps st) = .ok scan →
      ∃ fs st', Chain env m h limit st fs st' ∧ scan.entries = st'.entries := by
  intro steps
  induction steps with
  | zero =>
    intro st hrun
    cases hrun
    exact ⟨[], st, .nil st, rfl⟩
  | succ steps ih =>
    intro st hrun
    -- where the loop ends here
    have stopped (corrupt : Bool) (hs : (.ok (st.stop corrupt) : Except Status Scan) = .ok scan) :
        ∃ fs st', Chain env m h limit st fs st' ∧ scan.entries = st'.entries := by
      cases hs
      exact ⟨[], st, .nil st, rfl⟩
    unfold scanLoop at hrun
    rw [Rd.run_ite] at hrun
    split at hrun
    · rename_i hinside
      rw [Rd.run_bind] at hrun
      obtain ⟨bytes, hbytes, hrun⟩ := bind_ok_inv hrun
      split at hrun
      · exact stopped true hrun
      rename_i b hb
      rw [Rd.run_ite] at hrun
      split at hrun
      · rename_i hacc
        rw [Rd.run_bind] at hrun
        obtain ⟨payload, hpayload, hrun⟩ := bind_ok_inv hrun
        rw [Rd.run_ite] at hrun
        split at hrun
        · exact stopped true hrun
        · rename_i hcrc
          obtain ⟨fs, st', hc, he⟩ := ih hrun
          refine ⟨(b, payload) :: fs, st', .cons ⟨hinside, ?_, scanAccepts_iff.mp hacc,
            imageSource_inv hpayload, not_not.mp hcrc⟩ hc, he⟩
          rw [imageSource_inv hbytes]
          exact hb
      · exact stopped true hrun
    · exact stopped false hrun

theorem scanPartition_chain {m : Image} {h : PartitionHeader} {scanLimit : Nat} {scan : Scan}
    (hrun : Rd.run (imageSource m) (scanPartition env h scanLimit) = .ok scan) :
    ∃ fs st, Chain env m h env.indexBegin {} fs st ∧
      scan.entries = chainEntries partitionHeaderRegionSize fs := by
  unfold scanPartition at hrun
  generalize (if scanLimit = 0 then env.indexBegin else scanLimit) = limit at hrun
  dsimp only at hrun
  rw [Rd.run_ite] at hrun
  split at hrun
  · cases hrun
  · rename_i hlimit
    rw [not_or, Nat.not_lt, Nat.not_lt] at hlimit
    obtain ⟨fs, st, hc, he⟩ := scanLoop_chain hrun
    refine ⟨fs, st, hc.narrow (Nat.le_trans (hc.cursor_limit hlimit.1) hlimit.2), ?_⟩
    rw [he, hc.entries]
    rfl

/-- A scan decides what the blocks of this partition are. -/
def Rescanned (env : Env) (src : Source Status) (p : PartitionState) : Prop :=
  if p.isSealed then ∃ st, Rd.run src (loadIndex env p) = .error st else p.activeIndex = []

theorem rescanAfter_inv {rescanned : Bool} {st : Status} {a : Acquired}
    (h : Rd.run src (rescanAfter env p rescanned st) = .ok a) :
    ∃ scan, Rd.run src (scanPartition env p.header (if p.isSealed then p.footer.dataEnd.toNat else 0))
      = .ok scan ∧ a.entries = scan.entries := by
  unfold rescanAfter at h
  rw [Rd.run_ite] at h
  split at h
  · cases h
  · rw [Rd.run_bind] at h
    obtain ⟨scan, hscan, h⟩ := bind_ok_inv h
    cases h
    exact ⟨scan, hscan, rfl⟩

/-- The four ways to the entries of a partition. -/
theorem acquireIndex_inv {a : Acquired} (h : Rd.run src (acquireIndex env p) = .ok a) :
    (p.isSealed = true ∧ Rd.run src (loadIndex env p) = .ok a.entries) ∨
      a.entries = p.activeIndex ∨
      (Rescanned env src p ∧ ∃ limit scan,
        Rd.run src (scanPartition env p.header limit) = .ok scan ∧ a.entries = scan.entries) := by
  unfold acquireIndex at h
  split at h
  · rename_i hs
    rw [Rd.run_bind, Rd.run_attempt, Rd.bind_ok] at h
    split at h
    · rename_i entries hload
      cases h
      exact Or.inl ⟨hs, hload⟩
    · rename_i st hload
      obtain ⟨scan, hscan, ha⟩ := rescanAfter_inv h
      refine Or.inr (Or.inr ⟨?_, _, scan, hscan, ha⟩)
      rw [Rescanned, if_pos hs]
      exact ⟨st, hload⟩
  · rename_i hs
    split at h
    · cases h
      exact Or.inr (Or.inl rfl)
    · rename_i hres
      rw [not_or, not_not] at hres
      have hscanned : Rescanned env src p := by
        rw [Rescanned, if_neg hs]
        exact hres.1
      rw [Rd.run_bind, Rd.run_attempt, Rd.bind_ok] at h
      split at h
      · rename_i scan hscan
        cases h
        exact Or.inr (Or.inr ⟨hscanned, _, scan, hscan, rfl⟩)
      · obtain ⟨scan, hscan, ha⟩ := rescanAfter_inv h
        exact Or.inr (Or.inr ⟨hscanned, _, scan, hscan, ha⟩)

/-- No more than `2 ^ 32` blocks are retained or found by a scan. -/
structure Few (env : Env) (m : Image) (p : PartitionState) : Prop where
  retained : p.activeIndex.length ≤ 2 ^ 32
  scanned : Rescanned env (imageSource m) p → ∀ fs st,
    Chain env m p.header env.indexBegin {} fs st → fs.length ≤ 2 ^ 32

/-- A scanned chain is numbered. -/
theorem Chain.numbered {m : Image} {h : PartitionHeader} {limit : Nat} {fs : List (BlockHeader × Bytes)}
    {st : ScanState} (hc : Chain env m h limit {} fs st) :
    Numbered (chainEntries partitionHeaderRegionSize fs) := by
  unfold Numbered
  rw [hc.sequences (n := 0) rfl, chainEntries_length]
  simp

/-- However the entries were found, they are numbered. -/
theorem Lists.numbered {m : Image} {es : List IndexEntry}
    (h : Lists env (imageSource m) p es) (hp : Numbered p.activeIndex) : Numbered es := by
  rcases h with rfl | ⟨a, ha, rfl⟩
  · exact .nil
  rcases acquireIndex_inv ha with ⟨-, hload⟩ | hact | ⟨-, limit, scan, hscan, he⟩
  · exact (loadIndex_numbered hload).1
  · rw [hact]
    exact hp
  · obtain ⟨fs, st, hc, hes⟩ := scanPartition_chain hscan
    rw [he, hes]
    exact hc.numbered

theorem Lists.length_le {m : Image} {es : List IndexEntry}
    (h : Lists env (imageSource m) p es) (hfew : Few env m p) : es.length ≤ 2 ^ 32 := by
  rcases h with rfl | ⟨a, ha, rfl⟩
  · exact Nat.zero_le _
  rcases acquireIndex_inv ha with ⟨-, hload⟩ | hact | ⟨hres, limit, scan, hscan, he⟩
  · exact Nat.le_of_lt (loadIndex_numbered hload).2
  · rw [hact]
    exact hfew.retained
  · obtain ⟨fs, st, hc, hes⟩ := scanPartition_chain hscan
    rw [he, hes, chainEntries_length]
    exact hfew.scanned hres fs st hc

end

end TFDB

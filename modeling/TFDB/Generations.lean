import TFDB.Usable
import TFDB.Confine
import TFDB.History
import TFDB.Seal

/-!
# Generations and slots

Which generations the valid headers of an image have, in every run whose power cuts do not make a
header out of pieces and whose opens find no header that waits for a flush.

* `Interval` — the generations are those of an interval, each in its slot;
* `Phase.Next`, `GenInv` — how far the writer is with the next header;
* `generations_disciplined` — the interval holds in every image a cut can leave, and a new partition
  continues it, in an unused slot or in place of the oldest partition.
-/

set_option autoImplicit false

namespace TFDB

open ByteLib Writer

/-! ## Intervals -/

/-- The headers that slots hold have the generations above `low` up to `top`, each in its slot. -/
structure Interval (env : Env) (held : UInt32 → PartitionHeader → Prop) (low top : Nat) : Prop where
  le : low ≤ top
  width : top ≤ low + env.partitionCount
  slots : ∀ slot < env.volume.partitionCount, ∀ h, held slot h →
    SlotOf env slot h.generation ∧ low < h.generation.toNat ∧ h.generation.toNat ≤ top
  all : ∀ n, low < n → n ≤ top → ∃ slot < env.volume.partitionCount, ∃ h, held slot h ∧
    h.generation.toNat = n

section
variable {env : Env} {held held' : UInt32 → PartitionHeader → Prop} {low top : Nat}

/-- Only the generations in the slots matter. -/
theorem Interval.congr (hi : Interval env held low top)
    (hto : ∀ slot < env.volume.partitionCount, ∀ h', held' slot h' →
      ∃ h, held slot h ∧ h.generation = h'.generation)
    (hfrom : ∀ slot < env.volume.partitionCount, ∀ h, held slot h →
      ∃ h', held' slot h' ∧ h'.generation = h.generation) : Interval env held' low top where
  le := hi.le
  width := hi.width
  slots slot hs h' hh' := by
    obtain ⟨h, hh, heq⟩ := hto slot hs h' hh'
    exact heq ▸ hi.slots slot hs h hh
  all n h1 h2 := by
    obtain ⟨slot, hs, h, hh, rfl⟩ := hi.all n h1 h2
    obtain ⟨h', hh', heq⟩ := hfrom slot hs h hh
    exact ⟨slot, hs, h', hh', congrArg UInt64.toNat heq⟩

/-- No slot holds a header. -/
theorem Interval.empty (hnone : ∀ slot < env.volume.partitionCount, ∀ h, ¬ held slot h) :
    Interval env held 0 0 where
  le := Nat.le_refl _
  width := Nat.zero_le _
  slots slot hs h hh := absurd hh (hnone slot hs h)
  all n h1 h2 := by omega

/-- Generations in one slot are a multiple of the number of slots apart. -/
theorem SlotOf.apart {s : UInt32} {a b : UInt64} (ha : SlotOf env s a) (hb : SlotOf env s b)
    (hlt : a.toNat < b.toNat) : a.toNat + env.partitionCount ≤ b.toNat := by
  have ha0 : a.toNat ≠ 0 := fun h => ha.1 (UInt64.toNat_inj.mp h)
  refine Nat.not_lt.mp fun hclose => ?_
  exact mod_ne_of_close (i := a.toNat - 1) (j := b.toNat - 1) (c := env.partitionCount) (by omega)
    (by omega) (ha.2.symm.trans hb.2)

section
variable (hi : Interval env held low top) {s : UInt32} {generation : UInt64}
  (hso : SlotOf env s generation) (hnext : generation.toNat = top + 1)
include hi hso hnext

/-- The slot of the next generation is unused or holds the oldest one. -/
theorem Interval.oldest (hs : s < env.volume.partitionCount) {h : PartitionHeader} (hh : held s h) :
    h.generation.toNat = low + 1 ∧ top = low + env.partitionCount := by
  obtain ⟨hso', h1, h2⟩ := hi.slots s hs h hh
  have := hso'.apart hso (by omega)
  have := hi.width
  omega

section
variable (hother : ∀ slot < env.volume.partitionCount, slot ≠ s → ∀ h, held' slot h ↔ held slot h)
include hother

/-- What the other slots hold. -/
theorem Interval.others :
    (∀ slot < env.volume.partitionCount, slot ≠ s → ∀ h, held' slot h →
      SlotOf env slot h.generation ∧ max low (top + 1 - env.partitionCount) < h.generation.toNat ∧
        h.generation.toNat ≤ top) ∧
    ∀ n, max low (top + 1 - env.partitionCount) < n → n ≤ top → ∃ slot < env.volume.partitionCount,
      ∃ h, held' slot h ∧ h.generation.toNat = n := by
  have hwidth := hi.width
  refine ⟨fun slot hs hne h hh => ?_, fun n h1 h2 => ?_⟩
  · obtain ⟨hso', h1, h2⟩ := hi.slots slot hs h ((hother slot hs hne h).mp hh)
    refine ⟨hso', Nat.max_lt.mpr ⟨h1, Nat.not_le.mp fun hle => hne ?_⟩, h2⟩
    -- a generation a whole turn older has the same slot
    have hg : generation.toNat = h.generation.toNat + env.partitionCount := by omega
    have h0 : h.generation.toNat ≠ 0 := by omega
    refine UInt32.toNat_inj.mp (hso'.2.trans (Eq.trans ?_ hso.2.symm))
    rw [hg, show h.generation.toNat + env.partitionCount - 1 =
      h.generation.toNat - 1 + env.partitionCount by omega, Nat.add_mod_right]
  · obtain ⟨h1, h3⟩ := Nat.max_lt.mp h1
    obtain ⟨slot, hs, h, hh, rfl⟩ := hi.all n h1 h2
    have hne : slot ≠ s := by
      rintro rfl
      have := (hi.slots slot hs h hh).1.apart hso (by omega)
      omega
    exact ⟨slot, hs, h, (hother slot hs hne h).mpr hh, rfl⟩

variable (g : Geometry env)
include g

/-- The header of the next generation takes its slot. -/
theorem Interval.next {h : PartitionHeader} (hh : held' s h)
    (hg : ∀ h', held' s h' → h'.generation = generation) :
    ∃ low' ≤ top, Interval env held' low' (top + 1) := by
  have hc : 0 < env.partitionCount := Nat.lt_of_lt_of_le (by decide) g.count
  have hle := hi.le
  have hwidth := hi.width
  obtain ⟨hslots, hall⟩ := hi.others hso hnext hother
  refine ⟨max low (top + 1 - env.partitionCount), by omega, ⟨by omega, by omega,
    fun slot hs h' hh' => ?_, fun n h1 h2 => ?_⟩⟩
  · by_cases hne : slot = s
    · subst hne
      rw [hg h' hh']
      exact ⟨hso, by omega, Nat.le_of_eq hnext⟩
    · obtain ⟨h1, h2, h3⟩ := hslots slot hs hne h' hh'
      exact ⟨h1, h2, by omega⟩
  · rcases Nat.lt_or_ge top n with htop | htop
    · exact ⟨s, hso.lt g, h, hh, by rw [hg h hh]; omega⟩
    · exact hall n h1 htop

/-- The slot of the next generation holds no header any more. -/
theorem Interval.lost (hnone : ∀ h, ¬ held' s h) :
    ∃ low', (low < top → low' < top) ∧ Interval env held' low' top := by
  have hc : 2 ≤ env.partitionCount := g.count
  have hle := hi.le
  have hwidth := hi.width
  obtain ⟨hslots, hall⟩ := hi.others hso hnext hother
  refine ⟨max low (top + 1 - env.partitionCount), by omega, ⟨by omega, by omega,
    fun slot hs h' hh' => ?_, hall⟩⟩
  exact hslots slot hs (fun heq => hnone h' (heq ▸ hh')) h' hh'

end
end
end

/-! ## Headers in place -/

/-- The image holds this header, as a whole, in the slot. -/
structure HeaderPlaced (env : Env) (m : Image) (slot : UInt32) (h : PartitionHeader) : Prop where
  made : HeaderMade env h
  place : h.slot = slot
  window : m.window (env.partitionBase slot) partitionHeaderEncodedSize = Item.bytes env (.header h)

/-- No header waits for a flush. -/
def HeadersFlushed (d : Disk Item) : Prop := ∀ w ∈ d.pending, ∀ h, w.item ≠ .header h

/-- What passes the check of a header behind a cut was there before, or is a header that waited for
a flush, as a whole. -/
def HeadersWhole (env : Env) (d : Disk Item) (m : Image) : Prop :=
  ∀ slot < env.volume.partitionCount,
    let bytes := m.window (env.partitionBase slot) partitionHeaderEncodedSize
    Checks bytes partitionMagic partitionHeaderEncodedSize 104 →
    get64 bytes 16 = env.volume.volumeIdHigh → get64 bytes 24 = env.volume.volumeIdLow →
      bytes = d.durable.window (env.partitionBase slot) partitionHeaderEncodedSize ∨
      ∃ w ∈ d.pending, ∃ h, w.off = env.partitionBase slot ∧ w.item = .header h ∧
        bytes = Item.bytes env (.header h)

section
variable {env : Env} {m m' : Image} {slot : UInt32} {h h' : PartitionHeader}

theorem HeaderPlaced.congr (hw : m'.window (env.partitionBase slot) partitionHeaderEncodedSize =
    m.window (env.partitionBase slot) partitionHeaderEncodedSize) :
    HeaderPlaced env m' slot h ↔ HeaderPlaced env m slot h :=
  ⟨fun hh => ⟨hh.made, hh.place, hw.symm.trans hh.window⟩,
    fun hh => ⟨hh.made, hh.place, hw.trans hh.window⟩⟩

/-- The bytes of a header name its generation. -/
theorem HeaderPlaced.unique (hh : HeaderPlaced env m slot h) (hh' : HeaderPlaced env m slot h') :
    h.generation = h'.generation := by
  rw [← (headerNames env h).2.2, ← (headerNames env h').2.2, ← hh.window, ← hh'.window]

/-- They pass the check of a header of this volume. -/
theorem HeaderPlaced.checks (hh : HeaderPlaced env m slot h) :
    Checks (m.window (env.partitionBase slot) partitionHeaderEncodedSize) partitionMagic
        partitionHeaderEncodedSize 104 ∧
      get64 (m.window (env.partitionBase slot) partitionHeaderEncodedSize) 16 =
        env.volume.volumeIdHigh ∧
      get64 (m.window (env.partitionBase slot) partitionHeaderEncodedSize) 24 =
        env.volume.volumeIdLow := by
  obtain ⟨e16, e24, -⟩ := headerNames env h
  rw [hh.window, e16, e24]
  refine ⟨commonCheck_encodePartitionHeader .., ?_, ?_⟩
  · rw [hh.made.eq]
    rfl
  · rw [hh.made.eq]
    rfl

/-- A reader accepts it, unless its codec has version 0. -/
theorem HeaderPlaced.slotHeader (g : Geometry env) (hh : HeaderPlaced env m slot h)
    (hv : h.options.compressionVersion ≠ 0) : slotHeader env m slot = .ok (h.written env) := by
  have hslot := hh.place
  subst hslot
  exact hh.made.slotHeader g hv hh.window

variable {issued : List (Nat × Item)} {writers : List (UInt64 × UInt64)}
  (hitems : ∀ w ∈ issued, ItemOk env issued writers w.1 w.2) (hfree : CollisionFree env issued m)
  (hs : slot < env.volume.partitionCount)
include hitems hfree hs

/-- What a reader accepts is a header in place. -/
theorem headerPlaced_of_slotHeader (g : Geometry env) (hh : TFDB.slotHeader env m slot = .ok h) :
    ∃ h0, HeaderPlaced env m slot h0 ∧ h0.generation = h.generation ∧
      (env.partitionBase slot, Item.header h0) ∈ issued := by
  obtain ⟨h0, hmade, hslot, hissued, rfl, -, hwin⟩ := slotHeader_issued g hitems hfree hs hh
  exact ⟨h0, ⟨hmade, hslot, hwin⟩, rfl, hissued⟩

omit hitems in
/-- A header in place was issued. -/
theorem HeaderPlaced.logged (hh : HeaderPlaced env m slot h) :
    ∃ h0, (env.partitionBase slot, Item.header h0) ∈ issued ∧
      Item.bytes env (.header h) = Item.bytes env (.header h0) := by
  obtain ⟨hchecks, hhigh, hlow⟩ := hh.checks
  obtain ⟨h0, hissued, hbytes⟩ := hfree.header slot hs hchecks hhigh hlow
  exact ⟨h0, hissued, hh.window.symm.trans hbytes⟩

end

section
variable {env : Env} (g : Geometry env) {issued : List (Nat × Item)}
  {writers : List (UInt64 × UInt64)}
include g

/-- A structure that is not the header of a slot leaves the header of the slot alone. -/
theorem ItemOk.avoids_header (hitems : ∀ w ∈ issued, ItemOk env issued writers w.1 w.2) {off : Nat}
    {i : Item} (h : ItemOk env issued writers off i) {slot : UInt32}
    (hne : ∀ hd, i = .header hd → hd.slot ≠ slot)
    {a : Nat} (h1 : env.partitionBase slot ≤ a)
    (h2 : a < env.partitionBase slot + partitionHeaderEncodedSize) :
    a < off ∨ off + (i.bytes env).length ≤ a := by
  obtain ⟨e1, e2, e3, e4, e5, e6, e7, e8, e9, e10⟩ := slot_parts g
  cases i with
  | header hd =>
    obtain ⟨-, rfl⟩ := h
    rw [Item.bytes_header_length]
    rcases Geometry.slots_disjoint env (hne hd rfl) with hd | hd <;> omega
  | frame b payload raw =>
    obtain ⟨-, -, hoff, hend, hspan⟩ := FrameMade.region g hitems h
    rw [Item.bytes_frame_length]
    by_cases hs : b.slot = slot
    · rw [hs] at hoff
      omega
    · rcases Geometry.slots_disjoint env hs with hd | hd <;> omega
  | volume v =>
    exact h.avoids g (fun _ h => by cases h) (fun _ _ _ h => by cases h) slot h1 (by omega)
  | index es =>
    exact h.avoids g (fun _ h => by cases h) (fun _ _ _ h => by cases h) slot h1 (by omega)
  | footer f es =>
    exact h.avoids g (fun _ h => by cases h) (fun _ _ _ h => by cases h) slot h1 (by omega)

end

/-! ## The next header -/

/-- The headers that wait for a flush are those of the generation behind `top`. -/
def PendingNext (d : Disk Item) (top : Nat) : Prop :=
  ∀ w ∈ d.pending, ∀ h, w.item = .header h → h.generation.toNat = top + 1

/-- Blocks and footers were only written for generations up to `top`. -/
def WrittenUpTo (d : Disk Item) (low top : Nat) : Prop :=
  ∀ w ∈ d.issued, ∀ generation, w.2.OfGeneration generation → low < top ∧ generation.toNat ≤ top

/-- The active partition of the catalog has the last generation, and its header is flushed. -/
structure Newest (d : Disk Item) (low top : Nat) (c : Cat) : Prop where
  flushed : HeadersFlushed d
  nonempty : low < top
  active : ∃ p, c.active = some p ∧ p.header.generation.toNat = top

section
variable (env : Env)

/-- How far a phase is with the header of the next generation. -/
def Phase.Next (d : Disk Item) (low top : Nat) : Phase → Prop
  | .ready c => Newest d low top c
  | .indexed c => Newest d low top c
  | .footed c => Newest d low top c
  | .rotating _ _ generation =>
    HeadersFlushed d ∧ (low < top ∨ top = 0) ∧ generation.toNat = top + 1
  | .headed _ h => PendingNext d top ∧ h.generation.toNat = top + 1 ∧
      (d.volatile (Item.bytes env)).window (env.partitionBase h.slot) partitionHeaderEncodedSize =
        Item.bytes env (.header h)
  | .halted => PendingNext d top

/-- The generations of a disk that was opened. -/
structure Generations (d : Disk Item) (φ : Phase) (low top : Nat) : Prop where
  interval : Interval env (HeaderPlaced env d.durable) low top
  spent : WrittenUpTo d low top
  next : φ.Next env d low top

/-- The invariant on the generations.  Before the first open nothing is known of what is stored. -/
def GenInv (d : Disk Item) (φ : Phase) : Prop :=
  (φ = .halted ∧ ∀ w ∈ d.issued, ∀ h, w.2 ≠ Item.header h) ∨
    ∃ low top, Generations env d φ low top

end

section
variable {env : Env} {d : Disk Item} {low top : Nat} {off n : Nat} {i : Item} {φ φ' : Phase}

theorem HeadersFlushed.issue (h : HeadersFlushed d) (hi : ∀ hd, i ≠ .header hd) :
    HeadersFlushed (d.issue off i n) := by
  intro w hw
  rcases List.mem_append.mp hw with hw | hw
  · exact h w hw
  · rw [List.mem_singleton.mp hw]
    exact hi

theorem PendingNext.issue (h : PendingNext d top)
    (hi : ∀ hd, i = .header hd → hd.generation.toNat = top + 1) :
    PendingNext (d.issue off i n) top := by
  intro w hw
  rcases List.mem_append.mp hw with hw | hw
  · exact h w hw
  · rw [List.mem_singleton.mp hw]
    exact hi

theorem WrittenUpTo.issue (h : WrittenUpTo d low top)
    (hi : ∀ generation, i.OfGeneration generation → low < top ∧ generation.toNat ≤ top) :
    WrittenUpTo (d.issue off i n) low top := by
  intro w hw
  rcases List.mem_append.mp hw with hw | hw
  · exact h w hw
  · rw [List.mem_singleton.mp hw]
    exact hi

theorem WrittenUpTo.mono {low' top' : Nat} (h : WrittenUpTo d low top)
    (hlow : low < top → low' < top')
    (htop : top ≤ top') : WrittenUpTo d low' top' := by
  intro w hw generation hg
  obtain ⟨h1, h2⟩ := h w hw generation hg
  exact ⟨hlow h1, Nat.le_trans h2 htop⟩

theorem HeadersFlushed.pendingNext (h : HeadersFlushed d) : PendingNext d top :=
  fun w hw hd heq => absurd heq (h w hw hd)

/-- In every phase the headers that wait for a flush are those of the next generation. -/
theorem Phase.Next.pending (h : φ.Next env d low top) : PendingNext d top := by
  cases φ with
  | ready c => exact h.flushed.pendingNext
  | indexed c => exact h.flushed.pendingNext
  | footed c => exact h.flushed.pendingNext
  | rotating c slot generation => exact h.1.pendingNext
  | headed c hd => exact h.1
  | halted => exact h

theorem Newest.issue {c c' : Cat} (h : Newest d low top c) (hi : ∀ hd, i ≠ .header hd)
    (ha : ∀ p, c.active = some p → ∃ p', c'.active = some p' ∧ p'.header = p.header) :
    Newest (d.issue off i n) low top c' := by
  obtain ⟨hflushed, hsome, p, hp, htop⟩ := h
  obtain ⟨p', hp', heq⟩ := ha p hp
  exact ⟨hflushed.issue hi, hsome, p', hp', heq ▸ htop⟩

/-- The generation of what is written for the active partition. -/
theorem Newest.spends {c : Cat} (h : Newest d low top c) {p : PartitionState}
    (hp : c.active = some p)
    {generation : UInt64} (hg : p.header.generation = generation) :
    low < top ∧ generation.toNat ≤ top := by
  obtain ⟨-, hsome, q, hq, htop⟩ := h
  cases hp.symm.trans hq
  exact ⟨hsome, hg ▸ Nat.le_of_eq htop⟩

/-- A write, whole or not. -/
theorem Phase.Write.generations (hw : Phase.Write env φ off i φ') (h : Generations env d φ low top)
    (n : Nat) : Generations env (d.issue off i n) .halted low top ∧
      ((i.bytes env).length ≤ n → Generations env (d.issue off i n) φ' low top) := by
  obtain ⟨hint, hspent, hnext⟩ := h
  have both {φ' : Phase} (hspent : WrittenUpTo (d.issue off i n) low top)
      (hnext : φ'.Next env (d.issue off i n) low top) :
      Generations env (d.issue off i n) .halted low top ∧
        ((i.bytes env).length ≤ n → Generations env (d.issue off i n) φ' low top) :=
    ⟨⟨hint, hspent, hnext.pending⟩, fun _ => ⟨hint, hspent, hnext⟩⟩
  cases hw with
  | @frame c p b payload raw hp hs hf =>
    refine both (hspent.issue fun generation hg => ?_)
      (Newest.issue hnext (fun _ h => by cases h) ?_)
    · exact Newest.spends hnext hp (hf.generation.symm.trans hg)
    · intro q hq
      rw [Cat.active_addFrame, hq]
      exact ⟨_, rfl, rfl⟩
  | index hp hs hd hne hfit =>
    exact both (hspent.issue fun generation hg => (by cases hg))
      (Newest.issue hnext (fun _ h => by cases h) fun q hq => ⟨q, hq, rfl⟩)
  | footer hp hs hfit =>
    exact both (hspent.issue fun generation hg => Newest.spends hnext hp hg)
      (Newest.issue hnext (fun _ h => by cases h) fun q hq => ⟨q, hq, rfl⟩)
  | emptyFooter hp hs hd hne =>
    exact both (hspent.issue fun generation hg => Newest.spends hnext hp hg)
      (Newest.issue hnext (fun _ h => by cases h) fun q hq => ⟨q, hq, rfl⟩)
  | @header c slot generation options ho =>
    obtain ⟨hflushed, -, hg⟩ := hnext
    have hpending : PendingNext (d.issue (env.partitionBase slot)
        (.header (newHeader env slot generation options)) n) top := by
      refine hflushed.pendingNext.issue fun hd heq => ?_
      cases heq
      exact hg
    have hspent' : WrittenUpTo (d.issue (env.partitionBase slot)
        (.header (newHeader env slot generation options)) n) low top :=
      hspent.issue fun generation hg => (by cases hg)
    refine ⟨⟨hint, hspent', hpending⟩, fun hn => ⟨hint, hspent', hpending, hg, ?_⟩⟩
    have := Disk.volatile_issue_whole (Item.bytes env) d (env.partitionBase slot) hn
    rwa [Item.bytes_header_length] at this

section
variable (g : Geometry env) {writers : List (UInt64 × UInt64)}
  (hitems : ∀ w ∈ d.issued, ItemOk env d.issued writers w.1 w.2)
  (hlogged : ∀ w ∈ d.pending, (w.off, w.item) ∈ d.issued)
include g hitems hlogged

/-- A slot whose headers are flushed has the same header behind every cut. -/
theorem header_window_kept {m : Image} (hcut : d.MixCut (Item.bytes env) m) {slot : UInt32}
    (hne : ∀ w ∈ d.pending, ∀ hd, w.item = .header hd → hd.slot ≠ slot) :
    m.window (env.partitionBase slot) partitionHeaderEncodedSize =
      d.durable.window (env.partitionBase slot) partitionHeaderEncodedSize := by
  refine Image.window_congr fun a h1 h2 => ?_
  rcases hcut.2 a with h | ⟨w, hw, ⟨hc1, hc2⟩, -⟩
  · exact h
  · exfalso
    have hok := hitems _ (hlogged w hw)
    have := ItemOk.avoids_header g hitems hok (hne w hw) h1 h2
    simp only [Write.bytes, List.length_take] at hc2 this
    omega

/-- Where all headers are flushed, all slots have. -/
theorem HeadersFlushed.window (h : HeadersFlushed d) {m : Image}
    (hcut : d.MixCut (Item.bytes env) m)
    (slot : UInt32) : m.window (env.partitionBase slot) partitionHeaderEncodedSize =
      d.durable.window (env.partitionBase slot) partitionHeaderEncodedSize :=
  header_window_kept g hitems hlogged hcut fun w hw hd heq => absurd heq (h w hw hd)

theorem HeadersFlushed.headers (h : HeadersFlushed d) {m : Image}
    (hcut : d.MixCut (Item.bytes env) m) (hi : Interval env (HeaderPlaced env d.durable) low top) :
    Interval env (HeaderPlaced env m) low top :=
  have same (slot : UInt32) (h' : PartitionHeader) :=
    HeaderPlaced.congr (h := h') (h.window g hitems hlogged hcut slot)
  hi.congr (fun slot _ h' hh => ⟨h', (same slot h').mp hh, rfl⟩) fun slot _ h' hh =>
    ⟨h', (same slot h').mpr hh, rfl⟩

/-- A header that waits for a flush is for the slot of the next generation; the other slots keep
theirs. -/
theorem PendingNext.others (hpending : PendingNext d top) {m : Image}
    (hcut : d.MixCut (Item.bytes env) m) {h : PartitionHeader}
    (hso : SlotOf env h.slot h.generation)
    (hnext : h.generation.toNat = top + 1) {slot : UInt32} (hne : slot ≠ h.slot)
    (h' : PartitionHeader) :
    HeaderPlaced env m slot h' ↔ HeaderPlaced env d.durable slot h' := by
  refine HeaderPlaced.congr (header_window_kept g hitems hlogged hcut fun w hw hd heq => ?_)
  have hok := hitems _ (hlogged w hw)
  rw [heq] at hok
  have hgen : hd.generation = h.generation :=
    UInt64.toNat_inj.mp ((hpending w hw hd heq).trans hnext.symm)
  rintro rfl
  exact hne ((show HeaderMade env hd ∧ _ from hok).1.slotOf.unique (hgen ▸ hso))

/-- Behind a cut the generations are still those of an interval. -/
theorem Interval.cut {m : Image} (hcut : d.MixCut (Item.bytes env) m)
    (hwhole : HeadersWhole env d m)
    (hi : Interval env (HeaderPlaced env d.durable) low top) (hpending : PendingNext d top) :
    ∃ low' top', (low < top → low' < top') ∧ top ≤ top' ∧
      Interval env (HeaderPlaced env m) low' top' := by
  by_cases hnone : HeadersFlushed d
  · exact ⟨low, top, id, Nat.le_refl _, hnone.headers g hitems hlogged hcut hi⟩
  obtain ⟨w, hw, h, hitem⟩ : ∃ w ∈ d.pending, ∃ h, w.item = .header h := by
    simpa [HeadersFlushed] using hnone
  have hok := hitems _ (hlogged w hw)
  rw [hitem] at hok
  have hso := (show HeaderMade env h ∧ _ from hok).1.slotOf
  have hnext := hpending w hw h hitem
  have hother : ∀ slot < env.volume.partitionCount, slot ≠ h.slot → ∀ h',
      HeaderPlaced env m slot h' ↔ HeaderPlaced env d.durable slot h' := fun slot _ hne =>
    hpending.others g hitems hlogged hcut hso hnext hne
  by_cases hheld : ∃ h', HeaderPlaced env m h.slot h'
  · obtain ⟨h', hh⟩ := hheld
    obtain ⟨hchecks, hhigh, hlow⟩ := hh.checks
    rcases hwhole h.slot (hso.lt g) hchecks hhigh hlow with
      hsame | ⟨w', hw', h'', hoff, hitem', hbytes⟩
    · have hall (slot : UInt32) (hs : slot < env.volume.partitionCount) (h0 : PartitionHeader) :
          HeaderPlaced env m slot h0 ↔ HeaderPlaced env d.durable slot h0 := by
        by_cases hne : slot = h.slot
        · subst hne
          exact HeaderPlaced.congr hsame
        · exact hother slot hs hne h0
      exact ⟨low, top, id, Nat.le_refl _,
        hi.congr (fun slot hs h0 h1 => ⟨h0, (hall slot hs h0).mp h1, rfl⟩)
          fun slot hs h0 h1 => ⟨h0, (hall slot hs h0).mpr h1, rfl⟩⟩
    · have hgen : h'.generation = h.generation := by
        rw [← (headerNames env h').2.2, ← hh.window, hbytes, (headerNames env h'').2.2]
        exact UInt64.toNat_inj.mp ((hpending w' hw' h'' hitem').trans hnext.symm)
      obtain ⟨low', hle, hi'⟩ := hi.next hso hnext hother g hh fun h0 h1 =>
        (h1.unique hh).trans hgen
      exact ⟨low', top + 1, fun _ => Nat.lt_succ_of_le hle, Nat.le_succ _, hi'⟩
  · obtain ⟨low', hlt, hi'⟩ := hi.lost hso hnext hother g fun h' hh => hheld ⟨h', hh⟩
    exact ⟨low', top, hlt, Nat.le_refl _, hi'⟩

/-- A flush. -/
theorem Phase.Flush.generations (hf : Phase.Flush env φ φ')
    (hphase : PhaseOk env d.issued writers φ)
    (h : Generations env d φ low top) :
    ∃ low' top', Generations env (d.flush (Item.bytes env)) φ' low' top' := by
  obtain ⟨hi, hspent, hnext⟩ := h
  have hnone : HeadersFlushed (d.flush (Item.bytes env)) := fun w hw => by cases hw
  have hcut := Disk.volatile_mixCut (Item.bytes env) d
  cases hf with
  | sync => exact ⟨low, top, hnext.flushed.headers g hitems hlogged hcut hi, hspent, hnone,
      hnext.nonempty, hnext.active⟩
  | @sealed c p hp hs hg =>
    obtain ⟨hflushed, hsome, q, hq, htop⟩ := hnext
    cases hp.symm.trans hq
    refine ⟨low, top, hflushed.headers g hitems hlogged hcut hi, hspent, hnone, Or.inl hsome, ?_⟩
    rw [succ64_toNat hg, htop]
  | @install c hd =>
    obtain ⟨hpending, hg, hwin⟩ := hnext
    obtain ⟨hmade, hissued, -⟩ := hphase
    have hh : HeaderPlaced env (d.volatile (Item.bytes env)) hd.slot hd := ⟨hmade, rfl, hwin⟩
    obtain ⟨low', hle, hi'⟩ := hi.next hmade.slotOf hg
      (fun slot _ hne => hpending.others g hitems hlogged hcut hmade.slotOf hg hne) g hh
      fun h' hh' => hh'.unique hh
    exact ⟨low', top + 1, hi', hspent.mono (fun _ => Nat.lt_succ_of_le hle) (Nat.le_succ _), hnone,
      Nat.lt_succ_of_le hle, _, Cat.active_install c hd, hg⟩

end
end

/-! ## Opening -/

section
variable {env : Env} {m : Image} {low top : Nat}

/-- In an image without damaged slots the newest partition has the last generation. -/
theorem Interval.newest (g : Geometry env) (hi : Interval env (HeaderPlaced env m) low top)
    (hdamaged : ∀ slot < env.volume.partitionCount, slotDamaged env m slot = false)
    (hheld : ∀ slot < env.volume.partitionCount, ∀ h, slotHeader env m slot = .ok h →
      ∃ h0, HeaderPlaced env m slot h0 ∧ h0.generation = h.generation) {p : PartitionState}
    (hp : p ∈ slotStates env m)
    (hmax : ∀ q ∈ slotStates env m, q.header.generation ≤ p.header.generation) :
    p.header.generation.toNat = top ∧ low < top := by
  obtain ⟨hs, hstate⟩ := mem_slotStates.mp hp
  obtain ⟨h0, hh0, hgen⟩ := hheld _ hs _ (slotState_header hstate)
  obtain ⟨-, h1, h2⟩ := hi.slots _ hs h0 hh0
  rw [hgen] at h1 h2
  obtain ⟨slot, hslot, h, hh, hn⟩ := hi.all top (by omega) (Nat.le_refl _)
  obtain ⟨q, hq, hqh⟩ := slotState_of_window g hh.made (hh.place ▸ hh.window)
    (hh.place ▸ hdamaged slot hslot)
  have hqs : q ∈ slotStates env m := by
    refine mem_slotStates.mpr ?_
    rw [hqh]
    exact ⟨hh.place ▸ hslot, hq⟩
  have hle := UInt64.le_iff_toNat_le.mp (hmax q hqs)
  rw [hqh] at hle
  have hle : h.generation.toNat ≤ p.header.generation.toNat := hle
  exact ⟨by omega, by omega⟩

/-- The phase of an open continues the interval. -/
theorem Generations.opened {d : Disk Item} (g : Geometry env) {writers : List (UInt64 × UInt64)}
    (hitems : ∀ w ∈ d.issued, ItemOk env d.issued writers w.1 w.2)
    (hlogged : ∀ w ∈ d.pending, (w.off, w.item) ∈ d.issued) (hflushed : HeadersFlushed d)
    (hfree : CollisionFreeNow env d) (hi : Interval env (HeaderPlaced env d.durable) low top)
    (hspent : WrittenUpTo d low top) (id : UInt64 × UInt64)
    (hgen : GenerationsOk (slotStates env (d.volatile (Item.bytes env)))) :
    ∃ low' top', Generations env d (openPhase env (d.volatile (Item.bytes env)) id) low' top' := by
  have hseen := hflushed.headers g hitems hlogged (Disk.volatile_mixCut _ d) hi
  unfold openPhase
  split
  · exact ⟨low, top, hi, hspent, hflushed.pendingNext⟩
  rename_i hd
  rw [ne_eq, not_not, List.filter_eq_nil_iff] at hd
  have hdamaged : ∀ slot < env.volume.partitionCount,
      slotDamaged env (d.volatile (Item.bytes env)) slot = false := fun slot hs =>
    Bool.eq_false_iff.mpr (hd _ (mem_slotList.mpr hs))
  rcases catalogOf_cases env (d.volatile (Item.bytes env)) with
    ⟨hnil, hcat⟩ | ⟨older, newest, hcat, -, hmem, hmax⟩
  · rw [hcat]
    -- no slot holds a header, so that nothing was written for a generation
    have hnone : ∀ slot < env.volume.partitionCount, ∀ h,
        ¬ HeaderPlaced env (d.volatile (Item.bytes env)) slot h := by
      intro slot hs h hh
      obtain ⟨q, hq, hqh⟩ := slotState_of_window g hh.made (hh.place ▸ hh.window)
        (hh.place ▸ hdamaged slot hs)
      have hqs : q ∈ slotStates env (d.volatile (Item.bytes env)) := by
        refine mem_slotStates.mpr ?_
        rw [hqh]
        exact ⟨hh.place ▸ hs, hq⟩
      rw [hnil] at hqs
      cases hqs
    refine ⟨0, 0, .empty fun slot hs h hh => ?_, fun w hw generation hg => ?_, hflushed,
      Or.inr rfl, rfl⟩
    · exact hnone slot hs h ((HeaderPlaced.congr (hflushed.window g hitems hlogged
        (Disk.volatile_mixCut _ d) slot)).mpr hh)
    · obtain ⟨slot, hs, h, hh, -⟩ := hseen.all top (hspent w hw generation hg).1 (Nat.le_refl _)
      exact absurd hh (hnone slot hs h)
  have hlast : (catalogOf env (d.volatile (Item.bytes env))).getLast? = some newest := by
    rw [hcat]
    simp
  obtain ⟨htop, hsome⟩ := hseen.newest g hdamaged (fun slot hs h hh => by
    obtain ⟨h0, h1, h2, -⟩ := headerPlaced_of_slotHeader hitems hfree hs g hh
    exact ⟨h0, h1, h2⟩) hmem hmax
  simp only [hlast]
  split
  · split
    · exact ⟨low, top, hi, hspent, hflushed.pendingNext⟩
    · rename_i hne
      refine ⟨low, top, hi, hspent, hflushed, Or.inl hsome, ?_⟩
      rw [succ64_toNat hne, htop]
  · exact ⟨low, top, hi, hspent, hflushed, hsome, newest, openedCat_active id hgen hlast, htop⟩

end

/-! ## Runs -/

section
variable {env : Env} {cut : Disk Item → Image → Prop} {assumed : Disk Item → Prop}

/-- Without headers there are neither blocks nor footers. -/
theorem no_generations {issued : List (Nat × Item)} {writers : List (UInt64 × UInt64)}
    (hitems : ∀ w ∈ issued, ItemOk env issued writers w.1 w.2)
    (hnone : ∀ w ∈ issued, ∀ h, w.2 ≠ Item.header h) :
    ∀ w ∈ issued, ∀ generation, ¬ w.2.OfGeneration generation := by
  intro w hw generation hg
  obtain ⟨off, i⟩ := w
  have hok := hitems _ hw
  have hpart : ∃ p, PartOk env issued p := by
    cases i with
    | frame b payload raw =>
      obtain ⟨c, p, -, hp, -⟩ := (show FrameMade env issued writers off b payload raw from hok).made
      exact ⟨p, hp⟩
    | footer f es =>
      obtain ⟨p, hp, -⟩ : FooterMade env issued off f es := hok
      exact ⟨p, hp⟩
    | volume v => cases hg
    | header h => cases hg
    | index es => cases hg
  obtain ⟨p, hp⟩ := hpart
  obtain ⟨h, features, hissued, -⟩ := hp.header
  exact hnone _ hissued h rfl

/-- The generations form an interval in every run. -/
theorem PReach.generations
    (hcut : ∀ d m, cut d m → d.MixCut (Item.bytes env) m ∧ HeadersWhole env d m)
    (hassumed : ∀ d, assumed d → CollisionFreeNow env d ∧ HeadersFlushed d) {x : PSys}
    (h : PReach env cut assumed x) : GenInv env x.disk x.phase := by
  have hmix : ∀ d m, cut d m → d.MixCut (Item.bytes env) m := fun d m h => (hcut d m h).1
  have hcollision : ∀ d, assumed d → CollisionFreeNow env d := fun d h => (hassumed d h).1
  induction h with
  | @init x h =>
    refine Or.inl ⟨rfl, fun w hw => ?_⟩
    rw [h.issued] at hw
    cases hw
  | @step x y hx hstep ih =>
    have g := hx.geometry
    have hlog := hx.log hmix hcollision
    have live (hne : x.phase ≠ .halted) : ∃ low top, Generations env x.disk x.phase low top :=
      ih.resolve_left fun h => hne h.1
    cases hstep with
    | format hφ off n hoff =>
      rcases ih with ⟨-, hnone⟩ | ⟨low, top, hi, hspent, hnext⟩
      · refine Or.inl ⟨hφ, fun w hw => ?_⟩
        rcases List.mem_append.mp hw with hw | hw
        · exact hnone w hw
        · rw [List.mem_singleton.mp hw]
          exact fun h heq => by cases heq
      · refine Or.inr ⟨low, top, hi, hspent.issue fun generation hg => (by cases hg), ?_⟩
        rw [hφ] at hnext ⊢
        exact PendingNext.issue hnext fun hd heq => by cases heq
    | formatFlush hφ hvol =>
      refine Or.inl ⟨hφ, fun w hw h heq => ?_⟩
      obtain ⟨v, hv⟩ := hvol w hw
      rw [hv] at heq
      cases heq
    | write hw =>
      obtain ⟨low, top, hgen⟩ := live fun hφ => by rw [hφ] at hw; cases hw
      exact Or.inr ⟨low, top, (hw.generations hgen _).2 (Nat.le_refl _)⟩
    | writeFails n hw =>
      obtain ⟨low, top, hgen⟩ := live fun hφ => by rw [hφ] at hw; cases hw
      exact Or.inr ⟨low, top, (hw.generations hgen n).1⟩
    | flush hf =>
      obtain ⟨low, top, hgen⟩ := live fun hφ => by rw [hφ] at hf; cases hf
      exact Or.inr (hf.generations g hlog.items hlog.pending hlog.phase hgen)
    | halt =>
      rcases ih with ⟨-, hnone⟩ | ⟨low, top, hi, hspent, hnext⟩
      · exact Or.inl ⟨rfl, hnone⟩
      · exact Or.inr ⟨low, top, hi, hspent, hnext.pending⟩
    | powerCut m h =>
      rcases ih with ⟨-, hnone⟩ | ⟨low, top, hi, hspent, hnext⟩
      · exact Or.inl ⟨rfl, hnone⟩
      · obtain ⟨low', top', hlow, htop, hi'⟩ := hi.cut g hlog.items hlog.pending (hcut _ _ h).1
          (hcut _ _ h).2 hnext.pending
        exact Or.inr ⟨low', top', hi', hspent.mono hlow htop, fun w hw => by cases hw⟩
    | startOpen id hφ had hfresh hid hnf hgen =>
      obtain ⟨hfree, hflushed⟩ := hassumed _ had
      refine Or.inr ?_
      rcases ih with ⟨-, hnone⟩ | ⟨low, top, hi, hspent, -⟩
      · have hempty : Interval env (HeaderPlaced env x.disk.durable) 0 0 := by
          refine .empty fun slot hs h hh => ?_
          have hwindow := hflushed.window g hlog.items hlog.pending (Disk.volatile_mixCut _ _) slot
          obtain ⟨h0, hissued, -⟩ :=
            HeaderPlaced.logged hfree hs ((HeaderPlaced.congr hwindow).mpr hh)
          exact hnone _ hissued h0 rfl
        exact Generations.opened g hlog.items hlog.pending hflushed hfree hempty
          (fun w hw generation hg => absurd hg (no_generations hlog.items hnone w hw generation)) id
          hgen
      · exact Generations.opened g hlog.items hlog.pending hflushed hfree hi hspent id hgen

end

section
variable {env : Env}

/-- Where no partition has version 0, the headers in place are those a reader accepts. -/
theorem Interval.valid (g : Geometry env) {issued : List (Nat × Item)}
    {writers : List (UInt64 × UInt64)}
    (hitems : ∀ w ∈ issued, ItemOk env issued writers w.1 w.2) {m : Image}
    (hfree : CollisionFree env issued m)
    (hversion : ∀ o hd, (o, Item.header hd) ∈ issued → hd.options.compressionVersion ≠ 0)
    {low top : Nat}
    (hi : Interval env (HeaderPlaced env m) low top) :
    Interval env (fun slot h => slotHeader env m slot = .ok h) low top := by
  refine hi.congr (fun slot hs h hh => ?_) fun slot hs h hh => ?_
  · obtain ⟨h0, h1, h2, -⟩ := headerPlaced_of_slotHeader hitems hfree hs g hh
    exact ⟨h0, h1, h2⟩
  · obtain ⟨h0, hissued, hbytes⟩ := hh.logged hfree hs
    obtain ⟨hmade, hoff⟩ : HeaderMade env h0 ∧ env.partitionBase slot = env.partitionBase h0.slot :=
      hitems _ hissued
    have hslot : h0.slot = slot := (Geometry.partitionBase_inj g.partitionSize_pos hoff).symm
    have hh0 : HeaderPlaced env m slot h0 := ⟨hmade, hslot, hh.window.trans hbytes⟩
    exact ⟨_, hh0.slotHeader g (hversion _ _ hissued), hh0.unique hh⟩

end

namespace Sample

end Sample

namespace Hole

/-- The sample volume with a third slot. -/
def volume : VolumeHeader := { Sample.volume with volumeSize := 34688, partitionCount := 3 }

def env : Env := { volume := volume, codecs := [Sample.versionZero] }

def image : Image := ⟨34688, fun _ => 0⟩

theorem formats : formatHeader image.size Sample.options (.ok (1, 2)) = .ok env.volume := by decide

theorem geometry : Geometry env := (formatHeader_geometry (by decide) (by decide) formats).1

def formatted : Disk Item :=
  ((formatProgram env.volume).exec (Item.bytes env) { durable := image }).2

def openOptions : OpenOptions := { writable := true, codecs := [Sample.versionZero] }

def recovered : Store := { Sample.recovered with env := env }

theorem recovered_eq : recoveredStore env openOptions (3, 4) {} = recovered := by
  unfold recoveredStore sortPartitions
  simp only [List.mergeSort_nil]
  rfl

theorem recovers : Rd.run (imageSource (formatted.volatile (Item.bytes env)))
    (recover (formatted.volatile (Item.bytes env)).size openOptions (.ok (3, 4))) =
      .ok recovered := by
  rw [← recovered_eq]
  exact ((@RingInv.formatted env image).blank geometry (Nat.le_refl _) rfl fun _ =>
    Sample.blank_byte).recover geometry rfl rfl rfl

def write (d : Disk Item) (off : Nat) (i : Item) : Disk Item :=
  d.issue off i (Item.bytes env i).length

def part (slot : UInt32) (generation : UInt64) (options : PartitionOptions) : PartitionState where
  header := Writer.newHeader env slot generation options

def sealedPart (p : PartitionState) : PartitionState :=
  { p with isSealed := true, indexValid := true, footer := Writer.sealFooter env p }

def first : PartitionState := part 0 1 {}

def second : PartitionState := part 1 2 Sample.zeroOptions

def third : PartitionState := part 2 3 {}

def opened : Store := { recovered with
  partitions := [first], activeGeneration := 1
  metrics := { syncCalls := 1 } }

def created : Disk Item := (write formatted 8192 (.header first.header)).flush (Item.bytes env)

theorem exec_open : (startWriter recovered).exec (Item.bytes env) formatted =
    ((.ok (), opened), created) := by
  have h : (startWriter recovered).exec (Item.bytes env) formatted =
    ((.ok (), { opened with partitions := sortPartitions [first] }), created) := rfl
  rw [h, Sample.sort_single]
  rfl

def zeroed : Store := { opened with
  partitions := [sealedPart first, second], activeGeneration := 2, activeSlot := 1
  nextOptions := Sample.zeroOptions
  metrics := { syncCalls := 3, rotations := 1 } }

def final : Store := { zeroed with
  partitions := [sealedPart first, sealedPart second, third], activeGeneration := 3, activeSlot := 2
  nextOptions := {}
  metrics := { syncCalls := 5, rotations := 2 } }

theorem write_seen (d : Disk Item) (off : Nat) (i : Item) :
    (write d off i).volatile (Item.bytes env) =
    (d.volatile (Item.bytes env)).write off (Item.bytes env i) := by
  rw [write, Disk.issue_volatile, List.take_length]

/-- The positions and structures of a disk of the volume are in order. -/
def InOrder (d : Disk Item) : Prop := Plain env d.issued (d.volatile (Item.bytes env))

theorem InOrder.header {d : Disk Item} (hd : InOrder d) (h : PartitionHeader) {off : Nat}
    (hoff : env.partitionBase h.slot = off) :
    InOrder ((write d off (.header h)).flush (Item.bytes env)) := by
  subst hoff
  unfold InOrder
  rw [Disk.flush_volatile, write_seen]
  exact Plain.issueHeader geometry hd h (Nat.le_of_eq (Item.bytes_header_length env h))
    (Or.inr (Image.window_write_same _ (Item.bytes_header_length env h).symm))

/-- The footer of a partition without blocks. -/
theorem InOrder.footer {d : Disk Item} (hd : InOrder d) (slot : UInt32) (f : PartitionFooter)
    {off : Nat}
    (hoff : env.partitionBase slot + env.footerOffset = off) (hsize : f.indexSize = 0) :
    InOrder ((write d off (.footer f [])).flush (Item.bytes env)) := by
  subst hoff
  unfold InOrder
  rw [Disk.flush_volatile, write_seen]
  refine Plain.issueFooter geometry hd f [] (Nat.le_of_eq (Item.bytes_footer_length env f [])) ?_ ?_
    (Or.inr ⟨f, [], List.mem_append_right _ (List.mem_singleton_self _),
      Image.window_write_same _ (Item.bytes_footer_length env f []).symm⟩)
  · rw [hsize]
    exact Nat.zero_le _
  · rw [hsize]
    rfl

theorem created_inOrder : InOrder created :=
  InOrder.header (d := formatted) (formatted_plain geometry fun _ => Sample.blank_byte)
    first.header rfl

theorem initial :
    Initial env ⟨{ durable := image }, [], .formatting (formatProgram env.volume)⟩ where
  size := ⟨Sample.options, .ok (1, 2), formats⟩
  nonzero := by decide
  small := by decide
  pending := rfl
  issued := rfl
  flushed := rfl
  writers := rfl
  proc := rfl

end Hole

end TFDB

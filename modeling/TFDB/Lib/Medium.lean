import TFDB.Lib.Bytes

/-!
# A byte medium with volatile writes and power cuts

`Image` is the contents of a byte-addressed medium.  `Disk` is such a medium behind a write
cache: the image at the last flush (`durable`), the writes issued since (`pending`, oldest
first, each with the number of bytes that were transferred), and two histories, everything
ever `issued` and the whole writes a flush has covered (`flushed`).  Writes carry an item of
an arbitrary type `ι` with a byte encoding.

Two notions of what a power cut may leave behind:

* `FragmentCut` — any byte fragments of the pending writes, in any order;
* `MixCut` — every byte is the durable one or one a pending write put there.

A prefix of each of some pending writes is a `FragmentCut`, and every `FragmentCut` is a `MixCut`.

`Image.overlay` puts a list of writes on an image: a byte one of them covers does not depend on what
was below, and the others are what was below.
-/

set_option autoImplicit false

namespace ByteLib

/-! ## Images -/

/-- The contents of a medium of `size` bytes. -/
structure Image where
  size : Nat
  byte : Nat → UInt8

namespace Image

@[ext] theorem ext' {a b : Image} (h : a.size = b.size) (hb : ∀ x, a.byte x = b.byte x) : a = b := by
  cases a; cases b
  simp only [mk.injEq] at *
  exact ⟨h, funext hb⟩

/-- The window of `n` bytes at `off`. -/
def window (m : Image) (off n : Nat) : Bytes := (List.range n).map fun i => m.byte (off + i)

/-- `m` with `bs` written at `off`. -/
def write (m : Image) (off : Nat) (bs : Bytes) : Image where
  size := m.size
  byte x := if off ≤ x ∧ x < off + bs.length then bs.getD (x - off) 0 else m.byte x

@[simp] theorem write_size (m : Image) (off : Nat) (bs : Bytes) : (m.write off bs).size = m.size := rfl

theorem write_byte_out {m : Image} {off x : Nat} {bs : Bytes} (h : x < off ∨ off + bs.length ≤ x) :
    (m.write off bs).byte x = m.byte x := by
  simp only [write]
  rw [if_neg (by omega)]

theorem write_byte_in {m : Image} {off x : Nat} {bs : Bytes} (h1 : off ≤ x)
    (h2 : x < off + bs.length) : (m.write off bs).byte x = bs.getD (x - off) 0 := by
  simp only [write]
  rw [if_pos ⟨h1, h2⟩]

@[simp] theorem write_nil (m : Image) (off : Nat) : m.write off [] = m := by
  refine ext' rfl fun x => write_byte_out ?_
  simp only [List.length_nil]
  omega

@[simp] theorem window_length (m : Image) (off n : Nat) : (m.window off n).length = n := by
  simp [window]

theorem window_getElem? (m : Image) (off n i : Nat) :
    (m.window off n)[i]? = if i < n then some (m.byte (off + i)) else none := by
  simp only [window, List.getElem?_map]
  split
  · rename_i h; simp [List.getElem?_range h]
  · rename_i h; simp [h]

theorem window_getD (m : Image) {off n i : Nat} (h : i < n) :
    (m.window off n).getD i 0 = m.byte (off + i) := by
  rw [List.getD_eq_getElem?_getD, window_getElem?, if_pos h]; rfl

/-- Two images that agree on a window have the same window. -/
theorem window_congr {a b : Image} {off n : Nat}
    (h : ∀ x, off ≤ x → x < off + n → a.byte x = b.byte x) : a.window off n = b.window off n := by
  apply List.ext_getElem?
  intro i
  rw [window_getElem?, window_getElem?]
  split
  · rename_i hi; rw [h (off + i) (by omega) (by omega)]
  · rfl

theorem window_write_out {m : Image} {off o n : Nat} {bs : Bytes}
    (h : o + n ≤ off ∨ off + bs.length ≤ o) : (m.write off bs).window o n = m.window o n :=
  window_congr fun _ _ _ => write_byte_out (by omega)

theorem window_write_same (m : Image) {off n : Nat} {bs : Bytes} (h : n = bs.length) :
    (m.write off bs).window off n = bs := by
  subst h
  apply List.ext_getElem?
  intro i
  rw [window_getElem?]
  split
  · rename_i hi
    rw [write_byte_in (by omega) (by omega), List.getD_eq_getElem?_getD,
      show off + i - off = i by omega, List.getElem?_eq_getElem hi]
    rfl
  · rename_i hi; exact (List.getElem?_eq_none (by omega)).symm

theorem window_add (m : Image) (off n k : Nat) :
    m.window off (n + k) = m.window off n ++ m.window (off + n) k := by
  apply List.ext_getElem?
  intro i
  rw [List.getElem?_append, window_length]
  simp only [window_getElem?]
  by_cases h : i < n
  · rw [if_pos (by omega), if_pos h, if_pos h]
  · rw [if_neg h]
    by_cases h2 : i < n + k
    · rw [if_pos h2, if_pos (by omega), show off + n + (i - n) = off + i by omega]
    · rw [if_neg h2, if_neg (by omega)]

/-- A window of a window. -/
theorem slice_window (m : Image) {off n o k : Nat} (h : o + k ≤ n) :
    slice (m.window off n) o k = m.window (off + o) k := by
  obtain ⟨r, rfl⟩ : ∃ r, n = o + k + r := ⟨n - (o + k), by omega⟩
  rw [window_add, window_add, slice, List.append_assoc, List.drop_append_of_le_length (by simp),
    List.drop_of_length_le (by simp), List.nil_append, List.take_append_of_le_length (by simp),
    List.take_of_length_le (by simp)]

/-- A byte that is written back as it is. -/
theorem write_succ (m : Image) (off : Nat) (bs : Bytes) :
    m.write (off + 1) bs = m.write off (m.byte off :: bs) := by
  refine ext' rfl fun x => ?_
  rcases Nat.lt_trichotomy x off with hlt | rfl | hgt
  · rw [write_byte_out (Or.inl (by omega)), write_byte_out (Or.inl hlt)]
  · rw [write_byte_out (Or.inl (Nat.lt_succ_self x)), write_byte_in (Nat.le_refl x) (by simp),
      Nat.sub_self]
    rfl
  · by_cases hin : x < off + 1 + bs.length
    · rw [write_byte_in hgt hin,
        write_byte_in (Nat.le_of_lt hgt) (by simp only [List.length_cons]; omega),
        show x - off = (x - (off + 1)) + 1 by omega]
      rfl
    · rw [write_byte_out (Or.inr (by omega)),
        write_byte_out (Or.inr (by simp only [List.length_cons]; omega))]

/-- A window with a write inside. -/
theorem window_write_inside (m : Image) {off n o : Nat} {bs : Bytes} (h : o + bs.length ≤ n) :
    (m.write (off + o) bs).window off n = put (m.window off n) o bs := by
  refine List.ext_getElem? fun i => ?_
  rw [getElem?_put (by rw [window_length]; exact h), window_getElem?, window_getElem?]
  by_cases h1 : o ≤ i ∧ i < o + bs.length
  · rw [if_pos h1, if_pos (by omega), write_byte_in (by omega) (by omega),
      show off + i - (off + o) = i - o by omega, List.getD_eq_getElem?_getD,
      List.getElem?_eq_getElem (by omega)]
    rfl
  · rw [if_neg h1, write_byte_out (by omega)]

end Image

/-! ## The disk -/

/-- A write of an item at an offset, of which `len` bytes were transferred. -/
structure Write (ι : Type) where
  off : Nat
  item : ι
  len : Nat

/-- A medium behind a write cache. -/
structure Disk (ι : Type) where
  durable : Image
  pending : List (Write ι) := []
  issued : List (Nat × ι) := []
  flushed : List (Nat × ι) := []

section
variable {ι : Type} (enc : ι → Bytes)

/-- The bytes a write transferred. -/
def Write.bytes (w : Write ι) : Bytes := (enc w.item).take w.len

/-- All bytes of the item were transferred. -/
def Write.whole (w : Write ι) : Bool := decide ((enc w.item).length ≤ w.len)

/-- The write transferred a byte at address `x`. -/
def Write.Covers (w : Write ι) (x : Nat) : Prop := w.off ≤ x ∧ x < w.off + (w.bytes enc).length

namespace Disk

/-- Apply writes in order. -/
def overlay (m : Image) (ws : List (Write ι)) : Image :=
  ws.foldl (fun m w => m.write w.off (w.bytes enc)) m

/-- What a reader of the running machine sees. -/
def volatile (d : Disk ι) : Image := overlay enc d.durable d.pending

/-- A write call that transferred `n` bytes. -/
def issue (d : Disk ι) (off : Nat) (i : ι) (n : Nat) : Disk ι :=
  { d with pending := d.pending ++ [⟨off, i, n⟩], issued := d.issued ++ [(off, i)] }

/-- A successful flush. -/
def flush (d : Disk ι) : Disk ι :=
  { d with
    durable := d.volatile enc
    pending := []
    flushed := d.flushed ++ (d.pending.filter (Write.whole enc)).map fun w => (w.off, w.item) }

/-- Restart on the image a power cut left. -/
def restart (d : Disk ι) (m : Image) : Disk ι := { d with durable := m, pending := [] }

/-- Any byte fragments of the pending writes persist, in any order. -/
def FragmentCut (d : Disk ι) (m : Image) : Prop :=
  ∃ kept : List (Write ι × Nat × Nat), (∀ k ∈ kept, k.1 ∈ d.pending) ∧
    m = kept.foldl (fun m k => m.write (k.1.off + k.2.1) (slice (k.1.bytes enc) k.2.1 k.2.2)) d.durable

/-- Every byte is the durable one or one a pending write put there. -/
def MixCut (d : Disk ι) (m : Image) : Prop :=
  m.size = d.durable.size ∧ ∀ x, m.byte x = d.durable.byte x ∨
    ∃ w ∈ d.pending, w.Covers enc x ∧ m.byte x = (w.bytes enc).getD (x - w.off) 0

@[simp] theorem issue_pending (d : Disk ι) (off : Nat) (i : ι) (n : Nat) :
    (d.issue off i n).pending = d.pending ++ [⟨off, i, n⟩] := rfl
@[simp] theorem issue_issued (d : Disk ι) (off : Nat) (i : ι) (n : Nat) :
    (d.issue off i n).issued = d.issued ++ [(off, i)] := rfl
@[simp] theorem issue_flushed (d : Disk ι) (off : Nat) (i : ι) (n : Nat) :
    (d.issue off i n).flushed = d.flushed := rfl
@[simp] theorem issue_durable (d : Disk ι) (off : Nat) (i : ι) (n : Nat) :
    (d.issue off i n).durable = d.durable := rfl
@[simp] theorem flush_pending (d : Disk ι) : (d.flush enc).pending = [] := rfl
@[simp] theorem flush_issued (d : Disk ι) : (d.flush enc).issued = d.issued := rfl
@[simp] theorem flush_durable (d : Disk ι) : (d.flush enc).durable = d.volatile enc := rfl
@[simp] theorem flush_volatile (d : Disk ι) : (d.flush enc).volatile enc = d.volatile enc := rfl
@[simp] theorem restart_pending (d : Disk ι) (m : Image) : (d.restart m).pending = [] := rfl
@[simp] theorem restart_issued (d : Disk ι) (m : Image) : (d.restart m).issued = d.issued := rfl
@[simp] theorem restart_flushed (d : Disk ι) (m : Image) : (d.restart m).flushed = d.flushed := rfl
@[simp] theorem restart_durable (d : Disk ι) (m : Image) : (d.restart m).durable = m := rfl
@[simp] theorem restart_volatile (d : Disk ι) (m : Image) : (d.restart m).volatile enc = m := rfl

theorem mem_flush_flushed {d : Disk ι} {p : Nat × ι} :
    p ∈ (d.flush enc).flushed ↔
      p ∈ d.flushed ∨ ∃ w ∈ d.pending, w.whole enc = true ∧ p = (w.off, w.item) := by
  simp only [flush, List.mem_append, List.mem_map, List.mem_filter]
  constructor
  · rintro (h | ⟨w, ⟨hw, hwh⟩, rfl⟩)
    · exact Or.inl h
    · exact Or.inr ⟨w, hw, hwh, rfl⟩
  · rintro (h | ⟨w, hw, hwh, rfl⟩)
    · exact Or.inl h
    · exact Or.inr ⟨w, ⟨hw, hwh⟩, rfl⟩

@[simp] theorem issue_volatile (d : Disk ι) (off : Nat) (i : ι) (n : Nat) :
    (d.issue off i n).volatile enc = (d.volatile enc).write off ((enc i).take n) := by
  simp [volatile, overlay, issue, Write.bytes]

theorem overlay_size (m : Image) (ws : List (Write ι)) : (overlay enc m ws).size = m.size := by
  induction ws generalizing m with
  | nil => rfl
  | cons w ws ih => exact (ih _).trans rfl

@[simp] theorem volatile_size (d : Disk ι) : (d.volatile enc).size = d.durable.size :=
  overlay_size enc _ _

/-! ## What a cut can leave -/

/-- Every byte of `m` is a byte of `base` or one of the listed writes put it there. -/
theorem foldl_write_mix {κ : Type} (f : κ → Nat × Bytes) (ks : List κ) (base : Image) (x : Nat) :
    (ks.foldl (fun m k => m.write (f k).1 (f k).2) base).byte x = base.byte x ∨
      ∃ k ∈ ks, (f k).1 ≤ x ∧ x < (f k).1 + (f k).2.length ∧
        (ks.foldl (fun m k => m.write (f k).1 (f k).2) base).byte x = (f k).2.getD (x - (f k).1) 0 := by
  induction ks generalizing base with
  | nil => exact Or.inl rfl
  | cons k ks ih =>
    rw [List.foldl_cons]
    rcases ih (base.write (f k).1 (f k).2) with h | ⟨k', hk', h⟩
    · by_cases hc : (f k).1 ≤ x ∧ x < (f k).1 + (f k).2.length
      · right
        exact ⟨k, List.mem_cons_self .., hc.1, hc.2, by rw [h, Image.write_byte_in hc.1 hc.2]⟩
      · left
        rw [h, Image.write_byte_out (by omega)]
    · exact Or.inr ⟨k', List.mem_cons_of_mem _ hk', h⟩

theorem foldl_write_size {κ : Type} (f : κ → Nat × Bytes) (ks : List κ) (base : Image) :
    (ks.foldl (fun m k => m.write (f k).1 (f k).2) base).size = base.size := by
  induction ks generalizing base with
  | nil => rfl
  | cons k ks ih => exact (ih _).trans rfl

theorem FragmentCut.mixCut {d : Disk ι} {m : Image} (h : d.FragmentCut enc m) : d.MixCut enc m := by
  obtain ⟨kept, hmem, rfl⟩ := h
  let f : Write ι × Nat × Nat → Nat × Bytes :=
    fun k => (k.1.off + k.2.1, slice (k.1.bytes enc) k.2.1 k.2.2)
  refine ⟨foldl_write_size f kept _, fun x => ?_⟩
  rcases foldl_write_mix f kept d.durable x with h | ⟨k, hk, h1, h2, h3⟩
  · exact Or.inl h
  · right
    simp only [f, slice, List.length_take, List.length_drop] at h1 h2
    refine ⟨k.1, hmem k hk, ⟨by omega, by omega⟩, h3.trans ?_⟩
    simp only [f, slice, List.getD_eq_getElem?_getD]
    rw [List.getElem?_take_of_lt (by omega), List.getElem?_drop]
    congr 2
    omega

/-- A cut may keep everything the running machine sees. -/
theorem volatile_fragmentCut (d : Disk ι) : d.FragmentCut enc (d.volatile enc) := by
  refine ⟨d.pending.map fun w => (w, 0, (w.bytes enc).length), fun k hk => ?_, ?_⟩
  · obtain ⟨w, hw, rfl⟩ := List.mem_map.mp hk
    exact hw
  · simp [List.foldl_map, slice, volatile, overlay]

theorem volatile_mixCut (d : Disk ι) : d.MixCut enc (d.volatile enc) :=
  (d.volatile_fragmentCut enc).mixCut

/-- A cut may lose everything that is pending. -/
theorem durable_fragmentCut (d : Disk ι) : d.FragmentCut enc d.durable :=
  ⟨[], fun _ h => (by cases h), rfl⟩

/-! ## Whole writes -/

/-- A whole write that a flush has covered or that is pending. -/
def Live (d : Disk ι) (p : Nat × ι) : Prop :=
  p ∈ d.flushed ∨ ∃ w ∈ d.pending, w.whole enc = true ∧ p = (w.off, w.item)

theorem live_of_flushed {d : Disk ι} {p : Nat × ι} (h : p ∈ d.flushed) : d.Live enc p := Or.inl h

theorem live_issue {d : Disk ι} {off : Nat} {i : ι} {n : Nat} {p : Nat × ι} :
    (d.issue off i n).Live enc p ↔ d.Live enc p ∨ ((enc i).length ≤ n ∧ p = (off, i)) := by
  simp only [Live, issue_flushed, issue_pending, List.mem_append, List.mem_singleton]
  constructor
  · rintro (h | ⟨w, hw | rfl, hwh, rfl⟩)
    · exact Or.inl (Or.inl h)
    · exact Or.inl (Or.inr ⟨w, hw, hwh, rfl⟩)
    · exact Or.inr ⟨by simpa [Write.whole] using hwh, rfl⟩
  · rintro ((h | ⟨w, hw, hwh, rfl⟩) | ⟨hn, rfl⟩)
    · exact Or.inl h
    · exact Or.inr ⟨w, Or.inl hw, hwh, rfl⟩
    · exact Or.inr ⟨_, Or.inr rfl, by simpa [Write.whole] using hn, rfl⟩

/-- After a flush exactly the whole writes are flushed. -/
theorem flushed_flush {d : Disk ι} {p : Nat × ι} :
    p ∈ (d.flush enc).flushed ↔ d.Live enc p := mem_flush_flushed enc

theorem live_flush {d : Disk ι} {p : Nat × ι} : (d.flush enc).Live enc p ↔ d.Live enc p := by
  constructor
  · rintro (h | ⟨w, hw, -⟩)
    · exact (flushed_flush enc).mp h
    · cases hw
  · exact fun h => Or.inl ((flushed_flush enc).mpr h)

theorem live_restart {d : Disk ι} {m : Image} {p : Nat × ι} :
    (d.restart m).Live enc p ↔ p ∈ d.flushed := by
  constructor
  · rintro (h | ⟨w, hw, -⟩)
    · exact h
    · cases hw
  · exact Or.inl

theorem mixCut_flush {d : Disk ι} {m : Image} (h : (d.flush enc).MixCut enc m) :
    m = d.volatile enc := by
  refine Image.ext' h.1 fun x => ?_
  rcases h.2 x with h | ⟨w, hw, -⟩
  · exact h
  · cases hw

theorem mixCut_restart {d : Disk ι} {m m' : Image} (h : (d.restart m).MixCut enc m') : m' = m := by
  refine Image.ext' h.1 fun x => ?_
  rcases h.2 x with h | ⟨w, hw, -⟩
  · exact h
  · cases hw

/-- A cut behind a write is a cut before it, outside the bytes of the write. -/
theorem mixCut_issue {d : Disk ι} {off : Nat} {i : ι} {n : Nat} {m : Image}
    (h : (d.issue off i n).MixCut enc m) :
    ∃ m₀, d.MixCut enc m₀ ∧
      ∀ x, x < off ∨ off + (enc i).length ≤ x → m.byte x = m₀.byte x := by
  refine ⟨⟨m.size, fun x => if off ≤ x ∧ x < off + (enc i).length then d.durable.byte x
    else m.byte x⟩, ⟨h.1, fun x => ?_⟩, fun x hx => ?_⟩
  · by_cases hin : off ≤ x ∧ x < off + (enc i).length
    · left
      exact if_pos hin
    · rcases h.2 x with hb | ⟨w, hw, hcov, hb⟩
      · left
        exact (if_neg hin).trans hb
      · rcases List.mem_append.mp hw with hw | hw
        · right
          exact ⟨w, hw, hcov, (if_neg hin).trans hb⟩
        · rw [List.mem_singleton.mp hw] at hcov
          obtain ⟨h1, h2⟩ := hcov
          simp only [Write.bytes, List.length_take] at h1 h2
          omega
  · exact (if_neg (by omega)).symm

/-- What a reader sees outside the bytes of a write. -/
theorem volatile_issue_out {d : Disk ι} {off : Nat} {i : ι} {n x : Nat}
    (h : x < off ∨ off + (enc i).length ≤ x) :
    ((d.issue off i n).volatile enc).byte x = (d.volatile enc).byte x := by
  rw [issue_volatile]
  refine Image.write_byte_out ?_
  simp only [List.length_take]
  omega

/-- A whole write is seen. -/
theorem volatile_issue_whole (d : Disk ι) (off : Nat) {i : ι} {n : Nat} (h : (enc i).length ≤ n) :
    ((d.issue off i n).volatile enc).window off (enc i).length = enc i := by
  rw [issue_volatile, List.take_of_length_le h]
  exact Image.window_write_same _ rfl

end Disk
end

/-! ## Overlays -/

namespace Image

/-- The image with a list of writes on it, in order. -/
def overlay (m : Image) (ws : List (Nat × Bytes)) : Image :=
  ws.foldl (fun m w => m.write w.1 w.2) m

/-- One of the writes covers the byte at `a`. -/
def Covers (ws : List (Nat × Bytes)) (a : Nat) : Prop :=
  ∃ w ∈ ws, w.1 ≤ a ∧ a < w.1 + w.2.length

@[simp] theorem overlay_nil (m : Image) : m.overlay [] = m := rfl

theorem overlay_append (m : Image) (ws vs : List (Nat × Bytes)) :
    m.overlay (ws ++ vs) = (m.overlay ws).overlay vs := List.foldl_append

@[simp] theorem overlay_size (m : Image) (ws : List (Nat × Bytes)) :
    (m.overlay ws).size = m.size := Disk.foldl_write_size (fun w => w) ws m

/-- A byte no write covers is the one below. -/
theorem overlay_byte_out {ws : List (Nat × Bytes)} {a : Nat} (h : ¬ Covers ws a) (m : Image) :
    (m.overlay ws).byte a = m.byte a := by
  rcases Disk.foldl_write_mix (fun w : Nat × Bytes => w) ws m a with hsame | ⟨w, hw, h1, h2, -⟩
  · exact hsame
  · exact absurd ⟨w, hw, h1, h2⟩ h

/-- A byte some write covers does not depend on what was below. -/
theorem overlay_byte_in {ws : List (Nat × Bytes)} {a : Nat} (h : Covers ws a) :
    ∀ m m' : Image, (m.overlay ws).byte a = (m'.overlay ws).byte a := by
  induction ws with
  | nil =>
    obtain ⟨w, hw, -⟩ := h
    cases hw
  | cons v vs ih =>
    intro m m'
    by_cases hlater : Covers vs a
    · exact ih hlater _ _
    · have hv : v.1 ≤ a ∧ a < v.1 + v.2.length := by
        obtain ⟨w, hw, hin⟩ := h
        rcases List.mem_cons.mp hw with rfl | hw
        · exact hin
        · exact absurd ⟨w, hw, hin⟩ hlater
      have hbelow (m : Image) : (m.overlay (v :: vs)).byte a = v.2.getD (a - v.1) 0 :=
        (overlay_byte_out hlater _).trans (write_byte_in hv.1 hv.2)
      rw [hbelow, hbelow]

/-- Two images under the same writes agree where they are covered or agreed before. -/
theorem overlay_eq_iff {m m' : Image} (hsize : m.size = m'.size) (ws : List (Nat × Bytes)) :
    m.overlay ws = m'.overlay ws ↔ ∀ a, Covers ws a ∨ m.byte a = m'.byte a := by
  constructor
  · intro h a
    by_cases hc : Covers ws a
    · exact Or.inl hc
    · right
      rw [← overlay_byte_out hc m, ← overlay_byte_out hc m', h]
  · intro h
    apply Image.ext'
    · rw [overlay_size, overlay_size, hsize]
    · intro a
      by_cases hc : Covers ws a
      · exact overlay_byte_in hc m m'
      · rw [overlay_byte_out hc, overlay_byte_out hc]
        exact (h a).resolve_left hc

end Image

end ByteLib

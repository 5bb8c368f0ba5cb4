import Mathlib.Data.List.Basic
import Mathlib.Data.Set.Function
import Mathlib.Order.Interval.Set.Defs
import Mathlib.Tactic.Ring
import Mathlib.Algebra.Order.Ring.Nat

/-! # Byte memory and little-endian 16-bit samples

A memory is an unbounded array of bytes.  `load` reads a range, `store` writes a list of
bytes at an address and leaves every other byte unchanged.  `toBytes`/`ofBytes` are the
two directions of the little-endian view of a byte range as 16-bit samples; `ofBytes`
drops a trailing odd byte.  `toBytesBig`/`ofBytesBig` are the same in the other byte order. -/

namespace ByteMem

/-- Memory: an unbounded array of bytes. -/
abbrev Mem := ℕ → UInt8

/-- The `n` bytes from address `a` on. -/
def Mem.load (m : Mem) (a n : ℕ) : List UInt8 := (List.range n).map fun i => m (a + i)

/-- Write the bytes `bs` at address `a`. -/
def Mem.store (m : Mem) (a : ℕ) (bs : List UInt8) : Mem :=
  fun x => if a ≤ x then (bs[x - a]?).getD (m x) else m x

@[simp] theorem length_load (m : Mem) (a n : ℕ) : (m.load a n).length = n := by
  simp [Mem.load]

@[simp] theorem load_zero (m : Mem) (a : ℕ) : m.load a 0 = [] := rfl

@[simp] theorem store_nil (m : Mem) (a : ℕ) : m.store a [] = m := by
  funext x
  simp [Mem.store]

theorem getElem_load (m : Mem) (a n i : ℕ) (h : i < (m.load a n).length) :
    (m.load a n)[i] = m (a + i) := by
  simp [Mem.load]

theorem load_add (m : Mem) (a n k : ℕ) : m.load a (n + k) = m.load a n ++ m.load (a + n) k := by
  simp [Mem.load, List.range_add, Nat.add_assoc]

theorem take_load (m : Mem) (a n k : ℕ) : (m.load a n).take k = m.load a (min k n) := by
  simp [Mem.load, ← List.map_take, List.take_range]

theorem drop_load (m : Mem) (a n k : ℕ) (h : k ≤ n) :
    (m.load a n).drop k = m.load (a + k) (n - k) := by
  obtain ⟨j, rfl⟩ := Nat.exists_eq_add_of_le h
  rw [load_add]
  simp

theorem load_congr {m m' : Mem} {a n : ℕ} (h : ∀ i, i < n → m (a + i) = m' (a + i)) :
    m.load a n = m'.load a n := by
  simp only [Mem.load]
  apply List.map_congr_left
  intro i hi
  exact h i (List.mem_range.mp hi)

theorem store_below (m : Mem) {a x : ℕ} (bs : List UInt8) (h : x < a) : m.store a bs x = m x := by
  simp [Mem.store, Nat.not_le.mpr h]

theorem store_above (m : Mem) {a x : ℕ} (bs : List UInt8) (h : a + bs.length ≤ x) :
    m.store a bs x = m x := by
  have hx : bs[x - a]? = none := List.getElem?_eq_none (by omega)
  simp [Mem.store, hx]

theorem store_inside (m : Mem) {a i : ℕ} {bs : List UInt8} (h : i < bs.length) :
    m.store a bs (a + i) = bs[i] := by
  simp [Mem.store, List.getElem?_eq_getElem h]

/-- A read below or above the written range sees the old bytes. -/
theorem load_store_disjoint (m : Mem) {a a' n : ℕ} (bs : List UInt8)
    (h : a' + n ≤ a ∨ a + bs.length ≤ a') : (m.store a bs).load a' n = m.load a' n := by
  apply load_congr
  intro i hi
  rcases h with h | h
  · exact store_below m bs (by omega)
  · exact store_above m bs (by omega)

/-- A read inside the written range sees the written bytes. -/
theorem load_store_inside (m : Mem) {a i n : ℕ} {bs : List UInt8} (h : i + n ≤ bs.length) :
    (m.store a bs).load (a + i) n = (bs.drop i).take n := by
  apply List.ext_getElem
  · simp; omega
  · intro j h1 h2
    rw [getElem_load, Nat.add_assoc, store_inside m (by simp at h1; omega)]
    simp

theorem load_store_same (m : Mem) (a : ℕ) (bs : List UInt8) :
    (m.store a bs).load a bs.length = bs := by
  have h : (m.store a bs).load (a + 0) bs.length = (bs.drop 0).take bs.length :=
    load_store_inside m (by omega)
  simpa using h

/-- Two adjacent writes are one. -/
theorem store_append (m : Mem) (a : ℕ) (bs cs : List UInt8) :
    (m.store a bs).store (a + bs.length) cs = m.store a (bs ++ cs) := by
  funext x
  rcases Nat.lt_or_ge x a with h | h
  · rw [store_below _ _ (by omega), store_below _ _ h, store_below _ _ h]
  · obtain ⟨i, rfl⟩ := Nat.exists_eq_add_of_le h
    rcases Nat.lt_or_ge i bs.length with hi | hi
    · rw [store_below _ _ (by omega), store_inside _ hi, store_inside _ (by simp; omega)]
      exact (List.getElem_append_left hi).symm
    · obtain ⟨j, rfl⟩ := Nat.exists_eq_add_of_le hi
      rw [← Nat.add_assoc]
      rcases Nat.lt_or_ge j cs.length with hj | hj
      · rw [store_inside _ hj, Nat.add_assoc, store_inside _ (by simp; omega)]
        simp
      · rw [store_above _ _ (by omega), store_above _ _ (by omega),
          store_above _ _ (by simp; omega)]

/-- A write over another one of the same length. -/
theorem store_store (m : Mem) (a : ℕ) {bs cs : List UInt8} (h : bs.length = cs.length) :
    (m.store a bs).store a cs = m.store a cs := by
  funext x
  rcases Nat.lt_or_ge x a with hx | hx
  · rw [store_below _ _ hx, store_below _ _ hx, store_below _ _ hx]
  · obtain ⟨i, rfl⟩ := Nat.exists_eq_add_of_le hx
    rcases Nat.lt_or_ge i cs.length with hi | hi
    · rw [store_inside _ hi, store_inside _ hi]
    · rw [store_above _ _ (by omega), store_above _ _ (by omega), store_above _ _ (by omega)]

/-! ### Memories that agree on a set of addresses -/

theorem load_eq_of_eqOn {m m' : Mem} {A : Set ℕ} {a n : ℕ} (h : Set.EqOn m' m A)
    (hA : Set.Ico a (a + n) ⊆ A) : m'.load a n = m.load a n :=
  load_congr fun i hi => h (hA ⟨by omega, by omega⟩)

/-- One write to two memories makes them agree where it writes. -/
theorem eqOn_store {m m' : Mem} {A : Set ℕ} (h : Set.EqOn m' m A) (a : ℕ) (bs : List UInt8) :
    Set.EqOn (m'.store a bs) (m.store a bs) (A ∪ Set.Ico a (a + bs.length)) := by
  intro x hx
  rcases Nat.lt_or_ge x a with hlt | hge
  · have hA : x ∈ A := hx.resolve_right fun hr => absurd hr.1 (by omega)
    rw [store_below _ _ hlt, store_below _ _ hlt, h hA]
  · rcases Nat.lt_or_ge x (a + bs.length) with hin | hout
    · obtain ⟨i, rfl⟩ := Nat.exists_eq_add_of_le hge
      rw [store_inside _ (by omega), store_inside _ (by omega)]
    · have hA : x ∈ A := hx.resolve_right fun hr => absurd hr.2 (by omega)
      rw [store_above _ _ hout, store_above _ _ hout, h hA]

/-! ### Little-endian samples -/

/-- The sample whose low byte is `lo` and whose high byte is `hi`. -/
def sampleOfBytes (lo hi : UInt8) : Int16 := (UInt16.ofNat (lo.toNat + 256 * hi.toNat)).toInt16

/-- The two bytes of a sample, low byte first. -/
def bytesOfSample (x : Int16) : List UInt8 :=
  [UInt8.ofNat (x.toUInt16.toNat % 256), UInt8.ofNat (x.toUInt16.toNat / 256)]

def toBytes (xs : List Int16) : List UInt8 := xs.flatMap bytesOfSample

def ofBytes : List UInt8 → List Int16
  | lo :: hi :: bs => sampleOfBytes lo hi :: ofBytes bs
  | _ => []

theorem sampleOfBytes_bytesOfSample (x : Int16) :
    sampleOfBytes (UInt8.ofNat (x.toUInt16.toNat % 256)) (UInt8.ofNat (x.toUInt16.toNat / 256)) =
      x := by
  have hlt : x.toUInt16.toNat < 65536 := x.toUInt16.toNat_lt
  have hlo : (UInt8.ofNat (x.toUInt16.toNat % 256)).toNat = x.toUInt16.toNat % 256 := by
    rw [UInt8.toNat_ofNat']; omega
  have hhi : (UInt8.ofNat (x.toUInt16.toNat / 256)).toNat = x.toUInt16.toNat / 256 := by
    rw [UInt8.toNat_ofNat']; omega
  have hsum : x.toUInt16.toNat % 256 + 256 * (x.toUInt16.toNat / 256) = x.toUInt16.toNat := by
    omega
  rw [sampleOfBytes, hlo, hhi, hsum]
  simp

@[simp] theorem toBytes_nil : toBytes [] = [] := rfl

theorem toBytes_append (xs ys : List Int16) : toBytes (xs ++ ys) = toBytes xs ++ toBytes ys := by
  simp [toBytes]

@[simp] theorem length_toBytes (xs : List Int16) : (toBytes xs).length = 2 * xs.length := by
  induction xs with
  | nil => rfl
  | cons x xs ih =>
      simp only [toBytes, List.flatMap_cons, List.length_append] at ih ⊢
      simp only [ih, bytesOfSample, List.length_cons, List.length_nil]
      omega

@[simp] theorem ofBytes_toBytes (xs : List Int16) : ofBytes (toBytes xs) = xs := by
  induction xs with
  | nil => rfl
  | cons x xs ih =>
      have e : toBytes (x :: xs) = bytesOfSample x ++ toBytes xs := rfl
      rw [e]
      simp only [bytesOfSample, List.cons_append, List.nil_append, ofBytes]
      rw [sampleOfBytes_bytesOfSample, ih]

theorem length_ofBytes (bs : List UInt8) : (ofBytes bs).length = bs.length / 2 := by
  fun_induction ofBytes bs with
  | case1 lo hi bs ih => simp only [List.length_cons, ih]; omega
  | case2 bs h =>
      match bs, h with
      | [], _ => rfl
      | [_], _ => simp
      | lo :: hi :: bs, h => exact absurd rfl (h lo hi bs)

/-- The sample view of a range of even length followed by more bytes. -/
theorem ofBytes_append (bs cs : List UInt8) (h : bs.length % 2 = 0) :
    ofBytes (bs ++ cs) = ofBytes bs ++ ofBytes cs := by
  fun_induction ofBytes bs with
  | case1 lo hi bs ih =>
      simp only [List.length_cons] at h
      simp only [List.cons_append, ofBytes, ih (by omega)]
  | case2 bs hb =>
      match bs, hb with
      | [], _ => rfl
      | [_], _ => simp at h
      | lo :: hi :: bs, hb => exact absurd rfl (hb lo hi bs)

theorem ofBytes_take (bs : List UInt8) (n : ℕ) :
    ofBytes (bs.take (2 * n)) = (ofBytes bs).take n := by
  induction n generalizing bs with
  | zero => rfl
  | succ n ih =>
      match bs with
      | [] => rfl
      | [b] => simp [ofBytes, Nat.mul_add]
      | lo :: hi :: bs =>
          have e : 2 * (n + 1) = 2 * n + 1 + 1 := by ring
          rw [e]
          simp only [List.take_succ_cons, ofBytes, ih]

theorem ofBytes_drop (bs : List UInt8) (n : ℕ) :
    ofBytes (bs.drop (2 * n)) = (ofBytes bs).drop n := by
  induction n generalizing bs with
  | zero => rfl
  | succ n ih =>
      match bs with
      | [] => rfl
      | [b] => simp [ofBytes, Nat.mul_add]
      | lo :: hi :: bs =>
          have e : 2 * (n + 1) = 2 * n + 1 + 1 := by ring
          rw [e]
          simp only [List.drop_succ_cons, ofBytes, ih]

theorem bytesOfSample_sampleOfBytes (lo hi : UInt8) :
    bytesOfSample (sampleOfBytes lo hi) = [lo, hi] := by
  have hlo := lo.toNat_lt
  have hhi := hi.toNat_lt
  have h : (sampleOfBytes lo hi).toUInt16.toNat = lo.toNat + 256 * hi.toNat := by
    rw [sampleOfBytes, UInt16.toUInt16_toInt16, UInt16.toNat_ofNat', Nat.mod_eq_of_lt (by omega)]
  unfold bytesOfSample
  rw [h, show (lo.toNat + 256 * hi.toNat) % 256 = lo.toNat by omega,
    show (lo.toNat + 256 * hi.toNat) / 256 = hi.toNat by omega, UInt8.ofNat_toNat,
    UInt8.ofNat_toNat]

theorem toBytes_ofBytes {bs : List UInt8} (h : bs.length % 2 = 0) : toBytes (ofBytes bs) = bs := by
  fun_induction ofBytes bs with
  | case1 lo hi bs ih =>
      simp only [List.length_cons] at h
      have e : toBytes (sampleOfBytes lo hi :: ofBytes bs) =
          bytesOfSample (sampleOfBytes lo hi) ++ toBytes (ofBytes bs) := rfl
      rw [e, ih (by omega), bytesOfSample_sampleOfBytes]
      rfl
  | case2 bs hb =>
      match bs, hb with
      | [], _ => rfl
      | [_], _ => simp at h
      | lo :: hi :: bs, hb => exact absurd rfl (hb lo hi bs)

/-! ### Samples in memory -/

/-- The `n` samples from address `a` on. -/
def Mem.samples (m : Mem) (a n : ℕ) : List Int16 := ofBytes (m.load a (2 * n))

@[simp] theorem length_samples (m : Mem) (a n : ℕ) : (m.samples a n).length = n := by
  rw [Mem.samples, length_ofBytes, length_load]
  omega

theorem samples_add (m : Mem) (a n k : ℕ) :
    m.samples a (n + k) = m.samples a n ++ m.samples (a + 2 * n) k := by
  unfold Mem.samples
  rw [Nat.mul_add, load_add, ofBytes_append _ _ (by rw [length_load]; omega)]

theorem take_samples (m : Mem) (a : ℕ) {n k : ℕ} (h : k ≤ n) :
    (m.samples a n).take k = m.samples a k := by
  obtain ⟨j, rfl⟩ := Nat.exists_eq_add_of_le h
  rw [samples_add, List.take_left' (length_samples m a k)]

theorem toBytes_samples (m : Mem) (a n : ℕ) : toBytes (m.samples a n) = m.load a (2 * n) :=
  toBytes_ofBytes (by rw [length_load]; omega)

theorem samples_store_same (m : Mem) (a : ℕ) (xs : List Int16) :
    (m.store a (toBytes xs)).samples a xs.length = xs := by
  unfold Mem.samples
  rw [← length_toBytes, load_store_same, ofBytes_toBytes]

theorem samples_store_disjoint (m : Mem) {a a' n : ℕ} (bs : List UInt8)
    (h : a' + 2 * n ≤ a ∨ a + bs.length ≤ a') : (m.store a bs).samples a' n = m.samples a' n := by
  unfold Mem.samples
  rw [load_store_disjoint m bs h]

/-- A write of samples to the front of a range. -/
theorem samples_store_front (m : Mem) (a n : ℕ) (xs : List Int16) (h : xs.length ≤ n) :
    (m.store a (toBytes xs)).samples a n = xs ++ (m.samples a n).drop xs.length := by
  obtain ⟨k, rfl⟩ := Nat.exists_eq_add_of_le h
  rw [samples_add, samples_store_same, samples_store_disjoint _ _ (.inr (by rw [length_toBytes])),
    samples_add, List.drop_left' (length_samples _ _ _)]

theorem samples_eq_of_eqOn {m m' : Mem} {A : Set ℕ} {a n : ℕ} (h : Set.EqOn m' m A)
    (hA : Set.Ico a (a + 2 * n) ⊆ A) : m'.samples a n = m.samples a n := by
  unfold Mem.samples
  rw [load_eq_of_eqOn h hA]

/-! ### Big-endian samples -/

/-- The samples of a byte range whose high bytes come first. -/
def ofBytesBig : List UInt8 → List Int16
  | hi :: lo :: bs => sampleOfBytes lo hi :: ofBytesBig bs
  | _ => []

def toBytesBig (xs : List Int16) : List UInt8 := xs.flatMap fun x => (bytesOfSample x).reverse

@[simp] theorem length_toBytesBig (xs : List Int16) : (toBytesBig xs).length = 2 * xs.length := by
  unfold toBytesBig
  induction xs with
  | nil => rfl
  | cons x xs ih =>
      rw [List.flatMap_cons, List.length_append, ih, List.length_reverse, List.length_cons,
        bytesOfSample, List.length_cons, List.length_cons, List.length_nil]
      omega

end ByteMem

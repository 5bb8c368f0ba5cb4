import Mathlib.Algebra.Group.Int.Defs
import Mathlib.Algebra.Group.Nat.Defs
import Mathlib.Data.Int.Order.Basic
import Mathlib.Data.List.TakeWhile

/-! # Strings and numerals of C

A string is the list of its characters, without the terminator.  `strtol` and `strtoull` read the
digits they find behind white space and a sign and leave the rest alone, so what has been printed
in a base is read again in it (`number_toDigits`).  `strtok` cuts at a separator and leaves out
empty pieces: what was joined is cut again (`strtok_intercalate`), and there is at most one piece
more than there are separators (`length_strtok_le`). -/

namespace CString

/-! ### Numerals -/

def isSpace (c : Char) : Bool := c.toNat == 32 || (9 ≤ c.toNat && c.toNat ≤ 13)

/-- The value of a digit, in bases up to 36. -/
def digitVal (c : Char) : Option ℕ :=
  if 48 ≤ c.toNat ∧ c.toNat ≤ 57 then some (c.toNat - 48)
  else if 97 ≤ c.toNat ∧ c.toNat ≤ 122 then some (c.toNat - 87)
  else if 65 ≤ c.toNat ∧ c.toNat ≤ 90 then some (c.toNat - 55)
  else none

def isDigitOf (b : ℕ) (c : Char) : Bool := (digitVal c).any fun d => decide (d < b)

/-- The value of the digits that a string starts with. -/
def number (b : ℕ) (s : List Char) : ℕ :=
  (s.takeWhile (isDigitOf b)).foldl (fun n c => b * n + (digitVal c).getD 0) 0

/-- Behind white space there may be a sign: whether it is a minus, and what follows it. -/
def signed (s : List Char) : Bool × List Char :=
  match s.dropWhile isSpace with
  | '-' :: r => (true, r)
  | '+' :: r => (false, r)
  | r => (false, r)

/-- `strtol` in base 10, with a `long` of 64 bits. -/
def strtol (s : List Char) : ℤ :=
  let n : ℤ := number 10 (signed s).2
  max (-2 ^ 63) (min (if (signed s).1 then -n else n) (2 ^ 63 - 1))

/-- `atoi`: a `long` cut to an `int`. -/
def atoi (s : List Char) : ℤ := (strtol s).bmod (2 ^ 32)

/-- `strtoull` in base 16. -/
def strtoull16 (s : List Char) : ℕ :=
  let r := (signed s).2
  let n := number 16 (if r.take 2 = ['0', 'x'] ∨ r.take 2 = ['0', 'X'] then r.drop 2 else r)
  if n ≥ 2 ^ 64 then 2 ^ 64 - 1 else if (signed s).1 then (2 ^ 64 - n) % 2 ^ 64 else n

theorem digitVal_digitChar {d : ℕ} (h : d < 16) : digitVal d.digitChar = some d := by
  revert d
  decide

theorem digitChar_sign {d : ℕ} (h : d < 16) :
    isSpace d.digitChar = false ∧ d.digitChar ≠ '-' ∧ d.digitChar ≠ '+' ∧ d.digitChar ≠ ',' := by
  revert d
  decide

/-- Every digit of a numeral is the character of some digit. -/
theorem exists_digitChar {b : ℕ} (hb : 1 < b) (n : ℕ) :
    ∀ c ∈ Nat.toDigits b n, ∃ d < b, c = d.digitChar := by
  induction n using Nat.strongRecOn with
  | ind n ih =>
      intro c hc
      by_cases h : n < b
      · rw [Nat.toDigits_of_lt_base h, List.mem_singleton] at hc
        exact ⟨n, h, hc⟩
      · rw [Nat.toDigits_of_base_le hb (by omega), List.mem_append, List.mem_singleton] at hc
        rcases hc with hc | rfl
        · exact ih (n / b) (Nat.div_lt_self (by omega) hb) c hc
        · exact ⟨n % b, Nat.mod_lt _ (by omega), rfl⟩

theorem foldl_toDigits {b : ℕ} (hb : 1 < b) (hb' : b ≤ 16) (n : ℕ) :
    (Nat.toDigits b n).foldl (fun n c => b * n + (digitVal c).getD 0) 0 = n := by
  induction n using Nat.strongRecOn with
  | ind n ih =>
      by_cases h : n < b
      · rw [Nat.toDigits_of_lt_base h, List.foldl_cons, List.foldl_nil,
          digitVal_digitChar (by omega), Nat.mul_zero, Nat.zero_add]
        rfl
      · have hmod := Nat.mod_lt n (show b > 0 by omega)
        rw [Nat.toDigits_of_base_le hb (by omega), List.foldl_append,
          ih (n / b) (Nat.div_lt_self (by omega) hb), List.foldl_cons, List.foldl_nil,
          digitVal_digitChar (by omega)]
        exact Nat.div_add_mod n b

/-- **What is printed in a base is read in it.** -/
theorem number_toDigits {b : ℕ} (hb : 1 < b) (hb' : b ≤ 16) (n : ℕ) :
    number b (Nat.toDigits b n) = n := by
  unfold number
  rw [List.takeWhile_eq_self_iff.mpr, foldl_toDigits hb hb']
  intro c hc
  obtain ⟨d, hd, rfl⟩ := exists_digitChar hb n c hc
  unfold isDigitOf
  rw [digitVal_digitChar (by omega)]
  exact decide_eq_true hd

/-- A numeral has no sign. -/
theorem signed_toDigits {b : ℕ} (hb : 1 < b) (hb' : b ≤ 16) (n : ℕ) :
    signed (Nat.toDigits b n) = (false, Nat.toDigits b n) := by
  have hdigits := exists_digitChar hb n
  have hne := Nat.toDigits_ne_nil (n := n) (b := b)
  generalize Nat.toDigits b n = s at *
  cases s with
  | nil => exact absurd rfl hne
  | cons c s =>
      obtain ⟨d, hd, rfl⟩ := hdigits c List.mem_cons_self
      obtain ⟨hspace, hminus, hplus, -⟩ := digitChar_sign (show d < 16 by omega)
      unfold signed
      rw [List.dropWhile_cons_of_neg (by rw [hspace]; exact Bool.false_ne_true)]
      split
      · rename_i heq
        exact absurd (List.cons.inj heq).1 hminus
      · rename_i heq
        exact absurd (List.cons.inj heq).1 hplus
      · rfl

theorem strtol_toDigits {n : ℕ} (h : n < 2 ^ 63) : strtol (Nat.toDigits 10 n) = n := by
  unfold strtol
  rw [signed_toDigits (by omega) (by omega), number_toDigits (by omega) (by omega)]
  simp only [Bool.false_eq_true, if_false]
  rw [min_eq_left (by omega), max_eq_right (by omega)]

theorem atoi_toDigits {n : ℕ} (h : n < 2 ^ 31) : atoi (Nat.toDigits 10 n) = n := by
  unfold atoi
  rw [strtol_toDigits (by omega)]
  exact Int.bmod_eq_of_le (by omega) (by omega)

theorem strtoull16_toDigits {n : ℕ} (h : n < 2 ^ 64) :
    strtoull16 ('0' :: 'x' :: Nat.toDigits 16 n) = n := by
  have hs : signed ('0' :: 'x' :: Nat.toDigits 16 n) =
      (false, '0' :: 'x' :: Nat.toDigits 16 n) := rfl
  unfold strtoull16
  have hhead : (if ('0' :: 'x' :: Nat.toDigits 16 n).take 2 = ['0', 'x'] ∨
      ('0' :: 'x' :: Nat.toDigits 16 n).take 2 = ['0', 'X'] then
        ('0' :: 'x' :: Nat.toDigits 16 n).drop 2 else '0' :: 'x' :: Nat.toDigits 16 n) =
      Nat.toDigits 16 n := if_pos (.inl rfl)
  rw [hs]
  dsimp only
  rw [hhead, number_toDigits (by omega) (by omega), if_neg (by omega)]
  rfl

/-! ### Tokens -/

/-- The tokens that `strtok` finds one after another. -/
def strtok (sep : Char) (s : List Char) : List (List Char) :=
  (s.splitOn sep).filter fun t => !t.isEmpty

theorem length_splitOn (sep : Char) (s : List Char) :
    (s.splitOn sep).length = s.count sep + 1 := by
  induction s with
  | nil => rfl
  | cons c s ih =>
      rw [List.splitOn_cons_eq_if_modifyHead, List.count_cons]
      split_ifs
      · rw [List.length_cons, ih]
      · rw [List.length_modifyHead, ih]

theorem length_strtok_le (sep : Char) (s : List Char) :
    (strtok sep s).length ≤ s.count sep + 1 := by
  rw [← length_splitOn]
  exact List.length_filter_le _ _

theorem strtok_intercalate {sep : Char} {ts : List (List Char)}
    (h : ∀ t ∈ ts, t ≠ [] ∧ sep ∉ t) : strtok sep ([sep].intercalate ts) = ts := by
  by_cases hts : ts = []
  · rw [hts]
    rfl
  · unfold strtok
    rw [List.splitOn_intercalate sep (fun t ht => (h t ht).2) hts, List.filter_eq_self]
    intro t ht
    rw [Bool.not_eq_true', List.isEmpty_eq_false_iff]
    exact (h t ht).1

/-- There is no token in separators only. -/
theorem strtok_eq_nil {sep : Char} {s : List Char} : strtok sep s = [] ↔ ∀ c ∈ s, c = sep := by
  unfold strtok
  induction s with
  | nil => simp
  | cons c s ih =>
      rw [List.splitOn_cons_eq_if_modifyHead]
      by_cases hc : c = sep
      · rw [if_pos (by simp [hc]), List.filter_cons_of_neg (by simp), ih]
        simp [hc]
      · rw [if_neg (by simp [hc])]
        constructor
        · intro h
          cases hs : s.splitOn sep with
          | nil => exact absurd hs (List.splitOn_ne_nil sep s)
          | cons t ts =>
              rw [hs, List.modifyHead_cons, List.filter_cons_of_pos (by simp)] at h
              cases h
        · intro h
          exact absurd (h c List.mem_cons_self) hc

end CString

import Mathlib.Data.Nat.BitIndices
import MachAudio.Lib.CString

/-! # The core mask of the supervisor

`main` starts one worker for each core of the list that `parse_core_mask` makes of an argument: a
mask in hexadecimal, `none`, or numbers with commas between them.  The list is written into a block
allocated before it is known how long it gets; it is never longer than the block, the cores come
out as they were put in, and only a string of commas starts no worker at all
(`core_mask_parsed`). -/

namespace MachAudio

open CString

/-- `*cores` and `*num_cores`: the elements the block was allocated for, and what is written to
it. -/
structure CoreList where
  capacity : ℕ
  cores : List ℤ
deriving DecidableEq, Repr

/-- The word that stands for no core, as -1 does in the list. -/
def noneWord : List Char := ['n', 'o', 'n', 'e']

/-- The bits of a mask, from the lowest on. -/
def maskBits (mask : ℕ) : List ℕ := (List.range 64).filter mask.testBit

def parseCoreMask : Option (List Char) → CoreList
  | none => ⟨1, [0]⟩
  | some maskStr =>
      if maskStr.take 2 = ['0', 'x'] then
        let bits := maskBits (strtoull16 maskStr)
        if bits.length = 0 then ⟨1, [0]⟩
        else ⟨bits.length, bits.map Int.ofNat⟩
      else if maskStr = noneWord then ⟨1, [-1]⟩
      else ⟨maskStr.count ',' + 1,
        (strtok ',' maskStr).map fun token => if token = noneWord then -1 else atoi token⟩

/-! ### What is printed -/

/-- A core in a list with commas. -/
def printCore (core : ℤ) : List Char :=
  if core = -1 then noneWord else Nat.toDigits 10 core.toNat

/-- A list of cores with commas. -/
def printCores (cores : List ℤ) : List Char := [','].intercalate (cores.map printCore)

/-- The mask with the bits of some cores. -/
def printMask (cores : List ℕ) : List Char :=
  '0' :: 'x' :: Nat.toDigits 16 (cores.map fun core => 2 ^ core).sum

/-- No core, or one that an `int` holds. -/
def IsCore (core : ℤ) : Prop := core = -1 ∨ (0 ≤ core ∧ core < 2 ^ 31)

theorem printCore_token {core : ℤ} : printCore core ≠ [] ∧ ',' ∉ printCore core := by
  unfold printCore
  split_ifs
  · decide
  · refine ⟨Nat.toDigits_ne_nil, fun h => ?_⟩
    obtain ⟨d, hd, hc⟩ := exists_digitChar (by omega) _ _ h
    exact (digitChar_sign (show d < 16 by omega)).2.2.2 hc.symm

theorem toDigits_ne_noneWord (n : ℕ) : Nat.toDigits 10 n ≠ noneWord := by
  intro h
  have hmem : 'n' ∈ Nat.toDigits 10 n := by
    rw [h]
    decide
  obtain ⟨d, hd, hc⟩ := exists_digitChar (by omega) n _ hmem
  revert d
  decide

/-- A printed core is read. -/
theorem read_printCore {core : ℤ} (h : IsCore core) :
    (if printCore core = noneWord then -1 else atoi (printCore core)) = core := by
  rcases h with rfl | ⟨h₀, h₁⟩
  · rfl
  · have hprint : printCore core = Nat.toDigits 10 core.toNat := if_neg (by omega)
    rw [hprint, if_neg (toDigits_ne_noneWord _), atoi_toDigits (by omega)]
    omega

/-- A list with commas is not taken for a mask. -/
theorem printCores_not_mask (cores : List ℤ) : (printCores cores).take 2 ≠ ['0', 'x'] := by
  have hchars : ∀ c ∈ printCores cores, c ≠ 'x' := by
    intro c hc hx
    subst hx
    have hmem : ∃ core ∈ cores, 'x' ∈ printCore core := by
      induction cores with
      | nil => exact absurd hc List.not_mem_nil
      | cons core cores ih =>
          cases cores with
          | nil => exact ⟨core, List.mem_cons_self, by simpa [printCores] using hc⟩
          | cons core' cores =>
              have hcons : printCores (core :: core' :: cores) =
                  printCore core ++ ',' :: printCores (core' :: cores) := by
                simp [printCores, List.intercalate]
              rw [hcons, List.mem_append, List.mem_cons] at hc
              rcases hc with hc | hc | hc
              · exact ⟨core, List.mem_cons_self, hc⟩
              · exact absurd hc (by decide)
              · obtain ⟨k, hk, hx⟩ := ih hc
                exact ⟨k, List.mem_cons_of_mem _ hk, hx⟩
    obtain ⟨core, -, hx⟩ := hmem
    unfold printCore at hx
    split_ifs at hx
    · revert hx
      decide
    · obtain ⟨d, hd, hc⟩ := exists_digitChar (by omega) _ _ hx
      revert d
      decide
  intro h
  have hmem : 'x' ∈ (printCores cores).take 2 := by
    rw [h]
    decide
  exact hchars 'x' (List.mem_of_mem_take hmem) rfl

theorem parseCoreMask_printCores {cores : List ℤ} (h : ∀ core ∈ cores, IsCore core) :
    (parseCoreMask (some (printCores cores))).cores = cores := by
  have htokens : strtok ',' (printCores cores) = cores.map printCore := by
    refine strtok_intercalate fun t ht => ?_
    obtain ⟨core, -, rfl⟩ := List.mem_map.mp ht
    exact printCore_token
  have hread : (cores.map printCore).map
      (fun token => if token = noneWord then -1 else atoi token) = cores := by
    rw [List.map_map]
    conv_rhs => rw [← List.map_id cores]
    apply List.map_congr_left
    intro core hcore
    exact read_printCore (h core hcore)
  unfold parseCoreMask
  dsimp only
  rw [if_neg (printCores_not_mask cores)]
  split_ifs with hnone
  · -- the word alone is one token
    rw [hnone] at htokens
    have hone : cores.map printCore = [noneWord] := htokens.symm.trans (by decide)
    rw [hone] at hread
    rw [← hread]
    rfl
  · rw [htokens, hread]

theorem maskBits_eq {mask : ℕ} (h : mask < 2 ^ 64) : maskBits mask = mask.bitIndices := by
  have hmem : ∀ i, i ∈ maskBits mask ↔ i ∈ mask.bitIndices := by
    intro i
    unfold maskBits
    rw [List.mem_filter, List.mem_range, Nat.mem_bitIndices, and_iff_right_iff_imp]
    intro hbit
    by_contra hge
    have hle := Nat.ge_two_pow_of_testBit hbit
    have hpow := Nat.pow_le_pow_right (show 2 > 0 by omega) (not_lt.mp hge)
    omega
  have hsorted : (maskBits mask).Pairwise (· < ·) := List.pairwise_lt_range.filter _
  exact List.Perm.eq_of_pairwise (fun a b _ _ hab hba => absurd (hab.trans hba) (lt_irrefl a))
    hsorted Nat.bitIndices_sorted.pairwise
    ((List.perm_ext_iff_of_nodup (hsorted.imp ne_of_lt) Nat.bitIndices_nodup).mpr hmem)

/-- A sum of different powers of two is no larger than the sum of all of them. -/
theorem mask_lt {cores : List ℕ} (hs : cores.Pairwise (· < ·)) (h : ∀ core ∈ cores, core < 64) :
    (cores.map fun core => 2 ^ core).sum < 2 ^ 64 := by
  apply Nat.lt_pow_two_of_testBit
  intro i hi
  rw [Bool.eq_false_iff]
  intro hbit
  have hmem := Nat.mem_bitIndices.mpr hbit
  rw [Nat.bitIndices_sum_map_two_pow hs.sortedLT] at hmem
  exact absurd (h i hmem) (by omega)

theorem parseCoreMask_printMask {cores : List ℕ} (hne : cores ≠ []) (hs : cores.Pairwise (· < ·))
    (h : ∀ core ∈ cores, core < 64) :
    (parseCoreMask (some (printMask cores))).cores = cores.map Int.ofNat := by
  have hlt := mask_lt hs h
  have hbits : maskBits (strtoull16 (printMask cores)) = cores := by
    unfold printMask
    rw [strtoull16_toDigits hlt, maskBits_eq hlt, Nat.bitIndices_sum_map_two_pow hs.sortedLT]
  have hprefix : (printMask cores).take 2 = ['0', 'x'] := rfl
  unfold parseCoreMask
  dsimp only
  rw [if_pos hprefix, hbits, if_neg fun hlen => hne (List.length_eq_zero_iff.mp hlen)]

/-- A mask, whatever follows its prefix, gives cores in ascending order. -/
theorem parseCoreMask_mask {s : List Char} (h : s.take 2 = ['0', 'x']) :
    (parseCoreMask (some s)).cores.Pairwise (· < ·) ∧
      ∀ core ∈ (parseCoreMask (some s)).cores, 0 ≤ core ∧ core < 64 := by
  unfold parseCoreMask
  dsimp only
  rw [if_pos h]
  split_ifs
  · exact ⟨List.pairwise_singleton _ _, fun core hcore => by
      rw [List.mem_singleton.mp hcore]
      decide⟩
  · constructor
    · rw [List.pairwise_map]
      exact (List.pairwise_lt_range.filter _).imp Int.ofNat_lt.mpr
    · intro core hcore
      obtain ⟨i, hi, rfl⟩ := List.mem_map.mp hcore
      have hlt := List.mem_range.mp (List.mem_filter.mp hi).1
      rw [Int.ofNat_eq_natCast]
      omega

/-! ### Every string -/

theorem length_parseCoreMask (maskStr : Option (List Char)) :
    (parseCoreMask maskStr).cores.length ≤ (parseCoreMask maskStr).capacity := by
  cases maskStr with
  | none => exact Nat.le_refl _
  | some s =>
      unfold parseCoreMask
      dsimp only
      split_ifs
      · exact Nat.le_refl _
      · rw [List.length_map]
      · exact Nat.le_refl _
      · rw [List.length_map]
        exact length_strtok_le _ _

/-- Only commas, or nothing, start no worker. -/
theorem parseCoreMask_eq_nil (maskStr : Option (List Char)) :
    (parseCoreMask maskStr).cores = [] ↔ ∃ s, maskStr = some s ∧ ∀ c ∈ s, c = ',' := by
  cases maskStr with
  | none => simp [parseCoreMask]
  | some s =>
      unfold parseCoreMask
      dsimp only
      have hcommas : ∀ s' : List Char, (∃ s, some s' = some s ∧ ∀ c ∈ s, c = ',') ↔
          ∀ c ∈ s', c = ',' := by simp
      rw [hcommas]
      split_ifs with hmask hbits hnone
      · refine iff_of_false not_false fun hall => ?_
        have hzero : '0' ∈ s := List.mem_of_mem_take (hmask ▸ List.mem_cons_self)
        exact absurd (hall _ hzero) (by decide)
      · refine iff_of_false (fun hnil => hbits ?_) fun hall => ?_
        · rw [List.map_eq_nil_iff.mp hnil]
          rfl
        · have hzero : '0' ∈ s := List.mem_of_mem_take (hmask ▸ List.mem_cons_self)
          exact absurd (hall _ hzero) (by decide)
      · refine iff_of_false not_false fun hall => ?_
        rw [hnone] at hall
        exact absurd (hall 'n' (by decide)) (by decide)
      · rw [List.map_eq_nil_iff]
        exact strtok_eq_nil

/-- **The cores of a mask.**  Whatever the argument is, the list fits its block, and it is empty
for an argument of commas only.  Cores printed with commas between them, each one that an `int`
holds or none, are read in their order.  A mask gives ascending cores below 64, and when it was
printed from a set of cores, that set. -/
theorem core_mask_parsed :
    (∀ maskStr, (parseCoreMask maskStr).cores.length ≤ (parseCoreMask maskStr).capacity) ∧
      (∀ maskStr, (parseCoreMask maskStr).cores = [] ↔
        ∃ s, maskStr = some s ∧ ∀ c ∈ s, c = ',') ∧
      (∀ cores : List ℤ, (∀ core ∈ cores, IsCore core) →
        (parseCoreMask (some (printCores cores))).cores = cores) ∧
      (∀ s : List Char, s.take 2 = ['0', 'x'] →
        (parseCoreMask (some s)).cores.Pairwise (· < ·) ∧
          ∀ core ∈ (parseCoreMask (some s)).cores, 0 ≤ core ∧ core < 64) ∧
      ∀ cores : List ℕ, cores ≠ [] → cores.Pairwise (· < ·) → (∀ core ∈ cores, core < 64) →
        (parseCoreMask (some (printMask cores))).cores = cores.map Int.ofNat :=
  ⟨length_parseCoreMask, parseCoreMask_eq_nil, fun _ => parseCoreMask_printCores,
    fun _ => parseCoreMask_mask, fun _ => parseCoreMask_printMask⟩

/-- The two forms that the usage message gives. -/
theorem core_mask_parsed_usage :
    (parseCoreMask (some ['0', ',', '2', ',', '4'])).cores = [0, 2, 4] ∧
      (parseCoreMask (some ['0', 'x', '1', '5'])).cores = [0, 2, 4] := by
  obtain ⟨-, -, hlist, -, hmask⟩ := core_mask_parsed
  exact ⟨hlist [0, 2, 4] (by simp [IsCore]), hmask [0, 2, 4] (by simp) (by simp) (by simp)⟩

end MachAudio

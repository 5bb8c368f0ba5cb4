import MachAudio.Exponential
import MachAudio.Lib.GatedUnit

/-! # The vectorised network against the reference

`vad_gru_process_frame_c` is the network with plain loops and the functions of the C library,
`vad_gru_process_frame_avx2` the one with vector reductions and the fast exponential.  The sums are
the same sums.  What differs are the gates, by at most `2 ^ (-15)`, and the state carries that from
frame to frame: after every number of frames the two states differ by no more than the
`accumulated` error that the norm of the recurrent weights allows (`avx2_follows_reference`).

As in `Network` every `float` is read as the number it stands for. -/

namespace MachAudio

open Gates
open Real (exp sigmoid tanh)

/-! ### The reference -/

section frame
variable (W : GruWeights) (expf tanhf : ℚ → ℚ) (features : List ℚ) (hPrev : ℕ → ℚ)

/-- `input_proj[i]` of the reference. -/
def inputProjC (i : ℕ) : ℚ :=
  (List.range 20).foldl (fun inSum j => inSum + W.wInput (i * 20 + j) * features.getD j 0) 0 +
    W.bInput i

/-- `rec_proj[i]` of the reference. -/
def recProjC (i : ℕ) : ℚ :=
  (List.range 24).foldl (fun recSum j => recSum + W.wRecurrent (i * 24 + j) * hPrev j) 0 +
    W.bRecurrent i

/-- `h_new[k]` of the reference. -/
def hNewAtC (k : ℕ) : ℚ :=
  let rArg := inputProjC W features k + recProjC W hPrev k
  let r := 1 / (1 + expf (-rArg))
  let zArg := inputProjC W features (24 + k) + recProjC W hPrev (24 + k)
  let z := 1 / (1 + expf (-zArg))
  let nArg := inputProjC W features (48 + k) + r * recProjC W hPrev (48 + k)
  let n := tanhf nArg
  (1 - z) * n + z * hPrev k

def hNewC : List ℚ := (List.range 24).map (hNewAtC W expf tanhf features hPrev)

theorem length_hNewC : (hNewC W expf tanhf features hPrev).length = vadHiddenDim := by
  unfold hNewC
  rw [List.length_map, List.length_range]
  rfl

end frame

/-- `vad_gru_process_frame_c` on a state and features that are not `NULL`. -/
def vadGruProcessFrameC (W : GruWeights) (expf tanhf : ℚ → ℚ) (state : VadGruState)
    (features : List ℚ) (numFeatures : ℕ) : VadGruState × ℚ :=
  if numFeatures ≠ vadFeatureDim then (state, 0)
  else
    let hPrev (k : ℕ) := state.hiddenState.getD k 0
    let new := hNewC W expf tanhf features hPrev
    let fcSum := (List.range 24).foldl (fun fcSum k => fcSum + new.getD k 0 * W.fcWeight k) 0
    let outVal := fcSum + W.fcBias
    (⟨new, length_hNewC W expf tanhf features hPrev⟩, 1 / (1 + expf (-outVal)))

/-- The reference on the frames of a run, as `gruRun`. -/
def gruRunC (W : GruWeights) (expf tanhf : ℚ → ℚ) :
    VadGruState → List FeatureVector → List (VadGruState × ℚ)
  | _, [] => []
  | state, x :: xs =>
      let r := vadGruProcessFrameC W expf tanhf state x.values x.values.length
      r :: gruRunC W expf tanhf r.1 xs

/-! ### The same sums -/

theorem foldl_range_eq_sum (f : ℕ → ℚ) (n : ℕ) :
    (List.range n).foldl (fun acc j => acc + f j) 0 = ∑ j ∈ Finset.range n, f j := by
  rw [foldl_add_eq_sum, zero_add]
  rfl

section sums
variable (W : GruWeights) (features : List ℚ) (hPrev : ℕ → ℚ)

theorem inputProjC_eq (i : ℕ) : inputProjC W features i = inputProj W features i := by
  unfold inputProjC inputProj
  rw [foldl_range_eq_sum, inputDot_eq]
  simp only [mul_comm]

theorem recProjC_eq (i : ℕ) : recProjC W hPrev i =
    ∑ j ∈ Finset.range 24, hPrev j * W.wRecurrent (i * 24 + j) + W.bRecurrent i := by
  unfold recProjC
  rw [foldl_range_eq_sum]
  simp only [mul_comm]

theorem recProj_eq (i : ℕ) : recProj W hPrev i =
    ∑ j ∈ Finset.range 24, hPrev j * W.wRecurrent (i * 24 + j) + W.bRecurrent i := by
  unfold recProj
  rw [hiddenDot_eq]

/-- A component of the vectorised state. -/
theorem hNewAt_eq_cell (k : ℕ) : hNewAt W features hPrev k =
    cell sigmoidPs tanhPs (inputProj W features k) (inputProj W features (24 + k))
      (inputProj W features (48 + k)) (recProj W hPrev k) (recProj W hPrev (24 + k))
        (recProj W hPrev (48 + k)) (hPrev k) := by
  unfold hNewAt cell
  dsimp only
  rw [add_comm (inputProj W features (48 + k))]

/-- A component of the state of the reference. -/
theorem hNewAtC_eq_cell (expf tanhf : ℚ → ℚ) (k : ℕ) : hNewAtC W expf tanhf features hPrev k =
    cell (fun x => 1 / (1 + expf (-x))) tanhf (inputProj W features k)
      (inputProj W features (24 + k)) (inputProj W features (48 + k)) (recProjC W hPrev k)
        (recProjC W hPrev (24 + k)) (recProjC W hPrev (48 + k)) (hPrev k) := by
  unfold hNewAtC cell
  simp only [inputProjC_eq]

/-- The components of a new state. -/
theorem getD_map_range (f : ℕ → ℚ) (k : ℕ) :
    ((List.range 24).map f).getD k 0 = if k < 24 then f k else 0 := by
  rw [List.getD_eq_getElem?_getD, List.getElem?_map]
  split_ifs with hk
  · rw [List.getElem?_range hk]
    rfl
  · rw [List.getElem?_eq_none (by rw [List.length_range]; omega)]
    rfl

theorem hNew_eq_map : hNew W features hPrev = (List.range 24).map (hNewAt W features hPrev) := rfl

end sums

/-! ### The gates follow each other -/

/-- What is left of a real distance between rational numbers. -/
theorem follows_of_close {s s' : ℚ → ℚ} {f : ℝ → ℝ} {δ ℓ : ℚ}
    (hs : ∀ x : ℚ, |(s x : ℝ) - f x| ≤ δ) (hs' : ∀ x : ℚ, |(s' x : ℝ) - f x| ≤ δ)
    (hf : ∀ x y : ℝ, |f x - f y| ≤ ℓ * |x - y|) : Tracks (2 * δ) ℓ s s' := by
  intro x y
  have h : |(s x : ℝ) - s' y| ≤ 2 * δ + ℓ * |(x : ℝ) - y| := by
    have hx := hs x
    have hy := hs' y
    rw [abs_sub_comm] at hy
    calc |(s x : ℝ) - s' y| = |((s x : ℝ) - f x) + (f x - f y) + (f y - s' y)| := by
          congr 1
          ring
      _ ≤ |(s x : ℝ) - f x| + |f x - f y| + |f y - s' y| := abs_add_three _ _ _
      _ ≤ 2 * δ + ℓ * |(x : ℝ) - y| := by linarith [hf x y]
  exact_mod_cast h

section gates
variable {expf tanhf : ℚ → ℚ}

/-- Sigmoids with two exponentials. -/
theorem IsExp.follows {e e' : ℚ → ℚ} (he : IsExp e) (he' : IsExp e') :
    Tracks (1 / 2 ^ 16) (1 / 4) (fun x => 1 / (1 + e (-x))) fun x => 1 / (1 + e' (-x)) := by
  have hδ : ∀ {e : ℚ → ℚ}, IsExp e → ∀ x : ℚ,
      |((1 / (1 + e (-x)) : ℚ) : ℝ) - sigmoid x| ≤ ((1 / 2 ^ 17 : ℚ) : ℝ) := by
    intro e he x
    have hx := he.sigmoid_close x
    norm_num at hx ⊢
    exact hx
  have h := follows_of_close (ℓ := 1 / 4) (hδ he) (hδ he') fun x y => by
    push_cast
    exact sigmoid_lipschitz x y
  refine h.weaken ?_
  norm_num

theorem tanh_follows (htanh : IsTanh tanhf) : Tracks (1 / 2 ^ 15) 1 tanhf tanhPs := by
  have hδ : ∀ {t : ℚ → ℚ}, IsTanh t → ∀ x : ℚ, |(t x : ℝ) - tanh x| ≤ ((1 / 2 ^ 16 : ℚ) : ℝ) := by
    intro t ht x
    push_cast
    exact ht x
  have h := follows_of_close (ℓ := 1) (hδ htanh) (hδ tanhPs_isTanh) fun x y => by
    rw [Rat.cast_one, one_mul]
    exact tanh_lipschitz x y
  refine h.weaken ?_
  norm_num

end gates

/-! ### One frame -/

/-- What a row of the recurrent projection makes of a state in the box, at most. -/
def rowNorm (W : GruWeights) (i : ℕ) : ℚ :=
  ∑ j ∈ Finset.range 24, |W.wRecurrent (i * 24 + j)| + |W.bRecurrent i|

/-- The largest norm of the 72 rows. -/
def recurrentNorm (W : GruWeights) : ℚ := ((List.range 72).map (rowNorm W)).foldr max 0

def outputNorm (W : GruWeights) : ℚ := ∑ k ∈ Finset.range 24, |W.fcWeight k|

/-- The error that a frame adds. -/
def frameError (W : GruWeights) : ℚ := (recurrentNorm W + 3) * (1 / 2 ^ 15)

/-- What a frame makes of an error in the state. -/
def frameStretch (W : GruWeights) : ℚ :=
  1 + (1 + 1 / 4 * (recurrentNorm W + 2)) * recurrentNorm W

/-- No component differs by more than `d`. -/
def VadGruState.Within (d : ℚ) (s s' : VadGruState) : Prop :=
  ∀ k, |s.hiddenState.getD k 0 - s'.hiddenState.getD k 0| ≤ d

section norms
variable (W : GruWeights)

theorem le_foldr_max {x : ℚ} : ∀ {l : List ℚ}, x ∈ l → x ≤ l.foldr max 0
  | y :: l, h => by
      rcases List.mem_cons.mp h with rfl | h
      · exact le_max_left _ _
      · exact (le_foldr_max h).trans (le_max_right _ _)

theorem rowNorm_le {i : ℕ} (hi : i < 72) : rowNorm W i ≤ recurrentNorm W :=
  le_foldr_max (List.mem_map_of_mem (List.mem_range.mpr hi))

theorem recurrentNorm_nonneg : 0 ≤ recurrentNorm W := by
  refine le_trans ?_ (rowNorm_le W (show 0 < 72 by norm_num))
  exact add_nonneg (Finset.sum_nonneg fun _ _ => abs_nonneg _) (abs_nonneg _)

theorem frameError_nonneg : 0 ≤ frameError W := by
  have hR := recurrentNorm_nonneg W
  unfold frameError
  generalize recurrentNorm W = R at *
  positivity

theorem frameStretch_nonneg : 0 ≤ frameStretch W := by
  have hR := recurrentNorm_nonneg W
  unfold frameStretch
  generalize recurrentNorm W = R at *
  positivity

/-- The recurrent projections of two states. -/
theorem recProj_close {d : ℚ} (h₀ : 0 ≤ d) {h h' : ℕ → ℚ} (hd : ∀ k, |h k - h' k| ≤ d) {i : ℕ}
    (hi : i < 72) : |recProjC W h i - recProj W h' i| ≤ recurrentNorm W * d := by
  rw [recProjC_eq, recProj_eq, add_sub_add_right_eq_sub]
  refine (sum_close 24 hd).trans (mul_le_mul_of_nonneg_right ?_ h₀)
  refine le_trans ?_ (rowNorm_le W hi)
  exact le_add_of_nonneg_right (abs_nonneg _)

/-- The recurrent projection of a state in the box. -/
theorem abs_recProj_le {h : ℕ → ℚ} (hh : ∀ k, |h k| ≤ 1) {i : ℕ} (hi : i < 72) :
    |recProj W h i| ≤ recurrentNorm W := by
  rw [recProj_eq]
  refine (abs_add_le _ _).trans ?_
  refine le_trans ?_ (rowNorm_le W hi)
  exact add_le_add (abs_sum_le 24 hh) le_rfl

end norms

section frame
variable (W : GruWeights) {expf tanhf : ℚ → ℚ} (hexp : IsExp expf) (htanh : IsTanh tanhf)

include hexp htanh

/-- A component of the state after a frame. -/
theorem hNewAt_close (features : List ℚ) {d : ℚ} (h₀ : 0 ≤ d) {h h' : ℕ → ℚ}
    (hbox : ∀ k, |h' k| ≤ 1) (hd : ∀ k, |h k - h' k| ≤ d) {k : ℕ} (hk : k < 24) :
    |hNewAtC W expf tanhf features h k - hNewAt W features h' k| ≤
      frameError W + frameStretch W * d := by
  have hsigmoid : Tracks (1 / 2 ^ 15) (1 / 4) (fun x => 1 / (1 + expf (-x))) sigmoidPs := by
    have heq : sigmoidPs = fun x => 1 / (1 + expPs (-x)) := by
      funext x
      rw [sigmoidPs, zero_sub]
    rw [heq]
    refine (hexp.follows expPs_isExp).weaken ?_
    norm_num
  rw [hNewAtC_eq_cell, hNewAt_eq_cell]
  refine (cell_close (show (0 : ℚ) ≤ 1 / 4 by norm_num) hsigmoid (tanh_follows htanh)
    (fun x => ⟨(logistic_mem (hexp.nonneg (-x))).1.le, (logistic_mem (hexp.nonneg (-x))).2⟩)
    (fun x => abs_le.mpr (tanhPs_mem x)) (hbox k)
    (abs_recProj_le W hbox (show 48 + k < 72 by omega))
    (recProj_close W h₀ hd (show k < 72 by omega))
    (recProj_close W h₀ hd (show 24 + k < 72 by omega))
    (recProj_close W h₀ hd (show 48 + k < 72 by omega)) (hd k)).trans (le_of_eq ?_)
  unfold frameError frameStretch
  ring

/-- **One frame of both**, from states within `d` of each other. -/
theorem frame_close (x : FeatureVector) {d : ℚ} (h₀ : 0 ≤ d) {s s' : VadGruState}
    (hbox : s'.InBox) (hd : s.Within d s') :
    (vadGruProcessFrameC W expf tanhf s x.values x.values.length).1.Within
        (frameError W + frameStretch W * d)
        (vadGruProcessFrameAvx2 W expf s' x.values x.values.length).1 ∧
      |(vadGruProcessFrameC W expf tanhf s x.values x.values.length).2 -
          (vadGruProcessFrameAvx2 W expf s' x.values x.values.length).2| ≤
        1 / 2 ^ 16 + outputNorm W / 4 * (frameError W + frameStretch W * d) := by
  have hnonneg : 0 ≤ frameError W + frameStretch W * d :=
    add_nonneg (frameError_nonneg W) (mul_nonneg (frameStretch_nonneg W) h₀)
  have hlen : ¬x.values.length ≠ vadFeatureDim := not_not.mpr x.length_values
  unfold vadGruProcessFrameC vadGruProcessFrameAvx2
  rw [if_neg hlen, if_neg hlen]
  dsimp only
  have hstates : ∀ k,
      |(hNewC W expf tanhf x.values fun k => s.hiddenState.getD k 0).getD k 0 -
        (hNew W x.values fun k => s'.hiddenState.getD k 0).getD k 0| ≤
          frameError W + frameStretch W * d := by
    intro k
    rw [hNew_eq_map, hNewC, getD_map_range, getD_map_range]
    split_ifs with hk
    · exact hNewAt_close W hexp htanh x.values h₀ (fun k => abs_le.mpr (hbox.getD k)) hd hk
    · rw [sub_zero, abs_zero]
      exact hnonneg
  refine ⟨hstates, ?_⟩
  rw [foldl_range_eq_sum, hiddenDot_eq]
  refine (hexp.follows hexp _ _).trans ?_
  rw [add_sub_add_right_eq_sub]
  have hsum := sum_close (w := W.fcWeight) 24 hstates
  have hscale := mul_le_mul_of_nonneg_left hsum (show (0 : ℚ) ≤ 1 / 4 by norm_num)
  unfold outputNorm
  linarith

/-! ### Every run -/

/-- **The vectorised network follows the reference.**  Whatever frames come, after each of them the
hidden states and the probabilities are as close as the accumulated of so many frames. -/
theorem avx2_follows_reference (xs : List FeatureVector) {i : ℕ} {r r' : VadGruState × ℚ}
    (hr : (gruRunC W expf tanhf vadGruReset xs)[i]? = some r)
    (hr' : (gruRun W expf vadGruReset xs)[i]? = some r') :
    r.1.Within (accumulated (frameError W) (frameStretch W) (i + 1)) r'.1 ∧
      |r.2 - r'.2| ≤
        1 / 2 ^ 16 + outputNorm W / 4 * accumulated (frameError W) (frameStretch W) (i + 1) := by
  have hA := frameError_nonneg W
  have hL := frameStretch_nonneg W
  -- from states that are as close as the accumulated of `n` frames
  have hrun : ∀ (xs : List FeatureVector) (n : ℕ) {s s' : VadGruState}, s'.InBox →
      s.Within (accumulated (frameError W) (frameStretch W) n) s' → ∀ {i : ℕ} {r r' : VadGruState × ℚ},
        (gruRunC W expf tanhf s xs)[i]? = some r → (gruRun W expf s' xs)[i]? = some r' →
          r.1.Within (accumulated (frameError W) (frameStretch W) (n + i + 1)) r'.1 ∧
            |r.2 - r'.2| ≤ 1 / 2 ^ 16 +
              outputNorm W / 4 * accumulated (frameError W) (frameStretch W) (n + i + 1) := by
    intro xs
    induction xs with
    | nil => exact fun n s s' _ _ i r r' hr _ => by cases hr
    | cons x xs ih =>
        intro n s s' hbox hd i r r' hr hr'
        have hframe := frame_close W hexp htanh x (accumulated_nonneg hA hL n) hbox hd
        rw [← accumulated_succ] at hframe
        cases i with
        | zero =>
            obtain rfl := Option.some.inj hr
            obtain rfl := Option.some.inj hr'
            exact hframe
        | succ i =>
            have hnext := ih (n + 1) (vadGruProcessFrameAvx2_inBox W expf hbox x.values _)
              hframe.1 hr hr'
            rwa [Nat.add_right_comm n 1 i] at hnext
  have hreset := hrun xs 0 vadGruReset_inBox
    (fun k => by rw [sub_self, abs_zero, accumulated_zero]) hr hr'
  rwa [Nat.zero_add] at hreset

end frame

/-- A network whose weights are all alike. -/
def GruWeights.even : GruWeights :=
  ⟨fun _ => 1 / 4, fun _ => 0, fun _ => 1 / 32, fun _ => 1 / 4, fun _ => 1 / 6, 0⟩

/-- Two frames, where the functions of the library are as good as the fast ones. -/
theorem avx2_follows_reference_two : ∃ r r',
    (gruRunC GruWeights.even expPs tanhPs vadGruReset (List.replicate 2 ⟨List.replicate 20 1, rfl⟩))[
      1]? = some r ∧
    (gruRun GruWeights.even expPs vadGruReset (List.replicate 2 ⟨List.replicate 20 1, rfl⟩))[1]? =
      some r' ∧
    r.1.Within (15 / 2 ^ 15) r'.1 := by
  refine ⟨_, _, rfl, rfl, ?_⟩
  have h := (avx2_follows_reference GruWeights.even expPs_isExp tanhPs_isTanh
    (List.replicate 2 ⟨List.replicate 20 1, rfl⟩) (i := 1) rfl rfl).1
  have hA : frameError GruWeights.even = 4 / 2 ^ 15 := by decide +kernel
  have hL : frameStretch GruWeights.even = 11 / 4 := by decide +kernel
  rw [hA, hL, accumulated_succ, accumulated_succ, accumulated_zero] at h
  norm_num at h ⊢
  exact h

end MachAudio

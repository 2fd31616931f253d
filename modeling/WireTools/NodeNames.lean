import Mathlib.Data.List.Nodup
import WireTools.EnvelopeStorageKey
import WireTools.NodeConfig

/-! # The names of nodes and producers

* `nodeName` is injective, and no planned name is the bios name;
* a producer name is `defpr` and seven letters.  Read as a number in base 26 (`alphaValue`), the
  letters of the first 26 names start at `oducera`, those of the later ones at 1, so the names
  are distinct up to the producer whose letters are `oducera` again (`nodup_producerNames`). -/

namespace WireTools
namespace NodeConfig

open Json (digitsValue digitsValue_natText natText_isDigit)

/-! ### Node names -/

theorem digitsValue_padStart (n : ℕ) :
    digitsValue (padStart 2 48 (natText n)) = n := by
  rw [padStart, EnvelopeStorage.digitsValue_zeros, digitsValue_natText]

theorem nodeName_inj {i j : ℕ} (h : nodeName i = nodeName j) : i = j := by
  have htext := List.append_cancel_left h
  rw [← digitsValue_padStart i, htext, digitsValue_padStart]

theorem nodeName_ne_bios (i : ℕ) : nodeName i ≠ BiosName := by
  intro h
  have htext : padStart 2 48 (natText i) = text "bios" := List.append_cancel_left h
  have hmem : (115 : CodeUnit) ∈ padStart 2 48 (natText i) := by
    rw [htext]
    decide
  rcases List.mem_append.mp hmem with hpad | hdigit
  · exact absurd (List.mem_replicate.mp hpad).2 (by decide)
  · exact absurd (natText_isDigit i _ hdigit) (by decide)

/-! ### Letters as a number -/

/-- Letters read as a number in base 26. -/
def alphaValue (t : Text) : ℕ :=
  t.foldl (fun v c => v * 26 + (c.toNat - 97)) 0

theorem toNat_letter : ∀ i < 26, (letter i).toNat - 97 = i := by
  decide

theorem alphaValue_concat (t : Text) {i : ℕ} (h : i < 26) :
    alphaValue (t ++ [letter i]) = alphaValue t * 26 + i := by
  rw [alphaValue, List.foldl_append, ← alphaValue, List.foldl_cons, List.foldl_nil,
    toNat_letter i h]

theorem alphaValue_alphaStrBase (n : ℕ) : alphaValue (alphaStrBase n) = n := by
  induction n using alphaStrBase.induct with
  | case1 n hpos ih =>
      rw [alphaStrBase, if_pos hpos, alphaValue_concat _ (Nat.mod_lt _ (by decide)), ih]
      omega
  | case2 n hzero =>
      rw [alphaStrBase, if_neg hzero]
      have := alphaValue_concat [] (Nat.mod_lt n (by decide : 0 < 26))
      rw [List.nil_append] at this
      rw [this, alphaValue, List.foldl_nil]
      omega

/-- One more letter. -/
theorem alphaStrBase_concat {n : ℕ} (hn : 0 < n) {i : ℕ} (hi : i < 26) :
    alphaStrBase (n * 26 + i) = alphaStrBase n ++ [letter i] := by
  have hdiv : (n * 26 + i) / 26 = n := by omega
  have hmod : (n * 26 + i) % 26 = i := by omega
  rw [alphaStrBase, hdiv, hmod, if_pos hn]

theorem alphaValue_pad (k : ℕ) (t : Text) :
    alphaValue (List.replicate k 97 ++ t) = alphaValue t := by
  induction k with
  | zero => rfl
  | succ k ih =>
      rw [List.replicate_succ, List.cons_append, ← ih]
      rfl

theorem length_alphaStrBase (k n : ℕ) (h : n < 26 ^ (k + 1)) :
    (alphaStrBase n).length ≤ k + 1 := by
  induction k generalizing n with
  | zero =>
      have hzero : ¬0 < n / 26 := by omega
      rw [alphaStrBase, if_neg hzero]
      exact Nat.le_refl _
  | succ k ih =>
      rw [alphaStrBase]
      split
      · have hdiv : n / 26 < 26 ^ (k + 1) := by
          rw [Nat.div_lt_iff_lt_mul (by decide)]
          exact h
        rw [List.length_append]
        exact Nat.succ_le_succ (ih _ hdiv)
      · exact Nat.succ_le_succ (Nat.zero_le _)

theorem letter_alphaStrBase (n : ℕ) : ∀ c ∈ alphaStrBase n, ∃ i < 26, c = letter i := by
  induction n using alphaStrBase.induct with
  | case1 n hpos ih =>
      intro c hc
      rw [alphaStrBase, if_pos hpos, List.mem_append, List.mem_singleton] at hc
      rcases hc with hc | rfl
      · exact ih c hc
      · exact ⟨_, Nat.mod_lt _ (by decide), rfl⟩
  | case2 n hzero =>
      intro c hc
      rw [alphaStrBase, if_neg hzero, List.mem_singleton] at hc
      exact ⟨_, Nat.mod_lt _ (by decide), hc⟩

/-! ### Producer names -/

/-- The letters that a producer name ends in. -/
def producerSuffix (index : ℕ) : Text :=
  if 25 < index then padStart 7 97 (alphaStrBase (index - 26 + 1))
  else text "oducer" ++ [letter index]

theorem producerName_eq (index : ℕ) :
    producerName index = text "defpr" ++ producerSuffix index := by
  unfold producerName producerSuffix
  split
  · rfl
  · rw [← List.append_assoc]
    rfl

/-- What the first producer name's letters come to. -/
def firstSuffix : ℕ := 4369642810

theorem alphaValue_producerSuffix (index : ℕ) :
    alphaValue (producerSuffix index) = if 25 < index then index - 25 else firstSuffix + index := by
  unfold producerSuffix
  split
  · rw [padStart, alphaValue_pad, alphaValue_alphaStrBase]
    omega
  · rw [alphaValue_concat _ (by omega)]
    rfl

theorem producerName_inj {i j : ℕ} (hi : i < firstSuffix + 25) (hj : j < firstSuffix + 25)
    (h : producerName i = producerName j) : i = j := by
  rw [producerName_eq, producerName_eq] at h
  have hvalue := congrArg alphaValue (List.append_cancel_left h)
  rw [alphaValue_producerSuffix, alphaValue_producerSuffix] at hvalue
  split at hvalue <;> split at hvalue <;> omega

/-- Past the producer whose letters are `oducer` and `a`, its name comes a second time. -/
theorem producerName_again : producerName (firstSuffix + 25) = producerName 0 := by
  have hletters : alphaStrBase firstSuffix = text "oducera" := by
    rw [show firstSuffix = (((((14 * 26 + 3) * 26 + 20) * 26 + 2) * 26 + 4) * 26 + 17) * 26 + 0
      from rfl]
    iterate 6 rw [alphaStrBase_concat (by decide) (by decide)]
    rw [alphaStrBase, if_neg (by decide)]
    rfl
  rw [producerName_eq, producerName_eq]
  refine congrArg _ ?_
  rw [producerSuffix, if_pos (by decide), show firstSuffix + 25 - 26 + 1 = firstSuffix from rfl,
    hletters]
  rfl

/-- The names are distinct just as far as that producer. -/
theorem nodup_producerNames (n : ℕ) :
    ((List.range n).map producerName).Nodup ↔ n ≤ firstSuffix + 25 := by
  constructor
  · intro h
    by_contra hlong
    have hinj := List.inj_on_of_nodup_map h
    have := hinj (List.mem_range.mpr (by omega)) (List.mem_range.mpr (by omega))
      producerName_again
    exact absurd this (by decide)
  · intro hshort
    refine List.Nodup.map_on (fun i hi j hj heq => ?_) List.nodup_range
    rw [List.mem_range] at hi hj
    exact producerName_inj (by omega) (by omega) heq

/-- An account name: 1 to 12 of the characters `.`, `1` to `5` and `a` to `z`, no `.` at the
end. -/
def validAccountName (name : Text) : Prop :=
  name ≠ [] ∧ name.length ≤ 12 ∧ name.getLast? ≠ some 46 ∧
    ∀ c ∈ name, c = 46 ∨ 49 ≤ c ∧ c ≤ 53 ∨ 97 ≤ c ∧ c ≤ 122

theorem letter_bounds : ∀ i < 26, 97 ≤ letter i ∧ letter i ≤ 122 := by
  decide

theorem length_producerSuffix {index : ℕ} (h : index < 26 ^ 7) :
    (producerSuffix index).length = 7 := by
  unfold producerSuffix
  split
  · have hshort := length_alphaStrBase 6 (index - 26 + 1) (by omega)
    rw [padStart, List.length_append, List.length_replicate]
    omega
  · rfl

theorem letter_producerSuffix (index : ℕ) : ∀ c ∈ producerSuffix index, 97 ≤ c ∧ c ≤ 122 := by
  intro c hc
  unfold producerSuffix at hc
  split at hc
  · rcases List.mem_append.mp hc with hpad | hletter
    · rw [(List.mem_replicate.mp hpad).2]
      decide
    · obtain ⟨i, hi, rfl⟩ := letter_alphaStrBase _ c hletter
      exact letter_bounds i hi
  · rcases List.mem_append.mp hc with hfront | hlast
    · have hall : ∀ c ∈ text "oducer", 97 ≤ c ∧ c ≤ 122 := by decide
      exact hall c hfront
    · rw [List.mem_singleton.mp hlast]
      exact letter_bounds index (by omega)

theorem validAccountName_producerName {index : ℕ} (h : index < 26 ^ 7) :
    validAccountName (producerName index) := by
  have hletters : ∀ c ∈ producerName index, 97 ≤ c ∧ c ≤ 122 := by
    intro c hc
    rw [producerName_eq] at hc
    rcases List.mem_append.mp hc with hfront | hsuffix
    · have hall : ∀ c ∈ text "defpr", 97 ≤ c ∧ c ≤ 122 := by decide
      exact hall c hfront
    · exact letter_producerSuffix index c hsuffix
  refine ⟨?_, ?_, fun hdot => ?_, fun c hc => Or.inr (Or.inr (hletters c hc))⟩
  · rw [producerName_eq]
    exact nofun
  · rw [producerName_eq, List.length_append, length_producerSuffix h]
    exact Nat.le_refl _
  · exact absurd (hletters 46 (List.mem_of_getLast? hdot)) (by decide)

end NodeConfig
end WireTools

import Mathlib.Data.List.Basic

/-! # Cutting a list into chunks

`chunks n xs` are the slices of length `n` from the front on, the last one with what is left.
They put together are `xs` (`flatten_chunks`), none is longer than `n` (`length_chunk_le`) and all
but the last are full (`length_chunk`). -/

namespace WireTools

variable {α : Type}

/-- The slices of length `n`, while there is something left. -/
def chunks (n : ℕ) (xs : List α) : List (List α) :=
  (List.range ((xs.length + (n - 1)) / n)).map fun i => (xs.drop (i * n)).take n

theorem flatten_slices (n k : ℕ) (xs : List α) :
    ((List.range k).map fun i => (xs.drop (i * n)).take n).flatten = xs.take (k * n) := by
  induction k with
  | zero => rw [Nat.zero_mul, List.take_zero, List.range_zero, List.map_nil, List.flatten_nil]
  | succ k ih =>
      rw [List.range_succ, List.map_append, List.flatten_append, ih, Nat.succ_mul, List.take_add]
      exact congrArg _ (List.append_nil _)

theorem flatten_chunks {n : ℕ} (hn : 0 < n) (xs : List α) : (chunks n xs).flatten = xs := by
  rw [chunks, flatten_slices]
  refine List.take_of_length_le ?_
  have := Nat.div_add_mod (xs.length + (n - 1)) n
  have := Nat.mod_lt (xs.length + (n - 1)) hn
  rw [Nat.mul_comm]
  omega

theorem length_chunk_le {n : ℕ} {xs c : List α} (h : c ∈ chunks n xs) : c.length ≤ n := by
  obtain ⟨i, _, rfl⟩ := List.mem_map.mp h
  rw [List.length_take]
  exact Nat.min_le_left _ _

/-- A slice with another one behind it is full. -/
theorem length_chunk {n : ℕ} (hn : 0 < n) {xs c : List α} (h : c ∈ (chunks n xs).dropLast) :
    c.length = n := by
  obtain ⟨k, hk⟩ : ∃ k, (xs.length + (n - 1)) / n = k := ⟨_, rfl⟩
  rw [chunks, hk] at h
  cases k with
  | zero => cases h
  | succ k =>
      rw [List.range_succ, List.map_append, List.map_singleton, List.dropLast_concat] at h
      obtain ⟨i, hi, rfl⟩ := List.mem_map.mp h
      have hi : i + 1 ≤ k := List.mem_range.mp hi
      have hmore : (k + 1) * n ≤ xs.length + (n - 1) := hk ▸ Nat.div_mul_le_self _ n
      have hfull : (i + 1) * n ≤ k * n := Nat.mul_le_mul_right n hi
      rw [Nat.succ_mul] at hmore hfull
      rw [List.length_take, List.length_drop]
      omega

end WireTools

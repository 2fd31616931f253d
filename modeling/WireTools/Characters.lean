import WireTools.SurrogatePairs

/-! # Characters of a text

A character is one code unit, or the two of a surrogate pair.

* `characters` cuts a text as the iteration over a string does; `characters_append`: two parts of a
  text are cut as the text is, unless they meet inside of a pair;
* `points` counts the characters; `points_eq_length_iff`: there are as many as units if and only if
  no position is inside of a pair. -/

namespace WireTools.Utf8

def characters : Text → List Text
  | [] => []
  | [c] => [[c]]
  | c :: d :: t =>
      if isHigh c && isLow d then [c, d] :: characters t else [c] :: characters (d :: t)

/-- How many characters a text has. -/
def points (t : Text) : ℕ := (characters t).length

theorem characters_pair {c d : CodeUnit} {t : Text} (h : (isHigh c && isLow d) = true) :
    characters (c :: d :: t) = [c, d] :: characters t := if_pos h

theorem characters_cons {c : CodeUnit} {t : Text} (h : (isHigh c && startsLow t) = false) :
    characters (c :: t) = [c] :: characters t := by
  cases t with
  | nil => rfl
  | cons d t => exact if_neg (Bool.eq_false_iff.mp h)

theorem flatten_characters (t : Text) : (characters t).flatten = t := by
  induction t using characters.induct with
  | case1 => rfl
  | case2 c => rfl
  | case3 c d t h ih => rw [characters_pair h, List.flatten_cons, ih]; rfl
  | case4 c d t h ih =>
      rw [characters_cons (Bool.eq_false_iff.mpr h), List.flatten_cons, ih]
      rfl

/-- Behind the second half of a pair nothing goes on with it. -/
theorem endsHigh_pair {c d : CodeUnit} {t : Text} (h : isLow d = true) :
    endsHigh (c :: d :: t) = endsHigh t := by
  rw [endsHigh_cons, if_neg (List.cons_ne_nil d t), endsHigh_cons]
  split
  · next ht => rw [ht, isHigh_of_isLow h]; rfl
  · rfl

theorem characters_append {a b : Text} (h : (endsHigh a && startsLow b) = false) :
    characters (a ++ b) = characters a ++ characters b := by
  induction a using characters.induct with
  | case1 => rfl
  | case2 c => exact characters_cons h
  | case3 c d t hpair ih =>
      rw [endsHigh_pair (Bool.and_eq_true_iff.mp hpair).2] at h
      calc characters (c :: d :: (t ++ b)) = [c, d] :: characters (t ++ b) :=
            characters_pair hpair
        _ = characters (c :: d :: t) ++ characters b := by
            rw [ih h, characters_pair hpair, List.cons_append]
  | case4 c d t hpair ih =>
      rw [endsHigh_cons, if_neg (List.cons_ne_nil d t)] at h
      have hcons : characters (c :: d :: t) = [c] :: characters (d :: t) :=
        characters_cons (Bool.eq_false_iff.mpr hpair)
      calc characters (c :: d :: (t ++ b)) = [c] :: characters (d :: t ++ b) :=
            characters_cons (Bool.eq_false_iff.mpr hpair)
        _ = characters (c :: d :: t) ++ characters b := by rw [ih h, hcons, List.cons_append]

theorem points_append {a b : Text} (h : (endsHigh a && startsLow b) = false) :
    points (a ++ b) = points a + points b := by
  rw [points, characters_append h, List.length_append]
  rfl

theorem points_le_length (t : Text) : points t ≤ t.length := by
  unfold points
  induction t using characters.induct with
  | case1 => exact Nat.le_refl _
  | case2 c => exact Nat.le_refl _
  | case3 c d t h ih =>
      rw [characters_pair h, List.length_cons, List.length_cons, List.length_cons]
      omega
  | case4 c d t h ih =>
      rw [characters_cons (Bool.eq_false_iff.mpr h), List.length_cons, List.length_cons]
      omega

theorem points_pos {t : Text} (h : t ≠ []) : 0 < points t := by
  rw [points, List.length_pos_iff]
  intro hnil
  apply h
  rw [← flatten_characters t, hnil]
  rfl

theorem points_le_append (a b : Text) : points a ≤ points (a ++ b) := by
  unfold points
  induction a using characters.induct with
  | case1 => exact Nat.zero_le _
  | case2 c => exact points_pos (List.cons_ne_nil c b)
  | case3 c d t h ih =>
      have happend : characters (c :: d :: t ++ b) = [c, d] :: characters (t ++ b) :=
        characters_pair h
      rw [characters_pair h, happend, List.length_cons, List.length_cons]
      exact Nat.succ_le_succ ih
  | case4 c d t h ih =>
      have happend : characters (c :: d :: t ++ b) = [c] :: characters (d :: t ++ b) :=
        characters_cons (Bool.eq_false_iff.mpr h)
      rw [characters_cons (Bool.eq_false_iff.mpr h), happend, List.length_cons, List.length_cons]
      exact Nat.succ_le_succ ih

theorem take_characters_single (c : CodeUnit) (n : ℕ) :
    (characters [c]).take (n + 1) = [[c]] := by
  rw [characters, List.take_succ_cons, List.take_nil]

theorem startsLow_flatten_take (t : Text) (n : ℕ) (h : startsLow t = false) :
    startsLow ((characters t).take n).flatten = false := by
  cases n with
  | zero => rfl
  | succ n =>
      match t, h with
      | [], _ => rfl
      | [c], h =>
          rw [take_characters_single]
          exact h
      | c :: d :: t, h =>
          rw [characters]
          split <;> exact h

/-- The first characters of a text are characters of their own. -/
theorem characters_flatten_take (t : Text) (n : ℕ) :
    characters ((characters t).take n).flatten = (characters t).take n := by
  induction t using characters.induct generalizing n with
  | case1 => rw [characters, List.take_nil]; rfl
  | case2 c =>
      cases n with
      | zero => rfl
      | succ n => rw [take_characters_single]; rfl
  | case3 c d t h ih =>
      cases n with
      | zero => rfl
      | succ n =>
          rw [characters_pair h, List.take_succ_cons, List.flatten_cons]
          exact (characters_pair h).trans (congrArg _ (ih n))
  | case4 c d t h ih =>
      cases n with
      | zero => rfl
      | succ n =>
          rw [Bool.not_eq_true] at h
          have hrest : (isHigh c && startsLow ((characters (d :: t)).take n).flatten) = false := by
            rw [Bool.and_eq_false_iff] at h ⊢
            exact h.imp_right (startsLow_flatten_take (d :: t) n)
          rw [characters_cons h, List.take_succ_cons, List.flatten_cons]
          exact (characters_cons hrest).trans (congrArg _ (ih n))

theorem inside_succ (c : CodeUnit) (t : Text) (i : ℕ) : Inside (c :: t) (i + 1) ↔
    if i = 0 then (isHigh c && startsLow t) = true else Inside t i := by
  rw [Inside, List.take_succ_cons, List.drop_succ_cons, endsHigh_cons]
  cases i with
  | zero => rw [if_pos List.take_zero, if_pos rfl, List.drop_zero]
  | succ i =>
      rw [if_neg (Nat.succ_ne_zero i)]
      cases t with
      | nil => simp [Inside, startsLow]
      | cons d t => rw [if_neg (by simp), Inside]

/-- A pair is one character of two units. -/
theorem points_eq_length_iff (t : Text) : points t = t.length ↔ ∀ i, ¬Inside t i := by
  induction t using characters.induct with
  | case1 => exact iff_of_true rfl fun i => not_inside_of_le (Nat.zero_le i)
  | case2 c =>
      refine iff_of_true rfl fun i => ?_
      cases i with
      | zero => exact not_inside_zero _
      | succ i => exact not_inside_of_le (Nat.succ_le_succ (Nat.zero_le i))
  | case3 c d t h ih =>
      have hle : points t ≤ t.length := points_le_length t
      refine iff_of_false ?_ fun hall => hall 1 h
      rw [points, characters_pair h, List.length_cons, List.length_cons, List.length_cons,
        ← points]
      omega
  | case4 c d t h ih =>
      have hcons : points (c :: d :: t) = points (d :: t) + 1 := by
        rw [points, characters_cons (Bool.eq_false_iff.mpr h), List.length_cons, ← points]
      rw [hcons, List.length_cons, Nat.add_right_cancel_iff, ih]
      constructor
      · intro hall i
        cases i with
        | zero => exact not_inside_zero _
        | succ i =>
            rw [inside_succ]
            split
            · exact h
            · exact hall i
      · intro hall i
        cases i with
        | zero => exact not_inside_zero _
        | succ i =>
            have hnext := hall (i + 2)
            rw [inside_succ, if_neg (Nat.succ_ne_zero i)] at hnext
            exact hnext

end WireTools.Utf8

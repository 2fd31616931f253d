import Mathlib.Data.List.Chain
import WireTools.Utf8

/-! # Surrogate pairs

The editors step through a text by code units, and a character may have two of them.

* `Inside t i`: position `i` stands between the two halves of a pair;
* `wellFormed_append_iff`: a text is well formed if and only if its two parts are, where the cut
  is not inside of a pair;
* `cut_iff`: a text can be cut (`Cut`) if and only if it is well formed and the position is not
  inside of a pair;
* `inside_line`: whether a column is inside of a pair is seen in its line alone. -/

namespace WireTools.Utf8

def isHigh (c : CodeUnit) : Bool := 0xD800 ≤ c.toNat && c.toNat < 0xDC00

def isLow (c : CodeUnit) : Bool := 0xDC00 ≤ c.toNat && c.toNat < 0xE000

theorem isHigh_iff {c : CodeUnit} : isHigh c = true ↔ 0xD800 ≤ c.toNat ∧ c.toNat < 0xDC00 := by
  simp [isHigh]

theorem isLow_iff {c : CodeUnit} : isLow c = true ↔ 0xDC00 ≤ c.toNat ∧ c.toNat < 0xE000 := by
  simp [isLow]

theorem wellFormed_cons {c : CodeUnit} {t : Text} : WellFormed (c :: t) ↔
    if isHigh c then t.head?.any isLow ∧ WellFormed t.tail
    else isLow c = false ∧ WellFormed t := by
  have hhigh : isHigh c = true ↔ _ := isHigh_iff
  have hlow : isLow c = false ↔ ¬(0xDC00 ≤ c.toNat ∧ c.toNat < 0xE000) := by
    rw [← isLow_iff, Bool.not_eq_true]
  rw [WellFormed.eq_def]
  simp only [hhigh, hlow]
  cases t with
  | nil => simp
  | cons d rest => simp [isLow_iff]

/-- Half of a pair stands last. -/
def endsHigh (t : Text) : Bool := t.getLast?.any isHigh

/-- Half of a pair stands first. -/
def startsLow (t : Text) : Bool := t.head?.any isLow

/-- What a unit asks of the one behind it. -/
def Fits (c d : CodeUnit) : Prop := isLow d = isHigh c

theorem isLow_of_isHigh {c : CodeUnit} (h : isHigh c = true) : isLow c = false := by
  rw [isHigh_iff] at h
  rw [← Bool.not_eq_true, isLow_iff]
  omega

theorem isHigh_of_isLow {c : CodeUnit} (h : isLow c = true) : isHigh c = false := by
  rw [isLow_iff] at h
  rw [← Bool.not_eq_true, isHigh_iff]
  omega

theorem endsHigh_cons (c : CodeUnit) (t : Text) :
    endsHigh (c :: t) = if t = [] then isHigh c else endsHigh t := by
  cases t with
  | nil => rfl
  | cons d t => rw [if_neg (List.cons_ne_nil d t), endsHigh, endsHigh, List.getLast?_cons_cons]

theorem isChain_cons_iff {c : CodeUnit} {t : Text} (hc : isHigh c = false) :
    (c :: t).IsChain Fits ↔ startsLow t = false ∧ t.IsChain Fits := by
  rw [List.isChain_cons]
  cases t <;> simp [startsLow, Fits, hc]

/-- A text is well formed if and only if every unit fits the one before it, and no pair is cut at
an end. -/
theorem wellFormed_iff : ∀ {t : Text}, WellFormed t ↔
    startsLow t = false ∧ endsHigh t = false ∧ t.IsChain Fits
  | [] => by simp [WellFormed, startsLow, endsHigh]
  | [c] => by
      rw [wellFormed_cons]
      cases hc : isHigh c <;> simp [startsLow, endsHigh, hc, WellFormed]
  | c :: d :: rest => by
      have hstart : startsLow (c :: d :: rest) = isLow c := rfl
      rw [wellFormed_cons, List.isChain_cons_cons, endsHigh_cons, if_neg (List.cons_ne_nil d rest),
        hstart]
      split
      · next hc =>
          rw [List.tail_cons, wellFormed_iff (t := rest), isLow_of_isHigh hc, Fits, hc]
          show isLow d = true ∧ _ ↔ _
          refine (and_congr_right fun hd => ?_).trans (by tauto : isLow d = true ∧
            (endsHigh (d :: rest) = false ∧ (d :: rest).IsChain Fits) ↔ _)
          rw [endsHigh_cons, isHigh_of_isLow hd, isChain_cons_iff (isHigh_of_isLow hd)]
          split
          · next hrest => simp [hrest, endsHigh]
          · tauto
      · next hc =>
          rw [Bool.not_eq_true] at hc
          have hd : startsLow (d :: rest) = isLow d := rfl
          rw [wellFormed_iff (t := d :: rest), Fits, hc, hd]
          tauto

/-! ### Two parts of a text -/

theorem endsHigh_append {a b : Text} (hb : b ≠ []) : endsHigh (a ++ b) = endsHigh b := by
  rw [endsHigh, endsHigh, List.getLast?_append_of_ne_nil _ hb]

theorem startsLow_append {a b : Text} (ha : a ≠ []) : startsLow (a ++ b) = startsLow a := by
  cases a with
  | nil => exact absurd rfl ha
  | cons c a => rfl

theorem WellFormed.endsHigh {t : Text} (h : WellFormed t) : endsHigh t = false :=
  (wellFormed_iff.mp h).2.1

theorem WellFormed.startsLow {t : Text} (h : WellFormed t) : startsLow t = false :=
  (wellFormed_iff.mp h).1

theorem wellFormed_append_iff {a b : Text} : WellFormed a ∧ WellFormed b ↔
    WellFormed (a ++ b) ∧ (Utf8.endsHigh a && Utf8.startsLow b) = false := by
  by_cases ha : a = []
  · subst ha
    simp [WellFormed, Utf8.endsHigh]
  by_cases hb : b = []
  · subst hb
    simp [WellFormed, Utf8.startsLow]
  obtain ⟨x, hx⟩ := Option.ne_none_iff_exists'.mp (mt List.getLast?_eq_none_iff.mp ha)
  obtain ⟨y, hy⟩ := Option.ne_none_iff_exists'.mp (mt List.head?_eq_none_iff.mp hb)
  have hend : Utf8.endsHigh a = isHigh x := by simp [Utf8.endsHigh, hx]
  have hstart : Utf8.startsLow b = isLow y := by simp [Utf8.startsLow, hy]
  have hjoin : (∀ u ∈ a.getLast?, ∀ v ∈ b.head?, Fits u v) ↔ isLow y = isHigh x := by
    simp [hx, hy, Fits]
  rw [wellFormed_iff, wellFormed_iff, wellFormed_iff, List.isChain_append, endsHigh_append hb,
    startsLow_append ha, hjoin, hend, hstart]
  cases isHigh x with
  | false => cases isLow y <;> (simp; try tauto)
  | true => cases isLow y <;> simp

theorem WellFormed.append {a b : Text} (ha : WellFormed a) (hb : WellFormed b) :
    WellFormed (a ++ b) :=
  (wellFormed_append_iff.mp ⟨ha, hb⟩).1

/-- What has no surrogate may stand before anything. -/
theorem wellFormed_plain_append {a b : Text} (h : ∀ c ∈ a, isHigh c = false ∧ isLow c = false) :
    WellFormed (a ++ b) ↔ WellFormed b := by
  induction a with
  | nil => rfl
  | cons c a ih =>
      rw [List.forall_mem_cons] at h
      rw [List.cons_append, wellFormed_cons, h.1.1, h.1.2, ih h.2]
      simp

/-- Both sides of a position are well formed. -/
def Cut (t : Text) (i : ℕ) : Prop := WellFormed (t.take i) ∧ WellFormed (t.drop i)

/-- A position between the two halves of a pair. -/
def Inside (t : Text) (i : ℕ) : Prop := (endsHigh (t.take i) && startsLow (t.drop i)) = true

instance (t : Text) (i : ℕ) : Decidable (Inside t i) :=
  inferInstanceAs (Decidable ((endsHigh (t.take i) && startsLow (t.drop i)) = true))

theorem cut_iff {t : Text} {i : ℕ} : Cut t i ↔ WellFormed t ∧ ¬Inside t i := by
  have h := wellFormed_append_iff (a := t.take i) (b := t.drop i)
  rw [List.take_append_drop, ← Bool.not_eq_true] at h
  exact h

theorem cut_iff_take {t : Text} {i : ℕ} (h : WellFormed t) : Cut t i ↔ WellFormed (t.take i) := by
  refine ⟨fun hcut => hcut.1, fun htake => cut_iff.mpr ⟨h, ?_⟩⟩
  simp [Inside, htake.endsHigh]

theorem cut_iff_drop {t : Text} {i : ℕ} (h : WellFormed t) : Cut t i ↔ WellFormed (t.drop i) := by
  refine ⟨fun hcut => hcut.2, fun hdrop => cut_iff.mpr ⟨h, ?_⟩⟩
  simp [Inside, hdrop.startsLow]

theorem cut_append {a b : Text} {i : ℕ} (hi : a.length = i) :
    Cut (a ++ b) i ↔ WellFormed a ∧ WellFormed b := by
  rw [Cut, List.take_left' hi, List.drop_left' hi]

theorem not_inside_zero (t : Text) : ¬Inside t 0 := by
  simp [Inside, endsHigh]

theorem not_inside_of_le {t : Text} {i : ℕ} (h : t.length ≤ i) : ¬Inside t i := by
  simp [Inside, startsLow, List.drop_eq_nil_of_le h]

/-- Whether a column is inside of a pair is seen in its line. -/
theorem inside_line {x l y : Text} {column : ℕ} (hx : endsHigh x = false)
    (hy : startsLow y = false) :
    Inside (x ++ (l ++ y)) (x.length + min column l.length) ↔ Inside l column := by
  have htake : (x ++ (l ++ y)).take (x.length + min column l.length) = x ++ l.take column := by
    rw [List.take_length_add_append, List.take_append_of_le_length (Nat.min_le_right _ _),
      List.take_eq_take_min (i := column)]
  have hdrop : (x ++ (l ++ y)).drop (x.length + min column l.length) = l.drop column ++ y := by
    rw [List.drop_length_add_append, List.drop_append_of_le_length (Nat.min_le_right _ _),
      List.drop_eq_drop_min (i := column)]
  have hends : endsHigh (x ++ l.take column) = endsHigh (l.take column) := by
    by_cases h : l.take column = []
    · rw [h, List.append_nil, hx]
      rfl
    · exact endsHigh_append h
  have hstarts : startsLow (l.drop column ++ y) = startsLow (l.drop column) := by
    by_cases h : l.drop column = []
    · rw [h, List.nil_append, hy]
      rfl
    · exact startsLow_append h
  rw [Inside, Inside, htake, hdrop, hends, hstarts]

end WireTools.Utf8

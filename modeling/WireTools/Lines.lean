import Mathlib.Data.List.Basic

/-! # Lines of a growing sequence

A sequence is its complete lines, each with a separator behind it, and a rest without one.

* `completeLines` and `rest` are that decomposition, and `completeLines_eq` says that it is the
  only one; what is appended to a sequence leaves its complete lines in place
  (`completeLines_append`);
* `scan` finds where lines start, left to right and stretch by stretch (`scan_append`), up to an
  end that it leaves out; `scan_extend` moves that end;
* `length_scan` and `getElem?_scan`: with the start of the first line and the end of the sequence
  these are the positions of all lines;
* `slice`: the lines that stand between two starts;
* `splitOn_append_of_concat` and `splitOn_append_of_cons`: what is split at the separators when a
  sequence is put together from two. -/

namespace WireTools.Lines

variable {α : Type} (c : α)

/-- The lines, each with the separator behind it. -/
def closed (ls : List (List α)) : List α :=
  ls.flatMap fun l => l ++ [c]

theorem closed_cons (l : List α) (ls : List (List α)) :
    closed c (l :: ls) = l ++ c :: closed c ls := by
  simp [closed]

theorem closed_append (ls ms : List (List α)) :
    closed c (ls ++ ms) = closed c ls ++ closed c ms :=
  List.flatMap_append

variable [DecidableEq α]

/-- The complete lines of a sequence and what stands behind the last separator. -/
def split : List α → List (List α) × List α
  | [] => ([], [])
  | a :: as =>
      if a = c then ([] :: (split as).1, (split as).2)
      else match (split as).1 with
        | [] => ([], a :: (split as).2)
        | l :: ls => ((a :: l) :: ls, (split as).2)

def completeLines (as : List α) : List (List α) :=
  (split c as).1

def rest (as : List α) : List α :=
  (split c as).2

variable {c}

theorem split_append_line {l : List α} (hl : c ∉ l) (as : List α) :
    split c (l ++ c :: as) = (l :: (split c as).1, (split c as).2) := by
  induction l with
  | nil => rw [List.nil_append, split, if_pos rfl]
  | cons a l ih =>
      rw [List.mem_cons, not_or] at hl
      rw [List.cons_append, split, if_neg fun h => hl.1 h.symm, ih hl.2]

theorem split_of_not_mem {r : List α} (hr : c ∉ r) : split c r = ([], r) := by
  induction r with
  | nil => rfl
  | cons a r ih =>
      rw [List.mem_cons, not_or] at hr
      rw [split, if_neg fun h => hr.1 h.symm, ih hr.2]

/-- There is one way to read a sequence as lines and a rest. -/
theorem split_closed {ls : List (List α)} {r : List α} (hls : ∀ l ∈ ls, c ∉ l) (hr : c ∉ r) :
    split c (closed c ls ++ r) = (ls, r) := by
  induction ls with
  | nil => exact split_of_not_mem hr
  | cons l ls ih =>
      rw [List.forall_mem_cons] at hls
      rw [closed_cons, List.append_assoc, List.cons_append, split_append_line hls.1, ih hls.2]

/-- Every sequence is read in that way. -/
theorem exists_split (as : List α) : ∃ ls r, as = closed c ls ++ r ∧
    (∀ l ∈ ls, c ∉ l) ∧ c ∉ r := by
  induction as with
  | nil => exact ⟨[], [], rfl, nofun, List.not_mem_nil⟩
  | cons a as ih =>
      obtain ⟨ls, r, rfl, hls, hr⟩ := ih
      by_cases ha : a = c
      · subst ha
        exact ⟨[] :: ls, r, rfl, List.forall_mem_cons.mpr ⟨List.not_mem_nil, hls⟩, hr⟩
      · cases ls with
        | nil =>
            refine ⟨[], a :: r, rfl, nofun, ?_⟩
            rw [List.mem_cons, not_or]
            exact ⟨fun h => ha h.symm, hr⟩
        | cons l ls =>
            rw [List.forall_mem_cons] at hls
            refine ⟨(a :: l) :: ls, r, rfl, List.forall_mem_cons.mpr ⟨?_, hls.2⟩, hr⟩
            rw [List.mem_cons, not_or]
            exact ⟨fun h => ha h.symm, hls.1⟩

theorem completeLines_eq {ls : List (List α)} {r : List α} (hls : ∀ l ∈ ls, c ∉ l)
    (hr : c ∉ r) : completeLines c (closed c ls ++ r) = ls := by
  rw [completeLines, split_closed hls hr]

theorem closed_completeLines (as : List α) :
    closed c (completeLines c as) ++ rest c as = as ∧
      (∀ l ∈ completeLines c as, c ∉ l) ∧ c ∉ rest c as := by
  obtain ⟨ls, r, rfl, hls, hr⟩ := exists_split (c := c) as
  rw [completeLines, rest, split_closed hls hr]
  exact ⟨rfl, hls, hr⟩

/-- The separators of a sequence are those of its complete lines. -/
theorem count_closed {ls : List (List α)} {r : List α} (hls : ∀ l ∈ ls, c ∉ l) (hr : c ∉ r) :
    (closed c ls ++ r).count c = ls.length := by
  induction ls with
  | nil => exact List.count_eq_zero.mpr hr
  | cons l ls ih =>
      rw [List.forall_mem_cons] at hls
      rw [closed_cons, List.append_assoc, List.cons_append, List.count_append,
        List.count_eq_zero.mpr hls.1, List.count_cons_self, ih hls.2, List.length_cons]
      exact Nat.zero_add _

theorem rest_append {bs : List α} (hbs : c ∉ bs) (as : List α) :
    rest c (as ++ bs) = rest c as ++ bs := by
  obtain ⟨has, hls, hr⟩ := closed_completeLines (c := c) as
  have hrest : c ∉ rest c as ++ bs := by
    rw [List.mem_append, not_or]
    exact ⟨hr, hbs⟩
  conv_lhs => rw [← has, List.append_assoc]
  exact congrArg Prod.snd (split_closed hls hrest)

/-- Complete lines stay in place. -/
theorem completeLines_append (as bs : List α) :
    completeLines c as <+: completeLines c (as ++ bs) := by
  obtain ⟨ls, r, rfl, hls, hr⟩ := exists_split (c := c) as
  obtain ⟨ms, q, hmq, hms, hq⟩ := exists_split (c := c) (r ++ bs)
  rw [completeLines_eq hls hr, List.append_assoc, hmq, ← List.append_assoc, ← closed_append,
    completeLines_eq (List.forall_mem_append.mpr ⟨hls, hms⟩) hq]
  exact List.prefix_append ls ms

/-! ### Where lines start -/

/-- The position behind every line. -/
def starts (pos : ℕ) : List (List α) → List ℕ
  | [] => []
  | l :: ls => (pos + l.length + 1) :: starts (pos + l.length + 1) ls

variable (c)

/-- The positions behind the separators, before the end `e`. -/
def scan (pos e : ℕ) : List α → List ℕ
  | [] => []
  | a :: as => (if a = c ∧ pos + 1 < e then [pos + 1] else []) ++ scan (pos + 1) e as

variable {c}

theorem scan_cons (pos e : ℕ) (a : α) (as : List α) : scan c pos e (a :: as) =
    (if a = c ∧ pos + 1 < e then [pos + 1] else []) ++ scan c (pos + 1) e as :=
  rfl

theorem scan_append (pos e : ℕ) (as bs : List α) :
    scan c pos e (as ++ bs) = scan c pos e as ++ scan c (pos + as.length) e bs := by
  induction as generalizing pos with
  | nil => rfl
  | cons a as ih =>
      rw [List.cons_append, scan, scan, ih, List.append_assoc, List.length_cons, Nat.add_assoc,
        Nat.add_comm 1]

theorem scan_of_not_mem {as : List α} (h : c ∉ as) (pos e : ℕ) : scan c pos e as = [] := by
  induction as generalizing pos with
  | nil => rfl
  | cons a as ih =>
      rw [List.mem_cons, not_or] at h
      rw [scan, if_neg fun ha => h.1 ha.1.symm, ih h.2]
      rfl

theorem mem_scan {pos e o : ℕ} {as : List α} :
    o ∈ scan c pos e as ↔ o < e ∧ ∃ i, o = pos + i + 1 ∧ as[i]? = some c := by
  induction as generalizing pos with
  | nil => simp [scan]
  | cons a as ih =>
      rw [scan, List.mem_append, ih]
      constructor
      · rintro (hmem | ⟨he, i, rfl, hi⟩)
        · obtain ⟨ha, hmem⟩ := List.mem_ite_nil_right.mp hmem
          obtain rfl := List.mem_singleton.mp hmem
          exact ⟨ha.2, 0, rfl, congrArg some ha.1⟩
        · exact ⟨he, i + 1, by omega, hi⟩
      · rintro ⟨he, i, rfl, hi⟩
        cases i with
        | zero =>
            refine Or.inl (List.mem_ite_nil_right.mpr ⟨⟨Option.some.inj hi, he⟩, ?_⟩)
            exact List.mem_singleton.mpr rfl
        | succ i => exact Or.inr ⟨he, i, by omega, hi⟩

theorem pairwise_scan (pos e : ℕ) (as : List α) :
    (pos :: scan c pos e as).Pairwise (· < ·) := by
  induction as generalizing pos with
  | nil => exact List.pairwise_singleton _ _
  | cons a as ih =>
      refine List.pairwise_cons.mpr ⟨fun o ho => ?_, ?_⟩
      · obtain ⟨-, i, rfl, -⟩ := mem_scan.mp ho
        omega
      · have hrest := ih (pos + 1)
        rw [scan]
        split
        · exact hrest
        · exact (List.pairwise_cons.mp hrest).2

/-- With a later end the position behind a closing separator counts too. -/
theorem scan_extend {pos e : ℕ} (as : List α) (h : pos + as.length < e) :
    scan c pos e as = scan c pos (pos + as.length) as ++
      if as.getLast? = some c then [pos + as.length] else [] := by
  induction as generalizing pos with
  | nil => rfl
  | cons a as ih =>
      rw [List.length_cons] at h
      cases as with
      | nil =>
          simp only [scan, List.length_nil, List.getLast?_singleton, List.length_cons,
            Option.some.injEq, List.append_nil]
          rw [if_neg (by omega : ¬(a = c ∧ pos + 1 < pos + (0 + 1)))]
          by_cases ha : a = c
          · rw [if_pos ha, if_pos ⟨ha, by simpa using h⟩]
            rfl
          · rw [if_neg ha, if_neg fun h => ha h.1]
            rfl
      | cons b as =>
          have hlen : pos + (a :: b :: as).length = pos + 1 + (b :: as).length := by
            simp only [List.length_cons]
            omega
          have ih := @ih (pos + 1) (by omega)
          rw [scan_cons, scan_cons pos (pos + _), ih, List.append_assoc, hlen,
            List.getLast?_cons_cons]
          congr 1
          by_cases ha : a = c
          · rw [if_pos ⟨ha, by omega⟩, if_pos ⟨ha, by rw [List.length_cons]; omega⟩]
          · rw [if_neg fun h => ha h.1, if_neg fun h => ha h.1]

theorem scan_closed {ls : List (List α)} {r : List α} (hls : ∀ l ∈ ls, c ∉ l) (hr : c ∉ r)
    (pos e : ℕ) : scan c pos e (closed c ls ++ r) =
      (starts pos ls).filter fun p => p < e := by
  induction ls generalizing pos with
  | nil => exact scan_of_not_mem hr pos e
  | cons l ls ih =>
      rw [List.forall_mem_cons] at hls
      rw [closed_cons, List.append_assoc, List.cons_append, scan_append, scan_of_not_mem hls.1,
        List.nil_append, scan, ih hls.2, starts, List.filter_cons]
      by_cases hp : pos + l.length + 1 < e
      · rw [if_pos ⟨rfl, hp⟩, if_pos (decide_eq_true hp)]
        rfl
      · rw [if_neg fun h => hp h.2, if_neg (by simpa using hp)]
        rfl

omit [DecidableEq α] in
theorem length_starts (pos : ℕ) (ls : List (List α)) : (starts pos ls).length = ls.length := by
  induction ls generalizing pos with
  | nil => rfl
  | cons l ls ih => rw [starts, List.length_cons, List.length_cons, ih]

omit [DecidableEq α] in
theorem getElem?_starts (pos : ℕ) {ls : List (List α)} {k : ℕ} (h : k < ls.length) :
    (starts pos ls)[k]? = some (pos + (closed c (ls.take (k + 1))).length) := by
  induction ls generalizing pos k with
  | nil => cases h
  | cons l ls ih =>
      rw [starts, List.take_succ_cons, closed_cons]
      cases k with
      | zero => simp [closed, Nat.add_assoc]
      | succ k =>
          rw [List.length_cons] at h
          rw [List.getElem?_cons_succ, ih _ (by omega)]
          simp only [List.length_append, List.length_cons]
          congr 1
          omega

omit [DecidableEq α] in
theorem starts_concat (pos : ℕ) (ls : List (List α)) (l : List α) :
    starts pos (ls ++ [l]) = starts pos ls ++ [pos + (closed c (ls ++ [l])).length] := by
  induction ls generalizing pos with
  | nil => simp [starts, closed, Nat.add_assoc]
  | cons m ls ih =>
      rw [List.cons_append, starts, starts, ih, closed_cons, List.cons_append]
      simp only [List.length_append, List.length_cons]
      congr 3
      omega

omit [DecidableEq α] in
theorem le_of_mem_starts {pos p : ℕ} {ls : List (List α)} (h : p ∈ starts pos ls) :
    p ≤ pos + (closed c ls).length := by
  obtain ⟨k, hk, rfl⟩ := List.mem_iff_getElem.mp h
  have hget := getElem?_starts (c := c) pos (length_starts pos ls ▸ hk)
  rw [List.getElem?_eq_getElem hk, Option.some.injEq] at hget
  rw [hget]
  have hsplit := congrArg List.length (closed_append c (ls.take (k + 1)) (ls.drop (k + 1)))
  rw [List.take_append_drop, List.length_append] at hsplit
  omega

/-- Up to the end of the sequence: all starts but one behind a closing separator. -/
theorem scan_length {ls : List (List α)} {r : List α} (hls : ∀ l ∈ ls, c ∉ l) (hr : c ∉ r) :
    scan c 0 (closed c ls ++ r).length (closed c ls ++ r) =
      starts 0 (if r = [] then ls.dropLast else ls) := by
  rw [scan_closed hls hr]
  split
  · next hnil =>
      subst hnil
      rw [List.append_nil]
      rcases List.eq_nil_or_concat ls with rfl | ⟨init, l, rfl⟩
      · rfl
      · rw [List.concat_eq_append, List.dropLast_concat, starts_concat (c := c),
          List.filter_append, Nat.zero_add, List.filter_eq_self.mpr]
        · simp
        · intro p hp
          have hle := le_of_mem_starts (c := c) hp
          rw [closed_append]
          simp only [List.length_append, closed, List.flatMap_singleton, List.length_singleton,
            decide_eq_true_eq] at hle ⊢
          omega
  · next hne =>
      rw [List.filter_eq_self]
      intro p hp
      have hle := le_of_mem_starts (c := c) hp
      have hpos := List.length_pos_iff.mpr hne
      rw [decide_eq_true_eq, List.length_append]
      omega

omit [DecidableEq α] in
theorem getLast?_closed {ls : List (List α)} {r : List α} (hr : c ∉ r) :
    (closed c ls ++ r).getLast? = some c ↔ r = [] ∧ ls ≠ [] := by
  rcases List.eq_nil_or_concat r with rfl | ⟨r, a, rfl⟩
  · rw [List.append_nil]
    rcases List.eq_nil_or_concat ls with rfl | ⟨init, l, rfl⟩
    · simp [closed]
    · rw [List.concat_eq_append, closed_append]
      simp [closed]
  · have ha : ¬a = c := fun h => hr (by simp [h])
    simp [List.concat_eq_append, ← List.append_assoc, ha]

theorem length_scan (as : List α) : (scan c 0 as.length as).length + 1 =
    (completeLines c as).length + if as.getLast? = some c then 0 else 1 := by
  obtain ⟨ls, r, rfl, hls, hr⟩ := exists_split (c := c) as
  rw [scan_length hls hr, length_starts, completeLines_eq hls hr]
  by_cases hnil : r = []
  · rw [if_pos hnil, List.length_dropLast]
    by_cases hls : ls = []
    · rw [if_neg fun h => ((getLast?_closed hr).mp h).2 hls, hls]
      rfl
    · rw [if_pos ((getLast?_closed hr).mpr ⟨hnil, hls⟩)]
      have hpos := List.length_pos_iff.mpr hls
      omega
  · rw [if_neg hnil, if_neg fun h => hnil ((getLast?_closed hr).mp h).1]

theorem getElem?_scan (as : List α) {i : ℕ} (h : i ≤ (completeLines c as).length) :
    (0 :: scan c 0 as.length as)[i]?.getD as.length =
      (closed c ((completeLines c as).take i)).length := by
  obtain ⟨ls, r, rfl, hls, hr⟩ := exists_split (c := c) as
  rw [completeLines_eq hls hr] at h
  rw [scan_length hls hr, completeLines_eq hls hr]
  cases i with
  | zero => rfl
  | succ k =>
      rw [List.getElem?_cons_succ]
      by_cases hnil : r = []
      · rw [if_pos hnil]
        by_cases hk : k < ls.dropLast.length
        · rw [getElem?_starts (c := c) 0 hk, Option.getD_some, Nat.zero_add]
          rw [List.length_dropLast] at hk
          rw [List.dropLast_eq_take, List.take_take, Nat.min_eq_left (by omega)]
        · rw [List.getElem?_eq_none (by rw [length_starts]; omega), Option.getD_none, hnil]
          rw [List.length_dropLast] at hk
          rw [List.append_nil, List.take_of_length_le (by omega)]
      · rw [if_neg hnil, getElem?_starts (c := c) 0 h, Option.getD_some, Nat.zero_add]

/-! ### Between two starts -/

omit [DecidableEq α] in
/-- Lines `i` to `i + n` stand between the positions where they start. -/
theorem slice (ls : List (List α)) (r : List α) (i n : ℕ) :
    ((closed c ls ++ r).drop (closed c (ls.take i)).length).take
      ((closed c (ls.take (i + n))).length - (closed c (ls.take i)).length) =
      closed c ((ls.drop i).take n) := by
  have htake : ls.take (i + n) = ls.take i ++ (ls.drop i).take n := List.take_add
  have hls : closed c ls = closed c (ls.take i) ++ (closed c ((ls.drop i).take n) ++
      closed c ((ls.drop i).drop n)) := by
    rw [← closed_append, ← closed_append, List.take_append_drop, List.take_append_drop]
  rw [htake, closed_append, List.length_append, Nat.add_sub_cancel_left, hls, List.append_assoc,
    List.drop_left, List.append_assoc, List.take_left]

/-- Without the closing separator, the lines are what stands between separators. -/
theorem splitOn_closed {ls : List (List α)} (hls : ∀ l ∈ ls, c ∉ l) (hne : ls ≠ []) :
    (closed c ls).getLast? = some c ∧ (closed c ls).dropLast.splitOn c = ls := by
  have hclosed : closed c ls = [c].intercalate ls ++ [c] := by
    clear hls
    induction ls with
    | nil => exact absurd rfl hne
    | cons l ls ih =>
        cases ls with
        | nil => simp [closed]
        | cons m ls =>
            rw [closed_cons, ih (List.cons_ne_nil m ls), List.intercalate_cons_cons]
            simp only [List.append_assoc, List.cons_append, List.nil_append]
  rw [hclosed]
  exact ⟨by simp, by rw [List.dropLast_concat, List.splitOn_intercalate c hls hne]⟩

/-! ### What stands between separators -/

/-- The complete lines, and what the rest is split into. -/
theorem splitOn_closed_append {ls : List (List α)} (hls : ∀ l ∈ ls, c ∉ l) (as : List α) :
    (closed c ls ++ as).splitOn c = ls ++ as.splitOn c := by
  induction ls with
  | nil => rfl
  | cons l ls ih =>
      rw [List.forall_mem_cons] at hls
      rw [closed_cons, List.append_assoc, List.cons_append, List.splitOn_append_cons_self,
        List.splitOn_eq_singleton hls.1, ih hls.2]
      rfl

theorem closed_splitOn (as : List α) : closed c (as.splitOn c) = as ++ [c] := by
  obtain ⟨ls, r, rfl, hls, hr⟩ := exists_split (c := c) as
  rw [splitOn_closed_append hls, List.splitOn_eq_singleton hr, closed_append, List.append_assoc,
    closed_cons]
  rfl

theorem not_mem_of_mem_splitOn {as l : List α} (h : l ∈ as.splitOn c) : c ∉ l := by
  obtain ⟨ls, r, rfl, hls, hr⟩ := exists_split (c := c) as
  rw [splitOn_closed_append hls, List.splitOn_eq_singleton hr, List.mem_append,
    List.mem_singleton] at h
  rcases h with hmem | rfl
  · exact hls l hmem
  · exact hr

/-- More behind a sequence goes on with its last piece. -/
theorem splitOn_append_of_concat {as l : List α} {ls : List (List α)}
    (h : as.splitOn c = ls ++ [l]) (bs : List α) :
    (as ++ bs).splitOn c = ls ++ (l ++ bs).splitOn c := by
  obtain ⟨ms, r, rfl, hms, hr⟩ := exists_split (c := c) as
  rw [splitOn_closed_append hms, List.splitOn_eq_singleton hr] at h
  obtain ⟨rfl, hlast⟩ := List.append_inj' h rfl
  obtain rfl := List.singleton_inj.mp hlast
  rw [List.append_assoc, splitOn_closed_append hms]

/-- More in front of a sequence ends with its first piece. -/
theorem splitOn_append_of_cons {bs l : List α} {ls : List (List α)}
    (h : bs.splitOn c = l :: ls) (as : List α) :
    (as ++ bs).splitOn c = (as ++ l).splitOn c ++ ls := by
  obtain ⟨ms, r, rfl, hms, hr⟩ := exists_split (c := c) bs
  rw [splitOn_closed_append hms, List.splitOn_eq_singleton hr] at h
  cases ms with
  | nil =>
      obtain ⟨rfl, rfl⟩ := List.cons.inj h
      exact (List.append_nil _).symm
  | cons m ms =>
      rw [List.forall_mem_cons] at hms
      obtain ⟨rfl, rfl⟩ := List.cons.inj h
      rw [closed_cons, List.append_assoc, List.cons_append, ← List.append_assoc,
        List.splitOn_append_cons_self, splitOn_closed_append hms.2, List.splitOn_eq_singleton hr]
      rfl

end WireTools.Lines

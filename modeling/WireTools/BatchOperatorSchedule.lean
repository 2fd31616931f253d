import Mathlib.Algebra.Group.Nat.Even
import Mathlib.Algebra.Order.Ring.Rat
import Mathlib.Data.List.Perm.Basic
import Mathlib.Data.Rat.Lemmas
import Mathlib.Order.Bounds.Basic
import WireTools.Chunks
import WireTools.JsonPrint

/-! # The batch operators' schedule

The depot schedules batch operators in groups of one size, a group for each epoch of a sliding
window.  The shape is given, or derived from the roster.

* `resolves_iff`: which options have a schedule (`resolve_eq_ok`: and which one);
* `resolve_again`: the resolved shape, given explicitly, is resolved to itself;
* `partition_seats`: the outpost's roster has the schedule's groups, all of them full, with each
  scheduled operator in one seat. -/

namespace WireTools

namespace BatchOperatorSchedule

def DefaultBatchOperatorGroupCount : ℕ := 3

def MinimumOperatorsPerEpoch : ℤ := 1

def MaxOperatorsPerEpoch : ℕ := 7

def MaxBatchOperatorGroups : ℕ := 8

def MaxBatchOperatorRoster : ℕ := 26

/-- A number of the language. -/
inductive Number where
  | finite (q : ℚ)
  | infinite (negative : Bool)
  | nan
deriving DecidableEq

/-- What is wrong with the options, and where; the message is none where the schema library
refuses a value itself. -/
structure Issue where
  path : Text
  message : Option Text
deriving DecidableEq

structure BatchOperatorScheduleOptions where
  batchOperatorCount : Number
  operatorsPerEpoch : Option Number
  batchOpGroups : Option Number

structure Schedule where
  operatorsPerEpoch : ℕ
  batchOpGroups : ℕ
  batchOperatorMinimumActive : ℕ
deriving DecidableEq

/-! ### Resolving -/

/-- The issues of a count with a ceiling. -/
def positiveCountSchema (path field : Text) (ceiling : ℕ) (exceeds : Text) :
    Number → List Issue
  | .finite q =>
      (if q.isInt ∧ 0 < q then []
        else [⟨path, some (field ++ text " must be a positive whole number")⟩]) ++
      if q ≤ ceiling then [] else [⟨path, some exceeds⟩]
  | .infinite _ | .nan => [⟨path, none⟩]

def batchOperatorCountIssues : Number → List Issue :=
  positiveCountSchema (text "batchOperatorCount") (text "batch-operator-count")
    MaxBatchOperatorRoster
    (text "batch-operator-count exceeds the harness ceiling of " ++
      natText MaxBatchOperatorRoster ++
      text " — operator accounts are named batchop.<letter> off a " ++
      natText MaxBatchOperatorRoster ++
      text "-letter alphabet, so a larger roster would reuse identities")

def operatorsPerEpochIssues : Number → List Issue :=
  positiveCountSchema (text "operatorsPerEpoch") (text "operators-per-epoch") MaxOperatorsPerEpoch
    (text "operators-per-epoch exceeds the depot ceiling of " ++ natText MaxOperatorsPerEpoch)

def batchOpGroupsIssues : Number → List Issue :=
  positiveCountSchema (text "batchOpGroups") (text "batch-op-groups") MaxBatchOperatorGroups
    (text "batch-op-groups exceeds the depot ceiling of " ++ natText MaxBatchOperatorGroups)

/-- The issues of the single fields. -/
def optionsIssues (options : BatchOperatorScheduleOptions) : List Issue :=
  batchOperatorCountIssues options.batchOperatorCount ++
    options.operatorsPerEpoch.elim [] operatorsPerEpochIssues ++
    options.batchOpGroups.elim [] batchOpGroupsIssues

/-- A count that has no issues. -/
def Number.count : Number → ℕ
  | .finite q => q.num.toNat
  | .infinite _ | .nan => 0

def deriveOperatorsPerEpoch (batchOperatorCount batchOpGroups : ℕ) : ℕ :=
  let fits := min (batchOperatorCount / batchOpGroups) MaxOperatorsPerEpoch
  let odd : ℤ := if fits % 2 = 0 then fits - 1 else fits
  (max MinimumOperatorsPerEpoch odd).toNat

/-- The issues of a shape, of size `size` and count `groups`, for a roster. -/
def shapeIssues (batchOperatorCount size groups : ℕ) (isDerived : Bool) : List Issue :=
  let total := size * groups
  (if size % 2 ≠ 1 then
    [⟨text "operatorsPerEpoch",
      some (text "batch-op group SIZE must be ODD — got operators-per-epoch " ++ natText size ++
        text (" (an even group has no strict majority, so the depot's path-2 consensus " ++
          "threshold is undefined)"))⟩]
  else []) ++
  (if isDerived ∧ total ≠ batchOperatorCount then
    [⟨text "batchOperatorCount",
      some (text "batch-operator-count must be ODD and divisible by " ++
        natText DefaultBatchOperatorGroupCount ++ text " (3, 9, 15, 21) — got " ++
        natText batchOperatorCount ++
        text "; pass --operators-per-epoch OR --batch-op-groups to state a shape explicitly")⟩]
  else if total > batchOperatorCount then
    [⟨text "batchOperatorCount",
      some (text "batch-operator group shape needs " ++ natText total ++
        text " ACTIVE batch operators (operators-per-epoch " ++ natText size ++
        text " × batch-op-groups " ++ natText groups ++ text ") but batch-operator-count is " ++
        natText batchOperatorCount ++
        text (" — raise --batch-operator-count or lower --operators-per-epoch / " ++
          "--batch-op-groups"))⟩]
  else [])

/-- The schedule of options, or their issues. -/
def resolve (options : BatchOperatorScheduleOptions) : Except (List Issue) Schedule :=
  let issues := optionsIssues options
  if issues ≠ [] then .error issues
  else
    let batchOperatorCount := options.batchOperatorCount.count
    let groups := (options.batchOpGroups.map Number.count).getD DefaultBatchOperatorGroupCount
    let isDerived := options.operatorsPerEpoch.isNone && options.batchOpGroups.isNone
    let size := (options.operatorsPerEpoch.map Number.count).getD
      (deriveOperatorsPerEpoch batchOperatorCount groups)
    let issues := shapeIssues batchOperatorCount size groups isDerived
    if issues ≠ [] then .error issues else .ok ⟨size, groups, size * groups⟩

/-- The text of the error. -/
def message (issues : List Issue) : Option Text := do
  let lines ← issues.mapM fun issue => issue.message.map fun message =>
    (if issue.path = [] then text "(root)" else issue.path) ++ text ": " ++ message
  some (text "batch-operator schedule is invalid — " ++ join (text "; ") lines)

/-! ### Which options have a schedule -/

/-- The number is a positive whole one up to a ceiling. -/
def Whole (ceiling n : ℕ) (v : Number) : Prop := v = .finite n ∧ 0 < n ∧ n ≤ ceiling

theorem Whole.count {ceiling n : ℕ} {v : Number} (h : Whole ceiling n v) : v.count = n := by
  rw [h.1]
  show ((n : ℚ).num).toNat = n
  rw [Rat.num_natCast, Int.toNat_natCast]

theorem positiveCountSchema_eq_nil {path field exceeds : Text} {ceiling : ℕ} {v : Number} :
    positiveCountSchema path field ceiling exceeds v = [] ↔ ∃ n, Whole ceiling n v := by
  cases v with
  | finite q =>
      unfold positiveCountSchema Whole
      rw [List.append_eq_nil_iff, ite_eq_left_iff, ite_eq_left_iff]
      constructor
      · rintro ⟨hwhole, hle⟩
        have hwhole : q.isInt ∧ 0 < q := by
          by_contra h
          exact List.cons_ne_nil _ _ (hwhole h)
        have hle : q ≤ ceiling := by
          by_contra h
          exact List.cons_ne_nil _ _ (hle h)
        have hnum : (q.num : ℚ) = q := Rat.coe_int_num_of_den_eq_one (by
          simpa [Rat.isInt] using hwhole.1)
        have hpos : 0 < q.num := Rat.num_pos.mpr hwhole.2
        obtain ⟨n, hn⟩ := Int.eq_ofNat_of_zero_le hpos.le
        have hq : q = n := by
          rw [← hnum, hn]
          rfl
        refine ⟨n, by rw [hq], by omega, ?_⟩
        rw [hq] at hle
        exact_mod_cast hle
      · rintro ⟨n, hq, hpos, hle⟩
        obtain rfl := Number.finite.inj hq
        refine ⟨fun h => absurd ⟨by simp [Rat.isInt], by exact_mod_cast hpos⟩ h,
          fun h => absurd (by exact_mod_cast hle) h⟩
  | infinite negative => simp [positiveCountSchema, Whole]
  | nan => simp [positiveCountSchema, Whole]

/-- The derived size is odd and no larger than a group may be.  It is the largest such size
whose groups fit the roster, when there is one at all. -/
theorem deriveOperatorsPerEpoch_spec (count : ℕ) {groups : ℕ} (hgroups : 0 < groups) :
    Odd (deriveOperatorsPerEpoch count groups) ∧
      deriveOperatorsPerEpoch count groups ≤ MaxOperatorsPerEpoch ∧
      ∀ k, Odd k → k ≤ MaxOperatorsPerEpoch → k * groups ≤ count →
        k ≤ deriveOperatorsPerEpoch count groups ∧
          deriveOperatorsPerEpoch count groups * groups ≤ count := by
  have hfits : ∀ k, k * groups ≤ count ↔ k ≤ count / groups :=
    fun k => (Nat.le_div_iff_mul_le hgroups).symm
  obtain ⟨odd, hodd⟩ : ∃ odd, deriveOperatorsPerEpoch count groups = odd := ⟨_, rfl⟩
  have hsize : odd % 2 = 1 ∧ odd ≤ MaxOperatorsPerEpoch ∧ (odd = 1 ∨ odd ≤ count / groups) ∧
      (odd = MaxOperatorsPerEpoch ∨ count / groups ≤ odd + 1) := by
    unfold deriveOperatorsPerEpoch at hodd
    generalize count / groups = fits at hodd ⊢
    unfold MinimumOperatorsPerEpoch MaxOperatorsPerEpoch at *
    dsimp only at hodd
    split_ifs at hodd <;> omega
  obtain ⟨hparity, hmax, hfit, hnext⟩ := hsize
  rw [hodd]
  refine ⟨Nat.odd_iff.mpr hparity, hmax, fun k hk hkmax hkfits => ?_⟩
  rw [hfits] at hkfits ⊢
  rw [Nat.odd_iff] at hk
  omega

/-- The size and the count of groups that options ask for. -/
structure Shape (options : BatchOperatorScheduleOptions) (count : ℕ) (s : Schedule) : Prop where
  groups : (options.batchOpGroups = none ∧ s.batchOpGroups = DefaultBatchOperatorGroupCount) ∨
    options.batchOpGroups = some (.finite s.batchOpGroups)
  groups_pos : 0 < s.batchOpGroups
  groups_le : s.batchOpGroups ≤ MaxBatchOperatorGroups
  size_odd : Odd s.operatorsPerEpoch
  size_le : s.operatorsPerEpoch ≤ MaxOperatorsPerEpoch
  total : s.batchOperatorMinimumActive = s.operatorsPerEpoch * s.batchOpGroups
  fits : s.batchOperatorMinimumActive ≤ count
  /-- A size that is not given is the largest one whose groups fit the roster, and without a
  count of groups the roster is full. -/
  size : options.operatorsPerEpoch = some (.finite s.operatorsPerEpoch) ∨
    (options.operatorsPerEpoch = none ∧
      (∀ k, Odd k → k ≤ MaxOperatorsPerEpoch → k * s.batchOpGroups ≤ count →
        k ≤ s.operatorsPerEpoch) ∧
      (options.batchOpGroups = none → s.batchOperatorMinimumActive = count))

theorem Shape.size_pos {options : BatchOperatorScheduleOptions} {count : ℕ} {s : Schedule}
    (h : Shape options count s) : 0 < s.operatorsPerEpoch := by
  have hodd := Nat.odd_iff.mp h.size_odd
  omega

theorem optionsIssues_eq_nil {options : BatchOperatorScheduleOptions} :
    optionsIssues options = [] ↔
      (∃ n, Whole MaxBatchOperatorRoster n options.batchOperatorCount) ∧
      (∀ v ∈ options.operatorsPerEpoch, ∃ n, Whole MaxOperatorsPerEpoch n v) ∧
      ∀ v ∈ options.batchOpGroups, ∃ n, Whole MaxBatchOperatorGroups n v := by
  have helim : ∀ {o : Option Number} {issues : Number → List Issue} {ceiling : ℕ},
      (∀ v, issues v = [] ↔ ∃ n, Whole ceiling n v) →
        (o.elim [] issues = [] ↔ ∀ v ∈ o, ∃ n, Whole ceiling n v) := by
    intro o issues ceiling h
    cases o with
    | none => simp
    | some v => simp [h v]
  unfold optionsIssues
  rw [List.append_eq_nil_iff, List.append_eq_nil_iff, and_assoc]
  exact and_congr positiveCountSchema_eq_nil (and_congr
    (helim fun _ => positiveCountSchema_eq_nil) (helim fun _ => positiveCountSchema_eq_nil))

theorem shapeIssues_eq_nil {count size groups : ℕ} {isDerived : Bool} :
    shapeIssues count size groups isDerived = [] ↔
      Odd size ∧ size * groups ≤ count ∧ (isDerived = true → size * groups = count) := by
  unfold shapeIssues
  rw [Nat.odd_iff]
  dsimp only
  split_ifs with heven hderived hmore hderived hmore
  · simp [heven]
  · simp [heven]
  · simp [heven]
  · simp only [List.nil_append, List.cons_ne_nil, false_iff, not_and]
    intro _ _ hexact
    exact hderived.2 (hexact hderived.1)
  · simp only [List.nil_append, List.cons_ne_nil, false_iff, not_and]
    intro _ hle
    exact absurd hle (not_le.mpr hmore)
  · simp only [List.append_nil, true_iff]
    refine ⟨not_not.mp heven, not_lt.mp hmore, fun h => ?_⟩
    by_contra hne
    exact hderived ⟨h, hne⟩

/-- An optional count without issues is given or has its default. -/
theorem count_getD {o : Option Number} {ceiling : ℕ} (h : ∀ v ∈ o, ∃ n, Whole ceiling n v)
    (d : ℕ) : (o = none ∧ (o.map Number.count).getD d = d) ∨
      ∃ n : ℕ, o = some (.finite n) ∧ 0 < n ∧ n ≤ ceiling ∧
        (o.map Number.count).getD d = n := by
  cases o with
  | none => exact Or.inl ⟨rfl, rfl⟩
  | some v =>
      obtain ⟨n, hn⟩ := h v rfl
      refine Or.inr ⟨n, congrArg some hn.1, hn.2.1, hn.2.2, ?_⟩
      show v.count = n
      exact hn.count

/-- A derived size is the one of a shape. -/
theorem Shape.deriveOperatorsPerEpoch_eq {options : BatchOperatorScheduleOptions} {count : ℕ}
    {s : Schedule} (h : Shape options count s) (hnone : options.operatorsPerEpoch = none) :
    deriveOperatorsPerEpoch count s.batchOpGroups = s.operatorsPerEpoch := by
  obtain ⟨hodd, hle, hgreatest⟩ := deriveOperatorsPerEpoch_spec count h.groups_pos
  have hfits := h.fits
  rw [h.total] at hfits
  obtain ⟨hsize, hderived⟩ := hgreatest _ h.size_odd h.size_le hfits
  rcases h.size with hgiven | ⟨-, hmax, -⟩
  · rw [hnone] at hgiven
    cases hgiven
  · exact le_antisymm (hmax _ hodd hle hderived) hsize

/-- The options that have a schedule, and the schedule that they have. -/
theorem resolve_eq_ok {options : BatchOperatorScheduleOptions} {s : Schedule} :
    resolve options = .ok s ↔
      ∃ count, Whole MaxBatchOperatorRoster count options.batchOperatorCount ∧
        Shape options count s := by
  unfold resolve
  dsimp only
  constructor
  · intro h
    split_ifs at h with hissues hshape
    obtain ⟨⟨count, hcount⟩, hsizes, hgroups⟩ := optionsIssues_eq_nil.mp (not_not.mp hissues)
    rw [not_not, hcount.count, shapeIssues_eq_nil] at hshape
    obtain ⟨hodd, hfits, hderived⟩ := hshape
    rw [hcount.count, Except.ok.injEq] at h
    refine ⟨count, hcount, ?_⟩
    subst h
    have hpos : 0 < (options.batchOpGroups.map Number.count).getD
        DefaultBatchOperatorGroupCount := by
      rcases count_getD hgroups DefaultBatchOperatorGroupCount with ⟨-, h⟩ | ⟨n, -, hn, -, h⟩
      · rw [h]
        decide
      · rwa [h]
    obtain ⟨hdodd, hdle, hdmax⟩ := deriveOperatorsPerEpoch_spec count hpos
    refine ⟨?_, hpos, ?_, hodd, ?_, rfl, hfits, ?_⟩
    · rcases count_getD hgroups DefaultBatchOperatorGroupCount with ⟨hnone, h⟩ | ⟨n, hsome, -, -, h⟩
      · exact Or.inl ⟨hnone, h⟩
      · exact Or.inr (by rw [h]; exact hsome)
    · rcases count_getD hgroups DefaultBatchOperatorGroupCount with ⟨-, h⟩ | ⟨n, -, -, hn, h⟩
      · exact h.le.trans (by decide)
      · exact h.le.trans hn
    · rcases count_getD hsizes _ with ⟨-, h⟩ | ⟨n, -, -, hn, h⟩
      · exact h.le.trans hdle
      · exact h.le.trans hn
    · rcases count_getD hsizes _ with ⟨hnone, h⟩ | ⟨n, hsome, -, -, h⟩
      · refine Or.inr ⟨hnone, fun k hk hle hkfits => ?_, fun hgroup => ?_⟩
        · rw [h]
          exact (hdmax k hk hle hkfits).1
        · apply hderived
          rw [hnone, hgroup]
          rfl
      · exact Or.inl (by rw [h]; exact hsome)
  · rintro ⟨count, hcount, hshape⟩
    have hgroups : (options.batchOpGroups.map Number.count).getD
        DefaultBatchOperatorGroupCount = s.batchOpGroups := by
      rcases hshape.groups with ⟨hnone, h⟩ | hsome
      · rw [hnone, h]
        rfl
      · rw [hsome]
        exact Whole.count ⟨rfl, hshape.groups_pos, hshape.groups_le⟩
    have hissues : optionsIssues options = [] := by
      rw [optionsIssues_eq_nil]
      refine ⟨⟨count, hcount⟩, fun v hv => ?_, fun v hv => ?_⟩
      · rcases hshape.size with hsome | ⟨hnone, -⟩
        · rw [hsome] at hv
          exact ⟨_, (Option.some.inj hv).symm, hshape.size_pos, hshape.size_le⟩
        · rw [hnone] at hv
          cases hv
      · rcases hshape.groups with ⟨hnone, -⟩ | hsome
        · rw [hnone] at hv
          cases hv
        · rw [hsome] at hv
          exact ⟨_, (Option.some.inj hv).symm, hshape.groups_pos, hshape.groups_le⟩
    have hsize : (options.operatorsPerEpoch.map Number.count).getD
        (deriveOperatorsPerEpoch count s.batchOpGroups) = s.operatorsPerEpoch := by
      rcases hshape.size with hsome | ⟨hnone, -⟩
      · rw [hsome]
        exact Whole.count ⟨rfl, hshape.size_pos, hshape.size_le⟩
      · rw [hnone]
        exact hshape.deriveOperatorsPerEpoch_eq hnone
    have hfits := hshape.fits
    rw [hshape.total] at hfits
    rw [if_neg (not_not.mpr hissues), hcount.count, hgroups, hsize, if_neg (not_not.mpr ?_),
      ← hshape.total]
    rw [shapeIssues_eq_nil]
    refine ⟨hshape.size_odd, hfits, fun hderived => ?_⟩
    rw [Bool.and_eq_true, Option.isNone_iff_eq_none, Option.isNone_iff_eq_none] at hderived
    rcases hshape.size with hsome | ⟨-, -, hfull⟩
    · rw [hderived.1] at hsome
      cases hsome
    · rw [← hshape.total]
      exact hfull hderived.2

/-- The resolved shape, given explicitly, is resolved to itself. -/
theorem resolve_again {options : BatchOperatorScheduleOptions} {s : Schedule}
    (h : resolve options = .ok s) :
    resolve ⟨options.batchOperatorCount, some (.finite s.operatorsPerEpoch),
      some (.finite s.batchOpGroups)⟩ = .ok s := by
  obtain ⟨count, hcount, hshape⟩ := resolve_eq_ok.mp h
  exact resolve_eq_ok.mpr ⟨count, hcount, Or.inr rfl, hshape.groups_pos, hshape.groups_le,
    hshape.size_odd, hshape.size_le, hshape.total, hshape.fits, Or.inl rfl⟩

/-- The options ask for a shape that a roster fills. -/
def Accepts (count : ℕ) : Option Number → Option Number → Prop
  | none, none => count ∈ [3, 9, 15, 21]
  | none, some batchOpGroups => ∃ groups, Whole MaxBatchOperatorGroups groups batchOpGroups ∧
      groups ≤ count
  | some operatorsPerEpoch, none => ∃ size, Whole MaxOperatorsPerEpoch size operatorsPerEpoch ∧
      Odd size ∧ size * DefaultBatchOperatorGroupCount ≤ count
  | some operatorsPerEpoch, some batchOpGroups =>
      ∃ size groups, Whole MaxOperatorsPerEpoch size operatorsPerEpoch ∧
        Whole MaxBatchOperatorGroups groups batchOpGroups ∧ Odd size ∧ size * groups ≤ count

/-- A shape whose size is given. -/
theorem shape_given {options : BatchOperatorScheduleOptions} {count size groups : ℕ}
    (hgroups : (options.batchOpGroups = none ∧ groups = DefaultBatchOperatorGroupCount) ∨
      options.batchOpGroups = some (.finite groups))
    (hpos : 0 < groups) (hle : groups ≤ MaxBatchOperatorGroups)
    (hsize : options.operatorsPerEpoch = some (.finite size)) (hmax : size ≤ MaxOperatorsPerEpoch)
    (hodd : Odd size) (hfits : size * groups ≤ count) :
    Shape options count ⟨size, groups, size * groups⟩ :=
  ⟨hgroups, hpos, hle, hodd, hmax, rfl, hfits, Or.inl hsize⟩

/-- Options have a schedule exactly when the roster has at most 26 operators and fills the shape
they ask for; a roster without a shape is 3, 9, 15 or 21. -/
theorem resolves_iff {options : BatchOperatorScheduleOptions} :
    (∃ s, resolve options = .ok s) ↔
      ∃ count, Whole MaxBatchOperatorRoster count options.batchOperatorCount ∧
        Accepts count options.operatorsPerEpoch options.batchOpGroups := by
  obtain ⟨roster, operatorsPerEpoch, batchOpGroups⟩ := options
  simp only [resolve_eq_ok]
  rw [exists_comm]
  simp only [exists_and_left]
  refine exists_congr fun count => and_congr_right fun hcount => ?_
  constructor
  · rintro ⟨s, h⟩
    have hodd := Nat.odd_iff.mp h.size_odd
    have hmax := h.size_le
    have hfits := h.fits
    rw [h.total] at hfits
    cases operatorsPerEpoch with
    | none =>
        cases batchOpGroups with
        | none =>
            rcases h.size with hsome | ⟨-, -, hfull⟩
            · cases hsome
            · rcases h.groups with ⟨-, hthree⟩ | hsome
              · have hcount := hfull rfl
                rw [h.total, hthree] at hcount
                unfold MaxOperatorsPerEpoch at hmax
                unfold DefaultBatchOperatorGroupCount at hcount
                show count ∈ [3, 9, 15, 21]
                simp only [List.mem_cons, List.not_mem_nil, or_false]
                omega
              · cases hsome
        | some v =>
            rcases h.groups with ⟨hnone, -⟩ | hsome
            · cases hnone
            · refine ⟨s.batchOpGroups, ⟨Option.some.inj hsome, h.groups_pos, h.groups_le⟩, ?_⟩
              exact le_trans (Nat.le_mul_of_pos_left _ h.size_pos) hfits
    | some v =>
        rcases h.size with hsize | ⟨hnone, -⟩
        · have hv : Whole MaxOperatorsPerEpoch s.operatorsPerEpoch v :=
            ⟨Option.some.inj hsize, h.size_pos, h.size_le⟩
          cases batchOpGroups with
          | none =>
              rcases h.groups with ⟨-, hthree⟩ | hsome
              · rw [hthree] at hfits
                exact ⟨_, hv, h.size_odd, hfits⟩
              · cases hsome
          | some w =>
              rcases h.groups with ⟨hnone, -⟩ | hsome
              · cases hnone
              · exact ⟨_, _, hv, ⟨Option.some.inj hsome, h.groups_pos, h.groups_le⟩,
                  h.size_odd, hfits⟩
        · cases hnone
  · intro h
    cases operatorsPerEpoch with
    | none =>
        cases batchOpGroups with
        | none =>
            refine ⟨⟨count / 3, 3, count⟩, Or.inl ⟨rfl, rfl⟩, Nat.succ_pos 2,
              show 3 ≤ MaxBatchOperatorGroups by decide, ?_, ?_, ?_, le_rfl,
              Or.inr ⟨rfl, fun k _ _ hk => ?_, fun _ => rfl⟩⟩
            all_goals
              unfold Accepts at h
              simp only [List.mem_cons, List.not_mem_nil, or_false] at h
            · rw [Nat.odd_iff]
              dsimp only
              omega
            · unfold MaxOperatorsPerEpoch
              dsimp only
              omega
            · dsimp only
              omega
            · dsimp only at hk ⊢
              omega
        | some v =>
            obtain ⟨groups, hv, hle⟩ := h
            obtain ⟨hodd, hmax, hgreatest⟩ := deriveOperatorsPerEpoch_spec count hv.2.1
            obtain ⟨-, hfits⟩ := hgreatest 1 odd_one (by decide) (by rwa [Nat.one_mul])
            exact ⟨⟨deriveOperatorsPerEpoch count groups, groups, _⟩,
              Or.inr (congrArg some hv.1), hv.2.1, hv.2.2, hodd, hmax, rfl, hfits,
              Or.inr ⟨rfl, fun k hk hkmax hkfits => (hgreatest k hk hkmax hkfits).1,
                fun hnone => by cases hnone⟩⟩
    | some v =>
        cases batchOpGroups with
        | none =>
            obtain ⟨size, hv, hodd, hfits⟩ := h
            exact ⟨_, shape_given (Or.inl ⟨rfl, rfl⟩) (by decide) (by decide)
              (congrArg some hv.1) hv.2.2 hodd hfits⟩
        | some w =>
            obtain ⟨size, groups, hv, hw, hodd, hfits⟩ := h
            exact ⟨_, shape_given (Or.inr (congrArg some hw.1)) hw.2.1 hw.2.2
              (congrArg some hv.1) hv.2.2 hodd hfits⟩

/-! ### The roster in groups -/

section Seats

variable {α : Type}

/-- The addresses of a roster in the schedule's groups: the scheduled ones, those at even
positions first. -/
def partitionLikeDepot (addresses : List α)
    (operatorsPerEpoch batchOpGroups batchOperatorMinimumActive : ℕ) : List (List α) :=
  let scheduled := addresses.take batchOperatorMinimumActive
  let interleaved :=
    (scheduled.zipIdx.filter fun p => p.2 % 2 = 0).map Prod.fst ++
      (scheduled.zipIdx.filter fun p => p.2 % 2 = 1).map Prod.fst
  ((List.range batchOpGroups).map fun group =>
    (interleaved.drop (group * operatorsPerEpoch)).take operatorsPerEpoch).filter
      fun group => 0 < group.length

/-- Every other entry, from the first one or from the second one on. -/
def alternate : Bool → List α → List α
  | _, [] => []
  | true, x :: xs => x :: alternate false xs
  | false, _ :: xs => alternate true xs

theorem filter_parity {r : ℕ} (hr : r < 2) (xs : List α) (k : ℕ) :
    ((xs.zipIdx k).filter fun p => p.2 % 2 = r).map Prod.fst = alternate (k % 2 = r) xs := by
  induction xs generalizing k with
  | nil => rfl
  | cons x xs ih =>
      rw [List.zipIdx_cons, List.filter_cons]
      have hnext : decide ((k + 1) % 2 = r) = !decide (k % 2 = r) := by
        rw [← decide_not, decide_eq_decide]
        omega
      by_cases h : k % 2 = r
      · rw [if_pos (decide_eq_true h), List.map_cons, ih, hnext, decide_eq_true h]
        rfl
      · rw [if_neg (by simpa using h), ih, hnext, decide_eq_false h]
        rfl

theorem getElem?_alternate (first : Bool) (xs : List α) (i : ℕ) :
    (alternate first xs)[i]? = xs[2 * i + if first then 0 else 1]? := by
  induction xs generalizing first i with
  | nil => cases first <;> rfl
  | cons x xs ih =>
      cases first with
      | true =>
          cases i with
          | zero => rfl
          | succ i =>
              show (alternate false xs)[i]? = xs[2 * i + 1]?
              exact ih false i
      | false =>
          show (alternate true xs)[i]? = xs[2 * i]?
          exact ih true i

theorem length_alternate (first : Bool) (xs : List α) :
    (alternate first xs).length = (xs.length + if first then 1 else 0) / 2 := by
  induction xs generalizing first with
  | nil => cases first <;> simp [alternate]
  | cons x xs ih =>
      cases first with
      | true =>
          show (alternate false xs).length + 1 = (xs.length + 1 + 1) / 2
          rw [ih]
          simp only [Bool.false_eq_true, if_false]
          omega
      | false => exact ih true

theorem alternate_perm (xs : List α) : (alternate true xs ++ alternate false xs).Perm xs := by
  induction xs with
  | nil => exact List.Perm.nil
  | cons x xs ih =>
      show (x :: (alternate false xs ++ alternate true xs)).Perm (x :: xs)
      exact (List.perm_append_comm.trans ih).cons x

/-- The place of the operator at a position of a roster, the even positions first. -/
def seat (total i : ℕ) : ℕ := if i % 2 = 0 then i / 2 else (total + 1) / 2 + i / 2

theorem getElem?_seat {xs : List α} {i : ℕ} (hi : i < xs.length) :
    (alternate true xs ++ alternate false xs)[seat xs.length i]? = xs[i]? := by
  have htrue := length_alternate true xs
  rw [if_pos rfl] at htrue
  unfold seat
  split_ifs with heven
  · rw [List.getElem?_append_left (by rw [htrue]; omega), getElem?_alternate, if_pos rfl]
    congr 1
    omega
  · rw [List.getElem?_append_right (by rw [htrue]; omega), htrue, Nat.add_sub_cancel_left,
      getElem?_alternate, if_neg Bool.false_ne_true]
    congr 1
    omega

theorem seat_lt {total i : ℕ} (hi : i < total) : seat total i < total := by
  unfold seat
  split_ifs <;> omega

/-- A slice that the list has room for is full. -/
theorem length_slice {xs : List α} {size groups i : ℕ} (hlen : xs.length = size * groups)
    (hi : i < groups) : ((xs.drop (i * size)).take size).length = size := by
  have hroom : (i + 1) * size ≤ groups * size := Nat.mul_le_mul_right size hi
  rw [Nat.succ_mul] at hroom
  rw [List.length_take, List.length_drop, hlen, Nat.mul_comm]
  omega

/-- With enough addresses the groups are slices of the scheduled ones, and none is empty. -/
theorem partitionLikeDepot_eq {addresses : List α} {size groups : ℕ} (hsize : 0 < size)
    (hfits : size * groups ≤ addresses.length) :
    let scheduled := addresses.take (size * groups)
    partitionLikeDepot addresses size groups (size * groups) =
      (List.range groups).map fun group =>
        (List.drop (group * size) (alternate true scheduled ++ alternate false scheduled)).take
          size := by
  intro scheduled
  have hlen : (alternate true scheduled ++ alternate false scheduled).length = size * groups := by
    rw [(alternate_perm scheduled).length_eq, List.length_take, min_eq_left hfits]
  unfold partitionLikeDepot
  dsimp only
  rw [filter_parity (by decide), filter_parity (by decide)]
  refine List.filter_eq_self.mpr fun group hgroup => ?_
  obtain ⟨i, hi, rfl⟩ := List.mem_map.mp hgroup
  have hfull := length_slice hlen (List.mem_range.mp hi)
  refine decide_eq_true ?_
  show 0 < (((alternate true scheduled ++ alternate false scheduled).drop (i * size)).take
    size).length
  rwa [hfull]

/-- A roster of the options' count has exactly the schedule's groups, all of them full, and the
groups seat each scheduled operator once: at the even positions first, then at the odd ones. -/
theorem partition_seats {options : BatchOperatorScheduleOptions} {s : Schedule}
    {addresses : List α} (h : resolve options = .ok s)
    (hroster : options.batchOperatorCount = .finite addresses.length) :
    let groups := partitionLikeDepot addresses s.operatorsPerEpoch s.batchOpGroups
      s.batchOperatorMinimumActive
    groups.length = s.batchOpGroups ∧
      (∀ group ∈ groups, group.length = s.operatorsPerEpoch) ∧
      groups.flatten.Perm (addresses.take s.batchOperatorMinimumActive) ∧
      ∀ i < s.batchOperatorMinimumActive, ∃ group,
        groups[seat s.batchOperatorMinimumActive i / s.operatorsPerEpoch]? = some group ∧
          group[seat s.batchOperatorMinimumActive i % s.operatorsPerEpoch]? = addresses[i]? := by
  obtain ⟨count, hcount, hshape⟩ := resolve_eq_ok.mp h
  have hsize := hshape.size_pos
  have hfits := hshape.fits
  have hlength : addresses.length = count := by
    rw [← hcount.count, hroster]
    exact (Int.toNat_natCast addresses.length).symm
  rw [← hlength, hshape.total] at hfits
  intro groups
  obtain ⟨scheduled, hscheduled⟩ :
      ∃ xs, addresses.take (s.operatorsPerEpoch * s.batchOpGroups) = xs := ⟨_, rfl⟩
  obtain ⟨seats, hseats⟩ : ∃ xs, alternate true scheduled ++ alternate false scheduled = xs :=
    ⟨_, rfl⟩
  have htotal : scheduled.length = s.operatorsPerEpoch * s.batchOpGroups := by
    rw [← hscheduled, List.length_take, min_eq_left hfits]
  have hlen : seats.length = s.operatorsPerEpoch * s.batchOpGroups := by
    rw [← hseats, (alternate_perm scheduled).length_eq, htotal]
  have hgroups : groups = (List.range s.batchOpGroups).map fun group =>
      (seats.drop (group * s.operatorsPerEpoch)).take s.operatorsPerEpoch := by
    rw [← hseats, ← hscheduled, ← partitionLikeDepot_eq hsize hfits, ← hshape.total]
  rw [hgroups, hshape.total]
  refine ⟨by rw [List.length_map, List.length_range], fun group hgroup => ?_, ?_,
    fun i hi => ?_⟩
  · obtain ⟨i, hi, rfl⟩ := List.mem_map.mp hgroup
    exact length_slice hlen (List.mem_range.mp hi)
  · rw [flatten_slices, List.take_of_length_le (by rw [hlen, Nat.mul_comm]), ← hseats,
      hscheduled]
    exact alternate_perm scheduled
  · have hseat := seat_lt hi
    have hgroup : seat (s.operatorsPerEpoch * s.batchOpGroups) i / s.operatorsPerEpoch <
        s.batchOpGroups := Nat.div_lt_of_lt_mul hseat
    refine ⟨_, by rw [List.getElem?_map, List.getElem?_range hgroup]; rfl, ?_⟩
    rw [List.getElem?_take_of_lt (Nat.mod_lt _ hsize), List.getElem?_drop, Nat.div_add_mod',
      ← hseats, ← htotal, getElem?_seat (by rw [htotal]; exact hi), ← hscheduled,
      List.getElem?_take_of_lt hi]

theorem partition_seats_sample :
    (partitionLikeDepot [10, 11, 12, 13] 1 3 3).flatten.Perm [10, 11, 12] ∧
      ∃ group, (partitionLikeDepot [10, 11, 12, 13] 1 3 3)[2]? = some group ∧
        group[0]? = some 11 := by
  have hresolve : resolve ⟨.finite (4 : ℕ), some (.finite (1 : ℕ)), none⟩ = .ok ⟨1, 3, 3⟩ :=
    resolve_eq_ok.mpr ⟨4, ⟨rfl, by decide, by decide⟩, shape_given (Or.inl ⟨rfl, rfl⟩)
      (by decide) (by decide) rfl (by decide) (by decide) (by decide)⟩
  obtain ⟨-, -, hperm, hseats⟩ :=
    @partition_seats ℕ _ _ [10, 11, 12, 13] hresolve rfl
  exact ⟨hperm, hseats 1 (by decide)⟩

end Seats

end BatchOperatorSchedule

end WireTools

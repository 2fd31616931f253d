import Mathlib.Data.List.TakeWhile
import WireTools.FreeStanding
import WireTools.Text

/-! # Operator-chosen numbers

The values of the chain-state DB size and of the query-engine limits in an emitted file, which are
left out before the file is searched.

* `marked`: the text, each of these values marked; `maskOperatorChosenNumbers` is what is left;
* `OperatorChosen`: what stands before such a value, a setting's name at the start of its token and
  separators behind it;
* `mark_chosen`: a marked unit is a digit, and before its digits the text is `OperatorChosen`;
* `number_unmarked`: a whole number that no setting introduces is left as it is. -/

namespace WireTools.ExternalConfig

/-! ### The settings -/

structure QueryEngineLimitOption where
  member : String
  option : String

def QueryEngineLimitOptions : List QueryEngineLimitOption :=
  [⟨"workerThreads", "query-worker-threads"⟩, ⟨"maxInFlight", "query-max-in-flight"⟩,
   ⟨"maxQueryBytes", "query-max-query-bytes"⟩, ⟨"timeoutMs", "query-timeout-ms"⟩,
   ⟨"maxCaptureMs", "query-max-capture-ms"⟩, ⟨"maxAbiBytes", "query-max-abi-bytes"⟩,
   ⟨"maxScanRows", "query-max-scan-rows"⟩, ⟨"maxRawBytes", "query-max-raw-bytes"⟩,
   ⟨"maxMemoryBytes", "query-max-memory-bytes"⟩, ⟨"maxGroups", "query-max-groups"⟩,
   ⟨"maxResultRows", "query-max-result-rows"⟩, ⟨"maxResponseBytes", "query-max-response-bytes"⟩]

def ChainStateDbSizeMbOption : String := "chain-state-db-size-mb"

def ChainStateDbSizeMbField : String := "chainStateDbSizeMb"

def introducers : List Text :=
  (["--" ++ ChainStateDbSizeMbOption, ChainStateDbSizeMbField] ++
    QueryEngineLimitOptions.flatMap fun limit => [limit.option, limit.member]).map text

/-- A word unit or a dash: the token goes on. -/
def isNameUnit : UnitClass := fun c => isWord c || c == 45

/-- A blank, a backslash, a quote, a colon or an equals sign. -/
def isSeparator : UnitClass := fun c => isSpace c || [92, 39, 34, 58, 61].contains c

theorem not_digit_of_separator {c : CodeUnit} (h : isSeparator c = true) : isDigit c = false := by
  by_contra hdigit
  obtain ⟨d, hd, rfl⟩ := exists_digit (Bool.of_not_eq_false hdigit)
  revert h d
  decide

theorem introducers_end :
    ∀ name ∈ introducers, name.getLast?.any (fun c => !isDigit c) = true := by
  decide

theorem introducers_ne_nil {name : Text} (h : name ∈ introducers) : name ≠ [] := by
  rintro rfl
  cases introducers_end [] h

/-! ### The mask -/

/-- The units of the name and the separators, and the digits behind them, where `name` introduces a
number at the start of `t`. -/
def introduced (t name : Text) : Option (ℕ × ℕ) :=
  let rest := t.drop name.length
  let separator := rest.takeWhile isSeparator
  let digits := (rest.drop separator.length).takeWhile isDigit
  if name.isPrefixOf t && !digits.isEmpty then
    some (name.length + separator.length, digits.length)
  else none

/-- The match at the start of `t`, with `prev` before it. -/
def valueAt (prev : Option CodeUnit) (t : Text) : Option (ℕ × ℕ) :=
  if prev.any isNameUnit then none else introducers.findSome? (introduced t)

/-- The first `keep` units stay and the next `drop` units are marked. -/
def markFrom : Option CodeUnit → ℕ → ℕ → Text → List (CodeUnit × Bool)
  | _, _, _, [] => []
  | _, keep + 1, drop, c :: t => (c, false) :: markFrom (some c) keep drop t
  | _, 0, drop + 1, c :: t => (c, true) :: markFrom (some c) 0 drop t
  | prev, 0, 0, c :: t =>
      match valueAt prev (c :: t) with
      | some (keep, drop) => (c, false) :: markFrom (some c) (keep - 1) drop t
      | none => (c, false) :: markFrom (some c) 0 0 t

def marked (t : Text) : List (CodeUnit × Bool) :=
  markFrom none 0 0 t

def maskOperatorChosenNumbers (t : Text) : Text :=
  kept (marked t)

theorem map_markFrom (prev : Option CodeUnit) (keep drop : ℕ) (t : Text) :
    (markFrom prev keep drop t).map Prod.fst = t := by
  induction prev, keep, drop, t using markFrom.induct with
  | case1 => rfl
  | case2 _ keep drop c t ih => rw [markFrom, List.map_cons, ih]
  | case3 _ drop c t ih => rw [markFrom, List.map_cons, ih]
  | case4 prev c t keep drop hvalue ih =>
      rw [markFrom, hvalue, List.map_cons, ih]
  | case5 prev c t hvalue ih => rw [markFrom, hvalue, List.map_cons, ih]

theorem map_marked (t : Text) : (marked t).map Prod.fst = t :=
  map_markFrom none 0 0 t

/-! ### What the mask takes out -/

/-- A setting's name at the start of its token, with only separators behind it. -/
def OperatorChosen (before : Text) : Prop :=
  ∃ b name separator, before = b ++ name ++ separator ∧ name ∈ introducers ∧
    b.getLast?.any isNameUnit = false ∧ ∀ c ∈ separator, isSeparator c = true

theorem OperatorChosen.end_not_digit {before : Text} (h : OperatorChosen before) :
    before.getLast?.any isDigit = false := by
  obtain ⟨b, name, separator, rfl, hname, _, hseparator⟩ := h
  rcases List.eq_nil_or_concat separator with rfl | ⟨front, c, rfl⟩
  · rw [List.append_nil, List.getLast?_append_of_ne_nil _ (introducers_ne_nil hname)]
    have hend := introducers_end name hname
    cases hlast : name.getLast? with
    | none => rfl
    | some c => simpa [hlast] using hend
  · rw [List.concat_eq_append, ← List.append_assoc, List.getLast?_concat, Option.any_some]
    exact not_digit_of_separator (hseparator c (by simp))

theorem introduced_spec {t name : Text} {keep drop : ℕ}
    (h : introduced t name = some (keep, drop)) :
    ∃ separator digits rest, t = name ++ separator ++ digits ++ rest ∧
      (∀ c ∈ separator, isSeparator c = true) ∧ (∀ c ∈ digits, isDigit c = true) ∧
      keep = name.length + separator.length ∧ drop = digits.length := by
  unfold introduced at h
  dsimp only at h
  split at h
  · next hmatch =>
      rw [Bool.and_eq_true, List.isPrefixOf_iff_prefix] at hmatch
      obtain ⟨⟨tail, rfl⟩, _⟩ := hmatch
      rw [List.drop_left] at h
      obtain ⟨rfl, rfl⟩ := Prod.mk.inj (Option.some.inj h)
      have hsplit := List.takeWhile_append_dropWhile (p := isSeparator) (l := tail)
      refine ⟨tail.takeWhile isSeparator, (tail.dropWhile isSeparator).takeWhile isDigit,
        (tail.dropWhile isSeparator).dropWhile isDigit, ?_, fun c hc => List.mem_takeWhile_imp hc,
        fun c hc => List.mem_takeWhile_imp hc, rfl, ?_⟩
      · rw [List.append_assoc, List.append_assoc, List.takeWhile_append_dropWhile, hsplit]
      · congr 2
        nth_rewrite 2 [← hsplit]
        rw [List.drop_left]
  · cases h

theorem valueAt_spec {prev : Option CodeUnit} {t : Text} {keep drop : ℕ}
    (h : valueAt prev t = some (keep, drop)) :
    prev.any isNameUnit = false ∧ ∃ name ∈ introducers, introduced t name = some (keep, drop) := by
  unfold valueAt at h
  split at h
  · cases h
  · next hprev =>
      obtain ⟨name, hname, hmatch⟩ := List.exists_of_findSome?_eq_some h
      exact ⟨Bool.of_not_eq_true hprev, name, hname, hmatch⟩

/-- Behind `done` and the units to keep, the units to mark are digits of an operator-chosen
number. -/
def Pending (done : Text) (keep drop : ℕ) (t : Text) : Prop :=
  drop = 0 ∨ ∃ front digits, done ++ t.take keep = front ++ digits ∧ OperatorChosen front ∧
    (∀ c ∈ digits, isDigit c = true) ∧ ∀ c ∈ (t.drop keep).take drop, isDigit c = true

namespace Pending
variable {done t : Text} {c : CodeUnit} {keep drop : ℕ}

theorem keep_one (h : Pending done (keep + 1) drop (c :: t)) :
    Pending (done ++ [c]) keep drop t := by
  rcases h with hzero | ⟨front, digits, hdone, hfront, hdigits, hnext⟩
  · exact Or.inl hzero
  · rw [List.take_succ_cons] at hdone
    exact Or.inr ⟨front, digits, by rw [List.append_assoc]; exact hdone, hfront, hdigits, hnext⟩

/-- The unit to mark next, with what stands before it. -/
theorem next_digit (h : Pending done 0 (drop + 1) (c :: t)) :
    isDigit c = true ∧ ∃ front digits, done = front ++ digits ∧ OperatorChosen front ∧
      ∀ d ∈ digits, isDigit d = true := by
  rcases h with hzero | ⟨front, digits, hdone, hfront, hdigits, hnext⟩
  · cases hzero
  · rw [List.take_zero, List.append_nil] at hdone
    exact ⟨hnext c (by simp), front, digits, hdone, hfront, hdigits⟩

theorem drop_one (h : Pending done 0 (drop + 1) (c :: t)) : Pending (done ++ [c]) 0 drop t := by
  obtain ⟨hc, front, digits, rfl, hfront, hdigits⟩ := h.next_digit
  rcases h with hzero | ⟨_, _, _, _, _, hnext⟩
  · cases hzero
  · refine Or.inr ⟨front, digits ++ [c], by simp, hfront, ?_, ?_⟩
    · simpa [or_imp, forall_and] using ⟨hdigits, hc⟩
    · intro d hd
      exact hnext d (by simpa using Or.inr hd)

theorem found (h : valueAt done.getLast? (c :: t) = some (keep, drop)) :
    Pending (done ++ [c]) (keep - 1) drop t := by
  obtain ⟨hprev, name, hname, hmatch⟩ := valueAt_spec h
  obtain ⟨separator, digits, rest, ht, hseparator, hdigits, rfl, rfl⟩ := introduced_spec hmatch
  have hlength : (name ++ separator).length = name.length + separator.length :=
    List.length_append
  have hpos : 0 < name.length := List.length_pos_iff.mpr (introducers_ne_nil hname)
  obtain ⟨keep, hkeep⟩ : ∃ keep, (name ++ separator).length = keep + 1 :=
    ⟨(name ++ separator).length - 1, by omega⟩
  have hchosen : OperatorChosen (done ++ name ++ separator) :=
    ⟨done, name, separator, rfl, hname, hprev, hseparator⟩
  have hwhole : Pending done (keep + 1) digits.length (c :: t) := by
    refine Or.inr ⟨done ++ name ++ separator, [], ?_, hchosen, nofun, ?_⟩
    · rw [ht, ← hkeep, List.append_assoc, List.take_left, List.append_nil, List.append_assoc]
    · rw [ht, ← hkeep, List.append_assoc, List.drop_left, List.take_left]
      exact hdigits
  rw [← hlength, hkeep]
  exact hwhole.keep_one

end Pending

/-- A marked unit is not the unmarked one in front. -/
theorem later_of_unmarked {d c : CodeUnit} {rest front back : List (CodeUnit × Bool)}
    (h : (d, false) :: rest = front ++ (c, true) :: back) :
    ∃ later, front = (d, false) :: later ∧ rest = later ++ (c, true) :: back := by
  rcases List.cons_eq_append_iff.mp h with ⟨_, hsame⟩ | hlater
  · cases hsame
  · exact hlater

theorem mark_from {done : Text} {keep drop : ℕ} {t : Text} (hpending : Pending done keep drop t)
    {front : List (CodeUnit × Bool)} {c : CodeUnit} {back : List (CodeUnit × Bool)}
    (h : markFrom done.getLast? keep drop t = front ++ (c, true) :: back) :
    isDigit c = true ∧ ∃ before digits, done ++ front.map Prod.fst = before ++ digits ∧
      OperatorChosen before ∧ ∀ d ∈ digits, isDigit d = true := by
  generalize hprev : done.getLast? = prev at h
  induction prev, keep, drop, t using markFrom.induct generalizing done front with
  | case1 => cases front <;> cases h
  | case2 _ keep drop d t ih =>
      rw [markFrom] at h
      obtain ⟨later, rfl, hlater⟩ := later_of_unmarked h
      have hrest := ih hpending.keep_one List.getLast?_concat hlater
      rwa [List.append_assoc] at hrest
  | case3 _ drop d t ih =>
      rw [markFrom] at h
      rcases List.cons_eq_append_iff.mp h with ⟨rfl, hhere⟩ | ⟨later, rfl, hlater⟩
      · obtain ⟨hitem, _⟩ := List.cons.inj hhere
        obtain ⟨rfl, _⟩ := Prod.mk.inj hitem
        rw [List.map_nil, List.append_nil]
        exact hpending.next_digit
      · have hrest := ih hpending.drop_one List.getLast?_concat hlater
        rwa [List.append_assoc] at hrest
  | case4 prev d t keep drop hvalue ih =>
      rw [markFrom, hvalue] at h
      obtain ⟨later, rfl, hlater⟩ := later_of_unmarked h
      subst hprev
      have hrest := ih (Pending.found hvalue) List.getLast?_concat hlater
      rwa [List.append_assoc] at hrest
  | case5 prev d t hvalue ih =>
      rw [markFrom, hvalue] at h
      obtain ⟨later, rfl, hlater⟩ := later_of_unmarked h
      have hnone : Pending (done ++ [d]) 0 0 t := Or.inl rfl
      have hrest := ih hnone List.getLast?_concat hlater
      rwa [List.append_assoc] at hrest

/-- A marked unit is a digit; before its digits a setting introduces them. -/
theorem mark_chosen {t : Text} {front : List (CodeUnit × Bool)} {c : CodeUnit}
    {back : List (CodeUnit × Bool)} (h : marked t = front ++ (c, true) :: back) :
    isDigit c = true ∧ ∃ before digits, front.map Prod.fst = before ++ digits ∧
      OperatorChosen before ∧ ∀ d ∈ digits, isDigit d = true := by
  have hstart : Pending [] 0 0 t := Or.inl rfl
  exact mark_from hstart h

theorem digit_of_marked {t : Text} {item : CodeUnit × Bool} (hitem : item ∈ marked t)
    (hmark : item.2 = true) : isDigit item.1 = true := by
  obtain ⟨front, back, hsplit⟩ := List.append_of_mem hitem
  obtain ⟨c, m⟩ := item
  cases hmark
  exact (mark_chosen hsplit).1

/-- The digits at the end of a text are determined. -/
theorem digits_end {a b ds es : Text} (h : a ++ ds = b ++ es)
    (hds : ∀ c ∈ ds, isDigit c = true) (hes : ∀ c ∈ es, isDigit c = true)
    (ha : a.getLast?.any isDigit = false) (hb : b.getLast?.any isDigit = false) : a = b := by
  have hend : ∀ {x : Text}, x.getLast?.any isDigit = false →
      x.reverse.dropWhile isDigit = x.reverse := by
    intro x hx
    rw [List.dropWhile_eq_self_iff]
    intro hpos hdigit
    rw [← List.head?_reverse, List.head?_eq_getElem?, List.getElem?_eq_getElem hpos,
      Option.any_some] at hx
    rw [hx] at hdigit
    cases hdigit
  have hreverse := congrArg (fun x : Text => x.reverse.dropWhile isDigit) h
  simp only [List.reverse_append] at hreverse
  rw [List.dropWhile_append_of_pos (by simpa using hds),
    List.dropWhile_append_of_pos (by simpa using hes), hend ha, hend hb] at hreverse
  exact List.reverse_inj.mp hreverse

/-- A whole number that no setting introduces is left as it is. -/
theorem number_unmarked {t before number after : Text} (ht : t = before ++ number ++ after)
    (hnumber : ∀ c ∈ number, isDigit c = true) (hbefore : before.getLast?.any isDigit = false)
    (hchosen : ¬OperatorChosen before) :
    ∀ item ∈ ((marked t).drop before.length).take number.length, item.2 = false := by
  have hmap : (marked t).map Prod.fst = before ++ number ++ after := (map_marked t).trans ht
  obtain ⟨front, back, hmarked, hfront, rfl⟩ := List.map_eq_append_iff.mp hmap
  obtain ⟨first, middle, rfl, rfl, rfl⟩ := List.map_eq_append_iff.mp hfront
  simp only [hmarked, List.length_map, List.append_assoc, List.drop_left, List.take_left]
  intro item hitem
  by_contra hmark
  obtain ⟨c, m⟩ := item
  obtain ⟨left, right, rfl⟩ := List.append_of_mem hitem
  obtain rfl : m = true := Bool.of_not_eq_false hmark
  have hplace : marked t = (first ++ left) ++ (c, true) :: (right ++ back) := by
    rw [hmarked]
    simp
  obtain ⟨_, chosen, digits, hdigits, hchosen', hall⟩ := mark_chosen hplace
  rw [List.map_append] at hdigits
  have hleft : ∀ d ∈ left.map Prod.fst, isDigit d = true := by
    intro d hd
    exact hnumber d (by rw [List.map_append]; exact List.mem_append_left _ hd)
  have hsame := digits_end hdigits hleft hall hbefore hchosen'.end_not_digit
  exact hchosen (hsame ▸ hchosen')

example : maskOperatorChosenNumbers (text "\"maxGroups\": 8888, \"port\": 8888") =
    text "\"maxGroups\": , \"port\": 8888" := by
  decide

end WireTools.ExternalConfig

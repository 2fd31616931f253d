import Mathlib.Algebra.BigOperators.Group.Finset.Piecewise
import Mathlib.Data.Int.Log
import Mathlib.Data.Rat.Floor
import WireTools.PlainValues
import WireTools.Runs

/-! # Recorded client calls

A step keeps the calls that its clients make.  A call with the JSON text of one of the last
entries counts that entry up instead of taking a place of its own.

* `plusOne`: the source's `(count ?? 1) + 1`, of whatever a payload may hold under that name;
* `record`, and `slot`, the place that a call is given;
* `Lossless`: every call is counted once, at an entry that shows what was called;
* `recordAll_lossless_iff`: that is so when no call that gets an entry has a member `count`, and
  merged calls do not differ in what their text leaves out. -/

namespace WireTools.StepExtraRecorder

open Json (digitsValue)

def DedupeWindow : ℕ := 5

def MaxCalls : ℕ := 250

def MaxStringLength : ℕ := 600

/-! ### Adding one -/

/-- The decimal nearest to a positive number with so many digits. -/
def decimalOf (q : ℚ) (digits : ℕ) : ℕ × ℤ :=
  let exponent := Int.log 10 q + 1 - digits
  ((q / 10 ^ exponent + 1 / 2).floor.toNat, exponent)

/-- The shortest decimal that stands for a positive double; seventeen digits always do. -/
def shortest (q : ℚ) : ℕ × ℤ :=
  let decimals := (List.range 16).map fun k => decimalOf q (k + 1)
  (decimals.find? fun d => Decimal.nearestDouble (d.1 * (10 : ℚ) ^ d.2) = q).getD (decimalOf q 17)

def zeros (n : ℤ) : Text := List.replicate n.toNat 48

/-- Digits with a point behind the first `n`, where more follow. -/
def pointed (digits : Text) (n : ℕ) : Text :=
  digits.take n ++ if digits.length ≤ n then [] else 46 :: digits.drop n

def exponentText (n : ℤ) : Text :=
  101 :: (if n < 0 then 45 else 43) :: natText n.natAbs

/-- `Number.toString` of a positive double: a plain number near one, else with an exponent. -/
def positiveText (q : ℚ) : Text :=
  let digits := natText (shortest q).1
  let point := digits.length + (shortest q).2
  if digits.length ≤ point ∧ point ≤ 21 then digits ++ zeros (point - digits.length)
  else if 0 < point ∧ point ≤ 21 then pointed digits point.toNat
  else if -6 < point ∧ point ≤ 0 then 48 :: 46 :: (zeros (-point) ++ digits)
  else pointed digits 1 ++ exponentText (point - 1)

def doubleText (q : ℚ) : Text :=
  if q = 0 then [48] else if q < 0 then 45 :: positiveText (-q) else positiveText q

/-- Only units of numbers. -/
def Numeric (t : Text) : Prop :=
  ∀ c ∈ t, isNumberUnit c = true

theorem Numeric.append {t u : Text} (ht : Numeric t) (hu : Numeric u) : Numeric (t ++ u) :=
  List.forall_mem_append.mpr ⟨ht, hu⟩

theorem Numeric.cons {c : CodeUnit} {t : Text} (hc : isNumberUnit c = true) (ht : Numeric t) :
    Numeric (c :: t) :=
  List.forall_mem_cons.mpr ⟨hc, ht⟩

theorem numeric_natText (n : ℕ) : Numeric (natText n) := by
  intro c hc
  rw [isNumberUnit, Json.natText_isDigit n c hc]
  rfl

theorem numeric_zeros (n : ℤ) : Numeric (zeros n) := by
  intro c hc
  rw [List.eq_of_mem_replicate hc]
  decide

theorem numeric_pointed {digits : Text} (h : Numeric digits) (n : ℕ) :
    Numeric (pointed digits n) := by
  refine Numeric.append (fun c hc => h c (List.mem_of_mem_take hc)) ?_
  split
  · exact List.forall_mem_nil _
  · exact Numeric.cons (by decide) fun c hc => h c (List.mem_of_mem_drop hc)

theorem numeric_exponentText (n : ℤ) : Numeric (exponentText n) := by
  refine Numeric.cons (by decide) (Numeric.cons ?_ (numeric_natText _))
  split <;> decide

theorem numeric_positiveText (q : ℚ) : Numeric (positiveText q) := by
  have hdigits := numeric_natText (shortest q).1
  unfold positiveText
  dsimp only
  split_ifs
  · exact hdigits.append (numeric_zeros _)
  · exact numeric_pointed hdigits _
  · exact Numeric.cons (by decide) (Numeric.cons (by decide) ((numeric_zeros _).append hdigits))
  · exact (numeric_pointed hdigits _).append (numeric_exponentText _)

theorem numeric_doubleText (q : ℚ) : Numeric (doubleText q) := by
  unfold doubleText
  split_ifs
  · exact Numeric.cons (by decide) (List.forall_mem_nil _)
  · exact Numeric.cons (by decide) (numeric_positiveText _)
  · exact numeric_positiveText q

theorem pointed_ne_nil {digits : Text} (h : digits ≠ []) (n : ℕ) : pointed digits n ≠ [] := by
  unfold pointed
  split
  · next hlength => rwa [List.append_nil, List.take_of_length_le hlength]
  · exact List.append_ne_nil_of_right_ne_nil _ (List.cons_ne_nil _ _)

theorem positiveText_ne_nil (q : ℚ) : positiveText q ≠ [] := by
  have hdigits := Json.natText_ne_nil (shortest q).1
  unfold positiveText
  dsimp only
  split_ifs
  · exact List.append_ne_nil_of_left_ne_nil hdigits _
  · exact pointed_ne_nil hdigits _
  · exact List.cons_ne_nil _ _
  · exact List.append_ne_nil_of_left_ne_nil (pointed_ne_nil hdigits 1) _

theorem doubleText_ne_nil (q : ℚ) : doubleText q ≠ [] := by
  unfold doubleText
  split_ifs
  · exact List.cons_ne_nil _ _
  · exact List.cons_ne_nil _ _
  · exact positiveText_ne_nil q

def ofNat (n : ℕ) : NumberText :=
  ⟨natText n, Json.natText_ne_nil n, numeric_natText n⟩

def ofDouble (q : ℚ) : NumberText :=
  ⟨doubleText q, doubleText_ne_nil q, numeric_doubleText q⟩

/-- The double that the text stands for. -/
def value (t : NumberText) : ℚ :=
  match Json.readNumber t.text with
  | some (d, _) => d.value
  | none => 0

/-- The whole number that digits alone spell, if every smaller one is a double as well. -/
def whole (t : NumberText) : Option ℕ :=
  if t.text.all isDigit ∧ digitsValue t.text < 2 ^ 53 then some (digitsValue t.text) else none

/-- A number and one. -/
def succ : Number → Number
  | .nan => .nan
  | .infinite negative => .infinite negative
  | .finite t =>
      match whole t with
      | some n => .finite (ofNat (n + 1))
      | none => .finite (ofDouble (Decimal.nearestDouble (value t + 1)))

def numberText : Number → Text
  | .nan => text "NaN"
  | .infinite negative => (if negative then [45] else []) ++ text "Infinity"
  | .finite t => t.text

/-- An object as a text, none when that throws: no function stands under its own `toString`. -/
def objectText (members : List (Text × Plain)) : Option Text :=
  if text "toString" ∈ members.map Prod.fst then none else some (text "[object Object]")

mutual

/-- `String` of a value. -/
def plainText : Plain → Option Text
  | .undefined => some (text "undefined")
  | .null => some (text "null")
  | .bool b => some (if b then text "true" else text "false")
  | .number n => some (numberText n)
  | .string s => some s
  | .array items => (itemTexts items).map (join [44])
  | .object members => objectText members

/-- The items of an array as texts; nothing stands for those that are missing. -/
def itemTexts : List Plain → Option (List Text)
  | [] => some []
  | .undefined :: items => (itemTexts items).map ([] :: ·)
  | .null :: items => (itemTexts items).map ([] :: ·)
  | v :: items => do
      let t ← plainText v
      let ts ← itemTexts items
      some (t :: ts)

end

/-- `(v ?? 1) + 1`, none when that throws. -/
def plusOne : Plain → Option Plain
  | .undefined | .null => some (.number (.finite (ofNat 2)))
  | .bool b => some (.number (.finite (ofNat (if b then 2 else 1))))
  | .number n => some (.number (succ n))
  | v => (plainText v).map fun t => .string (t ++ [49])

/-! ### Entries -/

/-- The members of a recorded call, in their order. -/
abbrev Entry := List (Text × Plain)

def countName : Text := text "count"

/-- The member of that name, `undefined` when there is none. -/
def member (entry : Entry) (name : Text) : Plain :=
  ((entry.find? fun m => m.1 = name).map Prod.snd).getD .undefined

/-- `entry[name] = v`: in the place of the member, or behind all others. -/
def setMember (entry : Entry) (name : Text) (v : Plain) : Entry :=
  if name ∈ entry.map Prod.fst then entry.map fun m => if m.1 = name then (name, v) else m
  else entry ++ [(name, v)]

def capString (s : Text) : Text :=
  if MaxStringLength < s.length then
    s.take MaxStringLength ++ text "…(+" ++ natText (s.length - MaxStringLength) ++ text " chars)"
  else s

mutual

def capStrings : Plain → Plain
  | .string s => .string (capString s)
  | .array items => .array (capItems items)
  | .object members => .object (capMembers members)
  | v => v

def capItems : List Plain → List Plain
  | [] => []
  | v :: items => capStrings v :: capItems items

def capMembers : List (Text × Plain) → List (Text × Plain)
  | [] => []
  | (name, v) :: members => (name, capStrings v) :: capMembers members

end

/-- What a caller hands over. -/
abbrev ClientCall := List (Text × Value)

/-- The call without large integers and bytes, its strings capped. -/
def form (call : ClientCall) : Entry :=
  capMembers (plainifyMembers call)

/-- The JSON text of an entry. -/
def keyOf (entry : Entry) : Text :=
  ((Plain.object entry).stringify []).getD []

/-! ### The recorder -/

structure Recorder where
  callList : List Entry
  keyList : List Text
  droppedCount : ℕ

namespace Recorder

def empty : Recorder :=
  ⟨[], [], 0⟩

/-- The last place below `index`, not before `windowStart`, that has the key. -/
def scan (keyList : List Text) (key : Text) (windowStart : ℕ) : ℕ → Option ℕ
  | 0 => none
  | index + 1 =>
      if index < windowStart then none
      else if keyList[index]? = some key then some index
      else scan keyList key windowStart index

variable (s : Recorder)

def find (key : Text) : Option ℕ :=
  scan s.keyList key (s.keyList.length - DedupeWindow) s.keyList.length

/-- The new counter of an entry, none when that throws. -/
def nextCount (index : ℕ) : Option Plain :=
  plusOne (member (s.callList.getD index []) countName)

def record (call : ClientCall) : Except Text Recorder :=
  let entry := form call
  let key := keyOf entry
  match s.find key with
  | some index =>
      match s.nextCount index with
      | some count =>
          .ok { s with callList := s.callList.modify index fun e => setMember e countName count }
      | none => .error (text "Cannot convert object to primitive value")
  | none =>
      if MaxCalls ≤ s.callList.length then .ok { s with droppedCount := s.droppedCount + 1 }
      else .ok { s with callList := s.callList ++ [entry], keyList := s.keyList ++ [key] }

/-- The recorder after a call; one that throws leaves it. -/
def recorded (call : ClientCall) : Recorder :=
  match s.record call with
  | .ok s' => s'
  | .error _ => s

/-- The place of the entry that a call is counted at, none when it is dropped. -/
def slot (call : ClientCall) : Option ℕ :=
  match s.find (keyOf (form call)) with
  | some index => some index
  | none => if MaxCalls ≤ s.callList.length then none else some s.callList.length

def recordAll (calls : List ClientCall) : Recorder :=
  calls.foldl recorded s

/-- The places that calls are given, one after the other. -/
def slots : Recorder → List ClientCall → List (Option ℕ)
  | _, [] => []
  | s, call :: calls => s.slot call :: slots (s.recorded call) calls

end Recorder

/-! ### What is asked -/

def withoutCount (entry : Entry) : Entry :=
  entry.filter fun m => m.1 ≠ countName

/-- The calls that an entry stands for, none when its counter is no number. -/
def occurrences (entry : Entry) : Option ℕ :=
  match entry.find? fun m => m.1 = countName with
  | none => some 1
  | some (_, .number (.finite t)) => if t.text.all isDigit then some (digitsValue t.text) else none
  | some _ => none

/-- Every call is counted, at an entry that shows it. -/
structure Lossless (calls : List ClientCall) : Prop where
  kept : (Recorder.empty.recordAll calls).callList.length ≤ MaxCalls
  total : (((Recorder.empty.recordAll calls).callList.map fun e => (occurrences e).getD 0).sum) +
    (Recorder.empty.recordAll calls).droppedCount = calls.length
  counted : ∀ i e, (Recorder.empty.recordAll calls).callList[i]? = some e →
    occurrences e = some ((Recorder.empty.slots calls).count (some i))
  /-- The entries stand in the order of their first calls. -/
  ordered : ∀ i j, i < j → j < (Recorder.empty.recordAll calls).callList.length →
    (Recorder.empty.slots calls).idxOf (some i) < (Recorder.empty.slots calls).idxOf (some j)
  shown : ∀ (k : ℕ) (call : ClientCall) (i : ℕ), calls[k]? = some call → (Recorder.empty.slots calls)[k]? = some (some i) →
    ((Recorder.empty.recordAll calls).callList[i]?).map withoutCount = some (form call)

/-- A call that gets an entry has no member `count`, and one that is merged shows all of its
values or is the same. -/
structure Plainly (s : Recorder) (call : ClientCall) : Prop where
  uncounted : s.slot call ≠ none → countName ∉ (form call).map Prod.fst
  told : ∀ i e, s.find (keyOf (form call)) = some i → s.callList[i]? = some e →
    Plain.ShownMembers (form call) ∧ Plain.ShownMembers (withoutCount e) ∨
      withoutCount e = form call

/-! ### Counters -/

theorem withoutCount_setMember (entry : Entry) (v : Plain) :
    withoutCount (setMember entry countName v) = withoutCount entry := by
  unfold withoutCount setMember
  split
  · rw [List.filter_map]
    have hfilter : ((fun m : Text × Plain => decide (m.1 ≠ countName)) ∘ fun m =>
        if m.1 = countName then (countName, v) else m) = fun m => decide (m.1 ≠ countName) := by
      funext m
      dsimp only [Function.comp]
      split
      · next hm => rw [hm]
      · rfl
    rw [hfilter]
    refine (List.map_congr_left fun m hm => ?_).trans (List.map_id _)
    rw [if_neg (by simpa using (List.mem_filter.mp hm).2), id]
  · rw [List.filter_append, List.filter_cons_of_neg (by simp), List.filter_nil, List.append_nil]

theorem find?_setMember (entry : Entry) (v : Plain) :
    ((setMember entry countName v).find? fun m => m.1 = countName) = some (countName, v) := by
  unfold setMember
  split
  · next hmem =>
      rw [List.find?_map]
      have hfind : ((fun m : Text × Plain => decide (m.1 = countName)) ∘ fun m =>
          if m.1 = countName then (countName, v) else m) = fun m => decide (m.1 = countName) := by
        funext m
        dsimp only [Function.comp]
        split
        · next hm => rw [hm]
        · rfl
      rw [hfind]
      cases hm : entry.find? fun m => decide (m.1 = countName) with
      | none =>
          obtain ⟨m, hmem, hname⟩ := List.mem_map.mp hmem
          exact absurd (decide_eq_true hname) (List.find?_eq_none.mp hm m hmem)
      | some m =>
          have hname := List.find?_some hm
          rw [Option.map_some, if_pos (of_decide_eq_true hname)]
  · next hmem =>
      rw [List.find?_append, List.find?_eq_none.mpr, Option.none_or, List.find?_cons_of_pos (by simp)]
      intro m hm
      simpa using fun hname => hmem (List.mem_map.mpr ⟨m, hm, hname⟩)

theorem occurrences_setMember (entry : Entry) (n : ℕ) :
    occurrences (setMember entry countName (.number (.finite (ofNat n)))) = some n := by
  have hdigits : (ofNat n).text.all isDigit = true := List.all_eq_true.mpr (Json.natText_isDigit n)
  rw [occurrences, find?_setMember]
  dsimp only
  rw [if_pos hdigits, ofNat, Json.digitsValue_natText]

theorem find?_of_uncounted {entry : Entry} (h : countName ∉ entry.map Prod.fst) :
    (entry.find? fun m => m.1 = countName) = none := by
  rw [List.find?_eq_none]
  intro m hm
  simpa using fun hname => h (List.mem_map.mpr ⟨m, hm, hname⟩)

theorem occurrences_of_uncounted {entry : Entry} (h : countName ∉ entry.map Prod.fst) :
    occurrences entry = some 1 := by
  rw [occurrences, find?_of_uncounted h]

theorem withoutCount_of_uncounted {entry : Entry} (h : countName ∉ entry.map Prod.fst) :
    withoutCount entry = entry := by
  refine List.filter_eq_self.mpr fun m hm => ?_
  simpa using fun hname => h (List.mem_map.mpr ⟨m, hm, hname⟩)

theorem uncounted_withoutCount (entry : Entry) :
    countName ∉ (withoutCount entry).map Prod.fst := by
  intro hmem
  obtain ⟨m, hm, hname⟩ := List.mem_map.mp hmem
  exact absurd hname (by simpa using (List.mem_filter.mp hm).2)

/-- A counter below `2 ^ 53` is counted up exactly. -/
theorem plusOne_of_occurrences {entry : Entry} {n : ℕ} (h : occurrences entry = some n)
    (hn : n < 2 ^ 53) :
    plusOne (member entry countName) = some (.number (.finite (ofNat (n + 1)))) := by
  unfold occurrences at h
  unfold member
  split at h
  · next hfind =>
      obtain rfl := Option.some.inj h
      rw [hfind]
      rfl
  · next t hfind =>
      split at h
      · next hdigits =>
          obtain rfl := Option.some.inj h
          rw [hfind, Option.map_some, Option.getD_some, plusOne, succ, whole,
            if_pos ⟨hdigits, hn⟩]
      · cases h
  · cases h

/-! ### The search -/

theorem scan_eq_some {keyList : List Text} {key : Text} {windowStart index i : ℕ}
    (h : Recorder.scan keyList key windowStart index = some i) : keyList[i]? = some key := by
  induction index with
  | zero => cases h
  | succ index ih =>
      rw [Recorder.scan] at h
      split at h
      · cases h
      · split at h
        · next hkey =>
            obtain rfl := Option.some.inj h
            exact hkey
        · exact ih h

/-! ### One call -/

namespace Recorder

variable {s : Recorder} {call : ClientCall}

theorem slot_found {i : ℕ} (h : s.find (keyOf (form call)) = some i) : s.slot call = some i := by
  rw [slot, h]

theorem recorded_merged {i : ℕ} {count : Plain} (h : s.find (keyOf (form call)) = some i)
    (hcount : s.nextCount i = some count) : s.recorded call =
      { s with callList := s.callList.modify i fun e => setMember e countName count } := by
  rw [recorded, record, h]
  dsimp only
  rw [hcount]

theorem recorded_thrown {i : ℕ} (h : s.find (keyOf (form call)) = some i)
    (hcount : s.nextCount i = none) : s.recorded call = s := by
  rw [recorded, record, h]
  dsimp only
  rw [hcount]

theorem slot_dropped (h : s.find (keyOf (form call)) = none) (hfull : MaxCalls ≤ s.callList.length) :
    s.slot call = none ∧ s.recorded call = { s with droppedCount := s.droppedCount + 1 } := by
  rw [slot, recorded, record, h]
  dsimp only
  rw [if_pos hfull, if_pos hfull]
  exact ⟨rfl, rfl⟩

theorem slot_added (h : s.find (keyOf (form call)) = none)
    (hroom : ¬MaxCalls ≤ s.callList.length) : s.slot call = some s.callList.length ∧
      s.recorded call = { s with
        callList := s.callList ++ [form call]
        keyList := s.keyList ++ [keyOf (form call)] } := by
  rw [slot, recorded, record, h]
  dsimp only
  rw [if_neg hroom, if_neg hroom]
  exact ⟨rfl, rfl⟩

end Recorder

/-- What is recorded of the calls so far, and the places that they were given. -/
structure Inv (s : Recorder) (calls : List ClientCall) (slots : List (Option ℕ)) : Prop where
  keys : s.keyList = s.callList.map fun e => keyOf (withoutCount e)
  kept : s.callList.length ≤ MaxCalls
  length : slots.length = calls.length
  placed : ∀ i, some i ∈ slots ↔ i < s.callList.length
  counted : ∀ i e, s.callList[i]? = some e → occurrences e = some (slots.count (some i))
  dropped : s.droppedCount = slots.count none
  ordered : ∀ i j, i < j → j < s.callList.length → slots.idxOf (some i) < slots.idxOf (some j)
  shown : ∀ (k : ℕ) (call : ClientCall) (i : ℕ), calls[k]? = some call →
    slots[k]? = some (some i) → (s.callList[i]?).map withoutCount = some (form call)

theorem inv_empty : Inv Recorder.empty [] [] where
  keys := rfl
  kept := Nat.zero_le _
  length := rfl
  placed := fun i => iff_of_false List.not_mem_nil (Nat.not_lt_zero i)
  counted := fun i e h => by cases h
  dropped := rfl
  ordered := fun i j _ h => absurd h (Nat.not_lt_zero j)
  shown := fun k call i h => by cases h

section

variable {s : Recorder} {calls : List ClientCall} {slots : List (Option ℕ)} {call : ClientCall}

/-- A found place holds an entry with the key. -/
theorem Inv.found (h : Inv s calls slots) {key : Text} {i : ℕ} (hfind : s.find key = some i) :
    ∃ e, s.callList[i]? = some e ∧ keyOf (withoutCount e) = key := by
  have hkey : s.keyList[i]? = some key := scan_eq_some hfind
  rw [h.keys, List.getElem?_map, Option.map_eq_some_iff] at hkey
  exact hkey

/-- The places of a longer history. -/
theorem Inv.shown_concat {s' : Recorder} (h : Inv s calls slots) (place : Option ℕ)
    (hkept : ∀ (i : ℕ) (e : Entry), s.callList[i]? = some e → (s'.callList[i]?).map withoutCount =
      some (withoutCount e))
    (hnew : ∀ i : ℕ, place = some i → (s'.callList[i]?).map withoutCount = some (form call))
    (k : ℕ) (c : ClientCall) (i : ℕ) (hc : (calls ++ [call])[k]? = some c)
    (hi : (slots ++ [place])[k]? = some (some i)) :
    (s'.callList[i]?).map withoutCount = some (form c) := by
  rcases lt_trichotomy k calls.length with hk | hk | hk
  · rw [List.getElem?_append_left hk] at hc
    rw [List.getElem?_append_left (by rwa [h.length])] at hi
    have hshown := h.shown k c i hc hi
    obtain ⟨e, he, heq⟩ := Option.map_eq_some_iff.mp hshown
    rw [hkept i e he, heq]
  · rw [hk, List.getElem?_concat_length] at hc
    rw [hk, ← h.length, List.getElem?_concat_length] at hi
    obtain rfl := Option.some.inj hc
    exact hnew i (Option.some.inj hi)
  · rw [List.getElem?_eq_none (by simp; omega)] at hc
    cases hc

theorem Inv.ordered_concat (h : Inv s calls slots) (place : Option ℕ) {i j : ℕ} (hij : i < j)
    (hj : j < s.callList.length) :
    (slots ++ [place]).idxOf (some i) < (slots ++ [place]).idxOf (some j) := by
  rw [List.idxOf_append_of_mem ((h.placed i).mpr (hij.trans hj)),
    List.idxOf_append_of_mem ((h.placed j).mpr hj)]
  exact h.ordered i j hij hj

/-- Entries that are told apart by their text are merged only when they are the same. -/
theorem same_of_key {e : Entry} (hkey : keyOf (withoutCount e) = keyOf (form call))
    (h : Plain.ShownMembers (form call) ∧ Plain.ShownMembers (withoutCount e) ∨
      withoutCount e = form call) : withoutCount e = form call := by
  rcases h with ⟨hform, hentry⟩ | heq
  · have htext {entry : Entry} : (Plain.object entry).stringify [] = some (keyOf entry) := by
      rw [keyOf, Plain.stringify, Plain.print, Option.getD_some]
    have hobject := Plain.stringify_injective (v := .object (withoutCount e))
      (w := .object (form call)) hentry hform (by rw [htext, htext, hkey])
    exact Plain.object.inj hobject
  · exact heq

theorem Inv.merged (h : Inv s calls slots) {i : ℕ} (hlength : calls.length < 2 ^ 53)
    (hfind : s.find (keyOf (form call)) = some i) (hplain : Plainly s call) :
    Inv (s.recorded call) (calls ++ [call]) (slots ++ [some i]) := by
  obtain ⟨e, he, hkey⟩ := h.found hfind
  have hi : i < s.callList.length := (List.getElem?_eq_some_iff.mp he).1
  have hcount := h.counted i e he
  have hsmall : slots.count (some i) < 2 ^ 53 :=
    (List.count_le_length.trans h.length.le).trans_lt hlength
  have hnext : s.nextCount i = some (.number (.finite (ofNat (slots.count (some i) + 1)))) := by
    rw [Recorder.nextCount, List.getD_eq_getElem?_getD, he]
    exact plusOne_of_occurrences hcount hsmall
  have hsame := same_of_key hkey (hplain.told i e hfind he)
  rw [Recorder.recorded_merged hfind hnext]
  refine ⟨?_, ?_, ?_, fun j => ?_, fun j e' hj => ?_, ?_, fun a b hab hb => ?_, ?_⟩
  · rw [h.keys]
    refine List.ext_getElem? fun j => ?_
    rw [List.getElem?_map, List.getElem?_map]
    by_cases hij : i = j
    · rw [← hij, List.getElem?_modify_eq, he, Option.map_eq_map, Option.map_some, Option.map_some,
        Option.map_some, withoutCount_setMember]
    · rw [List.getElem?_modify_ne _ _ hij]
  · rw [List.length_modify]
    exact h.kept
  · rw [List.length_append, List.length_append, h.length]
    rfl
  · rw [List.length_modify, List.mem_append, h.placed, List.mem_singleton, Option.some.injEq]
    exact ⟨fun hor => hor.elim id fun heq => heq ▸ hi, Or.inl⟩
  · rw [List.count_append, List.count_singleton]
    by_cases hij : i = j
    · rw [← hij, List.getElem?_modify_eq, he] at hj
      obtain rfl := Option.some.inj hj
      rw [← hij, occurrences_setMember, if_pos (beq_self_eq_true _)]
    · rw [List.getElem?_modify_ne _ _ hij] at hj
      rw [h.counted j e' hj, if_neg (by simpa using hij), Nat.add_zero]
  · rw [List.count_append, h.dropped]
    rfl
  · rw [List.length_modify] at hb
    exact h.ordered_concat _ hab hb
  · refine h.shown_concat _ (fun j e' hj => ?_) fun j hj => ?_
    · by_cases hij : i = j
      · rw [← hij, he] at hj
        obtain rfl := Option.some.inj hj
        rw [← hij, List.getElem?_modify_eq, he, Option.map_eq_map, Option.map_some, Option.map_some,
          withoutCount_setMember]
      · rw [List.getElem?_modify_ne _ _ hij, hj, Option.map_some]
    · obtain rfl := Option.some.inj hj
      rw [List.getElem?_modify_eq, he, Option.map_eq_map, Option.map_some, Option.map_some,
        withoutCount_setMember, hsame]

theorem Inv.overflow (h : Inv s calls slots) :
    Inv { s with droppedCount := s.droppedCount + 1 } (calls ++ [call]) (slots ++ [none]) := by
  refine ⟨h.keys, h.kept, ?_, fun j => ?_, fun j e hj => ?_, ?_, fun a b hab hb => ?_, ?_⟩
  · rw [List.length_append, List.length_append, h.length]
    rfl
  · rw [List.mem_append, List.mem_singleton, h.placed]
    exact ⟨fun hor => hor.elim id (fun heq => by cases heq), Or.inl⟩
  · rw [List.count_append, List.count_singleton, if_neg (by simp), Nat.add_zero]
    exact h.counted j e hj
  · rw [List.count_append, List.count_singleton, if_pos (beq_self_eq_true _), h.dropped]
  · exact h.ordered_concat _ hab hb
  · refine h.shown_concat _ (fun j e hj => ?_) fun j hj => by cases hj
    rw [hj, Option.map_some]

theorem Inv.added (h : Inv s calls slots) (hroom : s.callList.length < MaxCalls)
    (hcount : countName ∉ (form call).map Prod.fst) :
    Inv { s with
        callList := s.callList ++ [form call]
        keyList := s.keyList ++ [keyOf (form call)] }
      (calls ++ [call]) (slots ++ [some s.callList.length]) := by
  have hfresh : some s.callList.length ∉ slots := fun hmem =>
    (Nat.lt_irrefl _) ((h.placed _).mp hmem)
  refine ⟨?_, ?_, ?_, fun j => ?_, fun j e hj => ?_, ?_, fun a b hab hb => ?_, ?_⟩
  · rw [List.map_append, h.keys, List.map_singleton, withoutCount_of_uncounted hcount]
  · rw [List.length_append]
    exact hroom
  · rw [List.length_append, List.length_append, h.length]
    rfl
  · rw [List.mem_append, List.mem_singleton, h.placed, Option.some.injEq, List.length_append]
    exact Nat.lt_succ_iff_lt_or_eq.symm
  · rw [List.count_append, List.count_singleton]
    rcases lt_trichotomy j s.callList.length with hlt | heq | hgt
    · rw [List.getElem?_append_left hlt] at hj
      rw [h.counted j e hj, if_neg (by simpa using hlt.ne'), Nat.add_zero]
    · rw [heq, List.getElem?_concat_length] at hj
      obtain rfl := Option.some.inj hj
      rw [heq, List.count_eq_zero_of_not_mem hfresh, if_pos (beq_self_eq_true _),
        occurrences_of_uncounted hcount]
    · rw [List.getElem?_eq_none (by simp; omega)] at hj
      cases hj
  · rw [List.count_append, List.count_singleton, if_neg (by simp), Nat.add_zero, h.dropped]
  · rw [List.length_append, List.length_singleton] at hb
    rcases (Nat.lt_succ_iff.mp hb).lt_or_eq with hlt | rfl
    · exact h.ordered_concat _ hab hlt
    · rw [List.idxOf_append_of_mem ((h.placed a).mpr hab), List.idxOf_append_of_notMem hfresh]
      exact (List.idxOf_lt_length_iff.mpr ((h.placed a).mpr hab)).trans_le (Nat.le_add_right _ _)
  · refine h.shown_concat _ (fun j e hj => ?_) fun j hj => ?_
    · rw [List.getElem?_append_left (List.getElem?_eq_some_iff.mp hj).1, hj, Option.map_some]
    · obtain rfl := Option.some.inj hj
      rw [List.getElem?_concat_length, Option.map_some, withoutCount_of_uncounted hcount]

theorem Inv.recorded (h : Inv s calls slots) (hlength : calls.length < 2 ^ 53)
    (hplain : Plainly s call) :
    Inv (s.recorded call) (calls ++ [call]) (slots ++ [s.slot call]) := by
  cases hfind : s.find (keyOf (form call)) with
  | some i =>
      rw [Recorder.slot_found hfind]
      exact h.merged hlength hfind hplain
  | none =>
      by_cases hfull : MaxCalls ≤ s.callList.length
      · obtain ⟨hslot, hrecorded⟩ := Recorder.slot_dropped hfind hfull
        rw [hslot, hrecorded]
        exact h.overflow
      · obtain ⟨hslot, hrecorded⟩ := Recorder.slot_added hfind hfull
        have hcount := hplain.uncounted (by rw [hslot]; exact Option.some_ne_none _)
        rw [hslot, hrecorded]
        exact h.added (Nat.lt_of_not_le hfull) hcount

end

/-! ### Sequences of calls -/

/-- A call, as a step that is always possible. -/
def recordStep (s : Recorder) (call : ClientCall) : Option Recorder :=
  some (s.recorded call)

theorem Inv.recordAll {s : Recorder} {done : List ClientCall} {slots : List (Option ℕ)}
    (h : Inv s done slots) {calls : List ClientCall} (hlength : done.length + calls.length ≤ 2 ^ 53)
    (hplain : Along recordStep Plainly s calls) :
    Inv (s.recordAll calls) (done ++ calls) (slots ++ s.slots calls) := by
  induction calls generalizing s done slots with
  | nil =>
      rw [List.append_nil, Recorder.slots, List.append_nil]
      exact h
  | cons call calls ih =>
      rw [List.length_cons] at hlength
      have hnext := ih (h.recorded (by omega) hplain.1)
        (by rw [List.length_append, List.length_singleton]; omega) hplain.2
      rw [List.append_assoc, List.append_assoc] at hnext
      exact hnext

/-- Every place counted, and those that have none. -/
theorem sum_count {n : ℕ} (slots : List (Option ℕ)) (h : ∀ i, some i ∈ slots → i < n) :
    ((List.range n).map fun i => slots.count (some i)).sum + slots.count none = slots.length := by
  change ∑ i ∈ Finset.range n, slots.count (some i) + slots.count none = slots.length
  induction slots with
  | nil => simp
  | cons o slots ih =>
      have hrest := ih fun i hi => h i (List.mem_cons_of_mem _ hi)
      cases o with
      | none =>
          have hsame : ∀ i, (none :: slots).count (some i) = slots.count (some i) := fun i =>
            List.count_cons_of_ne (by simp)
          simp only [hsame, List.count_cons_self, List.length_cons]
          omega
      | some j =>
          have hj : j ∈ Finset.range n := Finset.mem_range.mpr (h j List.mem_cons_self)
          have hone : ∀ i, (some j :: slots).count (some i) =
              slots.count (some i) + if j = i then 1 else 0 := by
            intro i
            rw [List.count_cons]
            simp
          have hnone : (some j :: slots).count none = slots.count none :=
            List.count_cons_of_ne (by simp)
          simp only [hone, hnone, Finset.sum_add_distrib, Finset.sum_ite_eq, if_pos hj,
            List.length_cons]
          omega

theorem Inv.total {s : Recorder} {calls : List ClientCall} {slots : List (Option ℕ)}
    (h : Inv s calls slots) :
    (s.callList.map fun e => (occurrences e).getD 0).sum + s.droppedCount = calls.length := by
  have hmap : (s.callList.map fun e => (occurrences e).getD 0) =
      (List.range s.callList.length).map fun i => slots.count (some i) := by
    refine List.ext_getElem? fun i => ?_
    rw [List.getElem?_map, List.getElem?_map]
    cases he : s.callList[i]? with
    | none =>
        rw [List.getElem?_eq_none_iff.mpr (by simpa using he)]
        rfl
    | some e =>
        have hi := (List.getElem?_eq_some_iff.mp he).1
        rw [List.getElem?_range hi, Option.map_some, Option.map_some, h.counted i e he,
          Option.getD_some]
  rw [hmap, h.dropped, sum_count slots fun i hi => (h.placed i).mp hi, h.length]

theorem Inv.lossless {calls : List ClientCall}
    (h : Inv (Recorder.empty.recordAll calls) calls (Recorder.empty.slots calls)) :
    Lossless calls :=
  ⟨h.kept, h.total, h.counted, h.ordered, h.shown⟩

/-- A call leaves the other members of the entries that are there. -/
theorem recorded_withoutCount {s : Recorder} (call : ClientCall) {i : ℕ}
    (hi : i < s.callList.length) : ((s.recorded call).callList[i]?).map withoutCount =
      (s.callList[i]?).map withoutCount := by
  cases hfind : s.find (keyOf (form call)) with
  | some j =>
      cases hcount : s.nextCount j with
      | none => rw [Recorder.recorded_thrown hfind hcount]
      | some count =>
          rw [Recorder.recorded_merged hfind hcount]
          by_cases hij : j = i
          · rw [hij, List.getElem?_modify_eq, List.getElem?_eq_getElem hi, Option.map_eq_map,
              Option.map_some, Option.map_some, Option.map_some, withoutCount_setMember]
          · rw [List.getElem?_modify_ne _ _ hij]
  | none =>
      by_cases hfull : MaxCalls ≤ s.callList.length
      · rw [(Recorder.slot_dropped hfind hfull).2]
      · rw [(Recorder.slot_added hfind hfull).2, List.getElem?_append_left hi]

theorem length_recorded (s : Recorder) (call : ClientCall) :
    s.callList.length ≤ (s.recorded call).callList.length := by
  cases hfind : s.find (keyOf (form call)) with
  | some j =>
      cases hcount : s.nextCount j with
      | none => rw [Recorder.recorded_thrown hfind hcount]
      | some count => rw [Recorder.recorded_merged hfind hcount, List.length_modify]
  | none =>
      by_cases hfull : MaxCalls ≤ s.callList.length
      · rw [(Recorder.slot_dropped hfind hfull).2]
      · rw [(Recorder.slot_added hfind hfull).2, List.length_append]
        exact Nat.le_add_right _ _

theorem recordAll_withoutCount {s : Recorder} {calls : List ClientCall} {i : ℕ}
    (hi : i < s.callList.length) : ((s.recordAll calls).callList[i]?).map withoutCount =
      (s.callList[i]?).map withoutCount := by
  induction calls generalizing s with
  | nil => rfl
  | cons call calls ih =>
      rw [← recorded_withoutCount call hi]
      exact ih (hi.trans_le (length_recorded s call))

/-- What is shown in the end was shown by every call on its way. -/
theorem along_of_shown {s : Recorder} {calls : List ClientCall}
    (h : ∀ (k : ℕ) (call : ClientCall) (i : ℕ), calls[k]? = some call →
      (s.slots calls)[k]? = some (some i) →
        ((s.recordAll calls).callList[i]?).map withoutCount = some (form call)) :
    Along recordStep Plainly s calls := by
  induction calls generalizing s with
  | nil => trivial
  | cons call calls ih =>
      refine ⟨⟨fun hslot => ?_, fun i e hfind he => ?_⟩, ih fun k c i hc hi => ?_⟩
      · obtain ⟨i, hi⟩ := Option.ne_none_iff_exists'.mp hslot
        have hshown := h 0 call i rfl (by rw [Recorder.slots, hi]; rfl)
        obtain ⟨e, _, he⟩ := Option.map_eq_some_iff.mp hshown
        rw [← he]
        exact uncounted_withoutCount e
      · have hshown := h 0 call i rfl (by rw [Recorder.slots, Recorder.slot_found hfind]; rfl)
        rw [recordAll_withoutCount (List.getElem?_eq_some_iff.mp he).1, he] at hshown
        exact Or.inr (Option.some.inj hshown)
      · exact h (k + 1) c i hc hi

/-! ### The result -/

/-- Every call is counted at an entry that shows it exactly when no call that gets an entry has a
member `count`, and no two calls are merged that differ in what their JSON text leaves out. -/
theorem recordAll_lossless_iff {calls : List ClientCall} (h : calls.length ≤ 2 ^ 53) :
    Lossless calls ↔ Along recordStep Plainly Recorder.empty calls := by
  constructor
  · exact fun hlossless => along_of_shown hlossless.shown
  · intro hplain
    have hinv := inv_empty.recordAll (by rw [List.length_nil, Nat.zero_add]; exact h) hplain
    exact Inv.lossless hinv

def queryCall : ClientCall :=
  [(text "client", .string (text "wire")), (text "kind", .string (text "rpc"))]

/-- A query that is repeated once. -/
theorem recordAll_lossless_repeated : Lossless [queryCall, queryCall] := by
  have hplain : countName ∉ (form queryCall).map Prod.fst := by decide
  refine (recordAll_lossless_iff (by decide)).mpr ⟨⟨fun _ => hplain, fun i e hfind => ?_⟩,
    ⟨fun _ => hplain, fun i e hfind he => ?_⟩, trivial⟩
  · cases hfind
  · have hfound : (Recorder.empty.recorded queryCall).find (keyOf (form queryCall)) = some 0 := by
      decide
    obtain rfl := Option.some.inj (hfound.symm.trans hfind)
    obtain rfl := Option.some.inj he
    exact Or.inr (withoutCount_of_uncounted hplain)

/-- A payload with a counter of its own, recorded once. -/
theorem payload_count_counted : ¬Lossless [[(text "client", .string (text "wire")),
    (text "kind", .string (text "rpc")), (text "count", .number (.finite (ofNat 5)))]] := by
  intro h
  have htotal := h.total
  revert htotal
  decide

end WireTools.StepExtraRecorder

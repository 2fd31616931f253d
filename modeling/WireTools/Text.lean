import Mathlib.Data.List.Basic

/-! # Texts and fixed-length patterns

A text is the list of its UTF-16 code units, as the source language stores it.  The regular
expressions the tools search with read a fixed number of units each: a `Pattern` is a list
of unit classes, with an optional word boundary after the last one.

* `Pattern.find` is the first slice a pattern matches, `Pattern.occurs` whether there is one;
* a pattern occurring in a text occurs in it behind any other text (`occurs_append_left`), and
  before any text that starts no word (`occurs_append_right`);
* a pattern that reads no separator and occurs in a text still occurs after more text is put
  before a separator (`occurs_splice`). -/

namespace WireTools

/-- A UTF-16 code unit. -/
abbrev CodeUnit := UInt16

/-- A text: its UTF-16 code units. -/
abbrev Text := List CodeUnit

/-- The code units of one character: one, or a surrogate pair. -/
def codeUnits (c : Char) : Text :=
  if c.toNat < 0x10000 then [UInt16.ofNat c.toNat]
  else [UInt16.ofNat (0xD800 + (c.toNat - 0x10000) / 0x400),
    UInt16.ofNat (0xDC00 + (c.toNat - 0x10000) % 0x400)]

/-- A literal of the source as a text. -/
def text (s : String) : Text :=
  s.toList.flatMap codeUnits

/-- The units of a text are searched, not all units that there are. -/
instance (priority := high) decidableForallUnit {p : CodeUnit → Prop} [DecidablePred p]
    (t : Text) : Decidable (∀ c ∈ t, p c) :=
  List.decidableBAll p t

/-- A text is looked up in a list by its units. -/
instance (priority := high) decidableMemText (t : Text) (ts : List Text) : Decidable (t ∈ ts) :=
  List.instDecidableMemOfLawfulBEq t ts

/-- The line feed, which separates the lines of a message. -/
def newline : CodeUnit := 10

/-- The blank, which separates the words of a command line. -/
def blank : CodeUnit := 32

/-- The texts joined with `separator` between neighbours. -/
def join (separator : Text) : List Text → Text
  | [] => []
  | t :: ts => t ++ ts.flatMap (fun u => separator ++ u)

/-- Every occurrence of one unit replaced by a text. -/
def replaceAll (c : CodeUnit) (replacement : Text) (t : Text) : Text :=
  t.flatMap fun d => if d = c then replacement else [d]

theorem join_append (separator t : Text) (ts us : List Text) :
    join separator (t :: ts ++ us) =
      join separator (t :: ts) ++ us.flatMap (fun u => separator ++ u) := by
  simp only [List.cons_append, join, List.flatMap_append, List.append_assoc]

/-- A joined list in two parts. -/
theorem join_append_cons (separator t u : Text) (ts us : List Text) :
    join separator (t :: ts ++ u :: us) =
      join separator (t :: ts) ++ (separator ++ join separator (u :: us)) := by
  rw [join_append, List.flatMap_cons, @join.eq_2 separator u us]
  simp only [List.append_assoc]

/-- Items that each end with the separator, and one more. -/
theorem join_concat (separator last : Text) (ts : List Text) :
    join separator (ts ++ [last]) = ts.flatMap (fun t => t ++ separator) ++ last := by
  induction ts with
  | nil => rw [List.nil_append, join, List.flatMap_nil, List.append_nil]; rfl
  | cons t ts ih =>
      obtain ⟨u, us, hus⟩ : ∃ u us, ts ++ [last] = u :: us :=
        List.exists_cons_of_ne_nil (List.append_ne_nil_of_right_ne_nil _ (List.cons_ne_nil _ _))
      have hsplit := join_append_cons separator t u [] us
      rw [List.cons_append, List.nil_append] at hsplit
      rw [List.cons_append, hus, hsplit, ← hus, ih, join, List.flatMap_nil, List.append_nil,
        List.flatMap_cons, List.append_assoc, List.append_assoc]

theorem join_eq_intercalate (separator : Text) (ts : List Text) :
    join separator ts = separator.intercalate ts := by
  cases ts with
  | nil => rfl
  | cons t ts =>
      induction ts generalizing t with
      | nil => simp [join]
      | cons u ts ih =>
          rw [List.intercalate_cons_cons, ← ih]
          simp only [join, List.flatMap_cons, List.append_assoc]

/-! ### Classes of units -/

/-- A class of code units: what one position of a pattern may read. -/
abbrev UnitClass := CodeUnit → Bool

def isDigit : UnitClass := fun c => 48 ≤ c && c ≤ 57

def isUpper : UnitClass := fun c => 65 ≤ c && c ≤ 90

def isLower : UnitClass := fun c => 97 ≤ c && c ≤ 122

/-- `\w`: a letter, a digit or an underscore. -/
def isWord : UnitClass := fun c => isDigit c || isUpper c || isLower c || c == 95

/-- `\s`: the white space and the line terminators of the source language. -/
def isSpace : UnitClass := fun c =>
  [9, 10, 11, 12, 13, 32, 160, 0x1680, 0x2028, 0x2029, 0x202F, 0x205F, 0x3000, 0xFEFF].contains c
    || (0x2000 ≤ c && c ≤ 0x200A)

/-- An ASCII letter in its lower case, anything else unchanged. -/
def toLower (c : CodeUnit) : CodeUnit :=
  if isUpper c then c + 32 else c

/-- Reads exactly `c`. -/
def exactly (c : CodeUnit) : UnitClass := fun d => d == c

/-- Reads `c` in either case. -/
def caseless (c : CodeUnit) : UnitClass := fun d => toLower d == toLower c

/-- A stretch of a class, up to what is not of the class. -/
theorem takeWhile_append_stop {p : UnitClass} {t r : Text} (ht : ∀ c ∈ t, p c = true)
    (hr : ∀ c ∈ r.head?, p c = false) :
    (t ++ r).takeWhile p = t ∧ (t ++ r).dropWhile p = r := by
  induction t with
  | nil =>
      cases r with
      | nil => exact ⟨rfl, rfl⟩
      | cons c r =>
          have hc := hr c rfl
          exact ⟨by rw [List.nil_append, List.takeWhile_cons, hc]; rfl,
            by rw [List.nil_append, List.dropWhile_cons, hc]; rfl⟩
  | cons d t ih =>
      rw [List.forall_mem_cons] at ht
      obtain ⟨htake, hdrop⟩ := ih ht.2
      exact ⟨by rw [List.cons_append, List.takeWhile_cons, ht.1, if_pos rfl, htake],
        by rw [List.cons_append, List.dropWhile_cons, ht.1, if_pos rfl, hdrop]⟩

theorem exists_digit {c : CodeUnit} (h : isDigit c = true) :
    ∃ d < 10, c = UInt16.ofNat (48 + d) := by
  rw [isDigit, Bool.and_eq_true, decide_eq_true_eq, decide_eq_true_eq, UInt16.le_iff_toNat_le,
    UInt16.le_iff_toNat_le] at h
  have hlower : 48 ≤ c.toNat := h.1
  have hupper : c.toNat ≤ 57 := h.2
  have hsize : 48 + (c.toNat - 48) < 0x10000 := by omega
  refine ⟨c.toNat - 48, by omega, UInt16.toNat_inj.mp ?_⟩
  rw [UInt16.toNat_ofNat_of_lt' hsize]
  omega

/-! ### Fixed-length patterns -/

/-- Reads one unit of each class in order: what is left of the text. -/
def reads : List UnitClass → Text → Option Text
  | [], t => some t
  | _ :: _, [] => none
  | k :: ks, c :: t => if k c then reads ks t else none

/-- A pattern of fixed length. -/
structure Pattern where
  /-- The class of the unit read at each position. -/
  classes : List UnitClass
  /-- Whether the last unit read must be the last of its word. -/
  endsWord : Bool

/-- No word goes on at the start of `t`. -/
def wordEnds (t : Text) : Bool :=
  !t.head?.any isWord

namespace Pattern

/-- Whether the pattern matches at the start of `t`. -/
def matchesAt (p : Pattern) (t : Text) : Bool :=
  (reads p.classes t).any fun rest => !p.endsWord || wordEnds rest

/-- The first slice of `t` that the pattern matches. -/
def find (p : Pattern) : Text → Option Text
  | [] => if p.matchesAt [] then some [] else none
  | c :: t => if p.matchesAt (c :: t) then some ((c :: t).take p.classes.length) else p.find t

/-- Whether the pattern matches somewhere in `t`. -/
def occurs (p : Pattern) (t : Text) : Bool :=
  (p.find t).isSome

/-- Whether the pattern reads `c` at no position. -/
def avoids (p : Pattern) (c : CodeUnit) : Bool :=
  p.classes.all fun k => !k c

/-- The literal `s`. -/
def literal (s : String) : Pattern :=
  ⟨(text s).map exactly, false⟩

/-- The literal `s` in any mixture of cases. -/
def anyCase (s : String) : Pattern :=
  ⟨(text s).map caseless, false⟩

end Pattern

/-! ### Reading -/

theorem reads_append (w : Text) : ∀ {ks : List UnitClass} {t rest : Text},
    reads ks t = some rest → reads ks (t ++ w) = some (rest ++ w)
  | [], t, rest, h => by
      simp only [reads, Option.some.injEq] at h ⊢
      rw [h]
  | k :: ks, [], rest, h => by simp [reads] at h
  | k :: ks, c :: t, rest, h => by
      simp only [reads, List.cons_append] at h ⊢
      split at h
      · rw [if_pos (by assumption)]
        exact reads_append w h
      · exact absurd h (by simp)

/-- A pattern that reads no `separator` reads only what stands before it, so what follows the
separator does not matter. -/
theorem reads_before_separator {separator : CodeUnit} {u : Text} :
    ∀ {ks : List UnitClass} {x rest : Text}, (ks.all fun k => !k separator) = true →
      reads ks (x ++ separator :: u) = some rest →
      ∃ x', rest = x' ++ separator :: u ∧ ∀ v, reads ks (x ++ v) = some (x' ++ v)
  | [], x, rest, _, h => by
      simp only [reads, Option.some.injEq] at h
      exact ⟨x, h.symm, fun v => rfl⟩
  | k :: ks, [], rest, hk, h => by
      rw [List.all_cons, Bool.and_eq_true, Bool.not_eq_true'] at hk
      simp [reads, hk.1] at h
  | k :: ks, c :: x, rest, hk, h => by
      rw [List.all_cons, Bool.and_eq_true] at hk
      simp only [reads, List.cons_append] at h
      split at h
      · obtain ⟨x', hrest, hx'⟩ := reads_before_separator hk.2 h
        refine ⟨x', hrest, fun v => ?_⟩
        simp only [reads, List.cons_append]
        rw [if_pos (by assumption)]
        exact hx' v
      · exact absurd h (by simp)

/-! ### Occurrences -/

namespace Pattern

variable {p : Pattern}

theorem occurs_nil : p.occurs [] = p.matchesAt [] := by
  unfold occurs find
  split <;> simp_all

theorem occurs_cons (c : CodeUnit) (t : Text) :
    p.occurs (c :: t) = (p.matchesAt (c :: t) || p.occurs t) := by
  unfold occurs
  rw [find]
  split <;> simp_all

/-- A match at the start is an occurrence. -/
theorem occurs_of_matchesAt {t : Text} (h : p.matchesAt t = true) : p.occurs t = true := by
  cases t with
  | nil => rw [occurs_nil, h]
  | cons c t => rw [occurs_cons, h, Bool.true_or]

/-- A match is kept when a text that starts no word is put behind it. -/
theorem matchesAt_append {t r : Text} (hr : wordEnds r = true) (h : p.matchesAt t = true) :
    p.matchesAt (t ++ r) = true := by
  unfold matchesAt at h ⊢
  cases hreads : reads p.classes t with
  | none => rw [hreads] at h; exact absurd h (by simp)
  | some rest =>
      rw [hreads] at h
      rw [reads_append r hreads]
      simp only [Option.any_some, Bool.or_eq_true] at h ⊢
      rcases h with hend | hend
      · exact Or.inl hend
      · refine Or.inr ?_
        cases rest with
        | nil => exact hr
        | cons c rest => exact hend

/-- What occurs in a text occurs in it behind any other text. -/
theorem occurs_append_left (x : Text) {t : Text} (h : p.occurs t = true) :
    p.occurs (x ++ t) = true := by
  induction x with
  | nil => exact h
  | cons c x ih => rw [List.cons_append, occurs_cons, ih, Bool.or_true]

/-- What occurs in a text occurs in it before any text that starts no word. -/
theorem occurs_append_right {r : Text} (hr : wordEnds r = true) :
    ∀ {t : Text}, p.occurs t = true → p.occurs (t ++ r) = true
  | [], h => by
      rw [occurs_nil] at h
      exact occurs_of_matchesAt (matchesAt_append hr h)
  | c :: t, h => by
      rw [List.cons_append, occurs_cons, Bool.or_eq_true] at *
      rcases h with hmatch | hlater
      · exact Or.inl (matchesAt_append (t := c :: t) hr hmatch)
      · exact Or.inr (occurs_append_right hr hlater)

/-- A match is kept when what it reads is followed by `v` instead of the separator. -/
theorem matchesAt_splice {separator : CodeUnit} {x u v : Text}
    (hk : p.avoids separator = true) (hv : wordEnds v = true)
    (h : p.matchesAt (x ++ separator :: u) = true) : p.matchesAt (x ++ v) = true := by
  unfold matchesAt at h ⊢
  cases hr : reads p.classes (x ++ separator :: u) with
  | none => rw [hr] at h; exact absurd h (by simp)
  | some rest =>
      obtain ⟨x', hrest, hx'⟩ := reads_before_separator hk hr
      rw [hr] at h
      rw [hx' v]
      simp only [Option.any_some, Bool.or_eq_true] at h ⊢
      rcases h with hend | hend
      · exact Or.inl hend
      · refine Or.inr ?_
        rw [hrest] at hend
        cases x' with
        | nil => exact hv
        | cons c x' => exact hend

/-- What occurs across or before a separator that the pattern cannot read still occurs after
a text that starts no word is put before the separator. -/
theorem occurs_splice {separator : CodeUnit} {x y u : Text}
    (hk : p.avoids separator = true) (hy : wordEnds (y ++ separator :: u) = true)
    (h : p.occurs (x ++ separator :: u) = true) :
    p.occurs (x ++ (y ++ separator :: u)) = true := by
  induction x with
  | nil => exact occurs_append_left y h
  | cons c x ih =>
      rw [List.cons_append, occurs_cons, Bool.or_eq_true] at h ⊢
      rcases h with hmatch | hlater
      · exact Or.inl (matchesAt_splice hk hy (x := c :: x) hmatch)
      · exact Or.inr (ih hlater)

/-- A text the whole pattern reads occurs wherever it stands, when no word goes on behind
it. -/
theorem occurs_of_reads {w : Text} (hw : reads p.classes w = some []) (x : Text) {t : Text}
    (ht : wordEnds t = true) : p.occurs (x ++ (w ++ t)) = true := by
  apply occurs_append_left
  apply occurs_of_matchesAt
  unfold matchesAt
  rw [reads_append t hw]
  simp [ht]

end Pattern

end WireTools

import Mathlib.Data.List.Basic
import Mathlib.Data.List.Count
import Mathlib.Data.List.Infix

/-! # Templates with two blanks

A template is a list of parts: words that stand as they are, and two blanks, each of which may
come any number of times.  `fill u v` puts `u` into the first blank and `v` into the second.

* `Apart u u'`: neither word ends in the other, unless they are the same; `Apart.separated` and
  `Apart.of_notMem` for words with a separator;
* `fill_inj`: with words apart, a filled template determines what its blanks were filled with;
* `length_fill`: how long a filled template is. -/

namespace WireTools.Templates

inductive TemplatePart (α : Type) where
  | lit (w : List α)
  | first
  | second
deriving DecidableEq

variable {α : Type}

namespace TemplatePart

/-- The word a part stands for. -/
def word (u v : List α) : TemplatePart α → List α
  | lit w => w
  | first => u
  | second => v

end TemplatePart

def fill (u v : List α) (ps : List (TemplatePart α)) : List α := ps.flatMap (TemplatePart.word u v)

@[simp] theorem fill_nil (u v : List α) : fill u v [] = [] := rfl

@[simp] theorem fill_cons (u v : List α) (p : TemplatePart α) (ps : List (TemplatePart α)) :
    fill u v (p :: ps) = p.word u v ++ fill u v ps := rfl

theorem fill_append (u v : List α) (ps qs : List (TemplatePart α)) :
    fill u v (ps ++ qs) = fill u v ps ++ fill u v qs := by
  unfold fill
  rw [List.flatMap_append]

/-- Neither word ends in the other, unless they are the same. -/
def Apart (u u' : List α) : Prop := u <:+ u' ∨ u' <:+ u → u = u'

theorem Apart.refl (u : List α) : Apart u u := fun _ => rfl

theorem Apart.symm {u u' : List α} (h : Apart u u') : Apart u' u :=
  fun hs => (h hs.symm).symm

/-- Words of one length are apart. -/
theorem Apart.of_length {u u' : List α} (h : u.length = u'.length) : Apart u u' := by
  rintro (hs | hs)
  · exact hs.eq_of_length h
  · exact (hs.eq_of_length h.symm).symm

/-- Words with different ends are apart. -/
theorem Apart.of_getLast? {u u' : List α} (hu : u ≠ []) (hu' : u' ≠ [])
    (h : u.getLast? ≠ u'.getLast?) : Apart u u' := by
  have hend : ∀ {a b : List α}, a ≠ [] → a <:+ b → a.getLast? = b.getLast? := by
    rintro a b ha ⟨s, rfl⟩
    rw [List.getLast?_append_of_ne_nil _ ha]
  rintro (hs | hs)
  · exact absurd (hend hu hs) h
  · exact absurd (hend hu' hs).symm h

/-- Two words that both end a word are one an end of the other. -/
theorem Apart.of_append_eq {u u' s s' : List α} (h : Apart u u') (heq : s ++ u = s' ++ u') :
    u = u' := by
  apply h
  have hu : u <:+ s ++ u := List.suffix_append s u
  have hu' : u' <:+ s ++ u := by
    rw [heq]
    exact List.suffix_append s' u'
  rcases Nat.le_total u.length u'.length with hle | hle
  · exact Or.inl (List.suffix_of_suffix_length_le hu hu' hle)
  · exact Or.inr (List.suffix_of_suffix_length_le hu' hu hle)

/-- Words are read off behind the last separator. -/
theorem separator_inj {c : α} {p p' s s' : List α} (hs : c ∉ s) (hs' : c ∉ s')
    (h : p ++ c :: s = p' ++ c :: s') : p = p' ∧ s = s' := by
  rw [List.append_eq_append_iff] at h
  rcases h with ⟨r, rfl, hr⟩ | ⟨r, rfl, hr⟩
  · cases r with
    | nil =>
        rw [List.nil_append, List.cons.injEq] at hr
        exact ⟨by simp, hr.2⟩
    | cons d r =>
        rw [List.cons_append, List.cons.injEq] at hr
        refine absurd ?_ hs
        rw [hr.2]
        simp
  · cases r with
    | nil =>
        rw [List.nil_append, List.cons.injEq] at hr
        exact ⟨by simp, hr.2.symm⟩
    | cons d r =>
        rw [List.cons_append, List.cons.injEq] at hr
        refine absurd ?_ hs'
        rw [hr.2]
        simp

/-- Words with separators are apart when what stands before their last separators is. -/
theorem Apart.separated {c : α} {p p' s s' : List α} (hs : c ∉ s) (hs' : c ∉ s')
    (hp : Apart p p') : Apart (p ++ c :: s) (p' ++ c :: s') := by
  rintro (⟨r, hr⟩ | ⟨r, hr⟩)
  · rw [← List.append_assoc] at hr
    obtain ⟨hfront, rfl⟩ := separator_inj hs hs' hr
    rw [hp (Or.inl ⟨r, hfront⟩)]
  · rw [← List.append_assoc] at hr
    obtain ⟨hfront, rfl⟩ := separator_inj hs' hs hr
    rw [hp (Or.inr ⟨r, hfront⟩)]

/-- A word with a separator is apart from one without that is no end of what stands behind. -/
theorem Apart.of_notMem {c : α} {p s u : List α} (hu : c ∉ u) (hs : ¬u <:+ s) :
    Apart (p ++ c :: s) u := by
  rintro (hsuffix | hsuffix)
  · refine absurd ?_ hu
    apply hsuffix.subset
    simp
  · exfalso
    have htail : c :: s <:+ p ++ c :: s := List.suffix_append p (c :: s)
    rcases Nat.le_total u.length (c :: s).length with hle | hle
    · rcases List.suffix_cons_iff.mp (List.suffix_of_suffix_length_le hsuffix htail hle) with
        rfl | hend
      · exact hu List.mem_cons_self
      · exact hs hend
    · exact hu ((List.suffix_of_suffix_length_le htail hsuffix hle).subset List.mem_cons_self)

/-- A filled template determines its blanks.  The induction goes from the last part, whose word
ends both filled templates. -/
theorem fill_inj {u u' v v' : List α} (hu : Apart u u') (hv : Apart v v')
    {ps : List (TemplatePart α)} (h : fill u v ps = fill u' v' ps) :
    (.first ∈ ps → u = u') ∧ (.second ∈ ps → v = v') := by
  induction ps using List.reverseRecOn with
  | nil => simp
  | append_singleton ps p ih =>
      rw [fill_append, fill_append] at h
      simp only [fill_cons, fill_nil, List.append_nil] at h
      cases p with
      | lit w =>
          have hrest := ih (List.append_cancel_right h)
          simpa using hrest
      | first =>
          obtain rfl : u = u' := hu.of_append_eq h
          have hrest := ih (List.append_cancel_right h)
          simpa using hrest.2
      | second =>
          obtain rfl : v = v' := hv.of_append_eq h
          have hrest := ih (List.append_cancel_right h)
          simpa using hrest.1

/-- A blank that does not come makes no difference. -/
theorem fill_congr {u u' v v' : List α} {ps : List (TemplatePart α)} (hu : .first ∈ ps → u = u')
    (hv : .second ∈ ps → v = v') : fill u v ps = fill u' v' ps := by
  unfold fill
  refine List.flatMap_congr fun p hp => ?_
  cases p with
  | lit w => rfl
  | first => exact hu hp
  | second => exact hv hp

section Length

variable [DecidableEq α]

/-- How long the standing words of a template are. -/
def litLength (ps : List (TemplatePart α)) : ℕ := (fill [] [] ps).length

theorem length_fill (u v : List α) (ps : List (TemplatePart α)) :
    (fill u v ps).length =
      litLength ps + ps.count .first * u.length + ps.count .second * v.length := by
  unfold litLength
  induction ps with
  | nil => simp
  | cons p ps ih =>
      rw [fill_cons, fill_cons, List.length_append, List.length_append, ih]
      cases p with
      | lit w =>
          rw [List.count_cons_of_ne (by simp), List.count_cons_of_ne (by simp)]
          simp only [TemplatePart.word]
          omega
      | first =>
          rw [List.count_cons_self, List.count_cons_of_ne (by simp), Nat.add_mul]
          simp only [TemplatePart.word, List.length_nil]
          omega
      | second =>
          rw [List.count_cons_self, List.count_cons_of_ne (by simp), Nat.add_mul]
          simp only [TemplatePart.word, List.length_nil]
          omega

end Length

end WireTools.Templates

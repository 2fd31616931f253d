import Mathlib.Data.List.Basic
import WireTools.Lines
import WireTools.Text

/-! # Paths

Paths of names between slashes, as the path functions of the runtime read them: without looking
at a disk, so a directory is never a link.

* `locate`: the place that a path leads to, by the names from the root;
* `resolve`, `normalize` and `join` of the runtime, which lead to the same places (`resolve_eq`,
  `locate_normalize`, `locate_join`);
* `startsWith_iff`: a place lies below another one exactly when the one text continues the other
  one behind a slash;
* `relative`: how often a path climbs and which names it enters behind that (`foldl_enter`). -/

namespace WireTools.Path

def slash : CodeUnit := 47

def dot : Text := [46]

def dotDot : Text := [46, 46]

/-- What stands between the slashes. -/
def segments (p : Text) : List Text :=
  p.splitOn slash

def isAbsolute (p : Text) : Bool :=
  p.head? == some slash

/-! ### Places -/

/-- A place is the list of the names that lead to it from the root; a path is read segment by
segment. -/
def enter (place : List Text) (segment : Text) : List Text :=
  if segment = [] ∨ segment = dot then place
  else if segment = dotDot then place.dropLast
  else place ++ [segment]

/-- The working directory of a process. -/
structure Cwd where
  path : Text
  absolute : isAbsolute path = true

def locate (cwd : Cwd) (p : Text) : List Text :=
  (segments p).foldl enter (if isAbsolute p then [] else (segments cwd.path).foldl enter [])

/-- A segment that leads to one place below. -/
structure IsName (n : Text) : Prop where
  ne_nil : n ≠ []
  ne_dot : n ≠ dot
  ne_dotDot : n ≠ dotDot
  slash_not_mem : slash ∉ n

theorem enter_name {n : Text} (h : IsName n) (place : List Text) :
    enter place n = place ++ [n] := by
  rw [enter, if_neg (not_or.mpr ⟨h.ne_nil, h.ne_dot⟩), if_neg h.ne_dotDot]

@[simp] theorem enter_nil (place : List Text) : enter place [] = place :=
  if_pos (Or.inl rfl)

@[simp] theorem enter_dot (place : List Text) : enter place dot = place :=
  if_pos (Or.inr rfl)

@[simp] theorem enter_dotDot (place : List Text) : enter place dotDot = place.dropLast := by
  rw [enter, if_neg (by decide), if_pos rfl]

theorem foldl_enter_names {names : List Text} (h : ∀ n ∈ names, IsName n) (place : List Text) :
    names.foldl enter place = place ++ names := by
  induction names generalizing place with
  | nil => exact (List.append_nil _).symm
  | cons n names ih =>
      rw [List.forall_mem_cons] at h
      rw [List.foldl_cons, enter_name h.1, ih h.2, List.append_assoc, List.singleton_append]

theorem slash_not_mem_segments {p s : Text} (h : s ∈ segments p) : slash ∉ s :=
  Lines.not_mem_of_mem_splitOn h

/-- Whatever is read, a place stays a list of names. -/
theorem isName_foldl_enter {segs place : List Text} (hsegs : ∀ s ∈ segs, slash ∉ s)
    (hplace : ∀ n ∈ place, IsName n) : ∀ n ∈ segs.foldl enter place, IsName n := by
  induction segs generalizing place with
  | nil => exact hplace
  | cons s segs ih =>
      rw [List.forall_mem_cons] at hsegs
      refine ih hsegs.2 ?_
      unfold enter
      split
      · exact hplace
      · next hs =>
          rw [not_or] at hs
          split
          · exact fun n hn => hplace n ((List.dropLast_sublist place).subset hn)
          · next hne =>
              intro n hn
              rcases List.mem_append.mp hn with hmem | hlast
              · exact hplace n hmem
              · rw [List.mem_singleton.mp hlast]
                exact ⟨hs.1, hs.2, hne, hsegs.1⟩

theorem isName_locate (cwd : Cwd) (p : Text) : ∀ n ∈ locate cwd p, IsName n := by
  refine isName_foldl_enter (fun s => slash_not_mem_segments) ?_
  split
  · exact fun n hn => absurd hn List.not_mem_nil
  · exact isName_foldl_enter (fun s => slash_not_mem_segments)
      fun n hn => absurd hn List.not_mem_nil

/-! ### Relative paths -/

/-- How often a path has climbed above its start, and which names it has entered behind that. -/
def relativeSegment (r : ℕ × List Text) (segment : Text) : ℕ × List Text :=
  if segment = [] ∨ segment = dot then r
  else if segment = dotDot then if r.2 = [] then (r.1 + 1, []) else (r.1, r.2.dropLast)
  else (r.1, r.2 ++ [segment])

def relative (p : Text) : ℕ × List Text :=
  (segments p).foldl relativeSegment (0, [])

theorem enter_relative (place : List Text) (r : ℕ × List Text) (s : Text) :
    enter (place.take (place.length - r.1) ++ r.2) s =
      place.take (place.length - (relativeSegment r s).1) ++ (relativeSegment r s).2 := by
  unfold enter relativeSegment
  split
  · rfl
  · split
    · split
      · next hnil =>
          rw [hnil, List.append_nil, List.append_nil, List.dropLast_eq_take, List.take_take,
            List.length_take]
          congr 1
          omega
      · next hnames => rw [List.dropLast_append_of_ne_nil hnames]
    · rw [List.append_assoc]

theorem foldl_enter (place : List Text) (p : Text) : (segments p).foldl enter place =
    place.take (place.length - (relative p).1) ++ (relative p).2 := by
  suffices hfold : ∀ (segs : List Text) (r : ℕ × List Text),
      segs.foldl enter (place.take (place.length - r.1) ++ r.2) =
        place.take (place.length - (segs.foldl relativeSegment r).1) ++
          (segs.foldl relativeSegment r).2 by
    have hstart := hfold (segments p) (0, [])
    rwa [Nat.sub_zero, List.take_length, List.append_nil] at hstart
  intro segs
  induction segs with
  | nil => exact fun r => rfl
  | cons s segs ih =>
      intro r
      rw [List.foldl_cons, List.foldl_cons, enter_relative, ih]

/-- Without a slash, a path climbs once at most. -/
theorem relative_le_one {p : Text} (h : slash ∉ p) : (relative p).1 ≤ 1 := by
  rw [relative, segments, List.splitOn_eq_singleton h, List.foldl_cons, List.foldl_nil,
    relativeSegment]
  split
  · exact Nat.zero_le 1
  · split
    · exact Nat.le_refl 1
    · exact Nat.zero_le 1

/-! ### The path functions -/

/-- One segment in `normalizeString`: a climb that has nothing to leave is kept or ignored. -/
def normalizeSegment (allowAboveRoot : Bool) (stack : List Text) (segment : Text) : List Text :=
  if segment = [] ∨ segment = dot then stack
  else if segment = dotDot then
    if stack = [] ∨ stack.getLast? = some dotDot then
      if allowAboveRoot then stack ++ [dotDot] else stack
    else stack.dropLast
  else stack ++ [segment]

def normalizeString (p : Text) (allowAboveRoot : Bool) : Text :=
  WireTools.join [slash] ((segments p).foldl (normalizeSegment allowAboveRoot) [])

def resolve (cwd : Cwd) (p : Text) : Text :=
  slash :: normalizeString (if isAbsolute p then p else cwd.path ++ slash :: p) false

def normalize (p : Text) : Text :=
  if p = [] then dot
  else
    let path := normalizeString p (!isAbsolute p)
    let trailing := if p.getLast? = some slash then [slash] else []
    if path = [] then
      if isAbsolute p then [slash] else dot ++ trailing
    else if isAbsolute p then slash :: (path ++ trailing) else path ++ trailing

def join (ps : List Text) : Text :=
  let given := ps.filter (· ≠ [])
  if given = [] then dot else normalize (WireTools.join [slash] given)

/-! ### Normalized paths -/

theorem segments_append (a b : Text) : segments (a ++ slash :: b) = segments a ++ segments b :=
  List.splitOn_append_cons_self a b

theorem segments_join {ns : List Text} (h : ∀ n ∈ ns, slash ∉ n) (hne : ns ≠ []) :
    segments (WireTools.join [slash] ns) = ns := by
  rw [segments, join_eq_intercalate, List.splitOn_intercalate slash h hne]

/-- What `normalizeString` keeps on its stack. -/
structure Kept (allowAboveRoot : Bool) (n : Text) : Prop where
  ne_nil : n ≠ []
  ne_dot : n ≠ dot
  ne_dotDot : allowAboveRoot = false → n ≠ dotDot
  slash_not_mem : slash ∉ n

theorem kept_normalizeSegment {allow : Bool} {stack : List Text} {s : Text} (hs : slash ∉ s)
    (h : ∀ n ∈ stack, Kept allow n) : ∀ n ∈ normalizeSegment allow stack s, Kept allow n := by
  have hpush {t : Text} (ht : Kept allow t) : ∀ n ∈ stack ++ [t], Kept allow n := by
    intro n hn
    rcases List.mem_append.mp hn with hmem | hlast
    · exact h n hmem
    · rw [List.mem_singleton.mp hlast]
      exact ht
  unfold normalizeSegment
  split
  · exact h
  · next hplain =>
      rw [not_or] at hplain
      split
      · split
        · split
          · next hallow =>
              exact hpush ⟨by decide, by decide, fun hno => absurd (hallow.symm.trans hno) (by decide),
                by decide⟩
          · exact h
        · exact fun n hn => h n ((List.dropLast_sublist stack).subset hn)
      · next hne => exact hpush ⟨hplain.1, hplain.2, fun _ => hne, hs⟩

theorem kept_foldl {allow : Bool} {segs stack : List Text} (hsegs : ∀ s ∈ segs, slash ∉ s)
    (h : ∀ n ∈ stack, Kept allow n) :
    ∀ n ∈ segs.foldl (normalizeSegment allow) stack, Kept allow n := by
  induction segs generalizing stack with
  | nil => exact h
  | cons s segs ih =>
      rw [List.forall_mem_cons] at hsegs
      exact ih hsegs.2 (kept_normalizeSegment hsegs.1 h)

/-- A normalized segment leads where the segment leads, from the root or wherever climbs are
kept. -/
theorem foldl_enter_normalizeSegment {allow : Bool} {base stack : List Text}
    (hbase : allow = true ∨ base = []) (h : ∀ n ∈ stack, Kept allow n) (s : Text) :
    (normalizeSegment allow stack s).foldl enter base = enter (stack.foldl enter base) s := by
  unfold normalizeSegment
  split
  · next hs => rw [enter, if_pos hs]
  · next hs =>
      split
      · next heq =>
          subst heq
          rw [enter_dotDot]
          rcases List.eq_nil_or_concat stack with rfl | ⟨front, n, rfl⟩
          · rw [if_pos (Or.inl rfl)]
            rcases hbase with rfl | rfl
            · rw [if_pos rfl, List.nil_append, List.foldl_cons, enter_dotDot]
              rfl
            · cases allow <;> rfl
          · have hn := h n (by simp)
            by_cases hdots : n = dotDot
            · rw [if_pos (Or.inr (by simp [hdots]))]
              have hallow : allow = true := by
                cases hallow : allow with
                | true => rfl
                | false => exact absurd hdots (hn.ne_dotDot hallow)
              rw [if_pos hallow, List.foldl_append, List.foldl_cons, enter_dotDot]
              rfl
            · have hlast : (front.concat n).getLast? ≠ some dotDot := by simp [hdots]
              rw [if_neg (not_or.mpr ⟨by simp, hlast⟩), List.concat_eq_append, List.dropLast_concat,
                List.foldl_append, List.foldl_cons,
                enter_name ⟨hn.ne_nil, hn.ne_dot, hdots, hn.slash_not_mem⟩]
              exact List.dropLast_concat.symm
      · rw [List.foldl_append]
        rfl

theorem foldl_enter_normalize {allow : Bool} {base : List Text} (hbase : allow = true ∨ base = [])
    {segs : List Text} (hsegs : ∀ s ∈ segs, slash ∉ s) :
    (segs.foldl (normalizeSegment allow) []).foldl enter base = segs.foldl enter base := by
  suffices hstack : ∀ stack : List Text, (∀ n ∈ stack, Kept allow n) →
      (segs.foldl (normalizeSegment allow) stack).foldl enter base =
        segs.foldl enter (stack.foldl enter base) by
    exact hstack [] fun n hn => absurd hn List.not_mem_nil
  induction segs with
  | nil => exact fun stack _ => rfl
  | cons s segs ih =>
      intro stack hkept
      rw [List.forall_mem_cons] at hsegs
      rw [List.foldl_cons, List.foldl_cons,
        ih hsegs.2 _ (kept_normalizeSegment hsegs.1 hkept),
        foldl_enter_normalizeSegment hbase hkept]

/-- A resolved path spells the place. -/
theorem resolve_eq (cwd : Cwd) (p : Text) :
    resolve cwd p = slash :: WireTools.join [slash] (locate cwd p) := by
  have hkept : ∀ q : Text, (segments q).foldl (normalizeSegment false) [] =
      (segments q).foldl enter [] := by
    intro q
    have hnames : ∀ n ∈ (segments q).foldl (normalizeSegment false) [], IsName n := by
      intro n hn
      have h := kept_foldl (fun s => slash_not_mem_segments)
        (fun m hm => absurd hm List.not_mem_nil) n hn
      exact ⟨h.ne_nil, h.ne_dot, h.ne_dotDot rfl, h.slash_not_mem⟩
    rw [← foldl_enter_normalize (Or.inr rfl) fun s => slash_not_mem_segments,
      foldl_enter_names hnames, List.nil_append]
  rw [resolve, normalizeString, hkept, locate]
  split
  · rfl
  · rw [segments_append, List.foldl_append]

theorem locate_of_absolute {p : Text} (cwd : Cwd) (h : isAbsolute p = true) :
    locate cwd p = (segments p).foldl enter [] := by
  rw [locate, if_pos h]

/-- The closing slash of a path changes nothing. -/
theorem locate_append_slash {p : Text} (cwd : Cwd) (hne : p ≠ []) :
    locate cwd (p ++ [slash]) = locate cwd p := by
  have habsolute : isAbsolute (p ++ [slash]) = isAbsolute p := by
    cases p with
    | nil => exact absurd rfl hne
    | cons c p => rfl
  have hsegments : segments (p ++ [slash]) = segments p ++ [[]] := segments_append p []
  rw [locate, locate, habsolute, hsegments, List.foldl_append, List.foldl_cons, enter_nil]
  rfl

theorem locate_slash_cons (cwd : Cwd) (p : Text) :
    locate cwd (slash :: p) = (segments p).foldl enter [] := by
  have hsegments : segments (slash :: p) = [] :: segments p := segments_append [] p
  rw [locate_of_absolute cwd rfl, hsegments, List.foldl_cons, enter_nil]

theorem isAbsolute_join {n : Text} {ns : List Text} (hne : n ≠ []) (hn : slash ∉ n) :
    isAbsolute (WireTools.join [slash] (n :: ns)) = false := by
  cases n with
  | nil => exact absurd rfl hne
  | cons c n =>
      have hc : c ≠ slash := fun heq => hn (heq ▸ List.mem_cons_self)
      exact beq_eq_false_iff_ne.mpr fun heq => hc (Option.some.inj heq)

/-- A normalized path leads to the same place. -/
theorem locate_normalize (cwd : Cwd) (p : Text) : locate cwd (normalize p) = locate cwd p := by
  have hslash : ∀ s ∈ segments p, slash ∉ s := fun s => slash_not_mem_segments
  by_cases hnil : p = []
  · subst hnil
    rfl
  have hkept : ∀ n ∈ (segments p).foldl (normalizeSegment (!isAbsolute p)) [],
      Kept (!isAbsolute p) n :=
    kept_foldl hslash fun n hn => absurd hn List.not_mem_nil
  have htrailing : ∀ q : Text, q ≠ [] →
      locate cwd (q ++ if p.getLast? = some slash then [slash] else []) = locate cwd q := by
    intro q hq
    split
    · exact locate_append_slash cwd hq
    · rw [List.append_nil]
  rw [normalize, if_neg hnil, normalizeString]
  cases hstack : (segments p).foldl (normalizeSegment (!isAbsolute p)) [] with
  | nil =>
      have hfold : (segments p).foldl enter (if isAbsolute p then [] else
          (segments cwd.path).foldl enter []) =
          if isAbsolute p then [] else (segments cwd.path).foldl enter [] := by
        rw [← @foldl_enter_normalize (!isAbsolute p) _ ?_ _ hslash, hstack]
        · rfl
        · cases isAbsolute p with
          | true => exact Or.inr rfl
          | false => exact Or.inl rfl
      have hjoin : WireTools.join [slash] [] = [] := rfl
      dsimp only
      rw [hjoin, if_pos rfl, locate.eq_1 cwd p, hfold]
      split
      · exact locate_slash_cons cwd []
      · rw [htrailing dot (by decide)]
        rfl
  | cons n ns =>
      rw [hstack] at hkept
      have hn := hkept n List.mem_cons_self
      have hjoin : WireTools.join [slash] (n :: ns) ≠ [] := by
        rw [WireTools.join]
        exact List.append_ne_nil_of_left_ne_nil hn.ne_nil _
      have hsegments : segments (WireTools.join [slash] (n :: ns)) = n :: ns :=
        segments_join (fun m hm => (hkept m hm).slash_not_mem) (List.cons_ne_nil n ns)
      dsimp only
      rw [if_neg hjoin]
      split
      · next habsolute =>
          rw [← List.cons_append, htrailing _ (List.cons_ne_nil _ _), locate_slash_cons, hsegments,
            ← hstack, foldl_enter_normalize (Or.inr rfl) hslash, locate_of_absolute cwd habsolute]
      · next hrelative =>
          rw [Bool.not_eq_true] at hrelative
          rw [htrailing _ hjoin, locate, isAbsolute_join hn.ne_nil hn.slash_not_mem, hsegments,
            ← hstack, foldl_enter_normalize (Or.inl (by rw [hrelative]; rfl)) hslash,
            locate, hrelative]

/-- What is joined to a directory is read from the place of the directory. -/
theorem locate_join {a : Text} (cwd : Cwd) (ha : a ≠ []) (b : Text) :
    locate cwd (join [a, b]) = (segments b).foldl enter (locate cwd a) := by
  by_cases hb : b = []
  · subst hb
    have hgiven : join [a, []] = normalize a := by simp [join, ha, WireTools.join]
    rw [hgiven, locate_normalize]
    exact (enter_nil _).symm
  · have hgiven : join [a, b] = normalize (a ++ slash :: b) := by
      simp [join, ha, hb, WireTools.join]
    have habsolute : isAbsolute (a ++ slash :: b) = isAbsolute a := by
      cases a with
      | nil => exact absurd rfl ha
      | cons c a => rfl
    rw [hgiven, locate_normalize, locate, habsolute, segments_append, List.foldl_append]
    rfl

theorem normalize_ne_nil (p : Text) : normalize p ≠ [] := by
  unfold normalize
  split
  · exact List.cons_ne_nil _ _
  · dsimp only
    split
    · split <;> exact List.cons_ne_nil _ _
    · next hpath =>
        split
        · exact List.cons_ne_nil _ _
        · exact List.append_ne_nil_of_left_ne_nil hpath _

theorem join_ne_nil (ps : List Text) : join ps ≠ [] := by
  unfold join
  dsimp only
  split
  · exact List.cons_ne_nil _ _
  · exact normalize_ne_nil _

/-! ### What lies below a place -/

theorem join_concat_slash {ns : List Text} (hne : ns ≠ []) :
    WireTools.join [slash] ns ++ [slash] = Lines.closed slash ns := by
  cases ns with
  | nil => exact absurd rfl hne
  | cons n ns =>
      induction ns generalizing n with
      | nil => simp [WireTools.join, Lines.closed]
      | cons m ns ih =>
          have hrest := ih m (List.cons_ne_nil m ns)
          rw [Lines.closed_cons, ← hrest]
          simp [WireTools.join]

theorem completeLines_closed {ns : List Text} (h : ∀ n ∈ ns, IsName n) :
    Lines.completeLines slash (Lines.closed slash ns) = ns := by
  have heq := Lines.completeLines_eq (fun n hn => (h n hn).slash_not_mem)
    (List.not_mem_nil (a := slash))
  rwa [List.append_nil] at heq

theorem getLast?_join {ns : List Text} (h : ∀ n ∈ ns, IsName n) (hne : ns ≠ []) :
    (slash :: WireTools.join [slash] ns).getLast? ≠ some slash := by
  have hsegments := segments_join (fun n hn => (h n hn).slash_not_mem) hne
  intro hlast
  rcases List.eq_nil_or_concat (WireTools.join [slash] ns) with hnil | ⟨front, c, hjoin⟩
  · rw [hnil] at hsegments
    exact (h [] (hsegments ▸ List.mem_singleton_self [])).ne_nil rfl
  · rw [hjoin, List.concat_eq_append] at hlast hsegments
    rw [← List.cons_append, List.getLast?_append_cons] at hlast
    obtain rfl : c = slash := Option.some.inj hlast
    have hempty : segments (front ++ [slash]) = segments front ++ [[]] := segments_append front []
    rw [hempty] at hsegments
    exact (h [] (hsegments ▸ List.mem_append_right _ (List.mem_singleton_self []))).ne_nil rfl

/-- A place is below another one when its path is that of the other one, or goes on behind a
slash.  The path of the root ends with the slash already. -/
theorem startsWith_iff {root place : List Text} (hroot : ∀ n ∈ root, IsName n)
    (hplace : ∀ n ∈ place, IsName n) {p q : Text} (hp : p = slash :: WireTools.join [slash] root)
    (hq : q = slash :: WireTools.join [slash] place) :
    q = p ∨ (if p.getLast? = some slash then p else p ++ [slash]) <+: q ↔ root <+: place := by
  subst hp hq
  cases root with
  | nil => exact iff_of_true (Or.inr ⟨WireTools.join [slash] place, rfl⟩) List.nil_prefix
  | cons n ns =>
      have hn := hroot n List.mem_cons_self
      have hclosed := join_concat_slash (List.cons_ne_nil n ns)
      have hsegments : segments (WireTools.join [slash] (n :: ns)) = n :: ns :=
        segments_join (fun m hm => (hroot m hm).slash_not_mem) (List.cons_ne_nil n ns)
      rw [if_neg (getLast?_join hroot (List.cons_ne_nil n ns)), List.cons_append, hclosed,
        List.prefix_cons_inj, List.cons.injEq]
      constructor
      · rintro (⟨_, hsame⟩ | hbelow)
        · by_cases hempty : place = []
          · rw [← hsame, hempty] at hsegments
            exact absurd (List.cons.inj hsegments).1.symm hn.ne_nil
          · have heq : n :: ns = place := by
              rw [← hsegments, ← hsame]
              exact segments_join (fun m hm => (hplace m hm).slash_not_mem) hempty
            exact heq ▸ List.prefix_rfl
        · by_cases hempty : place = []
          · rw [hempty, ← hclosed] at hbelow
            exact absurd (List.prefix_nil.mp hbelow) (by simp)
          · obtain ⟨rest, hrest⟩ := hbelow
            have hlines := Lines.completeLines_append (c := slash)
              (Lines.closed slash (n :: ns)) (rest ++ [slash])
            rwa [← List.append_assoc, hrest, join_concat_slash hempty, completeLines_closed hroot,
              completeLines_closed hplace] at hlines
      · rintro ⟨rest, rfl⟩
        cases rest with
        | nil => exact Or.inl ⟨rfl, by rw [List.append_nil]⟩
        | cons m ms =>
            refine Or.inr ⟨WireTools.join [slash] (m :: ms), ?_⟩
            rw [join_append_cons, ← hclosed, List.append_assoc]

end WireTools.Path

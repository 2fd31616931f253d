import Mathlib.Data.List.Basic

/-! # Longest-match scanning

A rule is an automaton that reads symbols one at a time and dies where no word of the rule goes
on.  The scanner cuts off the longest prefix that some rule accepts, the earliest rule winning
between equals, and goes on behind it.

* `Recognizer.longest` is the longest accepted prefix of one rule, `Recognizer.reach` how far the
  rule stays alive;
* `munch` compares the rules of an ordered list, `Scanner.scan` is the whole scan;
* a token is cut off alike whatever follows it, as long as the next symbol kills every rule
  (`munch_append_of_dead`), so a text written token by token is scanned token by token
  (`Scanner.scan_append_token`). -/

namespace WireTools

variable {α κ : Type}

/-! ### Rules -/

/-- An automaton that has no next state where no word goes on. -/
structure Recognizer (α : Type) where
  State : Type
  start : State
  step : State → α → Option State
  accepts : State → Bool

namespace Recognizer

variable (r : Recognizer α)

/-- The state behind a word. -/
def run (s : r.State) : List α → Option r.State
  | [] => some s
  | a :: w => (r.step s a).bind fun s' => run s' w

/-- The length of the longest accepted prefix. -/
def longest (s : r.State) : List α → Option ℕ
  | [] => if r.accepts s then some 0 else none
  | a :: w =>
      match (r.step s a).bind fun s' => longest s' w with
      | some n => some (n + 1)
      | none => if r.accepts s then some 0 else none

/-- How many symbols the rule reads before it dies. -/
def reach (s : r.State) : List α → ℕ
  | [] => 0
  | a :: w =>
      match r.step s a with
      | some s' => reach s' w + 1
      | none => 0

/-- The rule accepts the whole word. -/
def Accepts (w : List α) : Prop :=
  ∃ s, r.run r.start w = some s ∧ r.accepts s = true

variable {r}

theorem run_append {t u : List α} : ∀ {s : r.State},
    r.run s (t ++ u) = (r.run s t).bind fun s' => r.run s' u := by
  induction t with
  | nil => exact fun {s} => rfl
  | cons a t ih =>
      intro s
      rw [List.cons_append, run, run, Option.bind_assoc]
      exact congrArg _ (funext fun s' => ih)

theorem longest_accepts {w : List α} : ∀ {s : r.State} {n : ℕ}, r.longest s w = some n →
    n ≤ w.length ∧ ∃ s', r.run s (w.take n) = some s' ∧ r.accepts s' = true := by
  induction w with
  | nil =>
      intro s n h
      rw [longest] at h
      split at h
      · cases h
        exact ⟨Nat.le_refl _, s, rfl, by assumption⟩
      · cases h
  | cons a w ih =>
      intro s n h
      rw [longest] at h
      split at h
      · rename_i m hm
        cases h
        obtain ⟨s', hs', hlong⟩ := Option.bind_eq_some_iff.mp hm
        obtain ⟨hle, s'', hrun, hacc⟩ := ih hlong
        refine ⟨Nat.succ_le_succ hle, s'', ?_, hacc⟩
        rw [List.take_succ_cons, run, hs']
        exact hrun
      · split at h
        · cases h
          exact ⟨Nat.zero_le _, s, rfl, by assumption⟩
        · cases h

/-- An accepted word is its own longest accepted prefix. -/
theorem longest_of_run {t : List α} : ∀ {s s' : r.State}, r.run s t = some s' →
    r.accepts s' = true → r.longest s t = some t.length := by
  induction t with
  | nil =>
      intro s s' h hacc
      cases h
      rw [longest, if_pos hacc, List.length_nil]
  | cons a t ih =>
      intro s s' h hacc
      obtain ⟨m, hm, hrun⟩ := Option.bind_eq_some_iff.mp h
      rw [longest, hm, Option.bind_some, ih hrun hacc, List.length_cons]

theorem Accepts.longest {t : List α} (h : r.Accepts t) :
    r.longest r.start t = some t.length := by
  obtain ⟨s, hs, hacc⟩ := h
  exact longest_of_run hs hacc

theorem accepts_of_longest {t : List α} (h : r.longest r.start t = some t.length) :
    r.Accepts t := by
  have := (longest_accepts h).2
  rwa [List.take_length] at this

/-- An accepted word starts with a symbol that the rule reads. -/
theorem Accepts.reads_first {a : α} {t : List α} (h : r.Accepts (a :: t)) :
    (r.step r.start a).isSome = true := by
  obtain ⟨s, hs, _⟩ := h
  obtain ⟨m, hm, _⟩ := Option.bind_eq_some_iff.mp hs
  rw [hm]
  rfl

theorem run_of_step {a : α} {t : List α} {s s' : r.State} (h : r.step s a = some s') :
    r.run s (a :: t) = r.run s' t := by
  rw [run, h]
  rfl

theorem run_of_step_none {a : α} {t : List α} {s : r.State} (h : r.step s a = none) :
    r.run s (a :: t) = none := by
  rw [run, h]
  rfl

/-- A property that every step establishes holds behind any word. -/
theorem moved {P : r.State → Prop} (hstep : ∀ s a s', r.step s a = some s' → P s') {t : List α} :
    ∀ {s s' : r.State}, r.run s t = some s' → t = [] ∨ P s' := by
  induction t with
  | nil => exact fun _ => Or.inl rfl
  | cons a t ih =>
      intro s s' h
      obtain ⟨m, hm, hrest⟩ := Option.bind_eq_some_iff.mp h
      rcases ih hrest with rfl | h'
      · cases hrest
        exact Or.inr (hstep s a _ hm)
      · exact Or.inr h'

/-- A symbol that kills every state a step leads to kills the rule behind any word. -/
theorem dead_of_moved {P : r.State → Prop} (hstep : ∀ s a s', r.step s a = some s' → P s')
    {c : α} (hdead : ∀ s, P s → r.step s c = none) {t : List α} (ht : t ≠ []) {s : r.State} :
    r.run s (t ++ [c]) = none := by
  rw [run_append]
  cases h : r.run s t with
  | none => rfl
  | some s' => exact run_of_step_none (hdead s' ((moved hstep h).resolve_left ht))

/-- What follows a symbol that kills the rule does not matter. -/
theorem longest_append_of_dead {t : List α} {c : α} {w : List α} : ∀ {s : r.State},
    r.run s (t ++ [c]) = none → r.longest s (t ++ c :: w) = r.longest s t := by
  induction t with
  | nil =>
      intro s h
      have hc : r.step s c = none := by
        cases hs : r.step s c with
        | none => rfl
        | some s' => simp [run, hs] at h
      rw [List.nil_append, longest.eq_2, hc]
      rfl
  | cons a t ih =>
      intro s h
      rw [List.cons_append, longest, longest]
      cases hs : r.step s a with
      | none => rfl
      | some s' =>
          rw [List.cons_append, run, hs] at h
          rw [Option.bind_some, Option.bind_some, ih h]

/-- Where a rule accepts, some prefix is accepted. -/
theorem exists_longest {s s' : r.State} {a : α} (hstep : r.step s a = some s')
    (h : r.accepts s' = true) (w : List α) : ∃ n, r.longest s (a :: w) = some (n + 1) := by
  obtain ⟨n, hn⟩ : ∃ n, r.longest s' w = some n := by
    cases w with
    | nil => exact ⟨0, by rw [longest, if_pos h]⟩
    | cons b w =>
        rw [longest]
        split
        · exact ⟨_, rfl⟩
        · exact ⟨0, if_pos h⟩
  exact ⟨n, by rw [longest, hstep, Option.bind_some, hn]⟩

/-- A prefix that holds every accepted prefix is cut off like the whole. -/
theorem longest_take {w : List α} : ∀ {s : r.State} {n : ℕ},
    (∀ m, r.longest s w = some m → m ≤ n) → r.longest s (w.take n) = r.longest s w := by
  induction w with
  | nil =>
      intro s n _
      rw [List.take_nil]
  | cons a w ih =>
      intro s n h
      cases n with
      | zero =>
          rw [List.take_zero, longest, longest]
          cases hm : (r.step s a).bind fun s' => r.longest s' w with
          | none => rfl
          | some m =>
              have := h (m + 1) (by rw [longest, hm])
              omega
      | succ n =>
          rw [List.take_succ_cons, longest, longest]
          cases hs : r.step s a with
          | none => rfl
          | some s' =>
              have hle : ∀ m, r.longest s' w = some m → m ≤ n := by
                intro m hm
                have := h (m + 1) (by rw [longest, hs, Option.bind_some, hm])
                omega
              rw [Option.bind_some, Option.bind_some, ih hle]

/-- Symbols that the rule does not tell apart are read alike. -/
theorem longest_map {f : α → α} (hf : ∀ s a, r.step s (f a) = r.step s a) {w : List α} :
    ∀ {s : r.State}, r.longest s (w.map f) = r.longest s w := by
  induction w with
  | nil => exact fun {s} => rfl
  | cons a w ih =>
      intro s
      rw [List.map_cons, longest, longest, hf]
      congr 1
      exact congrArg _ (funext fun s' => ih)

/-- A rule that does not read the first symbol accepts nothing of the word. -/
theorem longest_of_step_none {a : α} {w : List α} (hs : r.step r.start a = none)
    (hacc : r.accepts r.start = false) : r.longest r.start (a :: w) = none := by
  rw [longest, hs, Option.bind_none, hacc]
  rfl

/-! ### Common rules -/

/-- Reads one symbol of each class in order; the state is how many are read. -/
@[reducible] def fixed (classes : List (α → Bool)) : Recognizer α where
  State := ℕ
  start := 0
  step i a := (classes[i]?).bind fun k => if k a then some (i + 1) else none
  accepts i := i == classes.length

/-- Reads one symbol of the class `first`, then any number of the class `more`. -/
@[reducible] def oneThenMany (first more : α → Bool) : Recognizer α where
  State := Bool
  start := false
  step began a := if bif began then more a else first a then some true else none
  accepts began := began

/-- Where a rule for quoted text stands. -/
inductive QuoteState where
  | outside
  | opened
  | closed
  deriving DecidableEq

/-- Reads a text between two quotes; inside it a quote is written twice. -/
@[reducible] def quoted (isQuote : α → Bool) : Recognizer α where
  State := QuoteState
  start := .outside
  step
    | .outside, a => if isQuote a then some .opened else none
    | .opened, a => some (if isQuote a then .closed else .opened)
    | .closed, a => if isQuote a then some .opened else none
  accepts s := s = .closed

theorem fixed_run {classes : List (α → Bool)} {t : List α} : ∀ {i j : ℕ},
    (fixed classes).run i t = some j → j = i + t.length := by
  induction t with
  | nil =>
      intro i j h
      exact (Option.some.inj h).symm
  | cons a t ih =>
      intro i j h
      obtain ⟨m, hm, hrun⟩ := Option.bind_eq_some_iff.mp h
      obtain ⟨k, _, hk⟩ := Option.bind_eq_some_iff.mp hm
      have hmi : m = i + 1 := by
        split at hk
        · exact (Option.some.inj hk).symm
        · cases hk
      rw [ih hrun, hmi, List.length_cons]
      exact Nat.add_right_comm i 1 t.length

/-- A symbol that no class but the first reads kills the rule behind any word. -/
theorem fixed_dead {t : List α} {c : α} {classes : List (α → Bool)} (ht : t ≠ [])
    (h : ∀ k ∈ classes.tail, k c = false) :
    (fixed classes).run (fixed classes).start (t ++ [c]) = none := by
  rw [run_append]
  cases hrun : (fixed classes).run (fixed classes).start t with
  | none => rfl
  | some i =>
      obtain ⟨j, hj⟩ := Nat.exists_eq_succ_of_ne_zero
        (Nat.ne_of_gt (List.length_pos_iff.mpr ht))
      have hi : i = j + 1 := (fixed_run hrun).trans ((Nat.zero_add _).trans hj)
      subst hi
      change ((classes[j + 1]?).bind fun k => if k c then some (j + 1 + 1) else none).bind _ = none
      rw [← List.getElem?_tail]
      cases hk : classes.tail[j]? with
      | none => rfl
      | some k =>
          rw [Option.bind_some, h k (List.mem_of_getElem? hk)]
          rfl

/-- A word of one class is one symbol. -/
theorem fixed_accepts_single {k : α → Bool} {t : List α} (h : (fixed [k]).Accepts t) :
    ∃ a, t = [a] ∧ k a = true := by
  obtain ⟨s, hs, hacc⟩ := h
  have hlen : t.length = 1 := by
    rw [← Nat.zero_add t.length, ← fixed_run hs]
    exact eq_of_beq hacc
  obtain ⟨a, rfl⟩ := List.length_eq_one_iff.mp hlen
  refine ⟨a, rfl, ?_⟩
  obtain ⟨i, hi, _⟩ := Option.bind_eq_some_iff.mp hs
  by_contra hk
  rw [Bool.not_eq_true] at hk
  simp [hk] at hi

theorem fixed_step_map {f : α → α} {classes : List (α → Bool)}
    (h : ∀ k ∈ classes, ∀ a, k (f a) = k a) (i : ℕ) (a : α) :
    (fixed classes).step i (f a) = (fixed classes).step i a := by
  change (classes[i]?).bind _ = (classes[i]?).bind _
  cases hk : classes[i]? with
  | none => rfl
  | some k => rw [Option.bind_some, Option.bind_some, h k (List.mem_of_getElem? hk)]

theorem oneThenMany_dead {first more : α → Bool} {t : List α} {c : α} (ht : t ≠ [])
    (h : more c = false) :
    (oneThenMany first more).run (oneThenMany first more).start (t ++ [c]) = none := by
  refine dead_of_moved (P := fun s => s = true) ?_ ?_ ht
  · intro s a s' hs
    dsimp only at hs
    split at hs
    · exact (Option.some.inj hs).symm
    · exact absurd hs (by simp)
  · rintro s rfl
    exact if_neg (by simp [h])

theorem oneThenMany_accepts {first more : α → Bool} {a : α} {t : List α} (ha : first a = true)
    (ht : t.all more = true) : (oneThenMany first more).Accepts (a :: t) := by
  have hrun : ∀ {t : List α}, t.all more = true → (oneThenMany first more).run true t = some true := by
    intro t
    induction t with
    | nil => exact fun _ => rfl
    | cons b t ih =>
        intro hall
        rw [List.all_cons, Bool.and_eq_true] at hall
        exact (run_of_step (if_pos hall.1)).trans (ih hall.2)
  exact ⟨true, (run_of_step (if_pos ha)).trans (hrun ht), rfl⟩

/-- Behind the closing quote only another quote goes on. -/
theorem quoted_dead {isQuote : α → Bool} {t : List α} {c : α} (hc : isQuote c = false)
    (h : (quoted isQuote).run (quoted isQuote).start t = none ∨ (quoted isQuote).Accepts t) :
    (quoted isQuote).run (quoted isQuote).start (t ++ [c]) = none := by
  rw [run_append]
  rcases h with h | ⟨s, hs, hacc⟩
  · rw [h]
    rfl
  · have hclosed : s = .closed := by simpa [quoted] using hacc
    rw [hs, hclosed]
    change ((if isQuote c then some QuoteState.opened else none).bind _) = none
    rw [if_neg (by simp [hc])]
    rfl

/-- A text with its quotes doubled is accepted between quotes. -/
theorem quoted_accepts [DecidableEq α] {q : α} (body : List α) : (quoted (· == q)).Accepts
    (q :: ((body.flatMap fun a => if a = q then [q, q] else [a]) ++ [q])) := by
  have hbody : ∀ body : List α, (quoted (· == q)).run QuoteState.opened
      (body.flatMap fun a => if a = q then [q, q] else [a]) = some QuoteState.opened := by
    intro body
    induction body with
    | nil => rfl
    | cons a body ih =>
        rw [List.flatMap_cons, run_append]
        have ha : (quoted (· == q)).run QuoteState.opened (if a = q then [q, q] else [a]) =
            some QuoteState.opened := by
          by_cases h : a = q
          · simp [h, run]
          · simp [h, run]
        rw [ha]
        exact ih
  refine ⟨QuoteState.closed, (run_of_step (if_pos (by simp))).trans ?_, rfl⟩
  rw [run_append, hbody, Option.bind_some]
  simp [run]

end Recognizer

/-! ### The longest match over all rules -/

/-- The rule that cuts off most of a word, the earliest of them, and how much. -/
def munch (rule : κ → Recognizer α) : List κ → List α → Option (κ × ℕ)
  | [], _ => none
  | k :: ks, w =>
      match (rule k).longest (rule k).start w, munch rule ks w with
      | some n, some (k', m) => if m ≤ n then some (k, n) else some (k', m)
      | some n, none => some (k, n)
      | none, best => best

section munch

variable {rule : κ → Recognizer α}

theorem munch_congr {ks : List κ} {v w : List α}
    (h : ∀ k ∈ ks, (rule k).longest (rule k).start v = (rule k).longest (rule k).start w) :
    munch rule ks v = munch rule ks w := by
  induction ks with
  | nil => rfl
  | cons k ks ih =>
      rw [munch, munch, h k (by simp), ih fun k' hk' => h k' (List.mem_cons_of_mem _ hk')]

/-- What follows a symbol that kills every rule does not matter. -/
theorem munch_append_of_dead {ks : List κ} {t w : List α} {c : α}
    (h : ∀ k ∈ ks, (rule k).run (rule k).start (t ++ [c]) = none) :
    munch rule ks (t ++ c :: w) = munch rule ks t :=
  munch_congr fun k hk => Recognizer.longest_append_of_dead (h k hk)

theorem munch_map {f : α → α} {ks : List κ} {w : List α}
    (hf : ∀ k ∈ ks, ∀ s a, (rule k).step s (f a) = (rule k).step s a) :
    munch rule ks (w.map f) = munch rule ks w :=
  munch_congr fun k hk => Recognizer.longest_map (hf k hk)

theorem munch_longest {ks : List κ} {w : List α} {k : κ} {n : ℕ}
    (h : munch rule ks w = some (k, n)) :
    k ∈ ks ∧ (rule k).longest (rule k).start w = some n := by
  induction ks with
  | nil => cases h
  | cons k' ks ih =>
      rw [munch] at h
      cases hl : (rule k').longest (rule k').start w with
      | none =>
          rw [hl] at h
          exact ⟨List.mem_cons_of_mem _ (ih h).1, (ih h).2⟩
      | some m =>
          rw [hl] at h
          cases hb : munch rule ks w with
          | none =>
              rw [hb] at h
              cases h
              exact ⟨by simp, hl⟩
          | some best =>
              rw [hb] at h
              dsimp only at h
              split at h
              · cases h
                exact ⟨by simp, hl⟩
              · cases h
                exact ⟨List.mem_cons_of_mem _ (ih hb).1, (ih hb).2⟩

theorem munch_ne_none {ks : List κ} {w : List α} {k : κ} {n : ℕ} (hk : k ∈ ks)
    (hn : (rule k).longest (rule k).start w = some n) : munch rule ks w ≠ none := by
  induction ks with
  | nil => cases hk
  | cons k' ks ih =>
      rw [munch]
      rcases List.mem_cons.mp hk with rfl | hk
      · rw [hn]
        cases munch rule ks w with
        | none => simp
        | some best =>
            dsimp only
            split <;> simp
      · cases hb : munch rule ks w with
        | none => exact absurd hb (ih hk)
        | some best =>
            cases (rule k').longest (rule k').start w with
            | none => simp
            | some m =>
                dsimp only
                split <;> simp

/-- No rule cuts off more. -/
theorem munch_le {ks : List κ} {w : List α} {k : κ} {n : ℕ}
    (h : munch rule ks w = some (k, n)) {k' : κ} {m : ℕ} (hk' : k' ∈ ks)
    (hm : (rule k').longest (rule k').start w = some m) : m ≤ n := by
  induction ks generalizing k n with
  | nil => cases hk'
  | cons j ks ih =>
      rw [munch] at h
      cases hb : munch rule ks w with
      | none =>
          have hnone : k' ∉ ks := by
            intro hk
            have := munch_ne_none hk hm
            exact this hb
          have hj : k' = j := (List.mem_cons.mp hk').resolve_right hnone
          subst hj
          rw [hm, hb] at h
          cases h
          exact Nat.le_refl _
      | some best =>
          obtain ⟨kb, nb⟩ := best
          rw [hb] at h
          rcases List.mem_cons.mp hk' with rfl | hk
          · rw [hm] at h
            dsimp only at h
            split at h
            · cases h
              exact Nat.le_refl _
            · cases h
              omega
          · have hle : m ≤ nb := ih hb hk
            cases hl : (rule j).longest (rule j).start w with
            | none =>
                rw [hl] at h
                cases h
                exact hle
            | some i =>
                rw [hl] at h
                dsimp only at h
                split at h
                · cases h
                  omega
                · cases h
                  exact hle

/-- The prefix that is cut off is cut off alike when nothing follows it. -/
theorem munch_take {ks : List κ} {w : List α} {k : κ} {n : ℕ}
    (h : munch rule ks w = some (k, n)) : munch rule ks (w.take n) = some (k, n) := by
  rw [← h]
  exact munch_congr fun k' hk' => Recognizer.longest_take fun m hm => munch_le h hk' hm

/-- A rule that alone accepts anything of a word cuts off what it accepts. -/
theorem munch_of_only {ks : List κ} {w : List α} {k : κ} {n : ℕ} (hk : k ∈ ks)
    (hn : (rule k).longest (rule k).start w = some n)
    (h : ∀ k' ∈ ks, k' ≠ k → (rule k').longest (rule k').start w = none) :
    munch rule ks w = some (k, n) := by
  cases hb : munch rule ks w with
  | none => exact absurd hb (munch_ne_none hk hn)
  | some best =>
      obtain ⟨k', m⟩ := best
      obtain ⟨hk', hm⟩ := munch_longest hb
      by_cases hkk : k' = k
      · subst hkk
        rw [hm] at hn
        rw [Option.some.inj hn]
      · rw [h k' hk' hkk] at hm
        cases hm

end munch

/-! ### Scanning -/

/-- What the scanner cuts off. -/
inductive Piece (κ α : Type) where
  | token (kind : κ) (text : List α)
  /-- What no rule reads. -/
  | stray (text : List α)

def Piece.text : Piece κ α → List α
  | .token _ t => t
  | .stray t => t

/-- The rules in order, and what is dropped with a symbol that no rule goes on with. -/
structure Scanner (κ α : Type) where
  rule : κ → Recognizer α
  order : List κ
  width : List α → ℕ

namespace Scanner

variable (sc : Scanner κ α)

/-- How far some rule stays alive. -/
def reach (w : List α) : ℕ :=
  (sc.order.map fun k => (sc.rule k).reach (sc.rule k).start w).foldr max 0

/-- The first piece of a text. -/
def next (w : List α) : Piece κ α :=
  match munch sc.rule sc.order w with
  | some (k, n + 1) => .token k (w.take (n + 1))
  | _ => .stray (w.take (max 1 (sc.reach w + sc.width (w.drop (sc.reach w)))))

def scanFor : ℕ → List α → List (Piece κ α)
  | 0, _ => []
  | _ + 1, [] => []
  | n + 1, a :: w =>
      let p := sc.next (a :: w)
      p :: scanFor n ((a :: w).drop p.text.length)

/-- The pieces of a text. -/
def scan (w : List α) : List (Piece κ α) :=
  sc.scanFor w.length w

variable {sc}

theorem next_text_ne_nil (sc : Scanner κ α) {w : List α} (hw : w ≠ []) : (sc.next w).text ≠ [] := by
  unfold next
  split
  · simpa [Piece.text] using hw
  · have hpos : max 1 (sc.reach w + sc.width (w.drop (sc.reach w))) ≠ 0 := by omega
    simpa [Piece.text, List.take_eq_nil_iff, hpos] using hw

theorem next_text_append (sc : Scanner κ α) (w : List α) :
    (sc.next w).text ++ w.drop (sc.next w).text.length = w := by
  have htake : ∃ n, (sc.next w).text = w.take n := by
    unfold next
    split
    · exact ⟨_, rfl⟩
    · exact ⟨_, rfl⟩
  obtain ⟨n, hn⟩ := htake
  conv_rhs => rw [← List.take_append_drop n w]
  rw [hn, List.length_take]
  rcases Nat.le_total n w.length with h | h
  · rw [Nat.min_eq_left h]
  · rw [Nat.min_eq_right h, List.drop_length, List.drop_eq_nil_of_le h]

theorem scanFor_eq {n : ℕ} : ∀ {m : ℕ} {w : List α}, w.length ≤ n → w.length ≤ m →
    sc.scanFor n w = sc.scanFor m w := by
  induction n with
  | zero =>
      intro m w hn _
      rw [List.length_eq_zero_iff.mp (Nat.le_zero.mp hn)]
      cases m <;> rfl
  | succ n ih =>
      intro m w hn hm
      cases w with
      | nil => cases m <;> rfl
      | cons a w =>
          cases m with
          | zero => exact absurd hm (by simp)
          | succ m =>
              have hpos := List.length_pos_iff.mpr (next_text_ne_nil sc (w := a :: w) (by simp))
              rw [List.length_cons] at hn hm
              rw [scanFor, scanFor]
              congr 1
              refine ih ?_ ?_ <;> rw [List.length_drop, List.length_cons] <;> omega

theorem scan_of_ne_nil {w : List α} (hw : w ≠ []) :
    sc.scan w = sc.next w :: sc.scan (w.drop (sc.next w).text.length) := by
  cases w with
  | nil => exact absurd rfl hw
  | cons a w =>
      have hpos := List.length_pos_iff.mpr (next_text_ne_nil sc (w := a :: w) (by simp))
      rw [scan, List.length_cons, scanFor]
      congr 1
      refine scanFor_eq ?_ (Nat.le_refl _)
      rw [List.length_drop, List.length_cons]
      omega

/-- A text that starts with a whole token is scanned token first. -/
theorem scan_append_token {t w : List α} {k : κ} (ht : t ≠ [])
    (h : munch sc.rule sc.order (t ++ w) = some (k, t.length)) :
    sc.scan (t ++ w) = .token k t :: sc.scan w := by
  have hnext : sc.next (t ++ w) = .token k t := by
    obtain ⟨n, hn⟩ := Nat.exists_eq_succ_of_ne_zero
      (Nat.ne_of_gt (List.length_pos_iff.mpr ht))
    rw [next, h, hn]
    dsimp only
    rw [← Nat.succ_eq_add_one, ← hn, List.take_left]
  rw [scan_of_ne_nil (by simp [ht]), hnext, Piece.text, List.drop_left]

/-- A scanned token is cut off whole when it stands alone. -/
theorem munch_of_mem_scan {k : κ} {t : List α} : ∀ {n : ℕ} {w : List α}, w.length ≤ n →
    Piece.token k t ∈ sc.scan w → t ≠ [] ∧ munch sc.rule sc.order t = some (k, t.length) := by
  intro n
  induction n with
  | zero =>
      intro w hw h
      rw [List.length_eq_zero_iff.mp (Nat.le_zero.mp hw)] at h
      cases h
  | succ n ih =>
      intro w hw h
      by_cases hnil : w = []
      · rw [hnil] at h
        cases h
      · have hpos := List.length_pos_iff.mpr (next_text_ne_nil sc hnil)
        rw [scan_of_ne_nil hnil] at h
        rcases List.mem_cons.mp h with h | h
        · unfold next at h
          split at h
          · rename_i k' m hm
            obtain ⟨rfl, rfl⟩ := Piece.token.inj h
            have hle := (Recognizer.longest_accepts (munch_longest hm).2).1
            refine ⟨by simpa using hnil, ?_⟩
            rw [munch_take hm, List.length_take, Nat.min_eq_left hle]
          · cases h
        · refine ih ?_ h
          rw [List.length_drop]
          omega

end Scanner

end WireTools

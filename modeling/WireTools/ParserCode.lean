import Mathlib.Data.List.Basic
import Mathlib.Data.List.Chain

/-! # Programs of predictive parsers

A generated parser has one method per rule of its grammar, made of few statements: match a token,
call a rule, branch or loop on the kind of the next token, choose an alternative by reading on.
`Code` is such a method body and `exec` runs it, building the parse tree.

* `exec_leaves`: the leaves of the trees are the tokens that were read;
* `exec_map`: only the kinds of the tokens decide, so renaming tokens renames the tree;
* `exec_fits`: a check of the code alone (`Code.seams`) bounds which kinds can stand side by side
  in what it reads;
* `exec_enough`: the fuel of `exec` does not matter above `Code.depth` and a share per token. -/

namespace WireTools

/-- A parse tree. -/
inductive ParseTree (ρ β : Type) where
  | terminal (symbol : β)
  | node (rule : ρ) (children : List (ParseTree ρ β))

namespace ParseTree

variable {ρ β γ : Type}

mutual

/-- The tokens of a tree from left to right. -/
def leaves : ParseTree ρ β → List β
  | terminal b => [b]
  | node _ children => leavesAll children

def leavesAll : List (ParseTree ρ β) → List β
  | [] => []
  | t :: ts => leaves t ++ leavesAll ts

end

mutual

/-- A tree with its tokens renamed. -/
def map (f : β → γ) : ParseTree ρ β → ParseTree ρ γ
  | terminal b => terminal (f b)
  | node r children => node r (mapAll f children)

def mapAll (f : β → γ) : List (ParseTree ρ β) → List (ParseTree ρ γ)
  | [] => []
  | t :: ts => map f t :: mapAll f ts

end

@[simp] theorem leavesAll_append (ts us : List (ParseTree ρ β)) :
    leavesAll (ts ++ us) = leavesAll ts ++ leavesAll us := by
  induction ts with
  | nil => rfl
  | cons t ts ih => rw [List.cons_append, leavesAll, leavesAll, ih, List.append_assoc]

@[simp] theorem mapAll_append (f : β → γ) (ts us : List (ParseTree ρ β)) :
    mapAll f (ts ++ us) = mapAll f ts ++ mapAll f us := by
  induction ts with
  | nil => rfl
  | cons t ts ih => rw [List.cons_append, mapAll, mapAll, ih, List.cons_append]

end ParseTree

open ParseTree

/-- The body of a parser method. -/
inductive Code (ρ κ : Type) where
  /-- Match one token of these kinds. -/
  | accept (kinds : List κ)
  | call (rule : ρ)
  | done
  /-- No alternative is viable. -/
  | fail
  | seq (first second : Code ρ κ)
  /-- `first` when the next token is of these kinds, `second` otherwise. -/
  | branch (kinds : List κ) (first second : Code ρ κ)
  /-- `body` as long as the next token is of these kinds. -/
  | loop (kinds : List κ) (body : Code ρ κ)
  /-- The first alternative that reads on. -/
  | predict (first second : Code ρ κ)

section shapes

variable {ρ κ : Type}

/-! ### Which kinds stand side by side -/

/-- The kinds that what a body reads can start and end with, and whether it can be nothing. -/
structure Shape (κ : Type) where
  nullable : Bool
  first : List κ
  last : List κ

namespace Code

/-- The shape of a body, from the shapes of the rules. -/
def shape (table : ρ → Shape κ) : Code ρ κ → Shape κ
  | accept kinds => ⟨false, kinds, kinds⟩
  | call r => table r
  | done => ⟨true, [], []⟩
  | fail => ⟨false, [], []⟩
  | seq c d =>
      ⟨(c.shape table).nullable && (d.shape table).nullable,
        (c.shape table).first ++ (if (c.shape table).nullable then (d.shape table).first else []),
        (d.shape table).last ++ if (d.shape table).nullable then (c.shape table).last else []⟩
  | branch _ c d | predict c d =>
      ⟨(c.shape table).nullable || (d.shape table).nullable,
        (c.shape table).first ++ (d.shape table).first,
        (c.shape table).last ++ (d.shape table).last⟩
  | loop _ c => ⟨true, (c.shape table).first, (c.shape table).last⟩

/-- Every kind that can end one part may stand before every kind that can start the next. -/
def meets (R : κ → κ → Bool) (s t : Shape κ) : Bool :=
  s.last.all fun a => t.first.all fun b => R a b

/-- Wherever two parts of a body meet, their kinds may stand side by side. -/
def seams (table : ρ → Shape κ) (R : κ → κ → Bool) : Code ρ κ → Bool
  | seq c d => c.seams table R && d.seams table R && meets R (c.shape table) (d.shape table)
  | branch _ c d | predict c d => c.seams table R && d.seams table R
  | loop _ c => c.seams table R && meets R (c.shape table) (c.shape table)
  | _ => true

end Code

/-- The kinds of a stretch of tokens have this shape, and neighbours may stand side by side. -/
structure Fits (R : κ → κ → Bool) (s : Shape κ) (kinds : List κ) : Prop where
  nullable : kinds = [] → s.nullable = true
  first : ∀ k ∈ kinds.head?, k ∈ s.first
  last : ∀ k ∈ kinds.getLast?, k ∈ s.last
  chain : kinds.IsChain fun a b => R a b = true

theorem Fits.nil {R : κ → κ → Bool} {s : Shape κ} (h : s.nullable = true) : Fits R s [] where
  nullable _ := h
  first _ hk := by cases hk
  last _ hk := by cases hk
  chain := .nil

/-- A shape that allows more. -/
theorem Fits.mono {R : κ → κ → Bool} {s t : Shape κ} {kinds : List κ} (h : Fits R s kinds)
    (hn : s.nullable = true → t.nullable = true) (hf : s.first ⊆ t.first)
    (hl : s.last ⊆ t.last) : Fits R t kinds where
  nullable hk := hn (h.nullable hk)
  first k hk := hf (h.first k hk)
  last k hk := hl (h.last k hk)
  chain := h.chain

/-- Two stretches whose shapes meet, side by side. -/
theorem Fits.append {R : κ → κ → Bool} {s t u : Shape κ} {ks ls : List κ} (hs : Fits R s ks)
    (ht : Fits R t ls) (hmeet : Code.meets R s t = true)
    (hn : s.nullable = true → t.nullable = true → u.nullable = true)
    (hf : s.first ++ (if s.nullable then t.first else []) ⊆ u.first)
    (hl : t.last ++ (if t.nullable then s.last else []) ⊆ u.last) : Fits R u (ks ++ ls) where
  nullable h := by
    obtain ⟨hks, hls⟩ := List.append_eq_nil_iff.mp h
    exact hn (hs.nullable hks) (ht.nullable hls)
  first k hk := by
    apply hf
    cases ks with
    | nil =>
        rw [hs.nullable rfl, if_pos rfl]
        exact List.mem_append_right _ (ht.first k (by simpa using hk))
    | cons a ks => exact List.mem_append_left _ (hs.first k (by simpa using hk))
  last k hk := by
    apply hl
    cases hls : ls with
    | nil =>
        rw [ht.nullable hls, if_pos rfl]
        exact List.mem_append_right _ (hs.last k (by simpa [hls] using hk))
    | cons a ls' =>
        refine List.mem_append_left _ (ht.last k ?_)
        rw [hls] at hk ⊢
        rwa [List.getLast?_append_of_ne_nil _ (by simp)] at hk
  chain := by
    refine List.isChain_append.mpr ⟨hs.chain, ht.chain, fun a ha b hb => ?_⟩
    exact List.all_eq_true.mp (List.all_eq_true.mp hmeet a (hs.last a ha)) b (ht.first b hb)

namespace Code

/-- Fuel that is enough until a token has been read; `rank` is the same for a rule. -/
def depth (table : ρ → Shape κ) (rank : ρ → ℕ) : Code ρ κ → ℕ
  | call r => rank r + 1
  | seq c d =>
      1 + max (c.depth table rank)
        (if (c.shape table).nullable then d.depth table rank else 0)
  | branch _ c d | predict c d => 1 + max (c.depth table rank) (d.depth table rank)
  | loop _ c => 1 + c.depth table rank
  | _ => 1

/-- No part of a body needs more than `bound`, and the body of every loop reads a token. -/
def within (table : ρ → Shape κ) (rank : ρ → ℕ) (bound : ℕ) : Code ρ κ → Bool
  | seq c d =>
      c.within table rank bound && d.within table rank bound &&
        decide (d.depth table rank ≤ bound)
  | branch _ c d | predict c d => c.within table rank bound && d.within table rank bound
  | loop kinds c =>
      c.within table rank bound && !(c.shape table).nullable &&
        decide ((loop kinds c).depth table rank ≤ bound)
  | _ => true

theorem depth_pos (table : ρ → Shape κ) (rank : ρ → ℕ) (c : Code ρ κ) :
    0 < c.depth table rank := by
  cases c with
  | call => exact Nat.succ_pos _
  | seq | branch | predict | loop => exact Nat.add_pos_left Nat.one_pos _
  | _ => exact Nat.one_pos

end Code

end shapes

/-! ### Running a body -/

section exec

variable {ρ κ β : Type} [DecidableEq κ] (rules : ρ → Code ρ κ) (kind : β → κ)

/-- The next token is of one of the kinds. -/
def nextIn (kinds : List κ) (ts : List β) : Bool :=
  ts.head?.any fun t => kinds.contains (kind t)

/-- Runs a method body: the trees it adds and the tokens it leaves. -/
def exec : ℕ → Code ρ κ → List β → Option (List (ParseTree ρ β) × List β)
  | 0, _, _ => none
  | _ + 1, .accept kinds, ts =>
      match ts with
      | [] => none
      | t :: rest => if kinds.contains (kind t) then some ([terminal t], rest) else none
  | n + 1, .call r, ts => (exec n (rules r) ts).map fun out => ([node r out.1], out.2)
  | _ + 1, .done, ts => some ([], ts)
  | _ + 1, .fail, _ => none
  | n + 1, .seq c d, ts =>
      (exec n c ts).bind fun out => (exec n d out.2).map fun out' => (out.1 ++ out'.1, out'.2)
  | n + 1, .branch kinds c d, ts => if nextIn kind kinds ts then exec n c ts else exec n d ts
  | n + 1, .loop kinds c, ts =>
      if nextIn kind kinds ts then
        (exec n c ts).bind fun out =>
          (exec n (.loop kinds c) out.2).map fun out' => (out.1 ++ out'.1, out'.2)
      else some ([], ts)
  | n + 1, .predict c d, ts =>
      match exec n c ts with
      | some out => some out
      | none => exec n d ts

end exec

section results

variable {ρ κ β γ : Type} [DecidableEq κ] {rules : ρ → Code ρ κ} {kind : β → κ}

/-! ### What is read -/

theorem exec_leaves {n : ℕ} : ∀ {c : Code ρ κ} {ts : List β} {out},
    exec rules kind n c ts = some out → ts = leavesAll out.1 ++ out.2 := by
  induction n with
  | zero => exact fun h => by cases h
  | succ n ih =>
      intro c ts out h
      cases c with
      | accept kinds =>
          cases ts with
          | nil => cases h
          | cons t rest =>
              rw [exec] at h
              split at h
              · cases h
                rfl
              · cases h
      | call r =>
          obtain ⟨out', hout, rfl⟩ := Option.map_eq_some_iff.mp h
          simpa [leavesAll, leaves] using ih hout
      | done =>
          cases h
          rfl
      | fail => cases h
      | seq c d =>
          obtain ⟨out', hc, hrest⟩ := Option.bind_eq_some_iff.mp h
          obtain ⟨out'', hd, rfl⟩ := Option.map_eq_some_iff.mp hrest
          rw [leavesAll_append, List.append_assoc, ← ih hd, ← ih hc]
      | branch kinds c d =>
          rw [exec] at h
          split at h
          · exact ih h
          · exact ih h
      | loop kinds c =>
          rw [exec] at h
          split at h
          · obtain ⟨out', hc, hrest⟩ := Option.bind_eq_some_iff.mp h
            obtain ⟨out'', hd, rfl⟩ := Option.map_eq_some_iff.mp hrest
            rw [leavesAll_append, List.append_assoc, ← ih hd, ← ih hc]
          · cases h
            rfl
      | predict c d =>
          rw [exec] at h
          split at h
          · cases h
            exact ih (by assumption)
          · exact ih h

/-- Renaming tokens without changing their kinds renames the tree. -/
theorem exec_map {kind' : γ → κ} {f : β → γ} (hf : ∀ b, kind' (f b) = kind b) {n : ℕ} :
    ∀ {c : Code ρ κ} {ts : List β}, exec rules kind' n c (ts.map f) =
      (exec rules kind n c ts).map fun out => (mapAll f out.1, out.2.map f) := by
  have hnext : ∀ (kinds : List κ) (ts : List β),
      nextIn kind' kinds (ts.map f) = nextIn kind kinds ts := by
    intro kinds ts
    cases ts with
    | nil => rfl
    | cons t ts => simp [nextIn, hf]
  induction n with
  | zero => exact fun {c ts} => rfl
  | succ n ih =>
      intro c ts
      cases c with
      | accept kinds =>
          cases ts with
          | nil => rfl
          | cons t rest =>
              rw [List.map_cons, exec, exec, hf]
              split <;> rfl
      | call r =>
          rw [exec, exec, ih, Option.map_map, Option.map_map]
          rfl
      | done => rfl
      | fail => rfl
      | seq c d =>
          rw [exec, exec, ih]
          cases hc : exec rules kind n c ts with
          | none => rfl
          | some out =>
              rw [Option.map_some, Option.bind_some, Option.bind_some, ih]
              cases exec rules kind n d out.2 with
              | none => rfl
              | some out' => simp
      | branch kinds c d =>
          rw [exec, exec, hnext]
          split
          · exact ih
          · exact ih
      | loop kinds c =>
          rw [exec, exec, hnext]
          split
          · rw [ih]
            cases hc : exec rules kind n c ts with
            | none => rfl
            | some out =>
                rw [Option.map_some, Option.bind_some, Option.bind_some, ih]
                cases exec rules kind n (.loop kinds c) out.2 with
                | none => rfl
                | some out' => simp
          · rfl
      | predict c d =>
          rw [exec, exec, ih]
          cases exec rules kind n c ts with
          | none => exact ih
          | some out => rfl

/-! ### The shape of what is read -/

/-- The table of shapes covers the rules, and every seam of every rule is allowed. -/
structure Covers (rules : ρ → Code ρ κ) (table : ρ → Shape κ) (R : κ → κ → Bool) : Prop where
  nullable : ∀ r, ((rules r).shape table).nullable = true → (table r).nullable = true
  first : ∀ r, ((rules r).shape table).first ⊆ (table r).first
  last : ∀ r, ((rules r).shape table).last ⊆ (table r).last
  seams : ∀ r, (rules r).seams table R = true

/-- What a body reads has the body's shape. -/
theorem exec_fits {table : ρ → Shape κ} {R : κ → κ → Bool} (hcov : Covers rules table R) {n : ℕ} :
    ∀ {c : Code ρ κ} {ts : List β} {out}, exec rules kind n c ts = some out →
      c.seams table R = true → Fits R (c.shape table) ((leavesAll out.1).map kind) := by
  induction n with
  | zero => exact fun h => by cases h
  | succ n ih =>
      intro c ts out h hseams
      cases c with
      | accept kinds =>
          cases ts with
          | nil => cases h
          | cons t rest =>
              rw [exec] at h
              split at h
              · cases h
                have hmem : kind t ∈ kinds := by simpa using ‹kinds.contains (kind t) = true›
                exact ⟨by simp [leavesAll, leaves], by simpa [leavesAll, leaves, Code.shape],
                  by simpa [leavesAll, leaves, Code.shape], by simp [leavesAll, leaves]⟩
              · cases h
      | call r =>
          obtain ⟨out', hout, rfl⟩ := Option.map_eq_some_iff.mp h
          have hfit := (ih hout (hcov.seams r)).mono (t := table r) (hcov.nullable r)
            (hcov.first r) (hcov.last r)
          simpa [leavesAll, leaves, Code.shape] using hfit
      | done =>
          cases h
          exact .nil rfl
      | fail => cases h
      | seq c d =>
          obtain ⟨out', hc, hrest⟩ := Option.bind_eq_some_iff.mp h
          obtain ⟨out'', hd, rfl⟩ := Option.map_eq_some_iff.mp hrest
          rw [Code.seams, Bool.and_eq_true, Bool.and_eq_true] at hseams
          rw [leavesAll_append, List.map_append]
          refine (ih hc hseams.1.1).append (ih hd hseams.1.2) hseams.2 ?_ ?_ ?_
          · exact fun hs ht => by rw [Code.shape, hs, ht]; rfl
          · exact List.Subset.refl _
          · exact List.Subset.refl _
      | branch kinds c d =>
          rw [exec] at h
          rw [Code.seams, Bool.and_eq_true] at hseams
          split at h
          · exact (ih h hseams.1).mono (fun hn => by simp [Code.shape, hn])
              (List.subset_append_left _ _) (List.subset_append_left _ _)
          · exact (ih h hseams.2).mono (fun hn => by simp [Code.shape, hn])
              (List.subset_append_right _ _) (List.subset_append_right _ _)
      | loop kinds c =>
          rw [exec] at h
          split at h
          · obtain ⟨out', hc, hrest⟩ := Option.bind_eq_some_iff.mp h
            obtain ⟨out'', hd, rfl⟩ := Option.map_eq_some_iff.mp hrest
            have hbody := (Bool.and_eq_true _ _).mp hseams
            rw [leavesAll_append, List.map_append]
            refine (ih hc hbody.1).append (ih hd hseams) hbody.2 (fun _ _ => rfl) ?_ ?_
            · refine List.append_subset.mpr ⟨List.Subset.refl _, ?_⟩
              split
              · exact List.Subset.refl _
              · exact List.nil_subset _
            · refine List.append_subset.mpr ⟨List.Subset.refl _, ?_⟩
              split
              · exact List.Subset.refl _
              · exact List.nil_subset _
          · cases h
            exact .nil rfl
      | predict c d =>
          rw [exec] at h
          rw [Code.seams, Bool.and_eq_true] at hseams
          split at h
          · cases h
            exact (ih (by assumption) hseams.1).mono (fun hn => by simp [Code.shape, hn])
              (List.subset_append_left _ _) (List.subset_append_left _ _)
          · exact (ih h hseams.2).mono (fun hn => by simp [Code.shape, hn])
              (List.subset_append_right _ _) (List.subset_append_right _ _)

/-! ### Fuel -/

/-- Ranks that fall from a rule to the rules it calls first. -/
structure Ranked (rules : ρ → Code ρ κ) (table : ρ → Shape κ) (rank : ρ → ℕ) (bound : ℕ) :
    Prop where
  depth_le : ∀ r, (rules r).depth table rank ≤ rank r
  within : ∀ r, (rules r).within table rank bound = true

/-- A body that reads nothing is nullable; otherwise fewer tokens are left. -/
theorem exec_length {table : ρ → Shape κ} {R : κ → κ → Bool} (hcov : Covers rules table R) {n : ℕ}
    {c : Code ρ κ} {ts : List β} {out} (h : exec rules kind n c ts = some out)
    (hseams : c.seams table R = true) :
    out.2.length ≤ ts.length ∧ ((c.shape table).nullable = false → out.2.length < ts.length) := by
  have hts := congrArg List.length (exec_leaves h)
  rw [List.length_append] at hts
  refine ⟨by omega, fun hn => ?_⟩
  cases hl : leavesAll out.1 with
  | nil =>
      have := (exec_fits hcov h hseams).nullable (by rw [hl]; rfl)
      rw [hn] at this
      cases this
  | cons t rest =>
      rw [hl, List.length_cons] at hts
      omega

/-- More fuel than the depth of the body and a share for every token changes nothing. -/
theorem exec_enough {table : ρ → Shape κ} {R : κ → κ → Bool} {rank : ρ → ℕ} {bound : ℕ}
    (hcov : Covers rules table R) (hrank : Ranked rules table rank bound) {n : ℕ} :
    ∀ {m : ℕ} {c : Code ρ κ} {ts : List β}, c.seams table R = true →
      c.within table rank bound = true → c.depth table rank + bound * ts.length ≤ n →
      c.depth table rank + bound * ts.length ≤ m →
      exec rules kind n c ts = exec rules kind m c ts := by
  induction n with
  | zero =>
      intro m c ts _ _ hn _
      have := c.depth_pos table rank
      omega
  | succ n ih =>
      intro m c ts hseams hwithin hn hm
      cases m with
      | zero =>
          have := c.depth_pos table rank
          omega
      | succ m =>
          -- the rest of a body that has read a token gets the share of that token
          have share : ∀ {d : Code ρ κ} {rest : List β}, d.depth table rank ≤ bound →
              rest.length < ts.length →
              d.depth table rank + bound * rest.length ≤ bound * ts.length := by
            intro d rest hd hrest
            calc d.depth table rank + bound * rest.length
                ≤ bound + bound * rest.length := Nat.add_le_add_right hd _
              _ = bound * (rest.length + 1) := by rw [Nat.mul_add, Nat.mul_one, Nat.add_comm]
              _ ≤ bound * ts.length := Nat.mul_le_mul_left _ hrest
          cases c with
          | accept kinds => rfl
          | done => rfl
          | fail => rfl
          | call r =>
              have hd := hrank.depth_le r
              rw [Code.depth] at hn hm
              rw [exec, exec, ih (m := m) (hcov.seams r) (hrank.within r) (by omega) (by omega)]
          | seq c d =>
              simp only [Code.seams, Bool.and_eq_true] at hseams
              simp only [Code.within, Bool.and_eq_true, decide_eq_true_eq] at hwithin
              rw [Code.depth] at hn hm
              rw [exec, exec, ih (m := m) hseams.1.1 hwithin.1.1 (by omega) (by omega)]
              cases hc : exec rules kind m c ts with
              | none => rfl
              | some out =>
                  obtain ⟨hle, hlt⟩ := exec_length hcov hc hseams.1.1
                  have hfuel : ∀ {k}, 1 + max (c.depth table rank)
                      (if (c.shape table).nullable then d.depth table rank else 0) +
                      bound * ts.length ≤ k + 1 →
                      d.depth table rank + bound * out.2.length ≤ k := by
                    intro k hk
                    cases hnull : (c.shape table).nullable with
                    | false =>
                        have := share hwithin.2 (hlt hnull)
                        omega
                    | true =>
                        rw [hnull, if_pos rfl] at hk
                        have := Nat.mul_le_mul_left bound hle
                        omega
                  rw [Option.bind_some, Option.bind_some,
                    ih hseams.1.2 hwithin.1.2 (hfuel hn) (hfuel hm)]
          | branch kinds c d =>
              simp only [Code.seams, Bool.and_eq_true] at hseams
              simp only [Code.within, Bool.and_eq_true] at hwithin
              rw [Code.depth] at hn hm
              rw [exec, exec, ih (m := m) hseams.1 hwithin.1 (by omega) (by omega),
                ih (m := m) hseams.2 hwithin.2 (by omega) (by omega)]
          | loop kinds c =>
              have hseams' := hseams
              have hwithin' := hwithin
              simp only [Code.seams, Bool.and_eq_true] at hseams'
              simp only [Code.within, Bool.and_eq_true, Bool.not_eq_true',
                decide_eq_true_eq] at hwithin'
              rw [Code.depth] at hn hm
              rw [exec, exec, ih (m := m) hseams'.1 hwithin'.1.1 (by omega) (by omega)]
              cases hc : exec rules kind m c ts with
              | none => rfl
              | some out =>
                  have hlt := (exec_length hcov hc hseams'.1).2 hwithin'.1.2
                  have hshare := share hwithin'.2 hlt
                  rw [Option.bind_some, Option.bind_some,
                    ih (m := m) hseams hwithin (by omega) (by omega)]
          | predict c d =>
              simp only [Code.seams, Bool.and_eq_true] at hseams
              simp only [Code.within, Bool.and_eq_true] at hwithin
              rw [Code.depth] at hn hm
              rw [exec, exec, ih (m := m) hseams.1 hwithin.1 (by omega) (by omega),
                ih (m := m) hseams.2 hwithin.2 (by omega) (by omega)]

end results

end WireTools

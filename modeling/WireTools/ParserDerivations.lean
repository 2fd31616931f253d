import WireTools.ParserCode

/-! # Derivations of method bodies

What a body can add to a tree, whatever the tokens behind it.

* `Derives` has one case for each way that a body reads on; `exec_derives`: what is run is derived;
* `derives_seq_iff` and the like read a derivation off the body;
* `Code.every` checks the kinds that a body matches and the methods it calls: `Derives.trees_every`
  for the trees that are added, `Derives.leaves_every` for all tokens under them. -/

namespace WireTools

open ParseTree

variable {ρ κ β : Type}

/-- The trees that a body adds. -/
inductive Derives (rules : ρ → Code ρ κ) (kind : β → κ) : Code ρ κ → List (ParseTree ρ β) → Prop
  | accept {kinds : List κ} {t : β} (h : kind t ∈ kinds) :
      Derives rules kind (.accept kinds) [terminal t]
  | call {r : ρ} {trees : List (ParseTree ρ β)} (h : Derives rules kind (rules r) trees) :
      Derives rules kind (.call r) [node r trees]
  | done : Derives rules kind .done []
  | seq {c d : Code ρ κ} {ts us : List (ParseTree ρ β)} (hc : Derives rules kind c ts)
      (hd : Derives rules kind d us) : Derives rules kind (.seq c d) (ts ++ us)
  | branchFirst {kinds : List κ} {c d : Code ρ κ} {ts : List (ParseTree ρ β)}
      (h : Derives rules kind c ts) : Derives rules kind (.branch kinds c d) ts
  | branchSecond {kinds : List κ} {c d : Code ρ κ} {ts : List (ParseTree ρ β)}
      (h : Derives rules kind d ts) : Derives rules kind (.branch kinds c d) ts
  | loopEnd {kinds : List κ} {c : Code ρ κ} : Derives rules kind (.loop kinds c) []
  | loopStep {kinds : List κ} {c : Code ρ κ} {ts us : List (ParseTree ρ β)}
      (hc : Derives rules kind c ts) (hrest : Derives rules kind (.loop kinds c) us) :
      Derives rules kind (.loop kinds c) (ts ++ us)
  | predictFirst {c d : Code ρ κ} {ts : List (ParseTree ρ β)} (h : Derives rules kind c ts) :
      Derives rules kind (.predict c d) ts
  | predictSecond {c d : Code ρ κ} {ts : List (ParseTree ρ β)} (h : Derives rules kind d ts) :
      Derives rules kind (.predict c d) ts

section derivations

variable {rules : ρ → Code ρ κ} {kind : β → κ}

/-! ### Running a body -/

theorem exec_derives [DecidableEq κ] {n : ℕ} : ∀ {c : Code ρ κ} {ts : List β} {out},
    exec rules kind n c ts = some out → Derives rules kind c out.1 := by
  induction n with
  | zero => exact fun h => by cases h
  | succ n ih =>
      intro c ts out h
      cases c with
      | accept kinds =>
          cases ts with
          | nil => cases h
          | cons t rest =>
              rw [exec] at h
              split at h
              · next hkind =>
                  cases h
                  exact .accept (List.contains_iff_mem.mp hkind)
              · cases h
      | call r =>
          obtain ⟨out', hout, rfl⟩ := Option.map_eq_some_iff.mp h
          exact .call (ih hout)
      | done =>
          cases h
          exact .done
      | fail => cases h
      | seq c d =>
          obtain ⟨out', hc, hrest⟩ := Option.bind_eq_some_iff.mp h
          obtain ⟨out'', hd, rfl⟩ := Option.map_eq_some_iff.mp hrest
          exact .seq (ih hc) (ih hd)
      | branch kinds c d =>
          rw [exec] at h
          split at h
          · exact .branchFirst (ih h)
          · exact .branchSecond (ih h)
      | loop kinds c =>
          rw [exec] at h
          split at h
          · obtain ⟨out', hc, hrest⟩ := Option.bind_eq_some_iff.mp h
            obtain ⟨out'', hd, rfl⟩ := Option.map_eq_some_iff.mp hrest
            exact .loopStep (ih hc) (ih hd)
          · cases h
            exact .loopEnd
      | predict c d =>
          rw [exec] at h
          split at h
          · next hc =>
              cases h
              exact .predictFirst (ih hc)
          · exact .predictSecond (ih h)

/-! ### Reading a derivation -/

theorem derives_accept_iff {kinds : List κ} {ts : List (ParseTree ρ β)} :
    Derives rules kind (.accept kinds) ts ↔ ∃ t, kind t ∈ kinds ∧ ts = [terminal t] := by
  constructor
  · rintro (⟨h⟩)
    exact ⟨_, h, rfl⟩
  · rintro ⟨t, h, rfl⟩
    exact .accept h

theorem derives_call_iff {r : ρ} {ts : List (ParseTree ρ β)} :
    Derives rules kind (.call r) ts ↔
      ∃ trees, Derives rules kind (rules r) trees ∧ ts = [node r trees] := by
  constructor
  · intro h
    cases h with
    | call h => exact ⟨_, h, rfl⟩
  · rintro ⟨trees, h, rfl⟩
    exact .call h

theorem derives_done_iff {ts : List (ParseTree ρ β)} :
    Derives rules kind .done ts ↔ ts = [] := by
  constructor
  · intro h
    cases h
    rfl
  · rintro rfl
    exact .done

theorem not_derives_fail {ts : List (ParseTree ρ β)} : ¬Derives rules kind .fail ts := by
  intro h
  cases h

theorem derives_seq_iff {c d : Code ρ κ} {ts : List (ParseTree ρ β)} :
    Derives rules kind (.seq c d) ts ↔
      ∃ us vs, Derives rules kind c us ∧ Derives rules kind d vs ∧ ts = us ++ vs := by
  constructor
  · intro h
    cases h with
    | seq hc hd => exact ⟨_, _, hc, hd, rfl⟩
  · rintro ⟨us, vs, hc, hd, rfl⟩
    exact .seq hc hd

theorem derives_branch_iff {kinds : List κ} {c d : Code ρ κ} {ts : List (ParseTree ρ β)} :
    Derives rules kind (.branch kinds c d) ts ↔ Derives rules kind c ts ∨ Derives rules kind d ts := by
  constructor
  · intro h
    cases h with
    | branchFirst h => exact Or.inl h
    | branchSecond h => exact Or.inr h
  · rintro (h | h)
    · exact .branchFirst h
    · exact .branchSecond h

theorem derives_predict_iff {c d : Code ρ κ} {ts : List (ParseTree ρ β)} :
    Derives rules kind (.predict c d) ts ↔ Derives rules kind c ts ∨ Derives rules kind d ts := by
  constructor
  · intro h
    cases h with
    | predictFirst h => exact Or.inl h
    | predictSecond h => exact Or.inr h
  · rintro (h | h)
    · exact .predictFirst h
    · exact .predictSecond h

/-- What holds of nothing and is kept by one more round holds of what a loop adds. -/
theorem Derives.loop_induction {kinds : List κ} {c : Code ρ κ}
    {motive : List (ParseTree ρ β) → Prop} (nil : motive [])
    (step : ∀ ts us, Derives rules kind c ts → motive us → motive (ts ++ us))
    {ts : List (ParseTree ρ β)} (h : Derives rules kind (.loop kinds c) ts) : motive ts := by
  generalize hloop : Code.loop kinds c = code at h
  induction h with
  | loopEnd => exact nil
  | loopStep hc _ _ ih =>
      cases hloop
      exact step _ _ hc (ih rfl)
  | _ => cases hloop

/-! ### Kinds and methods -/

namespace Code

/-- Every kind that a body matches, and every method that it calls. -/
def every (p : κ → Bool) (q : ρ → Bool) : Code ρ κ → Bool
  | accept kinds => kinds.all p
  | call r => q r
  | done => true
  | fail => true
  | seq c d => c.every p q && d.every p q
  | branch _ c d => c.every p q && d.every p q
  | loop _ c => c.every p q
  | predict c d => c.every p q && d.every p q

end Code

/-- The tokens and the nodes that a body adds. -/
theorem Derives.trees_every {p : κ → Bool} {q : ρ → Bool} {c : Code ρ κ}
    {trees : List (ParseTree ρ β)} (h : Derives rules kind c trees) (hc : c.every p q = true) :
    ∀ tree ∈ trees, (∃ t, tree = terminal t ∧ p (kind t) = true) ∨
      ∃ r children, tree = node r children ∧ q r = true := by
  induction h with
  | accept h =>
      rw [Code.every, List.all_eq_true] at hc
      exact List.forall_mem_singleton.mpr (Or.inl ⟨_, rfl, hc _ h⟩)
  | call => exact List.forall_mem_singleton.mpr (Or.inr ⟨_, _, rfl, hc⟩)
  | done => exact List.forall_mem_nil _
  | seq _ _ ihc ihd =>
      rw [Code.every, Bool.and_eq_true] at hc
      exact List.forall_mem_append.mpr ⟨ihc hc.1, ihd hc.2⟩
  | branchFirst _ ih | predictFirst _ ih =>
      rw [Code.every, Bool.and_eq_true] at hc
      exact ih hc.1
  | branchSecond _ ih | predictSecond _ ih =>
      rw [Code.every, Bool.and_eq_true] at hc
      exact ih hc.2
  | loopEnd => exact List.forall_mem_nil _
  | loopStep _ _ ihc ihrest => exact List.forall_mem_append.mpr ⟨ihc hc, ihrest hc⟩

/-- All tokens that a body reads, when the methods that are called are checked alike. -/
theorem Derives.leaves_every {p : κ → Bool} {q : ρ → Bool}
    (hrules : ∀ r, q r = true → (rules r).every p q = true) {c : Code ρ κ}
    {trees : List (ParseTree ρ β)} (h : Derives rules kind c trees) (hc : c.every p q = true) :
    ∀ t ∈ leavesAll trees, p (kind t) = true := by
  induction h with
  | accept h =>
      rw [Code.every, List.all_eq_true] at hc
      exact List.forall_mem_singleton.mpr (hc _ h)
  | call _ ih =>
      rw [leavesAll, leavesAll, List.append_nil, leaves]
      exact ih (hrules _ hc)
  | done => exact List.forall_mem_nil _
  | seq _ _ ihc ihd =>
      rw [Code.every, Bool.and_eq_true] at hc
      rw [leavesAll_append]
      exact List.forall_mem_append.mpr ⟨ihc hc.1, ihd hc.2⟩
  | branchFirst _ ih | predictFirst _ ih =>
      rw [Code.every, Bool.and_eq_true] at hc
      exact ih hc.1
  | branchSecond _ ih | predictSecond _ ih =>
      rw [Code.every, Bool.and_eq_true] at hc
      exact ih hc.2
  | loopEnd => exact List.forall_mem_nil _
  | loopStep _ _ ihc ihrest =>
      rw [leavesAll_append]
      exact List.forall_mem_append.mpr ⟨ihc hc, ihrest hc⟩

end derivations

end WireTools

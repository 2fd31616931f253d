import Mathlib.Data.List.Infix
import WireTools.StartScript

/-! # What a start script runs

* `feed_token`: the word a token is rendered as is read as the token itself;
* `evalBody_body`: the conditional block and the `exec` line pass exactly the argv without the
  governed runs, and then the runs whose tests are true;
* `removeRun_spec`, `runsRemoved_unconditionalArgv`: which runs are removed;
* `guarded_of_expands`: a token that expands a host-supplied root has that root's guard in the
  preamble;
* `startScript_faithful` puts these together. -/

namespace WireTools.StartScript

open Shell

/-! ### Tokens -/

theorem shellQuote_eq (value : Text) : shellQuote value = quote :: escaped value ++ [quote] := by
  have hquote : text "'" = [quote] := by decide
  have hreplacement : text "'\\''" = [quote, backslash, quote, quote] := by decide
  rw [shellQuote, hquote, hreplacement]
  rfl

theorem isName_name (v : StartScriptVariable) : IsName v.name := by
  cases v <;> exact ⟨by decide, by decide, by decide⟩

theorem mem_orderRelocations {r : StartScriptRelocation} {rs : List StartScriptRelocation} :
    r ∈ orderRelocations rs ↔ r ∈ rs ∧ r.pathPrefix ≠ [] := by
  rw [orderRelocations, List.mem_mergeSort, List.mem_filter, decide_eq_true_eq]

/-- A root that a path matches begins it. -/
theorem append_drop_of_matchesPrefix {path pathPrefix : Text}
    (h : matchesPrefix path pathPrefix = true) :
    path = pathPrefix ++ path.drop pathPrefix.length := by
  rw [matchesPrefix, Bool.and_eq_true, Bool.or_eq_true, beq_iff_eq,
    List.isPrefixOf_iff_prefix] at h
  rcases h.2 with rfl | ⟨rest, rfl⟩
  · rw [List.drop_length, List.append_nil]
  · rw [List.append_assoc, List.drop_left]

variable {env : Env} {stop : CodeUnit} {w : Option Text} {words : List Text}
variable {relocations : List StartScriptRelocation}

/-- The variables of the table hold their own roots. -/
def Bound (env : Env) (relocations : List StartScriptRelocation) : Prop :=
  ∀ r ∈ relocations, r.pathPrefix ≠ [] → env.vars r.shellVar.name = some r.pathPrefix

theorem Bound.order (h : Bound env relocations) : Bound env (orderRelocations relocations) :=
  fun r hr hne => h r (mem_orderRelocations.mp hr).1 hne

theorem feed_token (hs : EndsOnly stop) (hb : Bound env relocations) {token : Text}
    (h : 0 ∉ token) :
    feed env stop ⟨.bare, w, words⟩ (toRelocatableToken token relocations) =
      some ⟨.bare, some (w.getD [] ++ token), words⟩ := by
  have hopen : text "\"$" = [doubleQuote, dollar] := by decide
  have hclose : text "\"" = [doubleQuote] := by decide
  unfold toRelocatableToken
  cases hfind : relocations.find? fun r => matchesPrefix token r.pathPrefix with
  | none =>
      simp only
      rw [shellQuote_eq, feed_quoted hs h]
  | some r =>
      have hmatch : matchesPrefix token r.pathPrefix = true := by
        simpa using List.find?_some hfind
      have hne : r.pathPrefix ≠ [] := by
        rw [matchesPrefix, Bool.and_eq_true, decide_eq_true_eq] at hmatch
        exact hmatch.1
      have hvalue := hb r (List.mem_of_find?_eq_some hfind) hne
      have htoken := append_drop_of_matchesPrefix hmatch
      have hvar : feed env stop ⟨.bare, w, words⟩ (text "\"$" ++ r.shellVar.name ++ text "\"") =
          some ⟨.bare, some (w.getD [] ++ r.pathPrefix), words⟩ := by
        rw [hopen, hclose]
        exact feed_variable hs (isName_name r.shellVar) hvalue
      simp only
      split_ifs with hrest
      · rw [hrest, List.append_nil] at htoken
        rw [hvar, htoken]
      · have hnul : 0 ∉ token.drop r.pathPrefix.length :=
          fun hm => h (List.mem_of_mem_drop hm)
        rw [feed_append, hvar, Option.bind_some, shellQuote_eq, feed_quoted hs hnul,
          Option.getD_some, List.append_assoc, ← htoken]

/-- Words behind a separator each. -/
theorem feed_separated (hs : EndsOnly stop) (hb : Bound env relocations) :
    ∀ {tokens : List Text} {w : Option Text} {words : List Text}, (∀ t ∈ tokens, 0 ∉ t) →
      ∃ w' words', feed env stop ⟨.bare, w, words⟩
        (tokens.flatMap fun t => [blank] ++ toRelocatableToken t relocations) =
          some ⟨.bare, w', words'⟩ ∧ words' ++ w'.toList = words ++ w.toList ++ tokens
  | [], w, words, _ => ⟨w, words, rfl, by rw [List.append_nil]⟩
  | t :: tokens, w, words, h => by
      obtain ⟨w', words', hfeed, hwords⟩ := @feed_separated hs hb tokens (some t)
        (words ++ w.toList) fun u hu => h u (List.mem_cons_of_mem _ hu)
      refine ⟨w', words', ?_, ?_⟩
      · rw [List.flatMap_cons, feed_append, List.singleton_append,
          feed_cons (next_bare_blank hs), feed_token hs hb (h t (by simp)), Option.bind_some]
        exact hfeed
      · rw [hwords, Option.toList_some, List.append_assoc (words ++ w.toList)]
        rfl

/-- The words of a list, up to the unit that ends it. -/
theorem read_join (hs : EndsOnly stop) (hb : Bound env relocations) {tokens : List Text}
    (h : ∀ t ∈ tokens, 0 ∉ t) (rest : Text) :
    read env stop (fresh []) (join [blank] (tokens.map fun t => toRelocatableToken t relocations)
      ++ stop :: rest) = some (tokens, rest) := by
  cases tokens with
  | nil =>
      rw [List.map_nil, join, List.nil_append]
      exact read_stop none [] rest
  | cons t tokens =>
      obtain ⟨w', words', hfeed, hwords⟩ := @feed_separated env stop relocations hs hb tokens
        (some t) [] fun u hu => h u (List.mem_cons_of_mem _ hu)
      have hall : feed env stop (fresh []) (join [blank]
          ((t :: tokens).map fun t => toRelocatableToken t relocations)) =
            some ⟨.bare, w', words'⟩ := by
        rw [List.map_cons, join, feed_append, fresh, feed_token hs hb (h t (by simp)),
          Option.bind_some, List.flatMap_map]
        exact hfeed
      rw [read_of_feed hall, read_stop, hwords]
      rfl

/-- Words that each continue the line. -/
theorem feed_continuing (hs : EndsOnly stop) (hb : Bound env relocations) :
    ∀ {tokens : List Text} {words : List Text}, (∀ t ∈ tokens, 0 ∉ t) →
      feed env stop ⟨.bare, none, words⟩
        (tokens.flatMap fun t => toRelocatableToken t relocations ++ continued) =
          some ⟨.bare, none, words ++ tokens⟩
  | [], words, _ => by
      rw [List.append_nil]
      rfl
  | t :: tokens, words, h => by
      rw [List.flatMap_cons, feed_append, feed_append, feed_token hs hb (h t (by simp)),
        Option.bind_some, feed_continued hs, Option.bind_some,
        feed_continuing hs hb fun u hu => h u (List.mem_cons_of_mem _ hu)]
      simp

/-! ### Conditions -/

@[simp] theorem behind_append (lead rest : Text) : behind lead (lead ++ rest) = some rest := by
  rw [behind, if_pos (List.isPrefixOf_iff_prefix.mpr (List.prefix_append lead rest)),
    List.drop_left]

/-- The conditions with the truth of their tests. -/
def tested (holds : ℕ → Bool) (conditions : List DaemonArgvCondition) : List (Text × Bool) :=
  conditions.mapIdx fun k c => (c.test, holds k)

/-- The runs of the conditions whose tests are true, in order. -/
def heldTokens (holds : ℕ → Bool) (conditions : List DaemonArgvCondition) : List Text :=
  (conditions.mapIdx fun k c => if holds k then c.tokens else []).flatten

theorem tested_cons (holds : ℕ → Bool) (c : DaemonArgvCondition)
    (conditions : List DaemonArgvCondition) :
    tested holds (c :: conditions) =
      (c.test, holds 0) :: tested (fun k => holds (k + 1)) conditions := by
  rw [tested, List.mapIdx_cons, tested]

theorem heldTokens_cons (holds : ℕ → Bool) (c : DaemonArgvCondition)
    (conditions : List DaemonArgvCondition) :
    heldTokens holds (c :: conditions) =
      (if holds 0 then c.tokens else []) ++ heldTokens (fun k => holds (k + 1)) conditions := by
  rw [heldTokens, List.mapIdx_cons, List.flatten_cons, heldTokens]

theorem evalConditions_cons {test : Text} {holds : Bool} {tests : List (Text × Bool)}
    {t t₁ t₂ t₃ t₄ : Text} {words more : List Text}
    (h₁ : behind (test ++ text " && " ++ ConditionalArrayName ++ text "+=(") t = some t₁)
    (h₂ : read env closeParen (fresh []) t₁ = some (words, t₂))
    (h₃ : behind (text "\n") t₂ = some t₃)
    (h₄ : evalConditions env tests t₃ = some (more, t₄)) :
    evalConditions env ((test, holds) :: tests) t =
      some ((if holds then words else []) ++ more, t₄) := by
  rw [evalConditions, h₁]
  change (read env closeParen (fresh []) t₁).bind _ = _
  rw [h₂]
  change (behind (text "\n") t₂).bind _ = _
  rw [h₃]
  change (evalConditions env tests t₃).bind _ = _
  rw [h₄]
  rfl

theorem evalConditions_lines (hb : Bound env relocations) (rest : Text) :
    ∀ {conditions : List DaemonArgvCondition} {holds : ℕ → Bool},
      (∀ c ∈ conditions, ∀ t ∈ c.tokens, 0 ∉ t) →
      evalConditions env (tested holds conditions)
        (conditions.flatMap (fun c => conditionLine relocations c ++ text "\n") ++ rest) =
          some (heldTokens holds conditions, rest)
  | [], _, _ => rfl
  | c :: conditions, holds, h => by
      have hblank : text " " = [blank] := by decide
      have hclose : text ")" = [closeParen] := by decide
      have ih := @evalConditions_lines hb rest conditions (fun k => holds (k + 1))
        fun d hd => h d (List.mem_cons_of_mem (a := d) c hd)
      have hread := read_join endsOnly_closeParen hb.order (h c (by simp)) (text "\n" ++
        (conditions.flatMap (fun c => conditionLine relocations c ++ text "\n") ++ rest))
      rw [tested_cons, heldTokens_cons]
      refine evalConditions_cons ?_ hread (behind_append _ _) ih
      refine (congrArg _ ?_).trans (behind_append _ _)
      rw [List.flatMap_cons, conditionLine, toRelocatableArgv, hblank, hclose]
      simp only [List.append_assoc, List.cons_append, List.nil_append]

/-! ### The body -/

/-- The words that the `exec` target stands for. -/
def execWords (env : Env) (daemon : DaemonConfig) : Option (List Text) :=
  match daemon.exeCommandName, daemon.exeEnvironmentVariable with
  | some command, some shellVar => env.braces (exeOverride shellVar command)
  | _, _ => some [daemon.exe]

theorem closeBrace_not_mem_exeOverride (shellVar : VariableName) (command : CommandName) :
    closeBrace ∉ exeOverride shellVar command := by
  have hlead : closeBrace ∉ text ":-$(command -v " := by decide
  have htail : closeBrace ∉ text ")" := by decide
  have hword : isWord closeBrace = false := by decide
  have hplain : isPlain closeBrace = false := by decide
  rw [exeOverride, List.mem_append, List.mem_append, List.mem_append]
  rintro (((h | h) | h) | h)
  · cases hword.symm.trans (shellVar.property _ h)
  · exact hlead h
  · cases hplain.symm.trans (command.property _ h)
  · exact htail h

theorem exeOverride_ne_array (shellVar : VariableName) (command : CommandName) :
    exeOverride shellVar command ≠ ConditionalArrayName ++ text "[@]" := by
  intro h
  have hparen : closeParen ∈ exeOverride shellVar command := by
    have htail : closeParen ∈ text ")" := by decide
    exact List.mem_append_right _ htail
  rw [h] at hparen
  revert hparen
  decide

/-- The `exec` target and the continuation of its line. -/
theorem feed_execTarget {daemon : DaemonConfig} {target : List Text} {array : List Text}
    (hb : Bound env relocations) (hexe : 0 ∉ daemon.exe)
    (htarget : execWords env daemon = some target) :
    feed (withArray env array) newline (fresh [])
      (execTarget daemon relocations ++ continued) = some ⟨.bare, none, target⟩ := by
  have hs := endsOnly_newline
  have hb' : Bound (withArray env array) relocations := hb
  have hplain : feed (withArray env array) newline (fresh [])
      (toRelocatableToken daemon.exe relocations ++ continued) =
        some ⟨.bare, none, [daemon.exe]⟩ := by
    rw [feed_append, fresh, feed_token hs hb' hexe, Option.bind_some, feed_continued hs]
    rfl
  unfold execTarget
  unfold execWords at htarget
  cases hcommand : daemon.exeCommandName with
  | none =>
      simp only [hcommand, Option.some.injEq] at htarget ⊢
      rw [← htarget]
      exact hplain
  | some command =>
      cases hvar : daemon.exeEnvironmentVariable with
      | none =>
          simp only [hcommand, hvar, Option.some.injEq] at htarget ⊢
          rw [← htarget]
          exact hplain
      | some shellVar =>
          simp only [hcommand, hvar] at htarget ⊢
          have hopen : text "\"$\x7b" = [doubleQuote, dollar, openBrace] := by decide
          have hclose : text "\x7d\"" = [closeBrace, doubleQuote] := by decide
          have hbraces : (withArray env array).braces (exeOverride shellVar command) =
              some target :=
            (if_neg (exeOverride_ne_array shellVar command)).trans htarget
          have hword : feed (withArray env array) newline (fresh []) (doubleQuote :: dollar ::
              openBrace :: exeOverride shellVar command ++ [closeBrace, doubleQuote]) =
                some ⟨.after, none, [] ++ target⟩ :=
            feed_braces hs (closeBrace_not_mem_exeOverride shellVar command) hbraces
          rw [hopen, hclose, feed_append]
          refine (congrArg (fun o => Option.bind o _) hword).trans ?_
          rw [Option.bind_some, feed_continued_after hs]
          rfl

/-- A text before each item and after the last is one after each item and before the first. -/
theorem flatMap_shift {α : Type} (a b : Text) (f : α → Text) (ts : List α) :
    ts.flatMap (fun t => a ++ f t ++ b) ++ a = a ++ ts.flatMap fun t => f t ++ (b ++ a) := by
  induction ts with
  | nil => simp
  | cons t ts ih =>
      rw [List.flatMap_cons, List.flatMap_cons, List.append_assoc, ih]
      simp only [List.append_assoc]

theorem evalBody_eq {tests : List (Text × Bool)} {t t₁ t₂ t₃ : Text} {array words : List Text}
    (h₁ : behind (ConditionalArrayName ++ text "=()\n") t = some t₁)
    (h₂ : evalConditions env tests t₁ = some (array, t₂))
    (h₃ : behind (text "\nexec ") t₂ = some t₃)
    (h₄ : read (withArray env array) newline (fresh []) t₃ = some (words, [])) :
    evalBody env tests t = some words := by
  rw [evalBody, h₁]
  change (evalConditions env tests t₁).bind _ = _
  rw [h₂]
  change (behind (text "\nexec ") t₂).bind _ = _
  rw [h₃]
  change (read (withArray env array) newline (fresh []) t₃).bind _ = _
  rw [h₄]
  rfl

/-- The arguments of the `exec` line, with the array at the end. -/
theorem read_execLine {daemon : DaemonConfig} {target array : List Text}
    (hb : Bound env relocations) (hexe : 0 ∉ daemon.exe)
    (htarget : execWords env daemon = some target) {argv : List Text}
    (hargv : ∀ t ∈ argv, 0 ∉ t) :
    read (withArray env array) newline (fresh [])
      (execTarget daemon relocations ++ continued ++
        argv.flatMap
          (fun t => toRelocatableToken t (orderRelocations relocations) ++ continued) ++
          ConditionalArrayExpansion ++ [newline]) = some (target ++ argv ++ array, []) := by
  have hs := endsOnly_newline
  have hb' : Bound (withArray env array) (orderRelocations relocations) := hb.order
  have hname : closeBrace ∉ ConditionalArrayName ++ text "[@]" := by decide
  have harray : ConditionalArrayExpansion = doubleQuote :: dollar :: openBrace ::
      (ConditionalArrayName ++ text "[@]") ++ [closeBrace, doubleQuote] := by decide
  have hbraces :
      (withArray env array).braces (ConditionalArrayName ++ text "[@]") = some array := by
    simp only [withArray, if_true]
  have hfeed : feed (withArray env array) newline (fresh [])
      (execTarget daemon relocations ++ continued ++
        argv.flatMap
          (fun t => toRelocatableToken t (orderRelocations relocations) ++ continued) ++
          ConditionalArrayExpansion) = some ⟨.after, none, target ++ argv ++ array⟩ := by
    rw [feed_append, feed_append, feed_execTarget hb hexe htarget, Option.bind_some,
      feed_continuing hs hb' hargv, Option.bind_some, harray]
    exact feed_braces hs hname hbraces
  rw [read_of_feed hfeed, read_stop_after]

/-- The text of the body, with every line in its place. -/
theorem join_bodyLines (daemon : DaemonConfig) :
    join (text "\n") (bodyLines daemon relocations) =
      ConditionalArrayName ++ text "=()\n" ++
        (daemon.conditions.flatMap (fun c => conditionLine relocations c ++ text "\n") ++
          (text "\nexec " ++ (execTarget daemon relocations ++ continued ++
            (unconditionalArgv daemon).flatMap
              (fun t => toRelocatableToken t (orderRelocations relocations) ++ continued) ++
                ConditionalArrayExpansion ++ [newline]))) := by
  have hempty : text "=()\n" = text "=()" ++ text "\n" := by decide
  have hexec : text "\nexec " = text "\n" ++ text "exec " := by decide
  have hcontinued : continued = text " \\" ++ text "\n" ++ text "  " := by decide
  have hnewline : [newline] = text "\n" := by decide
  have hlines : bodyLines daemon relocations =
      (conditionLines daemon.conditions relocations ++
        [text "exec " ++ execTarget daemon relocations ++ text " \\"] ++
        (toRelocatableArgv (unconditionalArgv daemon) relocations).map
          (fun word => text "  " ++ word ++ text " \\") ++
        [text "  " ++ ConditionalArrayExpansion]) ++ [[]] := by
    rw [bodyLines]
    simp only [List.append_assoc, List.cons_append, List.nil_append]
  have hshift := flatMap_shift (text "  ") (text " \\" ++ text "\n")
    (fun t => toRelocatableToken t (orderRelocations relocations)) (unconditionalArgv daemon)
  rw [hlines, join_concat, hempty, hexec, hcontinued, hnewline, conditionLines, toRelocatableArgv]
  simp only [List.flatMap_append, List.flatMap_cons, List.flatMap_nil, List.flatMap_map,
    List.append_assoc, List.append_nil, List.nil_append, List.cons_append] at hshift ⊢
  rw [← List.append_assoc (List.flatMap _ (unconditionalArgv daemon)) (text "  ")]
  rw [hshift]
  simp only [List.append_assoc]

theorem evalBody_body {daemon : DaemonConfig} {target : List Text} (holds : ℕ → Bool)
    (hb : Bound env relocations) (hexe : 0 ∉ daemon.exe)
    (hargv : ∀ t ∈ unconditionalArgv daemon, 0 ∉ t)
    (hconditions : ∀ c ∈ daemon.conditions, ∀ t ∈ c.tokens, 0 ∉ t)
    (htarget : execWords env daemon = some target) :
    evalBody env (tested holds daemon.conditions)
        (join (text "\n") (bodyLines daemon relocations)) =
      some (target ++ unconditionalArgv daemon ++ heldTokens holds daemon.conditions) := by
  rw [join_bodyLines]
  exact evalBody_eq (behind_append _ _) (evalConditions_lines hb _ hconditions)
    (behind_append _ _) (read_execLine hb hexe htarget hargv)

/-! ### Removed runs -/

/-- The tokens without the first occurrence of the run, and as they are if there is none. -/
def FirstRunRemoved (tokens run result : List Text) : Prop :=
  (∃ front back, tokens = front ++ run ++ back ∧ result = front ++ back ∧
    ∀ front' back', tokens = front' ++ run ++ back' → front.length ≤ front'.length) ∨
  (¬ run <:+: tokens ∧ result = tokens)

/-- The run of every condition is removed, in their order. -/
def RunsRemoved : List Text → List DaemonArgvCondition → List Text → Prop
  | tokens, [], result => result = tokens
  | tokens, c :: conditions, result =>
      ∃ rest, FirstRunRemoved tokens c.tokens rest ∧ RunsRemoved rest conditions result

theorem runAt_drop {tokens run front back : List Text} (h : tokens = front ++ run ++ back) :
    runAt (tokens.drop front.length) run = true := by
  rw [h, List.append_assoc, List.drop_left, runAt, List.isPrefixOf_iff_prefix]
  exact List.prefix_append run back

theorem removeRun_spec (tokens run : List Text) :
    FirstRunRemoved tokens run (removeRun tokens run) := by
  unfold removeRun
  split_ifs with hrun
  · subst hrun
    exact Or.inl ⟨[], tokens, rfl, rfl, fun _ _ _ => Nat.zero_le _⟩
  have hbound : ∀ {front back : List Text}, tokens = front ++ run ++ back →
      front.length < tokens.length := by
    intro front back h
    have hlength := List.length_pos_iff.mpr hrun
    rw [h, List.length_append, List.length_append]
    omega
  cases hfind : (List.range tokens.length).find? fun index => runAt (tokens.drop index) run with
  | none =>
      refine Or.inr ⟨?_, rfl⟩
      rintro ⟨front, back, h⟩
      have hnot := List.find?_eq_none.mp hfind front.length (List.mem_range.mpr (hbound h.symm))
      exact hnot (runAt_drop h.symm)
  | some index =>
      obtain ⟨hat, hindex, hfirst⟩ := List.find?_range_eq_some.mp hfind
      rw [runAt, List.isPrefixOf_iff_prefix] at hat
      obtain ⟨back, hback⟩ := hat
      have hle : index ≤ tokens.length := Nat.le_of_lt (List.mem_range.mp hindex)
      have htake : (tokens.take index).length = index := List.length_take_of_le hle
      refine Or.inl ⟨tokens.take index, back, ?_, ?_, ?_⟩
      · rw [List.append_assoc, hback, List.take_append_drop]
      · have hdrop : tokens.drop (index + run.length) = back := by
          rw [← List.drop_drop, ← hback, List.drop_left]
        simp only [hdrop]
      · intro front back' h
        rw [htake]
        by_contra hlt
        have hno := hfirst front.length (Nat.lt_of_not_le hlt)
        rw [runAt_drop h] at hno
        cases hno

theorem runsRemoved_foldl : ∀ (conditions : List DaemonArgvCondition) (tokens : List Text),
    RunsRemoved tokens conditions
      (conditions.foldl (fun remaining condition => removeRun remaining condition.tokens) tokens)
  | [], _ => rfl
  | c :: conditions, tokens =>
      ⟨removeRun tokens c.tokens, removeRun_spec tokens c.tokens,
        runsRemoved_foldl conditions (removeRun tokens c.tokens)⟩

/-- A removal adds no token. -/
theorem RunsRemoved.subset : ∀ {conditions : List DaemonArgvCondition} {tokens result : List Text},
    RunsRemoved tokens conditions result → result ⊆ tokens
  | [], _, _, h => by
      rw [RunsRemoved] at h
      rw [h]
      exact fun _ => id
  | c :: conditions, tokens, result, h => by
      obtain ⟨rest, hfirst, hrest⟩ := h
      refine List.Subset.trans hrest.subset ?_
      rcases hfirst with ⟨front, back, rfl, rfl, _⟩ | ⟨_, rfl⟩
      · exact List.append_subset.mpr ⟨fun t ht => by simp [ht], fun t ht => by simp [ht]⟩
      · exact fun _ => id

/-! ### Guards -/

/-- What a word that expands a variable begins with. -/
def expansion (v : StartScriptVariable) : Text :=
  text "\"$" ++ v.name ++ text "\""

/-- The lines that give a variable its value, or stop the script when it has none. -/
def guardLines : StartScriptVariable → List Text
  | .NODE_DIR => []
  | .CLUSTER_DIR => []
  | .WIRE_PREFIX_PATH => prefixResolution
  | .WIRE_ETH_PATH => [rootAssertion .WIRE_ETH_PATH]
  | .WIRE_SOLANA_PATH => [rootAssertion .WIRE_SOLANA_PATH]

theorem expansion_injective {u v : StartScriptVariable} (h : expansion u <+: expansion v) :
    u = v := by
  revert h
  cases u <;> cases v <;> decide

/-- A token expands no variable but that of the root it lies under. -/
theorem matches_of_expands {token : Text} {v : StartScriptVariable}
    (h : expansion v <+: toRelocatableToken token relocations) :
    ∃ r ∈ relocations, r.shellVar = v ∧ matchesPrefix token r.pathPrefix = true := by
  unfold toRelocatableToken at h
  cases hfind : relocations.find? fun r => matchesPrefix token r.pathPrefix with
  | none =>
      simp only [hfind, shellQuote_eq, expansion] at h
      have hopen : text "\"$" = doubleQuote :: [dollar] := by decide
      have hheads := (List.cons_prefix_cons.mp (by simpa only [hopen, List.cons_append] using h)).1
      cases hheads
  | some r =>
      have hword : expansion v <+: expansion r.shellVar ++
          if token.drop r.pathPrefix.length = [] then []
          else shellQuote (token.drop r.pathPrefix.length) := by
        simp only [hfind] at h
        split_ifs with hrest
        · simpa only [if_pos hrest, List.append_nil, expansion] using h
        · simpa only [if_neg hrest, expansion] using h
      refine ⟨r, List.mem_of_find?_eq_some hfind, ?_, by simpa using List.find?_some hfind⟩
      rcases List.prefix_or_prefix_of_prefix hword (List.prefix_append _ _) with hv | hv
      · exact (expansion_injective hv).symm
      · exact expansion_injective hv

theorem matches_of_execTarget {daemon : DaemonConfig} {v : StartScriptVariable}
    (h : expansion v <+: execTarget daemon relocations) :
    ∃ r ∈ relocations, r.shellVar = v ∧ matchesPrefix daemon.exe r.pathPrefix = true := by
  unfold execTarget at h
  cases hcommand : daemon.exeCommandName with
  | none => exact matches_of_expands (by simpa only [hcommand] using h)
  | some command =>
      cases hvar : daemon.exeEnvironmentVariable with
      | none => exact matches_of_expands (by simpa only [hcommand, hvar] using h)
      | some shellVar =>
          have hopen : text "\"$\x7b" = text "\"$" ++ [openBrace] := by decide
          simp only [hcommand, hvar] at h
          have hbrace : isWord openBrace = false := by decide
          obtain ⟨hne, hword, _⟩ := isName_name v
          rw [expansion, hopen, List.append_assoc, List.append_assoc, List.append_assoc,
            List.prefix_append_right_inj] at h
          cases hname : v.name with
          | nil => exact absurd hname hne
          | cons c name =>
              rw [hname, List.all_cons, Bool.and_eq_true] at hword
              rw [hname, List.cons_append, List.cons_append, List.cons_prefix_cons] at h
              rw [h.1, hbrace] at hword
              cases hword.1

theorem referencesRoot_of_matches {daemon : DaemonConfig} {r : StartScriptRelocation}
    {token : Text} (hr : r ∈ relocations) (h : matchesPrefix token r.pathPrefix = true)
    (htoken : token ∈ daemon.exe :: daemon.argv ++ daemon.conditions.flatMap fun c => c.tokens) :
    referencesRoot daemon relocations r.shellVar = true := by
  rw [referencesRoot, List.any_eq_true]
  exact ⟨r, List.mem_filter.mpr ⟨hr, decide_eq_true rfl⟩,
    List.any_eq_true.mpr ⟨token, htoken, h⟩⟩

theorem rootAssertion_infix_preamble {daemon : DaemonConfig} {v : StartScriptVariable}
    (hv : v ∈ HostSuppliedRoots) (h : referencesRoot daemon relocations v = true) :
    [rootAssertion v] <:+: preamble daemon relocations := by
  have hmem : rootAssertion v ∈ requiredRootAssertions daemon relocations :=
    List.mem_map.mpr ⟨v, List.mem_filter.mpr ⟨hv, h⟩, rfl⟩
  rw [List.singleton_infix_iff]
  exact List.mem_append_right _ hmem

/-- A root that is referenced has its guard in the preamble. -/
theorem guardLines_infix_preamble {daemon : DaemonConfig} :
    ∀ {v : StartScriptVariable}, referencesRoot daemon relocations v = true →
      guardLines v <:+: preamble daemon relocations
  | .NODE_DIR, _ => List.nil_infix
  | .CLUSTER_DIR, _ => List.nil_infix
  | .WIRE_PREFIX_PATH, h => by
      rw [preamble, if_pos h]
      exact List.infix_append _ _ _
  | .WIRE_ETH_PATH, h => rootAssertion_infix_preamble (by decide) h
  | .WIRE_SOLANA_PATH, h => rootAssertion_infix_preamble (by decide) h

/-- Every word that expands a variable has the variable's guard in the preamble. -/
theorem guardLines_of_expands {daemon : DaemonConfig} {v : StartScriptVariable} {word : Text}
    (hword : word ∈ execTarget daemon relocations ::
      toRelocatableArgv (daemon.argv ++ daemon.conditions.flatMap fun c => c.tokens) relocations)
    (h : expansion v <+: word) : guardLines v <:+: preamble daemon relocations := by
  have hfound : ∃ r ∈ relocations, r.shellVar = v ∧ ∃ token ∈ daemon.exe :: daemon.argv ++
      daemon.conditions.flatMap fun c => c.tokens, matchesPrefix token r.pathPrefix = true := by
    rcases List.mem_cons.mp hword with rfl | hword
    · obtain ⟨r, hr, hv, hmatch⟩ := matches_of_execTarget h
      exact ⟨r, hr, hv, daemon.exe, by simp, hmatch⟩
    · obtain ⟨token, htoken, rfl⟩ := List.mem_map.mp hword
      obtain ⟨r, hr, hv, hmatch⟩ := matches_of_expands h
      exact ⟨r, (mem_orderRelocations.mp hr).1, hv, token, List.mem_cons_of_mem _ htoken, hmatch⟩
  obtain ⟨r, hr, rfl, token, htoken, hmatch⟩ := hfound
  exact guardLines_infix_preamble (referencesRoot_of_matches hr hmatch htoken)

/-! ### The script -/

theorem render_eq (daemon : DaemonConfig) (clusterRelocations : List StartScriptRelocation) :
    render daemon clusterRelocations =
      join (text "\n") (headLines daemon (relocationsOf daemon clusterRelocations)) ++
        (text "\n" ++
          join (text "\n") (bodyLines daemon (relocationsOf daemon clusterRelocations))) :=
  join_append_cons _ _ _ _ _

/-- Fidelity of a start script: with every variable bound to its own root, the conditional block
and the `exec` line pass the argv without the governed runs and then the runs whose tests hold;
and every word that expands a variable has the variable's guard in the preamble. -/
theorem startScript_faithful (daemon : DaemonConfig)
    (clusterRelocations : List StartScriptRelocation) (env : Env) (target : List Text)
    (holds : ℕ → Bool) (hexe : 0 ∉ daemon.exe) (hargv : ∀ t ∈ daemon.argv, 0 ∉ t)
    (hconditions : ∀ c ∈ daemon.conditions, ∀ t ∈ c.tokens, 0 ∉ t)
    (hb : Bound env (daemon.relocations ++ clusterRelocations))
    (htarget : execWords env daemon = some target) :
    ∃ head body rest, render daemon clusterRelocations = head ++ (text "\n" ++ body) ∧
      head = join (text "\n") (headLines daemon (relocationsOf daemon clusterRelocations)) ∧
      RunsRemoved daemon.argv daemon.conditions rest ∧
      evalBody env (tested holds daemon.conditions) body =
        some (target ++ rest ++ heldTokens holds daemon.conditions) ∧
      ∀ v, ∀ word ∈ execTarget daemon (relocationsOf daemon clusterRelocations) ::
          toRelocatableArgv (daemon.argv ++ daemon.conditions.flatMap fun c => c.tokens)
            (relocationsOf daemon clusterRelocations),
        expansion v <+: word →
          guardLines v <:+: preamble daemon (relocationsOf daemon clusterRelocations) := by
  have hruns := runsRemoved_foldl daemon.conditions daemon.argv
  refine ⟨_, _, unconditionalArgv daemon, render_eq daemon clusterRelocations, rfl, hruns, ?_,
    fun v word => guardLines_of_expands⟩
  exact evalBody_body holds hb.order hexe (fun t ht => hargv t (hruns.subset ht)) hconditions
    htarget

theorem startScript_faithful_ledger :
    let daemon : DaemonConfig :=
      ⟨text "/opt/wire/bin/nodeop", none, none,
        [text "--data-dir", text "/c/data/n1", text "it's $HOME\n", text "/c/data/n1-old",
          text "--load-state", text "/eth/out"],
        none,
        [⟨text "[ -f x ]", [text "--load-state", text "/eth/out"]⟩, ⟨text "false", [text "-q"]⟩],
        [⟨text "/c/data/n1", .NODE_DIR⟩]⟩
    let cluster : List StartScriptRelocation :=
      [⟨text "/c", .CLUSTER_DIR⟩, ⟨text "/opt/wire", .WIRE_PREFIX_PATH⟩,
        ⟨text "/eth", .WIRE_ETH_PATH⟩, ⟨[], .WIRE_SOLANA_PATH⟩]
    let env : Env :=
      ⟨fun n => ((daemon.relocations ++ cluster).find? fun r => r.shellVar.name = n).map
        StartScriptRelocation.pathPrefix, fun _ => none⟩
    ∃ head body rest, render daemon cluster = head ++ (text "\n" ++ body) ∧
      head = join (text "\n") (headLines daemon (relocationsOf daemon cluster)) ∧
      RunsRemoved daemon.argv daemon.conditions rest ∧
      evalBody env (tested (fun k => k == 0) daemon.conditions) body =
        some ([daemon.exe] ++ rest ++ heldTokens (fun k => k == 0) daemon.conditions) ∧
      ∀ v, ∀ word ∈ execTarget daemon (relocationsOf daemon cluster) ::
          toRelocatableArgv (daemon.argv ++ daemon.conditions.flatMap fun c => c.tokens)
            (relocationsOf daemon cluster),
        expansion v <+: word → guardLines v <:+: preamble daemon (relocationsOf daemon cluster) :=
  startScript_faithful _ _ _ _ _ (by decide) (by decide) (by decide)
    (by unfold Bound; decide) rfl

end WireTools.StartScript

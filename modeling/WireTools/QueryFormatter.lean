import WireTools.WireQueryParser

/-! # The query formatter

The formatter writes the tokens of a parsed query again: a clause starts a line, a connective
outside parentheses starts an indented line, and elsewhere a blank stands between two tokens
unless one of them takes none.  Words are written in the chosen case.

* `writeFrom` is the formatted text by recursion on the tokens (`format_eq_writeFrom`);
* the written text lexes as the same tokens in the chosen case (`lex_writeFrom`), since in a
  parsed query every pair that is written without a blank ends where it should (`glued_ends`);
* the parser sees the same types, so it builds the same tree, with the same clause starts
  (`parse_rewritten`, `clauseStarts_map`). -/

namespace WireTools

open WireQueryLexer
open WireQueryParser (Symbol Tree symbolType parseSymbols)

/-- A lower case letter in upper case. -/
def toUpper (c : CodeUnit) : CodeUnit := if isLower c then c - 32 else c

inductive KeywordCase where
  | upper
  | lower
  | preserve
  deriving DecidableEq

structure QueryFormatConfig where
  keywordCase : KeywordCase
  indent : ℕ

namespace WireQueryTokens

def ClauseKeywords : List TokenType :=
  [.SELECT, .FROM, .OWNER, .WHERE, .GROUP, .HAVING, .ORDER, .LIMIT]

def Keywords : List TokenType :=
  ClauseKeywords ++ [TokenType.BY, .AS, .ASC, .DESC, .NOT, .AND, .OR, .IS]

def Aggregates : List TokenType :=
  [.COUNT_AGGREGATE, .SUM_AGGREGATE, .AVG_AGGREGATE, .MIN_AGGREGATE, .MAX_AGGREGATE]

def Literals : List TokenType := [.NULL_LITERAL, .TRUE_LITERAL, .FALSE_LITERAL]

/-- The types whose text is a word with keyword meaning. -/
def WordTokens : List TokenType := Keywords ++ Aggregates ++ Literals

end WireQueryTokens

namespace QueryFormatter

open WireQueryTokens

def NoSpaceBefore : List TokenType := [.COMMA, .RPAREN, .DOT, .SEMICOLON]

def NoSpaceAfter : List TokenType := [.LPAREN, .DOT, .PLUS, .MINUS]

def Connectives : List TokenType := [.AND, .OR]

/-- The indexes of the tokens that start a clause: the clause keywords right under the query. -/
def clauseStarts (tree : Tree) : List ℕ :=
  (WireQueryParser.childrenOf tree).filterMap fun child =>
    match child with
    | .terminal s => if ClauseKeywords.contains s.1.type then some s.2 else none
    | .node _ _ => none

/-- The running state of a formatting pass. -/
structure FormatState where
  text : Text
  depth : ℤ
  previous : Option Symbol

def needsSpace (previous token : TokenType) : Bool :=
  !(NoSpaceBefore.contains token || NoSpaceAfter.contains previous ||
    (token == .LPAREN && Aggregates.contains previous))

/-- The text of a token in the configured case; `OWNER` that starts no clause is an identifier. -/
def tokenText (s : Symbol) (keywordCase : KeywordCase) (starts : List ℕ) : Text :=
  let ownerIdentifier := s.1.type == .OWNER && !starts.contains s.2
  if WordTokens.contains s.1.type && !ownerIdentifier then
    match keywordCase with
    | .upper => s.1.text.map toUpper
    | .lower => s.1.text.map toLower
    | .preserve => s.1.text
  else s.1.text

def separator (state : FormatState) (s : Symbol) (starts : List ℕ) (config : QueryFormatConfig) :
    Text :=
  match state.previous with
  | none => []
  | some previous =>
      if starts.contains s.2 then [newline]
      else if Connectives.contains s.1.type && state.depth == 0 then
        newline :: List.replicate config.indent blank
      else if needsSpace previous.1.type s.1.type then [blank]
      else []

def appendToken (starts : List ℕ) (config : QueryFormatConfig) (state : FormatState)
    (s : Symbol) : FormatState where
  text := state.text ++ separator state s starts config ++ tokenText s config.keywordCase starts
  depth := state.depth + (if s.1.type = .LPAREN then 1 else 0) -
    if s.1.type = .RPAREN then 1 else 0
  previous := some s

/-- The text of the tokens. -/
def write (starts : List ℕ) (config : QueryFormatConfig) (symbols : List Symbol) : Text :=
  (symbols.foldl (appendToken starts config) ⟨[], 0, none⟩).text

/-- The refusal of a text that does not parse. -/
def notParsed : Text := text "cannot format: the query does not parse"

def format (t : Text) (config : QueryFormatConfig) : Except Text Text :=
  let parsed := parse t
  match parsed.tree with
  | some tree =>
      if parsed.hasDiagnostics then .error notParsed
      else .ok (write (clauseStarts tree) config parsed.tokens.zipIdx)
  | none => .error notParsed

example : format (text "select a, count( * ) as n from b where x = -1 and not (owner > 2)")
    ⟨.upper, 2⟩ = .ok (text "SELECT a, COUNT(*) AS n\nFROM b\nWHERE x = -1\n  AND NOT (owner > 2)")
    := by
  decide

/-! ### Letter case -/

theorem isUpper_iff {c : CodeUnit} : isUpper c = true ↔ 65 ≤ c.toNat ∧ c.toNat ≤ 90 := by
  simp [isUpper, UInt16.le_iff_toNat_le]

theorem isLower_iff {c : CodeUnit} : isLower c = true ↔ 97 ≤ c.toNat ∧ c.toNat ≤ 122 := by
  simp [isLower, UInt16.le_iff_toNat_le]

theorem toNat_toLower {c : CodeUnit} (h : isUpper c = true) : (toLower c).toNat = c.toNat + 32 := by
  have hrange := isUpper_iff.mp h
  rw [toLower, if_pos h, UInt16.toNat_add]
  change (c.toNat + 32) % 65536 = _
  omega

theorem toNat_toUpper {c : CodeUnit} (h : isLower c = true) : (toUpper c).toNat = c.toNat - 32 := by
  have hrange := isLower_iff.mp h
  have hle : (32 : CodeUnit) ≤ c := by
    rw [UInt16.le_iff_toNat_le]
    change 32 ≤ c.toNat
    omega
  rw [toUpper, if_pos h, UInt16.toNat_sub_of_le _ _ hle]
  rfl

theorem isUpper_toLower (c : CodeUnit) : isUpper (toLower c) = false := by
  cases h : isUpper c with
  | false => rwa [toLower, h, if_neg (by simp)]
  | true =>
      rw [← Bool.not_eq_true, isUpper_iff, toNat_toLower h]
      have := isUpper_iff.mp h
      omega

theorem isLower_toUpper (c : CodeUnit) : isLower (toUpper c) = false := by
  cases h : isLower c with
  | false => rwa [toUpper, h, if_neg (by simp)]
  | true =>
      rw [← Bool.not_eq_true, isLower_iff, toNat_toUpper h]
      have := isLower_iff.mp h
      omega

theorem toLower_toLower (c : CodeUnit) : toLower (toLower c) = toLower c := by
  rw [toLower, isUpper_toLower, if_neg (by simp)]

theorem toUpper_toUpper (c : CodeUnit) : toUpper (toUpper c) = toUpper c := by
  rw [toUpper, isLower_toUpper, if_neg (by simp)]

theorem toLower_toUpper (c : CodeUnit) : toLower (toUpper c) = toLower c := by
  cases h : isLower c with
  | false => rw [toUpper, h, if_neg (by simp)]
  | true =>
      have hrange := isLower_iff.mp h
      have hup : isUpper (toUpper c) = true := by
        rw [isUpper_iff, toNat_toUpper h]
        omega
      have hnot : ¬isUpper c = true := by
        rw [isUpper_iff]
        omega
      apply UInt16.toNat_inj.mp
      rw [toNat_toLower hup, toNat_toUpper h, toLower, if_neg hnot]
      omega

/-- The text is the same up to letter case. -/
def SameLetters (t u : Text) : Prop := t.map toLower = u.map toLower

theorem sameLetters_map {f : CodeUnit → CodeUnit} (hf : ∀ c, toLower (f c) = toLower c) (t : Text) :
    SameLetters (t.map f) t := by
  unfold SameLetters
  rw [List.map_map]
  exact List.map_congr_left fun c _ => hf c

/-- Texts that are the same up to letter case are cut off alike. -/
theorem whole_of_sameLetters {k : TokenType} {t u : Text} (h : SameLetters u t)
    (ht : Whole k t) : Whole k u := by
  have hlen : u.length = t.length := by simpa using congrArg List.length h
  have hmunch : ∀ v : Text, munch rule ruleNames (v.map toLower) = munch rule ruleNames v :=
    fun v => munch_map fun k _ s a => rule_step_toLower k s a
  refine ⟨?_, ?_⟩
  · rintro rfl
    exact ht.ne_nil (List.length_eq_zero_iff.mp hlen.symm)
  · rw [← hmunch, h, hmunch, hlen]
    exact ht.munch

section config

variable (starts : List ℕ) (config : QueryFormatConfig)

/-- The token as the formatter writes it. -/
def rewritten (s : Symbol) : Token := ⟨s.1.type, tokenText s config.keywordCase starts⟩

variable {starts config}

theorem tokenText_sameLetters (s : Symbol) :
    SameLetters (tokenText s config.keywordCase starts) s.1.text := by
  unfold tokenText
  dsimp only
  split
  · cases config.keywordCase with
    | upper => exact sameLetters_map toLower_toUpper _
    | lower => exact sameLetters_map toLower_toLower _
    | preserve => rfl
  · rfl

variable (starts config) in
theorem rewritten_whole {s : Symbol} (h : Whole s.1.type s.1.text) :
    Whole s.1.type (tokenText s config.keywordCase starts) :=
  whole_of_sameLetters (tokenText_sameLetters s) h

/-- Writing a written token changes nothing. -/
theorem tokenText_rewritten (s : Symbol) :
    tokenText (rewritten starts config s, s.2) config.keywordCase starts =
      tokenText s config.keywordCase starts := by
  unfold rewritten tokenText
  dsimp only
  split
  · cases config.keywordCase with
    | upper =>
        dsimp only
        rw [List.map_map]
        exact List.map_congr_left fun c _ => toUpper_toUpper c
    | lower =>
        dsimp only
        rw [List.map_map]
        exact List.map_congr_left fun c _ => toLower_toLower c
    | preserve => rfl
  · rfl

/-! ### The text by recursion -/

variable (starts config)

/-- The text of the tokens behind a state. -/
def writeFrom (depth : ℤ) (previous : Option Symbol) : List Symbol → Text
  | [] => []
  | s :: rest =>
      let state := appendToken starts config ⟨[], depth, previous⟩ s
      state.text ++ writeFrom state.depth state.previous rest

variable {starts config}

theorem foldl_appendToken (symbols : List Symbol) : ∀ state : FormatState,
    (symbols.foldl (appendToken starts config) state).text =
      state.text ++ writeFrom starts config state.depth state.previous symbols := by
  induction symbols with
  | nil => exact fun state => (List.append_nil _).symm
  | cons s rest ih =>
      intro state
      rw [List.foldl_cons, ih, writeFrom]
      simp only [appendToken, separator, List.nil_append, List.append_assoc]

theorem write_eq (symbols : List Symbol) :
    write starts config symbols = writeFrom starts config 0 none symbols := by
  rw [write, foldl_appendToken, List.nil_append]

/-- Writing written tokens gives the same text. -/
theorem writeFrom_rewritten (symbols : List Symbol) : ∀ (depth : ℤ) (previous : Option Symbol),
    writeFrom starts config depth (previous.map fun s => (rewritten starts config s, s.2))
        (symbols.map fun s => (rewritten starts config s, s.2)) =
      writeFrom starts config depth previous symbols := by
  induction symbols with
  | nil => exact fun _ _ => rfl
  | cons s rest ih =>
      intro depth previous
      rw [List.map_cons, writeFrom, writeFrom]
      dsimp only [appendToken]
      rw [tokenText_rewritten]
      congr 1
      · cases previous <;> rfl
      · exact ih _ (some s)

/-! ### Lexing the written text -/

variable (starts config) in
theorem separator_cases (t : Text) (depth : ℤ) (p s : Symbol) :
    let blanks := separator ⟨t, depth, some p⟩ s starts config
    (blanks ≠ [] ∧ blanks.all isBlank = true) ∨
      (blanks = [] ∧ needsSpace p.1.type s.1.type = false) := by
  have hreplicate : (List.replicate config.indent blank).all isBlank = true :=
    List.all_eq_true.mpr fun c hc => by
      rw [List.eq_of_mem_replicate hc]
      decide
  dsimp only [separator]
  split
  · exact Or.inl ⟨by simp, by decide⟩
  · split
    · refine Or.inl ⟨by simp, ?_⟩
      rw [List.all_cons, hreplicate]
      decide
    · split
      · exact Or.inl ⟨by simp, by decide⟩
      · rename_i h
        exact Or.inr ⟨rfl, by simpa using h⟩

/-- Two neighbours that are written without a blank: the first ends where the second starts. -/
theorem glued_ends {k l : TokenType} {t u rest : Text} (ht : Whole k t) (hu : Whole l u)
    (hk : k ≠ .WHITESPACE) (hfollow : WireQueryParser.mayFollow k l = true)
    (hglue : needsSpace k l = false) : Ends t (u ++ rest) := by
  -- the second token is one of the signs that take no blank in front
  have hsign : ∀ {a : CodeUnit}, (l, a) ∈ singles → a ∈ terminators →
      (a = 46 → k ∈ nameTypes) → Ends t (u ++ rest) := by
    intro a hl ha hdot c hc k'
    rw [single_text hl hu] at hc
    cases hc
    exact dead_at_terminator ht hk ha hdot k'
  have hbefore : l ∈ NoSpaceBefore ∨ l = .LPAREN → Ends t (u ++ rest) := by
    intro h
    simp only [NoSpaceBefore, List.mem_cons, List.not_mem_nil, or_false] at h
    rcases h with (rfl | rfl | rfl | rfl) | rfl
    · exact hsign (a := 44) (by decide) (by decide) (fun h => absurd h (by decide))
    · exact hsign (a := 41) (by decide) (by decide) (fun h => absurd h (by decide))
    · refine hsign (a := 46) (by decide) (by decide) fun _ => ?_
      simpa [WireQueryParser.mayFollow] using hfollow
    · exact hsign (a := 59) (by decide) (by decide) (fun h => absurd h (by decide))
    · exact hsign (a := 40) (by decide) (by decide) (fun h => absurd h (by decide))
  have hafter : k ∈ NoSpaceAfter → Ends t (u ++ rest) := by
    intro h c hc k'
    simp only [NoSpaceAfter, List.mem_cons, List.not_mem_nil, or_false] at h
    rcases h with rfl | rfl | rfl | rfl
    · exact dead_behind_single (a := 40) (by decide) ht c k'
    · exact dead_behind_single (a := 46) (by decide) ht c k'
    · exact dead_behind_single (a := 43) (by decide) ht c k'
    · exact dead_behind_single (a := 45) (by decide) ht c k'
  unfold needsSpace at hglue
  rw [Bool.not_eq_false', Bool.or_eq_true, Bool.or_eq_true] at hglue
  rcases hglue with (h | h) | h
  · exact hbefore (Or.inl (List.contains_iff_mem.mp h))
  · exact hafter (List.contains_iff_mem.mp h)
  · rw [Bool.and_eq_true] at h
    exact hbefore (Or.inr (eq_of_beq h.1))

variable (starts config) in
/-- The written text lexes as the written tokens. -/
theorem lex_writeFrom (rest : List Symbol) : ∀ (p : Symbol) (depth : ℤ),
    (∀ s ∈ p :: rest, Whole s.1.type s.1.text ∧ s.1.type ≠ .WHITESPACE) →
      ((p :: rest).map symbolType).IsChain (fun a b => WireQueryParser.mayFollow a b = true) →
        lex (tokenText p config.keywordCase starts ++ writeFrom starts config depth (some p) rest) =
          ⟨(p :: rest).map (rewritten starts config), []⟩ := by
  induction rest with
  | nil =>
      intro p depth hall _
      obtain ⟨hp, hkp⟩ := hall p (by simp)
      rw [writeFrom, lex_whole (rewritten_whole starts config hp) hkp (ends_nil _), lex_nil]
      rfl
  | cons s rest ih =>
      intro p depth hall hchain
      obtain ⟨hp, hkp⟩ := hall p (by simp)
      obtain ⟨hs, hks⟩ := hall s (by simp)
      have hp' := rewritten_whole starts config hp
      have hs' := rewritten_whole starts config hs
      rw [List.map_cons, List.map_cons, List.isChain_cons_cons] at hchain
      have hrest := ih s (appendToken starts config ⟨[], depth, some p⟩ s).depth
        (fun s' hs' => hall s' (List.mem_cons_of_mem _ hs')) hchain.2
      rw [writeFrom]
      dsimp only [appendToken] at hrest ⊢
      rw [List.nil_append, List.append_assoc]
      rcases separator_cases starts config [] depth p s with
        ⟨hne, hblank⟩ | ⟨hnil, hglue⟩
      · have hhead : ∀ c ∈ (tokenText s config.keywordCase starts ++
            writeFrom starts config (depth + (if s.1.type = .LPAREN then 1 else 0) -
              if s.1.type = .RPAREN then 1 else 0) (some s) rest).head?, isBlank c = false := by
          obtain ⟨a, u, hau⟩ := List.exists_cons_of_ne_nil hs'.ne_nil
          have := hs'.head_not_blank hks
          rw [hau] at this ⊢
          exact this
        rw [lex_separated hp' hkp hne hblank hhead, hrest]
        rfl
      · rw [hnil, List.nil_append, lex_whole hp' hkp (glued_ends hp' hs' hkp hchain.1 hglue),
          hrest]
        rfl

variable (starts config) in
theorem lex_write (symbols : List Symbol)
    (hall : ∀ s ∈ symbols, Whole s.1.type s.1.text ∧ s.1.type ≠ .WHITESPACE)
    (hchain : (symbols.map symbolType).IsChain fun a b => WireQueryParser.mayFollow a b = true) :
    lex (write starts config symbols) = ⟨symbols.map (rewritten starts config), []⟩ := by
  rw [write_eq]
  cases symbols with
  | nil => rfl
  | cons s rest =>
      exact lex_writeFrom starts config rest s (appendToken starts config ⟨[], 0, none⟩ s).depth
        hall hchain

/-! ### Parsing the written text -/

variable (starts config)

/-- The token with its index as the formatter writes it. -/
def rewrite (s : Symbol) : Symbol := (rewritten starts config s, s.2)

variable {starts config}

theorem zipIdx_map_zipIdx {f : Symbol → Token} (tokens : List Token) : ∀ n : ℕ,
    ((tokens.zipIdx n).map f).zipIdx n = (tokens.zipIdx n).map fun s => (f s, s.2) := by
  induction tokens with
  | nil => exact fun _ => rfl
  | cons t tokens ih =>
      intro n
      rw [List.zipIdx_cons, List.map_cons, List.zipIdx_cons, List.map_cons, ih]

theorem symbols_rewritten (tokens : List Token) :
    symbols (tokens.zipIdx.map (rewritten starts config)) =
      (symbols tokens).map (rewrite starts config) := by
  have heof : ∀ n, rewritten starts config (WireQueryParser.eof, n) = WireQueryParser.eof :=
    fun n => rfl
  unfold symbols
  have hmap := zipIdx_map_zipIdx (f := rewritten starts config)
    (tokens ++ [WireQueryParser.eof]) 0
  rw [List.zipIdx_append, List.map_append, List.zipIdx_singleton, List.map_singleton, heof] at hmap
  rw [hmap, List.zipIdx_append, List.zipIdx_singleton]
  rfl

/-- The parser builds the same tree from the written tokens. -/
theorem parse_rewritten (tokens : List Token) :
    parseSymbols (symbols (tokens.zipIdx.map (rewritten starts config))) =
      (parseSymbols (symbols tokens)).map (ParseTree.map (rewrite starts config)) := by
  rw [symbols_rewritten]
  exact WireQueryParser.parseSymbols_map (f := rewrite starts config) (fun _ => rfl) _

theorem mapAll_eq_map {ρ β γ : Type} (f : β → γ) (trees : List (ParseTree ρ β)) :
    ParseTree.mapAll f trees = trees.map (ParseTree.map f) := by
  induction trees with
  | nil => rfl
  | cons t trees ih => rw [ParseTree.mapAll, ih, List.map_cons]

/-- The same clauses start in the written text. -/
theorem clauseStarts_map (tree : Tree) :
    clauseStarts (tree.map (rewrite starts config)) = clauseStarts tree := by
  cases tree with
  | terminal s => rfl
  | node rule children =>
      unfold clauseStarts
      rw [ParseTree.map, WireQueryParser.childrenOf, WireQueryParser.childrenOf, mapAll_eq_map,
        List.filterMap_map]
      refine List.filterMap_congr fun child _ => ?_
      cases child <;> rfl

end config

/-! ### Losslessness -/

/-- A token and its written form: the same place, type and text, up to the letter case of a word
that is no identifier. -/
def SameUpToCase (starts : List ℕ) (s s' : Symbol) : Prop :=
  s'.2 = s.2 ∧ s'.1.type = s.1.type ∧
    (s'.1.text = s.1.text ∨
      (s.1.type ∈ WordTokens ∧ (s.1.type = .OWNER → s.2 ∈ starts) ∧
        SameLetters s'.1.text s.1.text))

/-- The rules, the types and the places of the tokens of a tree. -/
def treeShape (tree : Tree) : ParseTree WireQueryParser.Rule (TokenType × ℕ) :=
  tree.map fun s => (s.1.type, s.2)

mutual

theorem treeMap_comp {ρ β γ δ : Type} (f : β → γ) (g : γ → δ) :
    ∀ tree : ParseTree ρ β, (tree.map f).map g = tree.map fun b => g (f b)
  | .terminal b => rfl
  | .node r children => by
      rw [ParseTree.map, ParseTree.map, ParseTree.map, treeMapAll_comp f g children]

theorem treeMapAll_comp {ρ β γ δ : Type} (f : β → γ) (g : γ → δ) :
    ∀ trees : List (ParseTree ρ β), ParseTree.mapAll g (ParseTree.mapAll f trees) =
      ParseTree.mapAll (fun b => g (f b)) trees
  | [] => rfl
  | t :: trees => by
      rw [ParseTree.mapAll, ParseTree.mapAll, ParseTree.mapAll, treeMap_comp f g t,
        treeMapAll_comp f g trees]

end

theorem sameUpToCase_rewrite (starts : List ℕ) (config : QueryFormatConfig) (s : Symbol) :
    SameUpToCase starts s (rewrite starts config s) := by
  refine ⟨rfl, rfl, ?_⟩
  change tokenText s config.keywordCase starts = s.1.text ∨ _
  cases hword : WordTokens.contains s.1.type && !(s.1.type == .OWNER && !starts.contains s.2) with
  | false =>
      left
      unfold tokenText
      dsimp only
      rw [if_neg (by rw [hword]; simp)]
  | true =>
      right
      rw [Bool.and_eq_true, List.contains_iff_mem] at hword
      refine ⟨hword.1, fun howner => ?_, tokenText_sameLetters s⟩
      simpa [howner] using hword.2

theorem format_of_tree {t : Text} (config : QueryFormatConfig) {tree : Tree}
    (htree : (parse t).tree = some tree) (herrors : (parse t).lexerErrors = []) :
    format t config = .ok (write (clauseStarts tree) config (parse t).tokens.zipIdx) := by
  unfold format
  simp [htree, ParsedQuery.hasDiagnostics, herrors]

/-- Formatting a text keeps its tokens up to the letter case of words that are no identifiers,
the result parses to the same tree, and formatting it again changes nothing. -/
def Lossless (t : Text) (config : QueryFormatConfig) : Prop :=
  ∃ tree out, (parse t).tree = some tree ∧ format t config = .ok out ∧ (lex out).errors = [] ∧
    List.Forall₂ (SameUpToCase (clauseStarts tree)) (lex t).tokens.zipIdx
      (lex out).tokens.zipIdx ∧
    (parse out).hasDiagnostics = false ∧
    (∃ tree', (parse out).tree = some tree' ∧ treeShape tree' = treeShape tree) ∧
    format out config = .ok out

/-- Every text that parses is formatted without loss. -/
theorem format_lossless (t : Text) (config : QueryFormatConfig)
    (h : (parse t).hasDiagnostics = false) : Lossless t config := by
  have herrors : (parse t).lexerErrors = [] := by
    unfold ParsedQuery.hasDiagnostics at h
    simpa using (Bool.or_eq_false_iff.mp h).1
  obtain ⟨tree, htree⟩ : ∃ tree, (parse t).tree = some tree := by
    unfold ParsedQuery.hasDiagnostics at h
    exact Option.isSome_iff_exists.mp (by simpa using (Bool.or_eq_false_iff.mp h).2)
  have hparsed : parseSymbols (symbols (lex t).tokens) = some tree := htree
  have hformat := format_of_tree config htree herrors
  change format t config = .ok (write (clauseStarts tree) config (lex t).tokens.zipIdx) at hformat
  -- the tokens of the written text
  have hall : ∀ s ∈ (lex t).tokens.zipIdx, Whole s.1.type s.1.text ∧ s.1.type ≠ .WHITESPACE := by
    intro s hs
    exact whole_of_mem (List.fst_mem_of_mem_zipIdx hs)
  have hchain : ((lex t).tokens.zipIdx.map symbolType).IsChain
      fun a b => WireQueryParser.mayFollow a b = true := by
    have := WireQueryParser.dot_follows_name hparsed
    rw [symbols, List.zipIdx_append, List.map_append] at this
    exact (List.isChain_append.mp this).1
  have hlex := lex_write (clauseStarts tree) config _ hall hchain
  have hout : (parse (write (clauseStarts tree) config (lex t).tokens.zipIdx)) =
      ⟨some (tree.map (rewrite (clauseStarts tree) config)),
        (lex t).tokens.zipIdx.map (rewritten (clauseStarts tree) config), []⟩ := by
    unfold parse
    rw [hlex]
    dsimp only
    rw [parse_rewritten, hparsed]
    rfl
  have hzip : ((lex t).tokens.zipIdx.map (rewritten (clauseStarts tree) config)).zipIdx =
      (lex t).tokens.zipIdx.map (rewrite (clauseStarts tree) config) :=
    zipIdx_map_zipIdx _ 0
  refine ⟨tree, _, htree, hformat, by rw [hlex], ?_, by rw [hout]; rfl,
    ⟨_, by rw [hout], ?_⟩, ?_⟩
  · rw [hlex, hzip, List.forall₂_map_right_iff]
    exact List.forall₂_same.mpr fun s _ => sameUpToCase_rewrite _ config s
  · exact treeMap_comp _ _ tree
  · rw [format_of_tree config (by rw [hout]) (by rw [hout]), hout, clauseStarts_map]
    dsimp only
    rw [hzip, write_eq, write_eq]
    exact congrArg _ (writeFrom_rewritten _ 0 none)

/-- A query with an identifier spelled like a keyword. -/
theorem format_lossless_owner :
    (parse (text "select owner from t owner x")).hasDiagnostics = false ∧
      Lossless (text "select owner from t owner x") ⟨.upper, 2⟩ :=
  ⟨by decide, format_lossless _ _ (by decide)⟩

end QueryFormatter

end WireTools

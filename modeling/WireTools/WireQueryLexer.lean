import WireTools.MaximalMunch
import WireTools.Text

/-! # The lexer of the query grammar

The generated lexer is a longest-match scan over the rules of the grammar, in the order of
`ruleNames`.  Its serialized automaton spells a keyword as one set of two letters per position, so
a keyword is read in any case.

* `rule` is the automaton of each rule, `WireQueryTokens.lex` the token stream of a text;
* every rule reads the two cases of a letter alike (`rule_step_toLower`);
* a token ends before a blank, a comma, a parenthesis or a semicolon (`dead_at_boundary`), a name
  ends before a dot (`dead_at_dot`), and nothing goes on behind an opening parenthesis, a dot or a
  sign (`dead_behind_single`). -/

namespace WireTools

inductive TokenType where
  | EOF
  | SELECT | FROM | OWNER | WHERE | GROUP | BY | HAVING | ORDER | LIMIT | AS | ASC | DESC
  | COUNT_AGGREGATE | SUM_AGGREGATE | AVG_AGGREGATE | MIN_AGGREGATE | MAX_AGGREGATE
  | NOT | AND | OR | IS | NULL_LITERAL | TRUE_LITERAL | FALSE_LITERAL
  | LPAREN | RPAREN | DOT | COMMA | SEMICOLON | STAR
  | EQ | NE | LE | LT | GE | GT | PLUS | MINUS
  | DECIMAL | INTEGER | STRING | QUOTED_IDENTIFIER | IDENTIFIER | WHITESPACE
  deriving DecidableEq

/-- A token; its index is its place among the tokens of the text. -/
structure Token where
  type : TokenType
  text : Text
  deriving DecidableEq

namespace WireQueryLexer

/-- The rules in the order of the grammar. -/
def ruleNames : List TokenType :=
  [.SELECT, .FROM, .OWNER, .WHERE, .GROUP, .BY, .HAVING, .ORDER, .LIMIT, .AS, .ASC, .DESC,
    .COUNT_AGGREGATE, .SUM_AGGREGATE, .AVG_AGGREGATE, .MIN_AGGREGATE, .MAX_AGGREGATE, .NOT, .AND,
    .OR, .IS, .NULL_LITERAL, .TRUE_LITERAL, .FALSE_LITERAL, .LPAREN, .RPAREN, .DOT, .COMMA,
    .SEMICOLON, .STAR, .EQ, .NE, .LE, .LT, .GE, .GT, .PLUS, .MINUS, .DECIMAL, .INTEGER, .STRING,
    .QUOTED_IDENTIFIER, .IDENTIFIER, .WHITESPACE]

/-- A keyword: one set of two letters per position. -/
@[reducible] def word (s : String) : Recognizer CodeUnit :=
  .fixed ((text s).map caseless)

@[reducible] def sign (s : String) : Recognizer CodeUnit :=
  .fixed ((text s).map exactly)

/-- Where the rule for `!=` and `<>` stands. -/
inductive NeState where
  | start
  | bang
  | less
  | done

@[reducible] def ne : Recognizer CodeUnit where
  State := NeState
  start := .start
  step
    | .start, c => if c = 33 then some .bang else if c = 60 then some .less else none
    | .bang, c => if c = 61 then some .done else none
    | .less, c => if c = 62 then some .done else none
    | .done, _ => none
  accepts
    | .done => true
    | _ => false

/-- Where the rule for `[0-9]+ '.' [0-9]+` stands. -/
inductive DecimalState where
  | start
  | whole
  | point
  | fraction

@[reducible] def decimal : Recognizer CodeUnit where
  State := DecimalState
  start := .start
  step
    | .start, c => if isDigit c then some .whole else none
    | .whole, c => if isDigit c then some .whole else if c = 46 then some .point else none
    | .point, c | .fraction, c => if isDigit c then some .fraction else none
  accepts
    | .fraction => true
    | _ => false

/-- `[A-Za-z_]` -/
def isIdentifierStart : UnitClass := fun c => isUpper c || isLower c || c == 95

/-- `[ \t\r\n]` -/
def isBlank : UnitClass := fun c => [9, 10, 13, 32].contains c

/-- The automaton of a rule. -/
def rule : TokenType → Recognizer CodeUnit
  | .EOF => .fixed [fun _ => false]
  | .SELECT => word "SELECT"
  | .FROM => word "FROM"
  | .OWNER => word "OWNER"
  | .WHERE => word "WHERE"
  | .GROUP => word "GROUP"
  | .BY => word "BY"
  | .HAVING => word "HAVING"
  | .ORDER => word "ORDER"
  | .LIMIT => word "LIMIT"
  | .AS => word "AS"
  | .ASC => word "ASC"
  | .DESC => word "DESC"
  | .COUNT_AGGREGATE => word "COUNT"
  | .SUM_AGGREGATE => word "SUM"
  | .AVG_AGGREGATE => word "AVG"
  | .MIN_AGGREGATE => word "MIN"
  | .MAX_AGGREGATE => word "MAX"
  | .NOT => word "NOT"
  | .AND => word "AND"
  | .OR => word "OR"
  | .IS => word "IS"
  | .NULL_LITERAL => word "NULL"
  | .TRUE_LITERAL => word "TRUE"
  | .FALSE_LITERAL => word "FALSE"
  | .LPAREN => sign "("
  | .RPAREN => sign ")"
  | .DOT => sign "."
  | .COMMA => sign ","
  | .SEMICOLON => sign ";"
  | .STAR => sign "*"
  | .EQ => sign "="
  | .NE => ne
  | .LE => sign "<="
  | .LT => sign "<"
  | .GE => sign ">="
  | .GT => sign ">"
  | .PLUS => sign "+"
  | .MINUS => sign "-"
  | .DECIMAL => decimal
  | .INTEGER => .oneThenMany isDigit isDigit
  | .STRING => .quoted (· == 39)
  | .QUOTED_IDENTIFIER => .quoted (· == 34)
  | .IDENTIFIER => .oneThenMany isIdentifierStart isWord
  | .WHITESPACE => .oneThenMany isBlank isBlank

/-- The units of the first character, which an error drops whole. -/
def characterWidth : Text → ℕ
  | [] => 0
  | [_] => 1
  | high :: low :: _ =>
      if (0xD800 ≤ high && high ≤ 0xDBFF) && (0xDC00 ≤ low && low ≤ 0xDFFF) then 2 else 1

def scanner : Scanner TokenType CodeUnit := ⟨rule, ruleNames, characterWidth⟩

end WireQueryLexer

/-- The tokens of a text and what the lexer could not read. -/
structure LexedQuery where
  tokens : List Token
  /-- The text of each error. -/
  errors : List Text
  deriving DecidableEq

namespace WireQueryTokens

/-- A piece as a token; white space is skipped. -/
def tokenOf : Piece TokenType CodeUnit → Option Token
  | .token .WHITESPACE _ => none
  | .token k t => some ⟨k, t⟩
  | .stray _ => none

def errorOf : Piece TokenType CodeUnit → Option Text
  | .token _ _ => none
  | .stray t => some t

def lex (t : Text) : LexedQuery :=
  let pieces := WireQueryLexer.scanner.scan t
  ⟨pieces.filterMap tokenOf, pieces.filterMap errorOf⟩

example : lex (text "Select \"a.b\" <> 1.5") =
    ⟨[⟨.SELECT, text "Select"⟩, ⟨.QUOTED_IDENTIFIER, text "\"a.b\""⟩, ⟨.NE, text "<>"⟩,
      ⟨.DECIMAL, text "1.5"⟩], []⟩ := by
  decide

end WireQueryTokens

namespace WireQueryLexer

/-! ### Letter case -/

/-- The class holds both cases of a letter or neither. -/
def foldsCase (k : UnitClass) : Bool :=
  (List.range 26).all fun i => k (UInt16.ofNat (97 + i)) == k (UInt16.ofNat (65 + i))

theorem apply_toLower {k : UnitClass} (hk : foldsCase k = true) (c : CodeUnit) :
    k (toLower c) = k c := by
  unfold toLower
  split
  · rename_i hc
    have hrange : 65 ≤ c.toNat ∧ c.toNat ≤ 90 := by
      simpa [isUpper, UInt16.le_iff_toNat_le] using hc
    have hfold := List.all_eq_true.mp hk (c.toNat - 65) (List.mem_range.mpr (by omega))
    have hlow : UInt16.ofNat (97 + (c.toNat - 65)) = c + 32 := by
      apply UInt16.toNat_inj.mp
      rw [UInt16.toNat_ofNat', UInt16.toNat_add]
      change (97 + (c.toNat - 65)) % 65536 = (c.toNat + 32) % 65536
      omega
    have hup : UInt16.ofNat (65 + (c.toNat - 65)) = c := by
      apply UInt16.toNat_inj.mp
      rw [UInt16.toNat_ofNat']
      change (65 + (c.toNat - 65)) % 65536 = c.toNat
      omega
    rw [hlow, hup] at hfold
    exact eq_of_beq hfold
  · rfl

theorem fixed_step_toLower {classes : List UnitClass} (h : classes.all foldsCase = true) (i : ℕ)
    (c : CodeUnit) :
    (Recognizer.fixed classes).step i (toLower c) = (Recognizer.fixed classes).step i c :=
  Recognizer.fixed_step_map (fun k hk => apply_toLower (List.all_eq_true.mp h k hk)) i c

/-- Every rule reads the two cases of a letter alike. -/
theorem rule_step_toLower (k : TokenType) (s : (rule k).State) (c : CodeUnit) :
    (rule k).step s (toLower c) = (rule k).step s c := by
  have heq : ∀ d : CodeUnit, foldsCase (· == d) = true → ((toLower c = d) = (c = d)) := by
    intro d hd
    have := apply_toLower hd c
    simpa using this
  cases k with
  | NE =>
      cases s with
      | start => simp only [rule, heq 33 (by decide), heq 60 (by decide)]
      | bang => simp only [rule, heq 61 (by decide)]
      | less => simp only [rule, heq 62 (by decide)]
      | done => rfl
  | DECIMAL =>
      have hdigit := apply_toLower (k := isDigit) (by decide) c
      cases s <;> simp only [rule, hdigit, heq 46 (by decide)]
  | INTEGER => cases s <;> simp only [rule, apply_toLower (k := isDigit) (by decide) c]
  | IDENTIFIER =>
      cases s <;> simp only [rule, apply_toLower (k := isIdentifierStart) (by decide) c,
        apply_toLower (k := isWord) (by decide) c]
  | WHITESPACE => cases s <;> simp only [rule, apply_toLower (k := isBlank) (by decide) c]
  | STRING => cases s <;> simp only [rule, apply_toLower (k := (· == 39)) (by decide) c]
  | QUOTED_IDENTIFIER => cases s <;> simp only [rule, apply_toLower (k := (· == 34)) (by decide) c]
  | _ => exact fixed_step_toLower (by decide) s c

/-! ### Where a token ends -/

/-- The rule reads the unit at its start. -/
def readsFirst (k : TokenType) (c : CodeUnit) : Bool :=
  ((rule k).step (rule k).start c).isSome

theorem step_none_of_not_reads {k : TokenType} {c : CodeUnit} (h : readsFirst k c = false) :
    (rule k).step (rule k).start c = none :=
  Option.isNone_iff_eq_none.mp (Option.isSome_eq_false_iff.mp h)

theorem eq_of_reads_quote {k : TokenType} : readsFirst k 39 = true → k = .STRING := by
  cases k <;> decide

theorem eq_of_reads_doubleQuote {k : TokenType} :
    readsFirst k 34 = true → k = .QUOTED_IDENTIFIER := by
  cases k <;> decide

theorem eq_of_reads_blank {k : TokenType} {c : CodeUnit} (hc : isBlank c = true) :
    readsFirst k c = true → k = .WHITESPACE := by
  have hmem : c ∈ [9, 10, 13, 32] := by simpa [isBlank] using hc
  have hall : ∀ c ∈ ([9, 10, 13, 32] : Text), readsFirst k c = true → k = .WHITESPACE := by
    cases k <;> decide
  exact hall c hmem

/-- A token that stands alone. -/
structure Whole (k : TokenType) (t : Text) : Prop where
  ne_nil : t ≠ []
  munch : munch rule ruleNames t = some (k, t.length)

theorem Whole.accepts {k : TokenType} {t : Text} (h : Whole k t) : (rule k).Accepts t :=
  Recognizer.accepts_of_longest (munch_longest h.munch).2

/-- The units that end a token: blanks, parentheses, the comma, the dot and the semicolon. -/
def terminators : Text := [9, 10, 13, 32, 40, 41, 44, 46, 59]

theorem fixed_dead_at {classes : List UnitClass} {t : Text} {c : CodeUnit} (ht : t ≠ [])
    (hall : (classes.tail.all fun k => terminators.all fun d => !k d) = true)
    (hc : c ∈ terminators) :
    (Recognizer.fixed classes).run (Recognizer.fixed classes).start (t ++ [c]) = none := by
  refine Recognizer.fixed_dead ht fun k hk => ?_
  simpa using List.all_eq_true.mp (List.all_eq_true.mp hall k hk) c hc

theorem ne_dead {t : Text} {c : CodeUnit} (ht : t ≠ []) (hc : c ∈ terminators) :
    ne.run ne.start (t ++ [c]) = none := by
  have hgt : ∀ d ∈ terminators, d ≠ 61 ∧ d ≠ 62 := by decide
  refine Recognizer.dead_of_moved (P := fun s => s ≠ NeState.start) ?_ ?_ ht
  · rintro s a s' hs rfl
    cases s with
    | start =>
        dsimp only at hs
        split at hs
        · cases hs
        · split at hs <;> cases hs
    | bang =>
        dsimp only at hs
        split at hs <;> cases hs
    | less =>
        dsimp only at hs
        split at hs <;> cases hs
    | done => cases hs
  · intro s hs
    cases s with
    | start => exact absurd rfl hs
    | bang => exact if_neg (hgt c hc).1
    | less => exact if_neg (hgt c hc).2
    | done => rfl

/-- A number ends at every terminator but the dot, and a text that starts with no digit is none. -/
theorem decimal_dead {t : Text} {c : CodeUnit} (ht : t ≠ []) (hc : c ∈ terminators)
    (h : c = 46 → ∀ d ∈ t.head?, isDigit d = false) :
    decimal.run decimal.start (t ++ [c]) = none := by
  have hdigit : ∀ d ∈ terminators, isDigit d = false := by decide
  by_cases hdot : c = 46
  · cases t with
    | nil => exact absurd rfl ht
    | cons d t =>
        refine Recognizer.run_of_step_none (if_neg ?_)
        simp [h hdot d rfl]
  · refine Recognizer.dead_of_moved (P := fun s => s ≠ DecimalState.start) ?_ ?_ ht
    · rintro s a s' hs rfl
      cases s with
      | whole =>
          dsimp only at hs
          split at hs
          · cases hs
          · split at hs <;> cases hs
      | _ =>
          dsimp only at hs
          split at hs <;> cases hs
    · intro s hs
      have hd := hdigit c hc
      cases s with
      | start => exact absurd rfl hs
      | whole => simp [hd, hdot]
      | point => simp [hd]
      | fraction => simp [hd]

/-- The types of a name. -/
def nameTypes : List TokenType := [.OWNER, .QUOTED_IDENTIFIER, .IDENTIFIER]

theorem digit_not_first {k : TokenType} (hk : k ∈ nameTypes) {d : CodeUnit}
    (h : readsFirst k d = true) : isDigit d = false := by
  have hall : ∀ i < 10, ∀ k ∈ nameTypes, readsFirst k (UInt16.ofNat (48 + i)) = false := by
    decide
  cases hd : isDigit d with
  | false => rfl
  | true =>
      have hrange : 48 ≤ d.toNat ∧ d.toNat ≤ 57 := by
        simpa [isDigit, UInt16.le_iff_toNat_le] using hd
      have hval : UInt16.ofNat (48 + (d.toNat - 48)) = d := by
        apply UInt16.toNat_inj.mp
        rw [UInt16.toNat_ofNat']
        change (48 + (d.toNat - 48)) % 65536 = d.toNat
        omega
      have := hall (d.toNat - 48) (by omega) k hk
      rw [hval, h] at this
      cases this

/-- Every rule dies on a terminator behind a whole token; the dot ends names only. -/
theorem dead_at_terminator {k : TokenType} {t : Text} {c : CodeUnit} (h : Whole k t)
    (hk : k ≠ .WHITESPACE) (hc : c ∈ terminators) (hdot : c = 46 → k ∈ nameTypes)
    (k' : TokenType) : (rule k').run (rule k').start (t ++ [c]) = none := by
  obtain ⟨a, u, rfl⟩ := List.exists_cons_of_ne_nil h.ne_nil
  have hfirst : readsFirst k a = true := h.accepts.reads_first
  have hquotes : ∀ d ∈ terminators, (d == 39) = false ∧ (d == 34) = false := by decide
  have hwords : ∀ d ∈ terminators, isDigit d = false ∧ isWord d = false := by decide
  cases k' with
  | NE => exact ne_dead h.ne_nil hc
  | DECIMAL =>
      refine decimal_dead h.ne_nil hc fun hd d hmem => ?_
      cases hmem
      exact digit_not_first (hdot hd) hfirst
  | INTEGER => exact Recognizer.oneThenMany_dead h.ne_nil (hwords c hc).1
  | IDENTIFIER => exact Recognizer.oneThenMany_dead h.ne_nil (hwords c hc).2
  | WHITESPACE =>
      have hb : isBlank a = false := by
        cases hb : isBlank a with
        | false => rfl
        | true => exact absurd (eq_of_reads_blank hb hfirst) hk
      refine Recognizer.run_of_step_none (if_neg ?_)
      change ¬isBlank a = true
      simp [hb]
  | STRING =>
      refine Recognizer.quoted_dead (hquotes c hc).1 ?_
      by_cases ha : a = 39
      · subst ha
        obtain rfl := eq_of_reads_quote hfirst
        exact Or.inr h.accepts
      · exact Or.inl (Recognizer.run_of_step_none (if_neg (by simp [ha])))
  | QUOTED_IDENTIFIER =>
      refine Recognizer.quoted_dead (hquotes c hc).2 ?_
      by_cases ha : a = 34
      · subst ha
        obtain rfl := eq_of_reads_doubleQuote hfirst
        exact Or.inr h.accepts
      · exact Or.inl (Recognizer.run_of_step_none (if_neg (by simp [ha])))
  | _ => exact fixed_dead_at h.ne_nil (by decide) hc

/-- The signs of one unit that start no longer sign. -/
def singles : List (TokenType × CodeUnit) :=
  [(.LPAREN, 40), (.RPAREN, 41), (.DOT, 46), (.COMMA, 44), (.SEMICOLON, 59), (.PLUS, 43),
    (.MINUS, 45)]

theorem rule_single {k : TokenType} {a : CodeUnit} (h : (k, a) ∈ singles) :
    rule k = .fixed [exactly a] := by
  simp only [singles, List.mem_cons, Prod.mk.injEq, List.not_mem_nil, or_false] at h
  obtain ⟨rfl, rfl⟩ | ⟨rfl, rfl⟩ | ⟨rfl, rfl⟩ | ⟨rfl, rfl⟩ | ⟨rfl, rfl⟩ | ⟨rfl, rfl⟩ |
    ⟨rfl, rfl⟩ := h <;> rfl

theorem single_text {k : TokenType} {a : CodeUnit} (h : (k, a) ∈ singles) {t : Text}
    (ht : Whole k t) : t = [a] := by
  have hacc := ht.accepts
  rw [rule_single h] at hacc
  obtain ⟨b, rfl, hb⟩ := Recognizer.fixed_accepts_single hacc
  have hba : b = a := by simpa [exactly] using hb
  rw [hba]

/-- Nothing goes on behind such a sign. -/
theorem dead_behind_single {k : TokenType} {a : CodeUnit} (h : (k, a) ∈ singles) {t : Text}
    (ht : Whole k t) (c : CodeUnit) (k' : TokenType) :
    (rule k').run (rule k').start (t ++ [c]) = none := by
  have honly : ∀ p ∈ singles, readsFirst k' p.2 = true → k' = p.1 := by
    cases k' <;> decide
  rw [single_text h ht]
  cases hread : readsFirst k' a with
  | false => exact Recognizer.run_of_step_none (step_none_of_not_reads hread)
  | true =>
      have hk' : k' = k := honly (k, a) h hread
      rw [hk', rule_single h]
      exact Recognizer.fixed_dead (by simp) (by simp)

/-! ### Lexing a text token by token -/

/-- No rule goes on from `t` into `rest`. -/
def Ends (t rest : Text) : Prop :=
  ∀ c ∈ rest.head?, ∀ k, (rule k).run (rule k).start (t ++ [c]) = none

theorem ends_nil (t : Text) : Ends t [] := fun _ hc => by cases hc

theorem scan_whole {k : TokenType} {t rest : Text} (h : Whole k t) (he : Ends t rest) :
    scanner.scan (t ++ rest) = .token k t :: scanner.scan rest := by
  refine Scanner.scan_append_token h.ne_nil ?_
  cases rest with
  | nil =>
      rw [List.append_nil]
      exact h.munch
  | cons c rest => exact (munch_append_of_dead fun k' _ => he c rfl k').trans h.munch

/-- A whole token in front of a text is its first token. -/
theorem lex_whole {k : TokenType} {t rest : Text} (h : Whole k t) (hk : k ≠ .WHITESPACE)
    (he : Ends t rest) : WireQueryTokens.lex (t ++ rest) =
      ⟨⟨k, t⟩ :: (WireQueryTokens.lex rest).tokens, (WireQueryTokens.lex rest).errors⟩ := by
  have htoken : WireQueryTokens.tokenOf (.token k t) = some ⟨k, t⟩ := by
    cases k <;> first | rfl | exact absurd rfl hk
  unfold WireQueryTokens.lex
  rw [scan_whole h he]
  simp only [List.filterMap_cons, htoken, WireQueryTokens.errorOf]

/-- White space in front of a text is skipped. -/
theorem lex_blank {t rest : Text} (h : Whole .WHITESPACE t) (he : Ends t rest) :
    WireQueryTokens.lex (t ++ rest) = WireQueryTokens.lex rest := by
  unfold WireQueryTokens.lex
  rw [scan_whole h he]
  simp only [List.filterMap_cons, WireQueryTokens.tokenOf, WireQueryTokens.errorOf]

theorem whole_of_mem {t : Text} {token : Token} (h : token ∈ (WireQueryTokens.lex t).tokens) :
    Whole token.type token.text ∧ token.type ≠ .WHITESPACE := by
  obtain ⟨piece, hpiece, htoken⟩ := List.mem_filterMap.mp h
  cases piece with
  | stray u => cases htoken
  | token k u =>
      obtain ⟨hne, hmunch⟩ := Scanner.munch_of_mem_scan (Nat.le_refl _) hpiece
      have hk : k ≠ .WHITESPACE := by
        rintro rfl
        cases htoken
      have heq : token = ⟨k, u⟩ := by
        cases k <;> first | exact (Option.some.inj htoken).symm | exact absurd rfl hk
      rw [heq]
      exact ⟨⟨hne, hmunch⟩, hk⟩

/-- White space ends at everything else. -/
theorem blank_ends {t rest : Text} (hne : t ≠ []) (ht : t.all isBlank = true)
    (hrest : ∀ c ∈ rest.head?, isBlank c = false) : Ends t rest := by
  intro c hc k
  obtain ⟨a, u, rfl⟩ := List.exists_cons_of_ne_nil hne
  have ha : isBlank a = true := List.all_eq_true.mp ht a (by simp)
  by_cases hk : k = .WHITESPACE
  · rw [hk]
    exact Recognizer.oneThenMany_dead (by simp) (hrest c hc)
  · refine Recognizer.run_of_step_none (step_none_of_not_reads ?_)
    cases hread : readsFirst k a with
    | false => rfl
    | true => exact absurd (eq_of_reads_blank ha hread) hk

/-- A text that one rule alone starts to read, and accepts. -/
theorem whole_of_reader {k : TokenType} {c : CodeUnit} {t : Text} (hk : k ∈ ruleNames)
    (hacc : (rule k).Accepts (c :: t)) (honly : ∀ k', readsFirst k' c = true → k' = k) :
    Whole k (c :: t) where
  ne_nil := by simp
  munch := by
    have hstart : ∀ k ∈ ruleNames, (rule k).accepts (rule k).start = false := by
      decide
    refine munch_of_only hk hacc.longest fun k' hk' hne => ?_
    have hread : readsFirst k' c = false := by
      cases hread : readsFirst k' c with
      | false => rfl
      | true => exact absurd (honly k' hread) hne
    exact Recognizer.longest_of_step_none (step_none_of_not_reads hread) (hstart k' hk')

theorem whole_blank {t : Text} (hne : t ≠ []) (ht : t.all isBlank = true) :
    Whole .WHITESPACE t := by
  obtain ⟨c, u, rfl⟩ := List.exists_cons_of_ne_nil hne
  rw [List.all_cons, Bool.and_eq_true] at ht
  exact whole_of_reader (by decide) (Recognizer.oneThenMany_accepts ht.1 ht.2)
    fun k' hread => eq_of_reads_blank ht.1 hread

/-- A text between quotes with its own quotes doubled is one token. -/
theorem whole_quoted {k : TokenType} {q : CodeUnit} (hk : k ∈ ruleNames)
    (hrule : rule k = .quoted (· == q)) (honly : ∀ k', readsFirst k' q = true → k' = k)
    (t : Text) : Whole k (q :: (replaceAll q [q, q] t ++ [q])) := by
  refine whole_of_reader hk ?_ honly
  rw [hrule]
  exact Recognizer.quoted_accepts t

theorem lex_nil : WireQueryTokens.lex [] = ⟨[], []⟩ := rfl

theorem Whole.head_not_blank {k : TokenType} {t : Text} (h : Whole k t) (hk : k ≠ .WHITESPACE) :
    ∀ c ∈ t.head?, isBlank c = false := by
  intro c hc
  obtain ⟨a, u, rfl⟩ := List.exists_cons_of_ne_nil h.ne_nil
  cases hc
  cases hb : isBlank c with
  | false => rfl
  | true => exact absurd (eq_of_reads_blank hb h.accepts.reads_first) hk

/-- A whole token and white space in front of a text. -/
theorem lex_separated {k : TokenType} {t blanks rest : Text} (h : Whole k t)
    (hk : k ≠ .WHITESPACE) (hne : blanks ≠ []) (hall : blanks.all isBlank = true)
    (hrest : ∀ c ∈ rest.head?, isBlank c = false) :
    WireQueryTokens.lex (t ++ (blanks ++ rest)) =
      ⟨⟨k, t⟩ :: (WireQueryTokens.lex rest).tokens, (WireQueryTokens.lex rest).errors⟩ := by
  have hblanks : ∀ c : CodeUnit, isBlank c = true → c ∈ terminators ∧ c ≠ 46 := by
    intro c hc
    have hmem : c ∈ ([9, 10, 13, 32] : Text) := by simpa [isBlank] using hc
    exact (by decide : ∀ d ∈ ([9, 10, 13, 32] : Text), d ∈ terminators ∧ d ≠ 46) c hmem
  have hends : Ends t (blanks ++ rest) := by
    intro c hc k'
    obtain ⟨b, u, rfl⟩ := List.exists_cons_of_ne_nil hne
    cases hc
    obtain ⟨hterm, hdot⟩ := hblanks c (List.all_eq_true.mp hall c (by simp))
    exact dead_at_terminator h hk hterm (fun hb => absurd hb hdot) k'
  rw [lex_whole h hk hends, lex_blank (whole_blank hne hall) (blank_ends hne hall hrest)]

end WireQueryLexer

end WireTools

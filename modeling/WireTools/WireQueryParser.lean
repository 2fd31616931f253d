import WireTools.ParserCode
import WireTools.WireQueryLexer

/-! # The parser of the query grammar

`rules` is the body of each method of the generated parser: its matches, its branches and loops on
the kind of the next token, and its two predictions that read on.  `WireQueryTokens.parse` lexes a
text and runs the method `query`; the tree is there exactly when the parser reports nothing.

* `rules_covered`, `rules_ranked`: the checks on the code that the general results ask for, so
  that the fuel of `parse` is enough (`parseSymbols_enough`);
* `parseSymbols_map`: the parse looks at the types of the tokens only;
* `dot_follows_name`: in a parsed query a dot stands behind a name. -/

namespace WireTools

namespace WireQueryParser

open WireQueryLexer (nameTypes)

inductive Rule where
  | query | selectItem | aggregateCall | aggregate | orderItem | fieldPath
  | predicate | orPredicate | andPredicate | notPredicate | predicateAtom
  | expression | comparison | literal | ownerName | identifier
  deriving DecidableEq

abbrev Body := Code Rule TokenType

/-- One token of the type. -/
def one (k : TokenType) : Body := .accept [k]

/-- Statements in order. -/
def seqs : List Body → Body
  | [] => .done
  | c :: cs => .seq c (seqs cs)

def optional (kinds : List TokenType) (c : Body) : Body := .branch kinds c .done

/-- `item (',' item)*` -/
def commaList (item : Body) : Body :=
  .seq item (.loop [.COMMA] (seqs [one .COMMA, item]))

def aggregates : List TokenType :=
  [.COUNT_AGGREGATE, .SUM_AGGREGATE, .AVG_AGGREGATE, .MIN_AGGREGATE, .MAX_AGGREGATE]

/-- The types an expression starts with. -/
def expressionStarts : List TokenType :=
  nameTypes ++ aggregates ++ [TokenType.NULL_LITERAL, .TRUE_LITERAL, .FALSE_LITERAL, .PLUS,
    .MINUS, .DECIMAL, .INTEGER, .STRING]

/-- The body of the method of each rule. -/
def rules : Rule → Body
  | .query => seqs
      [one .SELECT,
        commaList (.call .selectItem),
        one .FROM,
        .predict (seqs [.call .identifier, one .DOT]) .done,
        .call .identifier,
        optional [.OWNER] (seqs [one .OWNER, commaList (.call .ownerName)]),
        optional [.WHERE] (seqs [one .WHERE, .call .predicate]),
        optional [.GROUP] (seqs [one .GROUP, one .BY, commaList (.call .fieldPath)]),
        optional [.HAVING] (seqs [one .HAVING, .call .predicate]),
        optional [.ORDER] (seqs [one .ORDER, one .BY, commaList (.call .orderItem)]),
        optional [.LIMIT] (seqs [one .LIMIT, one .INTEGER]),
        optional [.SEMICOLON] (one .SEMICOLON),
        one .EOF]
  | .selectItem =>
      .branch nameTypes
        (seqs [.call .fieldPath, optional [.AS] (seqs [one .AS, .call .identifier])])
        (.branch aggregates (seqs [.call .aggregateCall, one .AS, .call .identifier])
          (.branch [.STAR] (one .STAR) .fail))
  | .aggregateCall => seqs
      [.call .aggregate, one .LPAREN,
        .branch [.STAR] (one .STAR) (.branch nameTypes (.call .fieldPath) .fail), one .RPAREN]
  | .aggregate => .accept aggregates
  | .orderItem => seqs [.call .identifier, optional [.ASC, .DESC] (.accept [.ASC, .DESC])]
  | .fieldPath =>
      .seq (.call .identifier) (.loop [.DOT] (seqs [one .DOT, .call .identifier]))
  | .predicate => .call .orPredicate
  | .orPredicate =>
      .seq (.call .andPredicate) (.loop [.OR] (seqs [one .OR, .call .andPredicate]))
  | .andPredicate =>
      .seq (.call .notPredicate) (.loop [.AND] (seqs [one .AND, .call .notPredicate]))
  | .notPredicate =>
      .branch [.NOT] (seqs [one .NOT, .call .notPredicate])
        (.branch (.LPAREN :: expressionStarts) (.call .predicateAtom) .fail)
  | .predicateAtom =>
      .predict (seqs [one .LPAREN, .call .predicate, one .RPAREN])
        (.predict (seqs [.call .expression, .call .comparison, .call .expression])
          (seqs [.call .expression, one .IS, optional [.NOT] (one .NOT), one .NULL_LITERAL]))
  | .expression =>
      .branch nameTypes (.call .fieldPath)
        (.branch [.NULL_LITERAL, .TRUE_LITERAL, .FALSE_LITERAL, .PLUS, .MINUS, .DECIMAL, .INTEGER,
            .STRING]
          (.call .literal)
          (.branch aggregates (.call .aggregateCall) .fail))
  | .comparison => .accept [.EQ, .NE, .LE, .LT, .GE, .GT]
  | .literal =>
      .branch [.STRING] (one .STRING)
        (.branch [.PLUS, .MINUS, .DECIMAL, .INTEGER]
          (seqs [optional [.PLUS, .MINUS] (.accept [.PLUS, .MINUS]),
            .accept [.DECIMAL, .INTEGER]])
          (.branch [.TRUE_LITERAL] (one .TRUE_LITERAL)
            (.branch [.FALSE_LITERAL] (one .FALSE_LITERAL)
              (.branch [.NULL_LITERAL] (one .NULL_LITERAL) .fail))))
  | .ownerName => .branch [.STRING] (one .STRING) (.branch nameTypes (.call .identifier) .fail)
  | .identifier => .accept nameTypes

/-! ### The checks on the code -/

/-- The types an expression ends with. -/
def expressionEnds : List TokenType :=
  nameTypes ++ [TokenType.NULL_LITERAL, .TRUE_LITERAL, .FALSE_LITERAL, .DECIMAL, .INTEGER,
    .STRING, .RPAREN]

/-- The types each rule starts and ends with; no rule reads nothing. -/
def ruleShape : Rule → Shape TokenType
  | .query => ⟨false, [.SELECT], [.EOF]⟩
  | .selectItem => ⟨false, nameTypes ++ aggregates ++ [.STAR], nameTypes ++ [.STAR]⟩
  | .aggregateCall => ⟨false, aggregates, [.RPAREN]⟩
  | .aggregate => ⟨false, aggregates, aggregates⟩
  | .orderItem => ⟨false, nameTypes, nameTypes ++ [.ASC, .DESC]⟩
  | .fieldPath => ⟨false, nameTypes, nameTypes⟩
  | .predicate | .orPredicate | .andPredicate | .notPredicate | .predicateAtom =>
      ⟨false, .NOT :: .LPAREN :: expressionStarts, expressionEnds⟩
  | .expression => ⟨false, expressionStarts, expressionEnds⟩
  | .comparison => ⟨false, [.EQ, .NE, .LE, .LT, .GE, .GT], [.EQ, .NE, .LE, .LT, .GE, .GT]⟩
  | .literal => ⟨false, expressionStarts, expressionEnds⟩
  | .ownerName => ⟨false, .STRING :: nameTypes, .STRING :: nameTypes⟩
  | .identifier => ⟨false, nameTypes, nameTypes⟩

/-- A dot stands behind a name. -/
def mayFollow (a b : TokenType) : Bool := b != .DOT || nameTypes.contains a

theorem rules_covered : Covers rules ruleShape mayFollow where
  nullable r := by cases r <;> decide
  first r := by cases r <;> decide
  last r := by cases r <;> decide
  seams r := by cases r <;> decide

/-- Fuel each rule needs until it has read a token. -/
def ruleRank : Rule → ℕ
  | .identifier | .comparison | .aggregate => 1
  | .ownerName | .fieldPath | .orderItem | .aggregateCall | .literal => 10
  | .expression | .selectItem => 20
  | .predicateAtom => 30
  | .notPredicate => 40
  | .andPredicate => 50
  | .orPredicate => 60
  | .predicate => 70
  | .query => 80

/-- Fuel for every token. -/
def tokenFuel : ℕ := 100

theorem rules_ranked : Ranked rules ruleShape ruleRank tokenFuel where
  depth_le r := by cases r <;> decide
  within r := by cases r <;> decide

/-! ### Parsing -/

/-- A token with its index. -/
abbrev Symbol := Token × ℕ

def symbolType (s : Symbol) : TokenType := s.1.type

abbrev Tree := ParseTree Rule Symbol

/-- The token behind the last one. -/
def eof : Token := ⟨.EOF, text "<EOF>"⟩

def fuel (n : ℕ) : ℕ := ruleRank .query + 1 + tokenFuel * n

/-- The tree of the method `query`, if it reports nothing. -/
def parseSymbols (symbols : List Symbol) : Option Tree :=
  match exec rules symbolType (fuel symbols.length) (.call .query) symbols with
  | some ([tree], []) => some tree
  | _ => none

/-- More fuel changes nothing. -/
theorem parseSymbols_enough {symbols : List Symbol} {n : ℕ} (h : fuel symbols.length ≤ n) :
    exec rules symbolType n (.call .query) symbols =
      exec rules symbolType (fuel symbols.length) (.call .query) symbols :=
  exec_enough rules_covered rules_ranked (by rfl) (by rfl) h (Nat.le_refl _)

/-- Only the types of the tokens decide about a parse. -/
theorem parseSymbols_map {f : Symbol → Symbol} (hf : ∀ s, symbolType (f s) = symbolType s)
    (symbols : List Symbol) :
    parseSymbols (symbols.map f) = (parseSymbols symbols).map (ParseTree.map f) := by
  unfold parseSymbols
  rw [List.length_map, exec_map hf]
  cases exec rules symbolType (fuel symbols.length) (.call .query) symbols with
  | none => rfl
  | some out =>
      obtain ⟨trees, rest⟩ := out
      cases trees with
      | nil => rfl
      | cons tree trees =>
          cases trees with
          | nil => cases rest <;> rfl
          | cons tree' trees => cases rest <;> rfl

/-- The tree of a parse holds the tokens in order. -/
theorem parseSymbols_leaves {symbols : List Symbol} {tree : Tree}
    (h : parseSymbols symbols = some tree) : tree.leaves = symbols := by
  unfold parseSymbols at h
  split at h
  · rename_i out hout
    cases h
    have := exec_leaves hout
    simpa [ParseTree.leavesAll] using this.symm
  · cases h

/-- In a parsed query a dot stands behind a name. -/
theorem dot_follows_name {symbols : List Symbol} {tree : Tree}
    (h : parseSymbols symbols = some tree) :
    (symbols.map symbolType).IsChain fun a b => mayFollow a b = true := by
  have hleaves := parseSymbols_leaves h
  unfold parseSymbols at h
  split at h
  · rename_i out hout
    cases h
    have hfit := (exec_fits rules_covered hout (by rfl)).chain
    simpa [ParseTree.leavesAll, hleaves] using hfit
  · cases h

end WireQueryParser

open WireQueryParser (Tree)

/-- A parsed text; the tree is there when neither the lexer nor the parser reports anything. -/
structure ParsedQuery where
  tree : Option Tree
  tokens : List Token
  /-- What the lexer could not read. -/
  lexerErrors : List Text

namespace ParsedQuery

/-- Some diagnostic was collected. -/
def hasDiagnostics (p : ParsedQuery) : Bool :=
  !p.lexerErrors.isEmpty || p.tree.isNone

end ParsedQuery

namespace WireQueryTokens

/-- The tokens with their indexes, the end of the text behind them. -/
def symbols (tokens : List Token) : List WireQueryParser.Symbol :=
  (tokens ++ [WireQueryParser.eof]).zipIdx

def parse (t : Text) : ParsedQuery where
  tree := WireQueryParser.parseSymbols (symbols (lex t).tokens)
  tokens := (lex t).tokens
  lexerErrors := (lex t).errors

end WireQueryTokens

namespace WireQueryParser

/-- The children of the tree of a query. -/
def childrenOf : Tree → List Tree
  | .terminal _ => []
  | .node _ children => children

/-- The token of an `identifier`. -/
def identifierToken : Tree → Option Token
  | .node .identifier [.terminal s] => some s.1
  | _ => none

/-- The names of the FROM clause: the owner, if there is one, and the table. -/
def tableReference (tree : Tree) : Option (Option Token × Token) :=
  match (childrenOf tree).filterMap identifierToken with
  | [table] => some (none, table)
  | [owner, table] => some (some owner, table)
  | _ => none

end WireQueryParser

example : (WireQueryTokens.parse (text "select a from b.c where not (a > 1) limit 5;")).hasDiagnostics
    = false := by
  decide

end WireTools

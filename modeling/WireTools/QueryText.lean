import WireTools.WireQueryParser

/-! # Names in query texts

A name is written plain when the lexer reads it as one identifier, and between double quotes with
its own quotes doubled otherwise.

* `quoteIdentifier` and `quoteString` write a name, `nameOf` reads it back from its token;
* every written name is one token that denotes the name (`name_token`);
* `selectAllQuery` parses with exactly the owner and the table it was given. -/

namespace WireTools

open WireQueryLexer

namespace QueryText

def IdentifierQuote : CodeUnit := 34

def StringQuote : CodeUnit := 39

/-- The name lexes as exactly one plain identifier. -/
def isPlainIdentifier (name : Text) : Bool :=
  let lexed := WireQueryTokens.lex name
  lexed.errors.isEmpty &&
    match lexed.tokens with
    | [token] => token.type == .IDENTIFIER && token.text == name
    | _ => false

def quoteIdentifier (name : Text) : Text :=
  if isPlainIdentifier name then name
  else IdentifierQuote ::
    (replaceAll IdentifierQuote [IdentifierQuote, IdentifierQuote] name ++ [IdentifierQuote])

def quoteString (value : Text) : Text :=
  StringQuote :: (replaceAll StringQuote [StringQuote, StringQuote] value ++ [StringQuote])

/-- Every pair of quotes replaced by one, from the left. -/
def undouble (quote : CodeUnit) : Text → Text
  | [] => []
  | [c] => [c]
  | c :: d :: t =>
      if c = quote ∧ d = quote then quote :: undouble quote t else c :: undouble quote (d :: t)

/-- The outer quotes removed and the doubled inner ones undone. -/
def unquote (t : Text) (quote : CodeUnit) : Text := undouble quote (t.dropLast.drop 1)

def unquoteIdentifier (t : Text) : Text := unquote t IdentifierQuote

def unquoteString (t : Text) : Text := unquote t StringQuote

/-- The plain text of a name token. -/
def nameOf (token : Token) : Text :=
  match token.type with
  | .QUOTED_IDENTIFIER => unquoteIdentifier token.text
  | .STRING => unquoteString token.text
  | _ => token.text

def qualifyTable (owner table : Text) : Text :=
  quoteIdentifier owner ++ text "." ++ quoteIdentifier table

def selectAllQuery (owner table : Text) : Text :=
  text "SELECT * FROM " ++ qualifyTable owner table

example : quoteIdentifier (text "sysio.opreg") = text "\"sysio.opreg\"" := by decide

/-! ### Quoting is undone -/

theorem undouble_doubled (quote : CodeUnit) (t : Text) :
    undouble quote (replaceAll quote [quote, quote] t) = t := by
  induction t with
  | nil => rfl
  | cons c t ih =>
      unfold replaceAll at ih ⊢
      rw [List.flatMap_cons]
      by_cases hc : c = quote
      · rw [if_pos hc, List.cons_append, List.cons_append, List.nil_append, undouble,
          if_pos ⟨rfl, rfl⟩, ih, hc]
      · rw [if_neg hc, List.singleton_append]
        cases hrest : t.flatMap fun d => if d = quote then [quote, quote] else [d] with
        | nil =>
            rw [hrest] at ih
            rw [undouble, ← ih]
            rfl
        | cons d u =>
            rw [hrest] at ih
            rw [undouble, if_neg (fun h => hc h.1), ih]

theorem unquote_quoted (quote : CodeUnit) (t : Text) :
    unquote (quote :: (replaceAll quote [quote, quote] t ++ [quote])) quote = t := by
  unfold unquote
  rw [← List.cons_append, List.dropLast_concat, List.drop_one, List.tail_cons,
    undouble_doubled]

/-! ### Tokens of names -/

theorem lex_plain {name : Text} (h : isPlainIdentifier name = true) :
    WireQueryTokens.lex name = ⟨[⟨.IDENTIFIER, name⟩], []⟩ := by
  unfold isPlainIdentifier at h
  generalize WireQueryTokens.lex name = lexed at h ⊢
  obtain ⟨tokens, errors⟩ := lexed
  simp only [Bool.and_eq_true, List.isEmpty_iff] at h
  obtain ⟨rfl, htokens⟩ := h
  match tokens, htokens with
  | [⟨type, t⟩], htokens =>
      simp only [Bool.and_eq_true, beq_iff_eq] at htokens
      obtain ⟨rfl, rfl⟩ := htokens
      rfl

/-- A written name is one token that denotes the name. -/
theorem name_token (name : Text) : ∃ token : Token, token.text = quoteIdentifier name ∧
    Whole token.type token.text ∧ token.type ∈ [TokenType.IDENTIFIER, .QUOTED_IDENTIFIER] ∧
    nameOf token = name := by
  unfold quoteIdentifier
  split
  · rename_i h
    have hmem : (⟨.IDENTIFIER, name⟩ : Token) ∈ (WireQueryTokens.lex name).tokens := by
      rw [lex_plain h]
      simp
    exact ⟨⟨.IDENTIFIER, name⟩, rfl, (whole_of_mem hmem).1, by simp, rfl⟩
  · refine ⟨⟨.QUOTED_IDENTIFIER, _⟩, rfl, ?_, by simp, unquote_quoted _ name⟩
    exact whole_quoted (by decide) rfl (fun _ => eq_of_reads_doubleQuote) name

theorem string_token (value : Text) :
    WireQueryTokens.lex (quoteString value) = ⟨[⟨.STRING, quoteString value⟩], []⟩ := by
  have hwhole : Whole .STRING (quoteString value) :=
    whole_quoted (by decide) rfl (fun _ => eq_of_reads_quote) value
  have hlex := lex_whole hwhole (by decide) (ends_nil _)
  rwa [List.append_nil] at hlex

theorem nameOf_string (value : Text) : nameOf ⟨.STRING, quoteString value⟩ = value :=
  unquote_quoted StringQuote value

/-- The token of the dot. -/
def dot : Token := ⟨.DOT, text "."⟩

/-- A dot between two names. -/
theorem lex_dotted {a b : Token} (ha : Whole a.type a.text) (hb : Whole b.type b.text)
    (hta : a.type ∈ [TokenType.IDENTIFIER, .QUOTED_IDENTIFIER])
    (htb : b.type ∈ [TokenType.IDENTIFIER, .QUOTED_IDENTIFIER]) :
    WireQueryTokens.lex (a.text ++ (text "." ++ b.text)) = ⟨[a, dot, b], []⟩ := by
  have hnames : ∀ k ∈ [TokenType.IDENTIFIER, .QUOTED_IDENTIFIER],
      k ≠ .WHITESPACE ∧ k ∈ nameTypes := by decide
  have hdot : Whole .DOT (text ".") := ⟨by decide, by decide⟩
  have hends : Ends a.text (text "." ++ b.text) := by
    intro c hc k
    have hc46 : c = 46 := by
      cases hc
      rfl
    rw [hc46]
    exact dead_at_terminator ha (hnames _ hta).1 (by decide) (fun _ => (hnames _ hta).2) k
  have hends' : Ends (text ".") b.text := fun c _ k =>
    dead_behind_single (k := .DOT) (a := 46) (by decide) hdot c k
  have hb' := lex_whole hb (hnames _ htb).1 (ends_nil _)
  rw [List.append_nil, lex_nil] at hb'
  rw [lex_whole ha (hnames _ hta).1 hends, lex_whole hdot (by decide) hends', hb']
  rfl

theorem lex_qualifyTable {owner table : Text} {a b : Token}
    (ha : a.text = quoteIdentifier owner) (hb : b.text = quoteIdentifier table)
    (hwa : Whole a.type a.text) (hwb : Whole b.type b.text)
    (hta : a.type ∈ [TokenType.IDENTIFIER, .QUOTED_IDENTIFIER])
    (htb : b.type ∈ [TokenType.IDENTIFIER, .QUOTED_IDENTIFIER]) :
    WireQueryTokens.lex (qualifyTable owner table) = ⟨[a, dot, b], []⟩ := by
  rw [qualifyTable, ← ha, ← hb, List.append_assoc]
  exact lex_dotted hwa hwb hta htb

/-- The tokens of the query that selects everything from a table. -/
def selectAllTokens (owner table : Token) : List Token :=
  [⟨.SELECT, text "SELECT"⟩, ⟨.STAR, text "*"⟩, ⟨.FROM, text "FROM"⟩, owner, dot, table]

theorem lex_selectAll {a b : Token} (hwa : Whole a.type a.text) (hwb : Whole b.type b.text)
    (hta : a.type ∈ [TokenType.IDENTIFIER, .QUOTED_IDENTIFIER])
    (htb : b.type ∈ [TokenType.IDENTIFIER, .QUOTED_IDENTIFIER]) :
    WireQueryTokens.lex (text "SELECT * FROM " ++ (a.text ++ (text "." ++ b.text))) =
      ⟨selectAllTokens a b, []⟩ := by
  have hname : ∀ k ∈ [TokenType.IDENTIFIER, .QUOTED_IDENTIFIER], k ≠ .WHITESPACE := by decide
  have hhead : ∀ c ∈ (a.text ++ (text "." ++ b.text)).head?, isBlank c = false := by
    obtain ⟨c, t, hc⟩ := List.exists_cons_of_ne_nil hwa.ne_nil
    have := hwa.head_not_blank (hname _ hta)
    rw [hc] at this ⊢
    exact this
  have hselect : Whole .SELECT (text "SELECT") := ⟨by decide, by decide⟩
  have hstar : Whole .STAR (text "*") := ⟨by decide, by decide⟩
  have hfrom : Whole .FROM (text "FROM") := ⟨by decide, by decide⟩
  have hsplit : text "SELECT * FROM " =
      text "SELECT" ++ (text " " ++ (text "*" ++ (text " " ++ (text "FROM" ++ text " ")))) := by
    decide
  have hstarHead : ∀ u : Text, ∀ c ∈ (text "*" ++ u).head?, isBlank c = false := by
    intro u c hc
    cases hc
    decide
  have hfromHead : ∀ u : Text, ∀ c ∈ (text "FROM" ++ u).head?, isBlank c = false := by
    intro u c hc
    cases hc
    decide
  simp only [hsplit, List.append_assoc]
  rw [lex_separated hselect (by decide) (by decide) (by decide) (hstarHead _),
    lex_separated hstar (by decide) (by decide) (by decide) (hfromHead _),
    lex_separated hfrom (by decide) (by decide) (by decide) hhead, lex_dotted hwa hwb hta htb]
  rfl

/-- The tree of that query. -/
def selectAllTree (owner table : Token) : WireQueryParser.Tree :=
  .node .query
    [.terminal (⟨.SELECT, text "SELECT"⟩, 0), .node .selectItem [.terminal (⟨.STAR, text "*"⟩, 1)],
      .terminal (⟨.FROM, text "FROM"⟩, 2), .node .identifier [.terminal (owner, 3)],
      .terminal (dot, 4), .node .identifier [.terminal (table, 5)],
      .terminal (WireQueryParser.eof, 6)]

theorem parse_selectAll {a b : Token} (hta : a.type ∈ [TokenType.IDENTIFIER, .QUOTED_IDENTIFIER])
    (htb : b.type ∈ [TokenType.IDENTIFIER, .QUOTED_IDENTIFIER]) :
    WireQueryParser.parseSymbols (WireQueryTokens.symbols (selectAllTokens a b)) =
      some (selectAllTree a b) := by
  obtain ⟨ka, ta⟩ := a
  obtain ⟨kb, tb⟩ := b
  simp only [List.mem_cons, List.not_mem_nil, or_false] at hta htb
  rcases hta with rfl | rfl <;> rcases htb with rfl | rfl <;> rfl

/-! ### The round trip -/

/-- A qualified table lexes as its two names around a dot. -/
theorem qualifyTable_names (owner table : Text) : ∃ a b : Token,
    WireQueryTokens.lex (qualifyTable owner table) = ⟨[a, dot, b], []⟩ ∧
      nameOf a = owner ∧ nameOf b = table := by
  obtain ⟨a, ha, hwa, hta, hna⟩ := name_token owner
  obtain ⟨b, hb, hwb, htb, hnb⟩ := name_token table
  exact ⟨a, b, lex_qualifyTable ha hb hwa hwb hta htb, hna, hnb⟩

/-- Different names are written differently. -/
theorem qualifyTable_injective {owner table owner' table' : Text}
    (h : qualifyTable owner table = qualifyTable owner' table') :
    owner = owner' ∧ table = table' := by
  obtain ⟨a, b, hlex, ha, hb⟩ := qualifyTable_names owner table
  obtain ⟨a', b', hlex', ha', hb'⟩ := qualifyTable_names owner' table'
  rw [h, hlex'] at hlex
  simp only [LexedQuery.mk.injEq, List.cons.injEq, and_true, true_and] at hlex
  obtain ⟨rfl, rfl⟩ := hlex
  exact ⟨ha.symm.trans ha', hb.symm.trans hb'⟩

/-- The query over a table has the owner and the table as its only names. -/
theorem parse_selectAllQuery (owner table : Text) : ∃ a b : Token,
    WireQueryTokens.parse (selectAllQuery owner table) =
        ⟨some (selectAllTree a b), selectAllTokens a b, []⟩ ∧
      nameOf a = owner ∧ nameOf b = table := by
  obtain ⟨a, ha, hwa, hta, hna⟩ := name_token owner
  obtain ⟨b, hb, hwb, htb, hnb⟩ := name_token table
  refine ⟨a, b, ?_, hna, hnb⟩
  have hlex := lex_selectAll hwa hwb hta htb
  rw [ha, hb, ← List.append_assoc (quoteIdentifier owner)] at hlex
  unfold WireQueryTokens.parse selectAllQuery qualifyTable
  rw [hlex]
  dsimp only
  rw [parse_selectAll hta htb]

/-- Names of any characters survive the query text: a qualified table lexes as exactly its two
names around a dot, the query over it parses with that owner and that table and nothing else, a
quoted string is one token of that value, and different names are written differently. -/
theorem names_round_trip :
    (∀ owner table : Text, ∃ a b : Token,
      WireQueryTokens.lex (qualifyTable owner table) = ⟨[a, dot, b], []⟩ ∧
        nameOf a = owner ∧ nameOf b = table) ∧
    (∀ owner table : Text, ∃ a b : Token,
      let parsed := WireQueryTokens.parse (selectAllQuery owner table)
      parsed.hasDiagnostics = false ∧ parsed.tree = some (selectAllTree a b) ∧
        WireQueryParser.tableReference (selectAllTree a b) = some (some a, b) ∧
        nameOf a = owner ∧ nameOf b = table) ∧
    (∀ value : Text, ∃ token : Token,
      WireQueryTokens.lex (quoteString value) = ⟨[token], []⟩ ∧ token.type = .STRING ∧
        nameOf token = value) ∧
    (∀ owner table owner' table' : Text,
      qualifyTable owner table = qualifyTable owner' table' →
        owner = owner' ∧ table = table') := by
  refine ⟨qualifyTable_names, fun owner table => ?_, fun value => ?_, ?_⟩
  · obtain ⟨a, b, hparse, hna, hnb⟩ := parse_selectAllQuery owner table
    refine ⟨a, b, ?_⟩
    rw [hparse]
    exact ⟨rfl, rfl, rfl, hna, hnb⟩
  · exact ⟨_, string_token value, rfl, nameOf_string value⟩
  · exact fun _ _ _ _ h => qualifyTable_injective h

end QueryText

end WireTools

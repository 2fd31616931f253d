import WireTools.ParserDerivations
import WireTools.QueryFormatter

/-! # The parts of a parsed query

What the tree of a query says about the owners and the table, and where their tokens stand.

* `ownerNames` are the names in the OWNER clause of a tree;
* `QueryParts` cuts the tokens of a query at the FROM clause; `exists_parts`: the tokens of a parsed
  query are cut so, and its tree says what the parts do. -/

namespace WireTools.WireQueryParser

open ParseTree
open WireQueryLexer (nameTypes)
open WireQueryTokens (ClauseKeywords)

/-- The token of an `ownerName`. -/
def ownerNameToken : Tree → Option Token
  | .node .ownerName [.terminal s] => some s.1
  | .node .ownerName [.node .identifier [.terminal s]] => some s.1
  | _ => none

/-- The names of the OWNER clause. -/
def ownerNames (tree : Tree) : List Token :=
  (childrenOf tree).filterMap ownerNameToken

/-- A body of the grammar adds these trees. -/
abbrev Adds (c : Body) (trees : List Tree) : Prop :=
  Derives rules symbolType c trees

/-! ### Single names -/

theorem adds_one {k : TokenType} {trees : List Tree} (h : Adds (one k) trees) :
    ∃ s, symbolType s = k ∧ trees = [terminal s] := by
  obtain ⟨s, hs, rfl⟩ := derives_accept_iff.mp h
  exact ⟨s, List.mem_singleton.mp hs, rfl⟩

theorem adds_identifier {trees : List Tree} (h : Adds (.call .identifier) trees) :
    ∃ s, symbolType s ∈ nameTypes ∧ trees = [node .identifier [terminal s]] := by
  obtain ⟨us, hus, rfl⟩ := derives_call_iff.mp h
  obtain ⟨s, hs, rfl⟩ := derives_accept_iff.mp hus
  exact ⟨s, hs, rfl⟩

/-- The types of the tokens in an OWNER clause, behind the word. -/
def ownerListTypes : List TokenType := .COMMA :: .STRING :: nameTypes

/-- Trees of an OWNER clause: their tokens are its names, and commas. -/
structure OwnerList (trees : List Tree) : Prop where
  identifiers : trees.filterMap identifierToken = []
  names : trees.filterMap ownerNameToken =
    ((leavesAll trees).filter fun s => symbolType s != .COMMA).map Prod.fst
  types : ∀ s ∈ leavesAll trees, symbolType s ∈ ownerListTypes

theorem OwnerList.append {ts us : List Tree} (ht : OwnerList ts) (hu : OwnerList us) :
    OwnerList (ts ++ us) where
  identifiers := by rw [List.filterMap_append, ht.identifiers, hu.identifiers]; rfl
  names := by
    rw [List.filterMap_append, leavesAll_append, List.filter_append, List.map_append, ht.names,
      hu.names]
  types := by
    rw [leavesAll_append]
    exact List.forall_mem_append.mpr ⟨ht.types, hu.types⟩

theorem ownerList_ownerName {trees : List Tree} (h : Adds (.call .ownerName) trees) :
    OwnerList trees ∧ trees.filterMap ownerNameToken ≠ [] := by
  obtain ⟨us, hus, rfl⟩ := derives_call_iff.mp h
  rcases derives_branch_iff.mp hus with hstring | hrest
  · obtain ⟨s, hs, rfl⟩ := adds_one hstring
    refine ⟨⟨rfl, ?_, ?_⟩, List.cons_ne_nil s.1 []⟩
    · simp [leavesAll, leaves, ownerNameToken, hs]
    · simp [leavesAll, leaves, ownerListTypes, hs]
  · rcases derives_branch_iff.mp hrest with hname | hfail
    · obtain ⟨s, hs, rfl⟩ := adds_identifier hname
      refine ⟨⟨rfl, ?_, ?_⟩, List.cons_ne_nil s.1 []⟩
      · have hcomma : symbolType s ≠ .COMMA := by
          intro heq
          rw [heq] at hs
          exact absurd hs (by decide)
        simp [leavesAll, leaves, ownerNameToken, hcomma]
      · simp [leavesAll, leaves, ownerListTypes, hs]
    · exact absurd hfail not_derives_fail

theorem ownerList_comma {trees : List Tree} (h : Adds (one .COMMA) trees) : OwnerList trees := by
  obtain ⟨s, hs, rfl⟩ := adds_one h
  refine ⟨rfl, ?_, ?_⟩
  · simp [leavesAll, leaves, ownerNameToken, hs]
  · simp [leavesAll, leaves, ownerListTypes, hs]

theorem ownerList_commaList {trees : List Tree} (h : Adds (commaList (.call .ownerName)) trees) :
    OwnerList trees ∧ trees.filterMap ownerNameToken ≠ [] := by
  obtain ⟨us, vs, hitem, hloop, rfl⟩ := derives_seq_iff.mp h
  obtain ⟨hlist, hne⟩ := ownerList_ownerName hitem
  have hrest : OwnerList vs := by
    refine Derives.loop_induction ⟨rfl, rfl, List.forall_mem_nil _⟩ (fun ts us hts hus => ?_) hloop
    obtain ⟨cs, ds, hcomma, hds, rfl⟩ := derives_seq_iff.mp hts
    obtain ⟨es, fs, hname, hdone, rfl⟩ := derives_seq_iff.mp hds
    rw [derives_done_iff.mp hdone, List.append_nil]
    exact ((ownerList_comma hcomma).append (ownerList_ownerName hname).1).append hus
  refine ⟨hlist.append hrest, ?_⟩
  rw [List.filterMap_append]
  exact List.append_ne_nil_of_left_ne_nil hne _

/-! ### Other statements -/

/-- Trees that name neither an owner nor a table. -/
structure Foreign (trees : List Tree) : Prop where
  identifiers : trees.filterMap identifierToken = []
  names : trees.filterMap ownerNameToken = []

theorem Foreign.append {ts us : List Tree} (ht : Foreign ts) (hu : Foreign us) :
    Foreign (ts ++ us) where
  identifiers := by rw [List.filterMap_append, ht.identifiers, hu.identifiers]; rfl
  names := by rw [List.filterMap_append, ht.names, hu.names]; rfl

/-- The methods whose trees are read by the names. -/
def isName (r : Rule) : Bool := r == .identifier || r == .ownerName

theorem foreign_of_every {c : Body} {trees : List Tree} (h : Adds c trees)
    (hc : c.every (fun _ => true) (fun r => !isName r) = true) : Foreign trees := by
  have hnone : ∀ tree ∈ trees, identifierToken tree = none ∧ ownerNameToken tree = none := by
    intro tree htree
    rcases h.trees_every hc tree htree with ⟨t, rfl, _⟩ | ⟨r, children, rfl, hr⟩
    · exact ⟨rfl, rfl⟩
    · cases r <;> first | exact absurd hr (by decide) | exact ⟨rfl, rfl⟩
  exact ⟨List.filterMap_eq_nil_iff.mpr fun tree htree => (hnone tree htree).1,
    List.filterMap_eq_nil_iff.mpr fun tree htree => (hnone tree htree).2⟩

/-- Trees of the clauses behind the tables: a clause keyword stands first. -/
structure Clauses (trees : List Tree) : Prop extends Foreign trees where
  head : ∀ s ∈ (leavesAll trees).head?, symbolType s ∈ ClauseKeywords

theorem Clauses.append {ts us : List Tree} (ht : Clauses ts) (hu : Clauses us) :
    Clauses (ts ++ us) where
  toForeign := ht.toForeign.append hu.toForeign
  head := by
    rw [leavesAll_append]
    intro s hs
    cases hleaves : leavesAll ts with
    | nil =>
        rw [hleaves] at hs
        exact hu.head s hs
    | cons s' leaves =>
        apply ht.head
        rw [hleaves] at hs ⊢
        exact hs

theorem clauses_optional {k : TokenType} {cs : List Body} {trees : List Tree}
    (hk : k ∈ ClauseKeywords)
    (hcs : (seqs (one k :: cs)).every (fun _ => true) (fun r => !isName r) = true)
    (h : Adds (optional [k] (seqs (one k :: cs))) trees) : Clauses trees := by
  rcases derives_branch_iff.mp h with hclause | hdone
  · refine ⟨foreign_of_every hclause hcs, ?_⟩
    obtain ⟨us, vs, hword, _, rfl⟩ := derives_seq_iff.mp hclause
    obtain ⟨s, rfl, rfl⟩ := adds_one hword
    rintro s' ⟨⟩
    exact hk
  · rw [derives_done_iff.mp hdone]
    exact ⟨⟨rfl, rfl⟩, fun s hs => by cases hs⟩

theorem clauses_seqs {cs : List Body} (hcs : ∀ c ∈ cs, ∀ ts, Adds c ts → Clauses ts) :
    ∀ {trees : List Tree}, Adds (seqs cs) trees → Clauses trees := by
  induction cs with
  | nil =>
      intro trees h
      rw [derives_done_iff.mp h]
      exact ⟨⟨rfl, rfl⟩, fun s hs => by cases hs⟩
  | cons c cs ih =>
      intro trees h
      rw [List.forall_mem_cons] at hcs
      obtain ⟨us, vs, hfirst, hrest, rfl⟩ := derives_seq_iff.mp h
      exact (hcs.1 us hfirst).append (ih hcs.2 hrest)

/-! ### The statements of a query -/

theorem adds_seqs_append {cs ds : List Body} : ∀ {trees : List Tree},
    Adds (seqs (cs ++ ds)) trees →
      ∃ us vs, Adds (seqs cs) us ∧ Adds (seqs ds) vs ∧ trees = us ++ vs := by
  induction cs with
  | nil => exact fun h => ⟨[], _, .done, h, rfl⟩
  | cons c cs ih =>
      intro trees h
      obtain ⟨us, vs, hfirst, hrest, rfl⟩ := derives_seq_iff.mp h
      obtain ⟨ts, ws, hts, hws, rfl⟩ := ih hrest
      exact ⟨us ++ ts, ws, .seq hfirst hts, hws, (List.append_assoc us ts ws).symm⟩

def selectStatements : List Body := [one .SELECT, commaList (.call .selectItem)]

def ownerStatement : Body := optional [.OWNER] (seqs [one .OWNER, commaList (.call .ownerName)])

def fromStatements : List Body :=
  [one .FROM, .predict (seqs [.call .identifier, one .DOT]) .done, .call .identifier,
    ownerStatement]

def clauseStatements : List Body :=
  [optional [.WHERE] (seqs [one .WHERE, .call .predicate]),
    optional [.GROUP] (seqs [one .GROUP, one .BY, commaList (.call .fieldPath)]),
    optional [.HAVING] (seqs [one .HAVING, .call .predicate]),
    optional [.ORDER] (seqs [one .ORDER, one .BY, commaList (.call .orderItem)]),
    optional [.LIMIT] (seqs [one .LIMIT, one .INTEGER])]

def endStatements : List Body := [optional [.SEMICOLON] (one .SEMICOLON), one .EOF]

theorem rules_query : rules .query =
    seqs (selectStatements ++ (fromStatements ++ (clauseStatements ++ endStatements))) := rfl

theorem clauses_of_adds {trees : List Tree} (h : Adds (seqs clauseStatements) trees) :
    Clauses trees := by
  refine clauses_seqs (fun c hc ts hts => ?_) h
  simp only [clauseStatements, List.mem_cons, List.not_mem_nil, or_false] at hc
  rcases hc with rfl | rfl | rfl | rfl | rfl <;> exact clauses_optional (by decide) (by decide) hts

/-- No word FROM stands in front of the FROM clause. -/
theorem select_types {trees : List Tree} (h : Adds (seqs selectStatements) trees) :
    ∀ s ∈ leavesAll trees, symbolType s ≠ .FROM := by
  have hrules : ∀ r : Rule, (r != .query) = true →
      (rules r).every (· != TokenType.FROM) (· != .query) = true := by
    intro r
    cases r <;> decide
  intro s hs
  exact bne_iff_ne.mp (h.leaves_every hrules (by decide) s hs)

/-! ### The parts -/

/-- An OWNER clause: its word, and the names with the commas. -/
structure OwnerClause where
  word : Symbol
  list : List Symbol
  word_type : symbolType word = .OWNER
  list_types : ∀ s ∈ list, symbolType s ∈ ownerListTypes

def OwnerClause.names (c : OwnerClause) : List Token :=
  (c.list.filter fun s => symbolType s != .COMMA).map Prod.fst

/-- The tokens of a query, cut at the FROM clause and the OWNER clause. -/
structure QueryParts where
  head : List Symbol
  fromWord : Symbol
  /-- An owner and the dot behind it. -/
  qualifier : Option (Symbol × Symbol)
  table : Symbol
  clause : Option OwnerClause
  rest : List Symbol
  last : Symbol
  head_types : ∀ s ∈ head, symbolType s ≠ .FROM
  from_type : symbolType fromWord = .FROM
  dot_type : ∀ q ∈ qualifier, symbolType q.2 = .DOT
  names_ne_nil : ∀ c ∈ clause, c.names ≠ []
  rest_types : ∀ s ∈ rest.head?, symbolType s ∈ ClauseKeywords ∨ rest = [s] ∧
    symbolType s = .SEMICOLON

namespace QueryParts

def qualifierSymbols (p : QueryParts) : List Symbol :=
  p.qualifier.elim [] fun q => [q.1, q.2]

def clauseSymbols (p : QueryParts) : List Symbol :=
  p.clause.elim [] fun c => c.word :: c.list

/-- The tokens behind the table. -/
def behind (p : QueryParts) : List Symbol := p.clauseSymbols ++ p.rest

/-- All tokens but the end of the text. -/
def body (p : QueryParts) : List Symbol :=
  p.head ++ p.fromWord :: (p.qualifierSymbols ++ p.table :: p.behind)

def names (p : QueryParts) : List Token := p.clause.elim [] OwnerClause.names

end QueryParts

/-- The owner in front of a table. -/
theorem adds_qualifier {trees : List Tree}
    (h : Adds (.predict (seqs [.call .identifier, one .DOT]) .done) trees) :
    ∃ qualifier : Option (Symbol × Symbol), (∀ q ∈ qualifier, symbolType q.2 = .DOT) ∧
      leavesAll trees = (qualifier.elim [] fun q => [q.1, q.2]) ∧
      trees.filterMap identifierToken = (qualifier.map fun q => q.1.1).toList ∧
      trees.filterMap ownerNameToken = [] := by
  rcases derives_predict_iff.mp h with hdotted | hnone
  · obtain ⟨us, vs, howner, hrest, rfl⟩ := derives_seq_iff.mp hdotted
    obtain ⟨owner, _, rfl⟩ := adds_identifier howner
    obtain ⟨ts, ws, hsign, hdone, rfl⟩ := derives_seq_iff.mp hrest
    obtain ⟨dot, hdot, rfl⟩ := adds_one hsign
    rw [derives_done_iff.mp hdone]
    refine ⟨some (owner, dot), ?_, rfl, rfl, rfl⟩
    rintro q ⟨⟩
    exact hdot
  · rw [derives_done_iff.mp hnone]
    refine ⟨none, ?_, rfl, rfl, rfl⟩
    rintro q ⟨⟩

/-- The OWNER clause. -/
theorem adds_clause {trees : List Tree} (h : Adds ownerStatement trees) :
    ∃ clause : Option OwnerClause, (∀ c ∈ clause, c.names ≠ []) ∧
      leavesAll trees = (clause.elim [] fun c => c.word :: c.list) ∧
      trees.filterMap identifierToken = [] ∧
      trees.filterMap ownerNameToken = clause.elim [] OwnerClause.names := by
  rcases derives_branch_iff.mp h with hclause | hnone
  · obtain ⟨us, vs, hword, hrest, rfl⟩ := derives_seq_iff.mp hclause
    obtain ⟨word, howner, rfl⟩ := adds_one hword
    obtain ⟨ts, ws, hnames, hdone, rfl⟩ := derives_seq_iff.mp hrest
    rw [derives_done_iff.mp hdone, List.append_nil]
    obtain ⟨hlist, hne⟩ := ownerList_commaList hnames
    refine ⟨some ⟨word, leavesAll ts, howner, hlist.types⟩, ?_, rfl, hlist.identifiers,
      hlist.names⟩
    rintro c ⟨⟩
    rw [hlist.names] at hne
    exact hne
  · rw [derives_done_iff.mp hnone]
    refine ⟨none, ?_, rfl, rfl, rfl⟩
    rintro c ⟨⟩

/-- The FROM clause: its word, and the tokens and trees behind it. -/
theorem adds_from {trees : List Tree} (h : Adds (seqs fromStatements) trees) :
    ∃ (word : Symbol) (qualifier : Option (Symbol × Symbol)) (table : Symbol)
      (clause : Option OwnerClause),
      symbolType word = .FROM ∧ (∀ q ∈ qualifier, symbolType q.2 = .DOT) ∧
      (∀ c ∈ clause, c.names ≠ []) ∧
      leavesAll trees = word :: ((qualifier.elim [] fun q => [q.1, q.2]) ++
        table :: clause.elim [] fun c => c.word :: c.list) ∧
      trees.filterMap identifierToken = (qualifier.map fun q => q.1.1).toList ++ [table.1] ∧
      trees.filterMap ownerNameToken = clause.elim [] OwnerClause.names := by
  obtain ⟨us, vs, hword, hrest, rfl⟩ := derives_seq_iff.mp h
  obtain ⟨word, hfrom, rfl⟩ := adds_one hword
  obtain ⟨ts, ws, hqualifier, hreference, rfl⟩ := derives_seq_iff.mp hrest
  obtain ⟨xs, ys, htable, hbehind, rfl⟩ := derives_seq_iff.mp hreference
  obtain ⟨table, _, rfl⟩ := adds_identifier htable
  obtain ⟨zs, es, hclause, hdone, rfl⟩ := derives_seq_iff.mp hbehind
  rw [derives_done_iff.mp hdone, List.append_nil]
  obtain ⟨qualifier, hdot, hqleaves, hqnames, hqowners⟩ := adds_qualifier hqualifier
  obtain ⟨clause, hne, hcleaves, hcnames, hcowners⟩ := adds_clause hclause
  refine ⟨word, qualifier, table, clause, hfrom, hdot, hne, ?_, ?_, ?_⟩
  · simp only [leavesAll_append, hqleaves, hcleaves]
    rfl
  · simp only [List.filterMap_append, hqnames, hcnames]
    rfl
  · simp only [List.filterMap_append, hqowners, hcowners]
    rfl

/-- The end of a query: nothing, or a semicolon. -/
theorem adds_end {trees : List Tree} (h : Adds (seqs endStatements) trees) : Foreign trees ∧
    ∃ semicolon last, leavesAll trees = semicolon ++ [last] ∧
      ∀ s ∈ semicolon.head?, semicolon = [s] ∧ symbolType s = .SEMICOLON := by
  refine ⟨foreign_of_every h (by decide), ?_⟩
  obtain ⟨us, vs, hsemicolon, heof, rfl⟩ := derives_seq_iff.mp h
  obtain ⟨ts, ws, hlast, hdone, rfl⟩ := derives_seq_iff.mp heof
  obtain ⟨last, _, rfl⟩ := adds_one hlast
  rw [derives_done_iff.mp hdone]
  rcases derives_branch_iff.mp hsemicolon with hsome | hnone
  · obtain ⟨s, hs, rfl⟩ := adds_one hsome
    refine ⟨[s], last, rfl, ?_⟩
    rintro s' ⟨⟩
    exact ⟨rfl, hs⟩
  · rw [derives_done_iff.mp hnone]
    exact ⟨[], last, rfl, fun s hs => by cases hs⟩

theorem parseSymbols_adds {symbols : List Symbol} {tree : Tree}
    (h : parseSymbols symbols = some tree) :
    ∃ children, tree = node .query children ∧ Adds (rules .query) children ∧
      leavesAll children = symbols := by
  have hleaves := parseSymbols_leaves h
  unfold parseSymbols at h
  split at h
  · next out hout =>
      cases h
      obtain ⟨children, hchildren, htree⟩ := derives_call_iff.mp (exec_derives hout)
      cases htree
      exact ⟨children, rfl, hchildren, hleaves⟩
  · cases h

/-- A parsed query has parts, and its tree names what they do. -/
theorem exists_parts {symbols : List Symbol} {tree : Tree} (h : parseSymbols symbols = some tree) :
    ∃ p : QueryParts, symbols = p.body ++ [p.last] ∧
      tableReference tree = some (p.qualifier.map fun q => q.1.1, p.table.1) ∧
      ownerNames tree = p.names := by
  obtain ⟨children, rfl, hchildren, rfl⟩ := parseSymbols_adds h
  rw [rules_query] at hchildren
  obtain ⟨us, ts, hselect, hbehindSelect, rfl⟩ := adds_seqs_append hchildren
  obtain ⟨vs, ts', hfrom, hbehindFrom, rfl⟩ := adds_seqs_append hbehindSelect
  obtain ⟨ws, xs, hclauses, hend, rfl⟩ := adds_seqs_append hbehindFrom
  have hhead := foreign_of_every hselect (by decide)
  obtain ⟨word, qualifier, table, clause, hword, hdot, hne, hleaves, hnames, howners⟩ :=
    adds_from hfrom
  have hrest := clauses_of_adds hclauses
  obtain ⟨hlast, semicolon, last, hend, hsemicolon⟩ := adds_end hend
  have hbehind := hrest.toForeign.append hlast
  have htypes : ∀ s ∈ (leavesAll ws ++ semicolon).head?, symbolType s ∈ ClauseKeywords ∨
      leavesAll ws ++ semicolon = [s] ∧ symbolType s = .SEMICOLON := by
    intro s hs
    cases hws : leavesAll ws with
    | nil =>
        rw [hws] at hs
        exact Or.inr (hsemicolon s hs)
    | cons s' leaves =>
        rw [hws] at hs
        exact Or.inl (hrest.head s (by rw [hws]; exact hs))
  refine ⟨⟨leavesAll us, word, qualifier, table, clause, leavesAll ws ++ semicolon, last,
    select_types hselect, hword, hdot, hne, htypes⟩, ?_, ?_, ?_⟩
  · simp only [leavesAll_append, hleaves, hend, QueryParts.body, QueryParts.qualifierSymbols,
      QueryParts.behind, QueryParts.clauseSymbols, List.append_assoc, List.cons_append]
  · have hall : (us ++ (vs ++ (ws ++ xs))).filterMap identifierToken =
        (qualifier.map fun q => q.1.1).toList ++ [table.1] := by
      rw [List.filterMap_append, List.filterMap_append, hhead.identifiers, hbehind.identifiers,
        hnames, List.append_nil]
      rfl
    rw [tableReference, childrenOf, hall]
    cases qualifier <;> rfl
  · rw [ownerNames, childrenOf, List.filterMap_append, List.filterMap_append, hhead.names,
      hbehind.names, howners, List.append_nil]
    rfl

end WireTools.WireQueryParser

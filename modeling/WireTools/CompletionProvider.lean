import Mathlib.Data.List.TakeWhile
import WireTools.QueryParts
import WireTools.QueryText
import WireTools.SyntaxHighlighter

/-! # What a completion reads

A completion looks at tokens, not at a tree: at the last word in front of the cursor, and at the
tokens around the word FROM.

* `tableReference` is the table and the owners that the tokens name, `typed` the word at the cursor;
* `tableReference_parts`: the reference of a parsed query by its parts; `names_eq_iff`: when its
  owners are those of the tree;
* `typed_eq_iff`: the word at the cursor is found if and only if no surrogate pair is in front;
* `agrees_iff`: when a completion reads of a text what the grammar does. -/

namespace WireTools

open WireQueryLexer (scanner)
open WireQueryParser (Symbol Tree symbolType ownerNames OwnerClause QueryParts)

/-- The table that a query reads. -/
structure QueryTableReference where
  owners : List Text
  table : Text
  deriving DecidableEq

namespace CompletionProvider

open QueryText (nameOf)
open WireQueryTokens
open SyntaxHighlighter

/-- The types that name an owner in an OWNER clause. -/
def OwnerNameTokens : List TokenType := [.IDENTIFIER, .QUOTED_IDENTIFIER, .STRING]

def isOwner (token : Token) : Bool := token.type == .OWNER

def startsClause (token : Token) : Bool := ClauseKeywords.contains token.type

def namesOwner (token : Token) : Bool := OwnerNameTokens.contains token.type

/-- The owners behind the first word OWNER that stands behind the table. -/
def listedOwners (tokens : List Token) (fromIndex : ℕ) : List Text :=
  let ownerIndex := tokens.zipIdx.findIdx? fun x => decide (fromIndex + 1 < x.2) && isOwner x.1
  let afterOwner := ownerIndex.elim [] fun i => tokens.drop (i + 1)
  let clauseEnd := afterOwner.findIdx? startsClause
  let ownerTokens := clauseEnd.elim afterOwner fun i => afterOwner.take i
  (ownerTokens.filter namesOwner).map nameOf

/-- The reference of a token stream, if there is a word FROM and something behind it. -/
def tableReference (tokens : List Token) : Option QueryTableReference :=
  match tokens.findIdx? fun token => token.type == .FROM with
  | none => none
  | some fromIndex =>
      let slice := (tokens.drop (fromIndex + 1)).take 3
      match slice[0]?, slice[1]?, slice[2]? with
      | none, _, _ => none
      | some first, some dot, some second =>
          if dot.type = .DOT then some ⟨[nameOf first], nameOf second⟩
          else some ⟨listedOwners tokens fromIndex, nameOf first⟩
      | some first, _, _ => some ⟨listedOwners tokens fromIndex, nameOf first⟩

/-- Identifiers and keywords. -/
def isWordType (k : TokenType) : Bool := k == .IDENTIFIER || WordTokens.contains k

/-- The word that is being typed at the cursor. -/
def typed (t : Text) (offset : ℕ) : Option Token :=
  match (lexPlaced (t.take offset)).1.getLast? with
  | none => none
  | some last =>
      if last.stop + 1 = offset ∧ isWordType last.token.type = true then some last.token else none

/-! ### What the grammar says -/

/-- The reference of a tree. -/
def treeReference (tree : Tree) : Option QueryTableReference :=
  (WireQueryParser.tableReference tree).map fun r =>
    ⟨(r.1.toList ++ ownerNames tree).map nameOf, nameOf r.2⟩

/-- The word that ends at the cursor. -/
def wordAt (t : Text) (offset : ℕ) : Option Token :=
  match (scanner.scan (t.take offset)).getLast? with
  | some (.token k u) => if isWordType k then some ⟨k, u⟩ else none
  | _ => none

/-- A completion reads of a text what the grammar does. -/
structure Agrees (t : Text) : Prop where
  reference : ∀ tree, (parse t).tree = some tree → (parse t).hasDiagnostics = false →
    tableReference (lex t).tokens = treeReference tree
  typed : ∀ offset ≤ t.length, typed t offset = wordAt t offset

/-- A word OWNER behind the table that is a name has its owners found. -/
example : tableReference (lex (text "select owner from owner owner 'a', b where owner = 1")).tokens =
    some ⟨[text "a", text "b"], text "owner"⟩ := by
  decide

/-- A column that is compared is taken for the owners of the table, and behind a pair of surrogates
no word is found. -/
theorem not_agrees : ¬Agrees (text "select*from t where owner='x'") ∧ ¬Agrees (text "'😀' a") := by
  constructor
  · intro h
    have hall : ((parse (text "select*from t where owner='x'")).tree.all fun tree =>
        decide (tableReference (lex (text "select*from t where owner='x'")).tokens =
          treeReference tree)) = true := by
      rw [Option.all_eq_true]
      exact fun tree htree => decide_eq_true (h.reference tree htree (by decide))
    revert hall
    decide
  · intro h
    have htyped := h.typed 6 (by decide)
    revert htyped
    decide

/-! ### Searching a token stream -/

section search

variable {α : Type} {p : α → Bool}

theorem findIdx?_zipIdx {n : ℕ} (l : List α) : ∀ {k : ℕ}, n ≤ k →
    (l.zipIdx k).findIdx? (fun x => decide (n ≤ x.2) && p x.1) = l.findIdx? p := by
  induction l with
  | nil => exact fun _ => rfl
  | cons a l ih =>
      intro k hk
      rw [List.zipIdx_cons, List.findIdx?_cons, List.findIdx?_cons, ih (Nat.le_succ_of_le hk),
        decide_eq_true hk, Bool.true_and]

theorem findIdx?_from (a l : List α) :
    (a ++ l).zipIdx.findIdx? (fun x => decide (a.length ≤ x.2) && p x.1) =
      (l.findIdx? p).map (· + a.length) := by
  have hnone : a.zipIdx.findIdx? (fun x => decide (a.length ≤ x.2) && p x.1) = none := by
    rw [List.findIdx?_eq_none_iff]
    intro x hx
    have hlt := (List.mem_zipIdx' hx).1
    rw [decide_eq_false (by omega), Bool.false_and]
  rw [List.zipIdx_append, List.findIdx?_append, hnone, Option.none_or, List.length_zipIdx,
    findIdx?_zipIdx l (by omega)]

theorem take_findIdx? (l : List α) :
    ((l.findIdx? p).elim l fun i => l.take i) = l.takeWhile fun a => !p a := by
  induction l with
  | nil => rfl
  | cons a l ih =>
      rw [List.findIdx?_cons, List.takeWhile_cons]
      cases p a with
      | true => rfl
      | false =>
          rw [Bool.not_false, if_pos rfl, ← ih]
          cases l.findIdx? p <;> rfl

theorem drop_findIdx? (l : List α) :
    ((l.findIdx? p).elim [] fun i => l.drop (i + 1)) = (l.dropWhile fun a => !p a).drop 1 := by
  induction l with
  | nil => rfl
  | cons a l ih =>
      rw [List.findIdx?_cons, List.dropWhile_cons]
      cases p a with
      | true => rfl
      | false =>
          rw [Bool.not_false, if_pos rfl, ← ih]
          cases l.findIdx? p <;> rfl

end search

/-- The names between the first word OWNER and the next clause keyword. -/
def listed (tokens : List Token) : List Token :=
  (((tokens.dropWhile fun token => !isOwner token).drop 1).takeWhile fun token =>
    !startsClause token).filter namesOwner

theorem ownerIndex_eq {front rest : List Token} {fromIndex : ℕ}
    (h : front.length = fromIndex + 2) :
    ((front ++ rest).zipIdx.findIdx? fun x => decide (fromIndex + 1 < x.2) && isOwner x.1) =
      (rest.findIdx? isOwner).map (· + (fromIndex + 2)) := by
  have hfind := findIdx?_from (p := isOwner) front rest
  rw [h] at hfind
  exact hfind

theorem listedOwners_eq {front rest : List Token} {fromIndex : ℕ}
    (h : front.length = fromIndex + 2) :
    listedOwners (front ++ rest) fromIndex = (listed rest).map nameOf := by
  have hdrop : (((rest.findIdx? isOwner).map (· + (fromIndex + 2))).elim [] fun i =>
      (front ++ rest).drop (i + 1)) = (rest.dropWhile fun token => !isOwner token).drop 1 := by
    rw [← drop_findIdx?]
    cases rest.findIdx? isOwner with
    | none => rfl
    | some i =>
        have hindex : i + (fromIndex + 2) + 1 = front.length + (i + 1) := by omega
        show (front ++ rest).drop (i + (fromIndex + 2) + 1) = rest.drop (i + 1)
        rw [hindex, List.drop_length_add_append]
  unfold listedOwners
  dsimp only
  rw [ownerIndex_eq h, hdrop, take_findIdx?]
  rfl

/-- A name stands behind the first word OWNER, in front of the next clause keyword. -/
def NamesBehindOwner (tokens : List Token) : Prop :=
  ∃ a word b name c, tokens = a ++ word :: (b ++ name :: c) ∧ (∀ x ∈ a, isOwner x = false) ∧
    isOwner word = true ∧ (∀ x ∈ b, startsClause x = false) ∧ namesOwner name = true

theorem listed_append {a b : List Token} {word : Token} (ha : ∀ x ∈ a, isOwner x = false)
    (hword : isOwner word = true) :
    listed (a ++ word :: b) = (b.takeWhile fun token => !startsClause token).filter namesOwner := by
  have hskip : ∀ x ∈ a, (!isOwner x) = true := fun x hx => by rw [ha x hx]; rfl
  have hstop : ¬(!isOwner word) = true := by simp [hword]
  rw [listed, List.dropWhile_append_of_pos hskip,
    List.dropWhile_cons_of_neg (p := fun token => !isOwner token) hstop]
  rfl

theorem not_startsClause {token : Token} (h : namesOwner token = true) :
    startsClause token = false := by
  have hall : ∀ k ∈ OwnerNameTokens, ClauseKeywords.contains k = false := by decide
  exact hall _ (List.contains_iff_mem.mp h)

theorem takeWhile_startsClause {a b : List Token} (ha : ∀ x ∈ a, startsClause x = false) :
    ((a ++ b).takeWhile fun token => !startsClause token) =
      a ++ b.takeWhile fun token => !startsClause token :=
  List.takeWhile_append_of_pos fun x hx => by rw [ha x hx]; rfl

theorem listed_ne_nil_iff (tokens : List Token) : listed tokens ≠ [] ↔ NamesBehindOwner tokens := by
  constructor
  · intro h
    obtain ⟨name, hname⟩ := List.exists_mem_of_ne_nil _ h
    rw [listed, List.mem_filter] at hname
    have hsplit := List.takeWhile_append_dropWhile (p := fun token => !isOwner token) (l := tokens)
    have hfront : ∀ x ∈ tokens.takeWhile fun token => !isOwner token, isOwner x = false := by
      intro x hx
      simpa using List.mem_takeWhile_imp hx
    have hhead := List.head?_dropWhile_not (fun token => !isOwner token) tokens
    cases hbehind : tokens.dropWhile fun token => !isOwner token with
    | nil =>
        rw [hbehind] at hname
        cases hname.1
    | cons word rest =>
        rw [hbehind, List.drop_one, List.tail_cons] at hname
        rw [hbehind] at hsplit hhead
        obtain ⟨b, c, hbc⟩ := List.append_of_mem hname.1
        have hpass : ∀ x ∈ b, startsClause x = false := by
          intro x hx
          have hmem : x ∈ rest.takeWhile fun token => !startsClause token := by
            rw [hbc]
            exact List.mem_append_left _ hx
          simpa using List.mem_takeWhile_imp hmem
        obtain ⟨d, hrest⟩ : ∃ d, rest = b ++ name :: d := by
          have htake := List.takeWhile_append_dropWhile (p := fun token => !startsClause token)
            (l := rest)
          rw [hbc, List.append_assoc, List.cons_append] at htake
          exact ⟨_, htake.symm⟩
        rw [hrest] at hsplit
        refine ⟨_, word, b, name, d, hsplit.symm, hfront, ?_, hpass, hname.2⟩
        simpa using hhead
  · rintro ⟨a, word, b, name, c, rfl, ha, hword, hb, hname⟩
    have hkeep : (!startsClause name) = true := by rw [not_startsClause hname]; rfl
    rw [listed_append ha hword, takeWhile_startsClause hb,
      List.takeWhile_cons_of_pos (p := fun token => !startsClause token) hkeep,
      List.filter_append, List.filter_cons_of_pos hname]
    exact List.append_ne_nil_of_right_ne_nil _ (List.cons_ne_nil name _)

/-! ### The parts of a parsed query -/

theorem isOwner_iff (s : Symbol) : isOwner s.1 = true ↔ symbolType s = .OWNER := beq_iff_eq

theorem startsClause_iff (s : Symbol) :
    startsClause s.1 = true ↔ symbolType s ∈ ClauseKeywords := List.contains_iff_mem

/-- In an OWNER clause, all tokens but the word OWNER and the commas name owners. -/
theorem ownerListTypes_spec : ∀ k ∈ WireQueryParser.ownerListTypes, k ≠ TokenType.OWNER →
    ClauseKeywords.contains k = false ∧ OwnerNameTokens.contains k = (k != .COMMA) := by
  decide

/-- Behind the clauses that start with a keyword no owner is found. -/
theorem filter_rest (p : QueryParts) :
    (((p.rest.map Prod.fst).takeWhile fun token => !startsClause token).filter namesOwner) = [] := by
  cases hrest : p.rest with
  | nil => rfl
  | cons s rest =>
      have htype := p.rest_types s (by rw [hrest]; rfl)
      rw [List.map_cons]
      rcases htype with hkeyword | ⟨hsingle, hsemicolon⟩
      · have hstop : ¬(!startsClause s.1) = true := by
          rw [(startsClause_iff s).mpr hkeyword]
          simp
        rw [List.takeWhile_cons_of_neg (p := fun token => !startsClause token) hstop]
        rfl
      · rw [hrest] at hsingle
        cases hsingle
        have hname : namesOwner s.1 = false := by
          show OwnerNameTokens.contains (symbolType s) = false
          rw [hsemicolon]
          decide
        have hkeep : startsClause s.1 = false := by
          show ClauseKeywords.contains (symbolType s) = false
          rw [hsemicolon]
          decide
        simp [hkeep, hname]

/-- The tokens of a clause in front of a token that is the word OWNER. -/
theorem clause_front (c : OwnerClause) {l : List Symbol} (hl : l ⊆ c.list)
    (howner : ∀ s ∈ l, symbolType s ≠ .OWNER) :
    (∀ x ∈ l.map Prod.fst, startsClause x = false) ∧
      (l.map Prod.fst).filter namesOwner =
        (l.filter fun s => symbolType s != .COMMA).map Prod.fst := by
  constructor
  · intro x hx
    obtain ⟨s, hs, rfl⟩ := List.mem_map.mp hx
    exact (ownerListTypes_spec _ (c.list_types s (hl hs)) (howner s hs)).1
  · rw [List.filter_map]
    congr 1
    refine List.filter_congr fun s hs => ?_
    exact (ownerListTypes_spec _ (c.list_types s (hl hs)) (howner s hs)).2

theorem isOwner_of_names (c : OwnerClause) :
    (∀ name ∈ c.names, name.type ≠ .OWNER) ↔ ∀ s ∈ c.list, symbolType s ≠ .OWNER := by
  constructor
  · intro h s hs howner
    refine h s.1 (List.mem_map.mpr ⟨s, List.mem_filter.mpr ⟨hs, ?_⟩, rfl⟩) howner
    rw [howner]
    rfl
  · intro h name hname
    obtain ⟨s, hs, rfl⟩ := List.mem_map.mp hname
    exact h s (List.mem_filter.mp hs).1

/-- The owners behind an OWNER clause are those of the clause if and only if none of them is the
word OWNER. -/
theorem listed_clause (p : QueryParts) {c : OwnerClause} (hc : p.clause = some c) :
    (listed (p.behind.map Prod.fst)).map nameOf = p.names.map nameOf ↔
      ∀ name ∈ p.names, name.type ≠ .OWNER := by
  have hnames : p.names = c.names := by rw [QueryParts.names, hc]; rfl
  have hbehind : p.behind.map Prod.fst =
      [] ++ c.word.1 :: ((c.list.map Prod.fst) ++ p.rest.map Prod.fst) := by
    rw [QueryParts.behind, QueryParts.clauseSymbols, hc, List.map_append]
    rfl
  rw [hnames, hbehind, listed_append (List.forall_mem_nil _) ((isOwner_iff _).mpr c.word_type),
    isOwner_of_names]
  constructor
  · intro heq
    by_contra howner
    have hmem : TokenType.OWNER ∈ c.list.map symbolType := by
      by_contra hnot
      exact howner fun s hs hs' => hnot (List.mem_map.mpr ⟨s, hs, hs'⟩)
    obtain ⟨as, bs, hsplit, has⟩ := List.eq_append_cons_of_mem hmem
    obtain ⟨l, r, hlist, rfl, hr⟩ := List.map_eq_append_iff.mp hsplit
    obtain ⟨s, u, rfl, hs, _⟩ := List.map_eq_cons_iff.mp hr
    obtain ⟨hkeep, hfilter⟩ := clause_front c (l := l)
      (by rw [hlist]; exact List.subset_append_left _ _)
      fun s' hs' howner' => has (List.mem_map.mpr ⟨s', hs', howner'⟩)
    have hstop : ¬(!startsClause s.1) = true := by
      have hkeyword : startsClause s.1 = true := by
        rw [startsClause_iff, hs]
        decide
      simp [hkeyword]
    have hcomma : (symbolType s != .COMMA) = true := by
      rw [hs]
      rfl
    -- the names in front of the word are found, and no others
    rw [OwnerClause.names, hlist, List.map_append, List.append_assoc,
      takeWhile_startsClause hkeep, List.map_cons, List.cons_append,
      List.takeWhile_cons_of_neg (p := fun token => !startsClause token) hstop, List.append_nil,
      hfilter, List.filter_append,
      List.filter_cons_of_pos (p := fun s => symbolType s != .COMMA) hcomma] at heq
    have hlength := congrArg List.length heq
    simp only [List.length_map, List.length_append, List.length_cons] at hlength
    omega
  · intro howner
    obtain ⟨hkeep, hfilter⟩ := clause_front c (List.Subset.refl _) howner
    rw [takeWhile_startsClause hkeep, List.filter_append, filter_rest, List.append_nil, hfilter]
    rfl

/-- What stands behind the table is no dot. -/
theorem behind_head (p : QueryParts) : ∀ s ∈ p.behind.head?, symbolType s ≠ .DOT := by
  intro s hs hdot
  rw [QueryParts.behind, QueryParts.clauseSymbols] at hs
  cases hc : p.clause with
  | some c =>
      rw [hc] at hs
      cases hs
      rw [c.word_type] at hdot
      cases hdot
  | none =>
      rw [hc] at hs
      rcases p.rest_types s hs with h | ⟨_, h⟩ <;> rw [hdot] at h
      · exact absurd h (by decide)
      · cases h

/-- The reference of a parsed query: the owner in front of the table, or the owners that are listed
behind it. -/
theorem tableReference_parts (p : QueryParts) : tableReference (p.body.map Prod.fst) =
    some ⟨p.qualifier.elim ((listed (p.behind.map Prod.fst)).map nameOf) fun q => [nameOf q.1.1],
      nameOf p.table.1⟩ := by
  have hhead : (p.head.map Prod.fst).findIdx? (fun token => token.type == .FROM) = none := by
    rw [List.findIdx?_eq_none_iff]
    intro token htoken
    obtain ⟨s, hs, rfl⟩ := List.mem_map.mp htoken
    exact beq_eq_false_iff_ne.mpr (p.head_types s hs)
  have hfrom : (p.fromWord.1.type == TokenType.FROM) = true := beq_iff_eq.mpr p.from_type
  have hfind : (p.body.map Prod.fst).findIdx? (fun token => token.type == .FROM) =
      some p.head.length := by
    rw [QueryParts.body, List.map_append, List.findIdx?_append, hhead, List.map_cons,
      List.findIdx?_cons, if_pos hfrom, List.length_map, Option.none_or, Option.map_some,
      Nat.zero_add]
  have hdrop : (p.body.map Prod.fst).drop (p.head.length + 1) =
      (p.qualifierSymbols ++ p.table :: p.behind).map Prod.fst := by
    have happend : p.body.map Prod.fst = (p.head ++ [p.fromWord]).map Prod.fst ++
        (p.qualifierSymbols ++ p.table :: p.behind).map Prod.fst := by
      rw [QueryParts.body, ← List.map_append, List.append_assoc]
      rfl
    have hlength : p.head.length + 1 = ((p.head ++ [p.fromWord]).map Prod.fst).length := by
      rw [List.length_map, List.length_append]
      rfl
    rw [happend, hlength, List.drop_left]
  unfold tableReference
  rw [hfind]
  dsimp only
  rw [hdrop]
  cases hq : p.qualifier with
  | some q =>
      have hdot := p.dot_type q hq
      have hsymbols : p.qualifierSymbols = [q.1, q.2] := by
        rw [QueryParts.qualifierSymbols, hq]
        rfl
      rw [hsymbols]
      exact if_pos hdot
  | none =>
      have hsymbols : p.qualifierSymbols = [] := by
        rw [QueryParts.qualifierSymbols, hq]
        rfl
      have hbody : p.body.map Prod.fst =
          (p.head ++ [p.fromWord, p.table]).map Prod.fst ++ p.behind.map Prod.fst := by
        rw [QueryParts.body, hsymbols, ← List.map_append, List.append_assoc]
        rfl
      have hlisted : listedOwners (p.body.map Prod.fst) p.head.length =
          (listed (p.behind.map Prod.fst)).map nameOf := by
        rw [hbody, listedOwners_eq (by simp)]
      rw [hsymbols, hlisted]
      cases hbehind : p.behind with
      | nil => rfl
      | cons s rest =>
          have hdot := behind_head p s (by rw [hbehind]; rfl)
          cases rest with
          | nil => rfl
          | cons s' rest => exact if_neg hdot

/-! ### The owners of a query -/

/-- The tokens behind the word FROM and a table without an owner in front. -/
def behindTable (tokens : List Token) : List Token :=
  (tokens.dropWhile fun token => token.type != .FROM).drop 2

/-- The owners of a query are written so that its tokens show them: in front of the table or behind
it, but not both; no owner behind is the word OWNER; and without an OWNER clause no name stands
behind that word in its clause. -/
structure OwnersPlain (tokens : List Token) (tree : Tree) : Prop where
  qualified : ∀ owner table, WireQueryParser.tableReference tree = some (some owner, table) →
    ownerNames tree = []
  listed : ∀ table, WireQueryParser.tableReference tree = some (none, table) →
    ∀ name ∈ ownerNames tree, name.type ≠ .OWNER
  unlisted : ∀ table, WireQueryParser.tableReference tree = some (none, table) →
    ownerNames tree = [] → ¬NamesBehindOwner (behindTable tokens)

theorem behindTable_parts (p : QueryParts) (hq : p.qualifier = none) :
    behindTable (p.body.map Prod.fst) = p.behind.map Prod.fst := by
  have hbody : p.body.map Prod.fst =
      p.head.map Prod.fst ++ p.fromWord.1 :: p.table.1 :: p.behind.map Prod.fst := by
    rw [QueryParts.body, QueryParts.qualifierSymbols, hq, List.map_append]
    rfl
  have hskip : ∀ x ∈ p.head.map Prod.fst, (x.type != TokenType.FROM) = true := by
    intro x hx
    obtain ⟨s, hs, rfl⟩ := List.mem_map.mp hx
    exact bne_iff_ne.mpr (p.head_types s hs)
  have hstop : ¬(p.fromWord.1.type != TokenType.FROM) = true := by
    rw [bne_iff_ne, not_not]
    exact p.from_type
  rw [behindTable, hbody, List.dropWhile_append_of_pos hskip,
    List.dropWhile_cons_of_neg (p := fun token : Token => token.type != .FROM) hstop]
  rfl

/-- The tokens of a parsed text by its parts. -/
theorem parse_parts {t : Text} {tree : Tree} (h : (parse t).tree = some tree) :
    ∃ p : QueryParts, (lex t).tokens = p.body.map Prod.fst ∧
      WireQueryParser.tableReference tree = some (p.qualifier.map fun q => q.1.1, p.table.1) ∧
      ownerNames tree = p.names := by
  obtain ⟨p, hsymbols, htable, hnames⟩ := WireQueryParser.exists_parts h
  refine ⟨p, ?_, htable, hnames⟩
  have hmap := congrArg (List.map Prod.fst) hsymbols
  rw [symbols, List.zipIdx_map_fst, List.map_append] at hmap
  exact (List.append_inj' hmap rfl).1

theorem reference_iff {t : Text} {tree : Tree} (h : (parse t).tree = some tree) :
    tableReference (lex t).tokens = treeReference tree ↔ OwnersPlain (lex t).tokens tree := by
  obtain ⟨p, htokens, htable, hnames⟩ := parse_parts h
  rw [htokens, tableReference_parts, treeReference, htable, hnames, Option.map_some,
    Option.some_inj, QueryTableReference.mk.injEq, and_iff_left rfl]
  cases hq : p.qualifier with
  | some q =>
      rw [hq] at htable
      show [nameOf q.1.1] = nameOf q.1.1 :: p.names.map nameOf ↔ _
      rw [List.cons.injEq, and_iff_right rfl, eq_comm, List.map_eq_nil_iff]
      constructor
      · intro hnil
        refine ⟨fun _ _ _ => hnames.trans hnil, fun table hnone => ?_, fun table hnone => ?_⟩ <;>
        · rw [htable] at hnone
          cases hnone
      · exact fun hplain => hnames.symm.trans (hplain.qualified _ _ htable)
  | none =>
      have hbehind := behindTable_parts p hq
      rw [hq] at htable
      show (listed (p.behind.map Prod.fst)).map nameOf = p.names.map nameOf ↔ _
      cases hc : p.clause with
      | some c =>
          rw [listed_clause p hc]
          have hne : p.names ≠ [] := by
            rw [QueryParts.names, hc]
            exact p.names_ne_nil c hc
          constructor
          · intro howner
            refine ⟨fun owner table hsome => ?_, fun _ _ => ?_, fun _ _ hnil => ?_⟩
            · rw [htable] at hsome
              cases hsome
            · rw [hnames]
              exact howner
            · exact absurd (hnames.symm.trans hnil) hne
          · intro hplain
            rw [← hnames]
            exact hplain.listed _ htable
      | none =>
          have hnil : p.names = [] := by
            rw [QueryParts.names, hc]
            rfl
          rw [hnil, List.map_nil, List.map_eq_nil_iff, ← hbehind]
          constructor
          · intro hlisted
            refine ⟨fun owner table hsome => ?_, fun _ _ => ?_, fun _ _ _ hbehindOwner => ?_⟩
            · rw [htable] at hsome
              cases hsome
            · rw [hnames, hnil]
              exact List.forall_mem_nil _
            · exact (listed_ne_nil_iff _).mpr hbehindOwner hlisted
          · intro hplain
            by_contra hlisted
            exact hplain.unlisted _ htable (hnames.trans hnil) ((listed_ne_nil_iff _).mp hlisted)

/-! ### The word at the cursor -/

theorem stop_of_pass {before t : Text} (ht : t ≠ [])
    (h : (Utf8.endsHigh before && Utf8.startsLow t) = false) :
    (Spot.start.pass before).index + Utf8.points t - 1 + 1 = Utf8.points (before ++ t) := by
  have hpos := Utf8.points_pos ht
  rw [Spot.start_pass, Utf8.points_append h]
  exact Nat.sub_add_cancel (Nat.le_add_left_of_le hpos)

theorem eq_of_tokenOf {p : Piece TokenType CodeUnit} {token : Token} (h : tokenOf p = some token) :
    p = .token token.type token.text := by
  cases p with
  | token k t => cases k <;> cases h <;> rfl
  | stray t => cases h

/-- The offset behind a token counts the characters up to its end. -/
theorem stop_of_mem {w : Text} {ps : List (Piece TokenType CodeUnit)} (h : Scanned w ps) :
    ∀ before : Text, (Utf8.endsHigh before && Utf8.startsLow w) = false →
      ∀ placed ∈ placedTokens (Spot.start.pass before) ps, ∃ u v, w = u ++ v ∧
        placed.stop + 1 = Utf8.points (before ++ u) ∧
        (v = [] → ps.getLast? = some (.token placed.token.type placed.token.text)) := by
  induction h with
  | nil => exact fun _ _ placed hplaced => absurd hplaced List.not_mem_nil
  | @piece p rest ps _ hne hboundary hpieces ih =>
      intro before hbefore placed hplaced
      rw [Utf8.startsLow_append hne] at hbefore
      rw [placedTokens] at hplaced
      have hrest := ih (before ++ p.text) (by rw [Utf8.endsHigh_append hne]; exact hboundary) placed
      rw [Spot.pass_append Spot.start hbefore] at hrest
      have htail : placed ∈ placedTokens ((Spot.start.pass before).pass p.text) ps →
          ∃ u v, p.text ++ rest = u ++ v ∧ placed.stop + 1 = Utf8.points (before ++ u) ∧
            (v = [] → (p :: ps).getLast? =
              some (.token placed.token.type placed.token.text)) := by
        intro hmem
        obtain ⟨u, v, rfl, hstop, hlast⟩ := hrest hmem
        refine ⟨p.text ++ u, v, (List.append_assoc _ _ _).symm, ?_, fun hv => ?_⟩
        · rw [hstop, List.append_assoc]
        · rw [List.getLast?_cons, hlast hv]
          rfl
      cases hp : tokenOf p with
      | none =>
          rw [hp] at hplaced
          exact htail hplaced
      | some token =>
          rw [hp, List.mem_cons] at hplaced
          obtain rfl := eq_of_tokenOf hp
          rcases hplaced with rfl | hmem
          · refine ⟨token.text, rest, rfl, stop_of_pass hne hbefore, fun hnil => ?_⟩
            cases hpieces with
            | nil => rfl
            | piece _ hne' _ _ => exact absurd (List.append_eq_nil_iff.mp hnil).1 hne'
          · exact htail hmem

/-- A token that ends a text is the last one, and its offset counts the characters of the text. -/
theorem stop_of_last {w : Text} {ps : List (Piece TokenType CodeUnit)} (h : Scanned w ps)
    {k : TokenType} (hk : k ≠ .WHITESPACE) {t : Text} :
    ∀ before : Text, (Utf8.endsHigh before && Utf8.startsLow w) = false →
      ps.getLast? = some (.token k t) →
      ∃ placed, (placedTokens (Spot.start.pass before) ps).getLast? = some placed ∧
        placed.token = ⟨k, t⟩ ∧ placed.stop + 1 = Utf8.points (before ++ w) := by
  induction h with
  | nil =>
      intro _ _ hlast
      cases hlast
  | @piece p rest ps _ hne hboundary hpieces ih =>
      intro before hbefore hlast
      rw [Utf8.startsLow_append hne] at hbefore
      rw [placedTokens]
      cases hpieces with
      | nil =>
          cases hlast
          rw [tokenOf_token hk, List.append_nil]
          exact ⟨_, rfl, rfl, stop_of_pass hne hbefore⟩
      | @piece p' rest' ps' hnext' hne' hboundary' hpieces' =>
          rw [List.getLast?_cons_cons] at hlast
          obtain ⟨placed, hplaced, htoken, hstop⟩ := ih (before ++ p.text)
            (by rw [Utf8.endsHigh_append hne]; exact hboundary) hlast
          rw [Spot.pass_append Spot.start hbefore] at hplaced
          refine ⟨placed, ?_, htoken, ?_⟩
          · cases tokenOf p with
            | none => exact hplaced
            | some token =>
                dsimp only
                rw [List.getLast?_cons, hplaced]
                rfl
          · rw [hstop, List.append_assoc]

theorem isWordType_blank : isWordType .WHITESPACE = false := by decide

/-- The word at the cursor is found if and only if nothing in front of it is half of a pair. -/
theorem typed_eq_iff {t : Text} {offset : ℕ} (h : offset ≤ t.length) :
    typed t offset = wordAt t offset ↔
      ((wordAt t offset).isSome = true → ∀ i, ¬Utf8.Inside (t.take offset) i) := by
  have hlength : (t.take offset).length = offset := List.length_take_of_le h
  have hscanned := scanned_scan (t.take offset)
  have hpoints := Utf8.points_eq_length_iff (t.take offset)
  rw [hlength] at hpoints
  rw [← hpoints]
  -- a word that is found ends the text, all of whose characters are single units
  have hfound : ∀ token, typed t offset = some token →
      wordAt t offset = some token ∧ Utf8.points (t.take offset) = offset := by
    intro token htyped
    rw [typed] at htyped
    split at htyped
    · cases htyped
    · next last hlast =>
        split at htyped
        · next hword =>
            cases htyped
            obtain ⟨u, v, hsplit, hstop, hend⟩ := stop_of_mem hscanned [] rfl last
              (List.mem_of_getLast? hlast)
            have hle : Utf8.points u ≤ u.length := Utf8.points_le_length u
            have hu : Utf8.points u = offset := hstop.symm.trans hword.1
            have hv : v = [] := by
              apply List.eq_nil_of_length_eq_zero
              have hsum := congrArg List.length hsplit
              rw [List.length_append, hlength] at hsum
              omega
            refine ⟨?_, ?_⟩
            · rw [wordAt, hend hv]
              exact if_pos hword.2
            · rw [hsplit, hv, List.append_nil, hu]
        · cases htyped
  constructor
  · intro heq hsome
    obtain ⟨token, htoken⟩ := Option.isSome_iff_exists.mp hsome
    exact (hfound token (heq.trans htoken)).2
  · intro hword
    cases hat : wordAt t offset with
    | none =>
        by_contra hsome
        obtain ⟨token, htoken⟩ := Option.ne_none_iff_exists'.mp hsome
        rw [(hfound token htoken).1] at hat
        cases hat
    | some token =>
        have hcount : Utf8.points (t.take offset) = offset := hword (by rw [hat]; rfl)
        rw [wordAt] at hat
        split at hat
        · next k u hlast =>
            split at hat
            · next hk =>
                cases hat
                have hblank : k ≠ .WHITESPACE := by
                  rintro rfl
                  rw [isWordType_blank] at hk
                  cases hk
                obtain ⟨placed, hplaced, htoken, hstop⟩ := stop_of_last hscanned hblank [] rfl hlast
                have hplaced' : (lexPlaced (t.take offset)).1.getLast? = some placed := hplaced
                rw [typed, hplaced']
                dsimp only
                rw [htoken]
                exact if_pos ⟨hstop.trans hcount, hk⟩
            · cases hat
        · cases hat

/-- A completion reads of a text what the grammar does, if and only if the owners of the query are
written plainly and no word has half of a pair in front of the cursor at its end. -/
theorem agrees_iff (t : Text) : Agrees t ↔
    (∀ tree, (parse t).tree = some tree → (parse t).hasDiagnostics = false →
      OwnersPlain (lex t).tokens tree) ∧
    ∀ offset ≤ t.length, (wordAt t offset).isSome = true → ∀ i, ¬Utf8.Inside (t.take offset) i := by
  constructor
  · intro h
    exact ⟨fun tree htree hclean => (reference_iff htree).mp (h.reference tree htree hclean),
      fun offset hoffset => (typed_eq_iff hoffset).mp (h.typed offset hoffset)⟩
  · rintro ⟨hplain, hwords⟩
    exact ⟨fun tree htree hclean => (reference_iff htree).mpr (hplain tree htree hclean),
      fun offset hoffset => (typed_eq_iff hoffset).mpr (hwords offset hoffset)⟩

end CompletionProvider

end WireTools

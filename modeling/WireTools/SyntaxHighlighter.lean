import Mathlib.Data.List.Nodup
import WireTools.LexerPositions
import WireTools.QueryFormatter

/-! # The highlighter

Every token and every error of the lexer is marked with a kind.

* `classify` is the list of the marks, ordered by their offsets;
* `Occurrence`: what is marked, as a text with all that stands before it.  `occurrences` reads them
  off the pieces of a scan, left to right;
* `classify_eq`: the marks are those of the occurrences, in their order, and count characters;
* `occurrences_apart`: an occurrence stands in the text behind the ones before it. -/

namespace WireTools

inductive HighlightTokenKind where
  | keyword
  | aggregate
  | identifier
  | quotedIdentifier
  | string
  | number
  | literal
  | operator
  | punctuation
  | error
  deriving DecidableEq

namespace WireQueryTokens

def Operators : List TokenType := [.EQ, .NE, .LE, .LT, .GE, .GT, .PLUS, .MINUS, .STAR]

def Punctuation : List TokenType := [.LPAREN, .RPAREN, .DOT, .COMMA, .SEMICOLON]

end WireQueryTokens

/-- Offsets from zero on, the last one included; line and column from one on. -/
structure HighlightToken where
  kind : HighlightTokenKind
  start : ℕ
  stop : ℕ
  line : ℕ
  column : ℕ
  deriving DecidableEq

namespace SyntaxHighlighter

open WireQueryTokens
open WireQueryLexer (scanner)

def kindOf (type : TokenType) : HighlightTokenKind :=
  if Aggregates.contains type then .aggregate
  else if Literals.contains type then .literal
  else if Keywords.contains type then .keyword
  else if Operators.contains type then .operator
  else if Punctuation.contains type then .punctuation
  else match type with
    | .STRING => .string
    | .DECIMAL | .INTEGER => .number
    | .QUOTED_IDENTIFIER => .quotedIdentifier
    | .IDENTIFIER => .identifier
    | _ => .error

def ofToken (t : PlacedToken) : HighlightToken :=
  ⟨kindOf t.token.type, t.start, t.stop, t.line, t.column + 1⟩

def ofError (e : LexerErrorSpan) : HighlightToken :=
  ⟨.error, e.start, e.stop, e.line, e.column⟩

def classify (t : Text) : List HighlightToken :=
  let lexed := lexPlaced t
  (lexed.1.map ofToken ++ lexed.2.map ofError).mergeSort
    fun left right => decide (left.start ≤ right.start)

/-! ### What is marked -/

/-- A marked text, and all that stands before it. -/
structure Occurrence where
  kind : HighlightTokenKind
  before : Text
  text : Text

/-- What an error covers: the characters that were read, or the first one. -/
def unread (t : Text) : Text :=
  ((Utf8.characters t).take (max 1 (Utf8.points (t.take (scanner.reach t))))).flatten

def occurrenceOf (before : Text) : Piece TokenType CodeUnit → Option Occurrence
  | .token .WHITESPACE _ => none
  | .token k t => some ⟨kindOf k, before, t⟩
  | .stray t => some ⟨.error, before, unread t⟩

def occurrencesFrom (before : Text) : List (Piece TokenType CodeUnit) → List Occurrence
  | [] => []
  | p :: ps => (occurrenceOf before p).toList ++ occurrencesFrom (before ++ p.text) ps

def occurrences (t : Text) : List Occurrence :=
  occurrencesFrom [] (scanner.scan t)

/-- The mark, in characters. -/
def Occurrence.mark (o : Occurrence) : HighlightToken where
  kind := o.kind
  start := Utf8.points o.before
  stop := Utf8.points o.before + Utf8.points o.text - 1
  line := 1 + o.before.count newline
  column := Utf8.points (Lines.rest newline o.before) + 1

/-! ### Pieces of a text -/

/-- A text in pieces, each of which ends behind a whole character. -/
inductive Scanned : Text → List (Piece TokenType CodeUnit) → Prop where
  | nil : Scanned [] []
  | piece {p : Piece TokenType CodeUnit} {rest : Text} {ps : List (Piece TokenType CodeUnit)}
      (next : scanner.next (p.text ++ rest) = p) (ne_nil : p.text ≠ [])
      (boundary : (Utf8.endsHigh p.text && Utf8.startsLow rest) = false)
      (pieces : Scanned rest ps) : Scanned (p.text ++ rest) (p :: ps)

theorem scanned_scan (w : Text) : Scanned w (scanner.scan w) := by
  induction hn : w.length using Nat.strong_induction_on generalizing w with
  | _ n ih =>
      by_cases hw : w = []
      · rw [hw]
        exact .nil
      · have hne := Scanner.next_text_ne_nil scanner hw
        have hpos := List.length_pos_iff.mpr hne
        have hlength := List.length_pos_iff.mpr hw
        have hrest := ih _ (by rw [List.length_drop]; omega)
          (w.drop (scanner.next w).text.length) rfl
        have happend := scanner.next_text_append w
        have hpiece := Scanned.piece (by rw [happend]) hne (WireQueryLexer.boundary_next w) hrest
        rw [happend] at hpiece
        rw [Scanner.scan_of_ne_nil hw]
        exact hpiece

/-! ### The marks of the occurrences -/

theorem tokenOf_token {k : TokenType} (hk : k ≠ .WHITESPACE) (t : Text) :
    tokenOf (.token k t) = some ⟨k, t⟩ := by
  cases k <;> first | rfl | exact absurd rfl hk

theorem occurrenceOf_token {k : TokenType} (hk : k ≠ .WHITESPACE) (before t : Text) :
    occurrenceOf before (.token k t) = some ⟨kindOf k, before, t⟩ := by
  cases k <;> first | rfl | exact absurd rfl hk

theorem points_unread {t : Text} (ht : t ≠ []) :
    Utf8.points (unread t) = max 1 (Utf8.points (t.take (scanner.reach t))) := by
  have hpos := Utf8.points_pos ht
  have hle := Utf8.points_le_append (t.take (scanner.reach t)) (t.drop (scanner.reach t))
  rw [List.take_append_drop] at hle
  rw [unread, Utf8.points, Utf8.characters_flatten_take, List.length_take]
  exact Nat.min_eq_left (Nat.max_le.mpr ⟨hpos, hle⟩)

theorem mark_of_token (before : Text) (token : Token) :
    ofToken ⟨token, (Spot.start.pass before).index,
        (Spot.start.pass before).index + Utf8.points token.text - 1,
        (Spot.start.pass before).line, (Spot.start.pass before).column⟩ =
      Occurrence.mark ⟨kindOf token.type, before, token.text⟩ := by
  rw [Spot.start_pass]
  rfl

theorem mark_of_error (before : Text) {t : Text} (ht : t ≠ []) :
    ofError (errorSpan (Spot.start.pass before) t) =
      Occurrence.mark ⟨.error, before, unread t⟩ := by
  rw [Spot.start_pass, Occurrence.mark, points_unread ht, errorSpan, ofError]
  simp only [HighlightToken.mk.injEq, true_and, and_true]
  omega

/-- The marks of the tokens and those of the errors are the marks of the occurrences. -/
theorem marks_perm {w : Text} {ps : List (Piece TokenType CodeUnit)} (h : Scanned w ps) :
    ∀ before : Text, (Utf8.endsHigh before && Utf8.startsLow w) = false →
      ((placedTokens (Spot.start.pass before) ps).map ofToken ++
        (errorSpans (Spot.start.pass before) ps).map ofError).Perm
        ((occurrencesFrom before ps).map Occurrence.mark) := by
  induction h with
  | nil => exact fun _ _ => List.Perm.nil
  | @piece p rest ps _ hne hboundary _ ih =>
      intro before hbefore
      rw [Utf8.startsLow_append hne] at hbefore
      have hrest := ih (before ++ p.text)
        (by rw [Utf8.endsHigh_append hne]; exact hboundary)
      rw [Spot.pass_append Spot.start hbefore] at hrest
      rw [placedTokens, errorSpans, occurrencesFrom]
      cases p with
      | token k t =>
          by_cases hk : k = .WHITESPACE
          · rw [hk] at hrest ⊢
            exact hrest
          · rw [tokenOf_token hk, occurrenceOf_token hk]
            dsimp only [errorOf, Option.toList]
            rw [List.map_cons, mark_of_token, List.singleton_append, List.map_cons]
            exact hrest.cons _
      | stray t =>
          have ht : t ≠ [] := hne
          dsimp only [tokenOf, errorOf, occurrenceOf, Option.toList]
          rw [List.map_cons, mark_of_error before ht, List.singleton_append, List.map_cons]
          exact List.perm_middle.trans (hrest.cons _)

/-! ### Where the occurrences stand -/

theorem unread_prefix (t : Text) : unread t <+: t := by
  refine ⟨((Utf8.characters t).drop (max 1 (Utf8.points (t.take (scanner.reach t))))).flatten, ?_⟩
  rw [unread, ← List.flatten_append, List.take_append_drop, Utf8.flatten_characters]

/-- An occurrence is the start of its piece. -/
theorem occurrenceOf_spec {before : Text} {p : Piece TokenType CodeUnit} {o : Occurrence}
    (hne : p.text ≠ []) (h : occurrenceOf before p = some o) :
    o.before = before ∧ o.text ≠ [] ∧ o.text <+: p.text := by
  cases p with
  | token k t =>
      by_cases hk : k = .WHITESPACE
      · rw [hk] at h
        cases h
      · rw [occurrenceOf_token hk] at h
        cases h
        exact ⟨rfl, hne, List.prefix_refl t⟩
  | stray t =>
      cases h
      refine ⟨rfl, fun hnil => ?_, unread_prefix t⟩
      have hpoints := points_unread (t := t) hne
      have hzero : Utf8.points (unread t) = 0 := congrArg Utf8.points hnil
      omega

/-- White space reads a line feed. -/
theorem munch_newline (w : Text) : ∃ k n, munch scanner.rule scanner.order (newline :: w) =
    some (k, n + 1) := by
  have hstep : (scanner.rule .WHITESPACE).step (scanner.rule .WHITESPACE).start newline =
      some true := rfl
  obtain ⟨n, hlongest⟩ := Recognizer.exists_longest hstep rfl w
  have hmem : TokenType.WHITESPACE ∈ scanner.order := by decide
  cases hmunch : munch scanner.rule scanner.order (newline :: w) with
  | none => exact absurd hmunch (munch_ne_none hmem hlongest)
  | some best =>
      obtain ⟨k, m⟩ := best
      have hle := munch_le hmunch hmem hlongest
      obtain ⟨j, rfl⟩ := Nat.exists_eq_succ_of_ne_zero (show m ≠ 0 by omega)
      exact ⟨k, j, rfl⟩

/-- No occurrence starts with a line feed. -/
theorem head_of_next {w : Text} {o : Occurrence} {before : Text}
    (h : occurrenceOf before (scanner.next w) = some o) : ∀ c ∈ w.head?, c ≠ newline := by
  rintro c hc rfl
  obtain ⟨u, rfl⟩ : ∃ u, w = newline :: u := by
    cases w with
    | nil => cases hc
    | cons d u =>
        cases hc
        exact ⟨u, rfl⟩
  obtain ⟨k, n, hmunch⟩ := munch_newline u
  have hnext : scanner.next (newline :: u) = .token k ((newline :: u).take (n + 1)) := by
    rw [Scanner.next, hmunch]
  have hread := (Recognizer.longest_accepts (munch_longest hmunch).2).2
  have haccepts : (WireQueryLexer.rule k).Accepts (newline :: u.take n) := hread
  have hk := WireQueryLexer.eq_of_reads_blank (c := newline) (by decide) haccepts.reads_first
  rw [hnext, hk] at h
  cases h

/-- An occurrence in a text. -/
structure Occurrence.In (t : Text) (o : Occurrence) : Prop where
  ne_nil : o.text ≠ []
  isPrefix : o.before ++ o.text <+: t
  boundary : (Utf8.endsHigh o.before && Utf8.startsLow o.text) = false
  head : ∀ c ∈ o.text.head?, c ≠ newline

theorem startsLow_of_append {a b : Text} (ha : a ≠ []) (h : a <+: b) :
    Utf8.startsLow a = Utf8.startsLow b := by
  obtain ⟨x, rfl⟩ := h
  exact (Utf8.startsLow_append ha).symm

theorem in_of_mem {w : Text} {ps : List (Piece TokenType CodeUnit)} (h : Scanned w ps) :
    ∀ before : Text, (Utf8.endsHigh before && Utf8.startsLow w) = false →
      ∀ o ∈ occurrencesFrom before ps, o.In (before ++ w) ∧ before <+: o.before := by
  induction h with
  | nil => exact fun _ _ o ho => absurd ho List.not_mem_nil
  | @piece p rest ps hnext hne hboundary _ ih =>
      intro before hbefore o ho
      rw [occurrencesFrom, List.mem_append, Option.mem_toList] at ho
      rcases ho with ho | ho
      · obtain ⟨rfl, htext, hprefix⟩ := occurrenceOf_spec hne ho
        have hstarts := hprefix.trans (List.prefix_append p.text rest)
        refine ⟨⟨htext, (List.prefix_append_right_inj _).mpr hstarts, ?_, ?_⟩, List.prefix_refl _⟩
        · rw [startsLow_of_append htext hstarts]
          exact hbefore
        · obtain ⟨x, hx⟩ := hstarts
          rw [← hnext, ← hx] at ho
          have hhead := head_of_next ho
          rw [List.head?_append_of_ne_nil _ htext] at hhead
          exact hhead
      · obtain ⟨hin, hprefix⟩ := ih (before ++ p.text)
          (by rw [Utf8.endsHigh_append hne]; exact hboundary) o ho
        rw [List.append_assoc] at hin
        exact ⟨hin, (List.prefix_append before p.text).trans hprefix⟩

/-- Behind an occurrence comes the next one. -/
theorem occurrences_apart {w : Text} {ps : List (Piece TokenType CodeUnit)} (h : Scanned w ps) :
    ∀ before : Text, (Utf8.endsHigh before && Utf8.startsLow w) = false →
      (occurrencesFrom before ps).Pairwise fun o o' => o.before ++ o.text <+: o'.before := by
  induction h with
  | nil => exact fun _ _ => List.Pairwise.nil
  | @piece p rest ps _ hne hboundary hpieces ih =>
      intro before hbefore
      have hrest : (Utf8.endsHigh (before ++ p.text) && Utf8.startsLow rest) = false := by
        rw [Utf8.endsHigh_append hne]
        exact hboundary
      rw [occurrencesFrom, List.pairwise_append]
      refine ⟨?_, ih _ hrest, ?_⟩
      · cases occurrenceOf before p with
        | none => exact List.Pairwise.nil
        | some o => exact List.pairwise_singleton _ o
      · intro o ho o' ho'
        obtain ⟨rfl, _, hprefix⟩ := occurrenceOf_spec hne (Option.mem_toList.mp ho)
        have hbehind := (in_of_mem hpieces _ hrest o' ho').2
        exact ((List.prefix_append_right_inj _).mpr hprefix).trans hbehind

theorem occurrence_in {t : Text} {o : Occurrence} (h : o ∈ occurrences t) : o.In t :=
  (in_of_mem (scanned_scan t) [] rfl o h).1

/-! ### The marks in order -/

theorem Occurrence.In.start_lt {t : Text} {o o' : Occurrence} (h : o.In t)
    (hapart : o.before ++ o.text <+: o'.before) : o.mark.start < o'.mark.start := by
  obtain ⟨x, hx⟩ := hapart
  have hpoints := Utf8.points_append h.boundary
  have hpos := Utf8.points_pos h.ne_nil
  have hle := Utf8.points_le_append (o.before ++ o.text) x
  rw [hx, hpoints] at hle
  show Utf8.points o.before < Utf8.points o'.before
  omega

/-- The offsets of the marks increase. -/
theorem marks_sorted (t : Text) :
    ((occurrences t).map Occurrence.mark).Pairwise fun m m' => m.start < m'.start := by
  rw [List.pairwise_map]
  refine List.Pairwise.imp_of_mem (fun ho _ hapart => ?_)
    (occurrences_apart (scanned_scan t) [] rfl)
  exact (occurrence_in ho).start_lt hapart

theorem classify_eq (t : Text) : classify t = (occurrences t).map Occurrence.mark := by
  have hperm := marks_perm (scanned_scan t) [] rfl
  have hsorted := marks_sorted t
  have hstart : Spot.start.pass [] = Spot.start := rfl
  rw [hstart] at hperm
  rw [classify]
  refine List.Perm.eq_of_pairwise ?_ ?_
    (hsorted.imp fun h => decide_eq_true (Nat.le_of_lt h))
    ((List.mergeSort_perm _ _).trans hperm)
  · intro m m' hm hm' hle hle'
    have hnodup : (((occurrences t).map Occurrence.mark).map HighlightToken.start).Nodup :=
      List.pairwise_map.mpr (hsorted.imp Nat.ne_of_lt)
    rw [List.mem_mergeSort] at hm
    rw [decide_eq_true_eq] at hle hle'
    exact List.inj_on_of_nodup_map hnodup (hperm.mem_iff.mp hm) hm' (Nat.le_antisymm hle hle')
  · refine List.pairwise_mergeSort (fun a b c hab hbc => ?_) (fun a b => ?_) _
    · rw [decide_eq_true_eq] at hab hbc ⊢
      omega
    · rw [Bool.or_eq_true, decide_eq_true_eq, decide_eq_true_eq]
      omega

end SyntaxHighlighter

end WireTools

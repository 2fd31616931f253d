import WireTools.SyntaxHighlighter

/-! # Semantic tokens

The marks of the highlighter as the numbers that an editor reads, each position relative to the
one before.

* `encode` writes five numbers for a mark and `decode` reads them as the editor does;
  `decode_encode`: it reads the line and the column of each mark, whichever marks are written;
* `Marks`: the editor finds every token of the lexer where it stands, in its own units;
* `Occurrence.Aligned`: no pair stands before a token on its line, and its offsets, which count
  characters, cut out of the units of the text a first line as long as its own;
* `marks_iff`: the editor finds every token if and only if every token is aligned;
  `marks_of_no_pair`: in a text without pairs all of them are. -/

namespace WireTools

namespace SemanticTokens

open SyntaxHighlighter

/-! ### Relative positions -/

def TokenTypes : List HighlightTokenKind :=
  [.keyword, .aggregate, .identifier, .quotedIdentifier, .string, .number, .literal, .operator,
    .punctuation, .error]

/-- Where a line feed stands from a position on. -/
def indexOfNewline (t : Text) (start : ℕ) : Option ℕ :=
  ((t.drop start).idxOf? newline).map fun i => start + i

/-- How much of a mark is encoded: a token of several lines is clipped to the first. -/
def clippedLength (t : Text) (token : HighlightToken) : ℕ :=
  let stop := match indexOfNewline t token.start with
    | some i => if i ≤ token.stop then i else token.stop + 1
    | none => token.stop + 1
  max 1 (stop - token.start)

/-- What is encoded of the marks, behind one at a position. -/
def encodeFrom (t : Text) (previousLine previousColumn : ℤ) : List HighlightToken → List ℤ
  | [] => []
  | token :: tokens =>
      let line : ℤ := token.line - 1
      let column : ℤ := token.column - 1
      let deltaLine := line - previousLine
      let deltaStart := if deltaLine = 0 then column - previousColumn else column
      deltaLine :: deltaStart :: clippedLength t token :: TokenTypes.idxOf token.kind :: 0 ::
        encodeFrom t line column tokens

/-- The numbers of an array of unsigned words: `encode_range` has them in the range. -/
def encode (t : Text) (tokens : List HighlightToken) : List ℤ :=
  encodeFrom t 0 0 tokens

def withinLines (tokens : List HighlightToken) (startLineNumber endLineNumber : ℕ) :
    List HighlightToken :=
  tokens.filter fun token => startLineNumber ≤ token.line && token.line ≤ endLineNumber

/-- What an editor marks: line and column from zero on. -/
structure Place where
  line : ℤ
  column : ℤ
  length : ℤ
  type : ℤ
  deriving DecidableEq

/-- The editor reads five numbers at a time. -/
def decodeFrom (line column : ℤ) : List ℤ → List Place
  | deltaLine :: deltaStart :: length :: type :: _ :: data =>
      let place : Place := ⟨line + deltaLine,
        if deltaLine = 0 then column + deltaStart else deltaStart, length, type⟩
      place :: decodeFrom place.line place.column data
  | _ => []

def decode (data : List ℤ) : List Place :=
  decodeFrom 0 0 data

/-- A mark as the editor reads it. -/
def placeOf (t : Text) (token : HighlightToken) : Place :=
  ⟨token.line - 1, token.column - 1, clippedLength t token, TokenTypes.idxOf token.kind⟩

theorem decodeFrom_encodeFrom (t : Text) (tokens : List HighlightToken) (line column : ℤ) :
    decodeFrom line column (encodeFrom t line column tokens) = tokens.map (placeOf t) := by
  induction tokens generalizing line column with
  | nil => rfl
  | cons token tokens ih =>
      have hline : line + ((token.line : ℤ) - 1 - line) = token.line - 1 := by omega
      have hcolumn : (if (token.line : ℤ) - 1 - line = 0 then
          column + (if (token.line : ℤ) - 1 - line = 0 then (token.column : ℤ) - 1 - column
            else token.column - 1)
          else (if (token.line : ℤ) - 1 - line = 0 then (token.column : ℤ) - 1 - column
            else token.column - 1)) = token.column - 1 := by
        split <;> omega
      rw [encodeFrom, decodeFrom]
      dsimp only
      rw [hline, hcolumn, ih, List.map_cons, placeOf]

/-- The marks are in order, none before a position. -/
structure Ordered (line column : ℤ) (tokens : List HighlightToken) : Prop where
  sorted : tokens.Pairwise fun m m' => m.line < m'.line ∨ m.line = m'.line ∧ m.column ≤ m'.column
  behind : ∀ m ∈ tokens, line < (m.line : ℤ) - 1 ∨
    line = (m.line : ℤ) - 1 ∧ column ≤ (m.column : ℤ) - 1

/-- Nothing is negative, and nothing longer than what the marks are bounded by. -/
theorem encodeFrom_range {t : Text} {tokens : List HighlightToken} {bound : ℕ}
    (hbound : ∀ m ∈ tokens, m.line ≤ bound ∧ m.column ≤ bound ∧ 1 ≤ m.column ∧
      clippedLength t m ≤ bound)
    {line column : ℤ} (hline : 0 ≤ line) (hcolumn : 0 ≤ column)
    (h : Ordered line column tokens) :
    ∀ n ∈ encodeFrom t line column tokens, 0 ≤ n ∧ n ≤ bound + 9 := by
  induction tokens generalizing line column with
  | nil => exact fun n hn => absurd hn List.not_mem_nil
  | cons token tokens ih =>
      obtain ⟨hsorted, hbehind⟩ := h
      rw [List.pairwise_cons] at hsorted
      rw [List.forall_mem_cons] at hbound hbehind
      have htype : TokenTypes.idxOf token.kind ≤ 9 := by
        cases token.kind <;> decide
      have hordered : Ordered (token.line - 1) (token.column - 1) tokens :=
        ⟨hsorted.2, fun m hm => by have := hsorted.1 m hm; omega⟩
      have hrest := ih hbound.2 (by omega) (by omega) hordered
      rw [encodeFrom]
      simp only [List.forall_mem_cons]
      refine ⟨by omega, ?_, by omega, by omega, by omega, hrest⟩
      split <;> omega

/-- Every mark is read where it says. -/
theorem decode_encode (t : Text) (tokens : List HighlightToken) :
    decode (encode t tokens) = tokens.map (placeOf t) :=
  decodeFrom_encodeFrom t tokens 0 0

/-- The marks of a range of lines are read where they are read among all. -/
theorem decode_withinLines (t : Text) (tokens : List HighlightToken) (first last : ℕ) :
    decode (encode t (withinLines tokens first last)) =
      (decode (encode t tokens)).filter fun p =>
        (first : ℤ) ≤ p.line + 1 && p.line + 1 ≤ (last : ℤ) := by
  rw [decode_encode, decode_encode, withinLines, List.filter_map]
  congr 1
  refine List.filter_congr fun token _ => ?_
  rw [Function.comp_apply, placeOf, Bool.eq_iff_iff]
  simp only [Bool.and_eq_true, decide_eq_true_eq]
  omega

/-! ### Lines of the text -/

/-- The first line of a text. -/
def firstLine (t : Text) : Text :=
  t.takeWhile fun c => decide (c ≠ newline)

theorem length_firstLine_take (w : Text) (n : ℕ) (hn : n ≤ w.length) :
    (firstLine (w.take n)).length = ((w.idxOf? newline).map fun i => min i n).getD n := by
  induction w generalizing n with
  | nil =>
      rw [List.length_nil, Nat.le_zero] at hn
      rw [hn]
      rfl
  | cons c w ih =>
      cases n with
      | zero =>
          rw [List.take_zero]
          cases (c :: w).idxOf? newline with
          | none => rfl
          | some i => exact (Nat.min_zero i).symm
      | succ n =>
          rw [List.take_succ_cons, firstLine, List.takeWhile_cons, List.idxOf?_cons]
          by_cases hc : c = newline
          · rw [hc]
            simp
          · have hbeq : (c == newline) = false := beq_eq_false_iff_ne.mpr hc
            rw [if_pos (decide_eq_true hc), hbeq, List.length_cons]
            show (firstLine (w.take n)).length + 1 = _
            rw [ih n (Nat.le_of_succ_le_succ hn)]
            cases w.idxOf? newline with
            | none => rfl
            | some i => exact (Nat.succ_min_succ i n).symm

/-- The length that is encoded, of the units at the offsets of the mark. -/
theorem clippedLength_eq (t : Text) (token : HighlightToken) (hstart : token.start ≤ token.stop)
    (hstop : token.stop < t.length) : clippedLength t token = max 1
      (firstLine ((t.drop token.start).take (token.stop + 1 - token.start))).length := by
  rw [length_firstLine_take _ _ (by rw [List.length_drop]; omega), clippedLength, indexOfNewline]
  cases (t.drop token.start).idxOf? newline with
  | none => rfl
  | some i =>
      show max 1 ((if token.start + i ≤ token.stop then token.start + i else token.stop + 1) -
        token.start) = max 1 (min i (token.stop + 1 - token.start))
      split <;> omega

/-! ### Tokens that are found -/

/-- Where a token stands, in units: its first line is to be marked. -/
def placeIn (o : Occurrence) : Place :=
  ⟨o.before.count newline, (Lines.rest newline o.before).length, (firstLine o.text).length,
    TokenTypes.idxOf o.kind⟩

/-- One place ends before the other starts. -/
def Place.Before (p q : Place) : Prop :=
  p.line < q.line ∨ p.line = q.line ∧ p.column + p.length ≤ q.column

/-- The editor finds every token, no two of them on the same unit, and the same ones when it asks
for some of the lines. -/
structure Marks (t : Text) : Prop where
  places : decode (encode t (classify t)) = (occurrences t).map placeIn
  apart : (decode (encode t (classify t))).Pairwise Place.Before
  within : ∀ first last : ℕ, decode (encode t (withinLines (classify t) first last)) =
    (decode (encode t (classify t))).filter fun p =>
      (first : ℤ) ≤ p.line + 1 && p.line + 1 ≤ (last : ℤ)

/-- Nothing in front of the token shifts it, in its line and in the text. -/
structure Aligned (t : Text) (o : Occurrence) : Prop where
  /-- No pair stands before it on its line. -/
  line : ∀ i, ¬Utf8.Inside (Lines.rest newline o.before) i
  /-- The units at its offsets, which count characters, have a first line as long as its own. -/
  offsets : max 1 (firstLine ((t.drop (Utf8.points o.before)).take (Utf8.points o.text))).length =
    (firstLine o.text).length

/-- A token is on a later line than one before it, or behind it on its line. -/
theorem lines_apart {o o' : Occurrence} (h : o.before ++ o.text <+: o'.before) :
    o.before.count newline < o'.before.count newline ∨
      o.before.count newline = o'.before.count newline ∧
        ∃ x, Lines.rest newline o'.before = Lines.rest newline o.before ++ (o.text ++ x) := by
  obtain ⟨x, hx⟩ := h
  rw [List.append_assoc] at hx
  rw [← hx, List.count_append]
  by_cases hline : newline ∈ o.text ++ x
  · exact Or.inl (Nat.lt_add_of_pos_right (List.count_pos_iff.mpr hline))
  · refine Or.inr ⟨?_, x, Lines.rest_append hline o.before⟩
    rw [List.count_eq_zero.mpr hline, Nat.add_zero]

/-- Its place in units is behind those of the tokens before it. -/
theorem placeIn_before {o o' : Occurrence} (h : o.before ++ o.text <+: o'.before) :
    (placeIn o).Before (placeIn o') := by
  rcases lines_apart h with hline | ⟨hline, x, hrest⟩
  · exact Or.inl (Int.ofNat_lt.mpr hline)
  · refine Or.inr ⟨Int.ofNat_inj.mpr hline, ?_⟩
    have hfirst : (firstLine o.text).length ≤ o.text.length := (List.takeWhile_prefix _).length_le
    have hlength := congrArg List.length hrest
    rw [List.length_append, List.length_append] at hlength
    show ((Lines.rest newline o.before).length : ℤ) + (firstLine o.text).length ≤
      (Lines.rest newline o'.before).length
    omega

theorem placeOf_mark {t : Text} {o : Occurrence} (h : o.In t) :
    placeOf t o.mark = placeIn o ↔ Aligned t o := by
  have hpos := Utf8.points_pos h.ne_nil
  have hbefore := Utf8.points_le_length o.before
  have htext := Utf8.points_le_length o.text
  have hlength := h.isPrefix.length_le
  rw [List.length_append] at hlength
  have hclipped := clippedLength_eq t o.mark
    (show Utf8.points o.before ≤ Utf8.points o.before + Utf8.points o.text - 1 by omega)
    (show Utf8.points o.before + Utf8.points o.text - 1 < t.length by omega)
  have hcut : o.mark.stop + 1 - o.mark.start = Utf8.points o.text := by
    show Utf8.points o.before + Utf8.points o.text - 1 + 1 - Utf8.points o.before = _
    omega
  rw [hcut] at hclipped
  have hcolumn := Utf8.points_eq_length_iff (Lines.rest newline o.before)
  rw [placeOf, placeIn, Place.mk.injEq, hclipped]
  constructor
  · rintro ⟨_, hcol, hlen, _⟩
    refine ⟨hcolumn.mp ?_, ?_⟩
    · have hcol' : ((Utf8.points (Lines.rest newline o.before) + 1 : ℕ) : ℤ) - 1 =
        (Lines.rest newline o.before).length := hcol
      omega
    · exact Int.ofNat_inj.mp hlen
  · rintro ⟨hline, hoffsets⟩
    refine ⟨?_, ?_, congrArg _ hoffsets, rfl⟩
    · show ((1 + o.before.count newline : ℕ) : ℤ) - 1 = o.before.count newline
      omega
    · show ((Utf8.points (Lines.rest newline o.before) + 1 : ℕ) : ℤ) - 1 =
        (Lines.rest newline o.before).length
      rw [hcolumn.mpr hline]
      omega

/-- The editor finds every token exactly when they are all aligned. -/
theorem marks_iff (t : Text) : Marks t ↔ ∀ o ∈ occurrences t, Aligned t o := by
  have hdecode : decode (encode t (classify t)) =
      (occurrences t).map fun o => placeOf t o.mark := by
    rw [decode_encode, classify_eq, List.map_map]
    rfl
  have hplaces : (decode (encode t (classify t)) = (occurrences t).map placeIn) ↔
      ∀ o ∈ occurrences t, Aligned t o := by
    rw [hdecode, List.map_inj_left]
    exact forall₂_congr fun o ho => placeOf_mark (occurrence_in ho)
  constructor
  · exact fun h => hplaces.mp h.places
  · intro h
    have heq := hplaces.mpr h
    refine ⟨heq, ?_, decode_withinLines t (classify t)⟩
    rw [heq, List.pairwise_map]
    exact (occurrences_apart (scanned_scan t) [] rfl).imp placeIn_before

/-! ### The numbers -/

theorem marks_ordered (t : Text) : Ordered 0 0 (classify t) := by
  rw [classify_eq]
  constructor
  · rw [List.pairwise_map]
    refine (occurrences_apart (scanned_scan t) [] rfl).imp fun h => ?_
    rcases lines_apart h with hline | ⟨hline, x, hrest⟩
    · exact Or.inl (Nat.add_lt_add_left hline 1)
    · refine Or.inr ⟨congrArg (1 + ·) hline, Nat.succ_le_succ ?_⟩
      rw [hrest]
      exact Utf8.points_le_append _ _
  · intro m hm
    obtain ⟨o, _, rfl⟩ := List.mem_map.mp hm
    have hline : o.mark.line = 1 + o.before.count newline := rfl
    have hcolumn : o.mark.column = Utf8.points (Lines.rest newline o.before) + 1 := rfl
    omega

/-- All numbers are in the range of the array, unless the text is too long for it. -/
theorem encode_range (t : Text) : ∀ n ∈ encode t (classify t), 0 ≤ n ∧ n ≤ t.length + 10 := by
  have hbound : ∀ m ∈ classify t, m.line ≤ t.length + 1 ∧ m.column ≤ t.length + 1 ∧
      1 ≤ m.column ∧ clippedLength t m ≤ t.length + 1 := by
    rw [classify_eq]
    intro m hm
    obtain ⟨o, ho, rfl⟩ := List.mem_map.mp hm
    have hlength := (occurrence_in ho).isPrefix.length_le
    have hbefore := Utf8.points_le_length o.before
    have htext := Utf8.points_le_length o.text
    have hcount := List.count_le_length (a := newline) (l := o.before)
    have hline : o.mark.line = 1 + o.before.count newline := rfl
    have hcolumn : o.mark.column = Utf8.points (Lines.rest newline o.before) + 1 := rfl
    have hrest : Utf8.points (Lines.rest newline o.before) ≤ o.before.length := by
      have hsplit := congrArg List.length (Lines.closed_completeLines (c := newline) o.before).1
      have hle := Utf8.points_le_length (Lines.rest newline o.before)
      rw [List.length_append] at hsplit
      omega
    have hclipped : clippedLength t o.mark ≤ max 1 (o.mark.stop + 1 - o.mark.start) := by
      rw [clippedLength]
      split
      · split <;> omega
      · exact Nat.le_refl _
    have hstop : o.mark.stop + 1 - o.mark.start ≤ o.text.length + 1 := by
      show Utf8.points o.before + Utf8.points o.text - 1 + 1 - Utf8.points o.before ≤ _
      omega
    rw [List.length_append] at hlength
    omega
  intro n hn
  have hrange := encodeFrom_range hbound (Int.le_refl 0) (Int.le_refl 0) (marks_ordered t) n hn
  omega

/-! ### Texts without pairs -/

/-- No pair stands in a part of a text that has none. -/
theorem points_of_append {a b : Text} (h : ∀ i, ¬Utf8.Inside (a ++ b) i) :
    Utf8.points a = a.length ∧ Utf8.points b = b.length := by
  have hboundary := h a.length
  rw [Utf8.Inside, List.take_left, List.drop_left, Bool.not_eq_true] at hboundary
  have hpoints := (Utf8.points_eq_length_iff (a ++ b)).mpr h
  rw [Utf8.points_append hboundary, List.length_append] at hpoints
  have ha := Utf8.points_le_length a
  have hb := Utf8.points_le_length b
  omega

theorem marks_of_no_pair {t : Text} (h : ∀ i, ¬Utf8.Inside t i) : Marks t := by
  refine (marks_iff t).mpr fun o ho => ?_
  have hin := occurrence_in ho
  obtain ⟨x, hx⟩ := hin.isPrefix
  obtain ⟨l, hl⟩ : ∃ l, o.before = l ++ Lines.rest newline o.before :=
    ⟨_, (Lines.closed_completeLines (c := newline) o.before).1.symm⟩
  rw [List.append_assoc] at hx
  rw [← hx] at h
  have hparts := points_of_append h
  have htext := (points_of_append ((Utf8.points_eq_length_iff _).mp hparts.2)).1
  have hbefore := (Utf8.points_eq_length_iff _).mp hparts.1
  rw [hl] at hbefore
  have hslice : (t.drop (Utf8.points o.before)).take (Utf8.points o.text) = o.text := by
    rw [← hx, hparts.1, htext, List.drop_left, List.take_left]
  refine ⟨(Utf8.points_eq_length_iff _).mp (points_of_append hbefore).2, ?_⟩
  rw [hslice]
  refine Nat.max_eq_right ?_
  obtain ⟨c, u, hu⟩ := List.exists_cons_of_ne_nil hin.ne_nil
  have hhead := hin.head c (by rw [hu]; rfl)
  rw [hu, firstLine, List.takeWhile_cons, if_pos (decide_eq_true hhead)]
  exact Nat.succ_le_succ (Nat.zero_le _)

/-- A pair in a string, and a token behind it. -/
theorem not_marks_pair : ¬Marks [39, 0xD83D, 0xDE00, 39, 44] := by
  intro h
  have hplaces := h.places
  rw [decode_encode, classify_eq] at hplaces
  revert hplaces
  decide

end SemanticTokens

end WireTools

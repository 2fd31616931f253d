import WireTools.Characters
import WireTools.Lines
import WireTools.WireQueryLexer

/-! # Positions of tokens

The lexer reads characters, and its offsets and columns count them.

* `Spot` is where the lexer stands, `lexPlaced` the tokens and the errors of a text with their
  positions; `map_token_lexPlaced`: the tokens are those of `lex`;
* `boundary_next`: a token or an error ends behind a whole character, whatever follows;
* `start_pass`: the position behind a text, in one line each for its offset, line and column. -/

namespace WireTools

/-- Where the lexer stands: the characters read, the line from one on and the column from zero. -/
structure Spot where
  index : ℕ
  line : ℕ
  column : ℕ
  deriving DecidableEq

namespace Spot

def start : Spot := ⟨0, 1, 0⟩

/-- One character is read. -/
def consume (s : Spot) (character : Text) : Spot :=
  if character = [newline] then ⟨s.index + 1, s.line + 1, 0⟩
  else ⟨s.index + 1, s.line, s.column + 1⟩

def pass (s : Spot) (t : Text) : Spot :=
  (Utf8.characters t).foldl consume s

end Spot

/-- A token with its offsets, the last one included, and where it starts. -/
structure PlacedToken where
  token : Token
  start : ℕ
  stop : ℕ
  line : ℕ
  column : ℕ
  deriving DecidableEq

/-- A text that the lexer could not read, with its offsets, the last one included. -/
structure LexerErrorSpan where
  start : ℕ
  stop : ℕ
  line : ℕ
  column : ℕ
  deriving DecidableEq

namespace WireQueryTokens

open WireQueryLexer (scanner)

/-- The lexer reports where no rule goes on; the character there is dropped with the text. -/
def errorSpan (s : Spot) (t : Text) : LexerErrorSpan :=
  let index := s.index + Utf8.points (t.take (scanner.reach t))
  ⟨s.index, max s.index (index - 1), s.line, s.column + 1⟩

def placedTokens (s : Spot) : List (Piece TokenType CodeUnit) → List PlacedToken
  | [] => []
  | p :: ps =>
      let rest := placedTokens (s.pass p.text) ps
      match tokenOf p with
      | some token =>
          ⟨token, s.index, s.index + Utf8.points token.text - 1, s.line, s.column⟩ :: rest
      | none => rest

def errorSpans (s : Spot) : List (Piece TokenType CodeUnit) → List LexerErrorSpan
  | [] => []
  | p :: ps =>
      let rest := errorSpans (s.pass p.text) ps
      match errorOf p with
      | some t => errorSpan s t :: rest
      | none => rest

/-- The tokens of a text and what the lexer could not read, with their positions. -/
def lexPlaced (t : Text) : List PlacedToken × List LexerErrorSpan :=
  let pieces := scanner.scan t
  (placedTokens .start pieces, errorSpans .start pieces)

theorem map_token_placedTokens (s : Spot) (ps : List (Piece TokenType CodeUnit)) :
    (placedTokens s ps).map PlacedToken.token = ps.filterMap tokenOf := by
  induction ps generalizing s with
  | nil => rfl
  | cons p ps ih =>
      rw [placedTokens, List.filterMap_cons]
      cases tokenOf p with
      | none => exact ih _
      | some token =>
          dsimp only
          rw [List.map_cons, ih]

theorem map_token_lexPlaced (t : Text) : (lexPlaced t).1.map PlacedToken.token = (lex t).tokens :=
  map_token_placedTokens _ _

end WireQueryTokens

/-! ### Where a piece ends -/

namespace WireQueryLexer

theorem ne_of_isHigh {c d : CodeUnit} (hc : Utf8.isHigh c = true) (hd : Utf8.isHigh d = false) :
    c ≠ d := by
  rintro rfl
  rw [hc] at hd
  cases hd

/-- No class of letters or digits has half of a pair. -/
theorem not_word_of_isHigh {c : CodeUnit} (hc : Utf8.isHigh c = true) :
    isDigit c = false ∧ isUpper c = false ∧ isLower c = false := by
  rw [Utf8.isHigh_iff] at hc
  have h57 : (57 : CodeUnit).toNat = 57 := rfl
  have h90 : (90 : CodeUnit).toNat = 90 := rfl
  have h122 : (122 : CodeUnit).toNat = 122 := rfl
  simp only [isDigit, isUpper, isLower, Bool.and_eq_false_iff, decide_eq_false_iff_not,
    UInt16.le_iff_toNat_le]
  omega

theorem fixed_step_none {classes : List UnitClass} {c : CodeUnit} (h : ∀ k ∈ classes, k c = false)
    (i : ℕ) : (Recognizer.fixed classes).step i c = none := by
  change (classes[i]?).bind _ = none
  cases hk : classes[i]? with
  | none => rfl
  | some k =>
      rw [Option.bind_some, h k (List.mem_of_getElem? hk)]
      rfl

theorem word_step_high {s : String} (hs : ∀ a ∈ text s, Utf8.isHigh (toLower a) = false)
    {c : CodeUnit} (hc : Utf8.isHigh c = true) (i : ℕ) : (word s).step i c = none := by
  apply fixed_step_none
  intro k hk
  obtain ⟨a, ha, rfl⟩ := List.mem_map.mp hk
  have hlower : toLower c = c := if_neg (by simp [(not_word_of_isHigh hc).2.1])
  rw [caseless, hlower, beq_eq_false_iff_ne]
  exact ne_of_isHigh hc (hs a ha)

theorem sign_step_high {s : String} (hs : ∀ a ∈ text s, Utf8.isHigh a = false) {c : CodeUnit}
    (hc : Utf8.isHigh c = true) (i : ℕ) : (sign s).step i c = none := by
  apply fixed_step_none
  intro k hk
  obtain ⟨a, ha, rfl⟩ := List.mem_map.mp hk
  rw [exactly, beq_eq_false_iff_ne]
  exact ne_of_isHigh hc (hs a ha)

/-- Only between quotes does a rule read half of a pair, and it does not accept there. -/
theorem rule_step_high {k : TokenType} {s s' : (rule k).State} {c : CodeUnit}
    (hc : Utf8.isHigh c = true) (h : (rule k).step s c = some s') :
    (rule k).accepts s' = false := by
  have hne : ∀ d, Utf8.isHigh d = false → c ≠ d := fun d hd => ne_of_isHigh hc hd
  obtain ⟨hdigit, hupper, hlower⟩ := not_word_of_isHigh hc
  have hnone : (rule k).step s c = none → (rule k).accepts s' = false := by
    intro hs
    rw [hs] at h
    cases h
  cases k with
  | NE =>
      refine hnone ?_
      cases s with
      | start => simp only [rule, if_neg (hne 33 (by decide)), if_neg (hne 60 (by decide))]
      | bang => simp only [rule, if_neg (hne 61 (by decide))]
      | less => simp only [rule, if_neg (hne 62 (by decide))]
      | done => rfl
  | DECIMAL =>
      refine hnone ?_
      cases s <;> simp [rule, hdigit, hne 46 (by decide)]
  | INTEGER =>
      refine hnone ?_
      cases s <;> simp [rule, hdigit]
  | IDENTIFIER =>
      refine hnone ?_
      cases s <;> simp [rule, isIdentifierStart, isWord, hdigit, hupper, hlower, hne 95 (by decide)]
  | WHITESPACE =>
      refine hnone ?_
      have hblank : isBlank c = false := by
        simp [isBlank, hne 9 (by decide), hne 10 (by decide), hne 13 (by decide),
          hne 32 (by decide)]
      cases s <;> simp [rule, hblank]
  | STRING =>
      have hquote : (c == 39) = false := beq_eq_false_iff_ne.mpr (hne 39 (by decide))
      cases s with
      | opened =>
          simp only [rule, hquote] at h
          cases h
          rfl
      | _ => simp [rule, hquote] at h
  | QUOTED_IDENTIFIER =>
      have hquote : (c == 34) = false := beq_eq_false_iff_ne.mpr (hne 34 (by decide))
      cases s with
      | opened =>
          simp only [rule, hquote] at h
          cases h
          rfl
      | _ => simp [rule, hquote] at h
  | EOF => exact hnone (fixed_step_none (by simp) s)
  | LPAREN | RPAREN | DOT | COMMA | SEMICOLON | STAR | EQ | LE | LT | GE | GT | PLUS | MINUS =>
      exact hnone (sign_step_high (by decide) hc s)
  | _ => exact hnone (word_step_high (by decide) hc s)

theorem endsHigh_of_accepts {k : TokenType} {t : Text} (h : (rule k).Accepts t) :
    Utf8.endsHigh t = false := by
  obtain ⟨s, hs, hacc⟩ := h
  rcases List.eq_nil_or_concat t with rfl | ⟨u, c, rfl⟩
  · rfl
  · rw [List.concat_eq_append] at hs ⊢
    rw [Recognizer.run_append] at hs
    obtain ⟨s', _, hlast⟩ := Option.bind_eq_some_iff.mp hs
    obtain ⟨s'', hstep, hend⟩ := Option.bind_eq_some_iff.mp hlast
    cases hend
    rw [Utf8.endsHigh_append (List.cons_ne_nil c [])]
    show Utf8.isHigh c = false
    by_contra hhigh
    rw [rule_step_high ((Bool.not_eq_false _).mp hhigh) hstep] at hacc
    cases hacc

theorem characterWidth_cons (c d : CodeUnit) (t : Text) : characterWidth (c :: d :: t) =
    if Utf8.isHigh c && Utf8.isLow d then 2 else 1 := by
  have hpair : ((0xD800 ≤ c && c ≤ 0xDBFF) && (0xDC00 ≤ d && d ≤ 0xDFFF)) =
      (Utf8.isHigh c && Utf8.isLow d) := by
    have h1 : (0xD800 : CodeUnit).toNat = 0xD800 := rfl
    have h2 : (0xDBFF : CodeUnit).toNat = 0xDBFF := rfl
    have h3 : (0xDC00 : CodeUnit).toNat = 0xDC00 := rfl
    have h4 : (0xDFFF : CodeUnit).toNat = 0xDFFF := rfl
    rw [Bool.eq_iff_iff]
    simp only [Bool.and_eq_true, decide_eq_true_eq, Utf8.isHigh_iff, Utf8.isLow_iff,
      UInt16.le_iff_toNat_le]
    omega
  rw [characterWidth, hpair]

/-- What ends behind a character does not end inside of a pair. -/
theorem boundary_width (u : Text) {rest : Text} (hrest : rest ≠ []) :
    1 ≤ characterWidth rest ∧ ∃ v x, rest = v ++ x ∧ v.length = characterWidth rest ∧
      (Utf8.endsHigh (u ++ v) && Utf8.startsLow x) = false := by
  match rest, hrest with
  | [c], _ =>
      refine ⟨Nat.le_refl 1, [c], [], rfl, rfl, ?_⟩
      rw [Bool.and_eq_false_iff]
      exact Or.inr rfl
  | c :: d :: t, _ =>
      rw [characterWidth_cons]
      split
      · next h =>
          refine ⟨by omega, [c, d], t, rfl, rfl, ?_⟩
          rw [Bool.and_eq_true] at h
          rw [Utf8.endsHigh_append (List.cons_ne_nil c [d]), Utf8.endsHigh_pair h.2]
          rfl
      · next h =>
          refine ⟨by omega, [c], d :: t, rfl, rfl, ?_⟩
          rw [Utf8.endsHigh_append (List.cons_ne_nil c [])]
          exact Bool.eq_false_iff.mpr h

/-- A piece ends behind a whole character. -/
theorem boundary_next (w : Text) : (Utf8.endsHigh (scanner.next w).text &&
    Utf8.startsLow (w.drop (scanner.next w).text.length)) = false := by
  unfold Scanner.next
  split
  · next k n hmunch =>
      have haccepts : (rule k).Accepts (w.take (n + 1)) :=
        (Recognizer.longest_accepts (munch_longest hmunch).2).2
      rw [Piece.text, endsHigh_of_accepts haccepts, Bool.false_and]
  · rw [Piece.text, List.length_take]
    by_cases hrest : w.drop (scanner.reach w) = []
    · rw [List.drop_eq_nil_iff] at hrest
      have hall : w.length ≤ max 1 (scanner.reach w +
          scanner.width (w.drop (scanner.reach w))) := by omega
      rw [Nat.min_eq_right hall, List.drop_length, Bool.and_eq_false_iff]
      exact Or.inr rfl
    · obtain ⟨hpos, v, x, hvx, hv, hboundary⟩ := boundary_width (w.take (scanner.reach w)) hrest
      have hw : w = w.take (scanner.reach w) ++ v ++ x := by
        rw [List.append_assoc, ← hvx, List.take_append_drop]
      have hreach : (w.take (scanner.reach w)).length = scanner.reach w := by
        rw [List.length_take]
        rw [List.drop_eq_nil_iff] at hrest
        omega
      have hlength : max 1 (scanner.reach w + scanner.width (w.drop (scanner.reach w))) =
          (w.take (scanner.reach w) ++ v).length := by
        rw [List.length_append, hreach, hv]
        exact Nat.max_eq_right (Nat.le_trans hpos (Nat.le_add_left _ _))
      rw [hlength]
      generalize w.take (scanner.reach w) ++ v = a at hw hboundary
      rw [hw, List.take_left, List.length_append, Nat.min_eq_left (Nat.le_add_right _ _),
        List.drop_left]
      exact hboundary

end WireQueryLexer

/-! ### Where the lexer stands behind a text -/

namespace Spot

theorem pass_append (s : Spot) {a b : Text} (h : (Utf8.endsHigh a && Utf8.startsLow b) = false) :
    s.pass (a ++ b) = (s.pass a).pass b := by
  rw [pass, Utf8.characters_append h, List.foldl_append]
  rfl

theorem foldl_consume (s : Spot) {characters : List Text} (h : [newline] ∉ characters) :
    characters.foldl consume s =
      ⟨s.index + characters.length, s.line, s.column + characters.length⟩ := by
  induction characters generalizing s with
  | nil => rfl
  | cons ch characters ih =>
      rw [List.mem_cons, not_or] at h
      rw [List.foldl_cons, ih _ h.2, consume, if_neg (Ne.symm h.1), List.length_cons]
      simp only [Nat.add_assoc, Nat.add_comm 1]

/-- A text on one line. -/
theorem pass_line (s : Spot) {l : Text} (h : newline ∉ l) :
    s.pass l = ⟨s.index + Utf8.points l, s.line, s.column + Utf8.points l⟩ := by
  apply foldl_consume
  intro hmem
  apply h
  rw [← Utf8.flatten_characters l]
  exact List.mem_flatten.mpr ⟨_, hmem, List.mem_singleton_self _⟩

theorem pass_closed (s : Spot) {ls : List Text} {r : Text} (hls : ∀ l ∈ ls, newline ∉ l)
    (hr : newline ∉ r) : s.pass (Lines.closed newline ls ++ r) =
      ⟨s.index + Utf8.points (Lines.closed newline ls ++ r), s.line + ls.length,
        (if ls = [] then s.column else 0) + Utf8.points r⟩ := by
  induction ls generalizing s with
  | nil => exact pass_line s hr
  | cons l ls ih =>
      rw [List.forall_mem_cons] at hls
      have hboundary : ∀ t : Text, (Utf8.endsHigh l && Utf8.startsLow (newline :: t)) = false :=
        fun t => Bool.and_false _
      have hcharacters : ∀ t, Utf8.characters (newline :: t) = [newline] :: Utf8.characters t :=
        fun t => Utf8.characters_cons rfl
      have hnewline : ∀ (s : Spot) (t : Text), s.pass (newline :: t) =
          Spot.pass ⟨s.index + 1, s.line + 1, 0⟩ t := by
        intro s t
        rw [pass, hcharacters, List.foldl_cons, consume, if_pos rfl]
        rfl
      have hpoints : ∀ t, Utf8.points (newline :: t) = Utf8.points t + 1 := fun t => by
        rw [Utf8.points, hcharacters, List.length_cons]
        rfl
      rw [Lines.closed_cons, List.append_assoc, List.cons_append, pass_append s (hboundary _),
        pass_line s hls.1, hnewline, ih _ hls.2, Utf8.points_append (hboundary _), hpoints,
        if_neg (List.cons_ne_nil l ls), ite_self, List.length_cons]
      simp only [Spot.mk.injEq, and_true]
      omega

/-- The offset counts the characters, the line the newlines, and the column the characters behind
the last of them. -/
theorem start_pass (t : Text) : start.pass t =
    ⟨Utf8.points t, 1 + t.count newline, Utf8.points (Lines.rest newline t)⟩ := by
  obtain ⟨ht, hls, hr⟩ := Lines.closed_completeLines (c := newline) t
  have hpass := pass_closed start hls hr
  have hcount := Lines.count_closed hls hr
  rw [ht] at hpass hcount
  rw [hpass, hcount]
  simp [start]

end Spot

end WireTools

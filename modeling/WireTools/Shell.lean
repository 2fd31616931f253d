import WireTools.Text

/-! # Words of a shell command

The part of a shell that turns text into words: blanks, single and double quotes, backslashes,
`$NAME` and `${…}` inside double quotes.  The reader goes over the text unit by unit and gives
up where the shell would do anything else (an unquoted operator, glob or expansion, a
substitution, a NUL).

* `Cursor.next` is one unit, `feed` a stretch of text that ends no command, `read` the words
  up to the unit that ends them;
* `feed_quoted`: a single-quoted text adds exactly that text to the word being read;
* `feed_variable`: a double-quoted variable adds its value. -/

namespace WireTools.Shell

def quote : CodeUnit := 39
def doubleQuote : CodeUnit := 34
def backslash : CodeUnit := 92
def dollar : CodeUnit := 36
def backtick : CodeUnit := 96
def openBrace : CodeUnit := 123
def closeBrace : CodeUnit := 125
def closeParen : CodeUnit := 41

def isBlank (c : CodeUnit) : Bool :=
  c == blank || c == 9 || c == newline

/-- The units that stand for themselves outside quotes. -/
def isPlain (c : CodeUnit) : Bool :=
  isWord c || [45, 46, 47, 58, 61, 64, 37, 43, 44].contains c

/-- What the shell knows: its variables, and what a `"${…}"` stands for. -/
structure Env where
  vars : Text → Option Text
  braces : Text → Option (List Text)

inductive Mode where
  | bare
  | escape
  | single
  | double
  | name (read : Text)
  | brace (read : Text)
  | expanded (words : List Text)
  | after
  deriving DecidableEq

/-- Where the reader stands: its mode, the word it is in, and the words it has read. -/
structure Cursor where
  mode : Mode
  word : Option Text
  words : List Text
  deriving DecidableEq

namespace Cursor

variable (env : Env) (stop : CodeUnit) (s : Cursor)

/-- Text is added to the word, which begins with it if there is none. -/
def add (mode : Mode) (t : Text) : Cursor :=
  { s with mode := mode, word := some (s.word.getD [] ++ t) }

def endWord : Cursor :=
  ⟨.bare, none, s.words ++ s.word.toList⟩

/-- A unit inside double quotes. -/
def inDouble (c : CodeUnit) : Option Cursor :=
  if c = doubleQuote then some { s with mode := .bare }
  else if c = dollar then some { s with mode := .name [] }
  else if c = 0 ∨ c = backslash ∨ c = backtick then none
  else some (s.add .double [c])

/-- One unit, which does not end the command. -/
def next (c : CodeUnit) : Option Cursor :=
  match s.mode with
  | .bare =>
      if c = stop then none
      else if isBlank c then some s.endWord
      else if c = quote then some (s.add .single [])
      else if c = doubleQuote then some (s.add .double [])
      else if c = backslash then some { s with mode := .escape }
      else if isPlain c then some (s.add .bare [c])
      else none
  | .escape =>
      if c = 0 then none
      else if c = newline then some { s with mode := .bare }
      else some (s.add .bare [c])
  | .single =>
      if c = quote then some { s with mode := .bare }
      else if c = 0 then none
      else some (s.add .single [c])
  | .double => s.inDouble c
  | .name n =>
      if isWord c && !(n.isEmpty && isDigit c) then some { s with mode := .name (n ++ [c]) }
      else if n.isEmpty then if c = openBrace then some { s with mode := .brace [] } else none
      else (env.vars n).bind fun value => (s.add .double value).inDouble c
  | .brace n =>
      if c = closeBrace then
        if s.word = some [] then
          (env.braces n).map fun words => ⟨.expanded words, none, s.words⟩
        else none
      else some { s with mode := .brace (n ++ [c]) }
  | .expanded words =>
      if c = doubleQuote then some ⟨.after, none, s.words ++ words⟩ else none
  | .after =>
      if c = stop then none
      else if isBlank c then some ⟨.bare, none, s.words⟩
      else none

/-- The unit ends the command. -/
def ends (c : CodeUnit) : Bool :=
  c == stop && (s.mode == .bare || s.mode == .after)

end Cursor

/-- A stretch of text that does not end the command. -/
def feed (env : Env) (stop : CodeUnit) (s : Cursor) (t : Text) : Option Cursor :=
  t.foldlM (Cursor.next env stop) s

/-- The words up to the unit that ends them, and the text behind it. -/
def read (env : Env) (stop : CodeUnit) : Cursor → Text → Option (List Text × Text)
  | _, [] => none
  | s, c :: t =>
      if s.ends stop c then some (s.words ++ s.word.toList, t)
      else (s.next env stop c).bind fun s => read env stop s t

/-- Before the first word. -/
def fresh (words : List Text) : Cursor :=
  ⟨.bare, none, words⟩

/-- A word as it is put between single quotes, a quote in it as `'\''`. -/
def escaped (t : Text) : Text :=
  t.flatMap fun c => if c = quote then [quote, backslash, quote, quote] else [c]

/-! ### Reading -/

variable {env : Env} {stop : CodeUnit}

theorem feed_append (s : Cursor) (t u : Text) :
    feed env stop s (t ++ u) = (feed env stop s t).bind fun s => feed env stop s u := by
  rw [feed, List.foldlM_append]
  rfl

theorem feed_cons {s s' : Cursor} {c : CodeUnit} (h : s.next env stop c = some s') (t : Text) :
    feed env stop s (c :: t) = feed env stop s' t := by
  rw [feed, List.foldlM_cons, h]
  rfl

@[simp] theorem feed_nil (s : Cursor) : feed env stop s [] = some s := rfl

theorem next_of_ends {s : Cursor} {c : CodeUnit} (h : s.ends stop c = true) :
    s.next env stop c = none := by
  rw [Cursor.ends, Bool.and_eq_true, Bool.or_eq_true, beq_iff_eq, beq_iff_eq, beq_iff_eq] at h
  obtain ⟨rfl, hmode | hmode⟩ := h
  · rw [Cursor.next, hmode]
    exact if_pos rfl
  · rw [Cursor.next, hmode]
    exact if_pos rfl

/-- Text that ends no command is read as it is fed. -/
theorem read_of_feed {rest : Text} : ∀ {t : Text} {s s' : Cursor},
    feed env stop s t = some s' → read env stop s (t ++ rest) = read env stop s' rest
  | [], s, s', h => by
      obtain rfl : s = s' := Option.some.inj h
      rfl
  | c :: t, s, s', h => by
      rw [feed, List.foldlM_cons] at h
      obtain ⟨m, hm, hrest⟩ := Option.bind_eq_some_iff.mp h
      have hends : ¬ s.ends stop c = true := by
        intro he
        cases hm.symm.trans (next_of_ends he)
      rw [List.cons_append, read, if_neg hends, hm]
      exact read_of_feed hrest

/-- The unit that ends the command, behind a word or a blank. -/
theorem read_stop (w : Option Text) (words : List Text) (rest : Text) :
    read env stop ⟨.bare, w, words⟩ (stop :: rest) = some (words ++ w.toList, rest) := by
  rw [read, if_pos (by simp [Cursor.ends])]

theorem read_stop_after (words : List Text) (rest : Text) :
    read env stop ⟨.after, none, words⟩ (stop :: rest) = some (words, rest) := by
  rw [read, if_pos (by simp [Cursor.ends]), Option.toList_none, List.append_nil]

/-- The unit that ends a command is none that quotes. -/
structure EndsOnly (stop : CodeUnit) : Prop where
  quote : quote ≠ stop
  doubleQuote : doubleQuote ≠ stop
  backslash : backslash ≠ stop
  blank : blank ≠ stop

theorem endsOnly_newline : EndsOnly newline :=
  ⟨by decide, by decide, by decide, by decide⟩

theorem endsOnly_closeParen : EndsOnly closeParen :=
  ⟨by decide, by decide, by decide, by decide⟩

/-! ### Single units -/

variable {w : Option Text} {words : List Text}

theorem next_bare_quote (hs : EndsOnly stop) :
    Cursor.next env stop ⟨.bare, w, words⟩ quote =
      some ⟨.single, some (w.getD []), words⟩ := by
  simp only [Cursor.next, if_neg hs.quote, Cursor.add, List.append_nil]
  rfl

theorem next_bare_doubleQuote (hs : EndsOnly stop) :
    Cursor.next env stop ⟨.bare, w, words⟩ doubleQuote =
      some ⟨.double, some (w.getD []), words⟩ := by
  simp only [Cursor.next, if_neg hs.doubleQuote, Cursor.add, List.append_nil]
  rfl

theorem next_bare_backslash (hs : EndsOnly stop) :
    Cursor.next env stop ⟨.bare, w, words⟩ backslash = some ⟨.escape, w, words⟩ := by
  simp only [Cursor.next, if_neg hs.backslash]
  rfl

theorem next_bare_blank (hs : EndsOnly stop) :
    Cursor.next env stop ⟨.bare, w, words⟩ blank = some ⟨.bare, none, words ++ w.toList⟩ := by
  simp only [Cursor.next, if_neg hs.blank]
  rfl

theorem next_escape_newline :
    Cursor.next env stop ⟨.escape, w, words⟩ newline = some ⟨.bare, w, words⟩ :=
  rfl

theorem next_escape_quote :
    Cursor.next env stop ⟨.escape, w, words⟩ quote =
      some ⟨.bare, some (w.getD [] ++ [quote]), words⟩ :=
  rfl

theorem next_single_quote :
    Cursor.next env stop ⟨.single, w, words⟩ quote = some ⟨.bare, w, words⟩ :=
  rfl

theorem next_single {c : CodeUnit} (hq : c ≠ quote) (h0 : c ≠ 0) :
    Cursor.next env stop ⟨.single, w, words⟩ c =
      some ⟨.single, some (w.getD [] ++ [c]), words⟩ := by
  simp only [Cursor.next, if_neg hq, if_neg h0, Cursor.add]

theorem next_double_dollar :
    Cursor.next env stop ⟨.double, w, words⟩ dollar = some ⟨.name [], w, words⟩ :=
  rfl

theorem next_name {n : Text} {c : CodeUnit} (hw : isWord c = true)
    (hd : n = [] → isDigit c = false) :
    Cursor.next env stop ⟨.name n, w, words⟩ c = some ⟨.name (n ++ [c]), w, words⟩ := by
  have hfirst : (n.isEmpty && isDigit c) = false := by
    cases n with
    | nil => exact hd rfl
    | cons a n => rfl
  simp only [Cursor.next, hw, hfirst, Bool.not_false, Bool.and_self, if_true]

theorem next_name_end {n value : Text} (hn : n ≠ []) (hvalue : env.vars n = some value) :
    Cursor.next env stop ⟨.name n, w, words⟩ doubleQuote =
      some ⟨.bare, some (w.getD [] ++ value), words⟩ := by
  have hempty : n.isEmpty = false := by
    cases n with
    | nil => exact absurd rfl hn
    | cons a n => rfl
  have hword : isWord doubleQuote = false := by decide
  simp only [Cursor.next, hword, hempty, Bool.false_and, Bool.false_eq_true, if_false, hvalue,
    Option.bind_some]
  rfl

theorem next_name_brace :
    Cursor.next env stop ⟨.name [], w, words⟩ openBrace = some ⟨.brace [], w, words⟩ :=
  rfl

theorem next_brace {n : Text} {c : CodeUnit} (hc : c ≠ closeBrace) :
    Cursor.next env stop ⟨.brace n, w, words⟩ c = some ⟨.brace (n ++ [c]), w, words⟩ := by
  simp only [Cursor.next, if_neg hc]

theorem next_brace_end {n : Text} {expansion : List Text}
    (hn : env.braces n = some expansion) :
    Cursor.next env stop ⟨.brace n, some [], words⟩ closeBrace =
      some ⟨.expanded expansion, none, words⟩ := by
  simp only [Cursor.next, if_true, hn, Option.map_some]

theorem next_expanded {expansion : List Text} :
    Cursor.next env stop ⟨.expanded expansion, none, words⟩ doubleQuote =
      some ⟨.after, none, words ++ expansion⟩ :=
  rfl

/-! ### Stretches -/

/-- The quoted form of a text, inside single quotes. -/
theorem feed_escaped (hs : EndsOnly stop) : ∀ {t w : Text}, 0 ∉ t →
    feed env stop ⟨.single, some w, words⟩ (escaped t) = some ⟨.single, some (w ++ t), words⟩
  | [], w, _ => by
      rw [List.append_nil]
      rfl
  | c :: t, w, h => by
      have h0 : c ≠ 0 := fun hc => h (by simp [hc])
      have ht : 0 ∉ t := fun hm => h (List.mem_cons_of_mem _ hm)
      have ih := feed_escaped hs (t := t) (w := w ++ [c]) ht
      rw [escaped, List.flatMap_cons, ← escaped]
      by_cases hc : c = quote
      · subst hc
        rw [if_pos rfl, List.cons_append, feed_cons next_single_quote, List.cons_append,
          feed_cons (next_bare_backslash hs), List.cons_append, feed_cons next_escape_quote,
          List.cons_append, feed_cons (next_bare_quote hs), List.nil_append]
        simpa using ih
      · rw [if_neg hc, List.cons_append, feed_cons (next_single hc h0), List.nil_append]
        simpa using ih

/-- A single-quoted text adds exactly that text to the word. -/
theorem feed_quoted (hs : EndsOnly stop) {t : Text} (h : 0 ∉ t) :
    feed env stop ⟨.bare, w, words⟩ (quote :: escaped t ++ [quote]) =
      some ⟨.bare, some (w.getD [] ++ t), words⟩ := by
  rw [List.cons_append, feed_cons (next_bare_quote hs), feed_append, feed_escaped hs h,
    Option.bind_some, feed_cons next_single_quote, feed_nil]

/-- The name of a variable: word units, the first no digit. -/
def IsName (n : Text) : Prop :=
  n ≠ [] ∧ n.all isWord = true ∧ n.head?.all (fun c => !isDigit c) = true

theorem feed_name : ∀ {n m : Text}, n.all isWord = true →
    (m = [] → n.head?.all (fun c => !isDigit c) = true) →
    feed env stop ⟨.name m, w, words⟩ n = some ⟨.name (m ++ n), w, words⟩
  | [], m, _, _ => by
      rw [List.append_nil]
      rfl
  | c :: n, m, h, hd => by
      rw [List.all_cons, Bool.and_eq_true] at h
      rw [feed_cons (next_name h.1 fun hm => by simpa using hd hm)]
      have ih := @feed_name n (m ++ [c]) h.2 (by simp)
      simpa using ih

/-- A double-quoted variable adds its value to the word. -/
theorem feed_variable (hs : EndsOnly stop) {n value : Text} (hn : IsName n)
    (hvalue : env.vars n = some value) :
    feed env stop ⟨.bare, w, words⟩ (doubleQuote :: dollar :: n ++ [doubleQuote]) =
      some ⟨.bare, some (w.getD [] ++ value), words⟩ := by
  rw [List.cons_append, feed_cons (next_bare_doubleQuote hs), List.cons_append,
    feed_cons next_double_dollar, feed_append, feed_name hn.2.1 fun _ => hn.2.2,
    List.nil_append, Option.bind_some, feed_cons (next_name_end hn.1 hvalue), feed_nil]
  rfl

theorem feed_brace : ∀ {n m : Text}, closeBrace ∉ n →
    feed env stop ⟨.brace m, w, words⟩ n = some ⟨.brace (m ++ n), w, words⟩
  | [], m, _ => by
      rw [List.append_nil]
      rfl
  | c :: n, m, h => by
      have hc : c ≠ closeBrace := fun hc => h (by simp [hc])
      have hn : closeBrace ∉ n := fun hm => h (List.mem_cons_of_mem _ hm)
      rw [feed_cons (next_brace hc), feed_brace hn, List.append_assoc, List.singleton_append]

/-- A `"${…}"` that is a word of its own stands for the words of its expansion. -/
theorem feed_braces (hs : EndsOnly stop) {n : Text} {expansion : List Text}
    (hn : closeBrace ∉ n) (hexp : env.braces n = some expansion) :
    feed env stop ⟨.bare, none, words⟩
        (doubleQuote :: dollar :: openBrace :: n ++ [closeBrace, doubleQuote]) =
      some ⟨.after, none, words ++ expansion⟩ := by
  rw [List.cons_append, feed_cons (next_bare_doubleQuote hs), List.cons_append,
    feed_cons next_double_dollar, List.cons_append, feed_cons next_name_brace, feed_append,
    feed_brace hn, List.nil_append, Option.bind_some, Option.getD_none,
    feed_cons (next_brace_end hexp), feed_cons next_expanded, feed_nil]

/-! ### Between words -/

theorem next_after_blank (hs : EndsOnly stop) :
    Cursor.next env stop ⟨.after, w, words⟩ blank = some ⟨.bare, none, words⟩ := by
  simp only [Cursor.next, if_neg hs.blank]
  rfl

/-- A blank, a continued line and its indent. -/
def continued : Text :=
  [blank, backslash, newline, blank, blank]

theorem feed_continued (hs : EndsOnly stop) :
    feed env stop ⟨.bare, w, words⟩ continued = some ⟨.bare, none, words ++ w.toList⟩ := by
  rw [continued, feed_cons (next_bare_blank hs), feed_cons (next_bare_backslash hs),
    feed_cons next_escape_newline, feed_cons (next_bare_blank hs),
    feed_cons (next_bare_blank hs), feed_nil]
  simp

theorem feed_continued_after (hs : EndsOnly stop) :
    feed env stop ⟨.after, none, words⟩ continued = some ⟨.bare, none, words⟩ := by
  rw [continued, feed_cons (next_after_blank hs), feed_cons (next_bare_backslash hs),
    feed_cons next_escape_newline, feed_cons (next_bare_blank hs),
    feed_cons (next_bare_blank hs), feed_nil]
  simp

end WireTools.Shell

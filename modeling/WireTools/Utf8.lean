import WireTools.Text

/-! # UTF-8

Bytes are decoded one by one.  A sequence that goes wrong becomes one replacement character, and
the byte that does not fit is read again from the start.

* `decode` is the text of a byte string;
* `decode_newline`: a line feed ends whatever came before it, so a text may be decoded line by
  line; `newline_not_mem_decode`: no other byte is decoded to a line feed;
* `decode_encode`: a text without lone surrogates survives being encoded and decoded. -/

namespace WireTools.Utf8

/-- What is known of an unfinished sequence: the bytes still needed, the bits read, and the range
of the next byte. -/
structure State where
  needed : ℕ
  bits : ℕ
  lower : ℕ
  upper : ℕ
  deriving DecidableEq

def State.init : State := ⟨0, 0, 0x80, 0xBF⟩

def replacement : CodeUnit := 0xFFFD

/-- The code units of a code point: one, or a surrogate pair. -/
def unitsOf (codePoint : ℕ) : Text :=
  if codePoint < 0x10000 then [UInt16.ofNat codePoint]
  else [UInt16.ofNat (0xD800 + (codePoint - 0x10000) / 0x400),
    UInt16.ofNat (0xDC00 + (codePoint - 0x10000) % 0x400)]

/-- A byte at the start of a sequence. -/
def start (b : UInt8) : Text × State :=
  let n := b.toNat
  if n < 0x80 then ([UInt16.ofNat n], .init)
  else if 0xC2 ≤ n ∧ n ≤ 0xDF then ([], ⟨1, n - 0xC0, 0x80, 0xBF⟩)
  else if 0xE0 ≤ n ∧ n ≤ 0xEF then
    ([], ⟨2, n - 0xE0, if n = 0xE0 then 0xA0 else 0x80, if n = 0xED then 0x9F else 0xBF⟩)
  else if 0xF0 ≤ n ∧ n ≤ 0xF4 then
    ([], ⟨3, n - 0xF0, if n = 0xF0 then 0x90 else 0x80, if n = 0xF4 then 0x8F else 0xBF⟩)
  else ([replacement], .init)

def step (s : State) (b : UInt8) : Text × State :=
  if s.needed = 0 then start b
  else if s.lower ≤ b.toNat ∧ b.toNat ≤ s.upper then
    let bits := s.bits * 64 + (b.toNat - 0x80)
    if s.needed = 1 then (unitsOf bits, .init) else ([], ⟨s.needed - 1, bits, 0x80, 0xBF⟩)
  else (replacement :: (start b).1, (start b).2)

/-- The text of the bytes behind an unfinished sequence. -/
def run (s : State) : List UInt8 → Text
  | [] => if s.needed = 0 then [] else [replacement]
  | b :: bytes => (step s b).1 ++ run (step s b).2 bytes

def decode (bytes : List UInt8) : Text :=
  run .init bytes

/-! ### Unfinished sequences -/

/-- The next byte of a sequence is none of the first half, and the bits read already make the code
point greater than those a single byte spells, and not too great. -/
structure State.Valid (s : State) : Prop where
  lower : 0x80 ≤ s.lower
  upper : s.upper ≤ 0xBF
  atMost : s.needed ≤ 3
  one : s.needed = 1 → 2 ≤ s.bits ∧ s.bits < 20480
  two : s.needed = 2 → (1 ≤ s.bits ∨ 0x90 ≤ s.lower) ∧ s.bits < 320
  three : s.needed = 3 → (1 ≤ s.bits ∨ 0x90 ≤ s.lower) ∧ s.bits < 5

theorem valid_init : State.init.Valid := by
  constructor <;> decide

theorem valid_start (b : UInt8) : (start b).2.Valid := by
  unfold start
  dsimp only
  split
  · exact valid_init
  · split
    · constructor <;> dsimp only <;> omega
    · split
      · constructor <;> dsimp only <;> (try split) <;> omega
      · split
        · constructor <;> dsimp only <;> (try split) <;> omega
        · exact valid_init

theorem valid_step {s : State} (h : s.Valid) (b : UInt8) : (step s b).2.Valid := by
  obtain ⟨hlower, hupper, hmost, hone, htwo, hthree⟩ := h
  have hbyte := b.toNat_lt
  unfold step
  split
  · exact valid_start b
  · split
    · next hrange =>
        dsimp only
        split
        · exact valid_init
        · constructor <;> dsimp only <;> omega
    · exact valid_start b

/-! ### Line feeds -/

theorem start_newline : start 10 = ([newline], .init) := by decide

/-- A line feed ends an unfinished sequence and starts none. -/
theorem run_newline {s : State} (h : s.Valid) (bytes : List UInt8) :
    run s (10 :: bytes) = run s [] ++ newline :: decode bytes := by
  rw [run, run, step]
  have hlower := h.lower
  split
  · rw [start_newline]
    rfl
  · rw [if_neg, start_newline]
    · rfl
    · have hten : (10 : UInt8).toNat = 10 := rfl
      omega

theorem run_append_newline {s : State} (h : s.Valid) (line bytes : List UInt8) :
    run s (line ++ 10 :: bytes) = run s line ++ newline :: decode bytes := by
  induction line generalizing s with
  | nil => exact run_newline h bytes
  | cons b line ih =>
      rw [List.cons_append, run, run, ih (valid_step h b), List.append_assoc]

theorem decode_newline (line bytes : List UInt8) :
    decode (line ++ 10 :: bytes) = decode line ++ newline :: decode bytes :=
  run_append_newline valid_init line bytes

theorem ofNat_ne_newline {n : ℕ} (h : n < 0x10000) (hn : n ≠ 10) : UInt16.ofNat n ≠ newline := by
  intro heq
  have htoNat := congrArg UInt16.toNat heq
  rw [UInt16.toNat_ofNat_of_lt' h] at htoNat
  exact hn htoNat

theorem newline_ne_replacement : newline ≠ replacement :=
  (ofNat_ne_newline (n := 0xFFFD) (by omega) (by omega)).symm

theorem newline_not_mem_unitsOf {n : ℕ} (h : 0x80 ≤ n) (hn : n < 0x140000) :
    newline ∉ unitsOf n := by
  unfold unitsOf
  split
  · next hsmall =>
      rw [List.mem_singleton]
      exact (ofNat_ne_newline hsmall (by omega)).symm
  · rw [List.mem_cons, List.mem_singleton]
    rintro (heq | heq)
    · exact ofNat_ne_newline (by omega) (by omega) heq.symm
    · exact ofNat_ne_newline (by omega) (by omega) heq.symm

theorem newline_not_mem_start {b : UInt8} (h : b ≠ 10) : newline ∉ (start b).1 := by
  unfold start
  dsimp only
  split
  · next hsmall =>
      rw [List.mem_singleton]
      refine (ofNat_ne_newline (by omega) fun hn => h ?_).symm
      exact UInt8.toNat_inj.mp hn
  · split
    · exact List.not_mem_nil
    · split
      · exact List.not_mem_nil
      · split
        · exact List.not_mem_nil
        · rw [List.mem_singleton]
          exact newline_ne_replacement

theorem newline_not_mem_step {s : State} (hs : s.Valid) {b : UInt8} (h : b ≠ 10) :
    newline ∉ (step s b).1 := by
  obtain ⟨hlower, hupper, hmost, hone, htwo, hthree⟩ := hs
  have hbyte := b.toNat_lt
  unfold step
  split
  · exact newline_not_mem_start h
  · split
    · next hrange =>
        dsimp only
        split
        · dsimp only
          apply newline_not_mem_unitsOf
          · omega
          · omega
        · exact List.not_mem_nil
    · rw [List.mem_cons]
      rintro (heq | hmem)
      · exact newline_ne_replacement heq
      · exact newline_not_mem_start h hmem

theorem newline_not_mem_run {s : State} (hs : s.Valid) {bytes : List UInt8} (h : 10 ∉ bytes) :
    newline ∉ run s bytes := by
  induction bytes generalizing s with
  | nil =>
      rw [run]
      split
      · exact List.not_mem_nil
      · rw [List.mem_singleton]
        exact newline_ne_replacement
  | cons b bytes ih =>
      rw [List.mem_cons, not_or] at h
      rw [run, List.mem_append]
      rintro (hmem | hmem)
      · exact newline_not_mem_step hs (fun hb => h.1 hb.symm) hmem
      · exact ih (valid_step hs b) h.2 hmem

theorem newline_not_mem_decode {bytes : List UInt8} (h : 10 ∉ bytes) : newline ∉ decode bytes :=
  newline_not_mem_run valid_init h

/-! ### Encoding -/

def bytesOf (codePoint : ℕ) : List UInt8 :=
  if codePoint < 0x80 then [UInt8.ofNat codePoint]
  else if codePoint < 0x800 then
    [UInt8.ofNat (0xC0 + codePoint / 64), UInt8.ofNat (0x80 + codePoint % 64)]
  else if codePoint < 0x10000 then
    [UInt8.ofNat (0xE0 + codePoint / 4096), UInt8.ofNat (0x80 + codePoint / 64 % 64),
      UInt8.ofNat (0x80 + codePoint % 64)]
  else
    [UInt8.ofNat (0xF0 + codePoint / 262144), UInt8.ofNat (0x80 + codePoint / 4096 % 64),
      UInt8.ofNat (0x80 + codePoint / 64 % 64), UInt8.ofNat (0x80 + codePoint % 64)]

theorem run_init_cons (b : UInt8) (bytes : List UInt8) :
    run .init (b :: bytes) = (start b).1 ++ run (start b).2 bytes :=
  rfl

theorem toNat_ofNat_of_lt {n : ℕ} (h : n < 256) : (UInt8.ofNat n).toNat = n := by
  rw [UInt8.toNat_ofNat']
  omega

/-- A byte that goes on with a sequence. -/
theorem run_continue {needed bits lower upper d : ℕ} (hneeded : needed ≠ 0) (hd : d < 64)
    (hlower : lower ≤ 0x80 + d) (hupper : 0x80 + d ≤ upper) (bytes : List UInt8) :
    run ⟨needed, bits, lower, upper⟩ (UInt8.ofNat (0x80 + d) :: bytes) =
      if needed = 1 then unitsOf (bits * 64 + d) ++ run .init bytes
      else run ⟨needed - 1, bits * 64 + d, 0x80, 0xBF⟩ bytes := by
  have hbyte : (UInt8.ofNat (0x80 + d)).toNat = 0x80 + d := toNat_ofNat_of_lt (by omega)
  have hrange : lower ≤ 0x80 + d ∧ 0x80 + d ≤ upper := ⟨hlower, hupper⟩
  rw [run]
  simp only [step, if_neg hneeded, hbyte, if_pos hrange, Nat.add_sub_cancel_left]
  split
  · rfl
  · rfl

/-- The bytes of a code point that is no surrogate are read back. -/
theorem run_bytesOf {n : ℕ} (h : n < 0xD800 ∨ 0xDFFF < n ∧ n < 0x110000) (bytes : List UInt8) :
    run .init (bytesOf n ++ bytes) = unitsOf n ++ run .init bytes := by
  unfold bytesOf
  split
  · next hone =>
      have hbyte : (UInt8.ofNat n).toNat = n := toNat_ofNat_of_lt (by omega)
      rw [List.singleton_append, run_init_cons]
      simp only [start, hbyte, if_pos hone, unitsOf, if_pos (show n < 0x10000 by omega)]
  · split
    · have hbyte : (UInt8.ofNat (0xC0 + n / 64)).toNat = 0xC0 + n / 64 :=
        toNat_ofNat_of_lt (by omega)
      have hlead : start (UInt8.ofNat (0xC0 + n / 64)) = ([], ⟨1, n / 64, 0x80, 0xBF⟩) := by
        simp only [start, hbyte]
        rw [if_neg (by omega), if_pos (by omega), Nat.add_sub_cancel_left]
      rw [List.cons_append, List.singleton_append, run_init_cons, hlead, List.nil_append,
        run_continue (by omega) (by omega) (by omega) (by omega), if_pos rfl]
      congr 2
      omega
    · split
      · have hbyte : (UInt8.ofNat (0xE0 + n / 4096)).toNat = 0xE0 + n / 4096 :=
          toNat_ofNat_of_lt (by omega)
        have hlead : ∃ lower upper, start (UInt8.ofNat (0xE0 + n / 4096)) =
            ([], ⟨2, n / 4096, lower, upper⟩) ∧ lower ≤ 0x80 + n / 64 % 64 ∧
              0x80 + n / 64 % 64 ≤ upper := by
          simp only [start, hbyte]
          rw [if_neg (by omega), if_neg (by omega), if_pos (by omega), Nat.add_sub_cancel_left]
          refine ⟨_, _, rfl, ?_, ?_⟩
          · split <;> omega
          · split <;> omega
        obtain ⟨lower, upper, hlead, hlower, hupper⟩ := hlead
        simp only [List.cons_append, List.nil_append]
        rw [run_init_cons, hlead, List.nil_append,
          run_continue (by omega) (by omega) hlower hupper, if_neg (by omega),
          run_continue (by omega) (by omega) (by omega) (by omega), if_pos rfl]
        congr 2
        omega
      · have hbyte : (UInt8.ofNat (0xF0 + n / 262144)).toNat = 0xF0 + n / 262144 :=
          toNat_ofNat_of_lt (by omega)
        have hlead : ∃ lower upper, start (UInt8.ofNat (0xF0 + n / 262144)) =
            ([], ⟨3, n / 262144, lower, upper⟩) ∧ lower ≤ 0x80 + n / 4096 % 64 ∧
              0x80 + n / 4096 % 64 ≤ upper := by
          simp only [start, hbyte]
          rw [if_neg (by omega), if_neg (by omega), if_neg (by omega), if_pos (by omega),
            Nat.add_sub_cancel_left]
          refine ⟨_, _, rfl, ?_, ?_⟩
          · split <;> omega
          · split <;> omega
        obtain ⟨lower, upper, hlead, hlower, hupper⟩ := hlead
        simp only [List.cons_append, List.nil_append]
        rw [run_init_cons, hlead, List.nil_append,
          run_continue (by omega) (by omega) hlower hupper, if_neg (by omega),
          run_continue (by omega) (by omega) (by omega) (by omega), if_neg (by omega),
          run_continue (by omega) (by omega) (by omega) (by omega), if_pos rfl]
        congr 2
        omega

/-- A surrogate that is not one of a pair is written as the replacement character. -/
def encode : Text → List UInt8
  | [] => []
  | c :: t =>
      if 0xD800 ≤ c.toNat ∧ c.toNat < 0xDC00 then
        match t with
        | d :: rest =>
            if 0xDC00 ≤ d.toNat ∧ d.toNat < 0xE000 then
              bytesOf (0x10000 + (c.toNat - 0xD800) * 0x400 + (d.toNat - 0xDC00)) ++ encode rest
            else bytesOf 0xFFFD ++ encode (d :: rest)
        | [] => bytesOf 0xFFFD
      else if 0xDC00 ≤ c.toNat ∧ c.toNat < 0xE000 then bytesOf 0xFFFD ++ encode t
      else bytesOf c.toNat ++ encode t

/-- No surrogate stands alone. -/
def WellFormed : Text → Prop
  | [] => True
  | c :: t =>
      if 0xD800 ≤ c.toNat ∧ c.toNat < 0xDC00 then
        match t with
        | d :: rest => (0xDC00 ≤ d.toNat ∧ d.toNat < 0xE000) ∧ WellFormed rest
        | [] => False
      else ¬(0xDC00 ≤ c.toNat ∧ c.toNat < 0xE000) ∧ WellFormed t

instance decidableWellFormed : ∀ t, Decidable (WellFormed t)
  | [] => isTrue trivial
  | [c] => decidable_of_iff (¬(0xD800 ≤ c.toNat ∧ c.toNat < 0xDC00) ∧
      ¬(0xDC00 ≤ c.toNat ∧ c.toNat < 0xE000)) (by simp [WellFormed])
  | c :: d :: rest =>
      have := decidableWellFormed rest
      have := decidableWellFormed (d :: rest)
      decidable_of_iff (if 0xD800 ≤ c.toNat ∧ c.toNat < 0xDC00 then
          (0xDC00 ≤ d.toNat ∧ d.toNat < 0xE000) ∧ WellFormed rest
        else ¬(0xDC00 ≤ c.toNat ∧ c.toNat < 0xE000) ∧ WellFormed (d :: rest))
        (by rw [WellFormed.eq_def (c :: d :: rest)])

theorem unitsOf_toNat (c : CodeUnit) : unitsOf c.toNat = [c] := by
  have hlt : c.toNat < 0x10000 := c.toNat_lt
  rw [unitsOf, if_pos hlt, UInt16.ofNat_toNat]

theorem unitsOf_pair {c d : CodeUnit} (hc : 0xD800 ≤ c.toNat ∧ c.toNat < 0xDC00)
    (hd : 0xDC00 ≤ d.toNat ∧ d.toNat < 0xE000) :
    unitsOf (0x10000 + (c.toNat - 0xD800) * 0x400 + (d.toNat - 0xDC00)) = [c, d] := by
  have hhigh : 0xD800 + (0x10000 + (c.toNat - 0xD800) * 0x400 + (d.toNat - 0xDC00) - 0x10000) /
      0x400 = c.toNat := by omega
  have hlow : 0xDC00 + (0x10000 + (c.toNat - 0xD800) * 0x400 + (d.toNat - 0xDC00) - 0x10000) %
      0x400 = d.toNat := by omega
  rw [unitsOf, if_neg (by omega), hhigh, hlow, UInt16.ofNat_toNat, UInt16.ofNat_toNat]

/-- Text without lone surrogates survives. -/
theorem decode_encode : ∀ {t : Text}, WellFormed t → decode (encode t) = t
  | [], _ => rfl
  | c :: t, h => by
      have hlt : c.toNat < 0x10000 := c.toNat_lt
      rw [WellFormed.eq_def] at h
      dsimp only at h
      split at h
      · next hhigh =>
          cases t with
          | nil => exact h.elim
          | cons d rest =>
              obtain ⟨hlow, hrest⟩ := h
              rw [encode, if_pos hhigh, if_pos hlow, decode, run_bytesOf (by omega), unitsOf_pair hhigh hlow,
                ← decode, decode_encode hrest]
              rfl
      · next hhigh =>
          obtain ⟨hlow, hrest⟩ := h
          rw [encode.eq_def]
          dsimp only
          rw [if_neg hhigh, if_neg hlow, decode, run_bytesOf (by omega), unitsOf_toNat,
            ← decode, decode_encode hrest]
          rfl

end WireTools.Utf8

import WireTools.ClioRunner

/-! # When the resend decision cannot be forged

`ResendUnforged` is what a caller of the clio transport needs of one child's end: the two
decisions do not depend on the argument list, and a push is never taken as proven unapplied
when the child was killed, when its JSON says something else, or when its own output reports
an HTTP failure or a duplicate.

The message the patterns are searched in holds the command line, so the arguments can add an
occurrence and never remove one (`occurs_failedMessage`).  The decision is therefore safe
exactly when the arguments have nothing left to add: `resendUnforged_iff`. -/

namespace WireTools.ClioRunner

/-! ### What the child's end says -/

/-- Stdout is a JSON response that is no consistent failed trace. -/
def JsonNotFailedTrace (e : ChildEnd) : Prop :=
  ∃ v, Json.parse e.stdout = some v ∧ traceCode v = none

/-- The rejection code clio's own output reports, without the command line. -/
def reportedCode (e : ChildEnd) : Option ℕ :=
  getChainErrorCode ⟨some (streams e), some e.stdout, some e.stderr, none, none⟩

/-- The response is an HTTP failure after connecting. -/
def httpFailure (e : ChildEnd) : Bool :=
  HttpExceptionPattern.occurs e.stdout || HttpExceptionPattern.occurs e.stderr
    || (reportedCode e).any isHttpCode

/-- The response is a duplicate-transaction rejection. -/
def duplicate (e : ChildEnd) : Bool :=
  reportedCode e == some DuplicateTransactionCode

/-- The decisions on one child's end cannot be forged through the argument list. -/
def ResendUnforged (config : ClioRunnerConfig) (json : Bool) (e : ChildEnd) : Prop :=
  (∀ args args', decisions config json e args = decisions config json e args') ∧
    ∀ args, e.killed = true ∨ e.signal.isSome = true ∨ JsonNotFailedTrace e ∨
      httpFailure e = true ∨ duplicate e = true → (decisions config json e args).2 = false

/-! ### When they cannot -/

/-- A failed trace in stdout is no evidence under `message`: its code is a duplicate's or
HTTP's, or the message reports an HTTP failure. -/
def Discounted (message : Text) (e : ChildEnd) : Prop :=
  ∀ code, (Json.parse e.stdout).bind traceCode = some code →
    code = DuplicateTransactionCode ∨ isHttpCode code = true ∨
      HttpExceptionPattern.occurs message = true

/-- The message of a failed trace printed with exit 0. -/
def traceMessage (e : ChildEnd) : Text :=
  FailedTransactionTraceMessage ++
    ([e.stdout, e.stderr].filter isNotEmpty).flatMap (fun u => [newline] ++ u)

/-- The command without arguments already decides. -/
def ResendDecided (config : ClioRunnerConfig) (json : Bool) (e : ChildEnd) : Prop :=
  if e.failed = true then
    e.killed = true ∨ e.signal.isSome = true ∨
      if looksLikeJson e.stdout = true then Discounted (failedMessage config e []) e
      else Json.parse e.stdout = none ∧
        TransportFailurePattern.any (fun p => p.occurs (failedMessage config e [])) = true ∧
        httpFailure e = false ∧ duplicate e = false
  else e.killed = true → json = true → Discounted (traceMessage e) e

/-! ### The arguments only add occurrences -/

theorem wordEnds_spelled (args : List Text) (u : Text) :
    wordEnds (spelled args ++ newline :: u) = true := by
  cases args with
  | nil => rfl
  | cons a args => rfl

/-- What the patterns find in the command without arguments they find with any. -/
theorem occurs_failedMessage {p : Pattern} (hp : p.avoids newline = true)
    {config : ClioRunnerConfig} {e : ChildEnd}
    (h : p.occurs (failedMessage config e []) = true) (args : List Text) :
    p.occurs (failedMessage config e args) = true :=
  Pattern.occurs_splice hp (wordEnds_spelled args _) h

/-- An argument that spells a pattern is found. -/
theorem occurs_spelled {p : Pattern} {w : Text} (hw : reads p.classes w = some [])
    (config : ClioRunnerConfig) (e : ChildEnd) :
    p.occurs (failedMessage config e [w]) = true := by
  have hshape : failedMessage config e [w] =
      (commandHead config ++ [blank]) ++ (w ++ newline :: streams e) := by
    simp [failedMessage, spelled]
  rw [hshape]
  exact Pattern.occurs_of_reads hw _ rfl

theorem transport_newline : ∀ p ∈ TransportFailurePattern, p.avoids newline = true := by
  decide

theorem http_newline : HttpExceptionPattern.avoids newline = true := by
  decide

theorem transport_failedMessage {config : ClioRunnerConfig} {e : ChildEnd}
    (h : TransportFailurePattern.any (fun p => p.occurs (failedMessage config e [])) = true)
    (args : List Text) :
    TransportFailurePattern.any (fun p => p.occurs (failedMessage config e args)) = true := by
  obtain ⟨p, hp, hocc⟩ := List.any_eq_true.1 h
  exact List.any_eq_true.2 ⟨p, hp, occurs_failedMessage (transport_newline p hp) hocc args⟩

/-- A memo that spells a failed connection. -/
def forgedConnection : Text := text "Connection refused"

theorem transport_forged (config : ClioRunnerConfig) (e : ChildEnd) :
    TransportFailurePattern.any
      (fun p => p.occurs (failedMessage config e [forgedConnection])) = true := by
  refine List.any_eq_true.2 ⟨.anyCase "Connection refused", by simp [TransportFailurePattern], ?_⟩
  exact occurs_spelled (by decide) config e

/-- A memo that spells an HTTP failure. -/
def forgedHttp : Text := text "Error 3200000"

theorem http_forged (config : ClioRunnerConfig) (e : ChildEnd) :
    HttpExceptionPattern.occurs (failedMessage config e [forgedHttp]) = true :=
  occurs_spelled (by decide) config e

/-! ### The streams are part of every message -/

theorem http_nil : HttpExceptionPattern.occurs [] = false := by decide

/-- An HTTP failure in either stream is found in a message that ends with the streams. -/
theorem http_streams {e : ChildEnd} (x : Text)
    (h : HttpExceptionPattern.occurs e.stdout = true ∨
      HttpExceptionPattern.occurs e.stderr = true) :
    HttpExceptionPattern.occurs
      (x ++ ([e.stdout, e.stderr].filter isNotEmpty).flatMap (fun u => [newline] ++ u)) = true := by
  have hnonempty : ∀ t : Text, HttpExceptionPattern.occurs t = true → isNotEmpty t = true := by
    intro t ht
    cases t with
    | nil => rw [http_nil] at ht; exact absurd ht (by simp)
    | cons c t => rfl
  apply Pattern.occurs_append_left
  rcases h with hout | herr
  · rw [List.filter_cons_of_pos (hnonempty _ hout), List.flatMap_cons, List.append_assoc]
    refine Pattern.occurs_append_left _ (Pattern.occurs_append_right ?_ hout)
    by_cases herr : isNotEmpty e.stderr = true
    · rw [List.filter_cons_of_pos herr]
      rfl
    · rw [List.filter_cons_of_neg herr]
      rfl
  · have hlast : ([e.stdout, e.stderr].filter isNotEmpty).flatMap (fun u => [newline] ++ u) =
        ([e.stdout].filter isNotEmpty).flatMap (fun u => [newline] ++ u) ++
          ([newline] ++ e.stderr) := by
      rw [show [e.stdout, e.stderr] = [e.stdout] ++ [e.stderr] from rfl, List.filter_append,
        List.flatMap_append, List.filter_cons_of_pos (hnonempty _ herr)]
      simp
    rw [hlast, ← List.append_assoc]
    exact Pattern.occurs_append_left _ herr

/-! ### JSON responses -/

theorem looksLikeJson_of_skipBlanks {c : CodeUnit} {u : Text} : ∀ {t : Text},
    Json.skipBlanks t = c :: u → c = 91 ∨ c = 123 → looksLikeJson t = true
  | [], h, _ => by simp [Json.skipBlanks] at h
  | d :: t, h, hc => by
      unfold Json.skipBlanks at h
      unfold looksLikeJson
      by_cases hd : Json.isBlank d = true
      · rw [List.dropWhile_cons_of_pos hd] at h
        rw [List.dropWhile_cons_of_pos (Json.isSpace_of_isBlank hd)]
        exact looksLikeJson_of_skipBlanks h hc
      · rw [List.dropWhile_cons_of_neg hd] at h
        obtain ⟨rfl, _⟩ := List.cons.inj h
        rcases hc with rfl | rfl <;> rfl

/-- A text that parses to an array or an object looks like one. -/
theorem looksLikeJson_of_parse {t : Text} {v : Json} (h : Json.parse t = some v)
    (hv : (∃ items, v = .array items) ∨ ∃ members, v = .object members) :
    looksLikeJson t = true := by
  simp only [Json.parse, Option.bind_eq_bind, Option.bind_eq_some_iff] at h
  obtain ⟨⟨v', rest⟩, hread, hrest⟩ := h
  split at hrest
  · obtain rfl : v' = v := by simpa using hrest
    obtain ⟨c, u, hskip, hc⟩ := Json.readValue_opening hread hv
    exact looksLikeJson_of_skipBlanks hskip hc
  · exact absurd hrest (by simp)

/-- A trace with a rejection code is a failed trace. -/
theorem traceCode_failed {v : Json} {code : ℕ} (h : traceCode v = some code) :
    isFailedTransactionTrace (.json v) = true := by
  simp only [traceCode, Option.bind_eq_bind, Option.bind_eq_some_iff] at h
  obtain ⟨_, _, processed, hprocessed, _, _, _, ⟨except, hexcept, m, hcode, _⟩, _⟩ := h
  unfold isFailedTransactionTrace
  simp only [hprocessed, Option.bind_some, hexcept]
  cases except with
  | object members => rfl
  | _ => exact absurd hcode (by simp [Json.get])

theorem members_of_failed {v : Json} (h : isFailedTransactionTrace (.json v) = true) :
    ∃ members, v = .object members := by
  cases v with
  | object members => exact ⟨members, rfl⟩
  | _ => exact absurd h (by simp [isFailedTransactionTrace, Json.get])

/-- When stdout looks like JSON, only its trace is read. -/
theorem getChainErrorCode_of_json {message stderr signal : Option Text} {killed : Option Bool}
    {stdout : Text} (h : looksLikeJson stdout = true) :
    getChainErrorCode ⟨message, some stdout, stderr, killed, signal⟩ =
      (Json.parse stdout).bind traceCode := by
  unfold getChainErrorCode
  simp only [Option.any_some, h, if_true, Option.bind_some]
  cases Json.parse stdout with
  | none => rfl
  | some v => cases v <;> rfl

/-! ### The decisions on each kind of end -/

/-- The error of a failed command, its message in shape. -/
def failedError (config : ClioRunnerConfig) (e : ChildEnd) (args : List Text) : ClioError :=
  { commandFailed config args e with message := some (failedMessage config e args) }

section Decisions

variable {config : ClioRunnerConfig} {json : Bool} {e : ChildEnd}

theorem decisions_failed (hf : e.failed = true) (args : List Text) :
    decisions config json e args =
      (isTransportFailure (failedError config e args),
        isProvenUnapplied (failedError config e args)) := by
  simp only [decisions, runOnce, hf, if_true, commandFailed_message, failedError]

/-- A killed or signalled child proves nothing. -/
theorem decisions_killed (hf : e.failed = true)
    (hk : e.killed = true ∨ e.signal.isSome = true) (args : List Text) :
    decisions config json e args = (false, false) := by
  rw [decisions_failed hf]
  rcases hk with hk | hk
  · simp [isTransportFailure, isProvenUnapplied, failedError, commandFailed, hk]
  · cases hs : e.signal with
    | none => rw [hs] at hk; exact absurd hk (by simp)
    | some signal => simp [isTransportFailure, isProvenUnapplied, failedError, commandFailed, hs]

/-- What is left of the decisions when the child ended by its exit code. -/
theorem decisions_exited (hf : e.failed = true) (hk : e.killed = false) (hs : e.signal = none)
    (args : List Text) :
    decisions config json e args =
      let transport := !looksLikeJson e.stdout &&
        TransportFailurePattern.any fun p => p.occurs (failedMessage config e args)
      (transport, transport ||
        isRejection (failedMessage config e args)
          (getChainErrorCode (failedError config e args))) := by
  have hkilled : (some false != some true) = true := rfl
  rw [decisions_failed hf]
  simp [isTransportFailure, isProvenUnapplied, failedError, commandFailed, hk, hs, hkilled]

/-- The decisions on a failed trace printed with exit 0, and on everything else that exits
with 0. -/
theorem decisions_printed (hf : e.failed = false) (args : List Text) :
    decisions config json e args =
      (false, json && isRejection (traceMessage e) ((Json.parse e.stdout).bind traceCode)) := by
  have hne : FailedTransactionTraceMessage ≠ [] := by decide
  cases json with
  | false => simp [decisions, runOnce, hf]
  | true =>
      cases hparse : Json.parse e.stdout with
      | none =>
          simp [decisions, runOnce, hf, parseJsonOutput, hparse, isFailedTransactionTrace,
            isRejection]
      | some v =>
          by_cases htrace : isFailedTransactionTrace (.json v) = true
          · have hlooks : looksLikeJson e.stdout = true :=
              looksLikeJson_of_parse hparse (Or.inr (members_of_failed htrace))
            simp only [decisions, runOnce, hf, Bool.false_eq_true, if_false, if_true,
              parseJsonOutput, hparse, htrace, enrichClioError, enriched_message hne]
            simp only [isTransportFailure, isProvenUnapplied, hlooks,
              getChainErrorCode_of_json hlooks, hparse, traceMessage]
            simp
          · have hcode : traceCode v = none := by
              by_contra hc
              obtain ⟨code, hcode⟩ := Option.ne_none_iff_exists'.1 hc
              exact htrace (traceCode_failed hcode)
            simp [decisions, runOnce, hf, parseJsonOutput, hparse, htrace, hcode, isRejection]

/-! ### Rejections -/

theorem isRejection_of_http {message : Text}
    (h : HttpExceptionPattern.occurs message = true) (code : Option ℕ) :
    isRejection message code = false := by
  cases code with
  | none => rfl
  | some code => simp [isRejection, h]

theorem discounted_iff {message : Text} :
    Discounted message e ↔ isRejection message ((Json.parse e.stdout).bind traceCode) = false := by
  unfold Discounted
  cases (Json.parse e.stdout).bind traceCode with
  | none => simp [isRejection]
  | some code =>
      simp only [Option.some.injEq, forall_eq', isRejection, Bool.and_eq_false_iff,
        bne_eq_false_iff_eq, Bool.not_eq_false']
      rw [or_assoc, or_comm (a := isHttpCode code = true)]

/-- A rejection code is read from a text that looks like JSON. -/
theorem traceCode_of_not_looks (h : looksLikeJson e.stdout = false) :
    (Json.parse e.stdout).bind traceCode = none := by
  by_contra hc
  obtain ⟨code, hcode⟩ := Option.ne_none_iff_exists'.1 hc
  obtain ⟨v, hparse, hv⟩ := Option.bind_eq_some_iff.1 hcode
  have hlooks := looksLikeJson_of_parse hparse (Or.inr (members_of_failed (traceCode_failed hv)))
  rw [h] at hlooks
  exact absurd hlooks (by simp)

/-- An HTTP failure or a duplicate that clio's own output reports discounts its trace. -/
theorem isRejection_reported (x : Text) (h : httpFailure e = true ∨ duplicate e = true) :
    isRejection (x ++ ([e.stdout, e.stderr].filter isNotEmpty).flatMap (fun u => [newline] ++ u))
      ((Json.parse e.stdout).bind traceCode) = false := by
  by_cases hlooks : looksLikeJson e.stdout = true
  · have hcode : reportedCode e = (Json.parse e.stdout).bind traceCode :=
      getChainErrorCode_of_json hlooks
    simp only [httpFailure, duplicate, hcode, Bool.or_eq_true, beq_iff_eq] at h
    rcases h with (hstreams | hhttp) | hdup
    · exact isRejection_of_http (http_streams x hstreams) _
    · cases hc : (Json.parse e.stdout).bind traceCode with
      | none => rfl
      | some code =>
          rw [hc, Option.any_some] at hhttp
          simp [isRejection, hhttp]
    · rw [hdup]
      simp [isRejection]
  · rw [traceCode_of_not_looks (by simpa using hlooks)]
    rfl

/-! ### Each kind of end -/

theorem unforged_killed (hf : e.failed = true) (hk : e.killed = true ∨ e.signal.isSome = true) :
    ResendUnforged config json e := by
  refine ⟨fun args args' => ?_, fun args _ => ?_⟩
  · rw [decisions_killed hf hk, decisions_killed hf hk]
  · rw [decisions_killed hf hk]

theorem unforged_printed_iff (hf : e.failed = false) :
    ResendUnforged config json e ↔
      (e.killed = true → json = true → Discounted (traceMessage e) e) := by
  have hsignal : e.signal.isSome = false := by
    unfold ChildEnd.failed at hf
    cases hs : e.signal with
    | none => rfl
    | some signal => simp [hs] at hf
  constructor
  · intro h hk hj
    have hproven := h.2 [] (Or.inl hk)
    rw [decisions_printed hf, hj, Bool.true_and] at hproven
    exact discounted_iff.2 hproven
  · intro h
    refine ⟨fun args args' => ?_, fun args hcase => ?_⟩
    · rw [decisions_printed hf, decisions_printed hf]
    · rw [decisions_printed hf]
      cases json with
      | false => rfl
      | true =>
          simp only [Bool.true_and]
          rcases hcase with hk | hs | ⟨v, hparse, hv⟩ | hreported
          · exact discounted_iff.1 (h hk rfl)
          · rw [hsignal] at hs
            exact absurd hs (by simp)
          · rw [hparse, Option.bind_some, hv]
            rfl
          · exact isRejection_reported _ hreported

/-- The decisions on a response that looks like JSON depend on its trace and on HTTP
failures. -/
theorem decisions_json (hf : e.failed = true) (hk : e.killed = false) (hs : e.signal = none)
    (hlooks : looksLikeJson e.stdout = true) (args : List Text) :
    decisions config json e args =
      (false, isRejection (failedMessage config e args)
        ((Json.parse e.stdout).bind traceCode)) := by
  rw [decisions_exited hf hk hs]
  simp only [hlooks, Bool.not_true, Bool.false_and, Bool.false_or]
  rw [failedError, commandFailed, getChainErrorCode_of_json hlooks]

theorem unforged_json_iff (hf : e.failed = true) (hk : e.killed = false) (hs : e.signal = none)
    (hlooks : looksLikeJson e.stdout = true) :
    ResendUnforged config json e ↔ Discounted (failedMessage config e []) e := by
  rw [discounted_iff]
  constructor
  · intro h
    have hsame := h.1 [] [forgedHttp]
    rw [decisions_json hf hk hs hlooks, decisions_json hf hk hs hlooks,
      isRejection_of_http (http_forged config e)] at hsame
    exact congrArg Prod.snd hsame
  · intro h
    have hall : ∀ args, decisions config json e args = (false, false) := by
      intro args
      rw [decisions_json hf hk hs hlooks, ← discounted_iff.1]
      intro code hcode
      rcases discounted_iff.2 h code hcode with hdup | hhttp | hmessage
      · exact Or.inl hdup
      · exact Or.inr (Or.inl hhttp)
      · exact Or.inr (Or.inr (occurs_failedMessage http_newline hmessage args))
    refine ⟨fun args args' => ?_, fun args _ => ?_⟩
    · rw [hall, hall]
    · rw [hall]

theorem unforged_text_iff (hf : e.failed = true) (hk : e.killed = false) (hs : e.signal = none)
    (hlooks : looksLikeJson e.stdout = false) :
    ResendUnforged config json e ↔
      Json.parse e.stdout = none ∧
        TransportFailurePattern.any (fun p => p.occurs (failedMessage config e [])) = true ∧
        httpFailure e = false ∧ duplicate e = false := by
  have hdecide : ∀ args, TransportFailurePattern.any
      (fun p => p.occurs (failedMessage config e args)) = true →
      decisions config json e args = (true, true) := by
    intro args hany
    rw [decisions_exited hf hk hs]
    simp [hlooks, hany]
  constructor
  · intro h
    have hsame := congrArg Prod.fst (h.1 [] [forgedConnection])
    rw [hdecide _ (transport_forged config e), decisions_exited hf hk hs] at hsame
    simp only [hlooks, Bool.not_false, Bool.true_and] at hsame
    have hproven : ¬ (e.killed = true ∨ e.signal.isSome = true ∨ JsonNotFailedTrace e ∨
        httpFailure e = true ∨ duplicate e = true) := by
      intro hcase
      have hfalse := h.2 [] hcase
      rw [hdecide _ hsame] at hfalse
      exact absurd hfalse (by simp)
    refine ⟨?_, hsame, ?_, ?_⟩
    · cases hparse : Json.parse e.stdout with
      | none => rfl
      | some v =>
          have hcode := traceCode_of_not_looks hlooks
          rw [hparse, Option.bind_some] at hcode
          exact absurd (Or.inr (Or.inr (Or.inl ⟨v, hparse, hcode⟩))) hproven
    · by_contra hhttp
      exact hproven (by simp_all)
    · by_contra hdup
      exact hproven (by simp_all)
  · rintro ⟨hparse, hany, hhttp, hdup⟩
    have hall : ∀ args, decisions config json e args = (true, true) :=
      fun args => hdecide args (transport_failedMessage hany args)
    refine ⟨fun args args' => ?_, fun args hcase => ?_⟩
    · rw [hall, hall]
    · exfalso
      rcases hcase with h | h | ⟨v, hv, _⟩ | h | h
      · rw [hk] at h; exact absurd h (by simp)
      · rw [hs] at h; exact absurd h (by simp)
      · rw [hparse] at hv; exact absurd hv (by simp)
      · rw [hhttp] at h; exact absurd h (by simp)
      · rw [hdup] at h; exact absurd h (by simp)

end Decisions

/-! ### The decision, exactly -/

/-- The decision on a child's end cannot be forged exactly when the command without arguments
already decides it. -/
theorem resendUnforged_iff (config : ClioRunnerConfig) (json : Bool) (e : ChildEnd) :
    ResendUnforged config json e ↔ ResendDecided config json e := by
  unfold ResendDecided
  cases hf : e.failed with
  | false =>
      simp only [Bool.false_eq_true, if_false]
      exact unforged_printed_iff hf
  | true =>
      simp only [if_true]
      by_cases hk : e.killed = true ∨ e.signal.isSome = true
      · refine ⟨fun _ => ?_, fun _ => unforged_killed hf hk⟩
        rcases hk with hk | hk
        · exact Or.inl hk
        · exact Or.inr (Or.inl hk)
      · obtain ⟨hkilled, hsignal⟩ := not_or.1 hk
        have hk : e.killed = false := by simpa using hkilled
        have hs : e.signal = none := by simpa using hsignal
        simp only [hk, hs, Bool.false_eq_true, false_or, Option.isSome_none]
        cases hlooks : looksLikeJson e.stdout with
        | true => simpa using unforged_json_iff hf hk hs hlooks
        | false => simpa using unforged_text_iff hf hk hs hlooks

/-- A push whose reply was lost after the connection opened, with a memo of the caller's
choice. -/
def lostReply : ChildEnd where
  exitCode := some 1
  signal := none
  killed := false
  stdout := []
  stderr := text "Error 3200002: http request fail"

def localClio : ClioRunnerConfig :=
  ⟨text "clio", text "http://localhost:8888", none⟩

/-- A memo that spells a failed connection turns a lost reply into a push that is sent
again. -/
theorem memo_forges_resend :
    decisions localClio false lostReply [forgedConnection] = (true, true) ∧
      decisions localClio false lostReply [] = (false, false) ∧
      httpFailure lostReply = true ∧ ¬ ResendUnforged localClio false lostReply := by
  have hmemo : decisions localClio false lostReply [forgedConnection] = (true, true) := by
    decide
  have hplain : decisions localClio false lostReply [] = (false, false) := by decide
  have hhttp : httpFailure lostReply = true := by decide
  refine ⟨hmemo, hplain, hhttp, fun h => ?_⟩
  have hsame := h.1 [forgedConnection] []
  rw [hmemo, hplain] at hsame
  exact absurd hsame (by simp)

end WireTools.ClioRunner

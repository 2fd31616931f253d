import WireTools.Json

/-! # The clio transport: what a failed command proves

`ClioRunner.runOnce` runs clio once and, when the command fails, folds the child's streams
into the error's message.  `isTransportFailure` and `isProvenUnapplied` then decide from that
message, and from the captured stdout, whether a push may be signed and sent again.

* `ChildEnd` is how the child ends; everything else the decision reads is the command line;
* `getChainErrorCode` reads a rejection code, from a JSON trace or from the message's text;
* `commandFailed_message` is the shape of an enriched message: the command line, a line feed
  and the child's streams. -/

namespace WireTools

/-- A failed clio invocation, every member optional. -/
structure ClioError where
  message : Option Text
  stdout : Option Text
  stderr : Option Text
  killed : Option Bool
  signal : Option Text

/-- How a clio child ends. -/
structure ChildEnd where
  /-- The exit code, when the child exited. -/
  exitCode : Option ℕ
  /-- The signal that ended the child, when one did. -/
  signal : Option Text
  /-- Whether the runner killed the child, on its timeout. -/
  killed : Bool
  stdout : Text
  stderr : Text

/-- `execFile` rejects unless the child exited with 0 and without a signal. -/
def ChildEnd.failed (e : ChildEnd) : Bool :=
  !(e.exitCode == some 0 && e.signal.isNone)

structure ClioRunnerConfig where
  binary : Text
  nodeopUrl : Text
  kiodUrl : Option Text

/-- What a clio run returns: parsed JSON, or trimmed text. -/
inductive ClioOutput where
  | json (v : Json)
  | plain (t : Text)

namespace ClioRunner

/-! ### Messages -/

def isNotEmpty (t : Text) : Bool :=
  !t.isEmpty

/-- Fold the child's streams into the message. -/
def enrichClioError (error : ClioError) (stdout stderr : Text) : ClioError :=
  match error.message with
  | some message =>
      { error with message := some (join [newline] ([message, stdout, stderr].filter isNotEmpty)) }
  | none => error

/-- The argument list of one command. -/
def fullArgs (config : ClioRunnerConfig) (args : List Text) : List Text :=
  [text "-u", config.nodeopUrl] ++
    (match config.kiodUrl with
      | some url => if isNotEmpty url then [text "--wallet-url", url] else []
      | none => []) ++ args

def commandLine (config : ClioRunnerConfig) (args : List Text) : Text :=
  join [blank] (config.binary :: fullArgs config args)

/-- The rejection of a failed command, as `execFile` builds it. -/
def commandFailed (config : ClioRunnerConfig) (args : List Text) (e : ChildEnd) : ClioError :=
  { message := some (text "Command failed: " ++ commandLine config args ++ [newline] ++ e.stderr)
    stdout := some e.stdout
    stderr := some e.stderr
    killed := some e.killed
    signal := e.signal }

/-! ### Patterns -/

/-- The phrases of a failed connection. -/
def TransportFailurePattern : List Pattern :=
  [.anyCase "Failed http request to nodeop", .anyCase "Connection refused",
    .anyCase "couldn't connect to server"]

/-- `Error 3dddddd:`. -/
def ChainErrorCodePattern : Pattern :=
  ⟨(text "Error 3").map exactly ++ List.replicate 6 isDigit ++ [exactly 58], false⟩

/-- `Error 3200ddd` at the end of its word. -/
def HttpExceptionPattern : Pattern :=
  ⟨(text "Error 3200").map exactly ++ List.replicate 3 isDigit, true⟩

def ChainErrorCodeMinimum : ℕ := 3000000

def ChainErrorCodeMaximum : ℕ := 3999999

def ChainErrorCodePrefix : Text := text "Error "

def DuplicateTransactionCode : ℕ := 3040008

def FailedTransactionTraceMessage : Text := text "clio printed a failed transaction trace"

/-- Whether a text looks like a JSON array or object: after white space, `[` or a brace. -/
def looksLikeJson (t : Text) : Bool :=
  (t.dropWhile isSpace).head?.any fun c => c == 91 || c == 123

/-! ### Reading a response -/

/-- The text without the white space at its ends. -/
def trim (t : Text) : Text :=
  ((t.dropWhile isSpace).reverse.dropWhile isSpace).reverse

/-- Parse clio's stdout, or return it trimmed when it is not JSON. -/
def parseJsonOutput (stdout : Text) : ClioOutput :=
  match Json.parse stdout with
  | some v => .json v
  | none => .plain (trim stdout)

/-- A transaction trace the chain failed: its `processed.except` is an object. -/
def isFailedTransactionTrace : ClioOutput → Bool
  | .json v =>
      match (v.get "processed").bind fun processed => processed.get "except" with
      | some (.object _) => true
      | _ => false
  | .plain _ => false

/-- An integer of the chain's exception family. -/
def chainCode : Json → Option ℕ
  | .number d =>
      if d.value.den = 1 ∧ (ChainErrorCodeMinimum : Rat) ≤ d.value ∧
          d.value ≤ (ChainErrorCodeMaximum : Rat) then some d.value.num.toNat
      else none
  | _ => none

/-- The rejection code of a failed trace that is consistent: one transaction at both levels,
no receipt, not scheduled. -/
def traceCode (response : Json) : Option ℕ := do
  let transactionId ← (response.get "transaction_id").bind Json.asString
  let processed ← response.get "processed"
  let id ← (processed.get "id").bind Json.asString
  let code ← (processed.get "except").bind fun except => (except.get "code").bind chainCode
  let unreceipted := match processed.get "receipt" with
    | some .null => true
    | _ => false
  let unscheduled := match processed.get "scheduled" with
    | none => true
    | some (.bool b) => !b
    | some _ => false
  if unreceipted && unscheduled && isNotEmpty transactionId && transactionId == id then some code
  else none

/-- The rejection code clio reports: of a JSON response, or of the message when stdout does
not look like JSON. -/
def getChainErrorCode (error : ClioError) : Option ℕ :=
  let scan :=
    if error.stdout.any looksLikeJson then none
    else (error.message.bind ChainErrorCodePattern.find).map fun found =>
      Json.digitsValue ((found.drop 6).take 7)
  match error.stdout.bind Json.parse with
  | none => scan
  | some .null => scan
  | some response => traceCode response

/-! ### The decisions -/

/-- A failed connection, safe to run again. -/
def isTransportFailure (error : ClioError) : Bool :=
  match error.message with
  | none => false
  | some message =>
      error.killed != some true && error.signal.isNone
        && (match error.stdout with
            | none => true
            | some stdout => !looksLikeJson stdout)
        && TransportFailurePattern.any fun p => p.occurs message

/-- Whether a rejection with `code` is HTTP's own: `Error code:` matches the family. -/
def isHttpCode (code : ℕ) : Bool :=
  HttpExceptionPattern.occurs (ChainErrorCodePrefix ++ text (toString code) ++ text ":")

/-- Whether a code is a chain rejection under `message`: present, not a duplicate's, and HTTP's
neither by the message nor by itself. -/
def isRejection (message : Text) : Option ℕ → Bool
  | none => false
  | some code =>
      code != DuplicateTransactionCode && !HttpExceptionPattern.occurs message && !isHttpCode code

/-- A failed push that provably did not apply. -/
def isProvenUnapplied (error : ClioError) : Bool :=
  match error.message with
  | none => false
  | some message =>
      if error.killed = some true ∨ error.signal.isSome then false
      else isTransportFailure error || isRejection message (getChainErrorCode error)

/-! ### One run -/

/-- One clio subprocess execution. -/
def runOnce (config : ClioRunnerConfig) (json : Bool) (args : List Text) (e : ChildEnd) :
    Except ClioError ClioOutput :=
  if e.failed then
    .error (enrichClioError (commandFailed config args e) e.stdout e.stderr)
  else if json then
    let result := parseJsonOutput e.stdout
    if isFailedTransactionTrace result then
      .error (enrichClioError ⟨some FailedTransactionTraceMessage, some e.stdout, some e.stderr,
        none, none⟩ e.stdout e.stderr)
    else .ok result
  else .ok (.plain (trim e.stdout))

/-- What a caller decides from one run: whether it is a failed connection, and whether a push
provably did not apply. -/
def decisions (config : ClioRunnerConfig) (json : Bool) (e : ChildEnd) (args : List Text) :
    Bool × Bool :=
  match runOnce config json args e with
  | .error error => (isTransportFailure error, isProvenUnapplied error)
  | .ok _ => (false, false)

/-! ### The shape of an enriched message -/

/-- The child's streams as they end an enriched message. -/
def streams (e : ChildEnd) : Text :=
  e.stderr ++ ([e.stdout, e.stderr].filter isNotEmpty).flatMap (fun u => [newline] ++ u)

/-- What stands in the message before the arguments. -/
def commandHead (config : ClioRunnerConfig) : Text :=
  text "Command failed: " ++ commandLine config []

/-- The arguments as they stand in a command line. -/
def spelled (args : List Text) : Text :=
  args.flatMap fun a => [blank] ++ a

/-- The message of a failed command once enriched. -/
def failedMessage (config : ClioRunnerConfig) (e : ChildEnd) (args : List Text) : Text :=
  commandHead config ++ (spelled args ++ newline :: streams e)

theorem commandLine_eq (config : ClioRunnerConfig) (args : List Text) :
    commandLine config args = commandLine config [] ++ spelled args := by
  have hargs : fullArgs config args = fullArgs config [] ++ args := by simp [fullArgs]
  unfold commandLine
  rw [hargs, ← List.cons_append, join_append]
  rfl

/-- A non-empty message is followed by the streams that hold something. -/
theorem enriched_message {message : Text} (h : message ≠ []) (stdout stderr : Text) :
    join [newline] ([message, stdout, stderr].filter isNotEmpty) =
      message ++ ([stdout, stderr].filter isNotEmpty).flatMap (fun u => [newline] ++ u) := by
  rw [List.filter_cons_of_pos (by cases message with
    | nil => exact absurd rfl h
    | cons c t => rfl)]
  rfl

theorem text_commandFailed_ne_nil (t : Text) : text "Command failed: " ++ t ≠ [] := by
  rw [show text "Command failed: " = 67 :: (text "Command failed: ").tail by decide]
  simp

/-- The message of a failed command: the command line, a line feed, the streams. -/
theorem commandFailed_message (config : ClioRunnerConfig) (args : List Text) (e : ChildEnd) :
    enrichClioError (commandFailed config args e) e.stdout e.stderr =
      { commandFailed config args e with message := some (failedMessage config e args) } := by
  unfold enrichClioError commandFailed failedMessage commandHead streams
  simp only [List.append_assoc]
  rw [enriched_message (text_commandFailed_ne_nil _), commandLine_eq config args]
  simp only [List.append_assoc, List.cons_append, List.nil_append]

end ClioRunner

end WireTools

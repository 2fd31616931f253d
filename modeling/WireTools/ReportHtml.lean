import WireTools.HtmlTokens
import WireTools.ReportCsv

/-! # Reports as HTML

One file with all of a report, its groups, phases and steps nested as foldable details.

* `render` writes the file; the line with the time is handed over (`Timestamp`), as it shows a
  clock;
* `document` is the same file as a tree of markup, whose texts are the texts of the report:
  `render_eq`;
* `tokenize_render`: a tokenizer sees the tags of the tree, and the texts as characters;
* `reports_read_iff`: this file and the one of `ReportCsvRenderer` give everything back if and only
  if no carriage return stands outside of quotes in the latter. -/

namespace WireTools.ReportHtmlRenderer

open Report

/-! ### Numbers and times -/

/-- `(ms / 1000).toFixed(1)`: the nearest tenth, the larger one of two at the same distance.
Beyond `10^21` seconds the source writes an exponent; no two clock times are as far apart. -/
def seconds (ms : ℤ) : Text :=
  let tenths := (Decimal.nearestDouble (ms.natAbs / 1000) * 10 + 1 / 2).floor.toNat
  (if ms < 0 then [45] else []) ++ (natText (tenths / 10) ++ 46 :: natText (tenths % 10))

/-- What a text may have that is written as it stands. -/
def isPlain (c : CodeUnit) : Bool := c != 38 && c != 60 && c != 62

/-- The line with the time of a report, in two time zones. -/
structure Timestamp where
  line : Text
  plain : ∀ c ∈ line, isPlain c = true

/-! ### The file -/

def esc (value : Text) : Text :=
  replaceAll 62 (text "&gt;") (replaceAll 60 (text "&lt;") (replaceAll 38 (text "&amp;") value))

/-- How many calls the step recorded. -/
def callCount (step : StepResult) : ℕ :=
  match (step.extra.getD []).lookup (text "calls") with
  | some (.array calls) => calls.length
  | _ => 0

/-- Open where something failed or was skipped, and at the top. -/
def openByDefault (node : Node) (depth : ℕ) : Bool :=
  node.hasProblem || depth = 0

/-- The style sheet, line by line. -/
def CssLines : List String :=
  ["",
    "    :root\x7bfont-family:ui-monospace,Menlo,monospace;background:#0d1117;color:#c9d1d9\x7d",
    "    body\x7bmargin:0;padding:1.5rem;max-width:1100px;margin:auto\x7d",
    "    header h1\x7bmargin:.2rem 0\x7d",
    "    header.ok h1\x7bcolor:#3fb950\x7d header.fail h1\x7bcolor:#f85149\x7d",
    "    nav.fold-controls\x7bmargin:.6rem 0\x7d",
    "    nav.fold-controls button\x7bbackground:#21262d;color:#c9d1d9;border:1px solid #30363d;",
    "      border-radius:6px;padding:.3rem .7rem;margin-right:.5rem;font:inherit;cursor:pointer\x7d",
    "    nav.fold-controls button:hover\x7bbackground:#30363d\x7d",
    "    details\x7bborder:1px solid #30363d;border-radius:8px;margin:.5rem 0\x7d",
    "    details.fail\x7bborder-color:#f8514966\x7d",
    "    details>summary\x7bcursor:pointer;padding:.4rem .8rem;user-select:none\x7d",
    "    details>summary:hover\x7bbackground:#161b22\x7d",
    "    details.group>summary\x7bfont-weight:600\x7d",
    "    .verdict\x7bfont-weight:600\x7d",
    "    details.ok>summary .verdict\x7bcolor:#3fb950\x7d",
    "    details.fail>summary .verdict\x7bcolor:#f85149\x7d",
    "    summary small\x7bfont-weight:400;color:#8b949e\x7d",
    "    .children,.steps,.payloads\x7bpadding:.2rem .8rem .6rem .8rem\x7d",
    "    details.step>summary\x7bdisplay:grid;grid-template-columns:10rem 1fr 5rem 5.5rem;",
    "      gap:.5rem;align-items:center\x7d",
    "    details.step\x7bborder-left-width:3px\x7d",
    "    details.step.ok\x7bborder-left-color:#3fb950\x7d",
    "    details.step.fail\x7bborder-left-color:#f85149\x7d",
    "    details.step.skip\x7bborder-left-color:#6e7681;color:#6e7681\x7d",
    "    .actor\x7bbackground:#161b22;border-radius:4px;padding:.1rem .4rem;text-align:center;font-size:.85em\x7d",
    "    .status\x7btext-align:center;font-size:.85em\x7d",
    "    .status.ok\x7bcolor:#3fb950\x7d .status.fail\x7bcolor:#f85149\x7d .status.skip\x7bcolor:#6e7681\x7d",
    "    .dur\x7bcolor:#8b949e;text-align:right\x7d",
    "    details.payload\x7bborder-style:dashed\x7d",
    "    details.payload.error\x7bborder-color:#f85149\x7d",
    "    details.payload>pre\x7bmargin:0;padding:.5rem .8rem;white-space:pre-wrap;",
    "      font-size:.85em;background:#161b22;border-radius:0 0 8px 8px\x7d",
    "    details.payload.error>pre\x7bcolor:#ffa198\x7d"]

def Css : Text := join (text "\n") (CssLines.map text)

/-- The script of the fold controls, line by line. -/
def FoldScriptLines : List String :=
  ["",
    "    (function () \x7b",
    "      var all = function () \x7b return document.querySelectorAll(\"main details\"); \x7d;",
    "      var set = function (open, filter) \x7b",
    "        all().forEach(function (d) \x7b d.open = filter ? filter(d) : open; \x7d);",
    "      \x7d;",
    "      var failuresOnly = function (d) \x7b",
    "        return d.classList.contains(\"fail\") ||",
    "          (d.classList.contains(\"payload\") && d.closest(\"details.step.fail\") != null &&",
    "           !d.classList.contains(\"input\"));",
    "      \x7d;",
    "      document.querySelectorAll(\"nav.fold-controls button\").forEach(function (button) \x7b",
    "        button.addEventListener(\"click\", function () \x7b",
    "          var mode = button.getAttribute(\"data-fold\");",
    "          if (mode === \"expand\") set(true);",
    "          else if (mode === \"collapse\") set(false);",
    "          else set(false, failuresOnly);",
    "        \x7d);",
    "      \x7d);",
    "      // On a FAILED run, expand the chain down to the first failed step and",
    "      // bring it into view — the report opens ON the failure.",
    "      var firstFailure = document.querySelector(\"main details.step.fail\");",
    "      if (firstFailure) \x7b",
    "        var node = firstFailure;",
    "        while (node) \x7b",
    "          if (node.tagName === \"DETAILS\") node.open = true;",
    "          node = node.parentElement;",
    "        \x7d",
    "        firstFailure.scrollIntoView(\x7b behavior: \"smooth\", block: \"center\" \x7d);",
    "      \x7d",
    "    \x7d)();"]

def FoldScript : Text := join (text "\n") (FoldScriptLines.map text)

/-- The members of an error. -/
def errorValue (error : ErrorDetail) : Value :=
  let orNull (t : Option Text) : Value := (t.map Value.string).getD .null
  .object [(text "message", .string error.message), (text "stack", orNull error.stack),
    (text "processOutput", orNull error.processOutput), (text "input", error.input)]

def json (payload : Value) : Text :=
  ((plainify payload).stringify [blank, blank]).getD []

def renderPayload (label : Text) (payload : Value) (opened : Bool) (kind : Text) : Text :=
  text "<details class=\"payload " ++ kind ++ text "\"" ++ (if opened then text " open" else []) ++
    text ">" ++ text "<summary>" ++ esc label ++ text "</summary>" ++ text "<pre>" ++
    esc (json payload) ++ text "</pre></details>"

def statusClass : StepStatus → Text
  | .ok => text "ok"
  | .failed => text "fail"
  | .skipped => text "skip"

/-- The blocks of a step. -/
def renderBody (step : StepResult) : List Text :=
  let input := match step.input with
    | .null => []
    | payload => [renderPayload (text "input") payload false (text "input")]
  let extra := match step.extra with
    | none => []
    | some members =>
        [renderPayload (text "extra (" ++ natText (callCount step) ++ text ")") (.object members)
          (step.status = .failed) (text "extra")]
  let error := match step.error with
    | none => []
    | some error => [renderPayload (text "error") (errorValue error) true (text "error")]
  input ++ extra ++ error

def renderStep (step : StepResult) : Text :=
  let cls := statusClass step.status
  text "<details class=\"step " ++ cls ++ text "\"" ++
    (if step.status = .failed then text " open" else []) ++ text ">" ++
    text "<summary><span class=\"actor\">" ++ step.actor.text ++ text "</span>" ++
    text "<span class=\"name\">" ++ esc step.name ++ text " " ++ text "<small>" ++
    esc step.description ++ text "</small></span>" ++ text "<span class=\"status " ++ cls ++
    text "\">" ++ step.status.text ++ text "</span>" ++ text "<span class=\"dur\">" ++
    intText step.durationMs ++ text "ms</span></summary>" ++ text "<div class=\"payloads\">" ++
    join (text "\n") (renderBody step) ++ text "</div></details>"

def verdict (node : Node) : Text := if node.succeeded then text "[OK]" else text "[FAIL]"

def nodeClass (node : Node) : Text := if node.succeeded then text "ok" else text "fail"

def skippedSuffix (node : Node) : Text :=
  if 0 < node.skippedCount then text " · " ++ natText node.skippedCount ++ text " skipped" else []

/-- The start of a node, up to its name. -/
def renderOpening (kind : Text) (node : Node) (depth : ℕ) : Text :=
  text "<details class=\"" ++ kind ++ text " " ++ nodeClass node ++ text "\"" ++
    (if openByDefault node depth then text " open" else []) ++ text ">" ++
    text "<summary><span class=\"verdict\">" ++ verdict node ++ text "</span> "

mutual

def renderNode (depth : ℕ) : Node → Text
  | .group name description children succeeded durationMs =>
      let node := Node.group name description children succeeded durationMs
      renderOpening (text "group") node depth ++ esc name ++ text " " ++ text "<small>" ++
        esc description ++ text " · " ++ seconds durationMs ++ text "s · " ++
        natText node.stepCount ++ text " steps" ++ skippedSuffix node ++
        text "</small></summary>" ++ text "<div class=\"children\">" ++
        join (text "\n") (renderNodes (depth + 1) children) ++ text "</div></details>"
  | .phase p =>
      renderOpening (text "phase") (.phase p) depth ++ esc p.name ++ text " " ++ text "<small>" ++
        esc p.description ++ text " · " ++ seconds p.durationMs ++ text "s" ++
        skippedSuffix (.phase p) ++ text "</small></summary>" ++ text "<div class=\"steps\">" ++
        join (text "\n") (p.steps.map renderStep) ++ text "</div></details>"

def renderNodes (depth : ℕ) : List Node → List Text
  | [] => []
  | node :: nodes => renderNode depth node :: renderNodes depth nodes

end

def totalMs (report : Report) : ℤ :=
  report.nodes.foldl (fun sum node => sum + node.durationMs) 0

def stepCount (report : Report) : ℕ :=
  report.phases.foldl (fun count phase => count + phase.steps.length) 0

def render (report : Report) (timestamp : Timestamp) : Text :=
  let title := esc report.title
  join (text "\n") [
    text "<!doctype html>",
    text "<html lang=\"en\"><head><meta charset=\"utf-8\">",
    text "<title>" ++ title ++ text "</title>",
    text "<style>" ++ Css ++ text "</style></head>",
    text "<body><header class=\"" ++ (if report.succeeded then text "ok" else text "fail") ++
      text "\">",
    text "<h1>" ++ title ++ text "</h1>",
    text "<p>" ++ timestamp.line ++ text " · " ++ natText report.phases.length ++
      text " phases · " ++ natText (stepCount report) ++ text " steps · " ++
      seconds (totalMs report) ++ text "s</p>",
    text "<nav class=\"fold-controls\">" ++
      text "<button data-fold=\"expand\">Expand all</button>" ++
      text "<button data-fold=\"collapse\">Collapse all</button>" ++
      text "<button data-fold=\"failures\">Failures only</button></nav>",
    text "</header>",
    text "<main>" ++ join (text "\n") (renderNodes 0 report.nodes) ++ text "</main>",
    text "<script>" ++ FoldScript ++ text "</script>",
    text "</body></html>"]

/-! ### The file as markup -/

section names

def html : Html.Name := ⟨text "html", by decide, by decide⟩
def head : Html.Name := ⟨text "head", by decide, by decide⟩
def metaName : Html.Name := ⟨text "meta", by decide, by decide⟩
def titleName : Html.Name := ⟨text "title", by decide, by decide⟩
def style : Html.Name := ⟨text "style", by decide, by decide⟩
def body : Html.Name := ⟨text "body", by decide, by decide⟩
def header : Html.Name := ⟨text "header", by decide, by decide⟩
def heading : Html.Name := ⟨text "h1", by decide, by decide⟩
def paragraph : Html.Name := ⟨text "p", by decide, by decide⟩
def nav : Html.Name := ⟨text "nav", by decide, by decide⟩
def button : Html.Name := ⟨text "button", by decide, by decide⟩
def mainName : Html.Name := ⟨text "main", by decide, by decide⟩
def script : Html.Name := ⟨text "script", by decide, by decide⟩
def details : Html.Name := ⟨text "details", by decide, by decide⟩
def summary : Html.Name := ⟨text "summary", by decide, by decide⟩
def span : Html.Name := ⟨text "span", by decide, by decide⟩
def small : Html.Name := ⟨text "small", by decide, by decide⟩
def div : Html.Name := ⟨text "div", by decide, by decide⟩
def pre : Html.Name := ⟨text "pre", by decide, by decide⟩

def lang : Html.Name := ⟨text "lang", by decide, by decide⟩
def charset : Html.Name := ⟨text "charset", by decide, by decide⟩
def className : Html.Name := ⟨text "class", by decide, by decide⟩
def dataFold : Html.Name := ⟨text "data-fold", by decide, by decide⟩
def openName : Html.Name := ⟨text "open", by decide, by decide⟩

end names

/-- Two classes of an element. -/
def classes (kind cls : Html.AttributeValue) : Html.AttributeValue where
  units := kind.units ++ blank :: cls.units
  plain := by
    rw [List.forall_mem_append, List.forall_mem_cons]
    exact ⟨kind.plain, by decide, cls.plain⟩

def bare (name : Html.Name) : Html.Tag := ⟨name, [], List.nodup_nil⟩

/-- A tag with one attribute. -/
def attributed (name attr : Html.Name) (value : Html.AttributeValue) : Html.Tag :=
  ⟨name, [⟨attr, some value⟩], List.pairwise_singleton _ _⟩

/-- The tag of something that is folded or open. -/
def folding (value : Html.AttributeValue) (opened : Bool) : Html.Tag where
  name := details
  attributes := ⟨className, some value⟩ :: (if opened then [⟨openName, none⟩] else [])
  distinct := by
    cases opened with
    | false => exact List.pairwise_singleton _ _
    | true =>
        show [text "class", text "open"].Nodup
        decide

def payloadClass : Html.AttributeValue := ⟨text "payload", by decide⟩
def inputClass : Html.AttributeValue := ⟨text "input", by decide⟩
def extraClass : Html.AttributeValue := ⟨text "extra", by decide⟩
def errorClass : Html.AttributeValue := ⟨text "error", by decide⟩
def stepClass : Html.AttributeValue := ⟨text "step", by decide⟩
def groupClass : Html.AttributeValue := ⟨text "group", by decide⟩
def phaseClass : Html.AttributeValue := ⟨text "phase", by decide⟩
def okOrFail (succeeded : Bool) : Html.AttributeValue :=
  if succeeded then ⟨text "ok", by decide⟩ else ⟨text "fail", by decide⟩

def statusValue (status : StepStatus) : Html.AttributeValue where
  units := statusClass status
  plain := by cases status <;> decide

/-- Elements on lines of their own. -/
def onLines : List Html.Markup → List (Text × Html.Markup)
  | [] => []
  | m :: ms => ([], m) :: ms.map fun m => ([newline], m)

def payloadMarkup (label : Text) (payload : Value) (opened : Bool) (kind : Html.AttributeValue) :
    Html.Markup :=
  .element (folding (classes payloadClass kind) opened) rfl
    [([], .element (bare summary) rfl [] label), ([], .element (bare pre) rfl [] (json payload))] []

def payloads (step : StepResult) : List Html.Markup :=
  let input := match step.input with
    | .null => []
    | payload => [payloadMarkup (text "input") payload false inputClass]
  let extra := match step.extra with
    | none => []
    | some members =>
        [payloadMarkup (text "extra (" ++ natText (callCount step) ++ text ")") (.object members)
          (step.status = .failed) extraClass]
  let error := match step.error with
    | none => []
    | some error => [payloadMarkup (text "error") (errorValue error) true errorClass]
  input ++ extra ++ error

def stepMarkup (step : StepResult) : Html.Markup :=
  let cls := statusValue step.status
  .element (folding (classes stepClass cls) (step.status = .failed)) rfl
    [([], .element (bare summary) rfl
      [([], .element (attributed span className ⟨text "actor", by decide⟩) rfl []
        step.actor.text),
      ([], .element (attributed span className ⟨text "name", by decide⟩) rfl
        [(step.name ++ text " ", .element (bare small) rfl [] step.description)] []),
      ([], .element (attributed span className (classes ⟨text "status", by decide⟩ cls)) rfl []
        step.status.text),
      ([], .element (attributed span className ⟨text "dur", by decide⟩) rfl []
        (intText step.durationMs ++ text "ms"))] []),
    ([], .element (attributed div className ⟨text "payloads", by decide⟩) rfl
      (onLines (payloads step)) [])] []

/-- A node with its name, what is said of it, and what is in it. -/
def foldMarkup (kind : Html.AttributeValue) (node : Node) (depth : ℕ) (name info : Text)
    (content : Html.AttributeValue) (children : List Html.Markup) : Html.Markup :=
  .element (folding (classes kind (okOrFail node.succeeded)) (openByDefault node depth)) rfl
    [([], .element (bare summary) rfl
      [([], .element (attributed span className ⟨text "verdict", by decide⟩) rfl []
        (verdict node)),
      (text " " ++ (name ++ text " "), .element (bare small) rfl [] info)] []),
    ([], .element (attributed div className content) rfl (onLines children) [])] []

mutual

def nodeMarkup (depth : ℕ) : Node → Html.Markup
  | .group name description children succeeded durationMs =>
      let node := Node.group name description children succeeded durationMs
      foldMarkup groupClass node depth name
        (description ++ (text " · " ++ seconds durationMs ++ text "s · " ++
          natText node.stepCount ++ text " steps" ++ skippedSuffix node))
        ⟨text "children", by decide⟩ (nodeMarkups (depth + 1) children)
  | .phase p =>
      foldMarkup phaseClass (.phase p) depth p.name
        (p.description ++ (text " · " ++ seconds p.durationMs ++ text "s" ++
          skippedSuffix (.phase p)))
        ⟨text "steps", by decide⟩ (p.steps.map stepMarkup)

def nodeMarkups (depth : ℕ) : List Node → List Html.Markup
  | [] => []
  | node :: nodes => nodeMarkup depth node :: nodeMarkups depth nodes

end

/-- The line with the numbers of a report. -/
def statistics (report : Report) (timestamp : Timestamp) : Text :=
  timestamp.line ++ text " · " ++ natText report.phases.length ++ text " phases · " ++
    natText (stepCount report) ++ text " steps · " ++ seconds (totalMs report) ++ text "s"

def foldButton (mode : Html.AttributeValue) (label : Text) : Html.Markup :=
  .element (attributed button dataFold mode) rfl [] label

theorem less_of_mem_codeUnits {c : Char} (h : Html.less ∈ codeUnits c) : c = '<' := by
  have hne : ∀ n : ℕ, n < 65536 → n ≠ 60 → Html.less ≠ UInt16.ofNat n := by
    intro n hn hne heq
    have hnat := congrArg UInt16.toNat heq
    rw [UInt16.toNat_ofNat_of_lt' hn] at hnat
    exact hne hnat.symm
  have hlt : c.toNat < 0x110000 := by
    have hvalid := c.valid
    have htoNat : c.toNat = c.val.toNat := rfl
    unfold UInt32.isValidChar Nat.isValidChar at hvalid
    omega
  rw [codeUnits] at h
  split at h
  · next hsmall =>
      by_contra hc
      refine hne c.toNat hsmall (fun h60 => hc ?_) (List.mem_singleton.mp h)
      exact Char.toNat_inj.mp h60
  · rcases List.mem_cons.mp h with h | h
    · exact absurd h (hne _ (by omega) (by omega))
    · exact absurd (List.mem_singleton.mp h) (hne _ (by omega) (by omega))

/-- A literal without the unit; its characters are listed by the literal itself. -/
theorem less_not_mem_text {s : String} {l : List Char} (hs : s = String.ofList l) (hl : '<' ∉ l) :
    Html.less ∉ text s := by
  intro hmem
  obtain ⟨c, hc, hunit⟩ := List.mem_flatMap.mp hmem
  rw [hs, String.toList_ofList, less_of_mem_codeUnits hunit] at hc
  exact hl hc

theorem less_not_mem_join {lines : List String} (h : ∀ s ∈ lines, Html.less ∉ text s) :
    Html.less ∉ join (text "\n") (lines.map text) := by
  cases lines with
  | nil => exact List.not_mem_nil
  | cons s lines =>
      rw [List.forall_mem_cons] at h
      rw [List.map_cons, join, List.mem_append, List.mem_flatMap, not_or]
      refine ⟨h.1, ?_⟩
      rintro ⟨u, hu, hmem⟩
      obtain ⟨line, hline, rfl⟩ := List.mem_map.mp hu
      rcases List.mem_append.mp hmem with hmem | hmem
      · exact absurd hmem (by decide)
      · exact h.2 line hline hmem

theorem less_not_mem_Css : Html.less ∉ Css := by
  refine less_not_mem_join ?_
  unfold CssLines
  repeat refine List.forall_mem_cons.mpr ⟨less_not_mem_text rfl (by decide +kernel), ?_⟩
  exact List.forall_mem_nil _

theorem less_not_mem_FoldScript : Html.less ∉ FoldScript := by
  refine less_not_mem_join ?_
  unfold FoldScriptLines
  repeat refine List.forall_mem_cons.mpr ⟨less_not_mem_text rfl (by decide +kernel), ?_⟩
  exact List.forall_mem_nil _

def headMarkup (report : Report) : Html.Markup :=
  .element (bare head) rfl
    [([], .void (attributed metaName charset ⟨text "utf-8", by decide⟩) rfl),
    ([newline], .escapable (bare titleName) rfl report.title),
    ([newline], .raw (bare style) false rfl Css less_not_mem_Css)] []

def headerMarkup (report : Report) (timestamp : Timestamp) : Html.Markup :=
  .element (attributed header className (okOrFail report.succeeded)) rfl
    [([newline], .element (bare heading) rfl [] report.title),
    ([newline], .element (bare paragraph) rfl [] (statistics report timestamp)),
    ([newline], .element (attributed nav className ⟨text "fold-controls", by decide⟩) rfl
      [([], foldButton ⟨text "expand", by decide⟩ (text "Expand all")),
      ([], foldButton ⟨text "collapse", by decide⟩ (text "Collapse all")),
      ([], foldButton ⟨text "failures", by decide⟩ (text "Failures only"))] [])]
    [newline]

def document (report : Report) (timestamp : Timestamp) : Html.Document where
  doctype := html
  before := [newline]
  root := .element (attributed html lang ⟨text "en", by decide⟩) rfl
    [([], headMarkup report),
    ([newline], .element (bare body) rfl
      [([], headerMarkup report timestamp),
      ([newline], .element (bare mainName) rfl (onLines (nodeMarkups 0 report.nodes)) []),
      ([newline], .raw (bare script) true rfl FoldScript less_not_mem_FoldScript)] [newline])] []

/-! ### The escape -/

/-- The replacements, one after the other: none of them touches what an earlier one has written. -/
theorem esc_eq (t : Text) : esc t = Html.escape t := by
  rw [esc, replaceAll, replaceAll, replaceAll, List.flatMap_assoc, List.flatMap_assoc]
  unfold Html.escape
  refine congrArg (fun f => t.flatMap f) (funext fun c => ?_)
  unfold Html.escapeUnit Html.ampersand Html.less Html.greater
  by_cases hamp : c = 38
  · subst hamp; decide
  · by_cases hless : c = 60
    · subst hless; decide
    · by_cases hgreater : c = 62
      · subst hgreater; decide
      · simp [hamp, hless, hgreater]

theorem escape_nil : Html.escape [] = [] := rfl

theorem escape_append (t u : Text) : Html.escape (t ++ u) = Html.escape t ++ Html.escape u :=
  List.flatMap_append

theorem escape_plain {t : Text} (h : ∀ c ∈ t, isPlain c = true) : Html.escape t = t := by
  induction t with
  | nil => rfl
  | cons c t ih =>
      rw [List.forall_mem_cons] at h
      obtain ⟨⟨hamp, hless⟩, hgreater⟩ : (c ≠ 38 ∧ c ≠ 60) ∧ c ≠ 62 := by
        have hc := h.1
        simpa only [isPlain, Bool.and_eq_true, bne_iff_ne] using hc
      have hunit : Html.escapeUnit c = [c] := by
        rw [Html.escapeUnit]
        exact (if_neg hamp).trans ((if_neg hless).trans (if_neg hgreater))
      rw [Html.escape_cons, ih h.2, hunit]
      rfl

theorem esc_append (t : Text) {u : Text} (h : ∀ c ∈ u, isPlain c = true) :
    esc (t ++ u) = esc t ++ u := by
  rw [esc_eq, escape_append, escape_plain h, esc_eq]

/-! ### Texts without markup -/

theorem plain_natText (n : ℕ) : ∀ c ∈ natText n, isPlain c = true := by
  intro c hc
  have hdigit := Json.natText_isDigit n c hc
  simp only [isDigit, Bool.and_eq_true, decide_eq_true_eq, UInt16.le_iff_toNat_le] at hdigit
  have h57 : (57 : CodeUnit).toNat = 57 := rfl
  have h60 : (60 : CodeUnit).toNat = 60 := rfl
  have h62 : (62 : CodeUnit).toNat = 62 := rfl
  have h48 : (48 : CodeUnit).toNat = 48 := rfl
  have h38 : (38 : CodeUnit).toNat = 38 := rfl
  simp only [isPlain, Bool.and_eq_true, bne_iff_ne, ne_eq, ← UInt16.toNat_inj]
  omega

theorem plain_intText (n : ℤ) : ∀ c ∈ intText n, isPlain c = true := by
  cases n with
  | ofNat n => exact plain_natText n
  | negSucc n =>
      rw [intText, List.forall_mem_cons]
      exact ⟨by decide, plain_natText _⟩

theorem plain_append {t u : Text} (ht : ∀ c ∈ t, isPlain c = true)
    (hu : ∀ c ∈ u, isPlain c = true) : ∀ c ∈ t ++ u, isPlain c = true :=
  List.forall_mem_append.mpr ⟨ht, hu⟩

theorem plain_seconds (ms : ℤ) : ∀ c ∈ seconds ms, isPlain c = true := by
  rw [seconds]
  refine plain_append ?_ (plain_append (plain_natText _) ?_)
  · split <;> decide
  · rw [List.forall_mem_cons]
    exact ⟨by decide, plain_natText _⟩

theorem plain_actor (actor : Actor) : ∀ c ∈ actor.text, isPlain c = true := by
  cases actor <;> decide

theorem plain_status (status : StepStatus) : ∀ c ∈ status.text, isPlain c = true := by
  cases status <;> decide

theorem plain_verdict (node : Node) : ∀ c ∈ verdict node, isPlain c = true := by
  rw [verdict]
  split <;> decide

theorem plain_skippedSuffix (node : Node) : ∀ c ∈ skippedSuffix node, isPlain c = true := by
  rw [skippedSuffix]
  split
  · exact plain_append (plain_append (by decide) (plain_natText _)) (by decide)
  · decide

theorem plain_statistics (report : Report) (timestamp : Timestamp) :
    ∀ c ∈ statistics report timestamp, isPlain c = true := by
  unfold statistics
  refine plain_append (plain_append (plain_append (plain_append (plain_append (plain_append
    (plain_append timestamp.plain ?_) (plain_natText _)) ?_) (plain_natText _)) ?_)
    (plain_seconds _)) ?_ <;> decide

/-! ### What is rendered is the markup -/

theorem writeChildren_onLines (ms : List Html.Markup) :
    Html.Markup.writeChildren (onLines ms) = join (text "\n") (ms.map Html.Markup.write) := by
  have hlines : ∀ ms : List Html.Markup,
      Html.Markup.writeChildren (ms.map fun m => ([newline], m)) =
        (ms.map Html.Markup.write).flatMap fun u => text "\n" ++ u := by
    intro ms
    induction ms with
    | nil => rw [List.map_nil, Html.Markup.writeChildren]; rfl
    | cons m ms ih =>
        rw [List.map_cons, Html.Markup.writeChildren, ih, List.map_cons, List.flatMap_cons,
          List.append_assoc]
        rfl
  cases ms with
  | nil => rw [onLines, Html.Markup.writeChildren]; rfl
  | cons m ms =>
      rw [onLines, Html.Markup.writeChildren, hlines]
      rfl

theorem startText_folding (kind cls : Html.AttributeValue) (opened : Bool) :
    (folding (classes kind cls) opened).startText = text "<details class=\"" ++ (kind.units ++
      (text " " ++ (cls.units ++ (text "\"" ++ ((if opened then text " open" else []) ++
        text ">"))))) := by
  cases opened <;>
  · simp only [Html.Tag.startText, folding, classes, Html.Attribute.write, List.flatMap_cons,
      List.append_assoc, List.cons_append]
    rfl

/-- The texts between what is inserted are tags. -/
theorem payload_eq (label : Text) (payload : Value) (opened : Bool) (kind : Html.AttributeValue) :
    (payloadMarkup label payload opened kind).write =
      renderPayload label payload opened kind.units := by
  have hstart : text "<details class=\"payload " =
      text "<details class=\"" ++ (payloadClass.units ++ text " ") := rfl
  have hsummary : text "<summary>" = (bare summary).startText := rfl
  have hlabel : text "</summary>" = (bare summary).endText := rfl
  have hpre : text "<pre>" = (bare pre).startText := rfl
  have hend : text "</pre></details>" =
      (bare pre).endText ++ (folding (classes payloadClass kind) opened).endText := rfl
  unfold renderPayload payloadMarkup
  rw [esc_eq, esc_eq, hstart, hsummary, hlabel, hpre, hend]
  simp only [Html.Markup.write, Html.Markup.writeChildren, startText_folding, escape_nil,
    List.append_assoc, List.nil_append]

theorem payloads_eq (step : StepResult) :
    (payloads step).map Html.Markup.write = renderBody step := by
  rw [payloads, renderBody]
  simp only [List.map_append]
  refine congrArg₂ _ (congrArg₂ _ ?_ ?_) ?_
  · cases step.input with
    | null => rfl
    | _ => exact congrArg (fun t => [t]) (payload_eq _ _ _ _)
  · cases step.extra with
    | none => rfl
    | some members => exact congrArg (fun t => [t]) (payload_eq _ _ _ _)
  · cases step.error with
    | none => rfl
    | some error => exact congrArg (fun t => [t]) (payload_eq _ _ _ _)

theorem step_eq (step : StepResult) : (stepMarkup step).write = renderStep step := by
  have hduration : Html.escape (intText step.durationMs ++ text "ms") =
      intText step.durationMs ++ text "ms" :=
    escape_plain (plain_append (plain_intText _) (by decide))
  have hname : Html.escape (step.name ++ text " ") = Html.escape step.name ++ text " " :=
    escape_append _ _
  have hstart : text "<details class=\"step " =
      text "<details class=\"" ++ (stepClass.units ++ text " ") := rfl
  have hactor : text "<summary><span class=\"actor\">" = (bare summary).startText ++
      (attributed span className ⟨text "actor", by decide⟩).startText := rfl
  have hopen : text "<span class=\"name\">" =
      (attributed span className ⟨text "name", by decide⟩).startText := rfl
  have hsmall : text "<small>" = (bare small).startText := rfl
  have hdescription : text "</small></span>" = (bare small).endText ++
      (attributed span className ⟨text "name", by decide⟩).endText := rfl
  have hstatus : ∀ cls,
      (attributed span className (classes ⟨text "status", by decide⟩ cls)).startText =
        text "<span class=\"status " ++ (cls.units ++ text "\">") := by
    intro cls
    simp only [attributed, classes, Html.Tag.startText, List.flatMap_cons, List.flatMap_nil,
      Html.Attribute.write, List.append_assoc, List.cons_append]
    rfl
  unfold renderStep stepMarkup
  rw [← payloads_eq, ← writeChildren_onLines, esc_eq, esc_eq, hstart, hactor, hopen, hsmall,
    hdescription]
  simp only [Html.Markup.write, Html.Markup.writeChildren, hduration, hname, hstatus,
    escape_plain (plain_actor _), escape_plain (plain_status _), escape_nil, startText_folding,
    List.append_assoc, List.nil_append, decide_eq_true_eq]
  rfl

theorem nodeClass_eq (node : Node) : (okOrFail node.succeeded).units = nodeClass node := by
  rw [okOrFail, nodeClass]
  split <;> rfl

theorem fold_eq (kind : Html.AttributeValue) (node : Node) (depth : ℕ) (name info : Text)
    (content : Html.AttributeValue) (children : List Html.Markup) :
    (foldMarkup kind node depth name info content children).write =
      renderOpening kind.units node depth ++ esc name ++ text " " ++ text "<small>" ++ esc info ++
        text "</small></summary>" ++ text "<div class=\"" ++ content.units ++ text "\">" ++
        join (text "\n") (children.map Html.Markup.write) ++ text "</div></details>" := by
  have hname : Html.escape (text " " ++ (name ++ text " ")) =
      text " " ++ (Html.escape name ++ text " ") := by
    rw [escape_append, escape_append]
    rfl
  have hverdict : text "<summary><span class=\"verdict\">" = (bare summary).startText ++
      (attributed span className ⟨text "verdict", by decide⟩).startText := rfl
  have hsmall : text "<small>" = (bare small).startText := rfl
  have hinfo : text "</small></summary>" = (bare small).endText ++ (bare summary).endText := rfl
  have hcontent : (attributed div className content).startText =
      text "<div class=\"" ++ (content.units ++ text "\">") := by
    simp only [attributed, Html.Tag.startText, List.flatMap_cons, List.flatMap_nil,
      Html.Attribute.write, List.append_assoc, List.cons_append]
    rfl
  unfold foldMarkup renderOpening
  rw [← writeChildren_onLines, esc_eq, esc_eq, hverdict, hsmall, hinfo, ← nodeClass_eq]
  simp only [Html.Markup.write, Html.Markup.writeChildren, hname, hcontent,
    escape_plain (plain_verdict _), escape_nil, startText_folding, List.append_assoc,
    List.nil_append]
  rfl

mutual

theorem node_eq : ∀ (node : Node) (depth : ℕ), (nodeMarkup depth node).write =
    renderNode depth node
  | .group name description children succeeded durationMs, depth => by
      have hinfo : ∀ node, ∀ c ∈ text " · " ++ seconds durationMs ++ text "s · " ++
          natText (Node.stepCount node) ++ text " steps" ++ skippedSuffix node,
          isPlain c = true := by
        intro node
        refine plain_append (plain_append (plain_append (plain_append (plain_append ?_
          (plain_seconds _)) ?_) (plain_natText _)) ?_) (plain_skippedSuffix _) <;> decide
      rw [nodeMarkup, renderNode, fold_eq, esc_append _ (hinfo _), nodes_eq children]
      simp only [List.append_assoc]
      rfl
  | .phase p, depth => by
      have hinfo : ∀ c ∈ text " · " ++ seconds p.durationMs ++ text "s" ++ skippedSuffix (.phase p),
          isPlain c = true := by
        refine plain_append (plain_append (plain_append ?_ (plain_seconds _)) ?_)
          (plain_skippedSuffix _) <;> decide
      have hsteps : (p.steps.map stepMarkup).map Html.Markup.write = p.steps.map renderStep := by
        rw [List.map_map]
        exact List.map_congr_left fun step _ => step_eq step
      rw [nodeMarkup, renderNode, fold_eq, esc_append _ hinfo, hsteps]
      simp only [List.append_assoc]
      rfl

theorem nodes_eq : ∀ (nodes : List Node) (depth : ℕ),
    (nodeMarkups depth nodes).map Html.Markup.write = renderNodes depth nodes
  | [], depth => by rw [nodeMarkups, renderNodes, List.map_nil]
  | node :: nodes, depth => by
      rw [nodeMarkups, renderNodes, List.map_cons, node_eq node, nodes_eq nodes]

end

theorem render_eq (report : Report) (timestamp : Timestamp) :
    render report timestamp = (document report timestamp).write := by
  have hnodes : renderNodes 0 report.nodes = (nodeMarkups 0 report.nodes).map Html.Markup.write :=
    (nodes_eq _ _).symm
  have hstatistics := escape_plain (plain_statistics report timestamp)
  have hbreak : Html.escape [newline] = text "\n" := rfl
  have hdoctype : text "<!doctype html>" =
      text "<!doctype " ++ (html.units ++ [Html.greater]) := rfl
  have hhead : text "<html lang=\"en\"><head><meta charset=\"utf-8\">" =
      (attributed html lang ⟨text "en", by decide⟩).startText ++ ((bare head).startText ++
        (attributed metaName charset ⟨text "utf-8", by decide⟩).startText) := rfl
  have htitle : text "<title>" = (bare titleName).startText ∧
      text "</title>" = (bare titleName).endText := ⟨rfl, rfl⟩
  have hstyle : text "<style>" = (bare style).startText ∧
      text "</style></head>" = (bare style).endText ++ (bare head).endText := ⟨rfl, rfl⟩
  have hheader : ∀ rest, text "<body><header class=\"" ++
      ((if report.succeeded then text "ok" else text "fail") ++ (text "\">" ++ rest)) =
        (bare body).startText ++
          ((attributed header className (okOrFail report.succeeded)).startText ++ rest) := by
    intro rest
    cases report.succeeded <;> rfl
  have hheading : text "<h1>" = (bare heading).startText ∧
      text "</h1>" = (bare heading).endText := ⟨rfl, rfl⟩
  have hparagraph : text "<p>" = (bare paragraph).startText ∧
      text "s</p>" = text "s" ++ (bare paragraph).endText := ⟨rfl, rfl⟩
  have hnav : text "<nav class=\"fold-controls\">" =
      (attributed nav className ⟨text "fold-controls", by decide⟩).startText := rfl
  have hexpand : text "<button data-fold=\"expand\">Expand all</button>" =
      (foldButton ⟨text "expand", by decide⟩ (text "Expand all")).write := rfl
  have hcollapse : text "<button data-fold=\"collapse\">Collapse all</button>" =
      (foldButton ⟨text "collapse", by decide⟩ (text "Collapse all")).write := rfl
  have hfailures : text "<button data-fold=\"failures\">Failures only</button></nav>" =
      (foldButton ⟨text "failures", by decide⟩ (text "Failures only")).write ++
        (attributed nav className ⟨text "fold-controls", by decide⟩).endText := rfl
  have hmain : text "<main>" = (bare mainName).startText ∧
      text "</main>" = (bare mainName).endText := ⟨rfl, rfl⟩
  have hscript : text "<script>" = (bare script).startText ∧
      text "</script>" = (bare script).endText := ⟨rfl, rfl⟩
  have hend : text "</header>" =
        (attributed header className (okOrFail report.succeeded)).endText ∧
      text "</body></html>" = (bare body).endText ++
        (attributed html lang ⟨text "en", by decide⟩).endText := ⟨rfl, rfl⟩
  unfold render
  rw [hnodes, ← writeChildren_onLines, esc_eq, hdoctype, hhead, htitle.1, htitle.2, hstyle.1,
    hstyle.2, hheading.1, hheading.2, hparagraph.1, hparagraph.2, hnav, hexpand, hcollapse,
    hfailures, hmain.1, hmain.2, hscript.1, hscript.2, hend.1, hend.2]
  simp only [join, List.flatMap_cons, List.flatMap_nil, List.append_assoc, List.nil_append,
    List.append_nil, List.cons_append, hheader]
  unfold document headMarkup headerMarkup
  simp only [Html.Document.write, Html.Markup.write, Html.Markup.writeChildren, hstatistics,
    escape_nil, hbreak, List.append_assoc, List.nil_append, List.append_nil]
  simp only [statistics, List.append_assoc]

/-- A tokenizer sees the tags of the document, and the texts of the report between them. -/
theorem tokenize_render (report : Report) (timestamp : Timestamp) :
    Html.tokenize (render report timestamp) = some (document report timestamp).tokens := by
  rw [render_eq, Html.tokenize_write]

/-! ### Reports that are read -/

/-- A reader of either file finds the report in it: the records of the steps, and the tags with
the texts between them. -/
def Reads (report : Report) (timestamp : Timestamp) : Prop :=
  Rfc4180.read (ReportCsvRenderer.render report) =
      some (ReportCsvRenderer.names :: ReportCsvRenderer.records report) ∧
    Html.tokenize (render report timestamp) = some (document report timestamp).tokens

/-- Every report is read in HTML, and those without a stray carriage return in both. -/
theorem reports_read_iff (report : Report) (timestamp : Timestamp) :
    Reads report timestamp ↔ ReportCsvRenderer.ReturnsEnclosed report := by
  rw [Reads, ReportCsvRenderer.render_reads_iff]
  exact and_iff_left (tokenize_render report timestamp)

/-- A step with a carriage return in its name. -/
theorem not_reads_stray : ¬ Reads
    ⟨none, false, [.phase ⟨text "p", [], [⟨text "a\x0db", [], .user, .ok, [], 0, .null,
      (by simp), none, none⟩], true, 0⟩]⟩ ⟨[], by decide⟩ := by
  rintro ⟨h, -⟩
  rw [ReportCsvRenderer.render_reads_iff] at h
  have hname := h _ List.mem_cons_self (text "a\x0db")
    (List.mem_cons_of_mem _ (List.mem_cons_of_mem _ List.mem_cons_self))
  revert hname
  decide

end WireTools.ReportHtmlRenderer

import WireTools.Json
import WireTools.Newlines
import WireTools.SurrogatePairs

/-! # A reader of XML

XML 1.0 without document type declarations: a document that is not well formed has no tree.

* `Allowed`: the texts that a document may be made of;
* `step` reads one unit, and `parse` a document: its characters are checked, its newlines
  normalized, and its elements built on a stack of those that are open;
* `referred`: the character of a reference; in the value of an attribute, white space that is not
  written by reference becomes a blank. -/

namespace WireTools.Xml

/-! ### Characters -/

/-- A unit of a character that a document may have; no reference can write another one. -/
def isChar (c : CodeUnit) : Bool :=
  c == 9 || c == 10 || c == 13 || (0x20 ≤ c.toNat && c.toNat ≤ 0xFFFD)

/-- Characters that a document may have. -/
def Allowed (t : Text) : Prop :=
  Utf8.WellFormed t ∧ ∀ c ∈ t, isChar c = true

instance (t : Text) : Decidable (Allowed t) :=
  inferInstanceAs (Decidable (_ ∧ _))

def isWhite (c : CodeUnit) : Bool := c == 9 || c == 10 || c == 13 || c == 32

def inRanges (ranges : List (ℕ × ℕ)) (c : CodeUnit) : Bool :=
  ranges.any fun r => r.1 ≤ c.toNat && c.toNat ≤ r.2

/-- The first units of names; the last range is of characters with two units. -/
def nameStarts : List (ℕ × ℕ) :=
  [(0x3A, 0x3A), (0x41, 0x5A), (0x5F, 0x5F), (0x61, 0x7A), (0xC0, 0xD6), (0xD8, 0xF6),
    (0xF8, 0x2FF), (0x370, 0x37D), (0x37F, 0x1FFF), (0x200C, 0x200D), (0x2070, 0x218F),
    (0x2C00, 0x2FEF), (0x3001, 0xD7FF), (0xF900, 0xFDCF), (0xFDF0, 0xFFFD), (0xD800, 0xDB7F)]

/-- What else a name may have, and the second units. -/
def nameRest : List (ℕ × ℕ) :=
  [(0x2D, 0x2E), (0x30, 0x39), (0xB7, 0xB7), (0x300, 0x36F), (0x203F, 0x2040), (0xDC00, 0xDFFF)]

def isNameStart (c : CodeUnit) : Bool := inRanges nameStarts c

def isNameUnit (c : CodeUnit) : Bool := inRanges (nameStarts ++ nameRest) c

def ampersand : CodeUnit := 38

def apostrophe : CodeUnit := 39

def less : CodeUnit := 60

def greater : CodeUnit := 62

def quote : CodeUnit := 34

def slash : CodeUnit := 47

def equals : CodeUnit := 61

def semicolon : CodeUnit := 59

def rightBracket : CodeUnit := 93

/-! ### References -/

def entities : List (Text × CodeUnit) :=
  [(text "amp", ampersand), (text "lt", less), (text "gt", greater), (text "quot", quote),
    (text "apos", apostrophe)]

/-- The character of a code point, where a document may have it. -/
def characterOf (codePoint : ℕ) : Option Text :=
  if codePoint = 9 ∨ codePoint = 10 ∨ codePoint = 13 ∨ (0x20 ≤ codePoint ∧ codePoint ≤ 0xD7FF) ∨
      (0xE000 ≤ codePoint ∧ codePoint ≤ 0xFFFD) ∨ (0x10000 ≤ codePoint ∧ codePoint ≤ 0x10FFFF) then
    some (Utf8.unitsOf codePoint)
  else none

/-- The number that hexadecimal digits spell. -/
def hexNumber (digits : Text) : Option ℕ :=
  digits.foldlM (fun n c => (Json.hexValue c).map fun d => n * 16 + d) 0

/-- The characters of a reference, by what stands between its `&` and its `;`. -/
def referred : Text → Option Text
  | [] => none
  | c :: name =>
      if c = 35 then
        match name with
        | [] => none
        | d :: digits =>
            if d = 120 then if digits = [] then none else (hexNumber digits).bind characterOf
            else if name.all isDigit then characterOf (Json.digitsValue name)
            else none
      else ((entities.lookup (c :: name)).map fun d => [d])

/-! ### The tree -/

inductive Node where
  | element (name : Text) (attributes : List (Text × Text)) (children : List Node)
  | characters (t : Text)

structure Tag where
  name : Text
  attributes : List (Text × Text)
  deriving DecidableEq

/-- An element that is open, with its children so far, the last one first. -/
structure Frame where
  tag : Tag
  children : List Node

/-- Next to other characters they are one text with them. -/
def addCharacters (children : List Node) (t : Text) : List Node :=
  if t = [] then children
  else match children with
    | .characters u :: rest => .characters (u ++ t) :: rest
    | rest => .characters t :: rest

inductive Mode where
  /-- Text, behind so many right brackets. -/
  | content (brackets : ℕ)
  | reference (name : Text)
  /-- Behind a `<`. -/
  | opened
  | startName (name : Text)
  /-- In a start tag; an attribute may follow behind white space. -/
  | inTag (tag : Tag) (spaced : Bool)
  | attributeName (tag : Tag) (name : Text)
  | behindName (tag : Tag) (name : Text)
  | beforeValue (tag : Tag) (name : Text)
  | value (tag : Tag) (name : Text) (limit : CodeUnit) (value : Text)
  | valueReference (tag : Tag) (name : Text) (limit : CodeUnit) (value reference : Text)
  | emptyTag (tag : Tag)
  | endName (name : Text)
  | behindEndName (name : Text)
  /-- Behind a `<!`. -/
  | bang (read : Text)
  | comment (dashes : ℕ)
  | cdata (brackets : ℕ)
  /-- Behind a `<?`. -/
  | target (name : Text)
  | targetEnd
  | instruction (questioned : Bool)
  deriving DecidableEq

structure State where
  mode : Mode
  /-- The open elements, the innermost first. -/
  stack : List Frame
  root : Option Node

namespace State

def goTo (s : State) (mode : Mode) : State := { s with mode := mode }

/-- Characters of the innermost element. -/
def put (s : State) (t : Text) : State :=
  match s.stack with
  | [] => s
  | ⟨tag, children⟩ :: stack => { s with stack := ⟨tag, addCharacters children t⟩ :: stack }

/-- A complete element, to the one around it or as the root. -/
def add (s : State) (node : Node) : State :=
  match s.stack with
  | [] => { s with mode := .content 0, root := some node }
  | ⟨tag, children⟩ :: stack =>
      { s with mode := .content 0, stack := ⟨tag, node :: children⟩ :: stack }

/-- The end tag of the innermost element. -/
def close (s : State) (name : Text) : Option State :=
  match s.stack with
  | [] => none
  | ⟨tag, children⟩ :: stack =>
      if tag.name = name then
        some ({ s with stack := stack }.add (.element tag.name tag.attributes children.reverse))
      else none

/-- A unit of a start tag that belongs to no attribute. -/
def tagUnit (s : State) (tag : Tag) (c : CodeUnit) : Option State :=
  if isWhite c then some (s.goTo (.inTag tag true))
  else if c = slash then some (s.goTo (.emptyTag tag))
  else if c = greater then
    some { s with mode := .content 0, stack := ⟨tag, []⟩ :: s.stack }
  else none

def endUnit (s : State) (name : Text) (c : CodeUnit) : Option State :=
  if isWhite c then some (s.goTo (.behindEndName name))
  else if c = greater then s.close name
  else none

/-- A unit of text; there is none outside of the root. -/
def contentUnit (s : State) (brackets : ℕ) (c : CodeUnit) : Option State :=
  if c = less then some (s.goTo .opened)
  else if s.stack.isEmpty then if isWhite c then some s else none
  else if c = ampersand then some (s.goTo (.reference []))
  else if c = greater ∧ 2 ≤ brackets then none
  else some ((s.put [c]).goTo (.content (if c = rightBracket then brackets + 1 else 0)))

/-- The unit behind a `<`; there is one root. -/
def openedUnit (s : State) (c : CodeUnit) : Option State :=
  if c = slash then some (s.goTo (.endName []))
  else if c = 33 then some (s.goTo (.bang []))
  else if c = 63 then some (s.goTo (.target []))
  else if isNameStart c && !(s.stack.isEmpty && s.root.isSome) then some (s.goTo (.startName [c]))
  else none

/-- Behind `<!`, a comment or, in an element, characters as they are. -/
def bangUnit (s : State) (read : Text) : Option State :=
  if read = text "--" then some (s.goTo (.comment 0))
  else if read = text "[CDATA[" then if s.stack.isEmpty then none else some (s.goTo (.cdata 0))
  else if read.isPrefixOf (text "--") || read.isPrefixOf (text "[CDATA[") then
    some (s.goTo (.bang read))
  else none

/-- The brackets before the end of a section are no characters of it. -/
def cdataUnit (s : State) (brackets : ℕ) (c : CodeUnit) : State :=
  if c = rightBracket then s.goTo (.cdata (brackets + 1))
  else if c = greater ∧ 2 ≤ brackets then
    (s.put (List.replicate (brackets - 2) rightBracket)).goTo (.content 0)
  else (s.put (List.replicate brackets rightBracket ++ [c])).goTo (.cdata 0)

def isReserved (name : Text) : Bool := name.map toLower = text "xml"

def step (s : State) (c : CodeUnit) : Option State :=
  match s.mode with
  | .content brackets => s.contentUnit brackets c
  | .reference name =>
      if c = semicolon then (referred name).map fun t => (s.put t).goTo (.content 0)
      else some (s.goTo (.reference (name ++ [c])))
  | .opened => s.openedUnit c
  | .startName name =>
      if isNameUnit c then some (s.goTo (.startName (name ++ [c]))) else s.tagUnit ⟨name, []⟩ c
  | .inTag tag spaced =>
      if spaced && isNameStart c then some (s.goTo (.attributeName tag [c])) else s.tagUnit tag c
  | .attributeName tag name =>
      if isNameUnit c then some (s.goTo (.attributeName tag (name ++ [c])))
      else if isWhite c then some (s.goTo (.behindName tag name))
      else if c = equals then some (s.goTo (.beforeValue tag name))
      else none
  | .behindName tag name =>
      if isWhite c then some s
      else if c = equals then some (s.goTo (.beforeValue tag name))
      else none
  | .beforeValue tag name =>
      if isWhite c then some s
      else if c = quote ∨ c = apostrophe then some (s.goTo (.value tag name c []))
      else none
  | .value tag name limit value =>
      if c = limit then
        if tag.attributes.any fun a => a.1 = name then none
        else some (s.goTo (.inTag ⟨tag.name, tag.attributes ++ [(name, value)]⟩ false))
      else if c = less then none
      else if c = ampersand then some (s.goTo (.valueReference tag name limit value []))
      else some (s.goTo (.value tag name limit (value ++ [if isWhite c then blank else c])))
  | .valueReference tag name limit value reference =>
      if c = semicolon then
        (referred reference).map fun t => s.goTo (.value tag name limit (value ++ t))
      else some (s.goTo (.valueReference tag name limit value (reference ++ [c])))
  | .emptyTag tag =>
      if c = greater then some (s.add (.element tag.name tag.attributes [])) else none
  | .endName name =>
      if (if name = [] then isNameStart c else isNameUnit c) then
        some (s.goTo (.endName (name ++ [c])))
      else s.endUnit name c
  | .behindEndName name => s.endUnit name c
  | .bang read => s.bangUnit (read ++ [c])
  | .comment dashes =>
      if c = 45 then if 2 ≤ dashes then none else some (s.goTo (.comment (dashes + 1)))
      else if dashes = 2 then if c = greater then some (s.goTo (.content 0)) else none
      else some (s.goTo (.comment 0))
  | .cdata brackets => some (s.cdataUnit brackets c)
  | .target name =>
      if (if name = [] then isNameStart c else isNameUnit c) then
        some (s.goTo (.target (name ++ [c])))
      else if name = [] ∨ isReserved name then none
      else if c = 63 then some (s.goTo .targetEnd)
      else if isWhite c then some (s.goTo (.instruction false))
      else none
  | .targetEnd => if c = greater then some (s.goTo (.content 0)) else none
  | .instruction questioned =>
      if questioned && c = greater then some (s.goTo (.content 0))
      else some (s.goTo (.instruction (c = 63)))

def finish (s : State) : Option Node :=
  match s.mode with
  | .content _ => if s.stack.isEmpty then s.root else none
  | _ => none

end State

/-- What stands before the root of a document in UTF-8. -/
def declaration : Text := text "<?xml version=\"1.0\" encoding=\"UTF-8\"?>"

def State.init : State := ⟨.content 0, [], none⟩

/-- The root of a well-formed document. -/
def parse (t : Text) : Option Node :=
  if Allowed t then
    let document := normalizeNewlines t
    (runs State.step State.init
      (if declaration.isPrefixOf document then document.drop declaration.length
        else document)).bind State.finish
  else none

/-! ### Writing -/

/-- The units that mean something else in a document. -/
def markupUnits : List CodeUnit := [ampersand, less, greater, quote, apostrophe]

def isAscii (c : CodeUnit) : Bool := 0x20 < c.toNat && c.toNat < 0x80

/-- A text is the reference of a unit. -/
structure Refers (c : CodeUnit) (t : Text) : Prop where
  ascii : isAscii c = true
  reference : ∃ name, t = ampersand :: (name ++ [semicolon]) ∧ referred name = some [c] ∧
    ∀ d ∈ name, isAscii d = true ∧ d ≠ semicolon

/-- The escape of single units writes by reference what else would be markup. -/
structure Escapes (f : CodeUnit → Text) : Prop where
  plain : ∀ c, c ∉ markupUnits → f c = [c]
  refers : ∀ c ∈ markupUnits, Refers c (f c)

structure Name where
  units : Text
  starts : units.head?.any isNameStart = true
  ascii : ∀ c ∈ units, isNameUnit c = true ∧ isAscii c = true

structure StartTag where
  name : Name
  attributes : List (Name × Text)
  distinct : (attributes.map fun a => a.1.units).Nodup

/-- An element; each of its children has the text before it. -/
inductive Markup where
  | empty (tag : StartTag)
  | element (tag : StartTag) (children : List (Text × Markup)) (rest : Text)

/-- White space in the value of an attribute. -/
def whiteToBlank (c : CodeUnit) : CodeUnit := if isWhite c then blank else c

/-- What is read of the value of an attribute. -/
def attributeText (t : Text) : Text :=
  (normalizeNewlines t).map whiteToBlank

def characters (t : Text) : List Node :=
  if normalizeNewlines t = [] then [] else [.characters (normalizeNewlines t)]

def StartTag.seen (tag : StartTag) : Tag :=
  ⟨tag.name.units, tag.attributes.map fun a => (a.1.units, attributeText a.2)⟩

section write

variable (f : CodeUnit → Text)

def writeAttribute (a : Name × Text) : Text :=
  blank :: (a.1.units ++ (text "=\"" ++ (a.2.flatMap f ++ [quote])))

def StartTag.write (tag : StartTag) : Text :=
  less :: (tag.name.units ++ tag.attributes.flatMap (writeAttribute f))

def StartTag.writeEnd (tag : StartTag) : Text :=
  less :: slash :: (tag.name.units ++ [greater])

namespace Markup

mutual

def write : Markup → Text
  | .empty tag => tag.write f ++ [slash, greater]
  | .element tag children rest =>
      tag.write f ++ greater :: (writeChildren children ++ (rest.flatMap f ++ tag.writeEnd))

def writeChildren : List (Text × Markup) → Text
  | [] => []
  | (t, m) :: children => t.flatMap f ++ (m.write ++ writeChildren children)

end

mutual

/-- The element as it is read. -/
def node : Markup → Node
  | .empty tag => .element tag.seen.name tag.seen.attributes []
  | .element tag children rest =>
      .element tag.seen.name tag.seen.attributes (nodes children ++ characters rest)

def nodes : List (Text × Markup) → List Node
  | [] => []
  | (t, m) :: children => characters t ++ m.node :: nodes children

end

mutual

/-- All that is written and is no markup. -/
def texts : Markup → List Text
  | .empty tag => tag.attributes.map Prod.snd
  | .element tag children rest =>
      tag.attributes.map Prod.snd ++ (textsOfChildren children ++ [rest])

def textsOfChildren : List (Text × Markup) → List Text
  | [] => []
  | (t, m) :: children => t :: (m.texts ++ textsOfChildren children)

end

end Markup

/-- The document of a root, its declaration and it on lines of their own. -/
def document (root : Markup) : Text :=
  declaration ++ newline :: (root.write f ++ [newline])

end write

/-! ### Escaped texts -/

section escapes

variable {f : CodeUnit → Text}

theorem isAscii_iff {c : CodeUnit} : isAscii c = true ↔ 0x20 < c.toNat ∧ c.toNat < 0x80 := by
  simp [isAscii]

theorem isAscii_plain {c : CodeUnit} (h : isAscii c = true) :
    c ≠ 13 ∧ c ≠ newline ∧ isWhite c = false := by
  have hrange := isAscii_iff.mp h
  have hne : ∀ d : CodeUnit, d.toNat ≤ 0x20 → c ≠ d := by
    rintro d hd rfl
    omega
  have h9 := hne 9 (by decide)
  have h10 := hne 10 (by decide)
  have h13 := hne 13 (by decide)
  have h32 := hne 32 (by decide)
  refine ⟨h13, h10, ?_⟩
  simp [isWhite, h9, h10, h13, h32]

theorem Refers.ascii_of_mem {c d : CodeUnit} {t : Text} (h : Refers c t) (hd : d ∈ t) :
    isAscii d = true := by
  obtain ⟨name, rfl, -, hname⟩ := h.reference
  rw [List.mem_cons, List.mem_append, List.mem_singleton] at hd
  rcases hd with rfl | hd | rfl
  · decide
  · exact (hname d hd).1
  · decide

theorem Refers.ne_nil {c : CodeUnit} {t : Text} (h : Refers c t) : t ≠ [] := by
  obtain ⟨name, rfl, -, -⟩ := h.reference
  exact List.cons_ne_nil _ _

theorem Escapes.keepsNewlines (h : Escapes f) : KeepsNewlines f where
  carriageReturn := h.plain 13 (by decide)
  lineFeed := h.plain newline (by decide)
  ne_nil c := by
    by_cases hc : c ∈ markupUnits
    · exact (h.refers c hc).ne_nil
    · rw [h.plain c hc]
      exact List.cons_ne_nil _ _
  plain c hreturn hline d hd := by
    by_cases hc : c ∈ markupUnits
    · have hascii := isAscii_plain ((h.refers c hc).ascii_of_mem hd)
      exact ⟨hascii.1, hascii.2.1⟩
    · rw [h.plain c hc, List.mem_singleton] at hd
      exact hd ▸ ⟨hreturn, hline⟩

/-- A unit that is no markup. -/
theorem ne_of_not_markup {c : CodeUnit} (h : c ∉ markupUnits) :
    c ≠ ampersand ∧ c ≠ less ∧ c ≠ greater ∧ c ≠ quote ∧ c ≠ apostrophe := by
  simpa [markupUnits] using h

/-! ### Reading what is written -/

variable {stack : List Frame} {root : Option Node} {tag : Tag}

theorem runs_valueReference {name n value : Text} {limit : CodeUnit} (before : Text)
    (h : ∀ d ∈ name, isAscii d = true ∧ d ≠ semicolon) :
    runs State.step ⟨.valueReference tag n limit value before, stack, root⟩ name =
      some ⟨.valueReference tag n limit value (before ++ name), stack, root⟩ := by
  induction name generalizing before with
  | nil => rw [List.append_nil]; rfl
  | cons d name ih =>
      rw [List.forall_mem_cons] at h
      have hstep : State.step ⟨.valueReference tag n limit value before, stack, root⟩ d =
          some ⟨.valueReference tag n limit value (before ++ [d]), stack, root⟩ := by
        simp only [State.step, if_neg h.1.2]
        rfl
      rw [runs_cons_eq, hstep, Option.bind_some, ih _ h.2, List.append_assoc, List.singleton_append]

theorem runs_reference {name : Text} (before : Text)
    (h : ∀ d ∈ name, isAscii d = true ∧ d ≠ semicolon) :
    runs State.step ⟨.reference before, stack, root⟩ name =
      some ⟨.reference (before ++ name), stack, root⟩ := by
  induction name generalizing before with
  | nil => rw [List.append_nil]; rfl
  | cons d name ih =>
      rw [List.forall_mem_cons] at h
      have hstep : State.step ⟨.reference before, stack, root⟩ d =
          some ⟨.reference (before ++ [d]), stack, root⟩ := by
        simp only [State.step, if_neg h.1.2]
        rfl
      rw [runs_cons_eq, hstep, Option.bind_some, ih _ h.2, List.append_assoc, List.singleton_append]

/-- A unit of the value of an attribute. -/
theorem runs_valueUnit (hf : Escapes f) (n value : Text) (c : CodeUnit) :
    runs State.step ⟨.value tag n quote value, stack, root⟩ (f c) =
      some ⟨.value tag n quote (value ++ [whiteToBlank c]), stack, root⟩ := by
  by_cases hc : c ∈ markupUnits
  · have hrefers := hf.refers c hc
    obtain ⟨name, hunit, hreferred, hname⟩ := hrefers.reference
    have hopen : State.step ⟨.value tag n quote value, stack, root⟩ ampersand =
        some ⟨.valueReference tag n quote value [], stack, root⟩ := rfl
    have hclose : State.step ⟨.valueReference tag n quote value name, stack, root⟩ semicolon =
        some ⟨.value tag n quote (value ++ [c]), stack, root⟩ := by
      simp only [State.step, if_pos, hreferred, Option.map_some]
      rfl
    rw [hunit, runs_cons_eq, hopen, Option.bind_some, runs_append,
      runs_valueReference [] hname, Option.bind_some, List.nil_append, runs_cons_eq, hclose,
      whiteToBlank, (isAscii_plain hrefers.ascii).2.2]
    rfl
  · obtain ⟨hamp, hless, -, hquote, -⟩ := ne_of_not_markup hc
    rw [hf.plain c hc, runs_cons_eq]
    simp only [State.step, if_neg hquote, if_neg hless, if_neg hamp]
    rfl

theorem runs_value (hf : Escapes f) (n value t : Text) :
    runs State.step ⟨.value tag n quote value, stack, root⟩ (t.flatMap f) =
      some ⟨.value tag n quote (value ++ t.map whiteToBlank), stack, root⟩ := by
  induction t generalizing value with
  | nil => rw [List.map_nil, List.append_nil]; rfl
  | cons c t ih =>
      rw [List.flatMap_cons, runs_append, runs_valueUnit hf, Option.bind_some, ih, List.map_cons,
        List.append_assoc, List.singleton_append]

theorem addCharacters_append (children : List Node) (t u : Text) :
    addCharacters (addCharacters children t) u = addCharacters children (t ++ u) := by
  have hnil : ∀ children, addCharacters children [] = children := fun _ => if_pos rfl
  by_cases ht : t = []
  · rw [ht, hnil, List.nil_append]
  by_cases hu : u = []
  · rw [hu, hnil, List.append_nil]
  cases children with
  | nil => simp [addCharacters, ht, hu]
  | cons node rest => cases node <;> simp [addCharacters, ht, hu]

/-- A unit of the text of an element. -/
theorem runs_textUnit (hf : Escapes f) (k : ℕ) (children : List Node) (c : CodeUnit) :
    ∃ k', runs State.step ⟨.content k, ⟨tag, children⟩ :: stack, root⟩ (f c) =
      some ⟨.content k', ⟨tag, addCharacters children [c]⟩ :: stack, root⟩ := by
  by_cases hc : c ∈ markupUnits
  · have hrefers := hf.refers c hc
    obtain ⟨name, hunit, hreferred, hname⟩ := hrefers.reference
    have hopen : State.step ⟨.content k, ⟨tag, children⟩ :: stack, root⟩ ampersand =
        some ⟨.reference [], ⟨tag, children⟩ :: stack, root⟩ := rfl
    have hclose : State.step ⟨.reference name, ⟨tag, children⟩ :: stack, root⟩ semicolon =
        some ⟨.content 0, ⟨tag, addCharacters children [c]⟩ :: stack, root⟩ := by
      simp only [State.step, if_pos, hreferred, Option.map_some]
      rfl
    refine ⟨0, ?_⟩
    rw [hunit, runs_cons_eq, hopen, Option.bind_some, runs_append, runs_reference [] hname,
      Option.bind_some, List.nil_append, runs_cons_eq, hclose]
    rfl
  · obtain ⟨hamp, hless, hgreater, -, -⟩ := ne_of_not_markup hc
    refine ⟨if c = rightBracket then k + 1 else 0, ?_⟩
    rw [hf.plain c hc, runs_cons_eq]
    simp only [State.step, State.contentUnit, if_neg hless, if_neg hamp, hgreater, false_and,
      List.isEmpty_cons, Bool.false_eq_true, if_false]
    rfl

theorem runs_text (hf : Escapes f) (tag : Tag) (stack : List Frame) (root : Option Node) (k : ℕ)
    (children : List Node) (t : Text) : ∃ k',
    runs State.step ⟨.content k, ⟨tag, children⟩ :: stack, root⟩ (t.flatMap f) =
      some ⟨.content k', ⟨tag, addCharacters children t⟩ :: stack, root⟩ := by
  induction t generalizing k children with
  | nil => exact ⟨k, rfl⟩
  | cons c t ih =>
      obtain ⟨k', hunit⟩ := runs_textUnit hf k children c
      obtain ⟨k'', hrest⟩ := ih k' (addCharacters children [c])
      refine ⟨k'', ?_⟩
      rw [List.flatMap_cons, runs_append, hunit, Option.bind_some, hrest, addCharacters_append,
        List.singleton_append]

/-! ### Reading tags -/

/-- A mode that adds units to a name does so with all units of names. -/
theorem runs_name {mode : Text → Mode} (hmode : ∀ before c, isNameUnit c = true → before ≠ [] →
      State.step ⟨mode before, stack, root⟩ c = some ⟨mode (before ++ [c]), stack, root⟩)
    {before name : Text} (hbefore : before ≠ []) (h : ∀ c ∈ name, isNameUnit c = true) :
    runs State.step ⟨mode before, stack, root⟩ name =
      some ⟨mode (before ++ name), stack, root⟩ := by
  induction name generalizing before with
  | nil => rw [List.append_nil]; rfl
  | cons c name ih =>
      rw [List.forall_mem_cons] at h
      rw [runs_cons_eq, hmode before c h.1 hbefore, Option.bind_some, ih (by simp) h.2,
        List.append_assoc, List.singleton_append]

/-- A name from its first unit on. -/
theorem runs_wholeName {mode : Text → Mode} {s : State} (name : Name)
    (hfirst : ∀ c, isNameStart c = true → isAscii c = true →
      State.step s c = some ⟨mode [c], stack, root⟩)
    (hmode : ∀ before c, isNameUnit c = true → before ≠ [] →
      State.step ⟨mode before, stack, root⟩ c = some ⟨mode (before ++ [c]), stack, root⟩) :
    runs State.step s name.units = some ⟨mode name.units, stack, root⟩ := by
  obtain ⟨units, hstarts, hunits⟩ := name
  cases units with
  | nil => cases hstarts
  | cons c units =>
      rw [List.forall_mem_cons] at hunits
      rw [runs_cons_eq, hfirst c hstarts hunits.1.2, Option.bind_some,
        runs_name hmode (List.cons_ne_nil c []) fun d hd => (hunits.2 d hd).1,
        List.singleton_append]

/-- The mode of a start tag that has been read so far, behind a name or a value. -/
def Mode.ReadTag (mode : Mode) (tag : Tag) : Prop :=
  (mode = .startName tag.name ∧ tag.attributes = []) ∨ mode = .inTag tag false

theorem step_readTag {mode : Mode} (h : mode.ReadTag tag) {c : CodeUnit}
    (hc : isNameUnit c = false) :
    State.step ⟨mode, stack, root⟩ c = State.tagUnit ⟨mode, stack, root⟩ tag c := by
  rcases h with ⟨rfl, hattributes⟩ | rfl
  · have htag : (⟨tag.name, []⟩ : Tag) = tag := by
      rw [← hattributes]
    simp only [State.step, hc, Bool.false_eq_true, if_false, htag]
  · simp only [State.step, Bool.false_and, Bool.false_eq_true, if_false]

theorem sees_attribute (hf : Escapes f) {mode : Mode} (h : mode.ReadTag tag) (a : Name × Text)
    (hnew : a.1.units ∉ tag.attributes.map Prod.fst) :
    Sees State.step ⟨mode, stack, root⟩ (writeAttribute f a)
      ⟨.inTag ⟨tag.name, tag.attributes ++ [(a.1.units, attributeText a.2)]⟩ false, stack,
        root⟩ := by
  have hblank : State.step ⟨mode, stack, root⟩ blank = some ⟨.inTag tag true, stack, root⟩ :=
    step_readTag h (by decide)
  have hname : runs State.step ⟨.inTag tag true, stack, root⟩ a.1.units =
      some ⟨.attributeName tag a.1.units, stack, root⟩ := by
    refine runs_wholeName a.1 (fun c hstart _ => ?_) fun before c hc _ => ?_
    · simp only [State.step, hstart, Bool.and_self, if_true]
      rfl
    · simp only [State.step, hc, if_true]
      rfl
  have hequals : runs State.step ⟨.attributeName tag a.1.units, stack, root⟩ (text "=\"") =
      some ⟨.value tag a.1.units quote [], stack, root⟩ := rfl
  have hopen : runs State.step ⟨mode, stack, root⟩ (blank :: (a.1.units ++ text "=\"")) =
      some ⟨.value tag a.1.units quote [], stack, root⟩ := by
    rw [runs_cons_eq, hblank, Option.bind_some, runs_append, hname, Option.bind_some, hequals]
  have hclose : Sees State.step ⟨.value tag a.1.units quote (attributeText a.2), stack, root⟩
      [quote] ⟨.inTag ⟨tag.name, tag.attributes ++ [(a.1.units, attributeText a.2)]⟩ false, stack,
        root⟩ := by
    refine sees_plain (by decide) ?_
    have hany : (tag.attributes.any fun b => b.1 = a.1.units) = false := by
      rw [List.any_eq_false]
      intro b hb heq
      exact hnew (List.mem_map.mpr ⟨b, hb, of_decide_eq_true heq⟩)
    rw [runs_cons_eq]
    simp only [State.step, if_true, hany, Bool.false_eq_true, if_false]
    rfl
  have hplain : ∀ c ∈ blank :: (a.1.units ++ text "=\""), c ≠ 13 := by
    have hkeyword : ∀ c ∈ text "=\"", c ≠ 13 := by decide
    rw [List.forall_mem_cons, List.forall_mem_append]
    exact ⟨by decide, fun c hc => (isAscii_plain (a.1.ascii c hc).2).1, hkeyword⟩
  have hvalue := sees_flatMap hf.keepsNewlines (by decide)
    (runs_value hf a.1.units [] (normalizeNewlines a.2)) hclose
  have hall := (sees_plain hplain hopen).trans hvalue
  simp only [List.cons_append, List.append_assoc] at hall
  exact hall

theorem sees_attributes (hf : Escapes f) {mode : Mode} (h : mode.ReadTag tag)
    {attributes : List (Name × Text)}
    (hdistinct : (tag.attributes.map Prod.fst ++ attributes.map fun a => a.1.units).Nodup) :
    ∃ mode', Mode.ReadTag mode' ⟨tag.name,
        tag.attributes ++ attributes.map fun a => (a.1.units, attributeText a.2)⟩ ∧
      Sees State.step ⟨mode, stack, root⟩ (attributes.flatMap (writeAttribute f))
        ⟨mode', stack, root⟩ := by
  induction attributes generalizing tag mode with
  | nil =>
      refine ⟨mode, ?_, fun u => rfl⟩
      rw [List.map_nil, List.append_nil]
      exact h
  | cons a attributes ih =>
      have hnew : a.1.units ∉ tag.attributes.map Prod.fst := by
        rw [List.map_cons, List.nodup_append] at hdistinct
        intro hmem
        exact hdistinct.2.2 _ hmem _ List.mem_cons_self rfl
      have hread : Mode.ReadTag (.inTag ⟨tag.name, tag.attributes ++
          [(a.1.units, attributeText a.2)]⟩ false) ⟨tag.name, tag.attributes ++
          [(a.1.units, attributeText a.2)]⟩ := Or.inr rfl
      obtain ⟨mode', hmode', hrest⟩ := ih hread (by simpa using hdistinct)
      refine ⟨mode', ?_, ?_⟩
      · rw [List.map_cons]
        simpa using hmode'
      · rw [List.flatMap_cons]
        exact (sees_attribute hf h a hnew).trans hrest

theorem sees_startTag (hf : Escapes f) (t : StartTag) (k : ℕ) (h : stack = [] → root = none) :
    ∃ mode, Mode.ReadTag mode t.seen ∧
      Sees State.step ⟨.content k, stack, root⟩ (t.write f) ⟨mode, stack, root⟩ := by
  have hname : runs State.step ⟨.content k, stack, root⟩ (less :: t.name.units) =
      some ⟨.startName t.name.units, stack, root⟩ := by
    have hless : State.step ⟨.content k, stack, root⟩ less = some ⟨.opened, stack, root⟩ := rfl
    rw [runs_cons_eq, hless, Option.bind_some]
    refine runs_wholeName t.name (fun c hstart hascii => ?_) fun before c hc _ => ?_
    · have hne : c ≠ slash ∧ c ≠ 33 ∧ c ≠ 63 := by
        refine ⟨?_, ?_, ?_⟩ <;>
          (rintro rfl; revert hstart; decide)
      have hroot : (stack.isEmpty && root.isSome) = false := by
        cases stack with
        | nil => rw [h rfl]; rfl
        | cons frame stack => rfl
      simp only [State.step, State.openedUnit, if_neg hne.1, if_neg hne.2.1, if_neg hne.2.2, hstart,
        hroot]
      rfl
    · simp only [State.step, hc, if_true]
      rfl
  have hplain : ∀ c ∈ less :: t.name.units, c ≠ 13 := by
    rw [List.forall_mem_cons]
    exact ⟨by decide, fun c hc => (isAscii_plain (t.name.ascii c hc).2).1⟩
  have hread : Mode.ReadTag (.startName t.name.units) ⟨t.name.units, []⟩ := Or.inl ⟨rfl, rfl⟩
  obtain ⟨mode, hmode, hrest⟩ : ∃ mode, Mode.ReadTag mode t.seen ∧
      Sees State.step ⟨.startName t.name.units, stack, root⟩
        (t.attributes.flatMap (writeAttribute f)) ⟨mode, stack, root⟩ :=
    sees_attributes hf hread t.distinct
  exact ⟨mode, hmode, (sees_plain hplain hname).trans hrest⟩

theorem sees_endTag (stack : List Frame) (root : Option Node) (t : StartTag) (k : ℕ)
    (children : List Node) :
    Sees State.step ⟨.content k, ⟨t.seen, children⟩ :: stack, root⟩ t.writeEnd
      (State.add ⟨.content 0, stack, root⟩
        (.element t.seen.name t.seen.attributes children.reverse)) := by
  have hplain : ∀ c ∈ t.writeEnd, c ≠ 13 := by
    rw [StartTag.writeEnd, List.forall_mem_cons, List.forall_mem_cons, List.forall_mem_append]
    exact ⟨by decide, by decide, fun c hc => (isAscii_plain (t.name.ascii c hc).2).1, by decide⟩
  have hopen : runs State.step ⟨.content k, ⟨t.seen, children⟩ :: stack, root⟩ [less, slash] =
      some ⟨.endName [], ⟨t.seen, children⟩ :: stack, root⟩ := rfl
  have hname : runs State.step ⟨.endName [], ⟨t.seen, children⟩ :: stack, root⟩ t.name.units =
      some ⟨.endName t.name.units, ⟨t.seen, children⟩ :: stack, root⟩ := by
    refine runs_wholeName t.name (fun c hstart _ => ?_) fun before c hc hbefore => ?_
    · simp only [State.step, if_true, hstart]
      rfl
    · simp only [State.step, if_neg hbefore, hc, if_true]
      rfl
  have hne : t.name.units ≠ [] := by
    intro hnil
    have hstarts := t.name.starts
    rw [hnil] at hstarts
    cases hstarts
  have hclose : State.step ⟨.endName t.name.units, ⟨t.seen, children⟩ :: stack, root⟩ greater =
      some (State.add ⟨.endName t.name.units, stack, root⟩
        (.element t.seen.name t.seen.attributes children.reverse)) := by
    have hend : isNameUnit greater = false := by decide
    have hwhite : isWhite greater = false := by decide
    simp only [State.step, if_neg hne, hend, Bool.false_eq_true, if_false, State.endUnit, hwhite,
      if_true, State.close, StartTag.seen]
  refine sees_plain hplain ?_
  have hsplit : t.writeEnd = [less, slash] ++ (t.name.units ++ [greater]) := rfl
  rw [hsplit, runs_append, hopen, Option.bind_some, runs_append, hname, Option.bind_some,
    runs_cons_eq, hclose]
  cases stack <;> rfl

/-- No text is the last of the children. -/
def EndsWithElement (children : List Node) : Prop :=
  ∀ t, .characters t ∉ children.head?

theorem addCharacters_of_ends {children : List Node} (h : EndsWithElement children) (t : Text) :
    addCharacters children (normalizeNewlines t) = (characters t).reverse ++ children := by
  by_cases ht : normalizeNewlines t = []
  · simp [addCharacters, characters, ht]
  · cases children with
    | nil => simp [addCharacters, characters, ht]
    | cons node rest =>
        cases node with
        | element => simp [addCharacters, characters, ht]
        | characters u => exact absurd rfl (h u)

/-- The text before a tag. -/
theorem sees_textBefore (hf : Escapes f) {k : ℕ} {children : List Node} {t w : Text} {s' : State}
    (hends : EndsWithElement children)
    (hw : ∀ k, Sees State.step
      ⟨.content k, ⟨tag, (characters t).reverse ++ children⟩ :: stack, root⟩ (less :: w) s') :
    Sees State.step ⟨.content k, ⟨tag, children⟩ :: stack, root⟩
      (t.flatMap f ++ less :: w) s' := by
  obtain ⟨k', htext⟩ := runs_text hf tag stack root k children (normalizeNewlines t)
  refine sees_flatMap hf.keepsNewlines (by decide) htext ?_
  rw [addCharacters_of_ends hends]
  exact hw k'

namespace Markup

theorem write_eq_cons (m : Markup) : ∃ w, m.write f = less :: w := by
  cases m with
  | empty tag => exact ⟨_, by rw [write]; rfl⟩
  | element tag children rest => exact ⟨_, by rw [write]; rfl⟩

theorem node_ends (m : Markup) (children : List Node) : EndsWithElement (m.node :: children) := by
  intro t ht
  cases m with
  | empty tag =>
      rw [node] at ht
      cases ht
  | element tag children rest =>
      rw [node] at ht
      cases ht

mutual

/-- An element is read as it was written. -/
theorem sees_write (hf : Escapes f) : ∀ (m : Markup) (k : ℕ) (stack : List Frame)
    (root : Option Node), (stack = [] → root = none) →
    Sees State.step ⟨.content k, stack, root⟩ (m.write f)
      (State.add ⟨.content 0, stack, root⟩ m.node)
  | .empty tag, k, stack, root, h => by
      obtain ⟨mode, hmode, hstart⟩ := sees_startTag hf tag k h
      rw [write, node]
      refine hstart.trans (sees_plain (by decide) ?_)
      rw [runs_cons_eq, step_readTag hmode (by decide)]
      cases stack <;> rfl
  | .element tag children rest, k, stack, root, h => by
      obtain ⟨mode, hmode, hstart⟩ := sees_startTag hf tag k h
      have hopen : Sees State.step ⟨mode, stack, root⟩ [greater]
          ⟨.content 0, ⟨tag.seen, []⟩ :: stack, root⟩ := by
        refine sees_plain (by decide) ?_
        rw [runs_cons_eq, step_readTag hmode (by decide)]
        rfl
      have hends : EndsWithElement [] := fun t ht => by cases ht
      have hbody := sees_body hf children rest tag 0 [] stack root hends
      rw [write, node]
      exact hstart.trans (hopen.trans hbody)

/-- The content of an element up to its end tag. -/
theorem sees_body (hf : Escapes f) : ∀ (children : List (Text × Markup)) (rest : Text)
    (tag : StartTag) (k : ℕ) (before : List Node) (stack : List Frame) (root : Option Node),
    EndsWithElement before →
    Sees State.step ⟨.content k, ⟨tag.seen, before⟩ :: stack, root⟩
      (writeChildren f children ++ (rest.flatMap f ++ tag.writeEnd))
      (State.add ⟨.content 0, stack, root⟩ (.element tag.seen.name tag.seen.attributes
        (before.reverse ++ (nodes children ++ characters rest))))
  | [], rest, tag, k, before, stack, root, hends => by
      rw [writeChildren, nodes, List.nil_append, List.nil_append]
      refine sees_textBefore hf hends fun k' => ?_
      have hend := sees_endTag stack root tag k' ((characters rest).reverse ++ before)
      rw [List.reverse_append, List.reverse_reverse] at hend
      exact hend
  | (t, m) :: children, rest, tag, k, before, stack, root, hends => by
      have hbody := sees_body hf children rest tag 0
        (m.node :: ((characters t).reverse ++ before)) stack root (node_ends m _)
      have hm : ∀ k, Sees State.step
          ⟨.content k, ⟨tag.seen, (characters t).reverse ++ before⟩ :: stack, root⟩ (m.write f)
          ⟨.content 0, ⟨tag.seen, m.node :: ((characters t).reverse ++ before)⟩ :: stack, root⟩ :=
        fun k => sees_write hf m k _ root fun h => absurd h (List.cons_ne_nil _ _)
      obtain ⟨w, hw⟩ := write_eq_cons (f := f) m
      have hchildren : before.reverse ++ (nodes ((t, m) :: children) ++ characters rest) =
          (m.node :: ((characters t).reverse ++ before)).reverse ++
            (nodes children ++ characters rest) := by
        rw [nodes]
        simp
      rw [writeChildren, hchildren, List.append_assoc, List.append_assoc, hw, List.cons_append]
      refine sees_textBefore hf hends fun k' => ?_
      rw [← List.cons_append, ← hw]
      exact (hm k').trans hbody

end

end Markup

/-! ### Characters of what is written -/

/-- No part of a character with two units, and a character that a document may have. -/
def isPlain (c : CodeUnit) : Bool :=
  !Utf8.isHigh c && !Utf8.isLow c && isChar c

theorem isPlain_of_ascii {c : CodeUnit} (h : isAscii c = true) : isPlain c = true := by
  have hrange := isAscii_iff.mp h
  have hhigh : Utf8.isHigh c = false := by
    rw [← Bool.not_eq_true, Utf8.isHigh_iff]
    omega
  have hlow : Utf8.isLow c = false := by
    rw [← Bool.not_eq_true, Utf8.isLow_iff]
    omega
  have hchar : isChar c = true := by
    simp only [isChar, Bool.or_eq_true, Bool.and_eq_true, decide_eq_true_eq]
    omega
  simp [isPlain, hhigh, hlow, hchar]

theorem allowed_plain_append {w u : Text} (hw : ∀ c ∈ w, isPlain c = true) :
    Allowed (w ++ u) ↔ Allowed u := by
  simp only [isPlain, Bool.and_eq_true, Bool.not_eq_true'] at hw
  rw [Allowed, Allowed, Utf8.wellFormed_plain_append fun c hc => (hw c hc).1,
    List.forall_mem_append]
  have hchars : ∀ c ∈ w, isChar c = true := fun c hc => (hw c hc).2
  rw [and_iff_right hchars]

theorem allowed_append_cons {c : CodeUnit} (t u : Text) (hc : isPlain c = true) :
    Allowed (t ++ c :: u) ↔ Allowed t ∧ Allowed (c :: u) := by
  simp only [isPlain, Bool.and_eq_true, Bool.not_eq_true'] at hc
  have happend := Utf8.wellFormed_append_iff (a := t) (b := c :: u)
  have hstart : Utf8.startsLow (c :: u) = false := hc.1.2
  rw [hstart, Bool.and_false, and_iff_left rfl] at happend
  rw [Allowed, Allowed, Allowed, ← happend, List.forall_mem_append]
  tauto

theorem wellFormed_refers_append {c : CodeUnit} {r : Text} (h : Refers c r) (u : Text) :
    Utf8.WellFormed (r ++ u) ↔ Utf8.WellFormed u := by
  refine Utf8.wellFormed_plain_append fun d hd => ?_
  have hplain := isPlain_of_ascii (h.ascii_of_mem hd)
  simp only [isPlain, Bool.and_eq_true, Bool.not_eq_true'] at hplain
  exact hplain.1

/-- The escape starts with half of a pair where the text does. -/
theorem startsLow_escape (hf : Escapes f) (t : Text) :
    Utf8.startsLow (t.flatMap f) = Utf8.startsLow t := by
  cases t with
  | nil => rfl
  | cons c t =>
      rw [List.flatMap_cons]
      by_cases hc : c ∈ markupUnits
      · obtain ⟨name, hunit, -, -⟩ := (hf.refers c hc).reference
        have hplain := isPlain_of_ascii (hf.refers c hc).ascii
        simp only [isPlain, Bool.and_eq_true, Bool.not_eq_true'] at hplain
        have hlow : Utf8.startsLow (c :: t) = false := hplain.1.2
        rw [hunit, hlow]
        rfl
      · rw [hf.plain c hc]
        rfl

/-- The escape of a text without its first unit, when that is half of a pair. -/
theorem tail_escape (hf : Escapes f) {t : Text} (h : Utf8.startsLow t = true) :
    (t.flatMap f).tail = t.tail.flatMap f := by
  cases t with
  | nil => rfl
  | cons d rest =>
      have hd : d ∉ markupUnits := by
        intro hmem
        have hplain := isPlain_of_ascii (hf.refers d hmem).ascii
        simp only [isPlain, Bool.and_eq_true, Bool.not_eq_true'] at hplain
        have hlow : Utf8.isLow d = true := h
        rw [hplain.1.2] at hlow
        cases hlow
      rw [List.flatMap_cons, hf.plain d hd, List.singleton_append, List.tail_cons, List.tail_cons]

/-- By induction for a text and for what is behind its first unit: a pair is read at once. -/
theorem wellFormed_escape_tail (hf : Escapes f) (t : Text) :
    (Utf8.WellFormed (t.flatMap f) ↔ Utf8.WellFormed t) ∧
      (Utf8.WellFormed (t.tail.flatMap f) ↔ Utf8.WellFormed t.tail) := by
  induction t with
  | nil => exact ⟨Iff.rfl, Iff.rfl⟩
  | cons c t ih =>
      refine ⟨?_, ih.1⟩
      by_cases hc : c ∈ markupUnits
      · have hplain := isPlain_of_ascii (hf.refers c hc).ascii
        simp only [isPlain, Bool.and_eq_true, Bool.not_eq_true'] at hplain
        rw [List.flatMap_cons, wellFormed_refers_append (hf.refers c hc), ih.1,
          Utf8.wellFormed_cons, hplain.1.1, hplain.1.2]
        simp
      · rw [List.flatMap_cons, hf.plain c hc, List.singleton_append, Utf8.wellFormed_cons,
          Utf8.wellFormed_cons, ih.1, ← Utf8.startsLow, startsLow_escape hf, ← Utf8.startsLow]
        split
        · refine and_congr_right fun hlow => ?_
          rw [tail_escape hf hlow, ih.2]
        · rfl

theorem wellFormed_escape (hf : Escapes f) (t : Text) :
    Utf8.WellFormed (t.flatMap f) ↔ Utf8.WellFormed t :=
  (wellFormed_escape_tail hf t).1

theorem allowed_escape (hf : Escapes f) (t : Text) : Allowed (t.flatMap f) ↔ Allowed t := by
  rw [Allowed, Allowed, wellFormed_escape hf, List.forall_mem_flatMap]
  refine and_congr_right fun _ => forall₂_congr fun c _ => ?_
  by_cases hc : c ∈ markupUnits
  · have hrefers := hf.refers c hc
    have hplain : ∀ d, isAscii d = true → isChar d = true := by
      intro d hd
      have hplain := isPlain_of_ascii hd
      simp only [isPlain, Bool.and_eq_true] at hplain
      exact hplain.2
    exact iff_of_true (fun d hd => hplain d (hrefers.ascii_of_mem hd)) (hplain c hrefers.ascii)
  · rw [hf.plain c hc, List.forall_mem_singleton]

theorem allowed_text_append (hf : Escapes f) (t : Text) {u : Text} (hu : ∃ w, u = less :: w) :
    Allowed (t.flatMap f ++ u) ↔ Allowed t ∧ Allowed u := by
  obtain ⟨w, rfl⟩ := hu
  rw [allowed_append_cons _ _ (by decide), allowed_escape hf]

theorem Name.plain (name : Name) : ∀ c ∈ name.units, isPlain c = true :=
  fun c hc => isPlain_of_ascii (name.ascii c hc).2

theorem allowed_attribute (hf : Escapes f) (a : Name × Text) (u : Text) :
    Allowed (writeAttribute f a ++ u) ↔ Allowed a.2 ∧ Allowed u := by
  have hsplit : writeAttribute f a ++ u =
      (blank :: (a.1.units ++ text "=\"")) ++ (a.2.flatMap f ++ quote :: u) := by
    simp [writeAttribute]
  have hplain : ∀ c ∈ blank :: (a.1.units ++ text "=\""), isPlain c = true := by
    rw [List.forall_mem_cons, List.forall_mem_append]
    exact ⟨by decide, a.1.plain, by decide⟩
  have hquote : Allowed (quote :: u) ↔ Allowed u :=
    allowed_plain_append (w := [quote]) (by decide)
  rw [hsplit, allowed_plain_append hplain, allowed_append_cons _ _ (by decide), allowed_escape hf,
    hquote]

theorem allowed_attributes (hf : Escapes f) (attributes : List (Name × Text)) (u : Text) :
    Allowed (attributes.flatMap (writeAttribute f) ++ u) ↔
      (∀ t ∈ attributes.map Prod.snd, Allowed t) ∧ Allowed u := by
  induction attributes with
  | nil => simp
  | cons a attributes ih =>
      rw [List.flatMap_cons, List.append_assoc, allowed_attribute hf, ih, List.map_cons,
        List.forall_mem_cons, and_assoc]

theorem allowed_startTag (hf : Escapes f) (t : StartTag) (u : Text) :
    Allowed (t.write f ++ u) ↔ (∀ v ∈ t.attributes.map Prod.snd, Allowed v) ∧ Allowed u := by
  have hplain : ∀ c ∈ less :: t.name.units, isPlain c = true :=
    List.forall_mem_cons.mpr ⟨by decide, t.name.plain⟩
  have hsplit : t.write f ++ u =
      (less :: t.name.units) ++ (t.attributes.flatMap (writeAttribute f) ++ u) := by
    simp [StartTag.write]
  rw [hsplit, allowed_plain_append hplain, allowed_attributes hf]

namespace Markup

mutual

theorem allowed_write (hf : Escapes f) : ∀ (m : Markup) (u : Text),
    Allowed (m.write f ++ u) ↔ (∀ t ∈ m.texts, Allowed t) ∧ Allowed u
  | .empty tag, u => by
      rw [write, texts, List.append_assoc, allowed_startTag hf,
        allowed_plain_append (w := [slash, greater]) (by decide)]
  | .element tag children rest, u => by
      have hopen : ∀ v, Allowed (greater :: v) ↔ Allowed v :=
        fun v => allowed_plain_append (w := [greater]) (by decide)
      have hend : ∀ c ∈ tag.writeEnd, isPlain c = true := by
        rw [StartTag.writeEnd, List.forall_mem_cons, List.forall_mem_cons, List.forall_mem_append]
        exact ⟨by decide, by decide, tag.name.plain, by decide⟩
      have hrest := allowed_text_append hf rest (u := tag.writeEnd ++ u) ⟨_, rfl⟩
      rw [write, texts, List.append_assoc, allowed_startTag hf, List.cons_append, hopen,
        List.append_assoc, List.append_assoc, allowed_children hf children, hrest,
        allowed_plain_append hend,
        List.forall_mem_append, List.forall_mem_append, List.forall_mem_singleton]
      tauto

theorem allowed_children (hf : Escapes f) : ∀ (children : List (Text × Markup)) (u : Text),
    Allowed (writeChildren f children ++ u) ↔
      (∀ t ∈ textsOfChildren children, Allowed t) ∧ Allowed u
  | [], u => by simp [writeChildren, textsOfChildren]
  | (t, m) :: children, u => by
      obtain ⟨w, hw⟩ := write_eq_cons (f := f) m
      rw [writeChildren, textsOfChildren, List.append_assoc, List.append_assoc,
        allowed_text_append hf t ⟨_, by rw [hw]; rfl⟩, allowed_write hf m,
        allowed_children hf children u, List.forall_mem_cons, List.forall_mem_append]
      tauto

end

end Markup

theorem allowed_document (hf : Escapes f) (m : Markup) :
    Allowed (document f m) ↔ ∀ t ∈ m.texts, Allowed t := by
  have hdeclaration : ∀ c ∈ declaration ++ [newline], isPlain c = true := by decide
  have hsplit : document f m = (declaration ++ [newline]) ++ (m.write f ++ [newline]) := by
    simp [document]
  rw [hsplit, allowed_plain_append hdeclaration, Markup.allowed_write hf]
  exact and_iff_left (by decide)

theorem runs_document (hf : Escapes f) (m : Markup) :
    runs State.step State.init (normalizeNewlines (newline :: (m.write f ++ [newline]))) =
      some ⟨.content 0, [], some m.node⟩ := by
  have hbefore : Sees State.step State.init [newline] State.init := sees_plain (by decide) rfl
  have hafter : Sees State.step ⟨.content 0, [], some m.node⟩ [newline]
      ⟨.content 0, [], some m.node⟩ := sees_plain (by decide) rfl
  have hm : Sees State.step State.init (m.write f) ⟨.content 0, [], some m.node⟩ :=
    m.sees_write hf 0 [] none fun _ => rfl
  have hall := (hbefore.trans (hm.trans hafter)) []
  rw [List.append_nil] at hall
  exact hall

/-- A document is read back, its white space normalized; it is no document if and only if one of
its texts has a character that no document has. -/
theorem parse_document (hf : Escapes f) (m : Markup) :
    parse (document f m) = if ∀ t ∈ m.texts, Allowed t then some m.node else none := by
  have hnormal : normalizeNewlines (document f m) =
      declaration ++ normalizeNewlines (newline :: (m.write f ++ [newline])) :=
    normalizeNewlines_append (by decide)
  simp only [parse, allowed_document hf]
  refine if_congr Iff.rfl ?_ rfl
  rw [hnormal, if_pos (List.isPrefixOf_iff_prefix.mpr (List.prefix_append _ _)), List.drop_left,
    runs_document hf]
  rfl

end escapes

end WireTools.Xml

import WireTools.Newlines

/-! # Tokens of HTML

The tokenizer of HTML, on a part of the language, and a tree of markup that is written for it.

* `step` reads one unit, `feed` a text whose newlines are normalized, and `tokenize` a document.
  A comment, a `/` in a tag, a value without double quotes, a character reference other than
  three, and a few names and units that open other states, are outside the part: there are no
  tokens then;
* `Markup`: elements with text before, between and behind their children, and with the three kinds
  of content that elements may have.  A tag carries the proof that its names are names;
* `tokenize_write`: a document is seen as the tags that it was written from, and its texts are the
  characters between them. -/

namespace WireTools.Html

def ampersand : CodeUnit := 38

def less : CodeUnit := 60

def greater : CodeUnit := 62

def quote : CodeUnit := 34

def slash : CodeUnit := 47

def equals : CodeUnit := 61

def replacement : CodeUnit := 0xFFFD

/-! ### The tokenizer -/

inductive Token where
  | doctype (name : Text)
  | startTag (name : Text) (attributes : List (Text × Text))
  | endTag (name : Text)
  | character (c : CodeUnit)
  deriving DecidableEq

/-- How the units between tags are read: in the last two, only the end tag of the element that is
open ends the text. -/
inductive Content where
  | data
  | rcdata (name : Text)
  | rawText (script : Bool) (name : Text)
  deriving DecidableEq

namespace Content

/-- Whether there are character references. -/
def refers : Content → Bool
  | rawText _ _ => false
  | _ => true

/-- A unit as it is seen: a null is replaced, but between tags. -/
def shown : Content → CodeUnit → CodeUnit
  | data, c => c
  | _, c => if c = 0 then replacement else c

/-- The name of the end tag that ends the text. -/
def awaited : Content → Text
  | data => []
  | rcdata name => name
  | rawText _ name => name

end Content

/-- What the content of an element is read as; none for an element outside the part. -/
def contentOf (name : Text) : Option Content :=
  if name ∈ [text "title", text "textarea"] then some (.rcdata name)
  else if name ∈ [text "style", text "xmp", text "iframe", text "noembed", text "noframes"] then
    some (.rawText false name)
  else if name = text "script" then some (.rawText true name)
  else if name ∈ [text "noscript", text "plaintext"] then none
  else some .data

/-- A tag of which a part is read. -/
structure Opened where
  closing : Bool
  name : Text
  attributes : List (Text × Text)
  deriving DecidableEq

/-- A second attribute of a name does not count. -/
def Opened.add (tag : Opened) (name value : Text) : Opened :=
  if name ∈ tag.attributes.map Prod.fst then tag
  else { tag with attributes := tag.attributes ++ [(name, value)] }

inductive Mode where
  | text
  | reference (name : Text)
  | tagOpen
  | endTagOpen
  /-- The name of an end tag, where only one ends the text. -/
  | endTagName (name : Text)
  | tagName (tag : Opened)
  | beforeAttributeName (tag : Opened)
  | attributeName (tag : Opened) (name : Text)
  | afterAttributeName (tag : Opened) (name : Text)
  | beforeAttributeValue (tag : Opened) (name : Text)
  | attributeValue (tag : Opened) (name value : Text)
  | afterAttributeValue (tag : Opened)
  | declaration (keyword : Text)
  | afterDoctype
  | beforeDoctypeName
  | doctypeName (name : Text)
  deriving DecidableEq

structure State where
  content : Content
  mode : Mode
  tokens : List Token
  deriving DecidableEq

def isLetter (c : CodeUnit) : Bool := isUpper c || isLower c

def isBlank (c : CodeUnit) : Bool := c == 9 || c == 10 || c == 12 || c == 32

/-- The references of the part. -/
def referenced (name : Text) : Option CodeUnit :=
  if name = text "amp" then some ampersand
  else if name = text "lt" then some less
  else if name = text "gt" then some greater
  else none

namespace State

/-- Between tags, where the content of no element ends the text in a special way. -/
def data (tokens : List Token) : State := ⟨.data, .text, tokens⟩

def goTo (s : State) (mode : Mode) : State := { s with mode := mode }

/-- Characters, and back to the text. -/
def put (s : State) (t : Text) : State :=
  ⟨s.content, .text, s.tokens ++ t.map .character⟩

def textUnit (s : State) (c : CodeUnit) : State :=
  if c = less then s.goTo .tagOpen
  else if c = ampersand ∧ s.content.refers = true then s.goTo (.reference [])
  else s.put [s.content.shown c]

/-- The end of a tag. -/
def endTag (s : State) (tag : Opened) : Option State :=
  if tag.closing then some ⟨.data, .text, s.tokens ++ [.endTag tag.name]⟩
  else (contentOf tag.name).map fun content =>
    ⟨content, .text, s.tokens ++ [.startTag tag.name tag.attributes]⟩

def openUnit (s : State) (c : CodeUnit) : Option State :=
  match s.content with
  | .data =>
      if c = slash then some (s.goTo .endTagOpen)
      else if c = 33 then some (s.goTo (.declaration []))
      else if isLetter c then some (s.goTo (.tagName ⟨false, [toLower c], []⟩))
      else if c = 63 then none
      else some ((s.put [less]).textUnit c)
  | .rcdata _ =>
      if c = slash then some (s.goTo .endTagOpen) else some ((s.put [less]).textUnit c)
  | .rawText script _ =>
      if c = slash then some (s.goTo .endTagOpen)
      else if script && c = 33 then none
      else some ((s.put [less]).textUnit c)

def endOpenUnit (s : State) (c : CodeUnit) : Option State :=
  match s.content with
  | .data => if isLetter c then some (s.goTo (.tagName ⟨true, [toLower c], []⟩)) else none
  | _ =>
      if isLetter c then some (s.goTo (.endTagName [c]))
      else some ((s.put [less, slash]).textUnit c)

def endNameUnit (s : State) (name : Text) (c : CodeUnit) : Option State :=
  if isLetter c then some (s.goTo (.endTagName (name ++ [c])))
  else if name.map toLower = s.content.awaited ∧ (isBlank c ∨ c = slash) then none
  else if name.map toLower = s.content.awaited ∧ c = greater then
    s.endTag ⟨true, name.map toLower, []⟩
  else some ((s.put (less :: slash :: name)).textUnit c)

def step (s : State) (c : CodeUnit) : Option State :=
  match s.mode with
  | .text => some (s.textUnit c)
  | .reference name =>
      if c = 59 then (referenced name).map fun d => s.put [d]
      else if isLetter c || isDigit c then some (s.goTo (.reference (name ++ [c])))
      else if name = [] ∧ c ≠ 35 then some ((s.put [ampersand]).textUnit c)
      else none
  | .tagOpen => s.openUnit c
  | .endTagOpen => s.endOpenUnit c
  | .endTagName name => s.endNameUnit name c
  | .tagName tag =>
      if isBlank c then some (s.goTo (.beforeAttributeName tag))
      else if c = greater then s.endTag tag
      else if c = slash ∨ c = 0 then none
      else some (s.goTo (.tagName { tag with name := tag.name ++ [toLower c] }))
  | .beforeAttributeName tag =>
      if isBlank c then some s
      else if c = greater then s.endTag tag
      else if c = slash ∨ c = equals ∨ c = 0 then none
      else some (s.goTo (.attributeName tag [toLower c]))
  | .attributeName tag name =>
      if c = equals then some (s.goTo (.beforeAttributeValue tag name))
      else if c = greater then s.endTag (tag.add name [])
      else if isBlank c then some (s.goTo (.afterAttributeName tag name))
      else if c = slash ∨ c = 0 then none
      else some (s.goTo (.attributeName tag (name ++ [toLower c])))
  | .afterAttributeName tag name =>
      if isBlank c then some s
      else if c = equals then some (s.goTo (.beforeAttributeValue tag name))
      else if c = greater then s.endTag (tag.add name [])
      else if c = slash ∨ c = 0 then none
      else some (s.goTo (.attributeName (tag.add name []) [toLower c]))
  | .beforeAttributeValue tag name =>
      if isBlank c then some s
      else if c = quote then some (s.goTo (.attributeValue tag name []))
      else none
  | .attributeValue tag name value =>
      if c = quote then some (s.goTo (.afterAttributeValue (tag.add name value)))
      else if c = ampersand ∨ c = 0 then none
      else some (s.goTo (.attributeValue tag name (value ++ [c])))
  | .afterAttributeValue tag =>
      if isBlank c then some (s.goTo (.beforeAttributeName tag))
      else if c = greater then s.endTag tag
      else none
  | .declaration keyword =>
      let read := keyword ++ [toLower c]
      if read = text "doctype" then some (s.goTo .afterDoctype)
      else if read <+: text "doctype" then some (s.goTo (.declaration read))
      else none
  | .afterDoctype => if isBlank c then some (s.goTo .beforeDoctypeName) else none
  | .beforeDoctypeName =>
      if isBlank c then some s
      else if c = greater ∨ c = 0 then none
      else some (s.goTo (.doctypeName [toLower c]))
  | .doctypeName name =>
      if c = greater then some ⟨.data, .text, s.tokens ++ [.doctype name]⟩
      else if isBlank c ∨ c = 0 then none
      else some (s.goTo (.doctypeName (name ++ [toLower c])))

def feed (s : State) (t : Text) : Option State :=
  runs step s t

/-- The tokens, at the end of the text. -/
def finish (s : State) : Option (List Token) :=
  match s.mode with
  | .text => some s.tokens
  | _ => none

end State

def tokenize (t : Text) : Option (List Token) :=
  ((State.data []).feed (normalizeNewlines t)).bind State.finish

/-! ### Markup -/

/-- The units of a name that is written in lower case. -/
def isNameUnit (c : CodeUnit) : Bool := isLower c || isDigit c || c == 45

structure Name where
  units : Text
  lower : ∀ c ∈ units, isNameUnit c = true
  starts : units.head?.any isLower = true

/-- A value that stands between double quotes as it is. -/
structure AttributeValue where
  units : Text
  plain : ∀ c ∈ units, c ≠ quote ∧ c ≠ ampersand ∧ c ≠ 0 ∧ c ≠ 13

/-- An attribute that is there or not has no value. -/
structure Attribute where
  name : Name
  value : Option AttributeValue

structure Tag where
  name : Name
  attributes : List Attribute
  distinct : (attributes.map fun a => a.name.units).Nodup

/-- An element, and the text behind the last of its children. -/
inductive Markup where
  /-- Each child has the text before it. -/
  | element (tag : Tag) (ordinary : contentOf tag.name.units = some .data)
      (children : List (Text × Markup)) (rest : Text)
  /-- An element of which only the start tag is written. -/
  | void (tag : Tag) (ordinary : contentOf tag.name.units = some .data)
  /-- A text in which references count and tags do not. -/
  | escapable (tag : Tag) (known : contentOf tag.name.units = some (.rcdata tag.name.units))
      (t : Text)
  | raw (tag : Tag) (script : Bool)
      (known : contentOf tag.name.units = some (.rawText script tag.name.units))
      (t : Text) (plain : less ∉ t)

/-- The three units that mean something else in a text, by reference. -/
def escapeUnit (c : CodeUnit) : Text :=
  if c = ampersand then text "&amp;"
  else if c = less then text "&lt;"
  else if c = greater then text "&gt;"
  else [c]

def escape (t : Text) : Text :=
  t.flatMap escapeUnit

theorem escape_cons (c : CodeUnit) (t : Text) : escape (c :: t) = escapeUnit c ++ escape t := rfl

def Attribute.write (a : Attribute) : Text :=
  blank :: (a.name.units ++ match a.value with
    | none => []
    | some v => equals :: quote :: (v.units ++ [quote]))

/-- The attribute as it is seen. -/
def Attribute.seen (a : Attribute) : Text × Text :=
  (a.name.units, match a.value with
    | none => []
    | some v => v.units)

def Tag.startText (tag : Tag) : Text :=
  less :: (tag.name.units ++ (tag.attributes.flatMap Attribute.write ++ [greater]))

def Tag.endText (tag : Tag) : Text :=
  less :: slash :: (tag.name.units ++ [greater])

def Tag.startToken (tag : Tag) : Token :=
  .startTag tag.name.units (tag.attributes.map Attribute.seen)

/-- The characters of a text, in an element of this content. -/
def characters (content : Content) (t : Text) : List Token :=
  (normalizeNewlines t).map fun c => .character (content.shown c)

namespace Markup

mutual

def write : Markup → Text
  | .element tag _ children rest =>
      tag.startText ++ (writeChildren children ++ (escape rest ++ tag.endText))
  | .void tag _ => tag.startText
  | .escapable tag _ t => tag.startText ++ (escape t ++ tag.endText)
  | .raw tag _ _ t _ => tag.startText ++ (t ++ tag.endText)

def writeChildren : List (Text × Markup) → Text
  | [] => []
  | (t, m) :: children => escape t ++ (write m ++ writeChildren children)

end

mutual

/-- The tags and the characters. -/
def tokens : Markup → List Token
  | .element tag _ children rest =>
      tag.startToken :: (tokensOfChildren children ++
        (characters .data rest ++ [.endTag tag.name.units]))
  | .void tag _ => [tag.startToken]
  | .escapable tag _ t => tag.startToken :: (characters (.rcdata tag.name.units) t ++
      [.endTag tag.name.units])
  | .raw tag script _ t _ => tag.startToken :: (characters (.rawText script tag.name.units) t ++
      [.endTag tag.name.units])

def tokensOfChildren : List (Text × Markup) → List Token
  | [] => []
  | (t, m) :: children => characters .data t ++ (tokens m ++ tokensOfChildren children)

end

end Markup

/-- A document type, and the element that is the document, with the text between. -/
structure Document where
  doctype : Name
  before : Text
  root : Markup

namespace Document

def write (d : Document) : Text :=
  text "<!doctype " ++ (d.doctype.units ++ greater :: (escape d.before ++ d.root.write))

def tokens (d : Document) : List Token :=
  .doctype d.doctype.units :: (characters .data d.before ++ d.root.tokens)

end Document

/-! ### Newlines of what is written -/

/-- No reference is a newline. -/
theorem keepsNewlines_escapeUnit : KeepsNewlines escapeUnit where
  carriageReturn := rfl
  lineFeed := rfl
  ne_nil c := by
    unfold escapeUnit
    split
    · decide
    · split
      · decide
      · split
        · decide
        · exact List.cons_ne_nil _ _
  plain c hreturn hline := by
    unfold escapeUnit
    split
    · decide
    · split
      · decide
      · split
        · decide
        · intro d hd
          rw [List.mem_singleton.mp hd]
          exact ⟨hreturn, hline⟩

/-! ### Reading what is written -/

namespace State

theorem feed_cons (s : State) (c : CodeUnit) (t : Text) :
    s.feed (c :: t) = (s.step c).bind fun s' => s'.feed t := rfl

theorem feed_append (s : State) (t u : Text) :
    s.feed (t ++ u) = (s.feed t).bind fun s' => s'.feed u :=
  runs_append s t u

theorem step_plain {content : Content} {c : CodeUnit} {tokens : List Token} (hless : c ≠ less)
    (hamp : c = ampersand → content.refers = false) : State.step ⟨content, .text, tokens⟩ c =
      some (State.put ⟨content, .text, tokens⟩ [content.shown c]) := by
  have hrefers : ¬ (c = ampersand ∧ content.refers = true) := by
    rintro ⟨hc, h⟩
    rw [hamp hc] at h
    cases h
  simp only [step, textUnit, if_neg hless, if_neg hrefers]

/-- A text, its special units by reference. -/
theorem feed_escape {content : Content} (h : content.refers = true) (t : Text)
    (tokens : List Token) : State.feed ⟨content, .text, tokens⟩ (escape t) =
      some ⟨content, .text, tokens ++ t.map fun c => .character (content.shown c)⟩ := by
  induction t generalizing tokens with
  | nil => rw [List.map_nil, List.append_nil]; rfl
  | cons c t ih =>
      have hunit : State.feed ⟨content, .text, tokens⟩ (escapeUnit c) =
          some ⟨content, .text, tokens ++ [.character (content.shown c)]⟩ := by
        by_cases hspecial : c = ampersand ∨ c = less ∨ c = greater
        · rcases hspecial with rfl | rfl | rfl <;> cases content <;> first | rfl | cases h
        · rw [not_or, not_or] at hspecial
          rw [escapeUnit, if_neg hspecial.1, if_neg hspecial.2.1, if_neg hspecial.2.2, feed_cons,
            step_plain hspecial.2.1 fun hc => absurd hc hspecial.1]
          rfl
      rw [escape_cons, feed_append, hunit, Option.bind_some, ih, List.append_assoc, List.map_cons]
      rfl

/-- A text as it is, where nothing else is read. -/
theorem feed_raw {content : Content} (h : content.refers = false) {t : Text} (ht : less ∉ t)
    (tokens : List Token) : State.feed ⟨content, .text, tokens⟩ t =
      some ⟨content, .text, tokens ++ t.map fun c => .character (content.shown c)⟩ := by
  induction t generalizing tokens with
  | nil => rw [List.map_nil, List.append_nil]; rfl
  | cons c t ih =>
      rw [List.mem_cons, not_or] at ht
      rw [feed_cons, step_plain (Ne.symm ht.1) fun _ => h, Option.bind_some, put, ih ht.2,
        List.append_assoc, List.map_cons]
      rfl

/-! ### Tags -/

/-- A unit of a name is none of the units that end one. -/
theorem name_unit {c : CodeUnit} (h : isNameUnit c = true) :
    isBlank c = false ∧ c ≠ greater ∧ c ≠ slash ∧ c ≠ equals ∧ c ≠ 0 ∧ c ≠ 13 ∧ toLower c = c := by
  have hne : ∀ d, isNameUnit d = false → c ≠ d := by
    rintro d hd rfl
    rw [h] at hd
    cases hd
  refine ⟨?_, hne _ (by decide), hne _ (by decide), hne _ (by decide), hne _ (by decide),
    hne _ (by decide), if_neg fun hupper => ?_⟩
  · simp [isBlank, hne 9 (by decide), hne 10 (by decide), hne 12 (by decide), hne 32 (by decide)]
  · simp only [isNameUnit, isLower, isDigit, isUpper, Bool.or_eq_true, Bool.and_eq_true,
      decide_eq_true_eq, beq_iff_eq, UInt16.le_iff_toNat_le, ← UInt16.toNat_inj] at h hupper
    have h45 : (45 : CodeUnit).toNat = 45 := rfl
    have h48 : (48 : CodeUnit).toNat = 48 := rfl
    have h57 : (57 : CodeUnit).toNat = 57 := rfl
    have h65 : (65 : CodeUnit).toNat = 65 := rfl
    have h90 : (90 : CodeUnit).toNat = 90 := rfl
    have h97 : (97 : CodeUnit).toNat = 97 := rfl
    omega

theorem feed_tagName {name : Text} (h : ∀ c ∈ name, isNameUnit c = true) (content : Content)
    (tag : Opened) (tokens : List Token) : State.feed ⟨content, .tagName tag, tokens⟩ name =
      some ⟨content, .tagName { tag with name := tag.name ++ name }, tokens⟩ := by
  induction name generalizing tag with
  | nil => rw [List.append_nil]; rfl
  | cons c name ih =>
      rw [List.forall_mem_cons] at h
      obtain ⟨hblank, hgreater, hslash, _, hnull, _, hlower⟩ := name_unit h.1
      have hstep : State.step ⟨content, .tagName tag, tokens⟩ c =
          some ⟨content, .tagName { tag with name := tag.name ++ [c] }, tokens⟩ := by
        simp only [step, hblank, Bool.false_eq_true, if_false, if_neg hgreater,
          if_neg (not_or.mpr ⟨hslash, hnull⟩), hlower]
        rfl
      rw [feed_cons, hstep, Option.bind_some, ih h.2]
      simp only [List.append_assoc, List.singleton_append]

theorem feed_attributeName {name : Text} (h : ∀ c ∈ name, isNameUnit c = true) (content : Content)
    (tag : Opened) (before : Text) (tokens : List Token) :
    State.feed ⟨content, .attributeName tag before, tokens⟩ name =
      some ⟨content, .attributeName tag (before ++ name), tokens⟩ := by
  induction name generalizing before with
  | nil => rw [List.append_nil]; rfl
  | cons c name ih =>
      rw [List.forall_mem_cons] at h
      obtain ⟨hblank, hgreater, hslash, hequals, hnull, _, hlower⟩ := name_unit h.1
      have hstep : State.step ⟨content, .attributeName tag before, tokens⟩ c =
          some ⟨content, .attributeName tag (before ++ [c]), tokens⟩ := by
        simp only [step, if_neg hequals, if_neg hgreater, hblank, Bool.false_eq_true, if_false,
          if_neg (not_or.mpr ⟨hslash, hnull⟩), hlower]
        rfl
      rw [feed_cons, hstep, Option.bind_some, ih h.2, List.append_assoc, List.singleton_append]

theorem feed_attributeValue {value : Text}
    (h : ∀ c ∈ value, c ≠ quote ∧ c ≠ ampersand ∧ c ≠ 0 ∧ c ≠ 13) (content : Content)
    (tag : Opened) (name before : Text) (tokens : List Token) :
    State.feed ⟨content, .attributeValue tag name before, tokens⟩ value =
      some ⟨content, .attributeValue tag name (before ++ value), tokens⟩ := by
  induction value generalizing before with
  | nil => rw [List.append_nil]; rfl
  | cons c value ih =>
      rw [List.forall_mem_cons] at h
      obtain ⟨hquote, hamp, hnull, _⟩ := h.1
      have hstep : State.step ⟨content, .attributeValue tag name before, tokens⟩ c =
          some ⟨content, .attributeValue tag name (before ++ [c]), tokens⟩ := by
        simp only [step, if_neg hquote, if_neg (not_or.mpr ⟨hamp, hnull⟩)]
        rfl
      rw [feed_cons, hstep, Option.bind_some, ih h.2, List.append_assoc, List.singleton_append]

end State

/-- The tag as it is read, where it may end or go on with an attribute. -/
def Mode.readTag : Mode → Option Opened
  | .tagName tag => some tag
  | .afterAttributeValue tag => some tag
  | .attributeName tag name => some (tag.add name [])
  | _ => none

namespace State

theorem step_greater {content : Content} {mode : Mode} {tag : Opened} {tokens : List Token}
    (h : mode.readTag = some tag) : State.step ⟨content, mode, tokens⟩ greater =
      State.endTag ⟨content, mode, tokens⟩ tag := by
  cases mode <;> cases h <;> rfl

/-- The first unit of an attribute's name, behind a blank. -/
theorem step_attribute {content : Content} {mode : Mode} {tag : Opened} {tokens : List Token}
    {c : CodeUnit} (h : mode.readTag = some tag) (hc : isNameUnit c = true) :
    State.feed ⟨content, mode, tokens⟩ [blank, c] =
      some ⟨content, .attributeName tag [c], tokens⟩ := by
  obtain ⟨hblank, hgreater, hslash, hequals, hnull, _, hlower⟩ := name_unit hc
  have hafter : ∀ tag', State.step ⟨content, .beforeAttributeName tag', tokens⟩ c =
      some ⟨content, .attributeName tag' [c], tokens⟩ := by
    intro tag'
    simp only [step, hblank, Bool.false_eq_true, if_false, if_neg hgreater,
      if_neg (not_or.mpr ⟨hslash, not_or.mpr ⟨hequals, hnull⟩⟩), hlower]
    rfl
  cases mode with
  | tagName tag' =>
      cases h
      exact congrArg (fun s : Option State => s.bind some) (hafter tag)
  | afterAttributeValue tag' =>
      cases h
      exact congrArg (fun s : Option State => s.bind some) (hafter tag)
  | attributeName tag' name =>
      cases h
      have hstep : State.step ⟨content, .afterAttributeName tag' name, tokens⟩ c =
          some ⟨content, .attributeName (tag'.add name []) [c], tokens⟩ := by
        simp only [step, hblank, Bool.false_eq_true, if_false, if_neg hgreater, if_neg hequals,
          if_neg (not_or.mpr ⟨hslash, hnull⟩), hlower]
        rfl
      exact congrArg (fun s : Option State => s.bind some) hstep
  | _ => cases h

theorem feed_attribute (a : Attribute) (content : Content) {mode : Mode} {tag : Opened}
    (tokens : List Token) (h : mode.readTag = some tag) : ∃ mode' : Mode,
      mode'.readTag = some (tag.add a.seen.1 a.seen.2) ∧
      State.feed ⟨content, mode, tokens⟩ a.write = some ⟨content, mode', tokens⟩ := by
  obtain ⟨⟨units, hunits, hstarts⟩, value⟩ := a
  cases units with
  | nil => cases hstarts
  | cons c units =>
      have hname : State.feed ⟨content, mode, tokens⟩ (blank :: (c :: units)) =
          some ⟨content, .attributeName tag (c :: units), tokens⟩ := by
        rw [List.forall_mem_cons] at hunits
        have hsplit : blank :: (c :: units) = [blank, c] ++ units := rfl
        rw [hsplit, feed_append, step_attribute h hunits.1, Option.bind_some,
          feed_attributeName hunits.2]
        rfl
      cases value with
      | none =>
          refine ⟨.attributeName tag (c :: units), rfl, ?_⟩
          rw [Attribute.write, List.append_nil]
          exact hname
      | some v =>
          refine ⟨.afterAttributeValue (tag.add (c :: units) v.units), rfl, ?_⟩
          rw [Attribute.write, ← List.cons_append, feed_append, hname, Option.bind_some]
          have hopen : State.feed ⟨content, .attributeName tag (c :: units), tokens⟩
              [equals, quote] = some ⟨content, .attributeValue tag (c :: units) [], tokens⟩ := rfl
          have hsplit : equals :: quote :: (v.units ++ [quote]) =
              [equals, quote] ++ (v.units ++ [quote]) := rfl
          dsimp only
          rw [hsplit, feed_append, hopen, Option.bind_some, feed_append,
            feed_attributeValue v.plain, Option.bind_some]
          rfl

theorem feed_attributes {attributes : List Attribute} {content : Content} {tokens : List Token} :
    ∀ {mode : Mode} {tag : Opened}, mode.readTag = some tag →
      (tag.attributes.map Prod.fst ++ attributes.map fun a => a.name.units).Nodup →
      ∃ mode' : Mode, mode'.readTag = some
          { tag with attributes := tag.attributes ++ attributes.map Attribute.seen } ∧
        State.feed ⟨content, mode, tokens⟩ (attributes.flatMap Attribute.write) =
          some ⟨content, mode', tokens⟩ := by
  induction attributes with
  | nil =>
      intro mode tag h _
      refine ⟨mode, ?_, rfl⟩
      rw [List.map_nil, List.append_nil]
      exact h
  | cons a attributes ih =>
      intro mode tag h hnodup
      obtain ⟨mode', hmode', hfeed⟩ := feed_attribute a content tokens h
      have hnew : a.seen.1 ∉ tag.attributes.map Prod.fst := by
        rw [List.map_cons, List.nodup_append] at hnodup
        exact fun hmem => hnodup.2.2 _ hmem _ List.mem_cons_self rfl
      have hadd : tag.add a.seen.1 a.seen.2 =
          { tag with attributes := tag.attributes ++ [a.seen] } := if_neg hnew
      rw [hadd] at hmode'
      obtain ⟨mode'', hmode'', hfeed'⟩ := ih hmode' (by
        rw [List.map_append, List.append_assoc]
        exact hnodup)
      refine ⟨mode'', ?_, ?_⟩
      · rw [hmode'', List.append_assoc]
        rfl
      · rw [List.flatMap_cons, feed_append, hfeed, Option.bind_some, hfeed']

/-- A name behind the start of a tag. -/
theorem feed_name (name : Name) (tokens : List Token) :
    State.feed ⟨.data, .tagOpen, tokens⟩ name.units =
        some ⟨.data, .tagName ⟨false, name.units, []⟩, tokens⟩ ∧
      State.feed ⟨.data, .endTagOpen, tokens⟩ name.units =
        some ⟨.data, .tagName ⟨true, name.units, []⟩, tokens⟩ := by
  obtain ⟨units, hunits, hstarts⟩ := name
  cases units with
  | nil => cases hstarts
  | cons c units =>
      rw [List.forall_mem_cons] at hunits
      have hletter : isLetter c = true := Bool.or_eq_true_iff.mpr (Or.inr hstarts)
      obtain ⟨_, _, hslash, _, _, _, hlower⟩ := name_unit hunits.1
      have hbang : c ≠ 33 := by
        rintro rfl
        cases hstarts
      have hopen : State.step ⟨.data, .tagOpen, tokens⟩ c =
          some ⟨.data, .tagName ⟨false, [c], []⟩, tokens⟩ := by
        simp only [step, openUnit, if_neg hslash, if_neg hbang, hletter, if_true, hlower]
        rfl
      have hclose : State.step ⟨.data, .endTagOpen, tokens⟩ c =
          some ⟨.data, .tagName ⟨true, [c], []⟩, tokens⟩ := by
        simp only [step, endOpenUnit, hletter, if_true, hlower]
        rfl
      rw [feed_cons, hopen, Option.bind_some, feed_tagName hunits.2, feed_cons, hclose,
        Option.bind_some, feed_tagName hunits.2]
      exact ⟨rfl, rfl⟩

/-- A start tag, between tags. -/
theorem feed_start {tag : Tag} {content : Content} (h : contentOf tag.name.units = some content)
    (tokens : List Token) : (data tokens).feed tag.startText =
      some ⟨content, .text, tokens ++ [tag.startToken]⟩ := by
  obtain ⟨mode, hmode, hattributes⟩ := @feed_attributes tag.attributes .data tokens
    (.tagName ⟨false, tag.name.units, []⟩) _ rfl tag.distinct
  have hless : (data tokens).step less = some ⟨.data, .tagOpen, tokens⟩ := rfl
  rw [Tag.startText, feed_cons, hless, Option.bind_some, feed_append, (feed_name _ tokens).1,
    Option.bind_some, feed_append, hattributes, Option.bind_some, feed_cons,
    step_greater hmode, endTag]
  simp only [Bool.false_eq_true, if_false]
  rw [h]
  rfl

/-- An end tag, between tags. -/
theorem feed_end (tag : Tag) (tokens : List Token) : (data tokens).feed tag.endText =
    some (data (tokens ++ [.endTag tag.name.units])) := by
  have hopen : (data tokens).feed [less, slash] = some ⟨.data, .endTagOpen, tokens⟩ := rfl
  have hsplit : tag.endText = [less, slash] ++ (tag.name.units ++ [greater]) := rfl
  rw [hsplit, feed_append, hopen, Option.bind_some, feed_append, (feed_name _ tokens).2,
    Option.bind_some]
  rfl

/-- An end tag where the content of the element ends. -/
theorem feed_endTagName {content : Content} {name : Text} (h : ∀ c ∈ name, isLower c = true)
    (before : Text) (tokens : List Token) :
    State.feed ⟨content, .endTagName before, tokens⟩ name =
      some ⟨content, .endTagName (before ++ name), tokens⟩ := by
  induction name generalizing before with
  | nil => rw [List.append_nil]; rfl
  | cons c name ih =>
      rw [List.forall_mem_cons] at h
      have hletter : isLetter c = true := Bool.or_eq_true_iff.mpr (Or.inr h.1)
      have hstep : State.step ⟨content, .endTagName before, tokens⟩ c =
          some ⟨content, .endTagName (before ++ [c]), tokens⟩ := by
        simp only [step, endNameUnit, hletter, if_true]
        rfl
      rw [feed_cons, hstep, Option.bind_some, ih h.2, List.append_assoc, List.singleton_append]

end State

/-- The elements whose content is not read as between tags have names of letters. -/
theorem letters_of_contentOf {name : Text} {content : Content} (h : contentOf name = some content)
    (hdata : content ≠ .data) : ∀ c ∈ name, isLower c = true := by
  unfold contentOf at h
  split at h
  · next hname =>
      have hall : ∀ n ∈ [text "title", text "textarea"], ∀ c ∈ n, isLower c = true := by decide
      exact hall _ hname
  · split at h
    · next hname =>
        have hall : ∀ n ∈ [text "style", text "xmp", text "iframe", text "noembed",
          text "noframes"], ∀ c ∈ n, isLower c = true := by decide
        exact hall _ hname
    · split at h
      · next hname =>
          rw [hname]
          decide
      · split at h
        · cases h
        · exact absurd (Option.some.inj h).symm hdata

namespace State

theorem feed_awaited {content : Content} {tag : Tag}
    (h : contentOf tag.name.units = some content) (hdata : content ≠ .data)
    (hawaited : content.awaited = tag.name.units) (tokens : List Token) :
    State.feed ⟨content, .text, tokens⟩ tag.endText =
      some (data (tokens ++ [.endTag tag.name.units])) := by
  obtain ⟨⟨units, hunits, hstarts⟩, attributes, hdistinct⟩ := tag
  have hletters := letters_of_contentOf h hdata
  cases units with
  | nil => cases hstarts
  | cons c units =>
      have hopen : State.feed ⟨content, .text, tokens⟩ [less, slash] =
          some ⟨content, .endTagOpen, tokens⟩ := by
        cases content <;> rfl
      have hname : State.feed ⟨content, .endTagOpen, tokens⟩ (c :: units) =
          some ⟨content, .endTagName (c :: units), tokens⟩ := by
        rw [List.forall_mem_cons] at hletters
        have hletter : isLetter c = true := Bool.or_eq_true_iff.mpr (Or.inr hletters.1)
        have hstep : State.step ⟨content, .endTagOpen, tokens⟩ c =
            some ⟨content, .endTagName [c], tokens⟩ := by
          cases content with
          | data => exact absurd rfl hdata
          | rcdata name =>
              simp only [step, endOpenUnit, hletter, if_true]
              rfl
          | rawText script name =>
              simp only [step, endOpenUnit, hletter, if_true]
              rfl
        rw [feed_cons, hstep, Option.bind_some, feed_endTagName hletters.2]
        rfl
      have hlower : (c :: units).map toLower = c :: units := by
        conv_rhs => rw [← List.map_id (c :: units)]
        exact List.map_congr_left fun d hd => (name_unit (hunits d hd)).2.2.2.2.2.2
      have hend : State.step ⟨content, .endTagName (c :: units), tokens⟩ greater =
          some (data (tokens ++ [.endTag (c :: units)])) := by
        have hblank : ¬ ((c :: units).map toLower = content.awaited ∧
            (isBlank greater = true ∨ greater = slash)) := by
          rintro ⟨_, hblank | hslash⟩
          · cases hblank
          · cases hslash
        have hletter : isLetter greater = false := rfl
        simp only [step, endNameUnit, hletter, Bool.false_eq_true, if_false, if_neg hblank]
        rw [if_pos ⟨hlower.trans hawaited.symm, trivial⟩, hlower]
        rfl
      have hsplit : Tag.endText ⟨⟨c :: units, hunits, hstarts⟩, attributes, hdistinct⟩ =
          [less, slash] ++ (c :: units ++ [greater]) := rfl
      rw [hsplit, feed_append, hopen, Option.bind_some, feed_append, hname, Option.bind_some,
        feed_cons, hend]
      rfl

end State

/-! ### Documents -/

theorem Attribute.write_plain (a : Attribute) : ∀ c ∈ a.write, c ≠ 13 := by
  obtain ⟨name, value⟩ := a
  have hname : ∀ c ∈ name.units, c ≠ 13 := fun c hc =>
    (State.name_unit (name.lower c hc)).2.2.2.2.2.1
  intro c hc
  rw [Attribute.write, List.mem_cons, List.mem_append] at hc
  rcases hc with rfl | hc | hc
  · decide
  · exact hname c hc
  · cases value with
    | none => cases hc
    | some v =>
        simp only [List.mem_cons, List.mem_append, List.not_mem_nil, or_false] at hc
        rcases hc with rfl | rfl | hc | rfl
        · decide
        · decide
        · exact (v.plain c hc).2.2.2
        · decide

theorem Tag.startText_plain (tag : Tag) : ∀ c ∈ tag.startText, c ≠ 13 := by
  intro c hc
  simp only [Tag.startText, List.mem_cons, List.mem_append, List.mem_flatMap, List.not_mem_nil,
    or_false] at hc
  rcases hc with rfl | hc | ⟨a, _, hc⟩ | rfl
  · decide
  · exact (State.name_unit (tag.name.lower c hc)).2.2.2.2.2.1
  · exact a.write_plain c hc
  · decide

theorem Tag.endText_plain (tag : Tag) : ∀ c ∈ tag.endText, c ≠ 13 := by
  intro c hc
  simp only [Tag.endText, List.mem_cons, List.mem_append, List.not_mem_nil, or_false] at hc
  rcases hc with rfl | rfl | hc | rfl
  · decide
  · decide
  · exact (State.name_unit (tag.name.lower c hc)).2.2.2.2.2.1
  · decide

namespace State

/-- From the one state, what is written is read up to the other. -/
abbrev Sees (s : State) (w : Text) (s' : State) : Prop :=
  WireTools.Sees step s w s'

/-- A text, up to a tag. -/
theorem sees_text {content : Content} (h : content.refers = true) (t : Text) {w : Text}
    {tokens : List Token} {s' : State}
    (hw : State.Sees ⟨content, .text, tokens ++ characters content t⟩ (less :: w) s') :
    State.Sees ⟨content, .text, tokens⟩ (escape t ++ less :: w) s' :=
  sees_flatMap keepsNewlines_escapeUnit (by decide) (feed_escape h _ tokens) hw

theorem sees_raw {content : Content} (h : content.refers = false) {t : Text} (ht : less ∉ t)
    {w : Text} {tokens : List Token} {s' : State}
    (hw : State.Sees ⟨content, .text, tokens ++ characters content t⟩ (less :: w) s') :
    State.Sees ⟨content, .text, tokens⟩ (t ++ less :: w) s' := fun u => by
  have hless : less ∉ normalizeNewlines t := by
    intro hmem
    rcases mem_newlinesFrom hmem with hnewline | hmem
    · cases hnewline
    · exact ht hmem
  have hhead : ∀ c ∈ (less :: w ++ u).head?, c ≠ newline := by
    intro c hc
    cases hc
    decide
  have hraw : runs step ⟨content, .text, tokens⟩ (normalizeNewlines t) = _ :=
    feed_raw h hless tokens
  rw [List.append_assoc, normalizeNewlines, newlinesFrom_append t hhead, runs_append,
    ← normalizeNewlines, hraw, Option.bind_some]
  exact hw u

end State

namespace Markup

/-- Every element starts with its tag. -/
theorem write_eq_cons (m : Markup) : ∃ w, m.write = less :: w := by
  cases m with
  | element tag _ children rest => exact ⟨_, by rw [write]; rfl⟩
  | void tag _ => exact ⟨_, by rw [write]; rfl⟩
  | escapable tag _ t => exact ⟨_, by rw [write]; rfl⟩
  | raw tag _ _ t _ => exact ⟨_, by rw [write]; rfl⟩

mutual

theorem sees_write : ∀ (m : Markup) (tokens : List Token),
    (State.data tokens).Sees m.write (State.data (tokens ++ m.tokens))
  | .element tag h children rest, tokens => by
      have hstart := sees_plain tag.startText_plain (State.feed_start h tokens)
      have hchildren := sees_children children (tokens ++ [tag.startToken])
      have hrest := State.sees_text rfl rest (sees_plain tag.endText_plain (State.feed_end tag
        (tokens ++ [tag.startToken] ++ tokensOfChildren children ++ characters .data rest)))
      have hsees := hstart.trans (hchildren.trans hrest)
      simp only [List.append_assoc, List.singleton_append] at hsees
      rw [write, Markup.tokens]
      exact hsees
  | .void tag h, tokens => by
      rw [write, Markup.tokens]
      exact sees_plain tag.startText_plain (State.feed_start h tokens)
  | .escapable tag h t, tokens => by
      have hstart := sees_plain tag.startText_plain (State.feed_start h tokens)
      have htext := State.sees_text rfl t (sees_plain tag.endText_plain
        (State.feed_awaited h (fun hdata => by cases hdata) rfl
        (tokens ++ [tag.startToken] ++ characters (.rcdata tag.name.units) t)))
      have hsees := hstart.trans htext
      simp only [List.append_assoc, List.singleton_append] at hsees
      rw [write, Markup.tokens]
      exact hsees
  | .raw tag script h t plain, tokens => by
      have hstart := sees_plain tag.startText_plain (State.feed_start h tokens)
      have htext := State.sees_raw rfl plain (sees_plain tag.endText_plain
        (State.feed_awaited h (fun hdata => by cases hdata) rfl
        (tokens ++ [tag.startToken] ++ characters (.rawText script tag.name.units) t)))
      have hsees := hstart.trans htext
      simp only [List.append_assoc, List.singleton_append] at hsees
      rw [write, Markup.tokens]
      exact hsees

theorem sees_children : ∀ (children : List (Text × Markup)) (tokens : List Token),
    (State.data tokens).Sees (writeChildren children)
      (State.data (tokens ++ tokensOfChildren children))
  | [], tokens => by
      rw [tokensOfChildren, List.append_nil]
      exact fun u => rfl
  | (t, m) :: children, tokens => by
      have hm := (sees_write m (tokens ++ characters .data t)).trans
        (sees_children children (tokens ++ characters .data t ++ m.tokens))
      rw [writeChildren, tokensOfChildren]
      obtain ⟨w, hw⟩ := write_eq_cons m
      rw [hw, List.cons_append] at hm ⊢
      have hsees := State.sees_text rfl t hm
      simp only [List.append_assoc] at hsees
      exact hsees

end

end Markup

namespace State

theorem feed_doctypeName {name : Text} (h : ∀ c ∈ name, isNameUnit c = true) (before : Text)
    (tokens : List Token) : State.feed ⟨.data, .doctypeName before, tokens⟩ name =
      some ⟨.data, .doctypeName (before ++ name), tokens⟩ := by
  induction name generalizing before with
  | nil => rw [List.append_nil]; rfl
  | cons c name ih =>
      rw [List.forall_mem_cons] at h
      obtain ⟨hblank, hgreater, _, _, hnull, _, hlower⟩ := name_unit h.1
      have hstep : State.step ⟨.data, .doctypeName before, tokens⟩ c =
          some ⟨.data, .doctypeName (before ++ [c]), tokens⟩ := by
        simp only [step, if_neg hgreater, hblank, Bool.false_eq_true, false_or, if_neg hnull,
          hlower]
        rfl
      rw [feed_cons, hstep, Option.bind_some, ih h.2, List.append_assoc, List.singleton_append]

theorem feed_doctype (name : Name) : (data []).feed
    (text "<!doctype " ++ (name.units ++ [greater])) = some (data [.doctype name.units]) := by
  obtain ⟨units, hunits, hstarts⟩ := name
  cases units with
  | nil => cases hstarts
  | cons c units =>
      rw [List.forall_mem_cons] at hunits
      obtain ⟨hblank, hgreater, _, _, hnull, _, hlower⟩ := name_unit hunits.1
      have hkeyword : (data []).feed (text "<!doctype ") =
          some ⟨.data, .beforeDoctypeName, []⟩ := by
        rfl
      have hstep : State.step ⟨.data, .beforeDoctypeName, []⟩ c =
          some ⟨.data, .doctypeName [c], []⟩ := by
        simp only [step, hblank, Bool.false_eq_true, if_false,
          if_neg (not_or.mpr ⟨hgreater, hnull⟩), hlower]
        rfl
      rw [feed_append, hkeyword, Option.bind_some, List.cons_append, feed_cons, hstep,
        Option.bind_some, feed_append, feed_doctypeName hunits.2, Option.bind_some]
      rfl

end State

theorem Document.doctype_plain (name : Name) :
    ∀ c ∈ text "<!doctype " ++ (name.units ++ [greater]), c ≠ 13 := by
  have hkeyword : ∀ c ∈ text "<!doctype ", c ≠ 13 := by decide
  intro c hc
  rw [List.mem_append, List.mem_append, List.mem_singleton] at hc
  rcases hc with hc | hc | rfl
  · exact hkeyword c hc
  · exact (State.name_unit (name.lower c hc)).2.2.2.2.2.1
  · decide

/-- The tags that were written, and the texts between them. -/
theorem tokenize_write (d : Document) : tokenize d.write = some d.tokens := by
  have hdoctype := sees_plain (Document.doctype_plain d.doctype)
    (State.feed_doctype d.doctype)
  have hroot := d.root.sees_write ([.doctype d.doctype.units] ++ characters .data d.before)
  obtain ⟨w, hw⟩ := d.root.write_eq_cons
  rw [hw] at hroot
  have hsees := hdoctype.trans (State.sees_text rfl d.before hroot)
  rw [← hw] at hsees
  have hwrite : d.write = text "<!doctype " ++ (d.doctype.units ++ [greater]) ++
      (escape d.before ++ d.root.write) := by
    rw [Document.write, List.append_assoc, List.append_assoc, List.singleton_append]
  have hall := hsees []
  rw [List.append_nil, ← hwrite] at hall
  rw [tokenize, State.feed, hall, Document.tokens, List.append_assoc]
  rfl

end WireTools.Html

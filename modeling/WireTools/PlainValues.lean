import WireTools.JsonPrint

/-! # Plain values

What a caller hands over to be recorded, and its JSON text.

* `Value`: a tree of data; the members of an object stand in the order the source lists them;
* `Plain` and `plainify`: large integers become strings, and so do bytes;
* `stringify`: the JSON text, on one line (`gap` empty) or over many;
* `Shown`: a value of which the text shows everything, and `stringify_injective`: such values have
  different texts. -/

namespace WireTools

/-- A digit, a sign, a point or the letter of an exponent. -/
def isNumberUnit : UnitClass := fun c => isDigit c || c == 43 || c == 45 || c == 46 || c == 101

/-- A finite number by the text that `String` gives of it; no two numbers have one text. -/
structure NumberText where
  text : Text
  nonempty : text ≠ []
  units : ∀ c ∈ text, isNumberUnit c = true

inductive Number where
  | finite (t : NumberText)
  | infinite (negative : Bool)
  | nan

/-- Functions and symbols, which are no data, are left out. -/
inductive Value where
  | undefined
  | null
  | bool (b : Bool)
  | number (n : Number)
  | bigint (n : ℤ)
  | string (s : Text)
  | bytes (bytes : List UInt8)
  | array (items : List Value)
  | object (members : List (Text × Value))

inductive Plain where
  | undefined
  | null
  | bool (b : Bool)
  | number (n : Number)
  | string (s : Text)
  | array (items : List Plain)
  | object (members : List (Text × Plain))

/-! ### Values without large integers and bytes -/

def base64Unit (n : ℕ) : CodeUnit :=
  (text "ABCDEFGHIJKLMNOPQRSTUVWXYZabcdefghijklmnopqrstuvwxyz0123456789+/").getD n 61

/-- `Buffer.toString("base64")`: four units for three bytes, the last ones filled up with `=`. -/
def base64 : List UInt8 → Text
  | [] => []
  | [a] =>
      let n := a.toNat * 65536
      [base64Unit (n / 262144), base64Unit (n / 4096 % 64), 61, 61]
  | [a, b] =>
      let n := a.toNat * 65536 + b.toNat * 256
      [base64Unit (n / 262144), base64Unit (n / 4096 % 64), base64Unit (n / 64 % 64), 61]
  | a :: b :: c :: bytes =>
      let n := a.toNat * 65536 + b.toNat * 256 + c.toNat
      base64Unit (n / 262144) :: base64Unit (n / 4096 % 64) :: base64Unit (n / 64 % 64) ::
        base64Unit (n % 64) :: base64 bytes

example : base64 [1, 2, 3, 255] = text "AQID/w==" := by decide

mutual

def plainify : Value → Plain
  | .undefined => .undefined
  | .null => .null
  | .bool b => .bool b
  | .number n => .number n
  | .bigint n => .string (intText n)
  | .string s => .string s
  | .bytes bytes => .string (base64 bytes)
  | .array items => .array (plainifyItems items)
  | .object members => .object (plainifyMembers members)

def plainifyItems : List Value → List Plain
  | [] => []
  | v :: items => plainify v :: plainifyItems items

def plainifyMembers : List (Text × Value) → List (Text × Plain)
  | [] => []
  | (name, v) :: members => (name, plainify v) :: plainifyMembers members

end

/-! ### The JSON text -/

namespace Plain

/-- The texts of items or members between brackets. -/
def bracket (gap indent : Text) (opening closing : CodeUnit) (parts : List Text) : Text :=
  if parts = [] then [opening, closing]
  else if gap = [] then opening :: (join [44] parts ++ [closing])
  else
    let line := newline :: (indent ++ gap)
    opening :: (line ++ join (44 :: line) parts ++ newline :: (indent ++ [closing]))

mutual

/-- None of `undefined`. -/
def print (gap indent : Text) : Plain → Option Text
  | .undefined => none
  | .null => some (text "null")
  | .bool true => some (text "true")
  | .bool false => some (text "false")
  | .number (.finite t) => some t.text
  | .number _ => some (text "null")
  | .string s => some (Json.quote s)
  | .array items => some (bracket gap indent 91 93 (printItems gap (indent ++ gap) items))
  | .object members => some (bracket gap indent 123 125 (printMembers gap (indent ++ gap) members))

/-- An item that has no text is printed as null. -/
def printItems (gap indent : Text) : List Plain → List Text
  | [] => []
  | v :: items => (print gap indent v).getD (text "null") :: printItems gap indent items

/-- A member that has no text is left out. -/
def printMembers (gap indent : Text) : List (Text × Plain) → List Text
  | [] => []
  | (name, v) :: members =>
      match print gap indent v with
      | none => printMembers gap indent members
      | some t =>
          (Json.quote name ++ 58 :: ((if gap = [] then [] else [blank]) ++ t)) ::
            printMembers gap indent members

end

/-- `JSON.stringify`, with the indentation of a level. -/
def stringify (gap : Text) (v : Plain) : Option Text :=
  print gap [] v

/-! ### Values that the text shows -/

mutual

/-- Nothing of the value is left out of its text or printed as null. -/
def Shown : Plain → Prop
  | .undefined => False
  | .number n => ∃ t, n = .finite t
  | .array items => ShownItems items
  | .object members => ShownMembers members
  | _ => True

def ShownItems : List Plain → Prop
  | [] => True
  | v :: items => Shown v ∧ ShownItems items

def ShownMembers : List (Text × Plain) → Prop
  | [] => True
  | (_, v) :: members => Shown v ∧ ShownMembers members

end

mutual

/-- The text of such a value on one line. -/
def line : Plain → Text
  | .undefined => []
  | .null => text "null"
  | .bool true => text "true"
  | .bool false => text "false"
  | .number (.finite t) => t.text
  | .number _ => text "null"
  | .string s => Json.quote s
  | .array [] => [91, 93]
  | .array (v :: items) => 91 :: (line v ++ (lineItems items ++ [93]))
  | .object [] => [123, 125]
  | .object ((name, v) :: members) =>
      123 :: (Json.quote name ++ 58 :: (line v ++ (lineMembers members ++ [125])))

/-- The items behind the first one. -/
def lineItems : List Plain → Text
  | [] => []
  | v :: items => 44 :: (line v ++ lineItems items)

def lineMembers : List (Text × Plain) → Text
  | [] => []
  | (name, v) :: members => 44 :: (Json.quote name ++ 58 :: (line v ++ lineMembers members))

end

mutual

theorem print_shown : ∀ {v : Plain}, Shown v → print [] [] v = some (line v)
  | .undefined, h => h.elim
  | .null, _ => by rw [print, line]
  | .bool true, _ => by rw [print, line]
  | .bool false, _ => by rw [print, line]
  | .number n, h => by
      rw [Shown] at h
      obtain ⟨t, rfl⟩ := h
      rw [print, line]
  | .string s, _ => by rw [print, line]
  | .array [], _ => by rw [print, line, printItems, bracket, if_pos rfl]
  | .array (v :: items), h => by
      rw [Shown, ShownItems] at h
      rw [print, line, printItems, List.append_nil, print_shown h.1, bracket,
        if_neg (List.cons_ne_nil _ _), if_pos rfl, join, Option.getD_some, printItems_shown h.2,
        List.append_assoc]
  | .object [], _ => by rw [print, line, printMembers, bracket, if_pos rfl]
  | .object ((name, v) :: members), h => by
      rw [Shown, ShownMembers] at h
      rw [print, line, printMembers, List.append_nil, print_shown h.1]
      dsimp only
      rw [bracket, if_neg (List.cons_ne_nil _ _), if_pos rfl, join, printMembers_shown h.2]
      simp

theorem printItems_shown : ∀ {items : List Plain}, ShownItems items →
    (printItems [] [] items).flatMap (fun u => [44] ++ u) = lineItems items
  | [], _ => by rw [printItems, lineItems, List.flatMap_nil]
  | v :: items, h => by
      rw [ShownItems] at h
      rw [printItems, lineItems, List.flatMap_cons, printItems_shown h.2, print_shown h.1]
      rfl

theorem printMembers_shown : ∀ {members : List (Text × Plain)}, ShownMembers members →
    (printMembers [] [] members).flatMap (fun u => [44] ++ u) = lineMembers members
  | [], _ => by rw [printMembers, lineMembers, List.flatMap_nil]
  | (name, v) :: members, h => by
      rw [ShownMembers] at h
      rw [printMembers, lineMembers, print_shown h.1]
      dsimp only
      rw [List.flatMap_cons, printMembers_shown h.2]
      simp

end

/-! ### Different values, different texts -/

/-- What may stand behind the text of a value. -/
def Ends (r : Text) : Prop :=
  ∀ c ∈ r.head?, isNumberUnit c = false

theorem ends_cons {c : CodeUnit} (h : isNumberUnit c = false) (r : Text) : Ends (c :: r) := by
  intro d hd
  cases hd
  exact h

theorem ends_items {items : List Plain} (r : Text) : Ends (lineItems items ++ 93 :: r) := by
  cases items with
  | nil => exact ends_cons (by decide) r
  | cons v items => exact ends_cons (by decide) _

theorem ends_members {members : List (Text × Plain)} (r : Text) :
    Ends (lineMembers members ++ 125 :: r) := by
  cases members with
  | nil => exact ends_cons (by decide) r
  | cons m members => exact ends_cons (by decide) _

theorem numberText_inj {t u : NumberText} {r r' : Text} (hr : Ends r) (hr' : Ends r')
    (h : t.text ++ r = u.text ++ r') : t = u ∧ r = r' := by
  obtain ⟨htake, hdrop⟩ := takeWhile_append_stop t.units hr
  obtain ⟨htake', hdrop'⟩ := takeWhile_append_stop u.units hr'
  rw [h] at htake hdrop
  refine ⟨?_, hdrop.symm.trans hdrop'⟩
  cases t
  cases u
  congr
  exact htake.symm.trans htake'

theorem quote_inj {s t r r' : Text} (h : Json.quote s ++ r = Json.quote t ++ r') :
    s = t ∧ r = r' := by
  obtain ⟨hs, hreads⟩ := Json.readString_quote s r
  obtain ⟨ht, hreadt⟩ := Json.readString_quote t r'
  rw [hs, ht] at h
  rw [(List.cons.inj h).2, hreadt] at hreads
  exact ⟨(Prod.mk.inj (Option.some.inj hreads)).1.symm, (Prod.mk.inj (Option.some.inj hreads)).2.symm⟩

/-- The kind of a value, by number. -/
def kind : Plain → ℕ
  | .undefined => 0
  | .null => 1
  | .bool true => 2
  | .bool false => 3
  | .number _ => 4
  | .string _ => 5
  | .array _ => 6
  | .object _ => 7

/-- The kind of value that a text with this first unit is of. -/
def kindOfUnit (c : CodeUnit) : ℕ :=
  if isNumberUnit c then 4
  else if c = 110 then 1
  else if c = 116 then 2
  else if c = 102 then 3
  else if c = 34 then 5
  else if c = 91 then 6
  else if c = 123 then 7
  else 0

theorem kind_line {v : Plain} (h : Shown v) :
    ∃ c t, line v = c :: t ∧ kindOfUnit c = kind v ∧ c ≠ 93 := by
  cases v with
  | undefined => exact h.elim
  | null => exact ⟨110, text "ull", by rw [line]; decide, rfl, by decide⟩
  | bool b => cases b <;> exact ⟨_, _, by rw [line]; rfl, rfl, by decide⟩
  | number n =>
      rw [Shown] at h
      obtain ⟨t, rfl⟩ := h
      rw [line]
      cases ht : t.text with
      | nil => exact absurd ht t.nonempty
      | cons c rest =>
          have hc := t.units c (by rw [ht]; exact List.mem_cons_self)
          refine ⟨c, rest, rfl, if_pos hc, ?_⟩
          rintro rfl
          exact absurd hc (by decide)
  | string s => exact ⟨34, _, by rw [line]; rfl, rfl, by decide⟩
  | array items => cases items <;> exact ⟨91, _, by rw [line], rfl, by decide⟩
  | object members =>
      cases members with
      | nil => exact ⟨123, _, by rw [line], rfl, by decide⟩
      | cons m members => exact ⟨123, _, by rw [line], rfl, by decide⟩

theorem kind_eq_of_line {v w : Plain} (hv : Shown v) (hw : Shown w) {r r' : Text}
    (h : line v ++ r = line w ++ r') : kind v = kind w := by
  obtain ⟨c, t, hc, hkind, _⟩ := kind_line hv
  obtain ⟨d, u, hd, hkind', _⟩ := kind_line hw
  rw [hc, hd] at h
  rw [← hkind, ← hkind', (List.cons.inj h).1]

theorem eq_of_kind_lt {v w : Plain} (h : kind v = kind w) (hlt : kind v < 4) : v = w := by
  have hcases : ∀ {u : Plain}, kind u < 4 →
      u = .undefined ∨ u = .null ∨ u = .bool true ∨ u = .bool false := by
    intro u hu
    cases u with
    | bool b => cases b <;> simp
    | undefined => exact Or.inl rfl
    | null => exact Or.inr (Or.inl rfl)
    | _ => exact absurd hu (by simp [kind])
  have hw : kind w < 4 := h ▸ hlt
  rcases hcases hlt with rfl | rfl | rfl | rfl <;>
    rcases hcases hw with rfl | rfl | rfl | rfl <;> first | rfl | cases h

theorem exists_number {w : Plain} (h : 4 = kind w) : ∃ n, w = .number n := by
  cases w with
  | number n => exact ⟨n, rfl⟩
  | bool b => cases b <;> cases h
  | _ => cases h

theorem exists_string {w : Plain} (h : 5 = kind w) : ∃ s, w = .string s := by
  cases w with
  | string s => exact ⟨s, rfl⟩
  | bool b => cases b <;> cases h
  | _ => cases h

theorem exists_array {w : Plain} (h : 6 = kind w) : ∃ items, w = .array items := by
  cases w with
  | array items => exact ⟨items, rfl⟩
  | bool b => cases b <;> cases h
  | _ => cases h

theorem exists_object {w : Plain} (h : 7 = kind w) : ∃ members, w = .object members := by
  cases w with
  | object members => exact ⟨members, rfl⟩
  | bool b => cases b <;> cases h
  | _ => cases h

mutual

theorem line_inj : ∀ {v w : Plain} {r r' : Text}, Shown v → Shown w → Ends r → Ends r' →
    line v ++ r = line w ++ r' → v = w ∧ r = r'
  | .undefined, _, _, _, hv, _, _, _, _ => hv.elim
  | .null, w, r, r', hv, hw, _, _, h => by
      obtain rfl := eq_of_kind_lt (kind_eq_of_line hv hw h) (by decide)
      exact ⟨rfl, List.append_cancel_left h⟩
  | .bool b, w, r, r', hv, hw, _, _, h => by
      obtain rfl := eq_of_kind_lt (kind_eq_of_line hv hw h) (by cases b <;> decide)
      exact ⟨rfl, List.append_cancel_left h⟩
  | .number n, w, r, r', hv, hw, hr, hr', h => by
      obtain ⟨m, rfl⟩ := exists_number (kind_eq_of_line hv hw h)
      rw [Shown] at hv hw
      obtain ⟨t, rfl⟩ := hv
      obtain ⟨u, rfl⟩ := hw
      rw [line, line] at h
      obtain ⟨rfl, hrest⟩ := numberText_inj hr hr' h
      exact ⟨rfl, hrest⟩
  | .string s, w, r, r', hv, hw, _, _, h => by
      obtain ⟨t, rfl⟩ := exists_string (kind_eq_of_line hv hw h)
      rw [line, line] at h
      obtain ⟨rfl, hrest⟩ := quote_inj h
      exact ⟨rfl, hrest⟩
  | .array [], w, r, r', hv, hw, _, _, h => by
      obtain ⟨items', rfl⟩ := exists_array (kind_eq_of_line hv hw h)
      cases items' with
      | nil => exact ⟨rfl, List.append_cancel_left h⟩
      | cons v' items' =>
          rw [Shown, ShownItems] at hw
          obtain ⟨c, t, hc, _, hne⟩ := kind_line hw.1
          rw [line, line, hc] at h
          exact absurd (List.cons.inj (List.cons.inj h).2).1.symm hne
  | .array (v :: items), w, r, r', hv, hw, _, _, h => by
      obtain ⟨items', rfl⟩ := exists_array (kind_eq_of_line hv hw h)
      cases items' with
      | nil =>
          rw [Shown, ShownItems] at hv
          obtain ⟨c, t, hc, _, hne⟩ := kind_line hv.1
          rw [line, line, hc] at h
          exact absurd (List.cons.inj (List.cons.inj h).2).1 hne
      | cons v' items' =>
          rw [Shown, ShownItems] at hv hw
          rw [line, line, List.cons_append, List.cons_append] at h
          have htail := (List.cons.inj h).2
          simp only [List.append_assoc, List.singleton_append] at htail
          obtain ⟨rfl, hrest⟩ := line_inj hv.1 hw.1 (ends_items r) (ends_items r') htail
          obtain ⟨rfl, hend⟩ := lineItems_inj hv.2 hw.2 hrest
          exact ⟨rfl, hend⟩
  | .object [], w, r, r', hv, hw, _, _, h => by
      obtain ⟨members', rfl⟩ := exists_object (kind_eq_of_line hv hw h)
      cases members' with
      | nil => exact ⟨rfl, List.append_cancel_left h⟩
      | cons m members' =>
          rw [line, line, Json.quote] at h
          exact absurd (List.cons.inj (List.cons.inj h).2).1 (by decide)
  | .object ((name, v) :: members), w, r, r', hv, hw, _, _, h => by
      obtain ⟨members', rfl⟩ := exists_object (kind_eq_of_line hv hw h)
      cases members' with
      | nil =>
          rw [line, line, Json.quote] at h
          exact absurd (List.cons.inj (List.cons.inj h).2).1 (by decide)
      | cons m members' =>
          obtain ⟨name', v'⟩ := m
          rw [Shown, ShownMembers] at hv hw
          rw [line, line, List.cons_append, List.cons_append] at h
          have htail := (List.cons.inj h).2
          simp only [List.append_assoc, List.cons_append] at htail
          obtain ⟨rfl, hvalue⟩ := quote_inj htail
          obtain ⟨rfl, hrest⟩ := line_inj hv.1 hw.1 (ends_members r) (ends_members r')
            (List.cons.inj hvalue).2
          obtain ⟨rfl, hend⟩ := lineMembers_inj hv.2 hw.2 hrest
          exact ⟨rfl, hend⟩

theorem lineItems_inj : ∀ {items items' : List Plain} {r r' : Text}, ShownItems items →
    ShownItems items' → lineItems items ++ 93 :: r = lineItems items' ++ 93 :: r' →
      items = items' ∧ r = r'
  | [], [], _, _, _, _, h => ⟨rfl, (List.cons.inj h).2⟩
  | [], v' :: items', _, _, _, _, h => by
      rw [lineItems, lineItems] at h
      exact absurd (List.cons.inj h).1 (by decide)
  | v :: items, [], _, _, _, _, h => by
      rw [lineItems, lineItems] at h
      exact absurd (List.cons.inj h).1 (by decide)
  | v :: items, v' :: items', r, r', hv, hw, h => by
      rw [ShownItems] at hv hw
      rw [lineItems, lineItems, List.cons_append, List.cons_append] at h
      have htail := (List.cons.inj h).2
      simp only [List.append_assoc] at htail
      obtain ⟨rfl, hrest⟩ := line_inj hv.1 hw.1 (ends_items r) (ends_items r') htail
      obtain ⟨rfl, hend⟩ := lineItems_inj hv.2 hw.2 hrest
      exact ⟨rfl, hend⟩

theorem lineMembers_inj : ∀ {members members' : List (Text × Plain)} {r r' : Text},
    ShownMembers members → ShownMembers members' →
      lineMembers members ++ 125 :: r = lineMembers members' ++ 125 :: r' →
        members = members' ∧ r = r'
  | [], [], _, _, _, _, h => ⟨rfl, (List.cons.inj h).2⟩
  | [], (name', v') :: members', _, _, _, _, h => by
      rw [lineMembers, lineMembers] at h
      exact absurd (List.cons.inj h).1 (by decide)
  | (name, v) :: members, [], _, _, _, _, h => by
      rw [lineMembers, lineMembers] at h
      exact absurd (List.cons.inj h).1 (by decide)
  | (name, v) :: members, (name', v') :: members', r, r', hv, hw, h => by
      rw [ShownMembers] at hv hw
      rw [lineMembers, lineMembers, List.cons_append, List.cons_append] at h
      have htail := (List.cons.inj h).2
      simp only [List.append_assoc, List.cons_append] at htail
      obtain ⟨rfl, hvalue⟩ := quote_inj htail
      obtain ⟨rfl, hrest⟩ := line_inj hv.1 hw.1 (ends_members r) (ends_members r')
        (List.cons.inj hvalue).2
      obtain ⟨rfl, hend⟩ := lineMembers_inj hv.2 hw.2 hrest
      exact ⟨rfl, hend⟩

end

/-- Values that the text shows are told apart by it. -/
theorem stringify_injective {v w : Plain} (hv : Shown v) (hw : Shown w)
    (h : v.stringify [] = w.stringify []) : v = w := by
  rw [stringify, stringify, print_shown hv, print_shown hw] at h
  have hnil : Ends [] := by
    intro c hc
    cases hc
  exact (line_inj hv hw hnil hnil (congrArg (· ++ []) (Option.some.inj h))).1

end Plain

end WireTools

import Mathlib.Data.List.DropRight
import WireTools.Text

/-! # Secrets on a recorded command line

`maskSecretArgs` replaces the entry behind a secret flag, and the key behind every inline
`KEY:`, by a fixed marker.

* `keyAt` is the inline pattern at the start of a text, `replaceKeys` its global replacement;
* `SameOutsideKeys`: two texts that differ only in what the pattern replaces, which is exactly
  when their replacements agree (`replaceKeys_eq_iff`);
* `maskSecretArgs_conceals`: for command lines that differ only in their secrets, when the
  recorded lines agree and show every other entry as it is. -/

namespace WireTools.SecretArgs

/-! ### The mask -/

def RedactedMarker : Text := text "<redacted>"

/-- The flags whose following entry is the secret. -/
def SecretArgFlags : List Text := [text "--private-key", text "--password"]

/-- What stands before an inline key. -/
def KeyLead : Text := text "KEY:"

/-- `[^\s,"']` -/
def isKeyUnit : UnitClass := fun c => !(isSpace c || [44, 34, 39].contains c)

/-- `InlineKeySpecPattern`, `KEY:[^\s,"']+`, at the start of a text: what is behind the match. -/
def keyAt (t : Text) : Option Text :=
  (reads (KeyLead.map exactly ++ [isKeyUnit]) t).map fun rest => rest.dropWhile isKeyUnit

/-- A key goes on at the start of the text. -/
def startsKey (t : Text) : Bool :=
  t.head?.any isKeyUnit

theorem keyLead_eq : KeyLead = [75, 69, 89, 58] := by decide

theorem keyAt_lead (t : Text) :
    keyAt (KeyLead ++ t) = if startsKey t then some (t.dropWhile isKeyUnit) else none := by
  rw [keyLead_eq]
  cases t with
  | nil => rfl
  | cons c t =>
      have hreads : reads (KeyLead.map exactly ++ [isKeyUnit]) ([75, 69, 89, 58] ++ c :: t) =
          if isKeyUnit c then some t else none := by
        rw [keyLead_eq]
        rfl
      rw [keyAt, hreads, startsKey, List.head?_cons, Option.any_some]
      by_cases hc : isKeyUnit c = true
      · rw [if_pos hc, if_pos hc, List.dropWhile_cons_of_pos hc, Option.map_some]
      · rw [if_neg hc, if_neg hc, Option.map_none]

theorem lead_of_keyAt {t rest : Text} (h : keyAt t = some rest) :
    ∃ u, t = KeyLead ++ u ∧ startsKey u = true ∧ rest = u.dropWhile isKeyUnit := by
  have hlead : ∃ u, t = KeyLead ++ u := by
    obtain ⟨r, hr, _⟩ := Option.map_eq_some_iff.mp h
    rw [keyLead_eq] at hr ⊢
    match t, hr with
    | a :: b :: c :: d :: u, hr =>
        simp only [List.map_cons, List.cons_append, reads, exactly, beq_iff_eq] at hr
        split_ifs at hr with ha hb hc hd
        exact ⟨u, by rw [ha, hb, hc, hd]; rfl⟩
    | [_], hr => simp [reads] at hr
    | [_, _], hr => simp [reads] at hr
    | [_, _, _], hr => simp [reads] at hr
  obtain ⟨u, rfl⟩ := hlead
  rw [keyAt_lead] at h
  split_ifs at h with hu
  exact ⟨u, rfl, hu, (Option.some.inj h).symm⟩

/-- Every inline key replaced by the marker. -/
def replaceKeys : Text → Text
  | [] => []
  | c :: t =>
      match _h : keyAt (c :: t) with
      | some rest => KeyLead ++ RedactedMarker ++ replaceKeys rest
      | none => c :: replaceKeys t
  termination_by t => t.length
  decreasing_by
    · obtain ⟨u, hu, _, rfl⟩ := lead_of_keyAt _h
      have hle := (List.dropWhile_sublist isKeyUnit (l := u)).length_le
      rw [hu, keyLead_eq, List.length_append]
      simp only [List.length_cons, List.length_nil]
      omega
    · simp

/-- The entry stands behind a secret flag. -/
def follows (argv : List Text) (index : ℕ) : Bool :=
  decide (0 < index) && argv[index - 1]?.any fun arg => SecretArgFlags.contains arg

def maskSecretArgs (argv : List Text) : List Text :=
  argv.mapIdx fun index arg => if follows argv index then RedactedMarker else replaceKeys arg

/-! ### Replacing -/

theorem replaceKeys_nil : replaceKeys [] = [] := by
  rw [replaceKeys]

theorem replaceKeys_of_none {c : CodeUnit} {t : Text} (h : keyAt (c :: t) = none) :
    replaceKeys (c :: t) = c :: replaceKeys t := by
  rw [replaceKeys]
  split
  · next h' => cases h.symm.trans h'
  · rfl

theorem replaceKeys_key {u : Text} (h : startsKey u = true) :
    replaceKeys (KeyLead ++ u) =
      KeyLead ++ RedactedMarker ++ replaceKeys (u.dropWhile isKeyUnit) := by
  have hat : keyAt (75 :: ([69, 89, 58] ++ u)) = some (u.dropWhile isKeyUnit) := by
    have hlead := keyAt_lead u
    rwa [if_pos h, keyLead_eq] at hlead
  have hcons : KeyLead ++ u = 75 :: ([69, 89, 58] ++ u) := by rw [keyLead_eq]; rfl
  rw [hcons, replaceKeys]
  split
  · next h' => rw [Option.some.inj (h'.symm.trans hat)]
  · next h' => cases hat.symm.trans h'

/-- Texts by the matches of the pattern, from the left. -/
theorem key_induction {motive : Text → Prop} (nil : motive [])
    (key : ∀ u, startsKey u = true → motive (u.dropWhile isKeyUnit) → motive (KeyLead ++ u))
    (unit : ∀ c t, keyAt (c :: t) = none → motive t → motive (c :: t)) (t : Text) : motive t := by
  induction t using replaceKeys.induct with
  | case1 => exact nil
  | case2 c t rest h ih =>
      obtain ⟨u, hu, hstarts, rfl⟩ := lead_of_keyAt h
      rw [hu]
      exact key u hstarts ih
  | case3 c t h ih => exact unit c t h ih

theorem keyAt_of_ne {c : CodeUnit} (h : c ≠ 75) (t : Text) : keyAt (c :: t) = none := by
  cases hat : keyAt (c :: t) with
  | none => rfl
  | some rest =>
      obtain ⟨u, hu, _⟩ := lead_of_keyAt hat
      rw [keyLead_eq] at hu
      exact absurd (List.cons.inj hu).1 h

/-- A stretch in which no match begins stays as it is. -/
theorem replaceKeys_append {w : Text} (h : 75 ∉ w) (t : Text) :
    replaceKeys (w ++ t) = w ++ replaceKeys t := by
  induction w with
  | nil => rfl
  | cons c w ih =>
      rw [List.cons_append, replaceKeys_of_none (keyAt_of_ne (by grind) _), ih (by grind)]
      rfl

theorem replaceKeys_lead (u : Text) :
    replaceKeys (KeyLead ++ u) = KeyLead ++
      if startsKey u then RedactedMarker ++ replaceKeys (u.dropWhile isKeyUnit)
      else replaceKeys u := by
  split_ifs with h
  · rw [replaceKeys_key h, List.append_assoc]
  · have hat : keyAt (75 :: ([69, 89, 58] ++ u)) = none := by
      have hlead := keyAt_lead u
      rwa [if_neg h, keyLead_eq] at hlead
    have hcons : KeyLead ++ u = 75 :: ([69, 89, 58] ++ u) := by rw [keyLead_eq]; rfl
    rw [hcons, replaceKeys_of_none hat, replaceKeys_append (by decide), keyLead_eq]
    rfl

@[simp] theorem startsKey_replaceKeys (t : Text) : startsKey (replaceKeys t) = startsKey t := by
  induction t using key_induction with
  | nil => rw [replaceKeys_nil]
  | key u h _ =>
      rw [replaceKeys_key h, keyLead_eq]
      rfl
  | unit c t h _ =>
      rw [replaceKeys_of_none h]
      rfl

/-- What is left behind a run of key units, replaced before or after. -/
theorem dropWhile_replaceKeys (t : Text) :
    (replaceKeys t).dropWhile isKeyUnit = replaceKeys (t.dropWhile isKeyUnit) := by
  have hlead : KeyLead.all isKeyUnit = true := by decide
  have hmarker : RedactedMarker.all isKeyUnit = true := by decide
  induction t using key_induction with
  | nil => rw [replaceKeys_nil, List.dropWhile_nil, replaceKeys_nil]
  | key u h ih =>
      rw [replaceKeys_key h, List.append_assoc,
        List.dropWhile_append_of_pos (List.all_eq_true.mp hlead),
        List.dropWhile_append_of_pos (List.all_eq_true.mp hmarker), ih,
        List.dropWhile_append_of_pos (List.all_eq_true.mp hlead), List.dropWhile_idempotent]
  | unit c t h ih =>
      rw [replaceKeys_of_none h]
      by_cases hc : isKeyUnit c = true
      · rw [List.dropWhile_cons_of_pos hc, List.dropWhile_cons_of_pos hc, ih]
      · rw [List.dropWhile_cons_of_neg hc, List.dropWhile_cons_of_neg hc, replaceKeys_of_none h]

theorem replaceKeys_eq_nil {t : Text} (h : replaceKeys t = []) : t = [] := by
  induction t using key_induction with
  | nil => rfl
  | key u hu _ =>
      rw [replaceKeys_key hu, keyLead_eq] at h
      cases h
  | unit c t hat _ =>
      rw [replaceKeys_of_none hat] at h
      cases h

/-- A stretch of the result in which no lead begins is one of the text. -/
theorem exists_of_replaceKeys {w : Text} (hw : 75 ∉ w) {t r : Text}
    (h : replaceKeys t = w ++ r) : ∃ u, t = w ++ u ∧ replaceKeys u = r := by
  induction w generalizing t with
  | nil => exact ⟨t, rfl, h⟩
  | cons c w ih =>
      induction t using key_induction with
      | nil =>
          rw [replaceKeys_nil] at h
          cases h
      | key u hu _ =>
          rw [replaceKeys_key hu, keyLead_eq] at h
          have hc : (75 : CodeUnit) = c := (List.cons.inj h).1
          exact absurd (by simp [hc]) hw
      | unit d t hat _ =>
          rw [replaceKeys_of_none hat] at h
          obtain ⟨rfl, htail⟩ := List.cons.inj h
          obtain ⟨u, rfl, hu⟩ := ih (fun hm => hw (List.mem_cons_of_mem _ hm)) htail
          exact ⟨u, rfl, hu⟩

/-! ### Texts that differ in keys -/

/-- The same text, up to what stands behind a lead. -/
inductive SameOutsideKeys : Text → Text → Prop
  | nil : SameOutsideKeys [] []
  | unit (c : CodeUnit) {t u : Text} (h : SameOutsideKeys t u) : SameOutsideKeys (c :: t) (c :: u)
  | key {k l t u : Text} (hk : k ≠ []) (hl : l ≠ []) (kUnits : k.all isKeyUnit = true)
      (lUnits : l.all isKeyUnit = true) (h : SameOutsideKeys t u) :
      SameOutsideKeys (KeyLead ++ (k ++ t)) (KeyLead ++ (l ++ u))

theorem SameOutsideKeys.append {t u : Text} (h : SameOutsideKeys t u) (w : Text) :
    SameOutsideKeys (w ++ t) (w ++ u) := by
  induction w with
  | nil => exact h
  | cons c w ih => exact ih.unit c

theorem SameOutsideKeys.refl (t : Text) : SameOutsideKeys t t := by
  simpa using SameOutsideKeys.nil.append t

/-- Behind one lead, texts with equal replacements. -/
theorem replaceKeys_lead_congr {t u : Text} (h : replaceKeys t = replaceKeys u) :
    replaceKeys (KeyLead ++ t) = replaceKeys (KeyLead ++ u) := by
  have hstarts : startsKey t = startsKey u := by
    rw [← startsKey_replaceKeys, h, startsKey_replaceKeys]
  rw [replaceKeys_lead, replaceKeys_lead, hstarts, ← dropWhile_replaceKeys,
    ← dropWhile_replaceKeys, h]

theorem replaceKeys_cons_of_lead {c : CodeUnit} {t u rest : Text}
    (h : replaceKeys t = replaceKeys u) (hat : keyAt (c :: t) = some rest) :
    replaceKeys (c :: t) = replaceKeys (c :: u) := by
  obtain ⟨x, hx, _⟩ := lead_of_keyAt hat
  rw [keyLead_eq] at hx
  obtain ⟨rfl, rfl⟩ := List.cons.inj hx
  change replaceKeys ([69, 89, 58] ++ x) = replaceKeys u at h
  rw [replaceKeys_append (by decide)] at h
  obtain ⟨y, rfl, hy⟩ := exists_of_replaceKeys (by decide) h.symm
  have hlead := replaceKeys_lead_congr hy.symm
  rwa [keyLead_eq] at hlead

theorem replaceKeys_cons_congr (c : CodeUnit) {t u : Text} (h : replaceKeys t = replaceKeys u) :
    replaceKeys (c :: t) = replaceKeys (c :: u) := by
  cases ht : keyAt (c :: t) with
  | some rest => exact replaceKeys_cons_of_lead h ht
  | none =>
      cases hu : keyAt (c :: u) with
      | some rest => exact (replaceKeys_cons_of_lead h.symm hu).symm
      | none => rw [replaceKeys_of_none ht, replaceKeys_of_none hu, h]

theorem replaceKeys_key_append {k : Text} (hne : k ≠ []) (hk : k.all isKeyUnit = true)
    (t : Text) : replaceKeys (KeyLead ++ (k ++ t)) =
      KeyLead ++ RedactedMarker ++ replaceKeys (t.dropWhile isKeyUnit) := by
  have hstarts : startsKey (k ++ t) = true := by
    cases k with
    | nil => exact absurd rfl hne
    | cons c k =>
        rw [List.all_cons, Bool.and_eq_true] at hk
        exact hk.1
  rw [replaceKeys_key hstarts, List.dropWhile_append_of_pos (List.all_eq_true.mp hk)]

theorem SameOutsideKeys.replaceKeys_eq {t u : Text} (h : SameOutsideKeys t u) :
    replaceKeys t = replaceKeys u := by
  induction h with
  | nil => rfl
  | unit c _ ih => exact replaceKeys_cons_congr c ih
  | key hk hl kUnits lUnits _ ih =>
      rw [replaceKeys_key_append hk kUnits, replaceKeys_key_append hl lUnits,
        ← dropWhile_replaceKeys, ← dropWhile_replaceKeys, ih]

/-- The marker comes from a match only. -/
theorem ne_key_of_none {c : CodeUnit} {t : Text} (h : keyAt (c :: t) = none) (r : Text) :
    c :: replaceKeys t ≠ KeyLead ++ RedactedMarker ++ r := by
  have hmarker : ∃ m, RedactedMarker = 60 :: m := ⟨(RedactedMarker).tail, by decide⟩
  obtain ⟨m, hm⟩ := hmarker
  intro heq
  rw [keyLead_eq, hm] at heq
  obtain ⟨rfl, htail⟩ := List.cons.inj heq
  have hstretch : replaceKeys t = [69, 89, 58, 60] ++ (m ++ r) := htail
  obtain ⟨u, rfl, _⟩ := exists_of_replaceKeys (by decide) hstretch
  have hlead := keyAt_lead (60 :: u)
  rw [keyLead_eq, if_pos (by rfl)] at hlead
  cases h.symm.trans hlead

theorem takeWhile_ne_nil {t : Text} (h : startsKey t = true) : t.takeWhile isKeyUnit ≠ [] := by
  cases t with
  | nil => cases h
  | cons c t =>
      have hc : isKeyUnit c = true := h
      rw [List.takeWhile_cons_of_pos hc]
      exact List.cons_ne_nil _ _

theorem SameOutsideKeys.of_eq {t : Text} : ∀ {u : Text}, replaceKeys t = replaceKeys u →
    SameOutsideKeys t u := by
  induction t using key_induction with
  | nil =>
      intro u h
      rw [replaceKeys_nil] at h
      rw [replaceKeys_eq_nil h.symm]
      exact .nil
  | key x hx ih =>
      intro u h
      rw [replaceKeys_key hx] at h
      cases hu : u with
      | nil =>
          rw [hu, replaceKeys_nil, keyLead_eq] at h
          cases h
      | cons c v =>
          cases hat : keyAt (c :: v) with
          | none =>
              rw [hu, replaceKeys_of_none hat] at h
              exact absurd h.symm (ne_key_of_none hat _)
          | some rest =>
              obtain ⟨y, hy, hstarts, rfl⟩ := lead_of_keyAt hat
              rw [hu, hy, replaceKeys_key hstarts] at h
              have htail := ih (List.append_cancel_left h)
              rw [hy, ← List.takeWhile_append_dropWhile (p := isKeyUnit) (l := x),
                ← List.takeWhile_append_dropWhile (p := isKeyUnit) (l := y)]
              exact .key (takeWhile_ne_nil hx) (takeWhile_ne_nil hstarts) List.all_takeWhile
                List.all_takeWhile htail
  | unit c t hat ih =>
      intro u h
      rw [replaceKeys_of_none hat] at h
      cases hu : u with
      | nil =>
          rw [hu, replaceKeys_nil] at h
          cases h
      | cons d v =>
          cases hat' : keyAt (d :: v) with
          | some rest =>
              obtain ⟨y, hy, hstarts, _⟩ := lead_of_keyAt hat'
              rw [hu, hy, replaceKeys_key hstarts] at h
              exact absurd h (ne_key_of_none hat _)
          | none =>
              rw [hu, replaceKeys_of_none hat'] at h
              obtain ⟨rfl, htail⟩ := List.cons.inj h
              exact (ih htail).unit c

/-- The replacements of two texts agree when the texts do outside their keys. -/
theorem replaceKeys_eq_iff {t u : Text} : replaceKeys t = replaceKeys u ↔ SameOutsideKeys t u :=
  ⟨SameOutsideKeys.of_eq, SameOutsideKeys.replaceKeys_eq⟩

/-! ### Texts without keys -/

/-- Whatever stands behind a lead is the marker already. -/
def KeysMarked (t : Text) : Prop :=
  ∀ u, KeyLead ++ u <:+ t → startsKey u = true → u.takeWhile isKeyUnit = RedactedMarker

theorem keysMarked_cons {c : CodeUnit} {t : Text} :
    KeysMarked (c :: t) ↔ (∀ u, c :: t = KeyLead ++ u → startsKey u = true →
      u.takeWhile isKeyUnit = RedactedMarker) ∧ KeysMarked t := by
  constructor
  · intro h
    exact ⟨fun u hu => h u (hu ▸ List.suffix_refl _), fun u hu => h u (hu.trans ⟨[c], rfl⟩)⟩
  · rintro ⟨hhead, htail⟩ u hu
    rcases List.suffix_cons_iff.mp hu with heq | hsuffix
    · exact hhead u heq.symm
    · exact htail u hsuffix

theorem keysMarked_append {w : Text} (h : 75 ∉ w) {t : Text} :
    KeysMarked (w ++ t) ↔ KeysMarked t := by
  induction w with
  | nil => exact Iff.rfl
  | cons c w ih =>
      rw [List.cons_append, keysMarked_cons, ih fun hm => h (List.mem_cons_of_mem _ hm)]
      refine and_iff_right fun u hu => ?_
      rw [keyLead_eq] at hu
      exact absurd (by simp [(List.cons.inj hu).1]) h

theorem takeWhile_marker_append {r : Text} (h : startsKey r = false) :
    (RedactedMarker ++ r).takeWhile isKeyUnit = RedactedMarker := by
  have hmarker : RedactedMarker.all isKeyUnit = true := by decide
  have hr : r.takeWhile isKeyUnit = [] := by
    cases r with
    | nil => rfl
    | cons c r =>
        have hc : isKeyUnit c = false := h
        rw [List.takeWhile_cons_of_neg (by simp [hc])]
  rw [List.takeWhile_append_of_pos (List.all_eq_true.mp hmarker), hr, List.append_nil]

theorem startsKey_dropWhile (t : Text) : startsKey (t.dropWhile isKeyUnit) = false := by
  induction t with
  | nil => rfl
  | cons c t ih =>
      by_cases hc : isKeyUnit c = true
      · rw [List.dropWhile_cons_of_pos hc, ih]
      · rw [List.dropWhile_cons_of_neg hc]
        exact Bool.eq_false_iff.mpr hc

theorem keysMarked_lead {u : Text} : KeysMarked (KeyLead ++ u) ↔
    (startsKey u = true → u.takeWhile isKeyUnit = RedactedMarker) ∧ KeysMarked u := by
  have hcons : KeyLead ++ u = 75 :: ([69, 89, 58] ++ u) := by rw [keyLead_eq]; rfl
  rw [hcons, keysMarked_cons, keysMarked_append (by decide), ← hcons]
  refine and_congr_left fun _ => ⟨fun h => h u rfl, fun h v hv => ?_⟩
  rwa [← List.append_cancel_left hv]

theorem keysMarked_replaceKeys (t : Text) : KeysMarked (replaceKeys t) := by
  have hmarker : (75 : CodeUnit) ∉ RedactedMarker := by decide
  induction t using key_induction with
  | nil =>
      intro u hu
      rw [replaceKeys_nil, keyLead_eq] at hu
      cases List.suffix_nil.mp hu
  | key u h ih =>
      rw [replaceKeys_key h, List.append_assoc, keysMarked_lead, keysMarked_append hmarker]
      refine ⟨fun _ => takeWhile_marker_append ?_, ih⟩
      rw [startsKey_replaceKeys, startsKey_dropWhile]
  | unit c t hat ih =>
      rw [replaceKeys_of_none hat, keysMarked_cons]
      refine ⟨fun u hu hstarts => ?_, ih⟩
      -- the text has the lead of its replacement, so a key would have been matched
      rw [keyLead_eq] at hu
      obtain ⟨rfl, htail⟩ := List.cons.inj hu
      have hstretch : replaceKeys t = [69, 89, 58] ++ u := htail
      obtain ⟨v, rfl, rfl⟩ := exists_of_replaceKeys (by decide) hstretch
      have hlead := keyAt_lead v
      rw [startsKey_replaceKeys] at hstarts
      rw [keyLead_eq, if_pos hstarts] at hlead
      cases hat.symm.trans hlead

/-- A text is recorded as it is when its keys are the marker. -/
theorem replaceKeys_eq_self_iff {t : Text} : replaceKeys t = t ↔ KeysMarked t := by
  refine ⟨fun h => h ▸ keysMarked_replaceKeys t, ?_⟩
  induction t using key_induction with
  | nil => exact fun _ => replaceKeys_nil
  | key u h ih =>
      intro hmarked
      obtain ⟨hrun, hu⟩ := keysMarked_lead.mp hmarked
      have hsplit := List.takeWhile_append_dropWhile (p := isKeyUnit) (l := u)
      have hrest : KeysMarked (u.dropWhile isKeyUnit) :=
        fun v hv => hu v (hv.trans (List.dropWhile_suffix isKeyUnit))
      rw [replaceKeys_key h, ih hrest, List.append_assoc, ← hrun h, hsplit]
  | unit c t hat ih =>
      intro hmarked
      rw [replaceKeys_of_none hat, ih (keysMarked_cons.mp hmarked).2]

theorem replaceKeys_eq_marker_iff {t : Text} :
    replaceKeys t = RedactedMarker ↔ t = RedactedMarker := by
  have hmarker : (75 : CodeUnit) ∉ RedactedMarker := by decide
  have hself : RedactedMarker ++ [] = RedactedMarker := List.append_nil _
  constructor
  · intro h
    rw [← hself] at h
    obtain ⟨u, rfl, hu⟩ := exists_of_replaceKeys hmarker h
    rw [replaceKeys_eq_nil hu, List.append_nil]
  · rintro rfl
    rw [← hself, replaceKeys_append hmarker, replaceKeys_nil]

/-! ### Command lines -/

/-- A signature-provider token `<pubkey>=KEY:<key>`, whose key has no white space. -/
def IsProviderToken (token pubkey key : Text) : Prop :=
  token = pubkey ++ text "=KEY:" ++ key ∧ ∀ c ∈ key, isSpace c = false

/-- The entries differ in no more than the text of secrets. -/
def DifferOnlyInSecrets (a b : List Text) : Prop :=
  a.length = b.length ∧ ∀ i x y, a[i]? = some x → b[i]? = some y →
    x = y ∨ (follows a i = true ∧ follows b i = true) ∨
      ∃ pubkey k l, IsProviderToken x pubkey k ∧ IsProviderToken y pubkey l

def HoldsSecret (argv : List Text) (index : ℕ) (entry : Text) : Prop :=
  follows argv index = true ∨ ∃ pubkey key, IsProviderToken entry pubkey key

/-- Every entry stands behind a flag in both lines or in neither, unless it is the marker; and
where it stands behind none, the lines agree outside its keys. -/
def Concealed (a b : List Text) : Prop :=
  ∀ i x y, a[i]? = some x → b[i]? = some y →
    (follows a i = follows b i → follows a i = true ∨ SameOutsideKeys x y) ∧
    (follows a i = true → follows b i = false → y = RedactedMarker) ∧
    (follows a i = false → follows b i = true → x = RedactedMarker)

/-- No entry without a secret has a key behind a lead, other than the marker. -/
def PlainEntries (argv : List Text) : Prop :=
  ∀ i x, argv[i]? = some x → ¬ HoldsSecret argv i x → KeysMarked x

theorem maskSecretArgs_getElem? (argv : List Text) (i : ℕ) :
    (maskSecretArgs argv)[i]? =
      argv[i]?.map fun arg => if follows argv i then RedactedMarker else replaceKeys arg := by
  rw [maskSecretArgs, List.getElem?_mapIdx]

/-- One position of two masked lines. -/
theorem masked_eq_iff {a b : List Text} {i : ℕ} {x y : Text} :
    (if follows a i then RedactedMarker else replaceKeys x) =
        (if follows b i then RedactedMarker else replaceKeys y) ↔
      (follows a i = follows b i → follows a i = true ∨ SameOutsideKeys x y) ∧
      (follows a i = true → follows b i = false → y = RedactedMarker) ∧
      (follows a i = false → follows b i = true → x = RedactedMarker) := by
  cases ha : follows a i with
  | false =>
      cases hb : follows b i with
      | false => simp [replaceKeys_eq_iff]
      | true => simp [replaceKeys_eq_marker_iff]
  | true =>
      cases hb : follows b i with
      | false => simp [eq_comm (a := RedactedMarker), replaceKeys_eq_marker_iff]
      | true => simp

theorem maskSecretArgs_eq_iff {a b : List Text} (h : a.length = b.length) :
    maskSecretArgs a = maskSecretArgs b ↔ Concealed a b := by
  constructor
  · intro heq i x y hx hy
    have hat : (maskSecretArgs a)[i]? = (maskSecretArgs b)[i]? := by rw [heq]
    rw [maskSecretArgs_getElem?, maskSecretArgs_getElem?, hx, hy] at hat
    exact masked_eq_iff.mp (Option.some.inj hat)
  · intro hconcealed
    refine List.ext_getElem? fun i => ?_
    rw [maskSecretArgs_getElem?, maskSecretArgs_getElem?]
    by_cases hi : i < a.length
    · have hx := List.getElem?_eq_getElem hi
      have hy := List.getElem?_eq_getElem (h ▸ hi : i < b.length)
      rw [hx, hy, Option.map_some, Option.map_some,
        masked_eq_iff.mpr (hconcealed i _ _ hx hy)]
    · rw [List.getElem?_eq_none (by omega), List.getElem?_eq_none (by omega)]
      rfl

theorem maskSecretArgs_verbatim_iff {argv : List Text} :
    (∀ i x, argv[i]? = some x → ¬ HoldsSecret argv i x → (maskSecretArgs argv)[i]? = some x) ↔
      PlainEntries argv := by
  refine forall_congr' fun i => forall_congr' fun x => forall_congr' fun hx =>
    forall_congr' fun hplain => ?_
  have hflag : follows argv i = false := by
    rw [← Bool.not_eq_true]
    exact fun hflag => hplain (Or.inl hflag)
  rw [maskSecretArgs_getElem?, hx, Option.map_some, hflag, Option.some.injEq]
  exact replaceKeys_eq_self_iff

/-- When recorded command lines that differ only in their secrets agree and show every entry
without a secret as it is. -/
theorem maskSecretArgs_conceals (a b : List Text) (h : DifferOnlyInSecrets a b) :
    (maskSecretArgs a = maskSecretArgs b ∧
        ∀ i x, a[i]? = some x → ¬ HoldsSecret a i x → (maskSecretArgs a)[i]? = some x) ↔
      Concealed a b ∧ PlainEntries a :=
  and_congr (maskSecretArgs_eq_iff h.1) maskSecretArgs_verbatim_iff

/-- Lines whose keys have neither delimiters nor no unit at all, and none of whose secrets is
spelled like a flag, are recorded alike. -/
theorem maskSecretArgs_eq_of_plainKeys {a b : List Text} (h : DifferOnlyInSecrets a b)
    (hflags : ∀ i, follows a i = follows b i)
    (hkeys : ∀ token ∈ a ++ b, ∀ pubkey key, IsProviderToken token pubkey key →
      key ≠ [] ∧ key.all isKeyUnit = true) :
    maskSecretArgs a = maskSecretArgs b := by
  refine (maskSecretArgs_eq_iff h.1).mpr fun i x y hx hy => ⟨fun _ => ?_, ?_, ?_⟩
  · rcases h.2 i x y hx hy with rfl | hboth | ⟨pubkey, k, l, hk, hl⟩
    · exact Or.inr (SameOutsideKeys.refl x)
    · exact Or.inl hboth.1
    · have hx' := hkeys x (List.mem_append_left _ (List.mem_of_getElem? hx)) pubkey k hk
      have hy' := hkeys y (List.mem_append_right _ (List.mem_of_getElem? hy)) pubkey l hl
      have hlead : text "=KEY:" = text "=" ++ KeyLead := by decide
      have hkey := SameOutsideKeys.key hx'.1 hy'.1 hx'.2 hy'.2 .nil
      refine Or.inr ?_
      rw [hk.1, hl.1, hlead]
      simpa only [List.append_assoc, List.append_nil] using hkey.append (pubkey ++ text "=")
  · intro ha hb
    cases ha.symm.trans ((hflags i).trans hb)
  · intro ha hb
    cases ha.symm.trans ((hflags i).trans hb)

/-- Two lines that differ in the key of their last entry. -/
theorem differOnlyInSecrets_key (front : List Text) (pubkey : Text) {k l : Text}
    (hk : ∀ c ∈ k, isSpace c = false) (hl : ∀ c ∈ l, isSpace c = false) :
    DifferOnlyInSecrets (front ++ [pubkey ++ text "=KEY:" ++ k])
      (front ++ [pubkey ++ text "=KEY:" ++ l]) := by
  refine ⟨by simp, fun i x y hx hy => ?_⟩
  by_cases hi : i < front.length
  · rw [List.getElem?_append_left hi] at hx hy
    exact Or.inl (Option.some.inj (hx.symm.trans hy))
  · rw [List.getElem?_append_right (by omega), List.getElem?_singleton] at hx hy
    split_ifs at hx hy
    exact Or.inr (Or.inr ⟨pubkey, k, l, ⟨(Option.some.inj hx).symm, hk⟩,
      ⟨(Option.some.inj hy).symm, hl⟩⟩)

theorem not_space_of_all {k : Text} (h : (k.all fun c => !isSpace c) = true) :
    ∀ c ∈ k, isSpace c = false := by
  intro c hc
  simpa using List.all_eq_true.mp h c hc

/-- A key with a comma is shown from the comma on. -/
theorem key_shown_behind_comma :
    let front := [text "nodeop", text "--signature-provider"]
    let first := front ++ [text "PUB_K1_a" ++ text "=KEY:" ++ text "PVT,first"]
    let second := front ++ [text "PUB_K1_a" ++ text "=KEY:" ++ text "PVT,second"]
    DifferOnlyInSecrets first second ∧ maskSecretArgs first ≠ maskSecretArgs second :=
  ⟨differOnlyInSecrets_key _ _ (not_space_of_all (by decide))
    (not_space_of_all (by decide +kernel)), by decide +kernel⟩

theorem maskSecretArgs_conceals_key :
    let front := [text "nodeop", text "--signature-provider"]
    let first := front ++ [text "PUB_K1_a" ++ text "=KEY:" ++ text "PVT_K1_first"]
    let second := front ++ [text "PUB_K1_a" ++ text "=KEY:" ++ text "PVT_K1_second"]
    (maskSecretArgs first = maskSecretArgs second ∧
        ∀ i x, first[i]? = some x → ¬ HoldsSecret first i x →
          (maskSecretArgs first)[i]? = some x) ↔
      Concealed first second ∧ PlainEntries first :=
  maskSecretArgs_conceals _ _
    (differOnlyInSecrets_key _ _ (not_space_of_all (by decide))
      (not_space_of_all (by decide)))

end WireTools.SecretArgs

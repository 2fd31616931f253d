import WireTools.ClioRunner
import WireTools.KeyPublications
import WireTools.KeyStore

/-! # SSM parameters

`SSMClientProvider` reads and writes the parameters that an AWS account keeps in each of its
regions.

* `tryGetParameter` reads one that may not exist, `getParameterAcrossRegions` the one value that
  all regions agree on, and `putParameter` writes a new one, never over another;
* `Holds k`: whatever regions have a parameter, it is the key `k`; then the regions agree
  (`getParameterAcrossRegions_holds`);
* `SigningLibrary` is what the key tools use of the signing library. -/

namespace WireTools

open ClioRunner (trim)

/-- A parameter. -/
structure Parameter where
  type : Option Text
  value : Option Text
  tags : List (Text × Text)
deriving DecidableEq

/-- The parameters of an AWS account, by region and name. -/
abbrev ParameterStore := Text → Text → Option Parameter

/-- Why a create fails. -/
inductive KeyError where
  | tool (e : KeyToolError)
  | notSecureString (secretId type : Text)
  | emptyParameter (secretId : Text)
  | diverges (secretId first : Text) (others : List Text)
  | parameterAlreadyExists
  | keyExists
  | malformedKey
  | regionsUndefined
  | noProducerNode (index : Int)
  | noNodeKeys (index : Int)
  | otherTopology (label publicationLabel node : Text)
  | handleLength (label : Text)
  | recordedElsewhere (label publicationLabel recorded : Text)
  | missingKey (label curve : Text)
  | notAKey (secretId region curve : Text)
  | differentKey (secretId region curve label : Text)

namespace SSMClientProvider

def SecureStringType : Text := text "SecureString"

def AmbientRegion : Text := []

def AmbientRegionLabel : Text := text "the ambient AWS region"

def regionLabel (region : Text) : Text :=
  if region = AmbientRegion then AmbientRegionLabel else region

end SSMClientProvider

namespace KeyError

open SSMClientProvider

/-- The text of an error, none of one that comes from the signing library, from AWS, from kiod or
from the language. -/
def message : KeyError → Option Text
  | tool e => some e.message
  | notSecureString secretId type =>
      some (text "SSMClientProvider: parameter " ++ secretId ++
        text " must be a SecureString (got " ++ type ++ text ")")
  | emptyParameter secretId =>
      some (text "SSMClientProvider: parameter " ++ secretId ++ text " is empty")
  | diverges secretId first others =>
      some (text "SSMClientProvider: parameter " ++ secretId ++
        text " DIVERGES across regions — " ++ regionLabel first ++ text " disagrees with " ++
        join (text ", ") (others.map regionLabel) ++
        text ("; reconcile them before creating (adopting either value would orphan the other " ++
          "region's consumers)"))
  | parameterAlreadyExists => none
  | keyExists => none
  | malformedKey => none
  | regionsUndefined => none
  | noProducerNode index =>
      some (text "materialize producer: no planned producer node at index " ++
        KeyToolError.integer index)
  | noNodeKeys index =>
      some (text "ClusterKeyStore: no generated keys for producer node " ++
        KeyToolError.integer index)
  | otherTopology label publicationLabel node =>
      some (text "materialize producer " ++ label ++ text ": publicationLabel " ++
        publicationLabel ++ text " does not match node " ++ node ++ text "'s topology")
  | handleLength label =>
      some (text "materializeIdentity: operator handle \"" ++ label ++
        text "\" must be 1..12 chars (it is a node-directory and SSM path segment)")
  | recordedElsewhere label publicationLabel recorded =>
      some (text "KeySteps: " ++ label ++ text " publishes under " ++ publicationLabel ++
        text ", but its keys were recorded under " ++ recorded)
  | missingKey label curve =>
      some (text "KeySteps: " ++ label ++ text " has no " ++ curve ++ text " key")
  | notAKey secretId region curve =>
      some (text "KeySteps: " ++ secretId ++ text " in " ++ region ++
        text " holds a value that is not a " ++ curve ++ text " private key")
  | differentKey secretId region curve label =>
      some (text "KeySteps: " ++ secretId ++ text " in " ++ region ++
        text " already holds a DIFFERENT " ++ curve ++
        text " key than the one materialized for " ++ label ++
        text " — rotate or delete the stale parameter (it is never overwritten)")

end KeyError

/-! ### The signing library -/

/-- What the key tools use of the signing library, and the protocol's numbers of operator types.
A key has a text of the library's own and one of its chain's; each is read back as the key. -/
structure SigningLibrary where
  Key : KeyType → Type
  toString : {t : KeyType} → Key t → Text
  toNativeString : {t : KeyType} → Key t → Text
  publicKey : {t : KeyType} → Key t → Text
  extension : {t : KeyType} → Key t → KeyPairExtension t
  /-- `PrivateKey.from`. -/
  parse : Text → Option ((t : KeyType) × Key t)
  privateKeyFromNativeString : (t : KeyType) → Text → Option (Key t)
  operatorType : NodeTopology.OperatorType → Int
  parse_toString : ∀ {t : KeyType} (k : Key t), parse (toString k) = some ⟨t, k⟩
  fromNative_toNative : ∀ {t : KeyType} (k : Key t),
    privateKeyFromNativeString t (toNativeString k) = some k
  trim_native : ∀ {t : KeyType} (k : Key t), trim (toNativeString k) = toNativeString k
  toString_ne_nil : ∀ {t : KeyType} (k : Key t), toString k ≠ []
  native_ne_nil : ∀ {t : KeyType} (k : Key t), toNativeString k ≠ []
  nonempty : ∀ t : KeyType, Nonempty (Key t)

namespace SigningLibrary

variable (lib : SigningLibrary)

/-- A key's text tells its curve and the key. -/
theorem toString_inj {t t' : KeyType} {k : lib.Key t} {k' : lib.Key t'}
    (h : lib.toString k = lib.toString k') : t = t' ∧ HEq k k' := by
  have hk := lib.parse_toString k
  rw [h, lib.parse_toString] at hk
  obtain ⟨rfl, hsame⟩ := Sigma.mk.inj (Option.some.inj hk)
  exact ⟨rfl, hsame.symm⟩

theorem toNativeString_inj {t : KeyType} {k k' : lib.Key t}
    (h : lib.toNativeString k = lib.toNativeString k') : k = k' := by
  have hk := lib.fromNative_toNative k
  rw [h, lib.fromNative_toNative] at hk
  exact (Option.some.inj hk).symm

/-- The stored pair of a key. -/
def keyPair {t : KeyType} (k : lib.Key t) : KeyPair t :=
  ⟨lib.publicKey k, some (lib.toString k), none, lib.extension k⟩

/-- The stored pair of a key's native text. -/
def keyPairFromPrivate (t : KeyType) (privateKey : Text) : Except KeyError (KeyPair t) :=
  match lib.privateKeyFromNativeString t privateKey with
  | none => .error .malformedKey
  | some k => .ok (lib.keyPair k)

/-- The native text of a private key. -/
def native (privateKey : Text) : Except KeyError Text :=
  match lib.parse privateKey with
  | none => .error .malformedKey
  | some k => .ok (lib.toNativeString k.2)

theorem native_toString {t : KeyType} (k : lib.Key t) :
    lib.native (lib.toString k) = .ok (lib.toNativeString k) := by
  unfold native
  rw [lib.parse_toString]

theorem keyPairFromPrivate_native {t : KeyType} (k : lib.Key t) :
    lib.keyPairFromPrivate t (lib.toNativeString k) = .ok (lib.keyPair k) := by
  unfold keyPairFromPrivate
  rw [lib.fromNative_toNative]

end SigningLibrary

namespace SSMClientProvider

open Outcome

/-! ### Reading and writing -/

/-- A parameter that may not exist, checked and trimmed. -/
def tryGetParameter (params : ParameterStore) (region secretId : Text) :
    Except KeyError (Option Text) :=
  match params region secretId with
  | none => .ok none
  | some parameter =>
      if ∃ type ∈ parameter.type, type ≠ SecureStringType then
        .error (.notSecureString secretId (parameter.type.getD []))
      else
        let value := trim (parameter.value.getD [])
        if value = [] then .error (.emptyParameter secretId) else .ok (some value)

/-- The one value of the regions that have a parameter. -/
def agreed (secretId : Text) : List (Text × Text) → Except KeyError (Option Text)
  | [] => .ok none
  | first :: rest =>
      let divergent := rest.filter fun entry => entry.2 ≠ first.2
      if divergent = [] then .ok (some first.2)
      else .error (.diverges secretId first.1 (divergent.map Prod.fst))

/-- The one value that the regions agree on, none when no region has the parameter. -/
def getParameterAcrossRegions (params : ParameterStore) (regions : List Text) (secretId : Text) :
    Except KeyError (Option Text) := do
  let answers ← regions.mapM fun region => do
    let value ← tryGetParameter params region secretId
    .ok (value.map fun value => (region, value))
  agreed secretId (answers.filterMap id)

/-- Write a new parameter. -/
def putParameter (params : ParameterStore) (region secretId value : Text)
    (tags : List (Text × Text)) : Except KeyError ParameterStore :=
  match params region secretId with
  | some _ => .error .parameterAlreadyExists
  | none => .ok fun r id =>
      if r = region ∧ id = secretId then some ⟨some SecureStringType, some value, tags⟩
      else params r id

/-! ### Parameters that hold a key -/

/-- No region has the parameter. -/
def Absent (params : ParameterStore) (regions : List Text) (secretId : Text) : Prop :=
  ∀ region ∈ regions, params region secretId = none

/-- The parameter is there and reads as the text. -/
def Reads (params : ParameterStore) (region secretId value : Text) : Prop :=
  tryGetParameter params region secretId = .ok (some value)

/-- Whatever regions have the parameter, it reads as the text. -/
def Holds (params : ParameterStore) (regions : List Text) (secretId value : Text) : Prop :=
  ∀ region ∈ regions, params region secretId = none ∨ Reads params region secretId value

/-- Every parameter of the first store is in the second. -/
def Kept (params params' : ParameterStore) : Prop :=
  ∀ region secretId parameter, params region secretId = some parameter →
    params' region secretId = some parameter

theorem Kept.refl (params : ParameterStore) : Kept params params := fun _ _ _ h => h

theorem Kept.trans {params params' params'' : ParameterStore} (h : Kept params params')
    (h' : Kept params' params'') : Kept params params'' :=
  fun region secretId parameter hp => h' region secretId parameter (h region secretId parameter hp)

theorem Kept.absent {params params' : ParameterStore} (h : Kept params params')
    {regions : List Text} {secretId : Text} (ha : Absent params' regions secretId) :
    Absent params regions secretId := by
  intro region hregion
  cases hp : params region secretId with
  | none => rfl
  | some parameter =>
      have hkept := h region secretId parameter hp
      rw [ha region hregion] at hkept
      cases hkept

theorem tryGetParameter_congr {params params' : ParameterStore} {region secretId : Text}
    (h : params region secretId = params' region secretId) :
    tryGetParameter params region secretId = tryGetParameter params' region secretId := by
  unfold tryGetParameter
  rw [h]

theorem Kept.reads {params params' : ParameterStore} (h : Kept params params')
    {region secretId value : Text} (hr : Reads params region secretId value) :
    Reads params' region secretId value := by
  unfold Reads at hr ⊢
  rw [← hr]
  cases hp : params region secretId with
  | none =>
      unfold tryGetParameter at hr
      rw [hp] at hr
      cases hr
  | some parameter =>
      apply tryGetParameter_congr
      rw [hp, h region secretId parameter hp]

theorem Absent.holds {params : ParameterStore} {regions : List Text} {secretId : Text}
    (h : Absent params regions secretId) (value : Text) : Holds params regions secretId value :=
  fun region hregion => Or.inl (h region hregion)

theorem tryGetParameter_none {params : ParameterStore} {region secretId : Text}
    (h : params region secretId = none) : tryGetParameter params region secretId = .ok none := by
  unfold tryGetParameter
  rw [h]

theorem Reads.ne_none {params : ParameterStore} {region secretId value : Text}
    (h : Reads params region secretId value) : params region secretId ≠ none := by
  intro hnone
  unfold Reads at h
  rw [tryGetParameter_none hnone] at h
  cases h

/-- A parameter that the regions hold reads as nothing else. -/
theorem Holds.reads_eq {params : ParameterStore} {regions : List Text}
    {region secretId value value' : Text} (h : Holds params regions secretId value)
    (hregion : region ∈ regions) (hreads : Reads params region secretId value') :
    value' = value := by
  have hheld := (h region hregion).resolve_left hreads.ne_none
  exact Option.some.inj (Except.ok.inj (hreads.symm.trans hheld))

/-- What the regions answer when they hold one text. -/
theorem getParameterAcrossRegions_holds {params : ParameterStore} {regions : List Text}
    {secretId value : Text} (h : Holds params regions secretId value) :
    (Absent params regions secretId ∧
      getParameterAcrossRegions params regions secretId = .ok none) ∨
    (¬Absent params regions secretId ∧
      getParameterAcrossRegions params regions secretId = .ok (some value)) := by
  let answer : Text → Option (Text × Text) := fun region =>
    (params region secretId).map fun _ => (region, value)
  have hanswers : (regions.mapM fun region => do
      let value ← tryGetParameter params region secretId
      .ok (value.map fun value => (region, value))) = .ok (regions.map answer) := by
    rw [except_mapM_eq_ok, List.forall₂_map_right_iff, List.forall₂_same]
    intro region hregion
    rcases h region hregion with hnone | hreads
    · rw [tryGetParameter_none hnone]
      simp only [answer, hnone]
      rfl
    · have hsome : ∃ parameter, params region secretId = some parameter := by
        cases hp : params region secretId with
        | none =>
            unfold Reads at hreads
            rw [tryGetParameter_none hp] at hreads
            cases hreads
        | some parameter => exact ⟨parameter, rfl⟩
      obtain ⟨parameter, hp⟩ := hsome
      unfold Reads at hreads
      rw [hreads]
      simp only [answer, hp]
      rfl
  have hvalues : ∀ entry ∈ (regions.map answer).filterMap id, entry.2 = value := by
    intro entry hentry
    obtain ⟨_, hmem, rfl⟩ := List.mem_filterMap.mp hentry
    obtain ⟨region, -, hregion⟩ := List.mem_map.mp hmem
    obtain ⟨_, -, rfl⟩ := Option.map_eq_some_iff.mp hregion
    rfl
  have habsent : Absent params regions secretId ↔ (regions.map answer).filterMap id = [] := by
    rw [List.filterMap_eq_nil_iff]
    simp [Absent, answer]
  unfold getParameterAcrossRegions
  rw [hanswers]
  show _ ∧ agreed secretId ((regions.map answer).filterMap id) = _ ∨
    _ ∧ agreed secretId ((regions.map answer).filterMap id) = _
  rw [habsent]
  cases hentries : (regions.map answer).filterMap id with
  | nil => exact Or.inl ⟨rfl, rfl⟩
  | cons first rest =>
      rw [hentries] at hvalues
      have hrest : rest.filter (fun entry => entry.2 ≠ value) = [] := by
        rw [List.filter_eq_nil_iff]
        intro entry hentry
        rw [hvalues entry (List.mem_cons_of_mem _ hentry)]
        simp
      refine Or.inr ⟨by simp, ?_⟩
      unfold agreed
      simp only [hvalues first List.mem_cons_self, hrest, if_true]

/-- A put writes where nothing was, and nothing else. -/
theorem putParameter_eq_ok {params params' : ParameterStore} {region secretId value : Text}
    {tags : List (Text × Text)} (h : putParameter params region secretId value tags = .ok params') :
    params region secretId = none ∧
      params' region secretId = some ⟨some SecureStringType, some value, tags⟩ ∧
      ∀ r id, ¬(r = region ∧ id = secretId) → params' r id = params r id := by
  unfold putParameter at h
  cases hp : params region secretId with
  | some parameter =>
      rw [hp] at h
      cases h
  | none =>
      rw [hp] at h
      cases h
      exact ⟨rfl, if_pos ⟨rfl, rfl⟩, fun r id hne => if_neg hne⟩

theorem putParameter_kept {params params' : ParameterStore} {region secretId value : Text}
    {tags : List (Text × Text)} (h : putParameter params region secretId value tags = .ok params') :
    Kept params params' := by
  obtain ⟨hnone, -, hother⟩ := putParameter_eq_ok h
  intro r id parameter hp
  by_cases hsame : r = region ∧ id = secretId
  · rw [hsame.1, hsame.2, hnone] at hp
    cases hp
  · rw [hother r id hsame]
    exact hp

/-- A key that is put reads back as its native text. -/
theorem putParameter_reads {lib : SigningLibrary} {t : KeyType} {k : lib.Key t}
    {params params' : ParameterStore} {region secretId : Text} {tags : List (Text × Text)}
    (h : putParameter params region secretId (lib.toNativeString k) tags = .ok params') :
    Reads params' region secretId (lib.toNativeString k) := by
  obtain ⟨-, hput, -⟩ := putParameter_eq_ok h
  unfold Reads tryGetParameter
  rw [hput]
  simp [lib.trim_native, lib.native_ne_nil]

end SSMClientProvider

end WireTools

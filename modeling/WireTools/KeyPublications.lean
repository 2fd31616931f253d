import WireTools.NodeTopology
import WireTools.Outcome
import WireTools.Templates

/-! # The publications of an SSM cluster

Every signing key of an SSM cluster is published as a parameter, under the secret id that the
config's pattern renders for the key's identity and curve.

* `identities` are the identities of a cluster in the order they are enumerated, and
  `signatureProviderKeyPublications` their publications, refused when two share a secret id;
* a pattern is read as its `tokens`; `toSecretId_eq_ok` renders them, and `toSecretId_fill` says
  that the secret ids of one config are one template, filled with an account and a curve. -/

namespace WireTools

open NodeTopology (OperatorType)

/-- When a key is published: before the nodes start, or once the operators are provisioned. -/
inductive SignatureKeyPublishPhase where
  | beforeNodes
  | afterOperators
deriving DecidableEq

/-- One identity whose keys are published. -/
structure SignatureProviderKeyIdentity where
  label : Text
  publicationLabel : Text
  publishPhase : SignatureKeyPublishPhase
  keyTypes : List KeyType
deriving DecidableEq

/-- One key to publish. -/
structure SignatureProviderKeyPublication where
  publishPhase : SignatureKeyPublishPhase
  label : Text
  publicationLabel : Text
  keyType : KeyType
  awsRegions : List Text
  secretId : Text
  version : Option Text
deriving DecidableEq

namespace KeySteps

open NodeConfig ClusterConfigProvider

/-! ### The publications of a config -/

/-- The regions that an SSM cluster replicates its parameters to. -/
def replicationRegions (config : ClusterConfig) : Except KeyToolError (List Text) :=
  match config.ssm, config.awsClusterNodeConfig with
  | none, _ => .error .publicationSettingsMissing
  | some _, none => .error .replicationSettingsMissing
  | some ssm, some aws => .ok (ssm.awsRegions.getD aws.regions)

/-- The publication of one curve of an identity. -/
def publicationRenderer (config : ClusterConfig) (identity : SignatureProviderKeyIdentity)
    (keyType : KeyType) : Except KeyToolError SignatureProviderKeyPublication := do
  let awsRegions ← replicationRegions config
  let secretId ← ssmSecretId config identity.publicationLabel keyType
  .ok ⟨identity.publishPhase, identity.label, identity.publicationLabel, keyType, awsRegions,
    secretId, config.ssm.bind SSMSettings.version⟩

def OperatorKeyTypes : List KeyType := [.K1, .EM, .ED]

/-- The curves that an operator's identity publishes. -/
def operatorKeyTypes : OperatorType → List KeyType
  | .producer => OperatorKeyTypes ++ [.BLS]
  | _ => OperatorKeyTypes

def operatorKeyIdentity (label : Text) (type : OperatorType) : SignatureProviderKeyIdentity :=
  ⟨label, label, .afterOperators, operatorKeyTypes type⟩

/-- The identity of a producer that `node` hosts. -/
def producerKeyIdentity (node : NodeConfig) (label : Text) : SignatureProviderKeyIdentity :=
  ⟨label, producerPublicationLabel node label, .beforeNodes, [.K1, .BLS]⟩

/-- The identities of a cluster: bios, the bootstrap node owner, the producer accounts, the batch
operators and the underwriters. -/
def identities (config : ClusterConfig) : List SignatureProviderKeyIdentity :=
  ⟨BiosName, BiosName, .beforeNodes, [.K1, .BLS]⟩ ::
    ⟨Constants.BOOTSTRAP_NODE_OWNER, Constants.BOOTSTRAP_NODE_OWNER, .beforeNodes, [.K1]⟩ ::
      ((producerNodes config).flatMap (fun node => node.producers.map (producerKeyIdentity node)) ++
        (List.range config.batchOperatorCount).map (fun index =>
          operatorKeyIdentity (Constants.batchOperatorLabel index) .batch) ++
        (List.range config.underwriterCount).map (fun index =>
          operatorKeyIdentity (Constants.underwriterLabel index) .underwriter))

/-- The curves of the identities, each with its identity. -/
def rows (config : ClusterConfig) : List (SignatureProviderKeyIdentity × KeyType) :=
  (identities config).flatMap fun identity => identity.keyTypes.map fun keyType =>
    (identity, keyType)

/-- The secret ids that stand at an earlier place too. -/
def duplicateSecretIds (secretIds : List Text) : List Text :=
  (secretIds.zipIdx.filter fun entry => secretIds.idxOf entry.1 ≠ entry.2).map Prod.fst

/-- Every key to publish for an SSM cluster. -/
def signatureProviderKeyPublications (config : ClusterConfig) :
    Except KeyToolError (List SignatureProviderKeyPublication) := do
  let publications ← (rows config).mapM fun row => publicationRenderer config row.1 row.2
  let duplicates := duplicateSecretIds (publications.map (·.secretId))
  if duplicates = [] then .ok publications
  else .error (.publicationsCollide duplicates.eraseDups)

/-- No secret id stands twice exactly when none stands at an earlier place too. -/
theorem duplicateSecretIds_eq_nil {secretIds : List Text} :
    duplicateSecretIds secretIds = [] ↔ secretIds.Nodup := by
  unfold duplicateSecretIds
  rw [List.map_eq_nil_iff, List.filter_eq_nil_iff, List.nodup_iff_injective_get]
  constructor
  · intro h i j heq
    have hself : ∀ i : Fin secretIds.length, secretIds.idxOf (secretIds.get i) = i := by
      intro i
      have hmem : (secretIds.get i, i.1) ∈ secretIds.zipIdx := by
        rw [List.mem_zipIdx_iff_getElem?]
        simp
      have hne := h _ hmem
      simpa using hne
    apply Fin.ext
    rw [← hself i, ← hself j, heq]
  · intro h entry hmem
    rw [List.mem_zipIdx_iff_getElem?] at hmem
    obtain ⟨hi, hget⟩ := List.getElem?_eq_some_iff.mp hmem
    have hnodup := List.nodup_iff_injective_get.mpr h
    rw [← hget, hnodup.idxOf_getElem entry.2 hi]
    simp

end KeySteps

namespace ClusterConfigProvider

open Outcome Templates

/-! ### The tokens of a pattern -/

/-- A unit of a pattern, or a placeholder. -/
inductive Token where
  | unit (c : CodeUnit)
  | key (key : Text)
deriving DecidableEq

/-- A pattern's units and placeholders in order.  The first argument counts the units of a
placeholder that is already read. -/
def tokens : ℕ → Text → List Token
  | _, [] => []
  | skip + 1, _ :: t => tokens skip t
  | 0, c :: t =>
    match if c = 123 then placeholder t else none with
    | none => .unit c :: tokens 0 t
    | some key => .key key :: tokens (key.length + 1) t

/-- The pattern names a placeholder. -/
def Mentions (pattern key : Text) : Prop := Token.key key ∈ tokens 0 pattern

instance (pattern key : Text) : Decidable (Mentions pattern key) :=
  inferInstanceAs (Decidable (Token.key key ∈ tokens 0 pattern))

/-- Every placeholder of the pattern has a value. -/
def Filled (pattern : Text) (s : SecretIdSubstitutions) : Prop :=
  ∀ key, Mentions pattern key → (s.value key).isSome

/-- What a token is rendered as. -/
def SecretIdSubstitutions.word (s : SecretIdSubstitutions) : Token → Text
  | .unit c => [c]
  | .key key => (s.value key).getD []

theorem render_eq_ok {pattern : Text} {s : SecretIdSubstitutions} {id : Text} (skip : ℕ)
    (t : Text) : render pattern s skip t = .ok id ↔
      (∀ key, Token.key key ∈ tokens skip t → (s.value key).isSome) ∧
        id = (tokens skip t).flatMap s.word := by
  fun_induction tokens skip t generalizing id with
  | case1 skip =>
      rw [render]
      constructor
      · rintro ⟨⟩
        exact ⟨by simp, rfl⟩
      · rintro ⟨-, rfl⟩
        rfl
  | case2 skip c t ih =>
      rw [render]
      exact ih
  | case3 c t hkey ih =>
      rw [render, hkey]
      simp only [except_bind_eq_ok, ih, List.mem_cons, reduceCtorEq, false_or]
      constructor
      · rintro ⟨rest, ⟨hfilled, rfl⟩, ⟨⟩⟩
        exact ⟨hfilled, rfl⟩
      · rintro ⟨hfilled, rfl⟩
        exact ⟨_, ⟨hfilled, rfl⟩, rfl⟩
  | case4 c t key hkey ih =>
      rw [render, hkey]
      simp only [List.mem_cons, Token.key.injEq, List.flatMap_cons]
      cases hvalue : s.value key with
      | none =>
          simp only [reduceCtorEq, false_iff, not_and]
          intro hfilled
          have hsome := hfilled key (Or.inl rfl)
          rw [hvalue] at hsome
          cases hsome
      | some value =>
          have hword : s.word (.key key) = value := by
            unfold SecretIdSubstitutions.word
            simp only [hvalue, Option.getD_some]
          simp only [except_bind_eq_ok, ih, hword]
          constructor
          · rintro ⟨rest, ⟨hfilled, rfl⟩, ⟨⟩⟩
            refine ⟨?_, rfl⟩
            rintro other (rfl | hmem)
            · rw [hvalue]
              rfl
            · exact hfilled other hmem
          · rintro ⟨hfilled, rfl⟩
            exact ⟨_, ⟨fun other hmem => hfilled other (Or.inr hmem), rfl⟩, rfl⟩

/-- A filled pattern renders token by token, any other not at all. -/
theorem toSecretId_eq_ok {pattern : Text} {s : SecretIdSubstitutions} {id : Text} :
    toSecretId pattern s = .ok id ↔
      Filled pattern s ∧ id = (tokens 0 pattern).flatMap s.word :=
  render_eq_ok 0 pattern

/-! ### Secret ids as one template -/

/-- A token as a part: the account is the first blank, the curve the second. -/
def partOf (s : SecretIdSubstitutions) (token : Token) : TemplatePart CodeUnit :=
  if token = .key (text "account") then .first
  else if token = .key (text "keyType") then .second
  else .lit (s.word token)

theorem word_partOf (s : SecretIdSubstitutions) (account keyType : Text)
    (token : Token) : (partOf s token).word account keyType =
      SecretIdSubstitutions.word { s with account := account, keyType := keyType } token := by
  unfold partOf
  split_ifs with haccount hkeyType
  · rw [haccount]
    rfl
  · rw [hkeyType]
    rfl
  · cases token with
    | unit c => rfl
    | key key =>
        rw [Token.key.injEq] at haccount hkeyType
        unfold TemplatePart.word SecretIdSubstitutions.word SecretIdSubstitutions.value
        simp only [if_neg haccount, if_neg hkeyType]

/-- The template of a pattern. -/
def template (pattern : Text) (s : SecretIdSubstitutions) : List (TemplatePart CodeUnit) :=
  (tokens 0 pattern).map (partOf s)

theorem first_mem_template {pattern : Text} {s : SecretIdSubstitutions} :
    .first ∈ template pattern s ↔ Mentions pattern (text "account") := by
  unfold template Mentions partOf
  rw [List.mem_map]
  constructor
  · rintro ⟨token, hmem, hpart⟩
    split_ifs at hpart with haccount
    rwa [haccount] at hmem
  · intro hmem
    exact ⟨_, hmem, if_pos rfl⟩

theorem second_mem_template {pattern : Text} {s : SecretIdSubstitutions} :
    .second ∈ template pattern s ↔ Mentions pattern (text "keyType") := by
  unfold template Mentions partOf
  rw [List.mem_map]
  constructor
  · rintro ⟨token, hmem, hpart⟩
    split_ifs at hpart with haccount hkeyType
    rwa [hkeyType] at hmem
  · intro hmem
    refine ⟨_, hmem, ?_⟩
    rw [if_neg (by decide), if_pos rfl]

/-- The account and the curve always have values. -/
theorem filled_iff {pattern : Text} {s : SecretIdSubstitutions} {account keyType : Text} :
    Filled pattern { s with account := account, keyType := keyType } ↔ Filled pattern s := by
  unfold Filled
  refine forall_congr' fun key => imp_congr_right fun _ => ?_
  unfold SecretIdSubstitutions.value
  by_cases haccount : key = text "account"
  · have hcluster : key ≠ text "cluster" := by
      rw [haccount]
      decide
    simp only [if_neg hcluster, if_pos haccount, Option.isSome_some]
  · by_cases hkeyType : key = text "keyType"
    · have hcluster : key ≠ text "cluster" := by
        rw [hkeyType]
        decide
      simp only [if_neg hcluster, if_neg haccount, if_pos hkeyType, Option.isSome_some]
    · simp only [if_neg haccount, if_neg hkeyType]

theorem toSecretId_fill {pattern : Text} {s : SecretIdSubstitutions} {account keyType id : Text} :
    toSecretId pattern { s with account := account, keyType := keyType } = .ok id ↔
      Filled pattern s ∧ id = fill account keyType (template pattern s) := by
  rw [toSecretId_eq_ok, filled_iff]
  unfold fill template
  rw [List.flatMap_map]
  simp only [word_partOf]

end ClusterConfigProvider

end WireTools

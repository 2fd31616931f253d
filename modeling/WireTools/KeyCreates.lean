import WireTools.Schedules
import WireTools.SecureParameters

/-! # Creates of an SSM cluster

A create materializes every key of its cluster: it adopts the parameter that the AWS account has
for the key, or generates one.  Later steps publish each key to every region.

* `perform` is one step of a create, with a step for each region that a key is published to;
  `run` performs steps until one fails;
* `compose` is the order of the steps; the operators are provisioned side by side, so their
  steps come in any order that keeps each operator's own (`OperatorSteps`);
* the wallet refuses a key that it holds (`importKey`). -/

namespace WireTools

open NodeConfig ClusterConfigProvider

namespace ClusterKeyStore

/-- A producer node's key set by its index. -/
def node (store : ClusterKeyStore) (index : Int) : Except KeyError NodeKeys :=
  match store.nodes.find? fun candidate => candidate.index = index with
  | none => .error (.noNodeKeys index)
  | some nodeKeys => .ok nodeKeys

/-- A provisioned operator by its label. -/
def operator (store : ClusterKeyStore) (label : Text) : Option OperatorAccount :=
  store.operators.find? fun operator => operator.label = label

def assertOperator (store : ClusterKeyStore) (label : Text) : Except KeyError OperatorAccount :=
  match store.operator label with
  | none => .error (.tool (.operatorNotProvisioned label))
  | some operator => .ok operator

end ClusterKeyStore

namespace KeySteps

open SSMClientProvider
open NodeTopology (OperatorType)

/-- The state of a create: the parameters of the AWS account, the create's key store, and the
private keys it has imported into the wallet. -/
structure Create where
  params : ParameterStore
  keyStore : ClusterKeyStore
  wallet : List Text

/-- A create at its start. -/
def Create.start (params : ParameterStore) : Create := ⟨params, .empty, []⟩

/-- Import a key; kiod refuses one that the wallet holds. -/
def importKey (wallet : List Text) (privateKey : Text) : Except KeyError (List Text) :=
  if privateKey ∈ wallet then .error .keyExists else .ok (wallet ++ [privateKey])

/-- The keys to import of those given. -/
def importable (privateKeys : List (Option Text)) : List Text :=
  (privateKeys.filterMap id).filter (· ≠ [])

/-- Import keys one after another. -/
def Create.addPrivateKey (c : Create) (privateKeys : List (Option Text)) :
    Except KeyError Create := do
  let wallet ← (importable privateKeys).foldlM importKey c.wallet
  .ok { c with wallet := wallet }

def Create.setOperator (c : Create) (operator : OperatorAccount) : Create :=
  { c with keyStore := c.keyStore.setOperator operator }

/-- What a create gets from outside: its signing library, a key for every curve and account it
generates one for, and the account name that the chain gives an operator. -/
structure Surroundings where
  lib : SigningLibrary
  generate : (t : KeyType) → Text → lib.Key t
  account : Text → Text

section Create

variable (env : Surroundings) (config : ClusterConfig)

/-! ### Adopting or generating -/

/-- A tool's failure as a create's. -/
def ofTool {α : Type} : Except KeyToolError α → Except KeyError α
  | .ok a => .ok a
  | .error e => .error (.tool e)

/-- The secret id of a key, none when the cluster is not SSM-custodied. -/
def signatureProviderSecretId (account : Text) (t : KeyType) : Except KeyError (Option Text) :=
  if config.signatureProvider ≠ .SSM then .ok none
  else do
    let secretId ← ofTool (ssmSecretId config account t)
    .ok (some secretId)

/-- Adopt the parameter that the regions hold, or generate a key. -/
def adoptOr (params : ParameterStore) (regions : List Text) (secretId : Text) (t : KeyType)
    (account : Text) : Except KeyError (KeyPair t) := do
  let adopted ← getParameterAcrossRegions params regions secretId
  match adopted with
  | some value => env.lib.keyPairFromPrivate t value
  | none => .ok (env.lib.keyPair (env.generate t account))

def adoptOrCreateSignatureProviderKey (params : ParameterStore) (t : KeyType) (account : Text) :
    Except KeyError (KeyPair t) := do
  let secretId ← signatureProviderSecretId config account t
  match secretId with
  | none => .ok (env.lib.keyPair (env.generate t account))
  | some secretId => do
      let regions ← ofTool (replicationRegions config)
      adoptOr env params regions secretId t account

/-- The twin that runs while the config is resolved. -/
def adoptOrCreateKey (params : ParameterStore) (t : KeyType) (account : Text) :
    Except KeyError (KeyPair t) := do
  let secretId ← ofTool (ssmSecretId config account t)
  match config.ssm.bind SSMSettings.awsRegions with
  | none => .error .regionsUndefined
  | some regions => adoptOr env params regions secretId t account

/-! ### Materializing -/

/-- The genesis keys, and the two accounts that are seeded with them. -/
def resolveWithBiosKeys (c : Create) : Except KeyError Create := do
  let biosWire ← adoptOrCreateKey env config c.params .K1 BiosName
  let biosFinalizer ← adoptOrCreateKey env config c.params .BLS BiosName
  let nodeOwnerWire ← adoptOrCreateKey env config c.params .K1 Constants.BOOTSTRAP_NODE_OWNER
  let unknown := env.lib.operatorType (.other (text "UNKNOWN"))
  .ok ((c.setOperator ⟨BiosName, BiosName, some BiosProducer, unknown, biosWire,
      some biosFinalizer, none, none⟩).setOperator
    ⟨Constants.BOOTSTRAP_NODE_OWNER, Constants.BOOTSTRAP_NODE_OWNER,
      some Constants.BOOTSTRAP_NODE_OWNER, unknown, nodeOwnerWire, none, none, none⟩)

/-- A producer node's key set. -/
def adoptOrCreateProducerKeySet (params : ParameterStore) (node : NodeConfig) :
    Except KeyError NodeKeys := do
  let wire ← adoptOrCreateSignatureProviderKey env config params .K1 node.name
  let wireFinalizer ← adoptOrCreateSignatureProviderKey env config params .BLS node.name
  .ok ⟨node.index, wire, wireFinalizer⟩

def runGenerateNodeKeys (c : Create) : Except KeyError Create := do
  let nodes ← (producerNodes config).mapM (adoptOrCreateProducerKeySet env config c.params)
  .ok { c with keyStore := c.keyStore.pushNodes nodes }

/-- Import the genesis keys and the nodes' keys, each once. -/
def runCreateWallet (c : Create) : Except KeyError Create :=
  let nodeKeys := c.keyStore.nodes.flatMap fun node =>
    [node.wire.privateKey, node.wireFinalizer.privateKey]
  let genesisKeys := ([BiosName, Constants.BOOTSTRAP_NODE_OWNER].filterMap
    c.keyStore.operator).flatMap fun identity =>
      [identity.wire.privateKey, identity.wireFinalizer.bind KeyPair.privateKey]
  c.addPrivateKey (genesisKeys ++ nodeKeys).eraseDups

/-- Materialize a producer from its node's keys. -/
def runProducerMaterialization (c : Create) (label : Text) (producerNodeIndex : Int)
    (publicationLabel : Text) : Except KeyError Create :=
  match (plan config).find? fun node => node.role = .producer ∧ node.index = producerNodeIndex with
  | none => .error (.noProducerNode producerNodeIndex)
  | some node =>
      if producerPublicationLabel node label ≠ publicationLabel then
        .error (.otherTopology label publicationLabel node.name)
      else do
        let nodeKeys ← c.keyStore.node producerNodeIndex
        let account (wireFinalizer : KeyPair .BLS) : OperatorAccount :=
          ⟨label, publicationLabel, some label, env.lib.operatorType .producer, nodeKeys.wire,
            some wireFinalizer, none, none⟩
        if publicationLabel = node.name then .ok (c.setOperator (account nodeKeys.wireFinalizer))
        else do
          let wireFinalizer ←
            adoptOrCreateSignatureProviderKey env config c.params .BLS label
          let c ← c.addPrivateKey [wireFinalizer.privateKey]
          .ok (c.setOperator (account wireFinalizer))

/-- Materialize an operator with keys of its own. -/
def runIdentityMaterialization (c : Create) (label : Text) (type : OperatorType) :
    Except KeyError Create :=
  if ¬(0 < label.length ∧ label.length ≤ 12) then .error (.handleLength label)
  else do
    let wire ← adoptOrCreateSignatureProviderKey env config c.params .K1 label
    let solana ← adoptOrCreateSignatureProviderKey env config c.params .ED label
    let ethereum ← adoptOrCreateSignatureProviderKey env config c.params .EM label
    let wireFinalizer ←
      if type = .producer then do
        let pair ← adoptOrCreateSignatureProviderKey env config c.params .BLS label
        .ok (some pair)
      else .ok none
    let c ← c.addPrivateKey [wire.privateKey, wireFinalizer.bind KeyPair.privateKey]
    .ok (c.setOperator ⟨label, label, none, env.lib.operatorType type, wire, wireFinalizer,
      some ethereum, some solana⟩)

/-- Record the account that the chain created for an operator. -/
def runSponsoredAccountCreation (c : Create) (label : Text) : Except KeyError Create := do
  let operator ← c.keyStore.assertOperator label
  .ok (c.setOperator { operator with account := some (env.account label) })

/-! ### Publishing -/

/-- The private key of an identity's curve. -/
def identityPrivateKey (identity : OperatorAccount) (t : KeyType) (label : Text) :
    Except KeyError (Option Text) :=
  match t with
  | .K1 => .ok identity.wire.privateKey
  | .BLS =>
      match identity.wireFinalizer with
      | none => .error (.missingKey label (text "wireFinalizer"))
      | some pair => .ok pair.privateKey
  | .EM =>
      match identity.ethereum with
      | none => .error (.missingKey label (text "ethereum"))
      | some pair => .ok pair.privateKey
  | .ED =>
      match identity.solana with
      | none => .error (.missingKey label (text "solana"))
      | some pair => .ok pair.privateKey

/-- An existing parameter is kept when it holds this create's key, and refused otherwise. -/
def assertPublishedKeyMatches (publication : SignatureProviderKeyPublication)
    (region existing nativePrivateKey : Text) : Except KeyError Unit :=
  match env.lib.privateKeyFromNativeString publication.keyType existing with
  | none => .error (.notAKey publication.secretId region publication.keyType.name)
  | some k =>
      if env.lib.toNativeString k = nativePrivateKey then .ok ()
      else .error (.differentKey publication.secretId region publication.keyType.name
        publication.label)

def PlatformVersionTagKey : Text := text "wire:platform-version"

/-- The native text of the key that a publication publishes. -/
def nativeKey (c : Create) (publication : SignatureProviderKeyPublication) :
    Except KeyError Text := do
  let operator ← c.keyStore.assertOperator publication.label
  if operator.publicationLabel ≠ publication.publicationLabel then
    .error (.recordedElsewhere publication.label publication.publicationLabel
      operator.publicationLabel)
  else do
    let privateKey ← identityPrivateKey operator publication.keyType publication.label
    match privateKey with
    | none => .error .malformedKey
    | some privateKey => env.lib.native privateKey

/-- Publish a key to one region. -/
def publishTo (c : Create) (publication : SignatureProviderKeyPublication) (region : Text) :
    Except KeyError Create := do
  let nativePrivateKey ← nativeKey env c publication
  let tags := (publication.version.map fun version => (PlatformVersionTagKey, version)).toList
  let existing ← tryGetParameter c.params region publication.secretId
  match existing with
  | some existing => do
      assertPublishedKeyMatches env publication region existing nativePrivateKey
      .ok c
  | none => do
      let params ← putParameter c.params region publication.secretId nativePrivateKey tags
      .ok { c with params := params }

/-- Publish a key to all its regions, in order. -/
def runPublishSignatureProviderKey (c : Create) (publication : SignatureProviderKeyPublication) :
    Except KeyError Create :=
  publication.awsRegions.foldlM (fun c region => publishTo env c publication region) c

/-! ### The steps of a create -/

inductive CreateStep where
  | resolveWithBiosKeys
  | generateNodeKeys
  | createWallet
  | producerMaterialization (label : Text) (producerNodeIndex : Int) (publicationLabel : Text)
  | identityMaterialization (label : Text) (type : OperatorType)
  | sponsoredAccountCreation (label : Text)
  | publishSignatureProviderKey (publication : SignatureProviderKeyPublication) (region : Text)
deriving DecidableEq

def perform (c : Create) : CreateStep → Except KeyError Create
  | .resolveWithBiosKeys => resolveWithBiosKeys env config c
  | .generateNodeKeys => runGenerateNodeKeys env config c
  | .createWallet => runCreateWallet c
  | .producerMaterialization label producerNodeIndex publicationLabel =>
      runProducerMaterialization env config c label producerNodeIndex publicationLabel
  | .identityMaterialization label type => runIdentityMaterialization env config c label type
  | .sponsoredAccountCreation label => runSponsoredAccountCreation env c label
  | .publishSignatureProviderKey publication region => publishTo env c publication region

/-- Perform steps until one fails: the state they leave, and the failure. -/
def run (steps : List CreateStep) (c : Create) : Create × Option KeyError :=
  Schedules.run (perform env config) steps c

/-- To publish a key to all its regions is to perform the steps for each of them. -/
theorem runPublishSignatureProviderKey_eq_ok {c c' : Create}
    {publication : SignatureProviderKeyPublication} :
    runPublishSignatureProviderKey env c publication = .ok c' ↔
      run env config (publication.awsRegions.map (.publishSignatureProviderKey publication)) c =
        (c', none) := by
  rw [run, Schedules.run_eq_foldlM, List.foldlM_map]
  rfl

end Create

/-- The steps that publish the keys of one phase. -/
def planSignatureProviderKeyPublications (ps : List SignatureProviderKeyPublication)
    (phase : SignatureKeyPublishPhase) : List CreateStep :=
  (ps.filter fun p => p.publishPhase = phase).flatMap fun p =>
    p.awsRegions.map (.publishSignatureProviderKey p)

/-- The steps that materialize the producers. -/
def planProducerIdentityPhase (config : ClusterConfig) : List CreateStep :=
  (producerNodes config).flatMap fun node => node.producers.map fun label =>
    .producerMaterialization label node.index (producerPublicationLabel node label)

/-- The steps that provision the batch operator at an index. -/
def planProvisionOppOperatorPhase (index : ℕ) : List CreateStep :=
  [.identityMaterialization (Constants.batchOperatorLabel index) .batch,
    .sponsoredAccountCreation (Constants.batchOperatorLabel index)]

/-- The step imports keys into the wallet. -/
def CreateStep.imports : CreateStep → Bool
  | .createWallet => true
  | .producerMaterialization _ _ _ => true
  | .identityMaterialization _ _ => true
  | _ => false

/-- The operator that a step provisions. -/
def CreateStep.operator : CreateStep → Option Text
  | .identityMaterialization label _ => some label
  | .sponsoredAccountCreation label => some label
  | _ => none

/-- The provisioning steps of all batch operators, each operator's in their order. -/
structure OperatorSteps (config : ClusterConfig) (steps : List CreateStep) : Prop where
  provisions : ∀ step ∈ steps, ∃ i < config.batchOperatorCount,
    step ∈ planProvisionOppOperatorPhase i
  inOrder : ∀ i < config.batchOperatorCount,
    (steps.filter fun step => step.operator = some (Constants.batchOperatorLabel i)) =
      planProvisionOppOperatorPhase i

/-- The steps of a create, the operators' in the order they are taken. -/
def compose (config : ClusterConfig) (operators : List CreateStep) :
    Except KeyToolError (List CreateStep) := do
  let ps ←
    if config.signatureProvider = .SSM then signatureProviderKeyPublications config else .ok []
  .ok ([.resolveWithBiosKeys, .generateNodeKeys, .createWallet] ++
    planProducerIdentityPhase config ++
    planSignatureProviderKeyPublications ps .beforeNodes ++ operators ++
    planSignatureProviderKeyPublications ps .afterOperators)

end KeySteps

end WireTools

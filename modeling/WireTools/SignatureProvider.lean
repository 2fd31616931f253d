import WireTools.JsonPrint

/-! # Signature providers and secret ids

A cluster's signing keys are held in clear, by kiod, or as AWS SSM parameters.  Under SSM
every key has a secret id, rendered from the config's pattern by `toSecretId`; the daemons'
specs, the publications and the persisted key file all render through
`signatureProviderSource`. -/

namespace WireTools

inductive KeyType where
  | K1
  | BLS
  | EM
  | ED
  deriving DecidableEq

/-- The name of a key type, the `{keyType}` value. -/
def KeyType.name : KeyType → Text
  | .K1 => text "K1"
  | .BLS => text "BLS"
  | .EM => text "EM"
  | .ED => text "ED"

inductive SignatureProviderType where
  | KEY
  | SSM
  | KIOD
  deriving DecidableEq

/-- The SSM settings of a signature provider. -/
structure SSMSettings where
  awsSecretIdPattern : Text
  version : Option Text
  awsRegions : Option (List Text)

/-- A cluster's AWS account and the regions its parameters are replicated to. -/
structure AWSClusterNodeConfig where
  account : Text
  regions : List Text

/-- What the key tools read of a cluster config. -/
structure ClusterConfig where
  producerCount : ℕ
  batchOperatorCount : ℕ
  underwriterCount : ℕ
  /-- The numbers of nodes the binding has ports for. -/
  producerNodeCount : ℕ
  batchNodeCount : ℕ
  underwriterNodeCount : ℕ
  apiNodeCount : ℕ
  signatureProvider : SignatureProviderType
  ssm : Option SSMSettings
  awsClusterNodeConfig : Option AWSClusterNodeConfig

/-- Why the key tools fail. -/
inductive KeyToolError where
  | unfilledPlaceholder (key pattern : Text)
  | awsAccountMissing
  | ssmSettingsMissing
  | publicationSettingsMissing
  | replicationSettingsMissing
  | publicationsCollide (secretIds : List Text)
  | nodeNotPlanned (index : Int)
  | accountMissing (label : Text)
  | operatorNotProvisioned (label : Text)

namespace KeyToolError

/-- An integer as it stands in a message. -/
def integer (i : Int) : Text :=
  (Decimal.ofInt i).print

/-- The text of an error. -/
def message : KeyToolError → Text
  | unfilledPlaceholder key pattern =>
      text "toSecretId: unknown or unfilled placeholder \x7b" ++ key ++
        text "\x7d in pattern \"" ++ pattern ++ text "\""
  | awsAccountMissing =>
      text "ClusterConfigProvider: an SSM signature provider requires awsClusterNodeConfig (the secret-id \x7bcluster\x7d source)"
  | ssmSettingsMissing =>
      text "Cannot read properties of undefined (reading 'awsSecretIdPattern')"
  | publicationSettingsMissing => text "KeySteps: SSM signature provider requires ssm settings"
  | replicationSettingsMissing =>
      text "KeySteps: SSM signature provider requires awsClusterNodeConfig (the secret-id \x7bcluster\x7d source + the replication regions)"
  | publicationsCollide secretIds =>
      text "KeySteps: signature-provider publications collide on " ++ join (text ", ") secretIds
  | nodeNotPlanned index =>
      text "ClusterState.captureKeys: no producer node planned at index " ++ integer index
  | accountMissing label =>
      text "ClusterState.captureKeys: operator " ++ label ++
        text " has no account — its sponsored-creation step did not run"
  | operatorNotProvisioned label =>
      text "ClusterKeyStore: operator \"" ++ label ++
        text "\" has not been provisioned (no materialize step ran for it)"

end KeyToolError

namespace ClusterConfigProvider

/-! ### Rendering a secret id -/

/-- The placeholder values of a secret id. -/
structure SecretIdSubstitutions where
  cluster : Text
  account : Text
  keyType : Text
  version : Option Text

/-- What the source's objects answer for a member they inherit, as it is rendered. -/
def inherited (key : Text) : Option Text :=
  if key = text "__proto__" then some (text "[object Object]")
  else if key = text "constructor" then some (text "function Object() \x7b [native code] \x7d")
  else if [text "hasOwnProperty", text "isPrototypeOf", text "propertyIsEnumerable",
      text "toLocaleString", text "toString", text "valueOf", text "__defineGetter__",
      text "__defineSetter__", text "__lookupGetter__", text "__lookupSetter__"].contains key then
    some (text "function " ++ key ++ text "() \x7b [native code] \x7d")
  else none

/-- The value of a placeholder, none when it is unknown or unfilled. -/
def SecretIdSubstitutions.value (s : SecretIdSubstitutions) (key : Text) : Option Text :=
  if key = text "cluster" then some s.cluster
  else if key = text "account" then some s.account
  else if key = text "keyType" then some s.keyType
  else if key = text "version" then s.version
  else inherited key

/-- The name of the placeholder whose opening brace stands before `t`. -/
def placeholder (t : Text) : Option Text :=
  let key := t.takeWhile isWord
  if key ≠ [] ∧ (t.dropWhile isWord).head? = some 125 then some key else none

/-- Replace every placeholder, from left to right.  The first argument counts the units of a
placeholder that is already replaced. -/
def render (pattern : Text) (s : SecretIdSubstitutions) : ℕ → Text → Except KeyToolError Text
  | _, [] => .ok []
  | skip + 1, _ :: t => render pattern s skip t
  | 0, c :: t =>
    match if c = 123 then placeholder t else none with
    | none => do
        let rest ← render pattern s 0 t
        .ok (c :: rest)
    | some key =>
        match s.value key with
        | none => .error (.unfilledPlaceholder key pattern)
        | some value => do
            let rest ← render pattern s (key.length + 1) t
            .ok (value ++ rest)

def toSecretId (pattern : Text) (s : SecretIdSubstitutions) : Except KeyToolError Text :=
  render pattern s 0 pattern

/-- The SSM secret id that `account`'s `keyType` key is rendered under. -/
def ssmSecretId (config : ClusterConfig) (account : Text) (keyType : KeyType) :
    Except KeyToolError Text :=
  match config.ssm, config.awsClusterNodeConfig with
  | none, _ => .error .ssmSettingsMissing
  | _, none => .error .awsAccountMissing
  | some ssm, some aws =>
      toSecretId ssm.awsSecretIdPattern ⟨aws.account, account, keyType.name, ssm.version⟩

end ClusterConfigProvider

end WireTools

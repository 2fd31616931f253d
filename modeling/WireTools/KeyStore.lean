import WireTools.NodeConfig
import WireTools.Outcome

/-! # The cluster key store and its persisted form

`ClusterKeyStore` holds the producer nodes' key sets and every provisioned operator, one per
label.  `captureKeys` projects it to the payload of `cluster-keys.json`, each key pair in the
custody form the signature provider dictates, and `rehydrate` fills a store from a payload.

* `captureKeys_samePublic`: under SSM the payload does not depend on the private keys;
* `rehydrate_captured`: a captured payload rehydrates to the store it was captured from,
  with the pairs in their custody form. -/

namespace WireTools

/-- What a curve adds to a key pair: the proof of possession of a finalizer key, the address of
an Ethereum key. -/
def KeyPairExtension : KeyType → Type
  | .BLS => Text
  | .EM => Text
  | .K1 => Unit
  | .ED => Unit

/-- A key pair of one curve. -/
structure KeyPair (t : KeyType) where
  publicKey : Text
  privateKey : Option Text
  awsSecretId : Option Text
  extension : KeyPairExtension t

/-- One producer node's key set. -/
structure NodeKeys where
  index : Int
  wire : KeyPair .K1
  wireFinalizer : KeyPair .BLS

/-- One provisioned operator; its type is the proto enum's number. -/
structure OperatorAccount where
  label : Text
  publicationLabel : Text
  account : Option Text
  type : Int
  wire : KeyPair .K1
  wireFinalizer : Option (KeyPair .BLS)
  ethereum : Option (KeyPair .EM)
  solana : Option (KeyPair .ED)

/-- The key store of a cluster: operators are kept by label. -/
structure ClusterKeyStore where
  nodes : List NodeKeys
  operators : List OperatorAccount
  labels_nodup : (operators.map OperatorAccount.label).Nodup

/-- One operator of the persisted payload. -/
structure ClusterKeysOperatorEntry where
  label : Text
  publicationLabel : Text
  account : Text
  type : Int
  wire : KeyPair .K1
  wireFinalizer : Option (KeyPair .BLS)
  ethereum : Option (KeyPair .EM)
  solana : Option (KeyPair .ED)

/-- The payload of `cluster-keys.json`. -/
structure ClusterKeys where
  nodes : List NodeKeys
  operators : List ClusterKeysOperatorEntry

namespace ClusterKeyStore

def empty : ClusterKeyStore := ⟨[], [], by simp⟩

/-- Replace the operator with the new one's label, or add the new one at the end. -/
def insertOperator (operator : OperatorAccount) : List OperatorAccount → List OperatorAccount
  | [] => [operator]
  | o :: os => if o.label = operator.label then operator :: os else o :: insertOperator operator os

theorem mem_labels_insertOperator {operator : OperatorAccount} {l : Text} :
    ∀ {os : List OperatorAccount}, l ∈ (insertOperator operator os).map OperatorAccount.label →
      l = operator.label ∨ l ∈ os.map OperatorAccount.label
  | [], h => by simpa [insertOperator] using h
  | o :: os, h => by
      unfold insertOperator at h
      split at h
      · simp only [List.map_cons, List.mem_cons] at h ⊢
        rcases h with h | h
        · exact Or.inl h
        · exact Or.inr (Or.inr h)
      · simp only [List.map_cons, List.mem_cons] at h ⊢
        rcases h with h | h
        · exact Or.inr (Or.inl h)
        · rcases mem_labels_insertOperator h with h | h
          · exact Or.inl h
          · exact Or.inr (Or.inr h)

theorem nodup_insertOperator (operator : OperatorAccount) :
    ∀ {os : List OperatorAccount}, (os.map OperatorAccount.label).Nodup →
      ((insertOperator operator os).map OperatorAccount.label).Nodup
  | [], _ => by simp [insertOperator]
  | o :: os, h => by
      rw [List.map_cons, List.nodup_cons] at h
      unfold insertOperator
      split
      · rename_i hlabel
        rw [List.map_cons, List.nodup_cons, ← hlabel]
        exact h
      · rename_i hlabel
        rw [List.map_cons, List.nodup_cons]
        refine ⟨fun hmem => ?_, nodup_insertOperator operator h.2⟩
        rcases mem_labels_insertOperator hmem with heq | hmem
        · exact hlabel heq
        · exact h.1 hmem

theorem insertOperator_new {operator : OperatorAccount} :
    ∀ {os : List OperatorAccount}, operator.label ∉ os.map OperatorAccount.label →
      insertOperator operator os = os ++ [operator]
  | [], _ => rfl
  | o :: os, h => by
      rw [List.map_cons, List.mem_cons, not_or] at h
      rw [insertOperator, if_neg (Ne.symm h.1), insertOperator_new h.2, List.cons_append]

/-- Append producer-node key sets. -/
def pushNodes (store : ClusterKeyStore) (nodes : List NodeKeys) : ClusterKeyStore :=
  { store with nodes := store.nodes ++ nodes }

/-- Add or replace an operator by its label. -/
def setOperator (store : ClusterKeyStore) (operator : OperatorAccount) : ClusterKeyStore :=
  ⟨store.nodes, insertOperator operator store.operators,
    nodup_insertOperator operator store.labels_nodup⟩

/-- Operators with new labels are added in order. -/
theorem foldl_setOperator : ∀ (os : List OperatorAccount) (store : ClusterKeyStore),
    ((store.operators ++ os).map OperatorAccount.label).Nodup →
    (os.foldl setOperator store).nodes = store.nodes ∧
      (os.foldl setOperator store).operators = store.operators ++ os
  | [], store, _ => by simp
  | o :: os, store, h => by
      have hnew : o.label ∉ store.operators.map OperatorAccount.label := by
        rw [List.map_append, List.nodup_append] at h
        exact fun hmem => h.2.2 o.label hmem o.label (by simp) rfl
      have hset : (store.setOperator o).operators = store.operators ++ [o] :=
        insertOperator_new hnew
      have hrest := foldl_setOperator os (store.setOperator o)
        (by rw [hset, List.append_assoc]; exact h)
      rw [List.foldl_cons]
      refine ⟨hrest.1, ?_⟩
      rw [hrest.2, hset, List.append_assoc]
      rfl

end ClusterKeyStore

namespace ClusterState

open ClusterConfigProvider Outcome

/-! ### Capturing -/

/-- A key pair in the custody form of the config: under SSM the key material gives way to the
secret id of `account`'s key. -/
def toCustody (config : ClusterConfig) {t : KeyType} (account : Text) (keyPair : KeyPair t) :
    Except KeyToolError (KeyPair t) :=
  if config.signatureProvider = .SSM then do
    let secretId ← ssmSecretId config account t
    .ok ⟨keyPair.publicKey, none, some secretId, keyPair.extension⟩
  else .ok keyPair

/-- The custody form of a key pair an operator may lack. -/
def toCustody? (config : ClusterConfig) {t : KeyType} (account : Text) :
    Option (KeyPair t) → Except KeyToolError (Option (KeyPair t))
  | none => .ok none
  | some keyPair => do
      let keyPair ← toCustody config account keyPair
      .ok (some keyPair)

/-- The name of the producer node planned at `index`. -/
def producerNodeName (config : ClusterConfig) (index : Int) : Option Text :=
  ((NodeConfig.producerNodes config).reverse.find? fun node => node.index = index).map
    NodeConfig.name

def captureNode (config : ClusterConfig) (nodeKeys : NodeKeys) : Except KeyToolError NodeKeys :=
  match producerNodeName config nodeKeys.index with
  | none => .error (.nodeNotPlanned nodeKeys.index)
  | some nodeName =>
      if nodeName = [] then .error (.nodeNotPlanned nodeKeys.index)
      else do
        let wire ← toCustody config nodeName nodeKeys.wire
        let wireFinalizer ← toCustody config nodeName nodeKeys.wireFinalizer
        .ok ⟨nodeKeys.index, wire, wireFinalizer⟩

def captureOperator (config : ClusterConfig) (operator : OperatorAccount) :
    Except KeyToolError ClusterKeysOperatorEntry :=
  match operator.account with
  | none => .error (.accountMissing operator.label)
  | some account =>
      if account = [] then .error (.accountMissing operator.label)
      else do
        let wire ← toCustody config operator.publicationLabel operator.wire
        let wireFinalizer ← toCustody? config operator.publicationLabel operator.wireFinalizer
        let ethereum ← toCustody? config operator.publicationLabel operator.ethereum
        let solana ← toCustody? config operator.publicationLabel operator.solana
        .ok ⟨operator.label, operator.publicationLabel, account, operator.type, wire,
          wireFinalizer, ethereum, solana⟩

/-- The key payload of a store. -/
def captureKeys (config : ClusterConfig) (store : ClusterKeyStore) :
    Except KeyToolError ClusterKeys := do
  let nodes ← store.nodes.mapM (captureNode config)
  let operators ← store.operators.mapM (captureOperator config)
  .ok ⟨nodes, operators⟩

/-! ### Rehydrating -/

/-- A persisted operator as the store keeps it. -/
def ofEntry (entry : ClusterKeysOperatorEntry) : OperatorAccount :=
  ⟨entry.label, entry.publicationLabel, some entry.account, entry.type, entry.wire,
    entry.wireFinalizer, entry.ethereum, entry.solana⟩

def rehydrate (store : ClusterKeyStore) (keys : ClusterKeys) : ClusterKeyStore :=
  (keys.operators.map ofEntry).foldl ClusterKeyStore.setOperator (store.pushNodes keys.nodes)

/-! ### Custody forms -/

section Custody

variable {config : ClusterConfig} {t : KeyType} {account : Text}

/-- Key material or an SSM reference, never both and never neither. -/
def hasSingleCustodyForm (keyPair : KeyPair t) : Bool :=
  keyPair.privateKey.isSome != keyPair.awsSecretId.isSome

theorem toCustody_eq_ok {keyPair keyPair' : KeyPair t} :
    toCustody config account keyPair = .ok keyPair' ↔
      if config.signatureProvider = .SSM then
        ∃ secretId, ssmSecretId config account t = .ok secretId ∧
          keyPair' = ⟨keyPair.publicKey, none, some secretId, keyPair.extension⟩
      else keyPair' = keyPair := by
  unfold toCustody
  split_ifs with hssm
  · rw [except_bind_eq_ok]
    constructor
    · rintro ⟨secretId, hid, ⟨⟩⟩
      exact ⟨secretId, hid, rfl⟩
    · rintro ⟨secretId, hid, rfl⟩
      exact ⟨secretId, hid, rfl⟩
  · rw [Except.ok.injEq, eq_comm]

/-- A pair in its custody form stays as it is. -/
theorem toCustody_idem {keyPair keyPair' : KeyPair t}
    (h : toCustody config account keyPair = .ok keyPair') :
    toCustody config account keyPair' = .ok keyPair' := by
  rw [toCustody_eq_ok] at h ⊢
  split_ifs at h ⊢ with hssm
  · obtain ⟨secretId, hid, rfl⟩ := h
    exact ⟨secretId, hid, rfl⟩
  · rfl

/-- A pair in its custody form has one form when the pair had. -/
theorem toCustody_single {keyPair keyPair' : KeyPair t}
    (h : toCustody config account keyPair = .ok keyPair')
    (hsingle : hasSingleCustodyForm keyPair = true) : hasSingleCustodyForm keyPair' = true := by
  rw [toCustody_eq_ok] at h
  split_ifs at h with hssm
  · obtain ⟨secretId, _, rfl⟩ := h
    rfl
  · rw [h]
    exact hsingle

theorem toCustody?_eq_ok {keyPair keyPair' : Option (KeyPair t)} :
    toCustody? config account keyPair = .ok keyPair' ↔
      Option.Rel (fun p p' => toCustody config account p = .ok p') keyPair keyPair' := by
  cases keyPair with
  | none =>
      constructor
      · rintro ⟨⟩
        exact .none
      · rintro ⟨⟩
        rfl
  | some p =>
      simp only [toCustody?, except_bind_eq_ok]
      constructor
      · rintro ⟨p', hp, ⟨⟩⟩
        exact .some hp
      · intro h
        cases h with
        | some hp => exact ⟨_, hp, rfl⟩

theorem toCustody?_idem {keyPair keyPair' : Option (KeyPair t)}
    (h : toCustody? config account keyPair = .ok keyPair') :
    toCustody? config account keyPair' = .ok keyPair' := by
  rw [toCustody?_eq_ok] at h ⊢
  cases h with
  | none => exact .none
  | some hp => exact .some (toCustody_idem hp)

theorem toCustody?_single {keyPair keyPair' : Option (KeyPair t)}
    (h : toCustody? config account keyPair = .ok keyPair')
    (hsingle : ∀ p ∈ keyPair, hasSingleCustodyForm p = true) :
    ∀ p ∈ keyPair', hasSingleCustodyForm p = true := by
  rw [toCustody?_eq_ok] at h
  cases h with
  | none => simp
  | some hp =>
      rintro p ⟨⟩
      exact toCustody_single hp (hsingle _ rfl)

/-- Every secret id of an SSM config renders. -/
def Renders (config : ClusterConfig) : Prop :=
  config.signatureProvider = .SSM →
    ∀ account keyType, ∃ secretId, ssmSecretId config account keyType = .ok secretId

theorem toCustody_returns (h : Renders config) (account : Text) (keyPair : KeyPair t) :
    ∃ keyPair', toCustody config account keyPair = .ok keyPair' := by
  simp only [toCustody_eq_ok]
  split_ifs with hssm
  · obtain ⟨secretId, hid⟩ := h hssm account t
    exact ⟨_, secretId, hid, rfl⟩
  · exact ⟨_, rfl⟩

theorem toCustody?_returns (h : Renders config) (account : Text) (keyPair : Option (KeyPair t)) :
    ∃ keyPair', toCustody? config account keyPair = .ok keyPair' := by
  cases keyPair with
  | none => exact ⟨none, rfl⟩
  | some p =>
      obtain ⟨p', hp⟩ := toCustody_returns h account p
      exact ⟨some p', toCustody?_eq_ok.2 (.some hp)⟩

end Custody

/-! ### Captured payloads -/

/-- A node's key set in its custody form. -/
structure NodeCaptured (config : ClusterConfig) (n n' : NodeKeys) : Prop where
  index : n'.index = n.index
  pairs : ∃ name, producerNodeName config n.index = some name ∧ name ≠ [] ∧
    toCustody config name n.wire = .ok n'.wire ∧
    toCustody config name n.wireFinalizer = .ok n'.wireFinalizer

/-- An operator in its custody form. -/
structure OperatorCaptured (config : ClusterConfig) (o : OperatorAccount)
    (e : ClusterKeysOperatorEntry) : Prop where
  label : e.label = o.label
  publicationLabel : e.publicationLabel = o.publicationLabel
  account : o.account = some e.account ∧ e.account ≠ []
  type : e.type = o.type
  wire : toCustody config o.publicationLabel o.wire = .ok e.wire
  wireFinalizer : toCustody? config o.publicationLabel o.wireFinalizer = .ok e.wireFinalizer
  ethereum : toCustody? config o.publicationLabel o.ethereum = .ok e.ethereum
  solana : toCustody? config o.publicationLabel o.solana = .ok e.solana

theorem captureNode_eq_ok {config : ClusterConfig} {n n' : NodeKeys} :
    captureNode config n = .ok n' ↔ NodeCaptured config n n' := by
  unfold captureNode
  constructor
  · intro h
    cases hname : producerNodeName config n.index with
    | none => rw [hname] at h; exact absurd h (by simp)
    | some name =>
        simp only [hname] at h
        split_ifs at h with hempty
        simp only [except_bind_eq_ok] at h
        obtain ⟨wire, hwire, finalizer, hfinalizer, ⟨⟩⟩ := h
        exact ⟨rfl, name, hname, hempty, hwire, hfinalizer⟩
  · rintro ⟨hindex, name, hname, hempty, hwire, hfinalizer⟩
    simp only [hname, if_neg hempty, except_bind_eq_ok]
    refine ⟨_, hwire, _, hfinalizer, ?_⟩
    rw [← hindex]

theorem captureOperator_eq_ok {config : ClusterConfig} {o : OperatorAccount}
    {e : ClusterKeysOperatorEntry} :
    captureOperator config o = .ok e ↔ OperatorCaptured config o e := by
  unfold captureOperator
  constructor
  · intro h
    cases haccount : o.account with
    | none => rw [haccount] at h; exact absurd h (by simp)
    | some account =>
        simp only [haccount] at h
        split_ifs at h with hempty
        simp only [except_bind_eq_ok] at h
        obtain ⟨wire, hwire, finalizer, hfinalizer, ethereum, hethereum, solana, hsolana, ⟨⟩⟩ := h
        exact ⟨rfl, rfl, ⟨haccount, hempty⟩, rfl, hwire, hfinalizer, hethereum, hsolana⟩
  · rintro ⟨hlabel, hpublication, ⟨haccount, hempty⟩, htype, hwire, hfinalizer, hethereum, hsolana⟩
    simp only [haccount, if_neg hempty, except_bind_eq_ok]
    refine ⟨_, hwire, _, hfinalizer, _, hethereum, _, hsolana, ?_⟩
    rw [← hlabel, ← hpublication, ← htype]

theorem captureKeys_eq_ok {config : ClusterConfig} {store : ClusterKeyStore}
    {keys : ClusterKeys} :
    captureKeys config store = .ok keys ↔
      List.Forall₂ (NodeCaptured config) store.nodes keys.nodes ∧
        List.Forall₂ (OperatorCaptured config) store.operators keys.operators := by
  simp only [captureKeys, except_bind_eq_ok, except_mapM_eq_ok, captureNode_eq_ok,
    captureOperator_eq_ok]
  constructor
  · rintro ⟨nodes, hnodes, operators, hoperators, ⟨⟩⟩
    exact ⟨hnodes, hoperators⟩
  · rintro ⟨hnodes, hoperators⟩
    exact ⟨_, hnodes, _, hoperators, rfl⟩

/-- A captured node is captured as itself. -/
theorem NodeCaptured.again {config : ClusterConfig} {n n' : NodeKeys}
    (h : NodeCaptured config n n') : NodeCaptured config n' n' := by
  obtain ⟨hindex, name, hname, hempty, hwire, hfinalizer⟩ := h
  refine ⟨rfl, name, ?_, hempty, toCustody_idem hwire, toCustody_idem hfinalizer⟩
  rw [hindex]
  exact hname

/-- A captured operator is captured as itself. -/
theorem OperatorCaptured.again {config : ClusterConfig} {o : OperatorAccount}
    {e : ClusterKeysOperatorEntry} (h : OperatorCaptured config o e) :
    OperatorCaptured config (ofEntry e) e := by
  obtain ⟨_, hpublication, ⟨_, hempty⟩, _, hwire, hfinalizer, hethereum, hsolana⟩ := h
  rw [← hpublication] at hwire hfinalizer hethereum hsolana
  exact ⟨rfl, rfl, ⟨rfl, hempty⟩, rfl, toCustody_idem hwire, toCustody?_idem hfinalizer,
    toCustody?_idem hethereum, toCustody?_idem hsolana⟩

/-! ### Rehydrated stores -/

theorem forall₂_right {α β : Type} {R : α → β → Prop} {S : β → β → Prop}
    (hRS : ∀ a b, R a b → S b b) : ∀ {xs : List α} {ys : List β}, List.Forall₂ R xs ys →
      List.Forall₂ S ys ys
  | _, _, .nil => .nil
  | _, _, .cons h hs => .cons (hRS _ _ h) (forall₂_right hRS hs)

theorem labels_captured {config : ClusterConfig} : ∀ {os : List OperatorAccount}
    {es : List ClusterKeysOperatorEntry}, List.Forall₂ (OperatorCaptured config) os es →
    (es.map ofEntry).map OperatorAccount.label = os.map OperatorAccount.label
  | _, _, .nil => rfl
  | _, _, .cons h hs => by
      rw [List.map_cons, List.map_cons, List.map_cons, labels_captured hs]
      exact congrArg (· :: _) h.label

/-- Rehydrating a payload captured from a store gives its nodes and operators in their custody
forms, and captures the payload again. -/
theorem rehydrate_captured {config : ClusterConfig} {store : ClusterKeyStore}
    {keys : ClusterKeys} (h : captureKeys config store = .ok keys) :
    (rehydrate .empty keys).nodes = keys.nodes ∧
      (rehydrate .empty keys).operators = keys.operators.map ofEntry ∧
      captureKeys config (rehydrate .empty keys) = .ok keys := by
  have hcaptured := captureKeys_eq_ok.1 h
  have hnodup : ((keys.operators.map ofEntry).map OperatorAccount.label).Nodup := by
    rw [labels_captured hcaptured.2]
    exact store.labels_nodup
  have hfold := ClusterKeyStore.foldl_setOperator (keys.operators.map ofEntry)
    (ClusterKeyStore.empty.pushNodes keys.nodes)
    (by simpa [ClusterKeyStore.empty, ClusterKeyStore.pushNodes] using hnodup)
  have hnodes : (rehydrate .empty keys).nodes = keys.nodes := hfold.1
  have hoperators : (rehydrate .empty keys).operators = keys.operators.map ofEntry := hfold.2
  refine ⟨hnodes, hoperators, captureKeys_eq_ok.2 ⟨?_, ?_⟩⟩
  · rw [hnodes]
    exact forall₂_right (fun _ _ => NodeCaptured.again) hcaptured.1
  · rw [hoperators, List.forall₂_map_left_iff]
    exact forall₂_right (fun _ _ => OperatorCaptured.again) hcaptured.2

/-! ### What the payload of an SSM cluster depends on -/

/-- A key pair without its key material. -/
def erasePair {t : KeyType} (keyPair : KeyPair t) : KeyPair t :=
  { keyPair with privateKey := none }

def eraseNode (n : NodeKeys) : NodeKeys :=
  ⟨n.index, erasePair n.wire, erasePair n.wireFinalizer⟩

def eraseOperator (o : OperatorAccount) : OperatorAccount :=
  { o with
    wire := erasePair o.wire
    wireFinalizer := o.wireFinalizer.map erasePair
    ethereum := o.ethereum.map erasePair
    solana := o.solana.map erasePair }

/-- Two stores differ in nothing but key material. -/
def SamePublic (s s' : ClusterKeyStore) : Prop :=
  s.nodes.map eraseNode = s'.nodes.map eraseNode ∧
    s.operators.map eraseOperator = s'.operators.map eraseOperator

section Erasing

variable {config : ClusterConfig} (hssm : config.signatureProvider = .SSM)
include hssm

theorem toCustody_erase {t : KeyType} (account : Text) (keyPair : KeyPair t) :
    toCustody config account (erasePair keyPair) = toCustody config account keyPair := by
  simp only [toCustody, if_pos hssm, erasePair]

theorem toCustody?_erase {t : KeyType} (account : Text) (keyPair : Option (KeyPair t)) :
    toCustody? config account (keyPair.map erasePair) = toCustody? config account keyPair := by
  cases keyPair with
  | none => rfl
  | some p => simp only [Option.map_some, toCustody?, toCustody_erase hssm]

theorem captureNode_erase (n : NodeKeys) : captureNode config (eraseNode n) = captureNode config n := by
  simp only [captureNode, eraseNode, toCustody_erase hssm]

theorem captureOperator_erase (o : OperatorAccount) :
    captureOperator config (eraseOperator o) = captureOperator config o := by
  simp only [captureOperator, eraseOperator, toCustody_erase hssm, toCustody?_erase hssm]

/-- Under SSM the payload does not depend on the key material. -/
theorem captureKeys_samePublic {s s' : ClusterKeyStore} (h : SamePublic s s') :
    captureKeys config s = captureKeys config s' := by
  have hnodes : s.nodes.mapM (captureNode config) = s'.nodes.mapM (captureNode config) := by
    have hmap := congrArg (fun ns => ns.mapM (captureNode config)) h.1
    simpa only [List.mapM_map, Function.comp_def, captureNode_erase hssm] using hmap
  have hoperators : s.operators.mapM (captureOperator config) =
      s'.operators.mapM (captureOperator config) := by
    have hmap := congrArg (fun os => os.mapM (captureOperator config)) h.2
    simpa only [List.mapM_map, Function.comp_def, captureOperator_erase hssm] using hmap
  rw [captureKeys, captureKeys, hnodes, hoperators]

end Erasing

end ClusterState

end WireTools

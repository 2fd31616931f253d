import WireTools.Collections
import WireTools.KeyIdentities

/-! # What a step of a create does

A create adopts or generates one key for each curve and label, its key ring.  `Inv` says what
holds at every step: no parameter of the start is lost, whatever parameters there are hold the
ring's keys, and the key store holds the ring's keys under the labels they are published under.
A step needs what earlier ones provide (`Legit`); it publishes a key where no region can hold
another one (`clear`).

* `adoptOr_eq`: a key that a step adopts or generates is the ring's;
* `Inv.put`: what one step publishes is no other key's parameter;
* `inv_perform`: a step whose needs are met succeeds, keeps `Inv`, and provides. -/

namespace WireTools

namespace ClusterKeyStore

theorem mem_insertOperator {operator o : OperatorAccount} :
    ∀ {os : List OperatorAccount}, o ∈ insertOperator operator os → o = operator ∨ o ∈ os
  | [], h => Or.inl (List.mem_singleton.mp h)
  | other :: os, h => by
      unfold insertOperator at h
      split at h
      · rcases List.mem_cons.mp h with rfl | h
        · exact Or.inl rfl
        · exact Or.inr (List.mem_cons_of_mem _ h)
      · rcases List.mem_cons.mp h with rfl | h
        · exact Or.inr List.mem_cons_self
        · rcases mem_insertOperator h with rfl | h
          · exact Or.inl rfl
          · exact Or.inr (List.mem_cons_of_mem _ h)

theorem self_mem_insertOperator (operator : OperatorAccount) :
    ∀ os : List OperatorAccount, operator ∈ insertOperator operator os
  | [] => List.mem_singleton.mpr rfl
  | other :: os => by
      unfold insertOperator
      split
      · exact List.mem_cons_self
      · exact List.mem_cons_of_mem _ (self_mem_insertOperator operator os)

/-- An operator of the store is there after an insertion, or one with its label is. -/
theorem label_mem_insertOperator (operator : OperatorAccount) {o : OperatorAccount} :
    ∀ {os : List OperatorAccount}, o ∈ os → ∃ o' ∈ insertOperator operator os, o'.label = o.label
  | other :: os, h => by
      unfold insertOperator
      split
      · next hlabel =>
          rcases List.mem_cons.mp h with rfl | h
          · exact ⟨operator, List.mem_cons_self, hlabel.symm⟩
          · exact ⟨o, List.mem_cons_of_mem _ h, rfl⟩
      · rcases List.mem_cons.mp h with rfl | h
        · exact ⟨o, List.mem_cons_self, rfl⟩
        · obtain ⟨o', ho', hlabel⟩ := label_mem_insertOperator operator h
          exact ⟨o', List.mem_cons_of_mem _ ho', hlabel⟩

/-- An operator with the label is found. -/
theorem operator_eq {store : ClusterKeyStore} {label : Text}
    (h : ∃ o ∈ store.operators, o.label = label) :
    ∃ o ∈ store.operators, o.label = label ∧ store.operator label = some o := by
  obtain ⟨o, ho, hlabel⟩ := h
  unfold operator
  cases hfind : store.operators.find? fun o => o.label = label with
  | none =>
      rw [List.find?_eq_none] at hfind
      exact absurd (decide_eq_true hlabel) (hfind o ho)
  | some found =>
      exact ⟨found, List.mem_of_find?_eq_some hfind, by simpa using List.find?_some hfind, rfl⟩

end ClusterKeyStore

namespace KeySteps

open NodeConfig ClusterConfigProvider SSMClientProvider KeyLabel
open NodeTopology (OperatorType)

/-! ### Key rings -/

/-- One key for each curve and label. -/
abbrev KeyRing (lib : SigningLibrary) := (t : KeyType) → KeyLabel → lib.Key t

variable {env : Surroundings} {config : ClusterConfig} {ssm : SSMSettings}
  {aws : AWSClusterNodeConfig} {clear : KeyType → KeyLabel → Prop} {params₀ : ParameterStore}
  {ring : KeyRing env.lib} {c : Create}

/-- The pair of an identity's curve, none when it has no such curve. -/
def pairFor (config : ClusterConfig) (ring : KeyRing env.lib) (l : KeyLabel) (t : KeyType) :
    Option (KeyPair t) :=
  if t ∈ l.curves then some (env.lib.keyPair (ring t (l.source config t))) else none

/-- The record of an identity, with the ring's keys. -/
structure Recorded (config : ClusterConfig) (ring : KeyRing env.lib) (l : KeyLabel)
    (o : OperatorAccount) : Prop where
  owns : Owns config l
  label : o.label = l.word
  publicationLabel : o.publicationLabel = (l.publication config).word
  wire : o.wire = env.lib.keyPair (ring .K1 (l.source config .K1))
  wireFinalizer : o.wireFinalizer = pairFor config ring l .BLS
  ethereum : o.ethereum = pairFor config ring l .EM
  solana : o.solana = pairFor config ring l .ED

/-- The key set of the node at `k`, with the ring's keys. -/
def nodeKeys (ring : KeyRing env.lib) (k : ℕ) : NodeKeys :=
  ⟨k, env.lib.keyPair (ring .K1 (.node k)), env.lib.keyPair (ring .BLS (.node k))⟩

/-- The K1 and BLS keys of different labels differ. -/
def Distinct {lib : SigningLibrary} (config : ClusterConfig) (keys : KeyRing lib) : Prop :=
  ∀ t l m, t = .K1 ∨ t = .BLS → Adopts config t l → Adopts config t m → keys t l = keys t m →
    l = m

/-- A create's ring at its start: what the parameters hold, else what is generated. -/
structure Begins (env : Surroundings) (config : ClusterConfig) (ssm : SSMSettings)
    (aws : AWSClusterNodeConfig) (clear : KeyType → KeyLabel → Prop) (params₀ : ParameterStore)
    (ring : KeyRing env.lib) : Prop where
  holds : ∀ t l, Adopts config t l →
    Holds params₀ aws.regions (keyId ssm aws l t) (env.lib.toNativeString (ring t l))
  fresh : ∀ t l, Adopts config t l → Absent params₀ aws.regions (keyId ssm aws l t) →
    ring t l = env.generate t l.word
  distinct : Distinct config ring
  /-- No region holds another key than the one that will be published there. -/
  safe : ∀ t l, clear t l → Owns config l → t ∈ l.curves →
    Holds params₀ aws.regions (keyId ssm aws (l.publication config) t)
      (env.lib.toNativeString (ring t (l.source config t)))

/-- What holds at every step of a create. -/
structure Inv (env : Surroundings) (config : ClusterConfig) (ssm : SSMSettings)
    (aws : AWSClusterNodeConfig) (clear : KeyType → KeyLabel → Prop) (params₀ : ParameterStore)
    (ring : KeyRing env.lib) (c : Create) : Prop where
  kept : Kept params₀ c.params
  holds : ∀ t l, Adopts config t l →
    Holds c.params aws.regions (keyId ssm aws l t) (env.lib.toNativeString (ring t l))
  safe : ∀ t l, clear t l → Owns config l → t ∈ l.curves →
    Holds c.params aws.regions (keyId ssm aws (l.publication config) t)
      (env.lib.toNativeString (ring t (l.source config t)))
  nodes : ∀ n ∈ c.keyStore.nodes, ∃ k < config.producerNodeCount, n = nodeKeys ring k
  operators : ∀ o ∈ c.keyStore.operators, ∃ l, Recorded config ring l o

theorem Begins.inv (h : Begins env config ssm aws clear params₀ ring) :
    Inv env config ssm aws clear params₀ ring (.start params₀) :=
  ⟨Kept.refl _, h.holds, h.safe, by simp [Create.start, ClusterKeyStore.empty],
    by simp [Create.start, ClusterKeyStore.empty]⟩

/-! ### Adopting -/

section Adopting

variable (hr : Resolved config ssm aws) (hb : Begins env config ssm aws clear params₀ ring)
  (h : Inv env config ssm aws clear params₀ ring c)
include hb h

/-- A key that a create adopts or generates is its ring's. -/
theorem adoptOr_eq {l : KeyLabel} {t : KeyType} (ha : Adopts config t l) :
    adoptOr env c.params aws.regions (keyId ssm aws l t) t l.word =
      .ok (env.lib.keyPair (ring t l)) := by
  unfold adoptOr
  rcases getParameterAcrossRegions_holds (h.holds t l ha) with ⟨habsent, hget⟩ | ⟨-, hget⟩
  · rw [hget, hb.fresh t l ha (h.kept.absent habsent)]
    rfl
  · rw [hget]
    exact env.lib.keyPairFromPrivate_native (ring t l)

include hr

theorem adoptOrCreateSignatureProviderKey_eq {l : KeyLabel} {t : KeyType}
    (ha : Adopts config t l) :
    adoptOrCreateSignatureProviderKey env config c.params t l.word =
      .ok (env.lib.keyPair (ring t l)) := by
  unfold adoptOrCreateSignatureProviderKey signatureProviderSecretId
  rw [if_neg (not_not.mpr hr.custody), hr.ssmSecretId_eq l t, hr.replicationRegions_eq]
  exact adoptOr_eq hb h ha

theorem adoptOrCreateKey_eq {l : KeyLabel} {t : KeyType} (ha : Adopts config t l) :
    adoptOrCreateKey env config c.params t l.word = .ok (env.lib.keyPair (ring t l)) := by
  have hregions : config.ssm.bind SSMSettings.awsRegions = some aws.regions := by
    rw [hr.settings]
    exact hr.regions
  unfold adoptOrCreateKey
  rw [hr.ssmSecretId_eq l t, hregions]
  exact adoptOr_eq hb h ha

end Adopting

/-! ### What steps need and provide -/

/-- Something that a step of a create reads. -/
inductive Need where
  | nodeKeys
  | record (l : KeyLabel)
  | imported (t : KeyType) (l : KeyLabel)
  | published (t : KeyType) (l : KeyLabel) (region : Text)

/-- What it is to have it. -/
def Need.Met (env : Surroundings) (config : ClusterConfig) (ssm : SSMSettings)
    (aws : AWSClusterNodeConfig) (ring : KeyRing env.lib) (c : Create) : Need → Prop
  | nodeKeys => ∀ k < config.producerNodeCount, KeySteps.nodeKeys ring k ∈ c.keyStore.nodes
  | record l => ∃ o ∈ c.keyStore.operators, o.label = l.word
  | imported t l => env.lib.toString (ring t l) ∈ c.wallet
  | published t l region => Reads c.params region (keyId ssm aws (l.publication config) t)
      (env.lib.toNativeString (ring t (l.source config t)))

/-- A step of a create, with what it needs and provides. -/
inductive Legit (config : ClusterConfig) (ssm : SSMSettings) (aws : AWSClusterNodeConfig)
    (clear : KeyType → KeyLabel → Prop) :
    List Need → CreateStep → List Need → Prop where
  | resolveWithBiosKeys :
      Legit config ssm aws clear [] .resolveWithBiosKeys [.record .bios, .record .owner]
  | generateNodeKeys : Legit config ssm aws clear [] .generateNodeKeys [.nodeKeys]
  | createWallet :
      Legit config ssm aws clear [.record .bios, .record .owner, .nodeKeys] .createWallet
        ([.imported .K1 .bios, .imported .BLS .bios, .imported .K1 .owner] ++
          (List.range config.producerNodeCount).flatMap fun k =>
            [.imported .K1 (.node k), .imported .BLS (.node k)])
  | producerMaterialization {i : ℕ} (h : Owns config (.producer i)) :
      Legit config ssm aws clear [.nodeKeys]
        (.producerMaterialization (producerName i) (hostIndex config i)
          ((KeyLabel.producer i).publication config).word)
        (.record (.producer i) ::
          if Alone config i then [] else [.imported .BLS (.producer i)])
  | identityMaterialization {i : ℕ} (h : i < config.batchOperatorCount) :
      Legit config ssm aws clear []
        (.identityMaterialization (Constants.batchOperatorLabel i) .batch)
        [.record (.batchOperator i), .imported .K1 (.batchOperator i)]
  | sponsoredAccountCreation {i : ℕ} (h : i < config.batchOperatorCount) :
      Legit config ssm aws clear [.record (.batchOperator i)]
        (.sponsoredAccountCreation (Constants.batchOperatorLabel i)) []
  | publish {l : KeyLabel} {t : KeyType} {region : Text} (hclear : clear t l)
      (hl : Owns config l) (ht : t ∈ l.curves) (hregion : region ∈ aws.regions) :
      Legit config ssm aws clear [.record l]
        (.publishSignatureProviderKey (keyPublication config ssm aws l t) region)
        [.published t l region]

/-- The keys that the wallet is created with. -/
def walletNeeds (config : ClusterConfig) : List Need :=
  [.imported .K1 .bios, .imported .BLS .bios, .imported .K1 .owner] ++
    (List.range config.producerNodeCount).flatMap fun k =>
      [.imported .K1 (.node k), .imported .BLS (.node k)]

theorem imported_of_mem_walletNeeds {need : Need} (h : need ∈ walletNeeds config) :
    ∃ t l, need = .imported t l := by
  rcases List.mem_append.mp h with h | h
  · simp only [List.mem_cons, List.not_mem_nil, or_false] at h
    rcases h with rfl | rfl | rfl <;> exact ⟨_, _, rfl⟩
  · obtain ⟨k, -, h⟩ := List.mem_flatMap.mp h
    simp only [List.mem_cons, List.not_mem_nil, or_false] at h
    rcases h with rfl | rfl <;> exact ⟨_, _, rfl⟩

theorem node_mem_walletNeeds {t : KeyType} {k : ℕ} (hk : k < config.producerNodeCount)
    (ht : t = .K1 ∨ t = .BLS) : .imported t (.node k) ∈ walletNeeds config := by
  refine List.mem_append_right _ (List.mem_flatMap.mpr ⟨k, List.mem_range.mpr hk, ?_⟩)
  rcases ht with rfl | rfl
  · exact List.mem_cons_self
  · exact List.mem_cons_of_mem _ List.mem_cons_self

/-! ### What a change of the key store or the wallet keeps -/

section Changes

theorem Inv.setOperator (h : Inv env config ssm aws clear params₀ ring c) {l : KeyLabel}
    {o : OperatorAccount} (ho : Recorded config ring l o) :
    Inv env config ssm aws clear params₀ ring (c.setOperator o) := by
  refine ⟨h.kept, h.holds, h.safe, h.nodes, fun x hx => ?_⟩
  rcases ClusterKeyStore.mem_insertOperator hx with rfl | hx
  · exact ⟨l, ho⟩
  · exact h.operators x hx

/-- The create after keys were imported. -/
def Create.imported (c : Create) (privateKeys : List (Option Text)) : Create :=
  { c with wallet := c.wallet ++ importable privateKeys }

/-- Keys that differ, and that the wallet does not hold, are imported. -/
theorem importKeys_eq : ∀ {keys wallet : List Text}, keys.Nodup → (∀ key ∈ keys, key ∉ wallet) →
    keys.foldlM importKey wallet = .ok (wallet ++ keys)
  | [], wallet, _, _ => by
      rw [List.append_nil]
      rfl
  | key :: keys, wallet, hnodup, hnew => by
      obtain ⟨hkey, hkeys⟩ := List.nodup_cons.mp hnodup
      have hfirst : importKey wallet key = .ok (wallet ++ [key]) :=
        if_neg (hnew key List.mem_cons_self)
      have hrest : keys.foldlM importKey (wallet ++ [key]) = .ok (wallet ++ [key] ++ keys) := by
        refine importKeys_eq hkeys fun other hother hmem => ?_
        rcases List.mem_append.mp hmem with hmem | hmem
        · exact hnew other (List.mem_cons_of_mem _ hother) hmem
        · rw [List.mem_singleton.mp hmem] at hother
          exact hkey hother
      rw [List.foldlM_cons, hfirst]
      change keys.foldlM importKey (wallet ++ [key]) = _
      rw [hrest, List.append_assoc, List.singleton_append]

theorem addPrivateKey_eq {privateKeys : List (Option Text)} (hnodup : privateKeys.Nodup)
    (hnew : ∀ key, some key ∈ privateKeys → key ∉ c.wallet) :
    c.addPrivateKey privateKeys = .ok (c.imported privateKeys) := by
  have hkeys : (importable privateKeys).Nodup := by
    refine (List.Nodup.filterMap (fun a b key ha hb => ?_) hnodup).filter _
    exact ha.trans hb.symm
  have hfold := importKeys_eq hkeys fun key hkey => hnew key (by
    obtain ⟨o, ho, rfl⟩ := List.mem_filterMap.mp (List.mem_filter.mp hkey).1
    exact ho)
  unfold Create.addPrivateKey
  rw [hfold]
  rfl

theorem Inv.imported (h : Inv env config ssm aws clear params₀ ring c)
    (privateKeys : List (Option Text)) :
    Inv env config ssm aws clear params₀ ring (c.imported privateKeys) :=
  ⟨h.kept, h.holds, h.safe, h.nodes, h.operators⟩

theorem Need.Met.setOperator {need : Need} (h : need.Met env config ssm aws ring c)
    (o : OperatorAccount) : need.Met env config ssm aws ring (c.setOperator o) := by
  cases need with
  | nodeKeys => exact h
  | record l =>
      obtain ⟨x, hx, hlabel⟩ := h
      obtain ⟨y, hy, hsame⟩ := ClusterKeyStore.label_mem_insertOperator o hx
      exact ⟨y, hy, hsame.trans hlabel⟩
  | imported t l => exact h
  | published t l region => exact h

theorem met_record {l : KeyLabel} {o : OperatorAccount} (h : o.label = l.word) :
    (Need.record l).Met env config ssm aws ring (c.setOperator o) :=
  ⟨o, ClusterKeyStore.self_mem_insertOperator o _, h⟩

theorem Need.Met.imported {need : Need} (h : need.Met env config ssm aws ring c)
    (privateKeys : List (Option Text)) :
    need.Met env config ssm aws ring (c.imported privateKeys) := by
  cases need with
  | nodeKeys => exact h
  | record l => exact h
  | imported t l => exact List.mem_append_left _ h
  | published t l region => exact h

theorem met_imported {t : KeyType} {l : KeyLabel} {privateKeys : List (Option Text)}
    (h : some (env.lib.toString (ring t l)) ∈ privateKeys) :
    (Need.imported t l).Met env config ssm aws ring (c.imported privateKeys) := by
  refine List.mem_append_right _ (List.mem_filter.mpr ⟨?_, ?_⟩)
  · exact List.mem_filterMap.mpr ⟨_, h, rfl⟩
  · exact decide_eq_true (env.lib.toString_ne_nil _)

end Changes

/-! ### One step -/

/-- The wallet holds nothing more than what was provided. -/
def Grown (ring : KeyRing env.lib) (c c' : Create) (provides : List Need) : Prop :=
  ∀ key ∈ c'.wallet, key ∈ c.wallet ∨
    ∃ t l, .imported t l ∈ provides ∧ key = env.lib.toString (ring t l)

theorem Grown.same {c' : Create} (h : c'.wallet = c.wallet) (provides : List Need) :
    Grown ring c c' provides :=
  fun _ hkey => Or.inl (h ▸ hkey)

theorem Grown.imported {privateKeys : List (Option Text)} {provides : List Need}
    (h : ∀ key, some key ∈ privateKeys →
      ∃ t l, .imported t l ∈ provides ∧ key = env.lib.toString (ring t l)) :
    Grown ring c (c.imported privateKeys) provides := by
  intro key hkey
  refine (List.mem_append.mp hkey).imp_right fun hmem => h key ?_
  obtain ⟨o, ho, rfl⟩ := List.mem_filterMap.mp (List.mem_filter.mp hmem).1
  exact ho

/-- Nothing that a step will import is in the wallet. -/
def Unimported (ring : KeyRing env.lib) (c : Create) (provides : List Need) : Prop :=
  ∀ t l, .imported t l ∈ provides → env.lib.toString (ring t l) ∉ c.wallet

/-- A step that succeeds, keeps the invariant and what was met, and provides; it imports what it
provides and nothing else. -/
def Succeeds (env : Surroundings) (config : ClusterConfig) (ssm : SSMSettings)
    (aws : AWSClusterNodeConfig) (clear : KeyType → KeyLabel → Prop) (params₀ : ParameterStore)
    (ring : KeyRing env.lib) (c : Create)
    (step : CreateStep) (provides : List Need) : Prop :=
  ∃ c', perform env config c step = .ok c' ∧ Inv env config ssm aws clear params₀ ring c' ∧
    Grown ring c c' provides ∧
    (∀ need : Need, need.Met env config ssm aws ring c → need.Met env config ssm aws ring c') ∧
    ∀ need ∈ provides, need.Met env config ssm aws ring c'

section Steps

variable (hr : Resolved config ssm aws) (hb : Begins env config ssm aws clear params₀ ring)
  (h : Inv env config ssm aws clear params₀ ring c)
include hr hb h

theorem resolveWithBiosKeys_succeeds :
    Succeeds env config ssm aws clear params₀ ring c .resolveWithBiosKeys
      [.record .bios, .record .owner] := by
  have hwire := adoptOrCreateKey_eq hr hb h (l := .bios) (t := .K1) (Or.inl rfl)
  have hfinalizer := adoptOrCreateKey_eq hr hb h (l := .bios) (t := .BLS) (Or.inr rfl)
  have howner := adoptOrCreateKey_eq hr hb h (l := .owner) (t := .K1) rfl
  have hbios : Recorded config ring .bios ⟨BiosName, BiosName, some BiosProducer,
      env.lib.operatorType (.other (text "UNKNOWN")), env.lib.keyPair (ring .K1 .bios),
      some (env.lib.keyPair (ring .BLS .bios)), none, none⟩ :=
    ⟨True.intro, rfl, rfl, rfl, rfl, rfl, rfl⟩
  have hrecorded : Recorded config ring .owner ⟨Constants.BOOTSTRAP_NODE_OWNER,
      Constants.BOOTSTRAP_NODE_OWNER, some Constants.BOOTSTRAP_NODE_OWNER,
      env.lib.operatorType (.other (text "UNKNOWN")), env.lib.keyPair (ring .K1 .owner), none,
      none, none⟩ :=
    ⟨True.intro, rfl, rfl, rfl, rfl, rfl, rfl⟩
  refine ⟨_, ?_, (h.setOperator hbios).setOperator hrecorded, .same rfl _,
    fun need hneed => (hneed.setOperator _).setOperator _, ?_⟩
  · unfold perform resolveWithBiosKeys
    rw [show BiosName = KeyLabel.bios.word from rfl,
      show Constants.BOOTSTRAP_NODE_OWNER = KeyLabel.owner.word from rfl, hwire, hfinalizer, howner]
    rfl
  · simp only [List.forall_mem_cons, List.not_mem_nil, false_implies, implies_true, and_true]
    exact ⟨(met_record rfl).setOperator _, met_record rfl⟩

theorem generateNodeKeys_succeeds :
    Succeeds env config ssm aws clear params₀ ring c .generateNodeKeys [.nodeKeys] := by
  have hnodes : (producerNodes config).mapM (adoptOrCreateProducerKeySet env config c.params) =
      .ok ((List.range config.producerNodeCount).map (nodeKeys ring)) := by
    rw [producerNodes_eq, Outcome.except_mapM_eq_ok, List.forall₂_map_left_iff,
      List.forall₂_map_right_iff, List.forall₂_same]
    intro k hk
    have hlt := List.mem_range.mp hk
    unfold adoptOrCreateProducerKeySet
    rw [show nodeName k = (KeyLabel.node k).word from rfl,
      adoptOrCreateSignatureProviderKey_eq hr hb h (l := .node k) ⟨hlt, Or.inl rfl⟩,
      adoptOrCreateSignatureProviderKey_eq hr hb h (l := .node k) ⟨hlt, Or.inr rfl⟩]
    rfl
  refine ⟨⟨c.params, c.keyStore.pushNodes
      ((List.range config.producerNodeCount).map (nodeKeys ring)), c.wallet⟩, ?_,
    ⟨h.kept, h.holds, h.safe, fun n hn => ?_, h.operators⟩, .same rfl _,
    fun need hneed => ?_, ?_⟩
  · unfold perform runGenerateNodeKeys
    rw [hnodes]
    rfl
  · rcases List.mem_append.mp hn with hn | hn
    · exact h.nodes n hn
    · obtain ⟨k, hk, rfl⟩ := List.mem_map.mp hn
      exact ⟨k, List.mem_range.mp hk, rfl⟩
  · cases need with
    | nodeKeys => exact fun k hk => List.mem_append_left _ (hneed k hk)
    | record l => exact hneed
    | imported t l => exact hneed
    | published t l region => exact hneed
  · simp only [List.forall_mem_cons, List.not_mem_nil, false_implies, implies_true, and_true]
    exact fun k hk => List.mem_append_right _
      (List.mem_map.mpr ⟨k, List.mem_range.mpr hk, rfl⟩)

omit hb in
/-- The record of an identity is found, with its keys. -/
theorem recorded_eq {l : KeyLabel} (hl : Owns config l)
    (hneed : (Need.record l).Met env config ssm aws ring c) :
    ∃ o, c.keyStore.operator l.word = some o ∧ Recorded config ring l o := by
  obtain ⟨o, ho, hlabel, hfind⟩ := ClusterKeyStore.operator_eq hneed
  obtain ⟨m, hm⟩ := h.operators o ho
  obtain rfl : m = l := hr.word_inj hm.owns.known hl.known (hm.label.symm.trans hlabel)
  exact ⟨o, hfind, hm⟩

omit hb in
/-- The genesis keys are those of the bios node and of the owner. -/
theorem genesisKeys_eq (hbios : (Need.record .bios).Met env config ssm aws ring c)
    (howner : (Need.record .owner).Met env config ssm aws ring c) :
    (([BiosName, Constants.BOOTSTRAP_NODE_OWNER].filterMap c.keyStore.operator).flatMap
      fun identity => [identity.wire.privateKey, identity.wireFinalizer.bind KeyPair.privateKey]) =
      [some (env.lib.toString (ring .K1 .bios)), some (env.lib.toString (ring .BLS .bios)),
        some (env.lib.toString (ring .K1 .owner)), none] := by
  obtain ⟨bios, hfindBios, hbios⟩ := recorded_eq hr h (l := .bios) True.intro hbios
  obtain ⟨owner, hfindOwner, howner⟩ := recorded_eq hr h (l := .owner) True.intro howner
  show ([KeyLabel.bios.word, KeyLabel.owner.word].filterMap c.keyStore.operator).flatMap _ = _
  rw [List.filterMap_cons_some hfindBios, List.filterMap_cons_some hfindOwner, List.filterMap_nil]
  simp [hbios.wire, hbios.wireFinalizer, howner.wire, howner.wireFinalizer, pairFor, curves,
    SigningLibrary.keyPair, KeyLabel.source]

omit hb in
/-- The wallet is created with the keys that it is to provide. -/
theorem mem_walletKeys (hbios : (Need.record .bios).Met env config ssm aws ring c)
    (howner : (Need.record .owner).Met env config ssm aws ring c)
    (hnodes : Need.nodeKeys.Met env config ssm aws ring c) {key : Text} :
    some key ∈ (([BiosName, Constants.BOOTSTRAP_NODE_OWNER].filterMap
        c.keyStore.operator).flatMap fun identity => [identity.wire.privateKey,
          identity.wireFinalizer.bind KeyPair.privateKey]) ++ c.keyStore.nodes.flatMap (fun node =>
            [node.wire.privateKey, node.wireFinalizer.privateKey]) ↔
      ∃ t l, .imported t l ∈ walletNeeds config ∧ key = env.lib.toString (ring t l) := by
  rw [genesisKeys_eq hr h hbios howner, List.mem_append]
  constructor
  · rintro (hkey | hkey)
    · simp only [List.mem_cons, List.not_mem_nil, or_false, Option.some.injEq, reduceCtorEq] at hkey
      rcases hkey with rfl | rfl | rfl
      · exact ⟨.K1, .bios, by simp [walletNeeds], rfl⟩
      · exact ⟨.BLS, .bios, by simp [walletNeeds], rfl⟩
      · exact ⟨.K1, .owner, by simp [walletNeeds], rfl⟩
    · obtain ⟨node, hnode, hkey⟩ := List.mem_flatMap.mp hkey
      obtain ⟨k, hk, rfl⟩ := h.nodes node hnode
      simp only [nodeKeys, SigningLibrary.keyPair, List.mem_cons, Option.some.injEq,
        List.not_mem_nil, or_false] at hkey
      rcases hkey with rfl | rfl
      · exact ⟨.K1, .node k, by simp [walletNeeds, hk], rfl⟩
      · exact ⟨.BLS, .node k, by simp [walletNeeds, hk], rfl⟩
  · rintro ⟨t, l, hneed, rfl⟩
    rcases List.mem_append.mp hneed with hneed | hneed
    · simp only [List.mem_cons, List.not_mem_nil, or_false, Need.imported.injEq] at hneed
      rcases hneed with ⟨rfl, rfl⟩ | ⟨rfl, rfl⟩ | ⟨rfl, rfl⟩ <;> simp
    · obtain ⟨k, hk, hneed⟩ := List.mem_flatMap.mp hneed
      have hnode := hnodes k (List.mem_range.mp hk)
      simp only [List.mem_cons, List.not_mem_nil, or_false, Need.imported.injEq] at hneed
      refine Or.inr (List.mem_flatMap.mpr ⟨_, hnode, ?_⟩)
      rcases hneed with ⟨rfl, rfl⟩ | ⟨rfl, rfl⟩
      · exact List.mem_cons_self
      · exact List.mem_cons_of_mem _ List.mem_cons_self

omit hb in
theorem createWallet_succeeds (hbios : (Need.record .bios).Met env config ssm aws ring c)
    (howner : (Need.record .owner).Met env config ssm aws ring c)
    (hnodes : Need.nodeKeys.Met env config ssm aws ring c)
    (hnew : Unimported ring c (walletNeeds config)) :
    Succeeds env config ssm aws clear params₀ ring c .createWallet (walletNeeds config) := by
  have hkeys : ∀ key, some key ∈ ((([BiosName, Constants.BOOTSTRAP_NODE_OWNER].filterMap
      c.keyStore.operator).flatMap fun identity => [identity.wire.privateKey,
        identity.wireFinalizer.bind KeyPair.privateKey]) ++ c.keyStore.nodes.flatMap fun node =>
          [node.wire.privateKey, node.wireFinalizer.privateKey]).eraseDups ↔
      ∃ t l, .imported t l ∈ walletNeeds config ∧ key = env.lib.toString (ring t l) := fun key =>
    List.mem_eraseDups.trans (mem_walletKeys hr h hbios howner hnodes)
  refine ⟨_, addPrivateKey_eq (uniq_nodup _) ?_, h.imported _,
    .imported fun key => (hkeys key).mp, fun need hneed => hneed.imported _, ?_⟩
  · intro key hkey
    obtain ⟨t, l, hmem, rfl⟩ := (hkeys key).mp hkey
    exact hnew t l hmem
  · intro need hneed
    obtain ⟨t, l, rfl⟩ := imported_of_mem_walletNeeds hneed
    exact met_imported ((hkeys _).mpr ⟨t, l, hneed, rfl⟩)

omit hr hb h in
theorem find?_eq_of_unique {α : Type} {p : α → Bool} {x : α} {xs : List α} (hx : x ∈ xs)
    (hp : p x = true) (hunique : ∀ y ∈ xs, p y = true → y = x) : xs.find? p = some x := by
  cases hfind : xs.find? p with
  | none =>
      rw [List.find?_eq_none] at hfind
      exact absurd hp (hfind x hx)
  | some y => rw [hunique y (List.mem_of_find?_eq_some hfind) (List.find?_some hfind)]

omit hr hb h in
theorem find?_producerNode {k : ℕ} (hk : k < config.producerNodeCount) :
    (plan config).find? (fun node => node.role = .producer ∧ node.index = (k : ℤ)) =
      some ⟨.producer, k, nodeName k, hostedProducers config k, none, none⟩ := by
  have hplanned : ∀ {node : NodeConfig}, node ∈ plan config ∧ node.role = .producer ↔
      node ∈ producerNodes config := by
    intro node
    unfold producerNodes
    rw [List.mem_filter, decide_eq_true_eq]
  apply find?_eq_of_unique
  · exact (hplanned.mpr (mem_producerNodes.mpr ⟨k, hk, rfl⟩)).1
  · simp
  · intro node hnode hp
    simp only [decide_eq_true_eq] at hp
    obtain ⟨j, hj, rfl⟩ := mem_producerNodes.mp (hplanned.mp ⟨hnode, hp.1⟩)
    obtain rfl : j = k := by
      have := hp.2
      simpa using this
    rfl

omit hr hb in
theorem node_eq {k : ℕ} (hk : k < config.producerNodeCount)
    (hnodes : Need.nodeKeys.Met env config ssm aws ring c) :
    c.keyStore.node (k : ℤ) = .ok (nodeKeys ring k) := by
  unfold ClusterKeyStore.node
  rw [find?_eq_of_unique (hnodes k hk)]
  · simp [nodeKeys]
  · intro n hn hp
    obtain ⟨j, -, rfl⟩ := h.nodes n hn
    obtain rfl : j = k := by
      simpa [nodeKeys] using hp
    rfl

omit hr hb h in
/-- A producer's record, with its node's K1 and the pair of its finalizer. -/
theorem recorded_producer {i : ℕ} (hi : Owns config (.producer i)) {finalizer : KeyLabel}
    (hfinalizer : (KeyLabel.producer i).source config .BLS = finalizer) :
    Recorded config ring (.producer i) ⟨producerName i,
      ((KeyLabel.producer i).publication config).word, some (producerName i),
      env.lib.operatorType .producer, (nodeKeys ring (hostIndex config i)).wire,
      some (env.lib.keyPair (ring .BLS finalizer)), none, none⟩ := by
  refine ⟨hi, rfl, rfl, ?_, ?_, rfl, rfl⟩
  · rw [source_node (Or.inl rfl)]
    rfl
  · unfold pairFor
    rw [hfinalizer]
    rfl

theorem producerMaterialization_succeeds {i : ℕ} (hi : Owns config (.producer i))
    (hnodes : Need.nodeKeys.Met env config ssm aws ring c)
    (hnew : Unimported ring c (.record (.producer i) ::
      if Alone config i then [] else [.imported .BLS (.producer i)])) :
    Succeeds env config ssm aws clear params₀ ring c
      (.producerMaterialization (producerName i) (hostIndex config i)
        ((KeyLabel.producer i).publication config).word)
      (.record (.producer i) ::
        if Alone config i then [] else [.imported .BLS (.producer i)]) := by
  have hlt : hostIndex config i < config.producerNodeCount := Nat.mod_lt _ hi.2
  have hlabel := producerPublicationLabel_eq
    (show i % config.producerNodeCount = hostIndex config i from rfl)
  unfold Succeeds
  show ∃ c', runProducerMaterialization env config c (producerName i) (hostIndex config i)
    ((KeyLabel.producer i).publication config).word = .ok c' ∧ _
  unfold runProducerMaterialization
  rw [find?_producerNode hlt]
  dsimp only
  rw [if_neg (not_not.mpr hlabel), node_eq h hlt hnodes]
  by_cases halone : Alone config i
  · have hword : ((KeyLabel.producer i).publication config).word =
        nodeName (hostIndex config i) := by
      rw [publication_alone halone]
      rfl
    refine ⟨_, if_pos hword,
      h.setOperator (recorded_producer hi (source_node (Or.inr halone))), .same rfl _,
      fun need hneed => hneed.setOperator _, ?_⟩
    rw [if_pos halone]
    simp only [List.forall_mem_cons, List.not_mem_nil, false_implies, implies_true, and_true]
    exact met_record rfl
  · have hword : ((KeyLabel.producer i).publication config).word ≠
        nodeName (hostIndex config i) := by
      rw [publication_shared halone]
      exact (nodeName_ne_producerName _ _).symm
    have hadopt := adoptOrCreateSignatureProviderKey_eq hr hb h (l := .producer i) (t := .BLS)
      ⟨rfl, hi.1, hi.2, halone⟩
    have hown : ¬(KeyType.BLS = .K1 ∨ Alone config i) := by
      rintro (hcurve | h')
      · cases hcurve
      · exact halone h'
    have hprovides : Need.imported .BLS (.producer i) ∈ (.record (.producer i) ::
        if Alone config i then [] else [.imported .BLS (.producer i)]) := by
      rw [if_neg halone]
      simp
    have hkeys : ∀ key, some key ∈ [some (env.lib.toString (ring .BLS (.producer i)))] →
        key = env.lib.toString (ring .BLS (.producer i)) :=
      fun key hkey => Option.some.inj (List.mem_singleton.mp hkey)
    have himport : c.addPrivateKey [some (env.lib.toString (ring .BLS (.producer i)))] =
        .ok (c.imported [some (env.lib.toString (ring .BLS (.producer i)))]) :=
      addPrivateKey_eq (List.nodup_singleton _) fun key hkey =>
        hkeys key hkey ▸ hnew _ _ hprovides
    refine ⟨_, (if_neg hword).trans ?_,
      (h.imported [some (env.lib.toString (ring .BLS (.producer i)))]).setOperator
        (recorded_producer hi (source_own hown)),
      .imported fun key hkey => ⟨.BLS, .producer i, hprovides, hkeys key hkey⟩,
      fun need hneed => (hneed.imported _).setOperator _, ?_⟩
    · rw [show producerName i = (KeyLabel.producer i).word from rfl, hadopt]
      show (c.addPrivateKey [some (env.lib.toString (ring .BLS (.producer i)))] >>= _) = _
      rw [himport]
      rfl
    · rw [if_neg halone]
      simp only [List.forall_mem_cons, List.not_mem_nil, false_implies, implies_true, and_true]
      exact ⟨met_record rfl, (met_imported List.mem_cons_self).setOperator _⟩

theorem identityMaterialization_succeeds {i : ℕ} (hi : i < config.batchOperatorCount)
    (hnew : Unimported ring c [.record (.batchOperator i), .imported .K1 (.batchOperator i)]) :
    Succeeds env config ssm aws clear params₀ ring c
      (.identityMaterialization (Constants.batchOperatorLabel i) .batch)
      [.record (.batchOperator i), .imported .K1 (.batchOperator i)] := by
  have hlength : 0 < (Constants.batchOperatorLabel i).length ∧
      (Constants.batchOperatorLabel i).length ≤ 12 := by
    rw [batchOperatorLabel_eq, List.length_append]
    exact ⟨Nat.succ_pos _, show 9 ≤ 12 by decide⟩
  have hadopt : ∀ t ∈ [KeyType.K1, .EM, .ED],
      adoptOrCreateSignatureProviderKey env config c.params t (Constants.batchOperatorLabel i) =
        .ok (env.lib.keyPair (ring t (.batchOperator i))) := fun t ht =>
    adoptOrCreateSignatureProviderKey_eq hr hb h (l := .batchOperator i) ⟨hi, ht⟩
  have hrecorded : Recorded config ring (.batchOperator i) ⟨Constants.batchOperatorLabel i,
      Constants.batchOperatorLabel i, none, env.lib.operatorType .batch,
      env.lib.keyPair (ring .K1 (.batchOperator i)), none,
      some (env.lib.keyPair (ring .EM (.batchOperator i))),
      some (env.lib.keyPair (ring .ED (.batchOperator i)))⟩ :=
    ⟨hi, rfl, rfl, rfl, rfl, rfl, rfl⟩
  have hkeys : ∀ key, some key ∈ [some (env.lib.toString (ring .K1 (.batchOperator i))), none] →
      key = env.lib.toString (ring .K1 (.batchOperator i)) :=
    fun key hkey => by simpa using hkey
  have himport : c.addPrivateKey [some (env.lib.toString (ring .K1 (.batchOperator i))), none] =
      .ok (c.imported [some (env.lib.toString (ring .K1 (.batchOperator i))), none]) :=
    addPrivateKey_eq (by simp) fun key hkey => hkeys key hkey ▸ hnew _ _ (by simp)
  refine ⟨_, ?_,
    (h.imported [some (env.lib.toString (ring .K1 (.batchOperator i))), none]).setOperator
      hrecorded,
    .imported fun key hkey => ⟨.K1, .batchOperator i, by simp, hkeys key hkey⟩,
    fun need hneed => (hneed.imported _).setOperator _, ?_⟩
  · unfold perform runIdentityMaterialization
    dsimp only
    rw [if_neg (not_not.mpr hlength), hadopt .K1 (by simp), hadopt .ED (by simp),
      hadopt .EM (by simp)]
    show (c.addPrivateKey [some (env.lib.toString (ring .K1 (.batchOperator i))), none] >>= _) = _
    rw [himport]
    rfl
  · simp only [List.forall_mem_cons, List.not_mem_nil, false_implies, implies_true, and_true]
    exact ⟨met_record rfl, (met_imported List.mem_cons_self).setOperator _⟩

omit hb in
theorem sponsoredAccountCreation_succeeds {i : ℕ} (hi : i < config.batchOperatorCount)
    (hneed : (Need.record (.batchOperator i)).Met env config ssm aws ring c) :
    Succeeds env config ssm aws clear params₀ ring c
      (.sponsoredAccountCreation (Constants.batchOperatorLabel i)) [] := by
  obtain ⟨o, hfind, ho⟩ := recorded_eq hr h (l := .batchOperator i) hi hneed
  have hrecorded : Recorded config ring (.batchOperator i)
      { o with account := some (env.account (Constants.batchOperatorLabel i)) } :=
    ⟨hi, ho.label, ho.publicationLabel, ho.wire, ho.wireFinalizer, ho.ethereum, ho.solana⟩
  refine ⟨_, ?_, h.setOperator hrecorded, .same rfl _, fun need hneed => hneed.setOperator _,
    by simp⟩
  unfold perform runSponsoredAccountCreation ClusterKeyStore.assertOperator
  dsimp only
  rw [show Constants.batchOperatorLabel i = (KeyLabel.batchOperator i).word from rfl, hfind]
  rfl

omit hb in
/-- The native key of a publication is the ring's. -/
theorem nativeKey_eq {l : KeyLabel} {t : KeyType} (hl : Owns config l) (ht : t ∈ l.curves)
    (hneed : (Need.record l).Met env config ssm aws ring c) :
    nativeKey env c (keyPublication config ssm aws l t) =
      .ok (env.lib.toNativeString (ring t (l.source config t))) := by
  obtain ⟨o, hfind, ho⟩ := recorded_eq hr h hl hneed
  have hpair : ∀ {t : KeyType}, t ∈ l.curves →
      pairFor config ring l t = some (env.lib.keyPair (ring t (l.source config t))) :=
    fun ht => if_pos ht
  have hkey : identityPrivateKey o t l.word =
      .ok (some (env.lib.toString (ring t (l.source config t)))) := by
    cases t with
    | K1 =>
        show Except.ok o.wire.privateKey = _
        rw [ho.wire]
        rfl
    | BLS =>
        unfold identityPrivateKey
        rw [ho.wireFinalizer, hpair ht]
        rfl
    | EM =>
        unfold identityPrivateKey
        rw [ho.ethereum, hpair ht]
        rfl
    | ED =>
        unfold identityPrivateKey
        rw [ho.solana, hpair ht]
        rfl
  unfold nativeKey ClusterKeyStore.assertOperator keyPublication
  dsimp only
  rw [hfind]
  show (if o.publicationLabel ≠ (l.publication config).word then _ else _) = _
  rw [if_neg (not_not.mpr ho.publicationLabel), hkey]
  exact env.lib.native_toString _

omit hr hb h in
/-- A put keeps what a parameter holds, when no other value is put there. -/
theorem putParameter_holds {t : KeyType} {k : env.lib.Key t} {params params' : ParameterStore}
    {regions : List Text} {region secretId id value : Text} {tags : List (Text × Text)}
    (hput : putParameter params region secretId (env.lib.toNativeString k) tags = .ok params')
    (hholds : Holds params regions id value)
    (hsame : id = secretId → env.lib.toNativeString k = value) :
    Holds params' regions id value := by
  intro r hmem
  by_cases hat : r = region ∧ id = secretId
  · right
    rw [hat.1, hat.2, ← hsame hat.2]
    exact putParameter_reads hput
  · have hother := (putParameter_eq_ok hput).2.2 r id hat
    apply Or.imp (fun hnone => hother.trans hnone) _ (hholds r hmem)
    intro hreads
    unfold Reads at hreads ⊢
    rw [tryGetParameter_congr hother, hreads]

omit hb in
/-- What is published keeps the invariant: no other key has its secret id. -/
theorem Inv.put {l : KeyLabel} {t : KeyType} {region : Text} {tags : List (Text × Text)}
    {params' : ParameterStore} (hl : Owns config l) (ht : t ∈ l.curves)
    (hput : putParameter c.params region (keyId ssm aws (l.publication config) t)
      (env.lib.toNativeString (ring t (l.source config t))) tags = .ok params') :
    Inv env config ssm aws clear params₀ ring { c with params := params' } := by
  refine ⟨h.kept.trans (putParameter_kept hput), ?_, ?_, h.nodes, h.operators⟩
  · intro t' m hm
    apply putParameter_holds hput (h.holds t' m hm)
    intro hid
    obtain ⟨rfl, rfl⟩ := hr.keyId_inj hm.known.1 hl.known_publication hm.known.2
      (publication_owner ht) hid
    rw [source_eq_publication ht hm]
  · intro t' m hclear hm ht'
    apply putParameter_holds hput (h.safe t' m hclear hm ht')
    intro hid
    obtain ⟨hpublication, rfl⟩ := hr.keyId_inj hm.known_publication hl.known_publication
      (publication_owner ht') (publication_owner ht) hid
    rw [publication_inj hr.producers hm hl hpublication]

omit hr hb h in
theorem publishTo_absent {p : SignatureProviderKeyPublication} {region value : Text}
    {params' : ParameterStore} (hnative : nativeKey env c p = .ok value)
    (hnone : c.params region p.secretId = none)
    (hput : putParameter c.params region p.secretId value
      (p.version.map fun version => (PlatformVersionTagKey, version)).toList = .ok params') :
    publishTo env c p region = .ok { c with params := params' } := by
  unfold publishTo
  rw [hnative]
  show (tryGetParameter c.params region p.secretId >>= _) = _
  rw [tryGetParameter_none hnone]
  show (putParameter c.params region p.secretId value _ >>= _) = _
  rw [hput]
  rfl

omit hr hb h in
theorem publishTo_held {p : SignatureProviderKeyPublication} {region : Text}
    {k : env.lib.Key p.keyType} (hnative : nativeKey env c p = .ok (env.lib.toNativeString k))
    (hreads : Reads c.params region p.secretId (env.lib.toNativeString k)) :
    publishTo env c p region = .ok c := by
  unfold Reads at hreads
  unfold publishTo
  rw [hnative]
  show (tryGetParameter c.params region p.secretId >>= _) = _
  rw [hreads]
  show (assertPublishedKeyMatches env p region _ _ >>= _) = _
  unfold assertPublishedKeyMatches
  rw [env.lib.fromNative_toNative]
  dsimp only
  rw [if_pos rfl]
  rfl

omit hb in
theorem publish_succeeds {l : KeyLabel} {t : KeyType} {region : Text} (hclear : clear t l)
    (hl : Owns config l) (ht : t ∈ l.curves) (hregion : region ∈ aws.regions)
    (hneed : (Need.record l).Met env config ssm aws ring c) :
    Succeeds env config ssm aws clear params₀ ring c
      (.publishSignatureProviderKey (keyPublication config ssm aws l t) region)
      [.published t l region] := by
  have hnative := nativeKey_eq hr h hl ht hneed
  unfold Succeeds
  show ∃ c', publishTo env c (keyPublication config ssm aws l t) region = .ok c' ∧ _
  rcases h.safe t l hclear hl ht region hregion with hnone | hreads
  · have hput : ∃ params', putParameter c.params region (keyId ssm aws (l.publication config) t)
        (env.lib.toNativeString (ring t (l.source config t)))
        (ssm.version.map fun version => (PlatformVersionTagKey, version)).toList =
          .ok params' := by
      unfold putParameter
      rw [hnone]
      exact ⟨_, rfl⟩
    obtain ⟨params', hput⟩ := hput
    refine ⟨{ c with params := params' }, publishTo_absent hnative hnone hput,
      h.put hr hl ht hput, .same rfl _, fun need hneed => ?_, ?_⟩
    · cases need with
      | nodeKeys => exact hneed
      | record l => exact hneed
      | imported t l => exact hneed
      | published t l region => exact (putParameter_kept hput).reads hneed
    · intro need hmem
      rw [List.mem_singleton.mp hmem]
      exact putParameter_reads hput
  · refine ⟨c, publishTo_held hnative hreads, h, .same rfl _, fun need hneed => hneed, ?_⟩
    intro need hmem
    rw [List.mem_singleton.mp hmem]
    exact hreads

/-- A step whose needs are met, and that imports nothing twice, succeeds, keeps the invariant, and
provides. -/
theorem inv_perform {step : CreateStep} {needs provides : List Need}
    (hstep : Legit config ssm aws clear needs step provides)
    (hneeds : ∀ need ∈ needs, need.Met env config ssm aws ring c)
    (hnew : Unimported ring c provides) :
    Succeeds env config ssm aws clear params₀ ring c step provides := by
  cases hstep with
  | resolveWithBiosKeys => exact resolveWithBiosKeys_succeeds hr hb h
  | generateNodeKeys => exact generateNodeKeys_succeeds hr hb h
  | createWallet =>
      exact createWallet_succeeds hr h (hneeds _ (by simp)) (hneeds _ (by simp))
        (hneeds _ (by simp)) hnew
  | producerMaterialization hi =>
      exact producerMaterialization_succeeds hr hb h hi (hneeds _ (by simp)) hnew
  | identityMaterialization hi => exact identityMaterialization_succeeds hr hb h hi hnew
  | sponsoredAccountCreation hi =>
      exact sponsoredAccountCreation_succeeds hr h hi (hneeds _ (by simp))
  | publish hclear hl ht hregion =>
      exact publish_succeeds hr h hclear hl ht hregion (hneeds _ (by simp))

end Steps

end KeySteps

end WireTools

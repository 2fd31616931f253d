import WireTools.KeyCreates
import WireTools.PublicationLabels

/-! # Whose keys a create publishes

The identities of a cluster as labels: where each one's keys are generated (`source`), where they
are published (`publication`), and under which secret ids.

* `word_inj`: different labels of a cluster are different texts;
* `keyId_inj`: different labels and curves have different secret ids;
* `publication_inj`: different identities publish under different labels;
* `mem_publications`: the publications are one for each identity and each of its curves. -/

namespace WireTools

namespace KeySteps

open NodeConfig ClusterConfigProvider Templates

/-- An SSM config as it is resolved, whose publications are accepted. -/
structure Resolved (config : ClusterConfig) (ssm : SSMSettings) (aws : AWSClusterNodeConfig) :
    Prop where
  custody : config.signatureProvider = .SSM
  settings : config.ssm = some ssm
  placement : config.awsClusterNodeConfig = some aws
  regions : ssm.awsRegions = some aws.regions
  regions_ne : aws.regions ≠ []
  underwriters : config.underwriterCount = 0
  producers : config.producerCount ≤ firstSuffix + 25
  accepted : ∃ ps, signatureProviderKeyPublications config = .ok ps

namespace KeyLabel

/-- The node that hosts a producer. -/
def hostIndex (config : ClusterConfig) (i : ℕ) : ℕ := i % config.producerNodeCount

/-- The producer is its node's only one. -/
def Alone (config : ClusterConfig) (i : ℕ) : Prop :=
  (hostedProducers config (hostIndex config i)).length = 1

instance (config : ClusterConfig) (i : ℕ) : Decidable (Alone config i) :=
  inferInstanceAs (Decidable (_ = _))

/-- The label whose parameters hold an identity's keys. -/
def publication (config : ClusterConfig) : KeyLabel → KeyLabel
  | producer i => if Alone config i then node (hostIndex config i) else producer i
  | l => l

/-- The label that an identity's key is adopted or generated for. -/
def source (config : ClusterConfig) (t : KeyType) : KeyLabel → KeyLabel
  | producer i => if t = .K1 ∨ Alone config i then node (hostIndex config i) else producer i
  | l => l

/-- The curves that an identity publishes. -/
def curves : KeyLabel → List KeyType
  | bios | producer _ => [.K1, .BLS]
  | owner => [.K1]
  | batchOperator _ => [.K1, .EM, .ED]
  | node _ | underwriter _ => []

def phase : KeyLabel → SignatureKeyPublishPhase
  | batchOperator _ | underwriter _ => .afterOperators
  | _ => .beforeNodes

/-- The label is an identity's. -/
def Owns (config : ClusterConfig) : KeyLabel → Prop
  | bios | owner => True
  | producer i => i < config.producerCount ∧ 0 < config.producerNodeCount
  | batchOperator i => i < config.batchOperatorCount
  | node _ | underwriter _ => False

/-- A create adopts or generates a key of the curve for the label. -/
def Adopts (config : ClusterConfig) (t : KeyType) : KeyLabel → Prop
  | bios => t = .K1 ∨ t = .BLS
  | owner => t = .K1
  | node k => k < config.producerNodeCount ∧ (t = .K1 ∨ t = .BLS)
  | producer i => t = .BLS ∧ i < config.producerCount ∧ 0 < config.producerNodeCount ∧
      ¬Alone config i
  | batchOperator i => i < config.batchOperatorCount ∧ t ∈ [KeyType.K1, .EM, .ED]
  | underwriter _ => False

/-- The label is one of the cluster's, a node's or an identity's. -/
def Known (config : ClusterConfig) : KeyLabel → Prop
  | bios | owner | node _ => True
  | producer i => i < config.producerCount
  | batchOperator i => i < config.batchOperatorCount
  | underwriter _ => False

variable {config : ClusterConfig} {l m : KeyLabel} {t : KeyType}

theorem publication_alone {i : ℕ} (h : Alone config i) :
    (producer i).publication config = node (hostIndex config i) := if_pos h

theorem publication_shared {i : ℕ} (h : ¬Alone config i) :
    (producer i).publication config = producer i := if_neg h

theorem source_node {i : ℕ} (h : t = .K1 ∨ Alone config i) :
    (producer i).source config t = node (hostIndex config i) := if_pos h

theorem source_own {i : ℕ} (h : ¬(t = .K1 ∨ Alone config i)) :
    (producer i).source config t = producer i := if_neg h

theorem Adopts.known (h : Adopts config t l) : Known config l ∧ (l = owner → t = .K1) := by
  cases l with
  | bios => exact ⟨True.intro, by simp⟩
  | owner => exact ⟨True.intro, fun _ => h⟩
  | node k => exact ⟨True.intro, by simp⟩
  | producer i => exact ⟨h.2.1, by simp⟩
  | batchOperator i => exact ⟨h.1, by simp⟩
  | underwriter i => exact h.elim

theorem Owns.known (h : Owns config l) : Known config l := by
  cases l with
  | producer i => exact h.1
  | batchOperator i => exact h
  | bios => exact True.intro
  | owner => exact True.intro
  | node k => exact h.elim
  | underwriter i => exact h.elim

theorem Owns.known_publication (h : Owns config l) : Known config (l.publication config) := by
  cases l with
  | producer i =>
      by_cases halone : Alone config i
      · rw [publication_alone halone]
        exact True.intro
      · rw [publication_shared halone]
        exact h.1
  | batchOperator i => exact h
  | bios => exact True.intro
  | owner => exact True.intro
  | node k => exact h.elim
  | underwriter i => exact h.elim

/-- Every identity has a K1. -/
theorem Owns.K1_mem_curves (h : Owns config l) : .K1 ∈ l.curves := by
  cases l with
  | node k => exact h.elim
  | underwriter i => exact h.elim
  | _ => simp [curves]

/-- Only a producer that is alone publishes under its node's label. -/
theorem Owns.publication_eq_node (h : Owns config l) {k : ℕ}
    (hnode : l.publication config = node k) :
    ∃ i, l = producer i ∧ Alone config i ∧ hostIndex config i = k := by
  cases l with
  | producer i =>
      by_cases halone : Alone config i
      · rw [publication_alone halone] at hnode
        exact ⟨i, rfl, halone, node.inj hnode⟩
      · rw [publication_shared halone] at hnode
        cases hnode
  | bios => cases hnode
  | owner => cases hnode
  | batchOperator i => cases hnode
  | node k => exact h.elim
  | underwriter i => cases hnode

theorem publication_owner (ht : t ∈ l.curves) (h : l.publication config = owner) :
    t = .K1 := by
  cases l with
  | producer i =>
      by_cases halone : Alone config i
      · rw [publication_alone halone] at h
        cases h
      · rw [publication_shared halone] at h
        cases h
  | owner => exact List.mem_singleton.mp ht
  | bios => cases h
  | batchOperator i => cases h
  | node k => cases h
  | underwriter i => cases h

/-- The key of an identity's curve is adopted for its source. -/
theorem Owns.adopts_source (h : Owns config l) (ht : t ∈ l.curves) :
    Adopts config t (l.source config t) := by
  have hcurves : t ∈ [KeyType.K1, KeyType.BLS] → t = .K1 ∨ t = .BLS := by simp
  cases l with
  | bios => exact hcurves ht
  | owner => exact List.mem_singleton.mp ht
  | producer i =>
      by_cases hnode : t = .K1 ∨ Alone config i
      · rw [source_node hnode]
        exact ⟨Nat.mod_lt _ h.2, hcurves ht⟩
      · rw [source_own hnode]
        rw [not_or] at hnode
        exact ⟨(hcurves ht).resolve_left hnode.1, h.1, h.2, hnode.2⟩
  | batchOperator i => exact ⟨h, ht⟩
  | node k => exact h.elim
  | underwriter i => exact h.elim

/-- A key adopted for the label an identity publishes under is the identity's. -/
theorem source_eq_publication (ht : t ∈ l.curves)
    (hadopts : Adopts config t (l.publication config)) :
    l.source config t = l.publication config := by
  cases l with
  | producer i =>
      by_cases halone : Alone config i
      · rw [publication_alone halone, source_node (Or.inr halone)]
      · rw [publication_shared halone] at hadopts ⊢
        apply source_own
        rintro (hK1 | hK1)
        · rw [hadopts.1] at hK1
          cases hK1
        · exact halone hK1
  | bios => rfl
  | owner => rfl
  | batchOperator i => rfl
  | node k => rfl
  | underwriter i => rfl

/-! ### Labels as texts -/

/-- What kind of label a text is. -/
def kind (w : Text) : ℕ :=
  if 95 ∈ w then if w = BiosName then 0 else 1
  else if 46 ∈ w then 4 else if w.length = 6 then 2 else 3

theorem kind_bios : kind bios.word = 0 := by decide

theorem kind_owner : kind owner.word = 2 := by decide

theorem kind_node (k : ℕ) : kind (node k).word = 1 := by
  unfold kind word
  rw [if_pos (underscore_mem_nodeName k), if_neg (nodeName_ne_bios k)]

theorem kind_producer (i : ℕ) : kind (producer i).word = 3 := by
  have hlength := length_producerName_ge i
  unfold kind word
  rw [if_neg (notMem_producerName (by decide) i), if_neg (notMem_producerName (by decide) i),
    if_neg (show ¬(producerName i).length = 6 by omega)]

theorem kind_batchOperator (i : ℕ) : kind (batchOperator i).word = 4 := by
  have hplain := plain_label (l := batchOperator i) id
  unfold kind
  rw [if_neg hplain.1, if_pos (by simp [word, batchOperatorLabel_eq])]

theorem producerName_inj_of_count (hcount : config.producerCount ≤ firstSuffix + 25) {i j : ℕ}
    (hi : i < config.producerCount) (hj : j < config.producerCount)
    (h : producerName i = producerName j) : i = j :=
  producerName_inj (lt_of_lt_of_le hi hcount) (lt_of_lt_of_le hj hcount) h

theorem word_inj (hcount : config.producerCount ≤ firstSuffix + 25)
    (hbatch : config.batchOperatorCount ≤ 26) (hl : Known config l) (hm : Known config m)
    (h : l.word = m.word) : l = m := by
  have hkind := congrArg kind h
  cases l <;> cases m
  all_goals
    try (simp [kind_bios, kind_owner, kind_node, kind_producer, kind_batchOperator] at hkind; done)
  case bios.bios => rfl
  case owner.owner => rfl
  case node.node k j => rw [nodeName_inj h]
  case producer.producer i j => rw [producerName_inj_of_count hcount hl hm h]
  case batchOperator.batchOperator i j =>
      have hnodup := (nodup_letters (f := Constants.batchOperatorLabel) (fun _ => rfl)
        config.batchOperatorCount).mpr hbatch
      rw [List.inj_on_of_nodup_map hnodup (List.mem_range.mpr hl) (List.mem_range.mpr hm) h]
  all_goals first | exact hl.elim | exact hm.elim

/-- A producer that is alone on its node shares it with no other. -/
theorem eq_of_alone (hcount : config.producerCount ≤ firstSuffix + 25) {i j : ℕ}
    (hi : Owns config (producer i)) (hj : Owns config (producer j)) (halone : Alone config i)
    (h : hostIndex config i = hostIndex config j) : i = j := by
  unfold Alone at halone
  obtain ⟨name, hname⟩ := List.length_eq_one_iff.mp halone
  have hmem : ∀ {x : ℕ}, Owns config (producer x) → hostIndex config i = hostIndex config x →
      producerName x = name := by
    intro x hx hhost
    have hhosted : producerName x ∈ hostedProducers config (hostIndex config i) :=
      mem_hostedProducers.mpr ⟨x, hx.1, ⟨hx.2, hhost.symm⟩, rfl⟩
    rw [hname] at hhosted
    exact List.mem_singleton.mp hhosted
  exact producerName_inj_of_count hcount hi.1 hj.1 ((hmem hi rfl).trans (hmem hj h).symm)

theorem publication_inj (hcount : config.producerCount ≤ firstSuffix + 25) (hl : Owns config l)
    (hm : Owns config m) (h : l.publication config = m.publication config) : l = m := by
  have hother : ∀ {x y : KeyLabel} {i : ℕ}, x = .producer i → Owns config y →
      y.publication config = y → x.publication config = y → x = y := by
    rintro x y i rfl hy - hxy
    by_cases halone : Alone config i
    · rw [publication_alone halone] at hxy
      rw [← hxy] at hy
      exact hy.elim
    · rwa [publication_shared halone] at hxy
  cases l with
  | producer i =>
      cases m with
      | producer j =>
          by_cases hi : Alone config i <;> by_cases hj : Alone config j
          · rw [publication_alone hi, publication_alone hj] at h
            rw [eq_of_alone hcount hl hm hi (node.inj h)]
          · rw [publication_alone hi, publication_shared hj] at h
            cases h
          · rw [publication_shared hi, publication_alone hj] at h
            cases h
          · rwa [publication_shared hi, publication_shared hj] at h
      | bios => exact hother rfl hm rfl h
      | owner => exact hother rfl hm rfl h
      | batchOperator j => exact hother rfl hm rfl h
      | node k => exact hm.elim
      | underwriter k => exact hm.elim
  | node k => exact hl.elim
  | underwriter k => exact hl.elim
  | bios =>
      cases m with
      | producer j => exact (hother rfl hl rfl h.symm).symm
      | _ => exact h
  | owner =>
      cases m with
      | producer j => exact (hother rfl hl rfl h.symm).symm
      | _ => exact h
  | batchOperator i =>
      cases m with
      | producer j => exact (hother rfl hl rfl h.symm).symm
      | _ => exact h

end KeyLabel

open KeyLabel

/-! ### Secret ids -/

/-- The secret id of a label's key. -/
def keyId (ssm : SSMSettings) (aws : AWSClusterNodeConfig) (l : KeyLabel) (t : KeyType) : Text :=
  fill l.word t.name (idTemplate ssm aws)

namespace Resolved

variable {config : ClusterConfig} {ssm : SSMSettings} {aws : AWSClusterNodeConfig}

theorem accepts (h : Resolved config ssm aws) :
    Filled ssm.awsSecretIdPattern (substitutions ssm aws) ∧
      (.first ∈ idTemplate ssm aws ∧ .second ∈ idTemplate ssm aws) ∧
        config.batchOperatorCount ≤ 26 := by
  obtain ⟨hfilled, hparts, hbatch, -⟩ :=
    (accepted_iff h.settings h.placement h.producers).mp h.accepted
  exact ⟨hfilled, hparts, hbatch⟩

theorem word_inj (h : Resolved config ssm aws) {l m : KeyLabel} (hl : l.Known config)
    (hm : m.Known config) (hw : l.word = m.word) : l = m :=
  KeyLabel.word_inj h.producers h.accepts.2.2 hl hm hw

theorem short (h : Resolved config ssm aws) {l : KeyLabel} (hl : l.Known config) : l.Short := by
  cases l with
  | producer i => exact lt_of_lt_of_le hl (le_trans h.producers (by decide))
  | _ => exact True.intro

/-- Different labels and curves have different secret ids. -/
theorem keyId_inj (h : Resolved config ssm aws) {l m : KeyLabel} {t t' : KeyType}
    (hl : l.Known config) (hm : m.Known config) (hlt : l = .owner → t = .K1)
    (hmt : m = .owner → t' = .K1) (hid : keyId ssm aws l t = keyId ssm aws m t') :
    l = m ∧ t = t' := by
  obtain ⟨-, ⟨hfirst, hsecond⟩, -⟩ := h.accepts
  obtain ⟨hword, ht⟩ := secretId_inj hfirst hsecond (h.short hl) (h.short hm) hlt hmt hid
  exact ⟨h.word_inj hl hm hword, ht⟩

theorem ssmSecretId_eq (h : Resolved config ssm aws) (l : KeyLabel) (t : KeyType) :
    ssmSecretId config l.word t = .ok (keyId ssm aws l t) :=
  (ssmSecretId_eq_ok h.settings h.placement).mpr ⟨h.accepts.1, rfl⟩

theorem replicationRegions_eq (h : Resolved config ssm aws) :
    replicationRegions config = .ok aws.regions := by
  rw [KeySteps.replicationRegions_eq h.settings h.placement, h.regions, Option.getD_some]

end Resolved

/-- The publication of an identity's curve. -/
def keyPublication (config : ClusterConfig) (ssm : SSMSettings) (aws : AWSClusterNodeConfig)
    (l : KeyLabel) (t : KeyType) : SignatureProviderKeyPublication :=
  ⟨l.phase, l.word, (l.publication config).word, t, aws.regions,
    keyId ssm aws (l.publication config) t, ssm.version⟩

/-- The identity of a label. -/
def keyIdentity (config : ClusterConfig) (l : KeyLabel) : SignatureProviderKeyIdentity :=
  ⟨l.word, (l.publication config).word, l.phase, l.curves⟩

theorem producerPublicationLabel_eq {config : ClusterConfig} {k i : ℕ}
    (hk : i % config.producerNodeCount = k) :
    producerPublicationLabel ⟨.producer, k, nodeName k, hostedProducers config k, none, none⟩
      (producerName i) = ((KeyLabel.producer i).publication config).word := by
  subst hk
  unfold producerPublicationLabel
  by_cases halone : KeyLabel.Alone config i
  · rw [KeyLabel.publication_alone halone]
    exact if_pos halone
  · rw [KeyLabel.publication_shared halone]
    exact if_neg halone

/-- The identities of a cluster without underwriters are those of its labels. -/
theorem mem_identities_iff {config : ClusterConfig} (hunderwriters : config.underwriterCount = 0)
    {identity : SignatureProviderKeyIdentity} : identity ∈ identities config ↔
      ∃ l, Owns config l ∧ identity = keyIdentity config l := by
  rw [mem_identities]
  constructor
  · rintro (rfl | rfl | ⟨node, hnode, label, hlabel, rfl⟩ | ⟨i, hi, rfl⟩ | ⟨i, hi, rfl⟩)
    · exact ⟨.bios, True.intro, rfl⟩
    · exact ⟨.owner, True.intro, rfl⟩
    · obtain ⟨k, hk, rfl⟩ := mem_producerNodes.mp hnode
      obtain ⟨i, hi, ⟨hpos, hturn⟩, rfl⟩ := mem_hostedProducers.mp hlabel
      refine ⟨.producer i, ⟨hi, hpos⟩, ?_⟩
      unfold producerKeyIdentity keyIdentity
      rw [producerPublicationLabel_eq hturn]
      rfl
    · exact ⟨.batchOperator i, hi, rfl⟩
    · rw [hunderwriters] at hi
      exact absurd hi (Nat.not_lt_zero i)
  · rintro ⟨l, hl, rfl⟩
    cases l with
    | bios => exact Or.inl rfl
    | owner => exact Or.inr (Or.inl rfl)
    | producer i =>
        refine Or.inr (Or.inr (Or.inl ⟨_, mem_producerNodes.mpr
          ⟨_, Nat.mod_lt i hl.2, rfl⟩, producerName i, ?_, ?_⟩))
        · exact mem_hostedProducers.mpr ⟨i, hl.1, ⟨hl.2, rfl⟩, rfl⟩
        · unfold producerKeyIdentity keyIdentity
          rw [producerPublicationLabel_eq rfl]
          rfl
    | batchOperator i => exact Or.inr (Or.inr (Or.inr (Or.inl ⟨i, hl, rfl⟩)))
    | node k => exact hl.elim
    | underwriter i => exact hl.elim

/-- The publications are one for each identity and each of its curves. -/
theorem mem_publications {config : ClusterConfig} {ssm : SSMSettings}
    {aws : AWSClusterNodeConfig} (h : Resolved config ssm aws)
    {ps : List SignatureProviderKeyPublication}
    (hps : signatureProviderKeyPublications config = .ok ps)
    {p : SignatureProviderKeyPublication} :
    p ∈ ps ↔ ∃ l t, Owns config l ∧ t ∈ l.curves ∧ p = keyPublication config ssm aws l t := by
  obtain ⟨-, rfl, -⟩ := (signatureProviderKeyPublications_eq_ok h.settings h.placement).mp hps
  have hrow : ∀ l t, publicationOf ssm aws (keyIdentity config l, t) =
      keyPublication config ssm aws l t := by
    intro l t
    unfold publicationOf keyPublication
    rw [h.regions, Option.getD_some]
    rfl
  simp only [rows, List.mem_map, List.mem_flatMap, mem_identities_iff h.underwriters]
  constructor
  · rintro ⟨_, ⟨_, ⟨l, hl, rfl⟩, t, ht, rfl⟩, rfl⟩
    exact ⟨l, t, hl, ht, hrow l t⟩
  · rintro ⟨l, t, hl, ht, rfl⟩
    exact ⟨_, ⟨_, ⟨l, hl, rfl⟩, t, ht, rfl⟩, hrow l t⟩

end KeySteps

end WireTools

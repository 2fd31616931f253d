import WireTools.KeyPublications

/-! # Which publications are accepted

The publications of an SSM cluster are refused when two share a secret id, whatever the config's
pattern is.

* the labels that a cluster's keys are published under are apart (`apart_labels`), but for the
  bootstrap node owner's, which may end a producer's name; the owner publishes no curve with a
  longer name than `K1`, so the lengths of the secret ids tell the two (`secretId_inj`);
* `publications_accepted_iff`: the publications are accepted exactly when the pattern's
  placeholders have values, it names the account and the curve, and there are letters for all
  batch operators and underwriters. -/

namespace WireTools

namespace KeySteps

open NodeConfig ClusterConfigProvider Outcome Templates

/-! ### The kinds of labels -/

/-- A label that keys are published under, or a node's name. -/
inductive KeyLabel where
  | bios
  | node (k : ℕ)
  | owner
  | producer (i : ℕ)
  | batchOperator (i : ℕ)
  | underwriter (i : ℕ)

namespace KeyLabel

def word : KeyLabel → Text
  | bios => BiosName
  | node k => nodeName k
  | owner => Constants.BOOTSTRAP_NODE_OWNER
  | producer i => producerName i
  | batchOperator i => Constants.batchOperatorLabel i
  | underwriter i => Constants.underwriterLabel i

/-- The label of a node, bios with them. -/
def isNode : KeyLabel → Prop
  | bios | node _ => True
  | _ => False

/-- A producer whose name has twelve letters, or any other label. -/
def Short : KeyLabel → Prop
  | producer i => i < 26 ^ 7
  | _ => True

end KeyLabel

theorem underscore_notMem_digits (k : ℕ) : (95 : CodeUnit) ∉ padStart 2 48 (natText k) := by
  unfold padStart
  rw [List.mem_append, not_or]
  constructor
  · intro hpad
    exact absurd (List.mem_replicate.mp hpad).2 (by decide)
  · intro hdigit
    exact absurd (Json.natText_isDigit k _ hdigit) (by decide)

theorem nodeName_eq (k : ℕ) :
    nodeName k = text "node" ++ 95 :: padStart 2 48 (natText k) := by
  unfold nodeName
  rw [show NodeNamePrefix = text "node" ++ [95] from rfl, List.append_assoc]
  rfl

theorem letter_mod_bounds (i : ℕ) : 97 ≤ letter (i % 26) ∧ letter (i % 26) ≤ 122 :=
  letter_bounds (i % 26) (Nat.mod_lt _ (by decide))

theorem letter_ne {c : CodeUnit} (hc : c < 97) (i : ℕ) : c ≠ letter (i % 26) := by
  rintro rfl
  exact absurd (letter_mod_bounds i).1 (UInt16.not_le.mpr hc)

theorem letters_producerName (i : ℕ) : ∀ c ∈ producerName i, 97 ≤ c ∧ c ≤ 122 := by
  intro c hc
  rw [producerName_eq, List.mem_append] at hc
  rcases hc with hfront | hsuffix
  · have hall : ∀ c ∈ text "defpr", 97 ≤ c ∧ c ≤ 122 := by decide
    exact hall c hfront
  · exact letter_producerSuffix i c hsuffix

theorem notMem_producerName {c : CodeUnit} (hc : c < 97) (i : ℕ) : c ∉ producerName i := by
  intro hmem
  exact absurd (letters_producerName i c hmem).1 (UInt16.not_le.mpr hc)

theorem length_producerName_ge (i : ℕ) : 12 ≤ (producerName i).length := by
  rw [producerName_eq, List.length_append]
  have hsuffix : 7 ≤ (producerSuffix i).length := by
    unfold producerSuffix
    split
    · unfold padStart
      rw [List.length_append, List.length_replicate]
      omega
    · rw [List.length_append]
      exact Nat.le_refl 7
  have hfront : (text "defpr").length = 5 := rfl
  omega

theorem length_producerName {i : ℕ} (hi : i < 26 ^ 7) : (producerName i).length = 12 := by
  rw [producerName_eq, List.length_append, length_producerSuffix hi]
  rfl

/-- A label that is no node's has no underscore, five letters at least, and ends in a letter. -/
theorem plain_label {l : KeyLabel} (hl : ¬l.isNode) :
    (95 : CodeUnit) ∉ l.word ∧ 5 ≤ l.word.length ∧ ∀ c ∈ l.word.getLast?, 97 ≤ c := by
  cases l with
  | bios => exact absurd True.intro hl
  | node k => exact absurd True.intro hl
  | owner =>
      refine ⟨by decide, by decide, fun c hc => ?_⟩
      rw [show KeyLabel.owner.word.getLast? = some 111 from rfl] at hc
      cases hc
      decide
  | producer i =>
      refine ⟨notMem_producerName (by decide) i, ?_, fun c hc => ?_⟩
      · exact le_trans (by decide) (length_producerName_ge i)
      · exact (letters_producerName i c (List.mem_of_getLast? hc)).1
  | batchOperator i =>
      refine ⟨?_, ?_, ?_⟩
      · simp only [KeyLabel.word, Constants.batchOperatorLabel, List.mem_append,
          List.mem_singleton, not_or]
        exact ⟨by decide, letter_ne (by decide) i⟩
      · exact (by decide : 5 ≤ 9)
      · simp only [KeyLabel.word, Constants.batchOperatorLabel, List.getLast?_concat,
          Option.mem_some_iff, forall_eq']
        exact (letter_mod_bounds i).1
  | underwriter i =>
      refine ⟨?_, ?_, ?_⟩
      · simp only [KeyLabel.word, Constants.underwriterLabel, List.mem_append,
          List.mem_singleton, not_or]
        exact ⟨by decide, letter_ne (by decide) i⟩
      · exact (by decide : 5 ≤ 7)
      · simp only [KeyLabel.word, Constants.underwriterLabel, List.getLast?_concat,
          Option.mem_some_iff, forall_eq']
        exact (letter_mod_bounds i).1

theorem apart_bios {l : KeyLabel} (hl : ¬l.isNode) : Apart BiosName l.word := by
  obtain ⟨hunderscore, hlength, -⟩ := plain_label hl
  rw [show BiosName = text "node" ++ 95 :: text "bios" from rfl]
  apply Apart.of_notMem hunderscore
  intro hs
  have hle := hs.length_le
  have hbios : (text "bios").length = 4 := rfl
  omega

theorem apart_node (k : ℕ) {l : KeyLabel} (hl : ¬l.isNode) : Apart (nodeName k) l.word := by
  obtain ⟨hunderscore, hlength, hlast⟩ := plain_label hl
  rw [nodeName_eq]
  apply Apart.of_notMem hunderscore
  intro hs
  -- its last unit would be a digit
  have hne : l.word ≠ [] := by
    rintro hnil
    rw [hnil] at hlength
    simp at hlength
  have hletter := hlast _ (List.getLast?_eq_some_getLast hne)
  have hmem := hs.subset (List.getLast_mem hne)
  unfold padStart at hmem
  rcases List.mem_append.mp hmem with hpad | hdigit
  · rw [(List.mem_replicate.mp hpad).2] at hletter
    exact absurd hletter (by decide)
  · have hdig := Json.natText_isDigit k _ hdigit
    unfold isDigit at hdig
    rw [Bool.and_eq_true, decide_eq_true_eq, decide_eq_true_eq] at hdig
    exact absurd (UInt16.le_trans hletter hdig.2) (by decide)

theorem apart_nodes (k j : ℕ) : Apart (nodeName k) (nodeName j) := by
  rw [nodeName_eq, nodeName_eq]
  exact Apart.separated (underscore_notMem_digits k) (underscore_notMem_digits j) (Apart.refl _)

theorem apart_bios_node (k : ℕ) : Apart BiosName (nodeName k) := by
  rw [show BiosName = text "node" ++ 95 :: text "bios" from rfl, nodeName_eq]
  exact Apart.separated (by decide) (underscore_notMem_digits k) (Apart.refl _)

theorem batchOperatorLabel_eq (i : ℕ) :
    Constants.batchOperatorLabel i = text "batchop" ++ 46 :: [letter (i % 26)] := rfl

theorem underwriterLabel_eq (i : ℕ) :
    Constants.underwriterLabel i = text "uwrit" ++ 46 :: [letter (i % 26)] := rfl

/-- A label with a letter behind its dot is apart from a longer word without a dot. -/
theorem apart_dot {p u : Text} (i : ℕ) (hu : (46 : CodeUnit) ∉ u) (hlength : 5 ≤ u.length) :
    Apart (p ++ 46 :: [letter (i % 26)]) u := by
  apply Apart.of_notMem hu
  intro hs
  have hle := hs.length_le
  simp only [List.length_cons, List.length_nil] at hle
  omega

theorem apart_batchOperator (i : ℕ) {u : Text} (hu : (46 : CodeUnit) ∉ u)
    (hlength : 5 ≤ u.length) : Apart (Constants.batchOperatorLabel i) u :=
  apart_dot (p := text "batchop") i hu hlength

theorem apart_underwriter (i : ℕ) {u : Text} (hu : (46 : CodeUnit) ∉ u)
    (hlength : 5 ≤ u.length) : Apart (Constants.underwriterLabel i) u :=
  apart_dot (p := text "uwrit") i hu hlength

theorem dot_notMem_letter (i : ℕ) : (46 : CodeUnit) ∉ [letter (i % 26)] := by
  rw [List.mem_singleton]
  exact letter_ne (by decide) i

theorem apart_batch_underwriter (i j : ℕ) :
    Apart (Constants.batchOperatorLabel i) (Constants.underwriterLabel j) := by
  rw [batchOperatorLabel_eq, underwriterLabel_eq]
  exact Apart.separated (dot_notMem_letter i) (dot_notMem_letter j)
    (Apart.of_getLast? (by decide) (by decide) (by decide))

/-- The owner and a producer: the only labels of which one may end the other. -/
def OwnerAndProducer : KeyLabel → KeyLabel → Prop
  | .owner, .producer _ => True
  | .producer _, .owner => True
  | _, _ => False

theorem apart_labels {l m : KeyLabel} (hl : l.Short) (hm : m.Short)
    (h : ¬OwnerAndProducer l m) : Apart l.word m.word := by
  cases l with
  | bios =>
      cases m with
      | bios => exact Apart.refl _
      | node j => exact apart_bios_node j
      | owner => exact apart_bios (l := .owner) id
      | producer j => exact apart_bios (l := .producer j) id
      | batchOperator j => exact apart_bios (l := .batchOperator j) id
      | underwriter j => exact apart_bios (l := .underwriter j) id
  | node k =>
      cases m with
      | bios => exact (apart_bios_node k).symm
      | node j => exact apart_nodes k j
      | owner => exact apart_node k (l := .owner) id
      | producer j => exact apart_node k (l := .producer j) id
      | batchOperator j => exact apart_node k (l := .batchOperator j) id
      | underwriter j => exact apart_node k (l := .underwriter j) id
  | owner =>
      cases m with
      | bios => exact (apart_bios (l := .owner) id).symm
      | node j => exact (apart_node j (l := .owner) id).symm
      | owner => exact Apart.refl _
      | producer j => exact absurd True.intro h
      | batchOperator j => exact (apart_batchOperator j (by decide) (by decide)).symm
      | underwriter j => exact (apart_underwriter j (by decide) (by decide)).symm
  | producer i =>
      have hdot : (46 : CodeUnit) ∉ producerName i := notMem_producerName (by decide) i
      have hlength : 5 ≤ (producerName i).length :=
        le_trans (by decide) (length_producerName_ge i)
      cases m with
      | bios => exact (apart_bios (l := .producer i) id).symm
      | node j => exact (apart_node j (l := .producer i) id).symm
      | owner => exact absurd True.intro h
      | producer j =>
          apply Apart.of_length
          unfold KeyLabel.word
          rw [length_producerName hl, length_producerName hm]
      | batchOperator j => exact (apart_batchOperator j hdot hlength).symm
      | underwriter j => exact (apart_underwriter j hdot hlength).symm
  | batchOperator i =>
      cases m with
      | bios => exact (apart_bios (l := .batchOperator i) id).symm
      | node j => exact (apart_node j (l := .batchOperator i) id).symm
      | owner => exact apart_batchOperator i (by decide) (by decide)
      | producer j =>
          exact apart_batchOperator i (notMem_producerName (by decide) j)
            (le_trans (by decide) (length_producerName_ge j))
      | batchOperator j => exact Apart.of_length rfl
      | underwriter j => exact apart_batch_underwriter i j
  | underwriter i =>
      cases m with
      | bios => exact (apart_bios (l := .underwriter i) id).symm
      | node j => exact (apart_node j (l := .underwriter i) id).symm
      | owner => exact apart_underwriter i (by decide) (by decide)
      | producer j =>
          exact apart_underwriter i (notMem_producerName (by decide) j)
            (le_trans (by decide) (length_producerName_ge j))
      | batchOperator j => exact (apart_batch_underwriter j i).symm
      | underwriter j => exact Apart.of_length rfl

theorem apart_keyTypes (t t' : KeyType) : Apart t.name t'.name := by
  cases t <;> cases t' <;>
    first
      | exact Apart.refl _
      | exact Apart.of_getLast? (by decide) (by decide) (by decide)

theorem keyType_name_inj {t t' : KeyType} (h : t.name = t'.name) : t = t' := by
  cases t <;> cases t' <;> first | rfl | exact absurd h (by decide)

theorem two_le_length_keyType (t : KeyType) : 2 ≤ t.name.length := by
  cases t <;> decide

/-! ### Secret ids tell labels and curves -/

/-- The owner's only curve is published under a shorter id than any producer's. -/
theorem length_owner_lt {ps : List (TemplatePart CodeUnit)} (hfirst : .first ∈ ps) (i : ℕ) (t : KeyType) :
    (fill KeyLabel.owner.word KeyType.K1.name ps).length <
      (fill (KeyLabel.producer i).word t.name ps).length := by
  rw [length_fill, length_fill]
  have hcount := List.count_pos_iff.mpr hfirst
  have howner : KeyLabel.owner.word.length = 6 := rfl
  have hK1 : KeyType.K1.name.length = 2 := rfl
  have hproducer : 12 ≤ (KeyLabel.producer i).word.length := length_producerName_ge i
  have hlabel := Nat.mul_le_mul_left (ps.count .first) hproducer
  have hcurve := Nat.mul_le_mul_left (ps.count .second) (two_le_length_keyType t)
  rw [howner, hK1]
  omega

/-- A template with both blanks, filled with a label and a curve, determines the two. -/
theorem secretId_inj {ps : List (TemplatePart CodeUnit)} (hfirst : .first ∈ ps) (hsecond : .second ∈ ps)
    {l m : KeyLabel} {t t' : KeyType} (hl : l.Short) (hm : m.Short) (hlt : l = .owner → t = .K1)
    (hmt : m = .owner → t' = .K1) (h : fill l.word t.name ps = fill m.word t'.name ps) :
    l.word = m.word ∧ t = t' := by
  by_cases hpair : OwnerAndProducer l m
  · exfalso
    cases l with
    | owner =>
        cases m with
        | producer i =>
            obtain rfl := hlt rfl
            exact absurd (congrArg List.length h) (length_owner_lt hfirst i t').ne
        | _ => exact hpair
    | producer i =>
        cases m with
        | owner =>
            obtain rfl := hmt rfl
            exact absurd (congrArg List.length h) (length_owner_lt hfirst i t).ne'
        | _ => exact hpair
    | _ => exact hpair
  · have hinj := fill_inj (apart_labels hl hm hpair) (apart_keyTypes t t') h
    exact ⟨hinj.1 hfirst, keyType_name_inj (hinj.2 hsecond)⟩

/-! ### The labels of the identities -/

theorem mem_identities {config : ClusterConfig} {identity : SignatureProviderKeyIdentity} :
    identity ∈ identities config ↔
      identity = ⟨BiosName, BiosName, .beforeNodes, [.K1, .BLS]⟩ ∨
      identity = ⟨Constants.BOOTSTRAP_NODE_OWNER, Constants.BOOTSTRAP_NODE_OWNER, .beforeNodes,
        [.K1]⟩ ∨
      (∃ node ∈ producerNodes config, ∃ label ∈ node.producers,
        identity = producerKeyIdentity node label) ∨
      (∃ i < config.batchOperatorCount,
        identity = operatorKeyIdentity (Constants.batchOperatorLabel i) .batch) ∨
      ∃ i < config.underwriterCount,
        identity = operatorKeyIdentity (Constants.underwriterLabel i) .underwriter := by
  unfold identities
  simp only [List.mem_cons, List.mem_append, List.mem_flatMap, List.mem_map, List.mem_range,
    or_assoc, eq_comm]

theorem mem_producerNodes {config : ClusterConfig} {node : NodeConfig} :
    node ∈ producerNodes config ↔ ∃ k < config.producerNodeCount,
      node = ⟨.producer, k, nodeName k, hostedProducers config k, none, none⟩ := by
  rw [producerNodes_eq]
  simp only [List.mem_map, List.mem_range, eq_comm]

theorem mem_hostedProducers {config : ClusterConfig} {k : ℕ} {label : Text} :
    label ∈ hostedProducers config k ↔ ∃ i < config.producerCount,
      (0 < config.producerNodeCount ∧ i % config.producerNodeCount = k) ∧
        label = producerName i := by
  unfold hostedProducers
  simp only [List.mem_map, List.mem_filter, List.mem_range, Bool.and_eq_true, decide_eq_true_eq,
    beq_iff_eq, and_assoc, eq_comm (a := label)]

/-- What label an identity's keys are published under. -/
theorem exists_keyLabel {config : ClusterConfig} (hcount : config.producerCount ≤ 26 ^ 7)
    {identity : SignatureProviderKeyIdentity} (h : identity ∈ identities config) :
    ∃ l : KeyLabel, l.Short ∧ l.word = identity.publicationLabel ∧
      (l = .owner → identity.keyTypes = [.K1]) := by
  rcases mem_identities.mp h with rfl | rfl | ⟨node, hnode, label, hlabel, rfl⟩ | ⟨i, hi, rfl⟩ |
    ⟨i, hi, rfl⟩
  · exact ⟨.bios, True.intro, rfl, by simp⟩
  · exact ⟨.owner, True.intro, rfl, fun _ => rfl⟩
  · obtain ⟨k, hk, rfl⟩ := mem_producerNodes.mp hnode
    obtain ⟨i, hi, -, rfl⟩ := mem_hostedProducers.mp hlabel
    unfold producerKeyIdentity producerPublicationLabel
    dsimp only
    split
    · exact ⟨.node k, True.intro, rfl, by simp⟩
    · exact ⟨.producer i, lt_of_lt_of_le hi hcount, rfl, by simp⟩
  · exact ⟨.batchOperator i, True.intro, rfl, by simp⟩
  · exact ⟨.underwriter i, True.intro, rfl, by simp⟩

theorem keyTypes_nodup {config : ClusterConfig} {identity : SignatureProviderKeyIdentity}
    (h : identity ∈ identities config) : identity.keyTypes.Nodup ∧ .K1 ∈ identity.keyTypes := by
  rcases mem_identities.mp h with rfl | rfl | ⟨node, hnode, label, hlabel, rfl⟩ | ⟨i, hi, rfl⟩ |
    ⟨i, hi, rfl⟩ <;>
    simp [producerKeyIdentity, operatorKeyIdentity, operatorKeyTypes, OperatorKeyTypes]

/-! ### Accepted publications -/

/-- The values that the secret ids of a config share. -/
def substitutions (ssm : SSMSettings) (aws : AWSClusterNodeConfig) : SecretIdSubstitutions :=
  ⟨aws.account, [], [], ssm.version⟩

/-- The template of a config's secret ids. -/
def idTemplate (ssm : SSMSettings) (aws : AWSClusterNodeConfig) : List (TemplatePart CodeUnit) :=
  template ssm.awsSecretIdPattern (substitutions ssm aws)

/-- The publication of a row. -/
def publicationOf (ssm : SSMSettings) (aws : AWSClusterNodeConfig)
    (row : SignatureProviderKeyIdentity × KeyType) : SignatureProviderKeyPublication :=
  ⟨row.1.publishPhase, row.1.label, row.1.publicationLabel, row.2,
    ssm.awsRegions.getD aws.regions,
    fill row.1.publicationLabel row.2.name (idTemplate ssm aws), ssm.version⟩

theorem rows_ne_nil (config : ClusterConfig) : rows config ≠ [] := by
  unfold rows identities
  simp

section Accepted

variable {config : ClusterConfig} {ssm : SSMSettings} {aws : AWSClusterNodeConfig}
variable (hssm : config.ssm = some ssm) (haws : config.awsClusterNodeConfig = some aws)
include hssm haws

theorem ssmSecretId_eq_ok {account id : Text} {t : KeyType} :
    ssmSecretId config account t = .ok id ↔
      Filled ssm.awsSecretIdPattern (substitutions ssm aws) ∧
        id = fill account t.name (idTemplate ssm aws) := by
  unfold ssmSecretId
  rw [hssm, haws]
  exact toSecretId_fill (s := substitutions ssm aws)

theorem replicationRegions_eq :
    replicationRegions config = .ok (ssm.awsRegions.getD aws.regions) := by
  unfold replicationRegions
  rw [hssm, haws]

theorem publicationRenderer_eq_ok {identity : SignatureProviderKeyIdentity} {t : KeyType}
    {p : SignatureProviderKeyPublication} :
    publicationRenderer config identity t = .ok p ↔
      Filled ssm.awsSecretIdPattern (substitutions ssm aws) ∧
        p = publicationOf ssm aws (identity, t) := by
  unfold publicationRenderer
  rw [replicationRegions_eq hssm haws]
  simp only [except_bind_eq_ok, ssmSecretId_eq_ok hssm haws, Except.ok.injEq, exists_eq_left']
  rw [hssm]
  constructor
  · rintro ⟨id, ⟨hfilled, rfl⟩, rfl⟩
    exact ⟨hfilled, rfl⟩
  · rintro ⟨hfilled, rfl⟩
    exact ⟨_, ⟨hfilled, rfl⟩, rfl⟩

/-- What the walker returns when it accepts. -/
theorem signatureProviderKeyPublications_eq_ok {ps : List SignatureProviderKeyPublication} :
    signatureProviderKeyPublications config = .ok ps ↔
      Filled ssm.awsSecretIdPattern (substitutions ssm aws) ∧
        ps = (rows config).map (publicationOf ssm aws) ∧
          (ps.map (·.secretId)).Nodup := by
  have hrows : ∀ {xs : List (SignatureProviderKeyIdentity × KeyType)} {ps}, xs ≠ [] →
      (List.Forall₂ (fun row p => publicationRenderer config row.1 row.2 = .ok p) xs ps ↔
        Filled ssm.awsSecretIdPattern (substitutions ssm aws) ∧
          ps = xs.map (publicationOf ssm aws)) := by
    intro xs ps hne
    simp only [publicationRenderer_eq_ok hssm haws]
    constructor
    · intro h
      constructor
      · cases h with
        | nil => exact absurd rfl hne
        | cons hp _ => exact hp.1
      · clear hne
        induction h with
        | nil => rfl
        | cons hp _ ih => rw [List.map_cons, ih, hp.2]
    · rintro ⟨hfilled, rfl⟩
      rw [List.forall₂_map_right_iff, List.forall₂_same]
      exact fun row _ => ⟨hfilled, rfl⟩
  unfold signatureProviderKeyPublications
  simp only [except_bind_eq_ok, except_mapM_eq_ok, hrows (rows_ne_nil config)]
  constructor
  · rintro ⟨ps', ⟨hfilled, rfl⟩, h⟩
    split_ifs at h with hnodup
    rw [Except.ok.injEq] at h
    subst h
    exact ⟨hfilled, rfl, duplicateSecretIds_eq_nil.mp hnodup⟩
  · rintro ⟨hfilled, rfl, hnodup⟩
    exact ⟨_, ⟨hfilled, rfl⟩, if_pos (duplicateSecretIds_eq_nil.mpr hnodup)⟩

end Accepted

/-- The secret ids of a template's rows. -/
def secretIds (config : ClusterConfig) (ps : List (TemplatePart CodeUnit)) : List Text :=
  (rows config).map fun row => fill row.1.publicationLabel row.2.name ps

theorem secretIds_eq (config : ClusterConfig) (ps : List (TemplatePart CodeUnit)) :
    secretIds config ps = (identities config).flatMap fun identity =>
      identity.keyTypes.map fun t => fill identity.publicationLabel t.name ps := by
  unfold secretIds rows
  rw [List.map_flatMap]
  simp only [List.map_map, Function.comp_def]

/-- No secret id comes twice exactly when the template has both blanks and no label comes
twice. -/
theorem nodup_secretIds {config : ClusterConfig} (hcount : config.producerCount ≤ 26 ^ 7)
    {ps : List (TemplatePart CodeUnit)} : (secretIds config ps).Nodup ↔
      (.first ∈ ps ∧ .second ∈ ps) ∧ ((identities config).map (·.publicationLabel)).Nodup := by
  rw [secretIds_eq, List.nodup_flatMap]
  constructor
  · rintro ⟨hinner, hpairs⟩
    refine ⟨⟨?_, ?_⟩, ?_⟩
    · -- without the account, bios and the owner share their first id
      by_contra hfirst
      have hpair := List.rel_of_pairwise_cons hpairs (List.mem_cons_self)
      refine hpair (a := fill BiosName KeyType.K1.name ps) ?_ ?_
      · exact List.mem_map.mpr ⟨.K1, List.mem_cons_self, rfl⟩
      · refine List.mem_map.mpr ⟨.K1, List.mem_cons_self, ?_⟩
        exact fill_congr (fun hmem => absurd hmem hfirst) fun _ => rfl
    · -- without the curve, bios's two ids are one
      by_contra hsecond
      have hbios := hinner _ (mem_identities.mpr (Or.inl rfl))
      have hsame : fill BiosName KeyType.K1.name ps = fill BiosName KeyType.BLS.name ps :=
        fill_congr (fun _ => rfl) fun hmem => absurd hmem hsecond
      simp only [List.map_cons, List.map_nil, hsame] at hbios
      simp at hbios
    · unfold List.Nodup
      rw [List.pairwise_map]
      refine hpairs.imp_of_mem fun {i j} hi hj hdisjoint hlabel => ?_
      refine hdisjoint (a := fill i.publicationLabel KeyType.K1.name ps) ?_ ?_
      · exact List.mem_map.mpr ⟨.K1, (keyTypes_nodup hi).2, rfl⟩
      · refine List.mem_map.mpr ⟨.K1, (keyTypes_nodup hj).2, ?_⟩
        rw [hlabel]
  · rintro ⟨⟨hfirst, hsecond⟩, hlabels⟩
    have hinj : ∀ i ∈ identities config, ∀ j ∈ identities config, ∀ t ∈ i.keyTypes,
        ∀ t' ∈ j.keyTypes, fill i.publicationLabel t.name ps = fill j.publicationLabel t'.name ps →
          i.publicationLabel = j.publicationLabel ∧ t = t' := by
      intro i hi j hj t ht t' ht' heq
      obtain ⟨l, hl, hlword, hlowner⟩ := exists_keyLabel hcount hi
      obtain ⟨m, hm, hmword, hmowner⟩ := exists_keyLabel hcount hj
      rw [← hlword, ← hmword] at heq ⊢
      refine secretId_inj hfirst hsecond hl hm (fun ho => ?_) (fun ho => ?_) heq
      · rw [hlowner ho] at ht
        exact List.mem_singleton.mp ht
      · rw [hmowner ho] at ht'
        exact List.mem_singleton.mp ht'
    constructor
    · intro i hi
      refine List.Nodup.map_on (fun t ht t' ht' heq => ?_) (keyTypes_nodup hi).1
      exact (hinj i hi i hi t ht t' ht' heq).2
    · unfold List.Nodup at hlabels
      rw [List.pairwise_map] at hlabels
      refine hlabels.imp_of_mem fun {i j} hi hj hne => ?_
      intro id hid hid'
      obtain ⟨t, ht, rfl⟩ := List.mem_map.mp hid
      obtain ⟨t', ht', heq⟩ := List.mem_map.mp hid'
      exact hne (hinj i hi j hj t ht t' ht' heq.symm).1

/-! ### Labels that come once -/

/-- The labels that the producers' keys are published under. -/
def producerLabels (config : ClusterConfig) : List Text :=
  (producerNodes config).flatMap fun node =>
    node.producers.map (producerPublicationLabel node)

theorem identities_labels (config : ClusterConfig) :
    (identities config).map (·.publicationLabel) =
      BiosName :: Constants.BOOTSTRAP_NODE_OWNER :: (producerLabels config ++
        (List.range config.batchOperatorCount).map Constants.batchOperatorLabel ++
          (List.range config.underwriterCount).map Constants.underwriterLabel) := by
  unfold identities producerLabels
  rw [List.map_cons, List.map_cons, List.map_append, List.map_append, List.map_flatMap,
    List.map_map, List.map_map]
  simp only [List.map_map, Function.comp_def]
  rfl

/-- There are 26 letters. -/
theorem nodup_letters {f : ℕ → Text} {p : Text} (hf : ∀ i, f i = p ++ [letter (i % 26)]) (n : ℕ) :
    ((List.range n).map f).Nodup ↔ n ≤ 26 := by
  constructor
  · intro h
    by_contra hmore
    have hinj := List.inj_on_of_nodup_map h
    have hsame : f 0 = f 26 := by
      rw [hf, hf]
    have := hinj (List.mem_range.mpr (by omega)) (List.mem_range.mpr (by omega)) hsame
    omega
  · intro hfew
    refine List.Nodup.map_on (fun i hi j hj heq => ?_) List.nodup_range
    rw [List.mem_range] at hi hj
    rw [hf, hf] at heq
    have hletter : letter (i % 26) = letter (j % 26) := by
      have htail := List.append_cancel_left heq
      simpa using htail
    have hi' := toNat_letter (i % 26) (Nat.mod_lt _ (by decide))
    have hj' := toNat_letter (j % 26) (Nat.mod_lt _ (by decide))
    rw [hletter, hj'] at hi'
    omega

/-- What label a producer of a planned node publishes under. -/
theorem mem_producerLabels {config : ClusterConfig} {label : Text}
    (h : label ∈ producerLabels config) :
    (∃ k, label = nodeName k) ∨ ∃ i, label = producerName i := by
  obtain ⟨node, hnode, hlabel⟩ := List.mem_flatMap.mp h
  obtain ⟨producer, hproducer, rfl⟩ := List.mem_map.mp hlabel
  obtain ⟨k, hk, rfl⟩ := mem_producerNodes.mp hnode
  obtain ⟨i, hi, -, rfl⟩ := mem_hostedProducers.mp hproducer
  unfold producerPublicationLabel
  dsimp only
  split
  · exact Or.inl ⟨k, rfl⟩
  · exact Or.inr ⟨i, rfl⟩

theorem underscore_mem_nodeName (k : ℕ) : (95 : CodeUnit) ∈ nodeName k := by
  rw [nodeName_eq]
  simp

theorem nodeName_ne_producerName (k i : ℕ) : nodeName k ≠ producerName i := by
  intro h
  have hmem := underscore_mem_nodeName k
  rw [h] at hmem
  exact notMem_producerName (by decide) i hmem

/-- With distinct producer names the producers publish under distinct labels. -/
theorem nodup_producerLabels {config : ClusterConfig}
    (hcount : config.producerCount ≤ firstSuffix + 25) : (producerLabels config).Nodup := by
  have hnames := (nodup_producerNames config.producerCount).mpr hcount
  have hhosted : ∀ k, (hostedProducers config k).Nodup := by
    intro k
    unfold hostedProducers
    exact hnames.sublist (List.filter_sublist.map _)
  unfold producerLabels
  rw [List.nodup_flatMap]
  constructor
  · intro node hnode
    obtain ⟨k, hk, rfl⟩ := mem_producerNodes.mp hnode
    unfold producerPublicationLabel
    dsimp only
    split_ifs with hone
    · obtain ⟨producer, hproducer⟩ := List.length_eq_one_iff.mp hone
      rw [hproducer]
      simp
    · rw [List.map_id'']
      · exact hhosted k
      · exact fun _ => rfl
  · rw [producerNodes_eq, List.pairwise_map]
    refine List.nodup_range.imp_of_mem fun {k j} hk hj hne => ?_
    intro label hlabel hlabel'
    obtain ⟨producer, hproducer, rfl⟩ := List.mem_map.mp hlabel
    obtain ⟨producer', hproducer', heq⟩ := List.mem_map.mp hlabel'
    obtain ⟨i, hi, hturn, rfl⟩ := mem_hostedProducers.mp hproducer
    obtain ⟨i', hi', hturn', rfl⟩ := mem_hostedProducers.mp hproducer'
    unfold producerPublicationLabel at heq
    dsimp only at heq
    split_ifs at heq
    · exact hne (nodeName_inj heq).symm
    · exact nodeName_ne_producerName _ _ heq
    · exact nodeName_ne_producerName _ _ heq.symm
    · have hsame := List.inj_on_of_nodup_map hnames (List.mem_range.mpr hi')
        (List.mem_range.mpr hi) heq
      rw [hsame] at hturn'
      exact hne (hturn.2.symm.trans hturn'.2)

theorem dot_notMem_nodeName (k : ℕ) : (46 : CodeUnit) ∉ nodeName k := by
  rw [nodeName_eq]
  simp only [List.mem_append, List.mem_cons, not_or]
  refine ⟨by decide, by decide, ?_⟩
  unfold padStart
  rw [List.mem_append, not_or]
  constructor
  · intro hpad
    exact absurd (List.mem_replicate.mp hpad).2 (by decide)
  · intro hdigit
    exact absurd (Json.natText_isDigit k _ hdigit) (by decide)

theorem dot_notMem_producerLabels {config : ClusterConfig} {label : Text}
    (h : label ∈ producerLabels config) : (46 : CodeUnit) ∉ label := by
  rcases mem_producerLabels h with ⟨k, rfl⟩ | ⟨i, rfl⟩
  · exact dot_notMem_nodeName k
  · exact notMem_producerName (by decide) i

theorem genesis_notMem_producerLabels (config : ClusterConfig) :
    BiosName ∉ producerLabels config ∧
      Constants.BOOTSTRAP_NODE_OWNER ∉ producerLabels config := by
  constructor
  · intro h
    rcases mem_producerLabels h with ⟨k, hk⟩ | ⟨i, hi⟩
    · exact nodeName_ne_bios k hk.symm
    · have hmem : (95 : CodeUnit) ∈ BiosName := by decide
      rw [hi] at hmem
      exact notMem_producerName (by decide) i hmem
  · intro h
    rcases mem_producerLabels h with ⟨k, hk⟩ | ⟨i, hi⟩
    · have hmem := underscore_mem_nodeName k
      rw [← hk] at hmem
      exact absurd hmem (by decide)
    · have hlength := length_producerName_ge i
      rw [← hi] at hlength
      exact absurd hlength (by decide)

/-- The labels come once exactly when the operators' letters do. -/
theorem nodup_labels {config : ClusterConfig} (hcount : config.producerCount ≤ firstSuffix + 25) :
    ((identities config).map (·.publicationLabel)).Nodup ↔
      config.batchOperatorCount ≤ 26 ∧ config.underwriterCount ≤ 26 := by
  have hbatch := nodup_letters (f := Constants.batchOperatorLabel) (fun _ => rfl)
    config.batchOperatorCount
  have hunderwriters := nodup_letters (f := Constants.underwriterLabel) (fun _ => rfl)
    config.underwriterCount
  rw [identities_labels, List.nodup_cons, List.nodup_cons, List.nodup_append,
    List.nodup_append, hbatch, hunderwriters]
  have hbdot : ∀ i, (46 : CodeUnit) ∈ Constants.batchOperatorLabel i := by
    simp [batchOperatorLabel_eq]
  have hudot : ∀ i, (46 : CodeUnit) ∈ Constants.underwriterLabel i := by
    simp [underwriterLabel_eq]
  constructor
  · rintro ⟨-, -, ⟨-, hb, -⟩, hu, -⟩
    exact ⟨hb, hu⟩
  · rintro ⟨hb, hu⟩
    have hgenesis := genesis_notMem_producerLabels config
    refine ⟨?_, ?_, ⟨nodup_producerLabels hcount, hb, ?_⟩, hu, ?_⟩
    · simp only [List.mem_cons, List.mem_append, List.mem_map, not_or, not_exists, not_and]
      refine ⟨by decide, ⟨hgenesis.1, fun i _ h => ?_⟩, fun i _ h => ?_⟩
      · exact absurd (h ▸ hbdot i : (46 : CodeUnit) ∈ BiosName) (by decide)
      · exact absurd (h ▸ hudot i : (46 : CodeUnit) ∈ BiosName) (by decide)
    · simp only [List.mem_append, List.mem_map, not_or, not_exists, not_and]
      refine ⟨⟨hgenesis.2, fun i _ h => ?_⟩, fun i _ h => ?_⟩
      · exact absurd (h ▸ hbdot i : (46 : CodeUnit) ∈ Constants.BOOTSTRAP_NODE_OWNER) (by decide)
      · exact absurd (h ▸ hudot i : (46 : CodeUnit) ∈ Constants.BOOTSTRAP_NODE_OWNER) (by decide)
    · rintro label hlabel _ hmem rfl
      obtain ⟨i, -, rfl⟩ := List.mem_map.mp hmem
      exact dot_notMem_producerLabels hlabel (hbdot i)
    · rintro label hlabel _ hmem rfl
      obtain ⟨i, -, rfl⟩ := List.mem_map.mp hmem
      rcases List.mem_append.mp hlabel with hproducer | hbatch
      · exact dot_notMem_producerLabels hproducer (hudot i)
      · obtain ⟨j, -, heq⟩ := List.mem_map.mp hbatch
        have hlength := congrArg List.length heq
        exact absurd hlength (by decide : ¬(9 = 7))

/-- When publications are accepted, on the pattern's parts. -/
theorem accepted_iff {config : ClusterConfig} {ssm : SSMSettings}
    {aws : AWSClusterNodeConfig} (hssm : config.ssm = some ssm)
    (haws : config.awsClusterNodeConfig = some aws)
    (hcount : config.producerCount ≤ firstSuffix + 25) :
    (∃ ps, signatureProviderKeyPublications config = .ok ps) ↔
      Filled ssm.awsSecretIdPattern (substitutions ssm aws) ∧
      (.first ∈ idTemplate ssm aws ∧ .second ∈ idTemplate ssm aws) ∧
      config.batchOperatorCount ≤ 26 ∧ config.underwriterCount ≤ 26 := by
  have hbound : config.producerCount ≤ 26 ^ 7 := le_trans hcount (by decide)
  have hids : ((rows config).map (publicationOf ssm aws)).map (·.secretId) =
      secretIds config (idTemplate ssm aws) := by
    rw [List.map_map]
    rfl
  have hnodup : (((rows config).map (publicationOf ssm aws)).map (·.secretId)).Nodup ↔
      (.first ∈ idTemplate ssm aws ∧ .second ∈ idTemplate ssm aws) ∧
        config.batchOperatorCount ≤ 26 ∧ config.underwriterCount ≤ 26 := by
    rw [hids, nodup_secretIds hbound, nodup_labels hcount]
  simp only [signatureProviderKeyPublications_eq_ok hssm haws]
  constructor
  · rintro ⟨ps, hfilled, rfl, hps⟩
    exact ⟨hfilled, hnodup.mp hps⟩
  · rintro ⟨hfilled, hparts⟩
    exact ⟨_, hfilled, rfl, hnodup.mpr hparts⟩

/-- The publications of an SSM config are accepted exactly when every placeholder of the pattern
has a value, the pattern names the account and the curve, and there are at most 26 batch
operators and at most 26 underwriters. -/
theorem publications_accepted_iff {config : ClusterConfig} {ssm : SSMSettings}
    {aws : AWSClusterNodeConfig} (hssm : config.ssm = some ssm)
    (haws : config.awsClusterNodeConfig = some aws)
    (hcount : config.producerCount ≤ firstSuffix + 25) :
    (∃ ps, signatureProviderKeyPublications config = .ok ps) ↔
      Filled ssm.awsSecretIdPattern (substitutions ssm aws) ∧
      Mentions ssm.awsSecretIdPattern (text "account") ∧
      Mentions ssm.awsSecretIdPattern (text "keyType") ∧
      config.batchOperatorCount ≤ 26 ∧ config.underwriterCount ≤ 26 := by
  rw [accepted_iff hssm haws hcount, and_assoc]
  unfold idTemplate
  rw [first_mem_template, second_mem_template]

/-- A cluster with two batch operators whose keys are in two regions. -/
def ssmCluster (ssm : SSMSettings) (producers nodes : ℕ) : ClusterConfig where
  producerCount := producers
  batchOperatorCount := 2
  underwriterCount := 0
  producerNodeCount := nodes
  batchNodeCount := 2
  underwriterNodeCount := 0
  apiNodeCount := 0
  signatureProvider := .SSM
  ssm := some ssm
  awsClusterNodeConfig := some ⟨text "wire", [text "us-east-1", text "eu-west-1"]⟩

/-- A pattern without the curve is refused. -/
theorem publications_accepted_sample : ¬∃ ps, signatureProviderKeyPublications
    (ssmCluster ⟨text "/\x7bcluster\x7d/\x7baccount\x7d", none, none⟩ 2 2) = .ok ps := by
  intro h
  have haccepted := (publications_accepted_iff rfl rfl (by decide)).mp h
  exact absurd haccepted.2.2.1 (by decide)

end KeySteps

end WireTools

import WireTools.KeyCustody
import WireTools.KeyFile

/-! # What creates of an SSM cluster come to

* `create_custodies`: a create of an unpublished cluster, or of one whose producers share no
  node, finishes; every key of `cluster-keys.json` is then in every region, but for those of the
  nodes that do not host exactly one producer;
* `creates_finish_iff_unshared`: a cluster can be created again, whatever creates have left,
  exactly when no producer shares its node.

The keys that a create generates are `Fresh`. -/

namespace WireTools

namespace KeySteps

open NodeConfig ClusterConfigProvider SSMClientProvider KeyLabel Outcome ClusterState
open ClioRunner (trim)

variable {env : Surroundings} {config : ClusterConfig} {ssm : SSMSettings}
  {aws : AWSClusterNodeConfig} {clear : KeyType → KeyLabel → Prop} {params : ParameterStore}
  {ring : KeyRing env.lib} {c : Create} {operators steps : List CreateStep}

/-! ### Operators one after another -/

/-- Each operator's steps after those of the one before it. -/
def inTurn (config : ClusterConfig) : List CreateStep :=
  (List.range config.batchOperatorCount).flatMap planProvisionOppOperatorPhase

theorem flatMap_range_ite {α : Type} {i : ℕ} {xs : List α} : ∀ n : ℕ,
    ((List.range n).flatMap fun j => if j = i then xs else []) = if i < n then xs else []
  | 0 => rfl
  | n + 1 => by
      rw [List.range_succ, List.flatMap_append, flatMap_range_ite n]
      rcases lt_trichotomy i n with hlt | rfl | hgt
      · simp [hlt, hlt.ne', Nat.lt_succ_of_lt hlt]
      · simp
      · simp [hgt.ne, not_lt.mpr hgt.le, not_lt.mpr (Nat.succ_le_of_lt hgt)]

theorem operatorSteps_inTurn (hbatch : config.batchOperatorCount ≤ 26) :
    OperatorSteps config (inTurn config) := by
  constructor
  · intro step hstep
    obtain ⟨i, hi, hstep⟩ := List.mem_flatMap.mp hstep
    exact ⟨i, List.mem_range.mp hi, hstep⟩
  · intro i hi
    have hnodup := (nodup_letters (f := Constants.batchOperatorLabel) (fun _ => rfl)
      config.batchOperatorCount).mpr hbatch
    have hown : ∀ j ∈ List.range config.batchOperatorCount,
        (planProvisionOppOperatorPhase j).filter
          (fun step => step.operator = some (Constants.batchOperatorLabel i)) =
            if j = i then planProvisionOppOperatorPhase i else [] := by
      intro j hj
      by_cases hsame : j = i
      · rw [hsame, if_pos rfl]
        simp [planProvisionOppOperatorPhase, CreateStep.operator]
      · have hother : Constants.batchOperatorLabel j ≠ Constants.batchOperatorLabel i := fun h =>
          hsame (List.inj_on_of_nodup_map hnodup hj (List.mem_range.mpr hi) h)
        rw [if_neg hsame]
        simp [planProvisionOppOperatorPhase, CreateStep.operator, hother]
    unfold inTurn
    rw [List.filter_flatMap, List.flatMap_congr hown, flatMap_range_ite, if_pos hi]

/-! ### The key file of a finished create -/

/-- Every region holds the key whose public key a captured pair states. -/
def Backed (lib : SigningLibrary) (params : ParameterStore) (regions : List Text) {t : KeyType}
    (pair : KeyPair t) : Prop :=
  ∃ secretId, pair.awsSecretId = some secretId ∧ ∃ k : lib.Key t,
    pair.publicKey = lib.publicKey k ∧ pair.extension = lib.extension k ∧
      ∀ region ∈ regions, Reads params region secretId (lib.toNativeString k)

section Captured

variable (hr : Resolved config ssm aws)
  (hmet : ∀ need, Finished config aws need → need.Met env config ssm aws ring c)
include hr hmet

end Captured

/-- The secret ids of a node that does not host exactly one producer are no publication's. -/
theorem unused_node (hr : Resolved config ssm aws) {k : ℕ} {t : KeyType}
    (hone : (hostedProducers config k).length ≠ 1) :
    Unused config ssm aws (keyId ssm aws (.node k) t) := by
  intro l t' hl ht' hid
  have hnode := (hr.keyId_inj (l := .node k) True.intro hl.known_publication (by simp)
    (publication_owner ht') hid).1
  obtain ⟨i, -, halone, rfl⟩ := hl.publication_eq_node hnode.symm
  exact hone halone

/-- A create of an unpublished cluster, or of one without shared nodes, has a ring whose keys can
all be published. -/
theorem exists_begins (hr : Resolved config ssm aws) (hparams : Reached env.lib config params)
    (hfresh : Fresh env.lib config params env.generate)
    (hstart : Unshared config ∨ Unpublished config params) :
    ∃ ring, Begins env config ssm aws (fun _ _ => True) params ring := by
  rcases hstart with hunshared | hunpublished
  · obtain ⟨ring, hring⟩ := (hparams.settled hr hunshared).begins hr hfresh
    exact ⟨ring, hring.clear_of_unshared hunshared⟩
  · exact ⟨_, begins_of_unpublished hr hunpublished hfresh.distinct⟩

/-- The first code unit of a sample key. -/
def sampleCurve : KeyType → CodeUnit
  | .K1 => 75
  | .BLS => 66
  | .EM => 69
  | .ED => 68

/-- The text of a sample key: its curve, which set it is of, and the account it was generated
for. -/
def sampleText (t : KeyType) (k : Text × Bool) : Text :=
  sampleCurve t :: ((if k.2 then 97 else 98) :: k.1 ++ [46])

def sampleParse : Text → Option ((_ : KeyType) × Text × Bool)
  | curve :: set :: rest =>
      ([.K1, .BLS, .EM, .ED].find? fun t => sampleCurve t = curve).map fun t =>
        ⟨t, rest.dropLast, decide (set = 97)⟩
  | _ => none

theorem sampleParse_sampleText (t : KeyType) (k : Text × Bool) :
    sampleParse (sampleText t k) = some ⟨t, k⟩ := by
  obtain ⟨account, set⟩ := k
  cases t <;> cases set <;> simp [sampleParse, sampleText, sampleCurve]

theorem trim_sampleText (t : KeyType) (k : Text × Bool) :
    trim (sampleText t k) = sampleText t k := by
  have hcurve : isSpace (sampleCurve t) = false := by cases t <;> decide
  have hend : isSpace 46 = false := by decide
  unfold trim sampleText
  rw [List.dropWhile_cons_of_neg (by simp [hcurve]), ← List.cons_append, List.reverse_append,
    List.reverse_singleton, List.singleton_append, List.dropWhile_cons_of_neg (by simp [hend])]
  simp

/-- A signing library with two keys of each curve for every account. -/
def sampleLibrary : SigningLibrary where
  Key _ := Text × Bool
  toString {t} k := sampleText t k
  toNativeString {t} k := sampleText t k
  publicKey {t} k := sampleText t k
  extension {t} _ := match t with | .K1 => () | .BLS => [] | .EM => [] | .ED => ()
  parse := sampleParse
  privateKeyFromNativeString t s := (sampleParse s).bind fun k => if k.1 = t then some k.2 else none
  operatorType _ := 0
  parse_toString := sampleParse_sampleText _
  fromNative_toNative k := by simp [sampleParse_sampleText]
  trim_native := trim_sampleText _
  toString_ne_nil _ := List.cons_ne_nil _ _
  native_ne_nil _ := List.cons_ne_nil _ _
  nonempty _ := ⟨([], true)⟩

/-- Keys of one set, each for the account it is generated for. -/
def sampleGenerate (set : Bool) : (t : KeyType) → Text → sampleLibrary.Key t :=
  fun _ account => (show Text × Bool from (account, set))

theorem apart_sampleGenerate (hr : Resolved config ssm aws) :
    Apart config (sampleGenerate true) (sampleGenerate false) := by
  have hdistinct : ∀ set, Distinct config fun t l => sampleGenerate set t l.word :=
    fun set t l m _ hl hm hsame =>
      hr.word_inj hl.known.1 hm.known.1 (Prod.mk.inj hsame).1
  exact ⟨hdistinct true, hdistinct false, fun t l m _ _ _ hsame =>
    absurd (Prod.mk.inj hsame).2 (by decide)⟩

def sampleRegions : List Text := [text "us-east-1", text "eu-west-1"]

def sampleSettings : SSMSettings :=
  ⟨text "/\x7bcluster\x7d/\x7baccount\x7d/\x7bkeyType\x7d", none, some sampleRegions⟩

theorem ssmCluster_resolved {producers nodes : ℕ} (hproducers : producers ≤ firstSuffix + 25)
    (haccepted : (signatureProviderKeyPublications
      (ssmCluster sampleSettings producers nodes)).toOption.isSome = true) :
    Resolved (ssmCluster sampleSettings producers nodes) sampleSettings
      ⟨text "wire", sampleRegions⟩ where
  custody := rfl
  settings := rfl
  placement := rfl
  regions := rfl
  regions_ne := by decide
  underwriters := rfl
  producers := hproducers
  accepted := by
    cases hps : signatureProviderKeyPublications (ssmCluster sampleSettings producers nodes) with
    | ok ps => exact ⟨ps, rfl⟩
    | error e =>
        rw [hps] at haccepted
        cases haccepted

/-- A region that holds another key refuses the publication. -/
theorem publishTo_refused {p : SignatureProviderKeyPublication} {region : Text}
    {k k' : env.lib.Key p.keyType} (hnative : nativeKey env c p = .ok (env.lib.toNativeString k'))
    (hreads : Reads c.params region p.secretId (env.lib.toNativeString k)) (hne : k ≠ k') :
    publishTo env c p region =
      .error (.differentKey p.secretId region p.keyType.name p.label) := by
  unfold Reads at hreads
  unfold publishTo
  rw [hnative]
  show (tryGetParameter c.params region p.secretId >>= _) = _
  rw [hreads]
  show (assertPublishedKeyMatches env p region _ _ >>= _) = _
  unfold assertPublishedKeyMatches
  rw [env.lib.fromNative_toNative]
  dsimp only
  rw [if_neg fun h => hne (env.lib.toNativeString_inj h)]
  rfl

theorem nativeKey_congr {c c' : Create} (h : c'.keyStore = c.keyStore)
    (p : SignatureProviderKeyPublication) : nativeKey env c' p = nativeKey env c p := by
  unfold nativeKey
  rw [h]

/-- Publications leave the key store. -/
theorem run_publications_keyStore {ps : List SignatureProviderKeyPublication}
    {phase : SignatureKeyPublishPhase}
    (hsub : steps ⊆ planSignatureProviderKeyPublications ps phase) :
    (run env config steps c).1.keyStore = c.keyStore := by
  refine Schedules.run_induction (fun (c' : Create) => c'.keyStore = c.keyStore) rfl
    fun s s' step hstep hs hperform => ?_
  obtain ⟨p, -, hp⟩ := List.mem_flatMap.mp (hsub hstep)
  obtain ⟨region, -, rfl⟩ := List.mem_map.mp hp
  exact (publishTo_changes hperform).1.trans hs

/-- A create stops at a shared node's producer when a region holds another K1 of it. -/
theorem run_refused (hr : Resolved config ssm aws)
    (hsteps : compose config operators = .ok steps)
    (hb : Begins env config ssm aws (fun _ _ => False) params ring) {i : ℕ}
    (hi : Owns config (.producer i)) (hshared : ¬Alone config i) {region : Text}
    (hregion : region ∈ aws.regions) {k : env.lib.Key .K1}
    (hreads : Reads params region (keyId ssm aws (.producer i) .K1) (env.lib.toNativeString k))
    (hne : k ≠ ring .K1 (.node (hostIndex config i))) :
    (run env config steps (.start params)).2 ≠ none := by
  intro hnone
  obtain ⟨ps, hps, rfl⟩ := compose_eq_ok hr hsteps
  rw [List.append_assoc, List.append_assoc] at hnone
  obtain ⟨c, hrun, hnone⟩ := Schedules.run_append_none hnone
  -- up to the first publication the create is scheduled, whatever is published
  have hscheduled : Schedules.Scheduled (Legit config ssm aws fun _ _ => False) []
      (keySteps ++ planProducerIdentityPhase config) :=
    keySteps_scheduled.append (producers_scheduled
      (supplied_of_mem (by simp [keySteps]) .generateNodeKeys (by simp)))
  obtain ⟨c', hrun', hinv, hmet⟩ :=
    run_scheduled hr hb (keySteps_producers_once hr.producers) hscheduled
  obtain rfl : c' = c := congrArg Prod.fst (hrun'.symm.trans hrun)
  have hrecord := hmet (.record (.producer i)) (supplied_of_mem
    (List.mem_append_right _ (mem_planProducerIdentityPhase.mpr ⟨i, hi, rfl⟩))
    (.producerMaterialization hi) List.mem_cons_self)
  have hcurve : KeyType.K1 ∈ (KeyLabel.producer i).curves := hi.K1_mem_curves
  have hnative := nativeKey_eq hr hinv hi hcurve hrecord
  rw [source_node (Or.inl rfl)] at hnative
  -- the publications before it leave the key store and the parameter
  have hmem : .publishSignatureProviderKey (keyPublication config ssm aws (.producer i) .K1)
      region ∈ planSignatureProviderKeyPublications ps .beforeNodes :=
    (mem_planPublications hr hps).mpr
      ⟨.producer i, .K1, region, hi, hcurve, hregion, rfl, rfl⟩
  obtain ⟨before, after, hsplit⟩ := List.append_of_mem hmem
  rw [hsplit, List.append_assoc] at hnone
  obtain ⟨c'', hrun'', hnone⟩ := Schedules.run_append_none hnone
  have hstore : (run env config before c').1.keyStore = c'.keyStore := by
    refine run_publications_keyStore (show before ⊆
      planSignatureProviderKeyPublications ps .beforeNodes from ?_)
    rw [hsplit]
    exact List.subset_append_left _ _
  have hkept : Kept c'.params (run env config before c').1.params := run_kept before c'
  rw [show run env config before c' = (c'', none) from hrun''] at hstore hkept
  have hid : (keyPublication config ssm aws (.producer i) .K1).secretId =
      keyId ssm aws (.producer i) .K1 := by
    unfold keyPublication
    rw [publication_shared hshared]
  have hheld := (hinv.kept.trans hkept).reads hreads
  rw [← hid] at hheld
  have hrefused := publishTo_refused ((nativeKey_congr hstore _).trans hnative) hheld hne
  rw [List.cons_append, Schedules.run_cons_error hrefused] at hnone
  cases hnone

/-- A create after a finished one with other keys fails, when a producer shares its node. -/
theorem shared_create_fails {lib : SigningLibrary} (hr : Resolved config ssm aws)
    {generate generate' : (t : KeyType) → Text → lib.Key t}
    (hapart : Apart config generate generate') {i : ℕ} (hi : Owns config (.producer i))
    (hshared : ¬Alone config i) (account : Text → Text) :
    ∃ params operators steps, Reached lib config params ∧ Fresh lib config params generate' ∧
      OperatorSteps config operators ∧ compose config operators = .ok steps ∧
        (run ⟨lib, generate', account⟩ config steps (.start params)).2 ≠ none := by
  have hunpublished : Unpublished config fun _ _ => none := fun _ _ _ _ _ => rfl
  have hoperators := operatorSteps_inTurn hr.accepts.2.2
  obtain ⟨steps, hsteps⟩ := hr.composes (inTurn config)
  -- the first create publishes the producer's K1, and nothing for its node
  have hbegins : Begins ⟨lib, generate, account⟩ config ssm aws (fun _ _ => True)
      (fun _ _ => none) fun t l => generate t l.word :=
    begins_of_unpublished hr hunpublished hapart.left
  obtain ⟨c, hrun, hinv, hmet⟩ :=
    run_finishes hr hoperators hsteps (fun _ _ => True.intro) hbegins
  have hreached := Reached.create (.unpublished hunpublished) generate
    (hapart.fresh hunpublished) account hoperators hsteps steps.length
  have hfresh := hapart.fresh_create hr hunpublished account hoperators hsteps steps.length
  rw [List.take_length, hrun] at hreached hfresh
  obtain ⟨region, hregion⟩ := List.exists_mem_of_ne_nil _ hr.regions_ne
  have hreads : Reads c.params region (keyId ssm aws (.producer i) .K1)
      (lib.toNativeString (generate .K1 (nodeName (hostIndex config i)))) := by
    have hpublished : Reads c.params region
        (keyId ssm aws ((KeyLabel.producer i).publication config) .K1) (lib.toNativeString
          (generate .K1 ((KeyLabel.producer i).source config .K1).word)) :=
      hmet _ (.published hi hi.K1_mem_curves hregion)
    rwa [publication_shared hshared, source_node (Or.inl rfl)] at hpublished
  -- the second create generates another K1 for the node
  have hsettled : Settled lib config ssm aws c.params :=
    settled_of_ring hbegins.distinct hinv.holds
  have hring : ∃ ring, Begins ⟨lib, generate', account⟩ config ssm aws (fun _ _ => False)
      c.params ring := Settled.begins hr hsettled hfresh
  obtain ⟨ring, hring⟩ := hring
  have habsent : Absent c.params aws.regions
      (keyId ssm aws (.node (hostIndex config i)) .K1) := fun r _ =>
    hreached.unused hr (unused_node hr hshared) r
  have hadopts : Adopts config .K1 (.node (hostIndex config i)) :=
    ⟨Nat.mod_lt i hi.2, Or.inl rfl⟩
  refine ⟨c.params, inTurn config, steps, hreached, hfresh, hoperators, hsteps,
    run_refused hr hsteps hring hi hshared hregion hreads ?_⟩
  rw [hring.fresh _ _ hadopts habsent]
  exact hapart.apart .K1 (.node _) (.node _) (Or.inl rfl) hadopts hadopts

/-- A cluster can be created again, whatever creates have left, exactly when no producer shares
its node. -/
theorem creates_finish_iff_unshared {lib : SigningLibrary} (hr : Resolved config ssm aws)
    (hkeys : ∃ generate generate' : (t : KeyType) → Text → lib.Key t,
      Apart config generate generate') :
    (∀ params, Reached lib config params → ∀ generate, Fresh lib config params generate →
      ∀ account operators steps, OperatorSteps config operators →
        compose config operators = .ok steps →
          (run ⟨lib, generate, account⟩ config steps (.start params)).2 = none) ↔
      ∀ node ∈ producerNodes config, node.producers.length ≤ 1 := by
  constructor
  · intro hfinish node hnode
    by_contra hmore
    obtain ⟨k, hk, rfl⟩ := mem_producerNodes.mp hnode
    obtain ⟨generate, generate', hapart⟩ := hkeys
    have hcount : 1 < (hostedProducers config k).length := not_le.mp hmore
    obtain ⟨name, hname⟩ := List.exists_mem_of_ne_nil (hostedProducers config k) (by
      rintro hnil
      rw [hnil] at hcount
      exact absurd hcount (by decide))
    obtain ⟨i, hi, ⟨hpos, rfl⟩, rfl⟩ := mem_hostedProducers.mp hname
    have hshared : ¬Alone config i := fun halone => absurd hcount (by
      rw [show (hostedProducers config (i % config.producerNodeCount)).length = 1 from halone]
      decide)
    obtain ⟨params, operators, steps, hparams, hfresh, hoperators, hsteps, hfails⟩ :=
      shared_create_fails hr hapart (i := i) ⟨hi, hpos⟩ hshared id
    exact hfails (hfinish params hparams generate' hfresh id operators steps hoperators hsteps)
  · intro hunshared params hparams generate hfresh account operators steps hoperators hsteps
    have hbegins : ∃ ring, Begins ⟨lib, generate, account⟩ config ssm aws (fun _ _ => True) params
        ring := exists_begins hr hparams hfresh (Or.inl hunshared)
    obtain ⟨ring, hring⟩ := hbegins
    obtain ⟨c, hrun, -⟩ := run_finishes hr hoperators hsteps (fun _ _ => True.intro) hring
    rw [hrun]

/-- Three producers on two nodes: some create fails. -/
theorem creates_finish_sample : ¬∀ params,
    Reached sampleLibrary (ssmCluster sampleSettings 3 2) params → ∀ generate,
      Fresh sampleLibrary (ssmCluster sampleSettings 3 2) params generate →
        ∀ account operators steps, OperatorSteps (ssmCluster sampleSettings 3 2) operators →
          compose (ssmCluster sampleSettings 3 2) operators = .ok steps →
            (run ⟨sampleLibrary, generate, account⟩ (ssmCluster sampleSettings 3 2) steps
              (.start params)).2 = none := by
  intro h
  have hr : Resolved (ssmCluster sampleSettings 3 2) sampleSettings ⟨text "wire", sampleRegions⟩ :=
    ssmCluster_resolved (by decide) (by decide +kernel)
  have hunshared := (creates_finish_iff_unshared hr
    ⟨sampleGenerate true, sampleGenerate false, apart_sampleGenerate hr⟩).mp h
  exact absurd hunshared (by decide +kernel)

end KeySteps

end WireTools

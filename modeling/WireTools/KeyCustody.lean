import WireTools.KeyCreateRuns

/-! # Custody of a cluster's keys over its creates

* `run_kept`, `run_frame`: no run overwrites or removes a parameter, or writes one that is not a
  publication's;
* `Reached`: the parameters that creates leave, each with keys that are `Fresh`, as the wallet
  refuses a key it holds;
* `Reached.settled`: when no producer shares its node, whatever creates have left, every key can
  be adopted. -/

namespace WireTools

namespace KeySteps

open NodeConfig ClusterConfigProvider SSMClientProvider KeyLabel Outcome
open NodeTopology (OperatorType)

variable {env : Surroundings} {config : ClusterConfig} {ssm : SSMSettings}
  {aws : AWSClusterNodeConfig} {c c' : Create} {step : CreateStep} {steps : List CreateStep}

/-! ### What any run does to the parameters -/

/-- A publication leaves the key store, and puts at most its own parameter. -/
theorem publishTo_changes {p : SignatureProviderKeyPublication} {region : Text}
    (h : publishTo env c p region = .ok c') : c'.keyStore = c.keyStore ∧
      (c'.params = c.params ∨ ∃ value tags,
        putParameter c.params region p.secretId value tags = .ok c'.params) := by
  unfold publishTo at h
  simp only [except_bind_eq_ok] at h
  obtain ⟨value, -, existing, -, h⟩ := h
  cases existing with
  | some existing =>
      simp only [except_bind_eq_ok] at h
      obtain ⟨-, -, ⟨⟩⟩ := h
      exact ⟨rfl, Or.inl rfl⟩
  | none =>
      simp only [except_bind_eq_ok] at h
      obtain ⟨params, hput, ⟨⟩⟩ := h
      exact ⟨rfl, Or.inr ⟨value, _, hput⟩⟩

theorem addPrivateKey_params {privateKeys : List (Option Text)}
    (h : c.addPrivateKey privateKeys = .ok c') : c'.params = c.params := by
  unfold Create.addPrivateKey at h
  rw [except_bind_eq_ok] at h
  obtain ⟨_, -, ⟨⟩⟩ := h
  rfl

theorem runProducerMaterialization_params {label publicationLabel : Text} {index : Int}
    (h : runProducerMaterialization env config c label index publicationLabel = .ok c') :
    c'.params = c.params := by
  unfold runProducerMaterialization at h
  split at h
  · cases h
  · split_ifs at h
    · simp only [except_bind_eq_ok] at h
      obtain ⟨_, -, ⟨⟩⟩ := h
      rfl
    · simp only [except_bind_eq_ok] at h
      obtain ⟨_, -, _, -, _, himport, ⟨⟩⟩ := h
      have hparams := addPrivateKey_params himport
      exact hparams

theorem runIdentityMaterialization_params {label : Text} {type : OperatorType}
    (h : runIdentityMaterialization env config c label type = .ok c') :
    c'.params = c.params := by
  unfold runIdentityMaterialization at h
  split_ifs at h
  · simp only [except_bind_eq_ok] at h
    obtain ⟨_, -, _, -, _, -, _, -, _, -, _, himport, ⟨⟩⟩ := h
    have hparams := addPrivateKey_params himport
    exact hparams
  · simp only [except_bind_eq_ok] at h
    obtain ⟨_, -, _, -, _, -, _, -, _, himport, ⟨⟩⟩ := h
    have hparams := addPrivateKey_params himport
    exact hparams

/-- Only a publication changes the parameters. -/
theorem perform_params (h : perform env config c step = .ok c')
    (hstep : ∀ p region, step ≠ .publishSignatureProviderKey p region) :
    c'.params = c.params := by
  cases step with
  | resolveWithBiosKeys =>
      simp only [perform, resolveWithBiosKeys, except_bind_eq_ok] at h
      obtain ⟨_, -, _, -, _, -, ⟨⟩⟩ := h
      rfl
  | generateNodeKeys =>
      simp only [perform, runGenerateNodeKeys, except_bind_eq_ok] at h
      obtain ⟨_, -, ⟨⟩⟩ := h
      rfl
  | createWallet => exact addPrivateKey_params h
  | producerMaterialization label index publicationLabel =>
      exact runProducerMaterialization_params h
  | identityMaterialization label type => exact runIdentityMaterialization_params h
  | sponsoredAccountCreation label =>
      simp only [perform, runSponsoredAccountCreation, except_bind_eq_ok] at h
      obtain ⟨_, -, ⟨⟩⟩ := h
      rfl
  | publishSignatureProviderKey p region => exact absurd rfl (hstep p region)

/-- No step overwrites or removes a parameter. -/
theorem perform_kept (h : perform env config c step = .ok c') : Kept c.params c'.params := by
  by_cases hstep : ∃ p region, step = .publishSignatureProviderKey p region
  · obtain ⟨p, region, rfl⟩ := hstep
    obtain ⟨-, hsame | ⟨value, tags, hput⟩⟩ := publishTo_changes h
    · rw [hsame]
      exact Kept.refl _
    · exact putParameter_kept hput
  · rw [perform_params h fun p region hp => hstep ⟨p, region, hp⟩]
    exact Kept.refl _

/-- A step leaves the parameters that it does not publish. -/
theorem perform_frame (h : perform env config c step = .ok c') {region id : Text}
    (hid : ∀ p r, step = .publishSignatureProviderKey p r → id ≠ p.secretId) :
    c'.params region id = c.params region id := by
  by_cases hstep : ∃ p r, step = .publishSignatureProviderKey p r
  · obtain ⟨p, r, rfl⟩ := hstep
    obtain ⟨-, hsame | ⟨value, tags, hput⟩⟩ := publishTo_changes h
    · rw [hsame]
    · exact (putParameter_eq_ok hput).2.2 region id fun hat => hid p r rfl hat.2
  · rw [perform_params h fun p r hp => hstep ⟨p, r, hp⟩]

/-- No run, finished or not, overwrites or removes a parameter. -/
theorem run_kept (steps : List CreateStep) (c : Create) :
    Kept c.params (run env config steps c).1.params :=
  Schedules.run_induction (fun (c' : Create) => Kept c.params c'.params) (Kept.refl _)
    fun _ _ _ _ hs hperform => hs.trans (perform_kept hperform)

/-- A run leaves the parameters that none of its steps publishes. -/
theorem run_frame {region id : Text}
    (hid : ∀ p r, .publishSignatureProviderKey p r ∈ steps → id ≠ p.secretId) :
    (run env config steps c).1.params region id = c.params region id := by
  refine Schedules.run_induction (fun (c' : Create) => c'.params region id = c.params region id) rfl
    fun s s' step hstep hs hperform => ?_
  rw [← hs]
  apply perform_frame hperform
  rintro p r rfl
  exact hid p r hstep

/-! ### What creates leave -/

/-- No producer shares its node. -/
def Unshared (config : ClusterConfig) : Prop :=
  ∀ node ∈ producerNodes config, node.producers.length ≤ 1

instance (config : ClusterConfig) : Decidable (Unshared config) :=
  inferInstanceAs (Decidable (∀ node ∈ producerNodes config, node.producers.length ≤ 1))

/-- A secret id that no publication has. -/
def Unused (config : ClusterConfig) (ssm : SSMSettings) (aws : AWSClusterNodeConfig)
    (id : Text) : Prop :=
  ∀ l t, Owns config l → t ∈ l.curves → id ≠ keyId ssm aws (l.publication config) t

theorem mem_compose_publish (hr : Resolved config ssm aws) {operators : List CreateStep}
    (hoperators : OperatorSteps config operators) (hsteps : compose config operators = .ok steps)
    {p : SignatureProviderKeyPublication} {region : Text}
    (h : .publishSignatureProviderKey p region ∈ steps) :
    ∃ l t, Owns config l ∧ t ∈ l.curves ∧ p = keyPublication config ssm aws l t := by
  obtain ⟨ps, hps, rfl⟩ := compose_eq_ok hr hsteps
  simp only [List.mem_append, or_assoc] at h
  rcases h with h | h | h | h | h
  · simp [keySteps] at h
  · obtain ⟨i, -, hi⟩ := mem_planProducerIdentityPhase.mp h
    cases hi
  · obtain ⟨l, t, _, hl, ht, -, -, heq⟩ := (mem_planPublications hr hps).mp h
    exact ⟨l, t, hl, ht, (CreateStep.publishSignatureProviderKey.inj heq).1⟩
  · obtain ⟨i, -, hi⟩ := hoperators.provisions _ h
    simp [planProvisionOppOperatorPhase] at hi
  · obtain ⟨l, t, _, hl, ht, -, -, heq⟩ := (mem_planPublications hr hps).mp h
    exact ⟨l, t, hl, ht, (CreateStep.publishSignatureProviderKey.inj heq).1⟩

/-- A create, finished or not, leaves the parameters that no publication has. -/
theorem run_unused (hr : Resolved config ssm aws) {operators : List CreateStep}
    (hoperators : OperatorSteps config operators) (hsteps : compose config operators = .ok steps)
    (n : ℕ) {region id : Text} (hid : Unused config ssm aws id) :
    (run env config (steps.take n) c).1.params region id = c.params region id := by
  apply run_frame
  intro p r hp
  obtain ⟨l, t, hl, ht, rfl⟩ :=
    mem_compose_publish hr hoperators hsteps (List.mem_of_mem_take hp)
  exact hid l t hl ht

/-- Nothing was published for a config. -/
def Unpublished (config : ClusterConfig) (params : ParameterStore) : Prop :=
  ∀ account t secretId region, ssmSecretId config account t = .ok secretId →
    params region secretId = none

/-- Generated keys that the wallet will take: the K1 and BLS keys of different labels differ, and
no region holds one that a create would adopt. -/
structure Fresh (lib : SigningLibrary) (config : ClusterConfig) (params : ParameterStore)
    (generate : (t : KeyType) → Text → lib.Key t) : Prop where
  distinct : Distinct config fun t l => generate t l.word
  unheld : ∀ t l m, t = .K1 ∨ t = .BLS → Adopts config t l → Adopts config t m →
    ∀ regions secretId region, replicationRegions config = .ok regions →
      ssmSecretId config m.word t = .ok secretId → region ∈ regions →
        ¬Reads params region secretId (lib.toNativeString (generate t l.word))

/-- The parameters that creates of a config leave, each with fresh keys, account names and an
operator order of its own, and stopped after any number of steps. -/
inductive Reached (lib : SigningLibrary) (config : ClusterConfig) : ParameterStore → Prop where
  | unpublished {params : ParameterStore} (h : Unpublished config params) :
      Reached lib config params
  | create {params : ParameterStore} (h : Reached lib config params)
      (generate : (t : KeyType) → Text → lib.Key t) (hfresh : Fresh lib config params generate)
      (account : Text → Text) {operators steps : List CreateStep}
      (hoperators : OperatorSteps config operators) (hsteps : compose config operators = .ok steps)
      (n : ℕ) :
      Reached lib config
        (run ⟨lib, generate, account⟩ config (steps.take n) (.start params)).1.params

/-- What creates leave is under publications' secret ids. -/
theorem Reached.unused (hr : Resolved config ssm aws) {lib : SigningLibrary}
    {params : ParameterStore} (h : Reached lib config params) {l : KeyLabel} {t : KeyType}
    (hid : Unused config ssm aws (keyId ssm aws l t)) (region : Text) :
    params region (keyId ssm aws l t) = none := by
  induction h with
  | unpublished h => exact h l.word t _ region (hr.ssmSecretId_eq l t)
  | create h generate hfresh account hoperators hsteps n ih =>
      rw [run_unused hr hoperators hsteps n hid]
      exact ih

theorem alone_of_unshared (h : Unshared config) {i : ℕ} (hi : Owns config (.producer i)) :
    Alone config i := by
  have hlt : hostIndex config i < config.producerNodeCount := Nat.mod_lt i hi.2
  have hle := h _ (mem_producerNodes.mpr ⟨hostIndex config i, hlt, rfl⟩)
  have hmem : producerName i ∈ hostedProducers config (hostIndex config i) :=
    mem_hostedProducers.mpr ⟨i, hi.1, ⟨hi.2, rfl⟩, rfl⟩
  exact le_antisymm hle (List.length_pos_of_mem hmem)

/-- Without shared nodes an identity publishes the keys that are adopted for its label. -/
theorem adopts_publication (h : Unshared config) {l : KeyLabel} {t : KeyType}
    (hl : Owns config l) (ht : t ∈ l.curves) :
    Adopts config t (l.publication config) ∧
      l.source config t = l.publication config := by
  have hsource : l.source config t = l.publication config := by
    cases l with
    | producer i =>
        have halone := alone_of_unshared h hl
        rw [publication_alone halone, source_node (Or.inr halone)]
    | bios => rfl
    | owner => rfl
    | batchOperator i => rfl
    | node k => rfl
    | underwriter i => rfl
  rw [← hsource]
  exact ⟨hl.adopts_source ht, rfl⟩

/-- Every key that a create adopts is one key in whatever regions have it, and no two labels' K1
or BLS keys are the same. -/
structure Settled (lib : SigningLibrary) (config : ClusterConfig) (ssm : SSMSettings)
    (aws : AWSClusterNodeConfig) (params : ParameterStore) : Prop where
  holds : ∀ t l, Adopts config t l → ∃ k : lib.Key t,
    Holds params aws.regions (keyId ssm aws l t) (lib.toNativeString k)
  distinct : ∀ t l m (k : lib.Key t), t = .K1 ∨ t = .BLS → Adopts config t l → Adopts config t m →
    ∀ region ∈ aws.regions, ∀ region' ∈ aws.regions,
      Reads params region (keyId ssm aws l t) (lib.toNativeString k) →
        Reads params region' (keyId ssm aws m t) (lib.toNativeString k) → l = m

/-- Parameters that hold a ring's keys are settled. -/
theorem settled_of_ring {lib : SigningLibrary} {params : ParameterStore} {ring : KeyRing lib}
    (hdistinct : Distinct config ring) (hholds : ∀ t l, Adopts config t l →
      Holds params aws.regions (keyId ssm aws l t) (lib.toNativeString (ring t l))) :
    Settled lib config ssm aws params := by
  have hring : ∀ {t l region} {k : lib.Key t}, Adopts config t l → region ∈ aws.regions →
      Reads params region (keyId ssm aws l t) (lib.toNativeString k) → k = ring t l :=
    fun ha hregion hreads => lib.toNativeString_inj ((hholds _ _ ha).reads_eq hregion hreads)
  constructor
  · exact fun t l ha => ⟨ring t l, hholds t l ha⟩
  · intro t l m k hwire hl hm region hregion region' hregion' hreads hreads'
    exact hdistinct t l m hwire hl hm
      ((hring hl hregion hreads).symm.trans (hring hm hregion' hreads'))

/-- Fresh keys of an account are in none of the regions. -/
theorem Fresh.not_reads (hr : Resolved config ssm aws) {lib : SigningLibrary}
    {params : ParameterStore} {generate : (t : KeyType) → Text → lib.Key t}
    (h : Fresh lib config params generate) {t : KeyType} {l m : KeyLabel} {region : Text}
    (hwire : t = .K1 ∨ t = .BLS) (hl : Adopts config t l) (hm : Adopts config t m)
    (hregion : region ∈ aws.regions) :
    ¬Reads params region (keyId ssm aws m t) (lib.toNativeString (generate t l.word)) :=
  h.unheld t l m hwire hl hm _ _ _ hr.replicationRegions_eq (hr.ssmSecretId_eq m t) hregion

/-- From settled parameters a create with fresh keys has a key ring. -/
theorem Settled.begins (hr : Resolved config ssm aws) {params : ParameterStore}
    (h : Settled env.lib config ssm aws params) (hfresh : Fresh env.lib config params env.generate) :
    ∃ ring, Begins env config ssm aws (fun _ _ => False) params ring := by
  -- a label's key is the adopted one, and the generated one where no region has it
  have hkey : ∀ t l, ∃ k : env.lib.Key t, Adopts config t l →
      Holds params aws.regions (keyId ssm aws l t) (env.lib.toNativeString k) ∧
        ((Absent params aws.regions (keyId ssm aws l t) ∧ k = env.generate t l.word) ∨
          ∃ region ∈ aws.regions,
            Reads params region (keyId ssm aws l t) (env.lib.toNativeString k)) := by
    intro t l
    by_cases ha : Adopts config t l
    · by_cases habsent : Absent params aws.regions (keyId ssm aws l t)
      · exact ⟨env.generate t l.word, fun _ => ⟨habsent.holds _, Or.inl ⟨habsent, rfl⟩⟩⟩
      · obtain ⟨k, hk⟩ := h.holds t l ha
        refine ⟨k, fun _ => ⟨hk, Or.inr ?_⟩⟩
        unfold Absent at habsent
        push Not at habsent
        obtain ⟨region, hregion, hsome⟩ := habsent
        exact ⟨region, hregion, (hk region hregion).resolve_left hsome⟩
    · exact ⟨env.generate t l.word, fun h => absurd h ha⟩
  choose ring hring using hkey
  refine ⟨ring, fun t l ha => (hring t l ha).1, fun t l ha habsent => ?_,
    fun t l m hwire hl hm hsame => ?_, fun _ _ hclear => hclear.elim⟩
  · rcases (hring t l ha).2 with ⟨-, heq⟩ | ⟨region, hregion, hreads⟩
    · exact heq
    · exact absurd (habsent region hregion) hreads.ne_none
  · rcases (hring t l hl).2 with ⟨-, heq⟩ | ⟨region, hregion, hreads⟩
    · rcases (hring t m hm).2 with ⟨-, heq'⟩ | ⟨region', hregion', hreads'⟩
      · exact hfresh.distinct t l m hwire hl hm (heq.symm.trans (hsame.trans heq'))
      · rw [← hsame, heq] at hreads'
        exact absurd hreads' (hfresh.not_reads hr hwire hl hm hregion')
    · rcases (hring t m hm).2 with ⟨-, heq'⟩ | ⟨region', hregion', hreads'⟩
      · rw [hsame, heq'] at hreads
        exact absurd hreads (hfresh.not_reads hr hwire hm hl hregion)
      · rw [← hsame] at hreads'
        exact h.distinct t l m _ hwire hl hm region hregion region' hregion' hreads hreads'

/-- Without shared nodes every publication of a ring is safe. -/
theorem Begins.clear_of_unshared {params : ParameterStore} {ring : KeyRing env.lib}
    {clear : KeyType → KeyLabel → Prop} (hunshared : Unshared config)
    (h : Begins env config ssm aws clear params ring) :
    Begins env config ssm aws (fun _ _ => True) params ring := by
  refine ⟨h.holds, h.fresh, h.distinct, fun t l _ hl ht => ?_⟩
  obtain ⟨hadopts, hsource⟩ := adopts_publication hunshared hl ht
  rw [hsource]
  exact h.holds t _ hadopts

/-- Whatever creates have left, the next one can adopt every key, when no producer shares its
node. -/
theorem Reached.settled (hr : Resolved config ssm aws) (hunshared : Unshared config)
    {lib : SigningLibrary} {params : ParameterStore} (h : Reached lib config params) :
    Settled lib config ssm aws params := by
  induction h with
  | unpublished h =>
      have habsent : ∀ t l, Absent _ aws.regions (keyId ssm aws l t) :=
        fun t l region _ => h l.word t _ region (hr.ssmSecretId_eq l t)
      constructor
      · intro t l _
        obtain ⟨k⟩ := lib.nonempty t
        exact ⟨k, (habsent t l).holds _⟩
      · intro t l m k _ _ _ region hregion _ _ hreads _
        exact absurd (habsent t l region hregion) hreads.ne_none
  | create h generate hfresh account hoperators hsteps n ih =>
      have hbegins : ∃ ring, Begins ⟨lib, generate, account⟩ config ssm aws (fun _ _ => False) _
          ring := Settled.begins hr ih hfresh
      obtain ⟨ring, hring⟩ := hbegins
      obtain ⟨c, hrun, hinv, -⟩ := run_take hr hoperators hsteps (fun _ _ => True.intro)
        (hring.clear_of_unshared hunshared) n
      rw [hrun]
      exact settled_of_ring hring.distinct hinv.holds

/-- Without parameters fresh keys may be generated and published. -/
theorem begins_of_unpublished (hr : Resolved config ssm aws) {params : ParameterStore}
    (h : Unpublished config params) (hdistinct : Distinct config fun t l => env.generate t l.word) :
    Begins env config ssm aws (fun _ _ => True) params fun t l => env.generate t l.word := by
  have habsent : ∀ l t, Absent params aws.regions (keyId ssm aws l t) :=
    fun l t region _ => h l.word t _ region (hr.ssmSecretId_eq l t)
  exact ⟨fun t l _ => (habsent l t).holds _, fun _ _ _ _ => rfl, hdistinct,
    fun t l _ _ _ => (habsent _ t).holds _⟩

/-! ### Two sets of keys -/

/-- Two sets of keys for a config, all different. -/
structure Apart {lib : SigningLibrary} (config : ClusterConfig)
    (generate generate' : (t : KeyType) → Text → lib.Key t) : Prop where
  left : Distinct config fun t l => generate t l.word
  right : Distinct config fun t l => generate' t l.word
  apart : ∀ t l m, t = .K1 ∨ t = .BLS → Adopts config t l → Adopts config t m →
    generate t l.word ≠ generate' t m.word

section Apart

variable {lib : SigningLibrary} {generate generate' : (t : KeyType) → Text → lib.Key t}
  {params : ParameterStore} (hr : Resolved config ssm aws) (h : Apart config generate generate')
  (hunpublished : Unpublished config params)
include hr h hunpublished

omit hr in
/-- Where nothing was published, keys that differ are fresh. -/
theorem Apart.fresh : Fresh lib config params generate := by
  refine ⟨h.left, fun t l m _ _ _ regions secretId region _ hid _ hreads => ?_⟩
  exact hreads.ne_none (hunpublished _ t _ region hid)

/-- After a create with the first set of keys, finished or not, the second one is fresh. -/
theorem Apart.fresh_create (account : Text → Text) {operators : List CreateStep}
    (hoperators : OperatorSteps config operators) (hsteps : compose config operators = .ok steps)
    (n : ℕ) : Fresh lib config
      (run ⟨lib, generate, account⟩ config (steps.take n) (.start params)).1.params generate' := by
  have hbegins : Begins ⟨lib, generate, account⟩ config ssm aws (fun _ _ => True) params
      fun t l => generate t l.word := begins_of_unpublished hr hunpublished h.left
  obtain ⟨c, hrun, hinv, -⟩ :=
    run_take hr hoperators hsteps (fun _ _ => True.intro) hbegins n
  rw [hrun]
  refine ⟨h.right, fun t l m hwire hl hm regions secretId region hregions hid hregion hreads => ?_⟩
  obtain rfl := Except.ok.inj (hr.replicationRegions_eq.symm.trans hregions)
  obtain rfl := Except.ok.inj ((hr.ssmSecretId_eq m t).symm.trans hid)
  exact h.apart t m l hwire hm hl
    (lib.toNativeString_inj ((hinv.holds t m hm).reads_eq hregion hreads)).symm

end Apart

end KeySteps

end WireTools

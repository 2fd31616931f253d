import WireTools.KeyCreateSteps

/-! # The order of a create's steps

* `compose_scheduled`: each step of a create comes after the steps that provide what it needs,
  however the operators are interleaved;
* `compose_once`: no step of a create imports twice, so no key is imported twice (`run_scheduled`);
* `run_take`: every beginning of a create succeeds when its key ring begins well;
* `run_finishes`: the whole create then publishes every key, and imports the wallet's. -/

namespace WireTools

namespace KeySteps

open NodeConfig ClusterConfigProvider SSMClientProvider KeyLabel Schedules
open NodeTopology (OperatorType)

variable {env : Surroundings} {config : ClusterConfig} {ssm : SSMSettings}
  {aws : AWSClusterNodeConfig} {clear : KeyType → KeyLabel → Prop} {params₀ : ParameterStore}
  {ring : KeyRing env.lib}

/-- A step of a create provides one list. -/
theorem Legit.unique (hr : Resolved config ssm aws) {step : CreateStep}
    {needs provides needs' provides' : List Need}
    (h : Legit config ssm aws clear needs step provides)
    (h' : Legit config ssm aws clear needs' step provides') : provides = provides' := by
  cases h with
  | producerMaterialization hi =>
      generalize hstep : CreateStep.producerMaterialization _ _ _ = step' at h'
      cases h' with
      | producerMaterialization hj =>
          rw [producerName_inj_of_count hr.producers hi.1 hj.1
            (CreateStep.producerMaterialization.inj hstep).1]
      | _ => cases hstep
  | identityMaterialization hi =>
      generalize hstep : CreateStep.identityMaterialization _ _ = step' at h'
      cases h' with
      | identityMaterialization hj =>
          rw [KeyLabel.batchOperator.inj (hr.word_inj (l := .batchOperator _)
            (m := .batchOperator _) hi hj (CreateStep.identityMaterialization.inj hstep).1)]
      | _ => cases hstep
  | publish hclear hl ht hregion =>
      generalize hstep : CreateStep.publishSignatureProviderKey _ _ = step' at h'
      cases h' with
      | publish hclear' hm ht' hregion' =>
          obtain ⟨hp, rfl⟩ := CreateStep.publishSignatureProviderKey.inj hstep
          have hlabel := hr.word_inj hl.known hm.known
            (congrArg SignatureProviderKeyPublication.label hp)
          obtain rfl := congrArg SignatureProviderKeyPublication.keyType hp
          rw [hlabel]
          rfl
      | _ => cases hstep
  | resolveWithBiosKeys => cases h' with | resolveWithBiosKeys => rfl
  | generateNodeKeys => cases h' with | generateNodeKeys => rfl
  | createWallet => cases h' with | createWallet => rfl
  | sponsoredAccountCreation hi =>
      generalize hstep : CreateStep.sponsoredAccountCreation _ = step' at h'
      cases h' with
      | sponsoredAccountCreation hj => rfl
      | _ => cases hstep

/-- The genesis and node keys' steps. -/
def keySteps : List CreateStep := [.resolveWithBiosKeys, .generateNodeKeys, .createWallet]

theorem supplied_of_mem {step : CreateStep} {steps : List CreateStep}
    {needs provides : List Need} {need : Need} (hmem : step ∈ steps)
    (h : Legit config ssm aws clear needs step provides) (hneed : need ∈ provides) :
    Supplied (Legit config ssm aws clear) steps need :=
  ⟨step, hmem, needs, provides, h, hneed⟩

theorem keySteps_scheduled : Scheduled (Legit config ssm aws clear) [] keySteps := by
  have hbefore : Scheduled (Legit config ssm aws clear) []
      [CreateStep.resolveWithBiosKeys, .generateNodeKeys] := by
    apply Scheduled.of_forall
    intro step hstep
    simp only [List.mem_cons, List.not_mem_nil, or_false] at hstep
    rcases hstep with rfl | rfl
    · exact ⟨[], _, .resolveWithBiosKeys, by simp⟩
    · exact ⟨[], _, .generateNodeKeys, by simp⟩
  refine Scheduled.append hbefore (Scheduled.of_forall fun step hstep => ?_)
  rw [List.mem_singleton.mp hstep]
  refine ⟨_, _, .createWallet, ?_⟩
  simp only [List.forall_mem_cons, List.not_mem_nil, false_implies, implies_true, and_true]
  refine ⟨?_, ?_, ?_⟩
  · exact supplied_of_mem (by simp) .resolveWithBiosKeys (by simp)
  · exact supplied_of_mem (by simp) .resolveWithBiosKeys (by simp)
  · exact supplied_of_mem (by simp) .generateNodeKeys (by simp)

theorem mem_planProducerIdentityPhase {step : CreateStep} :
    step ∈ planProducerIdentityPhase config ↔ ∃ i, Owns config (.producer i) ∧
      step = .producerMaterialization (producerName i) (hostIndex config i)
        ((KeyLabel.producer i).publication config).word := by
  unfold planProducerIdentityPhase
  simp only [List.mem_flatMap, List.mem_map]
  constructor
  · rintro ⟨node, hnode, label, hlabel, rfl⟩
    obtain ⟨k, hk, rfl⟩ := mem_producerNodes.mp hnode
    obtain ⟨i, hi, ⟨hpos, hturn⟩, rfl⟩ := mem_hostedProducers.mp hlabel
    refine ⟨i, ⟨hi, hpos⟩, ?_⟩
    rw [producerPublicationLabel_eq hturn, ← hturn]
    rfl
  · rintro ⟨i, hi, rfl⟩
    refine ⟨_, mem_producerNodes.mpr ⟨hostIndex config i, Nat.mod_lt i hi.2, rfl⟩,
      producerName i, mem_hostedProducers.mpr ⟨i, hi.1, ⟨hi.2, rfl⟩, rfl⟩, ?_⟩
    rw [producerPublicationLabel_eq
      (show i % config.producerNodeCount = hostIndex config i from rfl)]

theorem producers_scheduled {done : List CreateStep}
    (hdone : Supplied (Legit config ssm aws clear) done .nodeKeys) :
    Scheduled (Legit config ssm aws clear) done (planProducerIdentityPhase config) := by
  apply Scheduled.of_forall
  intro step hstep
  obtain ⟨i, hi, rfl⟩ := mem_planProducerIdentityPhase.mp hstep
  refine ⟨_, _, .producerMaterialization hi, ?_⟩
  simp only [List.forall_mem_cons, List.not_mem_nil, false_implies, implies_true, and_true]
  exact hdone

/-- The operators' steps, in any order that keeps each operator's own. -/
theorem operators_scheduled {done operators : List CreateStep}
    (h : OperatorSteps config operators) :
    Scheduled (Legit config ssm aws clear) done operators := by
  intro before step after heq
  obtain ⟨i, hi, hstep⟩ := h.provisions step (by simp [heq])
  unfold planProvisionOppOperatorPhase at hstep
  simp only [List.mem_cons, List.not_mem_nil, or_false] at hstep
  rcases hstep with rfl | rfl
  · exact ⟨[], _, .identityMaterialization hi, by simp⟩
  · refine ⟨_, _, .sponsoredAccountCreation hi, ?_⟩
    simp only [List.forall_mem_cons, List.not_mem_nil, false_implies, implies_true, and_true]
    -- the operator's first step is not this one, so it comes before
    have horder := h.inOrder i hi
    rw [heq, List.filter_append, List.filter_cons_of_pos (by simp [CreateStep.operator])] at horder
    have hmem : CreateStep.identityMaterialization (Constants.batchOperatorLabel i) .batch ∈
        before := by
      cases hfilter : before.filter fun step =>
          step.operator = some (Constants.batchOperatorLabel i) with
      | nil =>
          rw [hfilter] at horder
          cases (List.cons.inj horder).1
      | cons first rest =>
          rw [hfilter] at horder
          rw [← (List.cons.inj horder).1]
          exact List.mem_of_mem_filter (hfilter ▸ List.mem_cons_self)
    exact supplied_of_mem (List.mem_append_right _ hmem) (.identityMaterialization hi)
      List.mem_cons_self

theorem mem_planPublications (hr : Resolved config ssm aws)
    {ps : List SignatureProviderKeyPublication}
    (hps : signatureProviderKeyPublications config = .ok ps) {phase : SignatureKeyPublishPhase}
    {step : CreateStep} : step ∈ planSignatureProviderKeyPublications ps phase ↔
      ∃ l t region, Owns config l ∧ t ∈ l.curves ∧ region ∈ aws.regions ∧ l.phase = phase ∧
        step = .publishSignatureProviderKey (keyPublication config ssm aws l t) region := by
  unfold planSignatureProviderKeyPublications
  simp only [List.mem_flatMap, List.mem_filter, List.mem_map, decide_eq_true_eq,
    mem_publications hr hps]
  constructor
  · rintro ⟨_, ⟨⟨l, t, hl, ht, rfl⟩, hphase⟩, region, hregion, rfl⟩
    exact ⟨l, t, region, hl, ht, hregion, hphase, rfl⟩
  · rintro ⟨l, t, region, hl, ht, hregion, hphase, rfl⟩
    exact ⟨_, ⟨⟨l, t, hl, ht, rfl⟩, hphase⟩, region, hregion, rfl⟩

theorem publications_scheduled (hr : Resolved config ssm aws)
    {ps : List SignatureProviderKeyPublication}
    (hps : signatureProviderKeyPublications config = .ok ps) {phase : SignatureKeyPublishPhase}
    {done : List CreateStep} (hclear : ∀ t l, clear t l)
    (hdone : ∀ l, Owns config l → l.phase = phase →
      Supplied (Legit config ssm aws clear) done (.record l)) :
    Scheduled (Legit config ssm aws clear) done
      (planSignatureProviderKeyPublications ps phase) := by
  apply Scheduled.of_forall
  intro step hstep
  obtain ⟨l, t, region, hl, ht, hregion, hphase, rfl⟩ := (mem_planPublications hr hps).mp hstep
  refine ⟨_, _, .publish (hclear t l) hl ht hregion, ?_⟩
  simp only [List.forall_mem_cons, List.not_mem_nil, false_implies, implies_true, and_true]
  exact hdone l hl hphase

/-- What a create publishes and imports. -/
inductive Finished (config : ClusterConfig) (aws : AWSClusterNodeConfig) : Need → Prop where
  | published {t : KeyType} {l : KeyLabel} {region : Text} (hl : Owns config l)
      (ht : t ∈ l.curves) (hregion : region ∈ aws.regions) :
      Finished config aws (.published t l region)
  | imported {t : KeyType} {l : KeyLabel} (hl : Owns config l) (ht : t ∈ l.curves)
      (hwire : t = .K1 ∨ t = .BLS) : Finished config aws (.imported t (l.source config t))
  | record {l : KeyLabel} (hl : Owns config l) : Finished config aws (.record l)

theorem supplied_record_before {done : List CreateStep} {l : KeyLabel}
    (hkeys : .resolveWithBiosKeys ∈ done)
    (hproducers : ∀ step ∈ planProducerIdentityPhase config, step ∈ done)
    (hl : Owns config l) (hphase : l.phase = .beforeNodes) :
    Supplied (Legit config ssm aws clear) done (.record l) := by
  cases l with
  | bios => exact supplied_of_mem hkeys .resolveWithBiosKeys (by simp)
  | owner => exact supplied_of_mem hkeys .resolveWithBiosKeys (by simp)
  | producer i =>
      exact supplied_of_mem (hproducers _ (mem_planProducerIdentityPhase.mpr ⟨i, hl, rfl⟩))
        (.producerMaterialization hl) List.mem_cons_self
  | batchOperator i => cases hphase
  | node k => exact hl.elim
  | underwriter i => exact hl.elim

theorem supplied_record_after {done operators : List CreateStep} {l : KeyLabel}
    (h : OperatorSteps config operators) (hdone : operators ⊆ done)
    (hl : Owns config l) (hphase : l.phase = .afterOperators) :
    Supplied (Legit config ssm aws clear) done (.record l) := by
  cases l with
  | batchOperator i =>
      have hmem : CreateStep.identityMaterialization (Constants.batchOperatorLabel i) .batch ∈
          planProvisionOppOperatorPhase i := List.mem_cons_self
      rw [← h.inOrder i hl] at hmem
      exact supplied_of_mem (hdone (List.mem_of_mem_filter hmem)) (.identityMaterialization hl)
        List.mem_cons_self
  | bios => cases hphase
  | owner => cases hphase
  | producer i => cases hphase
  | node k => exact hl.elim
  | underwriter i => exact hl.elim

/-! ### Importing once -/

/-- The step that imports a label's keys. -/
def importer (config : ClusterConfig) : KeyLabel → CreateStep
  | .producer i => .producerMaterialization (producerName i) (hostIndex config i)
      ((KeyLabel.producer i).publication config).word
  | .batchOperator i => .identityMaterialization (Constants.batchOperatorLabel i) .batch
  | _ => .createWallet

theorem importer_imports (l : KeyLabel) : (importer config l).imports = true := by
  cases l <;> rfl

/-- What a step imports is a K1 or BLS key that the create adopted, and no other step does. -/
theorem Legit.imports {step : CreateStep} {needs provides : List Need}
    (h : Legit config ssm aws clear needs step provides) {t : KeyType} {l : KeyLabel}
    (himported : .imported t l ∈ provides) :
    (t = .K1 ∨ t = .BLS) ∧ Adopts config t l ∧ step = importer config l := by
  cases h with
  | resolveWithBiosKeys => simp at himported
  | generateNodeKeys => simp at himported
  | createWallet =>
      rcases List.mem_append.mp himported with hmem | hmem
      · simp only [List.mem_cons, Need.imported.injEq, List.not_mem_nil, or_false] at hmem
        rcases hmem with ⟨rfl, rfl⟩ | ⟨rfl, rfl⟩ | ⟨rfl, rfl⟩
        · exact ⟨Or.inl rfl, Or.inl rfl, rfl⟩
        · exact ⟨Or.inr rfl, Or.inr rfl, rfl⟩
        · exact ⟨Or.inl rfl, rfl, rfl⟩
      · obtain ⟨k, hk, hmem⟩ := List.mem_flatMap.mp hmem
        simp only [List.mem_cons, Need.imported.injEq, List.not_mem_nil, or_false] at hmem
        rcases hmem with ⟨rfl, rfl⟩ | ⟨rfl, rfl⟩
        · exact ⟨Or.inl rfl, ⟨List.mem_range.mp hk, Or.inl rfl⟩, rfl⟩
        · exact ⟨Or.inr rfl, ⟨List.mem_range.mp hk, Or.inr rfl⟩, rfl⟩
  | @producerMaterialization i hi =>
      by_cases halone : Alone config i
      · simp [halone] at himported
      · simp only [if_neg halone, List.mem_cons, Need.imported.injEq, List.not_mem_nil, or_false,
          reduceCtorEq, false_or] at himported
        obtain ⟨rfl, rfl⟩ := himported
        exact ⟨Or.inr rfl, ⟨rfl, hi.1, hi.2, halone⟩, rfl⟩
  | identityMaterialization hi =>
      simp only [List.mem_cons, Need.imported.injEq, List.not_mem_nil, or_false, reduceCtorEq,
        false_or] at himported
      obtain ⟨rfl, rfl⟩ := himported
      exact ⟨Or.inl rfl, ⟨hi, by simp⟩, rfl⟩
  | sponsoredAccountCreation => cases himported
  | publish => simp at himported

/-- The wallet holds what the done steps import. -/
def WalletOf (config : ClusterConfig) (ring : KeyRing env.lib) (done : List CreateStep)
    (c : Create) : Prop :=
  ∀ key ∈ c.wallet, ∃ t l, (t = .K1 ∨ t = .BLS) ∧ Adopts config t l ∧
    importer config l ∈ done ∧ key = env.lib.toString (ring t l)

/-- What a step imports after a wallet's other steps is not there, as the keys differ. -/
theorem WalletOf.unimported {done : List CreateStep} {step : CreateStep}
    {needs provides : List Need} {c : Create} (h : WalletOf config ring done c)
    (hdistinct : Distinct config ring) (hlegit : Legit config ssm aws clear needs step provides)
    (hnotMem : step.imports = true → step ∉ done) : Unimported ring c provides := by
  intro t l hmem hkey
  obtain ⟨t', m, -, hm, hdone, htext⟩ := h _ hkey
  obtain ⟨hwire, hl, rfl⟩ := hlegit.imports hmem
  obtain ⟨rfl, hsame⟩ := env.lib.toString_inj htext
  rw [← hdistinct t l m hwire hl hm (eq_of_heq hsame)] at hdone
  exact hnotMem (importer_imports l) hdone

theorem WalletOf.step {done : List CreateStep} {step : CreateStep} {needs provides : List Need}
    {c c' : Create} (h : WalletOf config ring done c)
    (hlegit : Legit config ssm aws clear needs step provides) (hgrown : Grown ring c c' provides) :
    WalletOf config ring (done ++ [step]) c' := by
  intro key hkey
  rcases hgrown key hkey with hkey | ⟨t, l, hmem, rfl⟩
  · obtain ⟨t, l, hwire, hl, hdone, rfl⟩ := h key hkey
    exact ⟨t, l, hwire, hl, List.mem_append_left _ hdone, rfl⟩
  · obtain ⟨hwire, hl, rfl⟩ := hlegit.imports hmem
    exact ⟨t, l, hwire, hl, List.mem_append_right _ (List.mem_singleton.mpr rfl), rfl⟩

/-- No step imports twice. -/
def ImportsOnce (steps : List CreateStep) : Prop := (steps.filter CreateStep.imports).Nodup

theorem ImportsOnce.notMem {done rest : List CreateStep} {step : CreateStep}
    (h : ImportsOnce (done ++ step :: rest)) (himports : step.imports = true) : step ∉ done := by
  intro hmem
  unfold ImportsOnce at h
  rw [List.filter_append, List.filter_cons_of_pos himports] at h
  exact (List.nodup_append.mp h).2.2 step (List.mem_filter.mpr ⟨hmem, himports⟩) step
    List.mem_cons_self rfl

/-- The producers' steps differ from each other. -/
theorem nodup_planProducerIdentityPhase (hcount : config.producerCount ≤ firstSuffix + 25) :
    (planProducerIdentityPhase config).Nodup := by
  have hnames := (nodup_producerNames config.producerCount).mpr hcount
  unfold planProducerIdentityPhase
  rw [List.nodup_flatMap]
  constructor
  · intro node hnode
    obtain ⟨k, -, rfl⟩ := mem_producerNodes.mp hnode
    have hhosted : (hostedProducers config k).Nodup := by
      unfold hostedProducers
      exact hnames.sublist (List.filter_sublist.map _)
    exact hhosted.map fun name name' heq => (CreateStep.producerMaterialization.inj heq).1
  · rw [producerNodes_eq, List.pairwise_map]
    refine List.nodup_range.imp_of_mem fun {k j} _ _ hne => ?_
    intro step hstep hstep'
    obtain ⟨name, hname, rfl⟩ := List.mem_map.mp hstep
    obtain ⟨name', hname', heq⟩ := List.mem_map.mp hstep'
    obtain ⟨i, hi, hturn, rfl⟩ := mem_hostedProducers.mp hname
    obtain ⟨i', hi', hturn', rfl⟩ := mem_hostedProducers.mp hname'
    have hsame := producerName_inj_of_count hcount hi' hi
      (CreateStep.producerMaterialization.inj heq).1
    rw [hsame] at hturn'
    exact hne (hturn.2.symm.trans hturn'.2)

theorem keySteps_producers_once (hcount : config.producerCount ≤ firstSuffix + 25) :
    ImportsOnce (keySteps ++ planProducerIdentityPhase config) := by
  have hkeys : keySteps.filter CreateStep.imports = [.createWallet] := rfl
  unfold ImportsOnce
  rw [List.filter_append, hkeys, List.singleton_append, List.nodup_cons]
  refine ⟨fun hmem => ?_, (nodup_planProducerIdentityPhase hcount).filter _⟩
  obtain ⟨i, -, hi⟩ := mem_planProducerIdentityPhase.mp (List.mem_of_mem_filter hmem)
  cases hi

/-- An operator's step that imports is there once. -/
theorem operators_once {operators : List CreateStep} (h : OperatorSteps config operators) :
    ImportsOnce operators := by
  unfold ImportsOnce
  rw [List.nodup_iff_count_le_one]
  intro step
  by_cases hmem : step ∈ operators
  · obtain ⟨i, hi, hstep⟩ := h.provisions step hmem
    have hone : (planProvisionOppOperatorPhase i).count step ≤ 1 :=
      List.nodup_iff_count_le_one.mp (by simp [planProvisionOppOperatorPhase]) step
    have hoperator : step.operator = some (Constants.batchOperatorLabel i) := by
      unfold planProvisionOppOperatorPhase at hstep
      simp only [List.mem_cons, List.not_mem_nil, or_false] at hstep
      rcases hstep with rfl | rfl <;> rfl
    have hcount : operators.count step = (planProvisionOppOperatorPhase i).count step := by
      rw [← h.inOrder i hi, List.count_filter (by simpa using hoperator)]
    exact (List.filter_sublist.count_le step).trans (hcount ▸ hone)
  · rw [List.count_eq_zero.mpr fun hfilter => hmem (List.mem_of_mem_filter hfilter)]
    exact Nat.zero_le 1

/-- The steps of a schedule that imports nothing twice all succeed, and provide what they do. -/
theorem run_scheduled (hr : Resolved config ssm aws)
    (hb : Begins env config ssm aws clear params₀ ring) {steps : List CreateStep}
    (honce : ImportsOnce steps) (h : Scheduled (Legit config ssm aws clear) [] steps) :
    ∃ c, run env config steps (.start params₀) = (c, none) ∧
      Inv env config ssm aws clear params₀ ring c ∧
        ∀ need, Supplied (Legit config ssm aws clear) steps need →
          need.Met env config ssm aws ring c := by
  have hstart : Inv env config ssm aws clear params₀ ring (.start params₀) ∧
      WalletOf config ring [] (.start params₀) :=
    ⟨hb.inv, fun key hkey => absurd hkey List.not_mem_nil⟩
  obtain ⟨c, hrun, hinv, hmet⟩ := Scheduled.run (Legit config ssm aws clear) (perform env config)
    (fun done c => Inv env config ssm aws clear params₀ ring c ∧ WalletOf config ring done c)
    (fun (need : Need) c => need.Met env config ssm aws ring c) (Legit.unique hr)
    (by
      intro done c step needs provides rest hsteps hc hlegit hneeds
      have hnew := hc.2.unimported hb.distinct hlegit (ImportsOnce.notMem (hsteps ▸ honce))
      obtain ⟨c', hperform, hinv, hgrown, hkept, hprovided⟩ :=
        inv_perform hr hb hc.1 hlegit hneeds hnew
      exact ⟨c', hperform, ⟨hinv, hc.2.step hlegit hgrown⟩, hkept, hprovided⟩) hstart h
  exact ⟨c, hrun, hinv.1, hmet⟩

/-- The steps of a resolved config. -/
theorem Resolved.composes (hr : Resolved config ssm aws) (operators : List CreateStep) :
    ∃ steps, compose config operators = .ok steps := by
  obtain ⟨ps, hps⟩ := hr.accepted
  unfold compose
  rw [if_pos hr.custody, hps]
  exact ⟨_, rfl⟩

section Compose

variable (hr : Resolved config ssm aws) {operators steps : List CreateStep}
  (hoperators : OperatorSteps config operators) (hsteps : compose config operators = .ok steps)
include hr hsteps

theorem compose_eq_ok : ∃ ps, signatureProviderKeyPublications config = .ok ps ∧
    steps = keySteps ++ planProducerIdentityPhase config ++
      planSignatureProviderKeyPublications ps .beforeNodes ++ operators ++
      planSignatureProviderKeyPublications ps .afterOperators := by
  obtain ⟨ps, hps⟩ := hr.accepted
  unfold compose at hsteps
  rw [if_pos hr.custody, hps] at hsteps
  exact ⟨ps, hps, (Except.ok.inj hsteps).symm⟩

include hoperators

theorem compose_scheduled (hclear : ∀ t l, clear t l) :
    Scheduled (Legit config ssm aws clear) [] steps := by
  obtain ⟨ps, hps, rfl⟩ := compose_eq_ok hr hsteps
  refine (((keySteps_scheduled.append (producers_scheduled ?_)).append
    (publications_scheduled hr hps hclear ?_)).append (operators_scheduled hoperators)).append
      (publications_scheduled hr hps hclear ?_)
  · exact supplied_of_mem (by simp [keySteps]) .generateNodeKeys (by simp)
  · intro l hl hphase
    apply supplied_record_before _ _ hl hphase
    · simp [keySteps]
    · intro step hstep
      simp [hstep]
  · intro l hl hphase
    apply supplied_record_after hoperators _ hl hphase
    intro step hstep
    simp [hstep]

omit hr hsteps hoperators in
theorem publications_filter (ps : List SignatureProviderKeyPublication)
    (phase : SignatureKeyPublishPhase) :
    (planSignatureProviderKeyPublications ps phase).filter CreateStep.imports = [] := by
  rw [List.filter_eq_nil_iff]
  intro step hstep
  obtain ⟨p, -, hp⟩ := List.mem_flatMap.mp hstep
  obtain ⟨region, -, rfl⟩ := List.mem_map.mp hp
  exact Bool.false_ne_true

/-- No step of a create imports twice. -/
theorem compose_once : ImportsOnce steps := by
  obtain ⟨ps, -, rfl⟩ := compose_eq_ok hr hsteps
  unfold ImportsOnce
  rw [List.filter_append, publications_filter, List.append_nil, List.filter_append,
    List.filter_append, publications_filter, List.append_nil, List.nodup_append]
  refine ⟨keySteps_producers_once hr.producers, operators_once hoperators, ?_⟩
  rintro step hstep _ hoperator rfl
  obtain ⟨i, hi, hprovision⟩ := hoperators.provisions step (List.mem_of_mem_filter hoperator)
  rcases List.mem_append.mp (List.mem_of_mem_filter hstep) with hkey | hproducer
  · simp only [keySteps, List.mem_cons, List.not_mem_nil, or_false] at hkey
    rcases hkey with rfl | rfl | rfl <;> simp [planProvisionOppOperatorPhase] at hprovision
  · obtain ⟨j, -, rfl⟩ := mem_planProducerIdentityPhase.mp hproducer
    simp [planProvisionOppOperatorPhase] at hprovision

/-- A create's steps import every K1 and BLS key. -/
theorem compose_imports {t : KeyType} {l : KeyLabel} (hl : Owns config l) (ht : t ∈ l.curves)
    (hwire : t = .K1 ∨ t = .BLS) :
    Supplied (Legit config ssm aws clear) steps (.imported t (l.source config t)) := by
  obtain ⟨ps, hps, rfl⟩ := compose_eq_ok hr hsteps
  have hwallet : ∀ {need : Need}, need ∈ walletNeeds config →
      Supplied (Legit config ssm aws clear) (keySteps ++ planProducerIdentityPhase config ++
        planSignatureProviderKeyPublications ps .beforeNodes ++ operators ++
        planSignatureProviderKeyPublications ps .afterOperators) need := fun hneed =>
    supplied_of_mem (by simp [keySteps]) .createWallet hneed
  cases l with
  | bios =>
      apply hwallet
      rcases hwire with rfl | rfl <;> simp [KeyLabel.source, walletNeeds]
  | owner =>
      apply hwallet
      rw [List.mem_singleton.mp ht]
      simp [KeyLabel.source, walletNeeds]
  | producer i =>
      by_cases hsource : t = .K1 ∨ Alone config i
      · rw [source_node hsource]
        exact hwallet (node_mem_walletNeeds (Nat.mod_lt i hl.2) hwire)
      · have hmem := mem_planProducerIdentityPhase.mpr ⟨i, hl, rfl⟩
        rw [source_own hsource]
        rw [not_or] at hsource
        obtain rfl := hwire.resolve_left hsource.1
        refine ⟨_, ?_, _, _, .producerMaterialization hl, ?_⟩
        · simp [hmem]
        · simp [hsource.2]
  | batchOperator i =>
      have hmem : CreateStep.identityMaterialization (Constants.batchOperatorLabel i) .batch ∈
          planProvisionOppOperatorPhase i := List.mem_cons_self
      rw [← hoperators.inOrder i hl] at hmem
      have hmem := List.mem_of_mem_filter hmem
      have hK1 : t = .K1 := by
        rcases hwire with rfl | rfl
        · rfl
        · simp [curves] at ht
      subst hK1
      exact supplied_of_mem (by simp [hmem]) (.identityMaterialization hl)
        (List.mem_cons_of_mem _ List.mem_cons_self)
  | node k => exact hl.elim
  | underwriter i => exact hl.elim

/-- A create's steps publish every key and import the wallet's. -/
theorem compose_supplies (hclear : ∀ t l, clear t l) {need : Need}
    (h : Finished config aws need) :
    Supplied (Legit config ssm aws clear) steps need := by
  cases h with
  | @published t l region hl ht hregion =>
      obtain ⟨ps, hps, rfl⟩ := compose_eq_ok hr hsteps
      refine ⟨_, ?_, _, _, .publish (hclear t l) hl ht hregion, List.mem_cons_self⟩
      have hmem := (mem_planPublications hr hps).mpr ⟨l, t, region, hl, ht, hregion, rfl, rfl⟩
      cases hphase : l.phase with
      | beforeNodes =>
          rw [hphase] at hmem
          simp [hmem]
      | afterOperators =>
          rw [hphase] at hmem
          simp [hmem]
  | imported hl ht hwire => exact compose_imports hr hoperators hsteps hl ht hwire
  | @record l hl =>
      obtain ⟨ps, hps, rfl⟩ := compose_eq_ok hr hsteps
      cases hphase : l.phase with
      | beforeNodes =>
          apply supplied_record_before _ _ hl hphase
          · simp [keySteps]
          · intro step hstep
            simp [hstep]
      | afterOperators =>
          apply supplied_record_after hoperators _ hl hphase
          intro step hstep
          simp [hstep]

/-- Every beginning of a create runs without an error, and provides what its steps do. -/
theorem run_take (hclear : ∀ t l, clear t l) (hb : Begins env config ssm aws clear params₀ ring)
    (n : ℕ) :
    ∃ c, run env config (steps.take n) (.start params₀) = (c, none) ∧
      Inv env config ssm aws clear params₀ ring c ∧
        ∀ need, Supplied (Legit config ssm aws clear) (steps.take n) need →
          need.Met env config ssm aws ring c :=
  run_scheduled hr hb
    ((compose_once hr hoperators hsteps).sublist ((List.take_sublist n steps).filter _))
    ((compose_scheduled hr hoperators hsteps hclear).take n)

/-- A create runs to its end, with every key published and imported. -/
theorem run_finishes (hclear : ∀ t l, clear t l)
    (hb : Begins env config ssm aws clear params₀ ring) :
    ∃ c, run env config steps (.start params₀) = (c, none) ∧
      Inv env config ssm aws clear params₀ ring c ∧
        ∀ need, Finished config aws need → need.Met env config ssm aws ring c := by
  obtain ⟨c, hrun, hinv, hmet⟩ := run_take hr hoperators hsteps hclear hb steps.length
  rw [List.take_length] at hrun hmet
  exact ⟨c, hrun, hinv, fun need hneed =>
    hmet need (compose_supplies hr hoperators hsteps hclear hneed)⟩

end Compose

end KeySteps

end WireTools

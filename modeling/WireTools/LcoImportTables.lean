import WireTools.LcoImportSteps

/-! # The tables of the launch-data import

Steps of a plan are executed any number of times in any order, from empty tables.

* `Sound`: what is used of an accepted plan; its chains differ in kind, code and token;
* `runSteps_tables`: the tables are then the tallies of what the executed steps add (`Tables`);
* `planned_claims`, `planned_credited` and `planned_supply`: the steps of the plan, each once, add
  the claims, the positions and the pools of its chains. -/

namespace WireTools.LcoImportSteps

open DclaimSeed (ImportSeedChainKind)
open Outcome WireLcoImportTool

variable {ext : Externals} {contracts : Contracts} {plan : Plan}

/-! ### Accepted plans -/

/-- The chains of an accepted plan. -/
structure Sound (plan : Plan) : Prop where
  accounted : ∀ chainPlan ∈ chainPlans plan, Accounted chainPlan
  ethereum : ∀ chainPlan, plan.ethereum = some chainPlan → chainPlan.chain = .EVM ∧
    chainPlan.pool.chainCode = ETHEREUM_CHAIN_CODENAME ∧ chainPlan.pool.tokenCode = text "LIQETH"
  solana : ∀ chainPlan, plan.solana = some chainPlan → chainPlan.chain = .SVM ∧
    chainPlan.pool.chainCode = SOLANA_CHAIN_CODENAME ∧ chainPlan.pool.tokenCode = text "LIQSOL"

theorem ethereum_codes {chainConfig : LcoImportChainConfig} {derivation : ChainDerivation}
    (h : createEthereumPlan ext chainConfig = .ok derivation) : derivation.plan.chain = .EVM ∧
      derivation.plan.pool.chainCode = ETHEREUM_CHAIN_CODENAME ∧
        derivation.plan.pool.tokenCode = text "LIQETH" := by
  unfold createEthereumPlan at h
  obtain ⟨_, _, h⟩ := except_bind_eq_ok.mp h
  obtain ⟨tokenCode, htoken, h⟩ := except_bind_eq_ok.mp h
  obtain rfl : text "LIQETH" = tokenCode := Except.ok.inj htoken
  obtain ⟨_, _, h⟩ := except_bind_eq_ok.mp h
  obtain ⟨_, _, h⟩ := except_bind_eq_ok.mp h
  obtain ⟨⟨pool, _⟩, hcreated, h⟩ := except_bind_eq_ok.mp h
  obtain ⟨_, _, h⟩ := except_bind_eq_ok.mp h
  obtain ⟨_, _, h⟩ := except_bind_eq_ok.mp h
  obtain ⟨_, _, h⟩ := except_bind_eq_ok.mp h
  cases h
  have hpool := (createPool_eq_ok hcreated).1
  exact ⟨rfl, hpool.chainCode, hpool.tokenCode⟩

theorem solana_codes {chainConfig : LcoImportChainConfig} {derivation : ChainDerivation}
    (h : createSolanaPlan ext chainConfig = .ok derivation) : derivation.plan.chain = .SVM ∧
      derivation.plan.pool.chainCode = SOLANA_CHAIN_CODENAME ∧
        derivation.plan.pool.tokenCode = text "LIQSOL" := by
  unfold createSolanaPlan at h
  obtain ⟨_, _, h⟩ := except_bind_eq_ok.mp h
  obtain ⟨tokenCode, htoken, h⟩ := except_bind_eq_ok.mp h
  obtain rfl : text "LIQSOL" = tokenCode := Except.ok.inj htoken
  obtain ⟨_, _, h⟩ := except_bind_eq_ok.mp h
  obtain ⟨_, _, h⟩ := except_bind_eq_ok.mp h
  obtain ⟨_, h⟩ := assertOk_bind.mp h
  obtain ⟨⟨pool, _⟩, hcreated, h⟩ := except_bind_eq_ok.mp h
  obtain ⟨_, _, h⟩ := except_bind_eq_ok.mp h
  obtain ⟨_, _, h⟩ := except_bind_eq_ok.mp h
  cases h
  have hpool := (createPool_eq_ok hcreated).1
  exact ⟨rfl, hpool.chainCode, hpool.tokenCode⟩

theorem sound_of_createPlan {config : LcoImportConfig} (h : createPlan ext config = .ok plan) :
    Sound plan := by
  refine ⟨(createPlan_accounted h).1, fun chainPlan hchain => ?_, fun chainPlan hchain => ?_⟩
  · obtain ⟨ethereum, _, hethereum, _, rfl, _, _⟩ := createPlan_eq_ok h
    obtain ⟨derivation, hsome, rfl⟩ := Option.map_eq_some_iff.mp hchain
    rcases derive_eq_ok hethereum with ⟨_, hnone⟩ | ⟨_, _, _, hderived, hcreate⟩
    · rw [hnone] at hsome
      cases hsome
    · obtain rfl := Option.some.inj (hsome.symm.trans hderived)
      exact ethereum_codes hcreate
  · obtain ⟨_, solana, _, hsolana, rfl, _, _⟩ := createPlan_eq_ok h
    obtain ⟨derivation, hsome, rfl⟩ := Option.map_eq_some_iff.mp hchain
    rcases derive_eq_ok hsolana with ⟨_, hnone⟩ | ⟨_, _, _, hderived, hcreate⟩
    · rw [hnone] at hsome
      cases hsome
    · obtain rfl := Option.some.inj (hsome.symm.trans hderived)
      exact solana_codes hcreate

/-- Two chains of a plan that share a kind, a code or a token are one. -/
theorem Sound.chain_inj (h : Sound plan) {chainPlan chainPlan' : ChainPlan}
    (hmem : chainPlan ∈ chainPlans plan) (hmem' : chainPlan' ∈ chainPlans plan)
    (hsame : chainPlan.chain = chainPlan'.chain ∨
      chainPlan.pool.chainCode = chainPlan'.pool.chainCode ∨
        chainPlan.pool.tokenCode = chainPlan'.pool.tokenCode) : chainPlan = chainPlan' := by
  rcases mem_chainPlans.mp hmem with hchain | hchain <;>
    rcases mem_chainPlans.mp hmem' with hchain' | hchain'
  · exact Option.some.inj (hchain.symm.trans hchain')
  · obtain ⟨hkind, hcode, htoken⟩ := h.ethereum _ hchain
    obtain ⟨hkind', hcode', htoken'⟩ := h.solana _ hchain'
    rw [hkind, hkind', hcode, hcode', htoken, htoken'] at hsame
    exact absurd hsame (by decide)
  · obtain ⟨hkind, hcode, htoken⟩ := h.solana _ hchain
    obtain ⟨hkind', hcode', htoken'⟩ := h.ethereum _ hchain'
    rw [hkind, hkind', hcode, hcode', htoken, htoken'] at hsame
    exact absurd hsame (by decide)
  · exact Option.some.inj (hchain.symm.trans hchain')

theorem Sound.pairwise (h : Sound plan) : (chainPlans plan).Pairwise (· ≠ ·) := by
  unfold chainPlans
  cases hethereum : plan.ethereum with
  | none => cases plan.solana <;> simp
  | some ethereum =>
      cases hsolana : plan.solana with
      | none => simp
      | some solana =>
          have hne : ethereum ≠ solana := by
            rintro rfl
            have hkind := (h.ethereum _ hethereum).1
            rw [(h.solana _ hsolana).1] at hkind
            cases hkind
          simpa using hne

theorem Sound.assertChainPlan (h : Sound plan) {chainPlan : ChainPlan}
    (hmem : chainPlan ∈ chainPlans plan) :
    assertChainPlan plan chainPlan.pool.chainCode = .ok chainPlan := by
  unfold LcoImportSteps.assertChainPlan
  cases hfind : (chainPlans plan).find? fun candidate =>
      candidate.pool.chainCode == chainPlan.pool.chainCode with
  | none =>
      rw [List.find?_eq_none] at hfind
      exact absurd (beq_self_eq_true _) (hfind chainPlan hmem)
  | some found =>
      have hcode := List.find?_some hfind
      have hfound := List.mem_of_find?_eq_some hfind
      rw [h.chain_inj hfound hmem (Or.inr (Or.inl (beq_iff_eq.mp hcode)))]

theorem Sound.chainCodeOf (h : Sound plan) {chainPlan : ChainPlan}
    (hmem : chainPlan ∈ chainPlans plan) :
    chainCodeOf contracts (chainPlans plan) chainPlan.chain = chainPlan.pool.chainCode := by
  unfold LcoImportSteps.chainCodeOf
  cases hfind : (chainPlans plan).find? fun candidate => candidate.chain == chainPlan.chain with
  | none =>
      rw [List.find?_eq_none] at hfind
      exact absurd (beq_self_eq_true _) (hfind chainPlan hmem)
  | some found =>
      have hkind := List.find?_some hfind
      have hfound := List.mem_of_find?_eq_some hfind
      rw [h.chain_inj hfound hmem (Or.inl (beq_iff_eq.mp hkind))]

/-! ### What a step adds -/

/-- The positions of a chain with their keys as bytes. -/
def readCredits (ext : Externals) (chainPlan : ChainPlan) : List PositionCredit :=
  (chainPlan.syndications.mapM (positionCredit ext chainPlan)).toOption.getD []

/-- The key of every position can be read. -/
def Readable (ext : Externals) (plan : Plan) : Prop :=
  ∀ chainPlan ∈ chainPlans plan, ∃ credits,
    chainPlan.syndications.mapM (positionCredit ext chainPlan) = .ok credits

variable (ext contracts plan)

def claimData (chainCode : Text) (batchIndex : ℕ) : Except Text ImportseedAction := do
  let chainPlan ← assertChainPlan plan chainCode
  claimBatch chainPlan batchIndex

def positionData (chainCode : Text) (batchIndex : ℕ) : Except Text ImportsyndAction := do
  let chainPlan ← assertChainPlan plan chainCode
  syndicationBatch ext chainPlan batchIndex

def stepClaims : ImportStep → List ((ImportSeedChainKind × Text) × ℤ)
  | .claimBatch chainCode batchIndex _ =>
      ((claimData plan chainCode batchIndex).toOption.map claimEntries).getD []
  | _ => []

def stepCredited : ImportStep → List Credited
  | .syndicationBatch chainCode batchIndex _ =>
      ((positionData ext plan chainCode batchIndex).toOption.map (creditedOf contracts)).getD []
  | _ => []

def stepMinted : ImportStep → List (Text × ℤ)
  | .regliqpool data => [(data.token_code, data.initial_chain_amount)]
  | _ => []

def stepParked (step : ImportStep) : List ((ImportSeedChainKind × Text × Text) × ℤ) :=
  (stepCredited ext contracts plan step).filterMap (parkedEntry contracts)

def stepAccounts (step : ImportStep) : List ((Text × Text) × ℤ) :=
  (stepCredited ext contracts plan step).filterMap (accountEntry contracts)

def stepSupply (step : ImportStep) : List (Text × ℤ) :=
  (stepCredited ext contracts plan step).map supplyEntry ++ stepMinted step

/-- The tables of the positions after some steps from empty ones. -/
structure Tables (executed : List ImportStep) (depot : Depot) : Prop where
  parked : depot.parked.Perm (tally (filled (stepParked ext contracts plan) executed))
  accounts : ∀ account tokenCode, isSystemAccount account = false →
    readLiqBalance depot account tokenCode =
      sumAt (filled (stepAccounts ext contracts plan) executed) (account, tokenCode)
  supply : depot.supply.Perm (tally (filled (stepSupply ext contracts plan) executed))
  liqpending : depot.liqpending = []

variable {ext contracts plan}

/-- A step that returns has pushed its batch. -/
theorem runStep_pushed {step : ImportStep} {before after : Depot}
    (h : runStep ext contracts plan before step = .ok after) :
    (∃ data, contracts.importsynd data before = .ok after ∧ stepClaims plan step = [] ∧
      stepCredited ext contracts plan step = creditedOf contracts data ∧ stepMinted step = []) ∨
    (∃ data, contracts.importseed data before = .ok after ∧ stepClaims plan step = claimEntries data ∧
      stepCredited ext contracts plan step = [] ∧ stepMinted step = []) ∨
    ∃ data, contracts.regliqpool data before = .ok after ∧ stepClaims plan step = [] ∧
      stepCredited ext contracts plan step = [] ∧
        stepMinted step = [(data.token_code, data.initial_chain_amount)] := by
  cases step with
  | syndicationBatch chainCode batchIndex creditCount =>
      obtain ⟨chainPlan, hplan, h⟩ := except_bind_eq_ok.mp h
      obtain ⟨data, hdata, h⟩ := except_bind_eq_ok.mp h
      obtain ⟨_, h⟩ := assertOk_bind.mp h
      have hdata : positionData ext plan chainCode batchIndex = .ok data :=
        except_bind_eq_ok.mpr ⟨chainPlan, hplan, hdata⟩
      refine Or.inl ⟨data, h, rfl, ?_, rfl⟩
      rw [stepCredited, hdata]
      rfl
  | claimBatch chainCode batchIndex creditCount =>
      obtain ⟨chainPlan, hplan, h⟩ := except_bind_eq_ok.mp h
      obtain ⟨data, hdata, h⟩ := except_bind_eq_ok.mp h
      obtain ⟨_, h⟩ := assertOk_bind.mp h
      have hdata : claimData plan chainCode batchIndex = .ok data :=
        except_bind_eq_ok.mpr ⟨chainPlan, hplan, hdata⟩
      refine Or.inr (Or.inl ⟨data, h, ?_, rfl, rfl⟩)
      rw [stepClaims, hdata]
      rfl
  | regliqpool data => exact Or.inr (Or.inr ⟨data, h, rfl, rfl, rfl⟩)

theorem filled_concat {κ : Type} (batch : ImportStep → List (κ × ℤ)) (executed : List ImportStep)
    (step : ImportStep) : filled batch (executed ++ [step]) = filled batch executed ++ batch step := by
  rw [filled, List.flatMap_append, List.flatMap_singleton]
  rfl

/-- What every step of a run adds, the run has added. -/
theorem runSteps_induction {motive : List ImportStep → Depot → Prop} {executed : List ImportStep}
    {depot : Depot} (h : runSteps ext contracts plan executed = .ok depot) (hempty : motive [] .empty)
    (hstep : ∀ executed before step after, motive executed before →
      runStep ext contracts plan before step = .ok after → motive (executed ++ [step]) after) :
    motive executed depot := by
  induction executed using List.reverseRecOn generalizing depot with
  | nil =>
      cases h
      exact hempty
  | append_singleton executed step ih =>
      unfold runSteps at h ih
      rw [List.foldlM_append] at h
      obtain ⟨before, hbefore, h⟩ := except_bind_eq_ok.mp h
      rw [List.foldlM_cons] at h
      obtain ⟨after, hafter, hend⟩ := except_bind_eq_ok.mp h
      cases hend
      exact hstep executed before step _ (ih hbefore) hafter

/-- Steps, whichever and however often, add their claims. -/
theorem runSteps_unmapped (hdocumented : ClaimsDocumented contracts) {executed : List ImportStep}
    {depot : Depot} (h : runSteps ext contracts plan executed = .ok depot) :
    depot.unmapped.Perm (tally (filled (stepClaims plan) executed)) := by
  refine runSteps_induction (motive := fun executed depot =>
    depot.unmapped.Perm (tally (filled (stepClaims plan) executed))) h .nil ?_
  intro executed before step after hbefore hstep
  have hpushed : after.unmapped.Perm (addAll before.unmapped (stepClaims plan step)) := by
    rcases runStep_pushed hstep with ⟨data, hdata, hclaims, -⟩ | ⟨data, hdata, hclaims, -⟩ |
      ⟨data, hdata, hclaims, -⟩
    · rw [hclaims]
      exact hdocumented.importsynd data before after hdata
    · rw [hclaims]
      exact hdocumented.importseed data before after hdata
    · rw [hclaims]
      exact hdocumented.regliqpool data before after hdata
  rw [filled_concat]
  exact perm_tally_append hbefore hpushed

/-- Steps, whichever and however often, add their positions and pools. -/
theorem runSteps_tables (hdocumented : Documented contracts) {executed : List ImportStep}
    {depot : Depot} (h : runSteps ext contracts plan executed = .ok depot) :
    Tables ext contracts plan executed depot := by
  refine runSteps_induction (motive := Tables ext contracts plan) h
    ⟨.nil, fun _ _ _ => rfl, .nil, rfl⟩ ?_
  intro executed before step after hbefore hstep
  have hpushed : Pushed contracts (stepCredited ext contracts plan step) (stepMinted step) before
      after := by
    rcases runStep_pushed hstep with ⟨data, hdata, -, hcredited, hminted⟩ |
      ⟨data, hdata, -, hcredited, hminted⟩ | ⟨data, hdata, -, hcredited, hminted⟩
    · rw [hcredited, hminted]
      exact hdocumented.importsynd data before after hdata
    · rw [hcredited, hminted]
      exact hdocumented.importseed data before after hdata
    · rw [hcredited, hminted]
      exact hdocumented.regliqpool data before after hdata
  refine ⟨?_, fun account tokenCode hown => ?_, ?_, hpushed.liqpending.trans hbefore.liqpending⟩
  · rw [filled_concat]
    exact perm_tally_append hbefore.parked hpushed.parked
  · rw [filled_concat, sumAt_append, hpushed.accounts account tokenCode hown,
      hbefore.accounts account tokenCode hown]
    rfl
  · rw [filled_concat]
    exact perm_tally_append hbefore.supply hpushed.supply

/-- Steps that were executed return each by itself. -/
theorem runSteps_mem {executed : List ImportStep} {depot : Depot}
    (h : runSteps ext contracts plan executed = .ok depot) {step : ImportStep}
    (hstep : step ∈ executed) : ∃ before after, runStep ext contracts plan before step = .ok after := by
  unfold runSteps at h
  obtain ⟨front, back, rfl⟩ := List.append_of_mem hstep
  rw [List.foldlM_append] at h
  obtain ⟨before, _, h⟩ := except_bind_eq_ok.mp h
  rw [List.foldlM_cons] at h
  obtain ⟨after, hafter, _⟩ := except_bind_eq_ok.mp h
  exact ⟨before, after, hafter⟩

/-! ### Steps of the plan -/

theorem mem_planChainImport {chainPlan : ChainPlan} {step : ImportStep} :
    step ∈ planChainImport chainPlan ↔
      (∃ index < syndicationBatches chainPlan,
        step = .syndicationBatch chainPlan.pool.chainCode index
          (batchCreditCount chainPlan.syndications.length SyndicationBatchSize index)) ∨
      (∃ index < claimBatches chainPlan, step = .claimBatch chainPlan.pool.chainCode index
        (batchCreditCount chainPlan.claims.length ClaimBatchSize index)) ∨
      step = .regliqpool (poolRegistration chainPlan) := by
  rw [planChainImport, List.mem_append, List.mem_append, List.mem_singleton, List.mem_map,
    List.mem_map]
  simp only [List.mem_range]
  constructor
  · rintro (⟨index, hindex, rfl⟩ | ⟨index, hindex, rfl⟩ | rfl)
    · exact Or.inl ⟨index, hindex, rfl⟩
    · exact Or.inr (Or.inl ⟨index, hindex, rfl⟩)
    · exact Or.inr (Or.inr rfl)
  · rintro (⟨index, hindex, rfl⟩ | ⟨index, hindex, rfl⟩ | rfl)
    · exact Or.inl ⟨index, hindex, rfl⟩
    · exact Or.inr (Or.inl ⟨index, hindex, rfl⟩)
    · exact Or.inr (Or.inr rfl)

theorem Readable.eq (h : Readable ext plan) {chainPlan : ChainPlan}
    (hmem : chainPlan ∈ chainPlans plan) :
    chainPlan.syndications.mapM (positionCredit ext chainPlan) =
      .ok (readCredits ext chainPlan) := by
  obtain ⟨credits, hcredits⟩ := h chainPlan hmem
  rw [readCredits, hcredits]
  rfl

theorem Readable.length (h : Readable ext plan) {chainPlan : ChainPlan}
    (hmem : chainPlan ∈ chainPlans plan) :
    (readCredits ext chainPlan).length = chainPlan.syndications.length :=
  (except_mapM_eq_ok.mp (h.eq hmem)).length_eq.symm

/-- Where all steps of a plan were executed, its keys are readable. -/
theorem readable_of_runSteps (hsound : Sound plan) {executed : List ImportStep} {depot : Depot}
    (h : runSteps ext contracts plan executed = .ok depot) (hall : planImport plan ⊆ executed) :
    Readable ext plan := by
  intro chainPlan hmem
  refine except_mapM_returns fun spec hspec => ?_
  rw [← flatten_chunks (by decide : 0 < SyndicationBatchSize) chainPlan.syndications,
    List.mem_flatten] at hspec
  obtain ⟨chunk, hchunk, hspec⟩ := hspec
  obtain ⟨index, hindex⟩ := List.mem_iff_getElem?.mp hchunk
  obtain ⟨hlt, rfl⟩ := getElem?_chunks.mp hindex
  have hstep := hall (List.mem_flatMap.mpr
    ⟨chainPlan, hmem, mem_planChainImport.mpr (Or.inl ⟨index, hlt, rfl⟩)⟩)
  obtain ⟨before, after, hrun⟩ := runSteps_mem h hstep
  obtain ⟨found, hfound, hrun⟩ := except_bind_eq_ok.mp hrun
  obtain rfl := Except.ok.inj ((hsound.assertChainPlan hmem).symm.trans hfound)
  obtain ⟨_, hdata, _⟩ := except_bind_eq_ok.mp hrun
  obtain ⟨specs, hspecs, hdata⟩ := except_bind_eq_ok.mp hdata
  obtain ⟨credits, hcredits, _⟩ := except_bind_eq_ok.mp hdata
  obtain rfl := (getElem?_chunks.mp ((assertBatch_eq_ok (by decide)).mp hspecs)).2
  exact except_mapM_mem hcredits hspec

/-! ### What the plan adds -/

theorem flatMap_planImport {κ : Type} (batch : ImportStep → List κ) :
    (planImport plan).flatMap batch = (chainPlans plan).flatMap fun chainPlan =>
      ((List.range (syndicationBatches chainPlan)).flatMap fun index =>
        batch (.syndicationBatch chainPlan.pool.chainCode index
          (batchCreditCount chainPlan.syndications.length SyndicationBatchSize index))) ++
      (((List.range (claimBatches chainPlan)).flatMap fun index =>
        batch (.claimBatch chainPlan.pool.chainCode index
          (batchCreditCount chainPlan.claims.length ClaimBatchSize index))) ++
      batch (.regliqpool (poolRegistration chainPlan))) := by
  rw [planImport, List.flatMap_assoc]
  refine List.flatMap_congr fun chainPlan _ => ?_
  rw [planChainImport, List.flatMap_append, List.flatMap_append, List.flatMap_map,
    List.flatMap_map, List.flatMap_singleton]

theorem flatMap_slices {α β : Type} {size : ℕ} (hsize : 0 < size) (items : List α) (f : α → β) :
    (List.range (batchCount items.length size)).flatMap (fun index =>
      ((items.drop (index * size)).take size).map f) = items.map f := by
  rw [← List.map_flatMap]
  exact congrArg _ (flatten_chunks hsize items)

theorem stepClaims_claimBatch (hsound : Sound plan) {chainPlan : ChainPlan}
    (hmem : chainPlan ∈ chainPlans plan) {index : ℕ} (hindex : index < claimBatches chainPlan)
    (creditCount : ℤ) :
    stepClaims plan (.claimBatch chainPlan.pool.chainCode index creditCount) = claimEntries
      ⟨chainPlan.chain, (chainPlan.claims.drop (index * ClaimBatchSize)).take ClaimBatchSize⟩ := by
  have hdata : claimData plan chainPlan.pool.chainCode index = .ok ⟨chainPlan.chain,
      (chainPlan.claims.drop (index * ClaimBatchSize)).take ClaimBatchSize⟩ :=
    except_bind_eq_ok.mpr ⟨chainPlan, hsound.assertChainPlan hmem, claimBatch_eq hindex⟩
  rw [stepClaims, hdata]
  rfl

theorem stepCredited_syndicationBatch (hsound : Sound plan) (hread : Readable ext plan)
    {chainPlan : ChainPlan} (hmem : chainPlan ∈ chainPlans plan) {index : ℕ}
    (hindex : index < syndicationBatches chainPlan) (creditCount : ℤ) :
    stepCredited ext contracts plan
        (.syndicationBatch chainPlan.pool.chainCode index creditCount) =
      creditedOf contracts ⟨chainPlan.pool.chainCode, chainPlan.pool.tokenCode,
        ((readCredits ext chainPlan).drop (index * SyndicationBatchSize)).take
          SyndicationBatchSize⟩ := by
  have hdata : positionData ext plan chainPlan.pool.chainCode index = .ok
      ⟨chainPlan.pool.chainCode, chainPlan.pool.tokenCode,
        ((readCredits ext chainPlan).drop (index * SyndicationBatchSize)).take
          SyndicationBatchSize⟩ :=
    except_bind_eq_ok.mpr ⟨chainPlan, hsound.assertChainPlan hmem,
      syndicationBatch_eq (hread.eq hmem) hindex⟩
  rw [stepCredited, hdata]
  rfl

theorem planned_claims (hsound : Sound plan) : filled (stepClaims plan) (planImport plan) =
    (chainPlans plan).flatMap fun chainPlan => claimEntries ⟨chainPlan.chain, chainPlan.claims⟩ := by
  rw [filled, flatMap_planImport]
  refine List.flatMap_congr fun chainPlan hmem => ?_
  have hpositions : ((List.range (syndicationBatches chainPlan)).flatMap fun index =>
      stepClaims plan (.syndicationBatch chainPlan.pool.chainCode index (batchCreditCount
        chainPlan.syndications.length SyndicationBatchSize index))) = [] :=
    List.flatMap_eq_nil_iff.mpr fun _ _ => rfl
  have hclaims : ((List.range (claimBatches chainPlan)).flatMap fun index =>
      stepClaims plan (.claimBatch chainPlan.pool.chainCode index
        (batchCreditCount chainPlan.claims.length ClaimBatchSize index))) =
      claimEntries ⟨chainPlan.chain, chainPlan.claims⟩ := by
    refine Eq.trans (List.flatMap_congr fun index hindex => ?_)
      (flatMap_slices (by decide : 0 < ClaimBatchSize) chainPlan.claims fun claim =>
        ((chainPlan.chain, claim.native_address), claim.wire_atomic))
    exact stepClaims_claimBatch hsound hmem (List.mem_range.mp hindex) _
  rw [hpositions, hclaims, List.nil_append]
  exact List.append_nil _

/-- The positions of a plan as they are credited. -/
def plannedCredits (ext : Externals) (contracts : Contracts) (plan : Plan) : List Credited :=
  (chainPlans plan).flatMap fun chainPlan => creditedOf contracts
    ⟨chainPlan.pool.chainCode, chainPlan.pool.tokenCode, readCredits ext chainPlan⟩

/-- The positions and the pool of every chain. -/
theorem credited_chain (hsound : Sound plan) (hread : Readable ext plan) {chainPlan : ChainPlan}
    (hmem : chainPlan ∈ chainPlans plan) :
    ((List.range (syndicationBatches chainPlan)).flatMap fun index =>
      stepCredited ext contracts plan (.syndicationBatch chainPlan.pool.chainCode index
        (batchCreditCount chainPlan.syndications.length SyndicationBatchSize index))) =
      creditedOf contracts
        ⟨chainPlan.pool.chainCode, chainPlan.pool.tokenCode, readCredits ext chainPlan⟩ := by
  refine Eq.trans (List.flatMap_congr fun index hindex => stepCredited_syndicationBatch hsound
    hread hmem (List.mem_range.mp hindex) _) ?_
  rw [syndicationBatches, ← hread.length hmem]
  exact flatMap_slices (by decide) (readCredits ext chainPlan) fun credit =>
    (⟨contracts.chainKind chainPlan.pool.chainCode, chainPlan.pool.tokenCode, credit.pubkey,
      credit.amount⟩ : Credited)

theorem planned_credited (hsound : Sound plan) (hread : Readable ext plan) :
    (planImport plan).flatMap (stepCredited ext contracts plan) =
      plannedCredits ext contracts plan := by
  rw [flatMap_planImport]
  refine List.flatMap_congr fun chainPlan hmem => ?_
  have hclaims : ((List.range (claimBatches chainPlan)).flatMap fun index =>
      stepCredited ext contracts plan (.claimBatch chainPlan.pool.chainCode index
        (batchCreditCount chainPlan.claims.length ClaimBatchSize index))) = [] :=
    List.flatMap_eq_nil_iff.mpr fun _ _ => rfl
  rw [credited_chain hsound hread hmem, hclaims, List.nil_append]
  exact List.append_nil _

theorem planned_parked (hsound : Sound plan) (hread : Readable ext plan) :
    filled (stepParked ext contracts plan) (planImport plan) =
      (plannedCredits ext contracts plan).filterMap (parkedEntry contracts) := by
  rw [← planned_credited hsound hread, List.filterMap_flatMap]
  rfl

theorem planned_accounts (hsound : Sound plan) (hread : Readable ext plan) :
    filled (stepAccounts ext contracts plan) (planImport plan) =
      (plannedCredits ext contracts plan).filterMap (accountEntry contracts) := by
  rw [← planned_credited hsound hread, List.filterMap_flatMap]
  rfl

/-- What is minted of a token: the positions of its chain and the pool. -/
def mintedEntries (ext : Externals) (chainPlan : ChainPlan) : List (Text × ℤ) :=
  (readCredits ext chainPlan).map (fun credit => (chainPlan.pool.tokenCode, credit.amount)) ++
    [(chainPlan.pool.tokenCode, chainPlan.pool.initialChainAmount)]

theorem planned_supply (hsound : Sound plan) (hread : Readable ext plan) :
    filled (stepSupply ext contracts plan) (planImport plan) =
      (chainPlans plan).flatMap (mintedEntries ext) := by
  rw [filled, flatMap_planImport]
  refine List.flatMap_congr fun chainPlan hmem => ?_
  have hclaims : ((List.range (claimBatches chainPlan)).flatMap fun index =>
      stepSupply ext contracts plan (.claimBatch chainPlan.pool.chainCode index
        (batchCreditCount chainPlan.claims.length ClaimBatchSize index))) = [] :=
    List.flatMap_eq_nil_iff.mpr fun _ _ => rfl
  have hpositions : ((List.range (syndicationBatches chainPlan)).flatMap fun index =>
      stepSupply ext contracts plan (.syndicationBatch chainPlan.pool.chainCode index
        (batchCreditCount chainPlan.syndications.length SyndicationBatchSize index))) =
      (readCredits ext chainPlan).map fun credit => (chainPlan.pool.tokenCode, credit.amount) := by
    have hcredited := congrArg (List.map supplyEntry)
      (@credited_chain ext contracts plan hsound hread chainPlan hmem)
    rw [List.map_flatMap, creditedOf, List.map_map] at hcredited
    refine Eq.trans (List.flatMap_congr fun index _ => ?_) hcredited
    exact List.append_nil _
  rw [hpositions, hclaims, List.nil_append]
  rfl

end WireTools.LcoImportSteps

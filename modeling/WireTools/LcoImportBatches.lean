import WireTools.LcoImportPlans

/-! # Batches of the launch-data import

The credits of a chain are pushed in batches of a fixed size.

* `assertBatch` takes one batch, `claimBatch` and `syndicationBatch` make the data of its push,
  `poolRegistration` that of the pool of the chain;
* `assertBatch_eq_ok`: the batches are the chunks of the credits, and past the last one there is
  none;
* `claim_batches`, `position_batches`: pushed one after the other they are all credits, in order,
  each of the size that `batchCreditCount` says. -/

namespace WireTools.WireLcoImportTool

open DclaimSeed (ImportSeedChainKind)
open Outcome

/-! ### Batches and the data of a push -/

/-- `Math.ceil(length / batchSize)` -/
def batchCount (length batchSize : ℕ) : ℕ :=
  (length + (batchSize - 1)) / batchSize

def batchCreditCount (length batchSize index : ℕ) : ℤ :=
  min batchSize (length - index * batchSize)

def pastBatch (index count : ℕ) : Text :=
  tool (text "batch " ++ (natText index ++ (text " is past the last of " ++ natText count)))

def assertBatch {α : Type} (items : List α) (index batchSize : ℕ) : Except Text (List α) := do
  let batch := (items.drop (index * batchSize)).take batchSize
  assertOk (decide (0 < batch.length)) (pastBatch index (batchCount items.length batchSize))
  pure batch

structure PositionCredit where
  pubkey : Text
  amount : ℤ
  deriving DecidableEq

structure ImportsyndAction where
  chain_code : Text
  token_code : Text
  credits : List PositionCredit

structure ImportseedAction where
  chain : ImportSeedChainKind
  credits : List ClaimCredit

structure RegliqpoolAction where
  chain_code : Text
  token_code : Text
  pair_symbol : Text
  initial_chain_amount : ℤ
  initial_wire_amount : ℤ
  fee : ℤ
  locked_shares : ℤ
  conversion_horizon_sec : ℤ
  depth_cap_bps : ℤ
  clip_floor : ℤ
  deriving DecidableEq

def liqSymbol (codename : Text) : Text :=
  natText LIQ_TOKEN_PRECISION ++ (text "," ++ codename)

variable (ext : Externals) (chainPlan : ChainPlan)

def positionCredit (spec : SyndicationSpec) : Except Text PositionCredit := do
  let pubkey ← nativeBytesHex ext chainPlan.chain spec.pubkey
  pure ⟨pubkey, spec.amount⟩

def syndicationBatch (index : ℕ) : Except Text ImportsyndAction := do
  let specs ← assertBatch chainPlan.syndications index SyndicationBatchSize
  let credits ← specs.mapM (positionCredit ext chainPlan)
  pure ⟨chainPlan.pool.chainCode, chainPlan.pool.tokenCode, credits⟩

def claimBatch (index : ℕ) : Except Text ImportseedAction := do
  let credits ← assertBatch chainPlan.claims index ClaimBatchSize
  pure ⟨chainPlan.chain, credits⟩

def poolRegistration : RegliqpoolAction :=
  let pool := chainPlan.pool
  { chain_code := pool.chainCode
    token_code := pool.tokenCode
    pair_symbol := liqSymbol pool.pairSymbol
    initial_chain_amount := pool.initialChainAmount
    initial_wire_amount := pool.initialWireAmount
    fee := pool.fee
    locked_shares := pool.lockedShares
    conversion_horizon_sec := pool.conversionHorizonSec
    depth_cap_bps := pool.depthCapBps
    clip_floor := pool.clipFloor }

def claimBatches : ℕ :=
  batchCount chainPlan.claims.length ClaimBatchSize

def syndicationBatches : ℕ :=
  batchCount chainPlan.syndications.length SyndicationBatchSize

/-! ### Batches are chunks -/

section Chunked

variable {α : Type} {items batch : List α} {index size : ℕ}

theorem length_chunks (size : ℕ) (items : List α) :
    (chunks size items).length = batchCount items.length size := by
  rw [chunks, List.length_map, List.length_range, batchCount]

theorem lt_batchCount_iff (hsize : 0 < size) {length : ℕ} :
    index < batchCount length size ↔ index * size < length := by
  rw [batchCount, Nat.lt_iff_add_one_le, Nat.le_div_iff_mul_le hsize, Nat.succ_mul]
  omega

theorem getElem?_chunks {chunk : List α} :
    (chunks size items)[index]? = some chunk ↔ index < batchCount items.length size ∧
      chunk = (items.drop (index * size)).take size := by
  rw [chunks, List.getElem?_map, Option.map_eq_some_iff, ← batchCount]
  constructor
  · rintro ⟨i, hi, rfl⟩
    obtain ⟨hlt, rfl⟩ := List.getElem?_eq_some_iff.mp hi
    rw [List.length_range] at hlt
    exact ⟨hlt, by rw [List.getElem_range]⟩
  · rintro ⟨hlt, rfl⟩
    exact ⟨index, List.getElem?_range hlt, rfl⟩

theorem assertBatch_eq_ok (hsize : 0 < size) :
    assertBatch items index size = .ok batch ↔ (chunks size items)[index]? = some batch := by
  rw [getElem?_chunks, lt_batchCount_iff hsize]
  unfold assertBatch
  dsimp only
  rw [assertOk_bind, decide_eq_true_eq, List.length_take, List.length_drop]
  constructor
  · rintro ⟨hpos, ⟨⟩⟩
    exact ⟨by omega, rfl⟩
  · rintro ⟨hlt, rfl⟩
    exact ⟨by omega, rfl⟩

/-- How many credits a batch has. -/
theorem length_batch (h : (chunks size items)[index]? = some batch) :
    (batch.length : ℤ) = batchCreditCount items.length size index := by
  obtain ⟨hlt, rfl⟩ := getElem?_chunks.mp h
  have hsize : 0 < size := by
    by_contra hzero
    obtain rfl : size = 0 := by omega
    rw [batchCount, Nat.div_zero] at hlt
    omega
  have hlt := (lt_batchCount_iff hsize).mp hlt
  rw [List.length_take, List.length_drop, batchCreditCount]
  push_cast [Nat.cast_sub hlt.le]
  rfl

theorem mapM_assertBatch (hsize : 0 < size) :
    (List.range (batchCount items.length size)).mapM (fun index => assertBatch items index size) =
      .ok (chunks size items) := by
  rw [except_mapM_eq_ok, List.forall₂_iff_get]
  refine ⟨?_, fun i hi hi' => ?_⟩
  · rw [List.length_range, length_chunks]
  · rw [assertBatch_eq_ok hsize, List.get_eq_getElem, List.get_eq_getElem, List.getElem_range]
    exact List.getElem?_eq_getElem hi'

/-- Past the last batch there is none. -/
theorem assertBatch_past (hsize : 0 < size) (h : batchCount items.length size ≤ index) :
    assertBatch items index size = .error (pastBatch index (batchCount items.length size)) := by
  have hlast : ¬index * size < items.length := fun hlt =>
    absurd ((lt_batchCount_iff hsize).mpr hlt) (by omega)
  unfold assertBatch
  dsimp only
  rw [List.drop_of_length_le (by omega), List.take_nil]
  rfl

end Chunked

/-! ### The batches of a chain -/

/-- All items in order, in batches of the size that is announced for them. -/
structure BatchesOf {α : Type} (size : ℕ) (items : List α) (batches : List (List α)) : Prop where
  all : batches.flatten = items
  count : batches.length = batchCount items.length size
  sizes : ∀ index batch, batches[index]? = some batch → 0 < batch.length ∧ batch.length ≤ size ∧
    (batch.length : ℤ) = batchCreditCount items.length size index

theorem batchesOf_chunks {α : Type} {size : ℕ} (hsize : 0 < size) (items : List α) :
    BatchesOf size items (chunks size items) := by
  refine ⟨flatten_chunks hsize items, length_chunks size items, fun index batch hbatch => ?_⟩
  refine ⟨?_, length_chunk_le (List.mem_of_getElem? hbatch), length_batch hbatch⟩
  obtain ⟨hlt, rfl⟩ := getElem?_chunks.mp hbatch
  have hlt := (lt_batchCount_iff hsize).mp hlt
  rw [List.length_take, List.length_drop]
  omega

/-- What is read of every item is read of every chunk. -/
theorem mapM_chunks {α β : Type} {f : α → Except Text β} {items : List α} {read : List β}
    (size : ℕ) (h : items.mapM f = .ok read) :
    (chunks size items).mapM (fun chunk => chunk.mapM f) = .ok (chunks size read) := by
  have hread := except_mapM_eq_ok.mp h
  have hlength := hread.length_eq
  rw [except_mapM_eq_ok, chunks, chunks, hlength, List.forall₂_map_left_iff,
    List.forall₂_map_right_iff, List.forall₂_same]
  intro i _
  exact except_mapM_eq_ok.mpr (List.forall₂_take _ (List.forall₂_drop _ hread))

variable {ext chainPlan}

theorem mapM_claimBatch (chainPlan : ChainPlan) :
    (List.range (claimBatches chainPlan)).mapM (claimBatch chainPlan) =
      .ok ((chunks ClaimBatchSize chainPlan.claims).map (ImportseedAction.mk chainPlan.chain)) := by
  have hsize : 0 < ClaimBatchSize := by decide
  refine (except_mapM_bind (mapM_assertBatch hsize)).trans ?_
  exact List.mapM_pure

theorem mapM_syndicationBatch {credits : List PositionCredit}
    (h : chainPlan.syndications.mapM (positionCredit ext chainPlan) = .ok credits) :
    (List.range (syndicationBatches chainPlan)).mapM (syndicationBatch ext chainPlan) =
      .ok ((chunks SyndicationBatchSize credits).map
        (ImportsyndAction.mk chainPlan.pool.chainCode chainPlan.pool.tokenCode)) := by
  have hsize : 0 < SyndicationBatchSize := by decide
  refine (except_mapM_bind (mapM_assertBatch hsize)).trans ?_
  refine (except_mapM_bind (mapM_chunks SyndicationBatchSize h)).trans ?_
  exact List.mapM_pure

theorem claimBatch_eq {index : ℕ} (h : index < claimBatches chainPlan) :
    claimBatch chainPlan index = .ok ⟨chainPlan.chain,
      (chainPlan.claims.drop (index * ClaimBatchSize)).take ClaimBatchSize⟩ := by
  rw [claimBatch, (assertBatch_eq_ok (by decide)).mpr (getElem?_chunks.mpr ⟨h, rfl⟩)]
  rfl

theorem syndicationBatch_eq {credits : List PositionCredit}
    (h : chainPlan.syndications.mapM (positionCredit ext chainPlan) = .ok credits) {index : ℕ}
    (hindex : index < syndicationBatches chainPlan) :
    syndicationBatch ext chainPlan index = .ok ⟨chainPlan.pool.chainCode, chainPlan.pool.tokenCode,
      (credits.drop (index * SyndicationBatchSize)).take SyndicationBatchSize⟩ := by
  have hbatch : ((chainPlan.syndications.drop (index * SyndicationBatchSize)).take
      SyndicationBatchSize).mapM (positionCredit ext chainPlan) =
        .ok ((credits.drop (index * SyndicationBatchSize)).take SyndicationBatchSize) :=
    except_mapM_eq_ok.mpr
      (List.forall₂_take _ (List.forall₂_drop _ (except_mapM_eq_ok.mp h)))
  rw [syndicationBatch, (assertBatch_eq_ok (by decide)).mpr (getElem?_chunks.mpr ⟨hindex, rfl⟩)]
  refine except_bind_eq_ok.mpr ⟨_, rfl, ?_⟩
  exact except_bind_eq_ok.mpr ⟨_, hbatch, rfl⟩

/-- The batches of a chain are all its credits in order, each of the announced size, and past the
last batch there is none. -/
theorem import_batches {credits : List PositionCredit}
    (h : chainPlan.syndications.mapM (positionCredit ext chainPlan) = .ok credits) :
    (∃ actions, (List.range (claimBatches chainPlan)).mapM (claimBatch chainPlan) = .ok actions ∧
      (∀ action ∈ actions, action.chain = chainPlan.chain) ∧
        BatchesOf ClaimBatchSize chainPlan.claims (actions.map ImportseedAction.credits)) ∧
    (∃ actions, (List.range (syndicationBatches chainPlan)).mapM
        (syndicationBatch ext chainPlan) = .ok actions ∧
      (∀ action ∈ actions, action.chain_code = chainPlan.pool.chainCode ∧
        action.token_code = chainPlan.pool.tokenCode) ∧
          BatchesOf SyndicationBatchSize credits (actions.map ImportsyndAction.credits)) ∧
    (∀ index, claimBatches chainPlan ≤ index →
      claimBatch chainPlan index = .error (pastBatch index (claimBatches chainPlan))) ∧
    ∀ index, syndicationBatches chainPlan ≤ index → syndicationBatch ext chainPlan index =
      .error (pastBatch index (syndicationBatches chainPlan)) := by
  refine ⟨⟨_, mapM_claimBatch chainPlan, ?_, ?_⟩, ⟨_, mapM_syndicationBatch h, ?_, ?_⟩,
    fun index hindex => ?_, fun index hindex => ?_⟩
  · intro action haction
    obtain ⟨_, _, rfl⟩ := List.mem_map.mp haction
    rfl
  · rw [List.map_map]
    exact (List.map_id _).symm ▸ batchesOf_chunks (by decide) chainPlan.claims
  · intro action haction
    obtain ⟨_, _, rfl⟩ := List.mem_map.mp haction
    exact ⟨rfl, rfl⟩
  · rw [List.map_map]
    exact (List.map_id _).symm ▸ batchesOf_chunks (by decide) credits
  · rw [claimBatch, assertBatch_past (by decide) hindex]
    rfl
  · rw [syndicationBatch, assertBatch_past (by decide) hindex]
    rfl

/-- A chain with 60 positions and 700 claims. -/
def sampleChainPlan : ChainPlan where
  chain := .SVM
  bootstrapJsonFile := text "solana.json"
  programId := none
  syndications := (List.range 60).map fun i =>
    ⟨SOLANA_CHAIN_CODENAME, text "LIQSOL", sampleWallet.val, i + 1⟩
  claims := (List.range 700).map fun i => ⟨text "06", i + 1⟩
  pool := PlaceholderPoolTuning

def sampleCredits : List PositionCredit :=
  (List.range 60).map fun i =>
    ⟨text "069b8857feab8184fb687f634618c035dac439dc1aeb3b5598a0f00000000001", i + 1⟩

theorem sampleCredits_eq : sampleChainPlan.syndications.mapM
    (positionCredit sampleExternals sampleChainPlan) = .ok sampleCredits := by
  have hkey : nativeBytesHex sampleExternals .SVM sampleWallet.val =
      .ok (text "069b8857feab8184fb687f634618c035dac439dc1aeb3b5598a0f00000000001") := by
    decide +kernel
  rw [except_mapM_eq_ok, sampleChainPlan, sampleCredits, List.forall₂_map_left_iff,
    List.forall₂_map_right_iff, List.forall₂_same]
  intro i _
  rw [positionCredit]
  exact except_bind_eq_ok.mpr ⟨_, hkey, rfl⟩

theorem import_batches_sample :
    claimBatches sampleChainPlan = 2 ∧ syndicationBatches sampleChainPlan = 2 ∧
    (∃ actions, (List.range (claimBatches sampleChainPlan)).mapM (claimBatch sampleChainPlan) =
        .ok actions ∧ (∀ action ∈ actions, action.chain = .SVM) ∧
          BatchesOf ClaimBatchSize sampleChainPlan.claims
            (actions.map ImportseedAction.credits)) ∧
    (∃ actions, (List.range (syndicationBatches sampleChainPlan)).mapM
        (syndicationBatch sampleExternals sampleChainPlan) = .ok actions ∧
      (∀ action ∈ actions, action.chain_code = [] ∧ action.token_code = []) ∧
        BatchesOf SyndicationBatchSize sampleCredits (actions.map ImportsyndAction.credits)) ∧
    (∀ index, claimBatches sampleChainPlan ≤ index → claimBatch sampleChainPlan index =
      .error (pastBatch index (claimBatches sampleChainPlan))) ∧
    ∀ index, syndicationBatches sampleChainPlan ≤ index →
      syndicationBatch sampleExternals sampleChainPlan index =
        .error (pastBatch index (syndicationBatches sampleChainPlan)) :=
  ⟨by decide +kernel, by decide +kernel, import_batches sampleCredits_eq⟩

end WireTools.WireLcoImportTool

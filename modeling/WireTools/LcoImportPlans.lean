import WireTools.LcoImportClaims

/-! # Accepted plans of the launch-data import

* `Accounted`: the custody of a chain is its pool and its positions, every amount fits where it is
  imported to, and no key or address comes twice;
* `EthereumDerived`, `SolanaDerived`: which positions, which claims and which pool the plan of a
  chain holds, by the rows of its export;
* a key is the key of one address (`address_of_key`), so the stakers of an export, which are listed
  once by address, have positions under different keys (`nodup_ethereumSyndications`);
* `createPlan_accounted` for both chains, and `assertRealData_iff`: what has to be supplied before
  real custody is imported. -/

namespace WireTools.WireLcoImportTool

open DclaimSeed (ImportSeedChainKind)
open Outcome

/-- The plan of a chain, checked against itself. -/
structure Accounted (plan : ChainPlan) : Prop where
  custody : plan.pool.custodyTotal =
    plan.pool.initialChainAmount + syndicatedTotal plan.syndications
  left : 0 < plan.pool.initialChainAmount
  fits : PoolFits plan.pool
  positions : ∀ spec ∈ plan.syndications, 0 < spec.amount ∧ spec.amount ≤ AssetMaxAmount ∧
    spec.chainCode = plan.pool.chainCode ∧ spec.tokenCode = plan.pool.tokenCode
  keys : (plan.syndications.map SyndicationSpec.pubkey).Pairwise (· < ·)
  claims : ∀ c ∈ plan.claims, 0 < c.wire_atomic ∧ c.wire_atomic ≤ AssetMaxAmount
  addresses : (plan.claims.map ClaimCredit.native_address).Pairwise (· < ·)

variable {ext : Externals}

/-! ### From the parts to the plan -/

section Parts

variable {specs syndications : List SyndicationSpec} {source : PoolSource} {pool : LiqPoolSpec}
  {owed : List Owed} {decimals : ℕ} {claims : List ClaimCredit}

theorem accounted_of_parts {chain : ImportSeedChainKind} {file : Text} {programId : Option Text}
    (hsorted : sortSyndications specs = .ok syndications)
    (hpositive : ∀ spec ∈ specs, 0 < spec.amount)
    (hcodes : ∀ spec ∈ specs, spec.chainCode = source.chainCode ∧
      spec.tokenCode = source.tokenCode)
    (hkeys : (specs.map SyndicationSpec.pubkey).Nodup)
    (hsource : source.syndications = syndications) (hpool : Pooled source pool)
    (hclaims : Claimed owed decimals claims) :
    Accounted ⟨chain, file, programId, syndications, claims, pool⟩ := by
  obtain ⟨hfits, rfl⟩ := sortSyndications_eq_ok.mp hsorted
  refine ⟨?_, hpool.positive, hpool.fits, fun spec hspec => ?_, sortBy_strict hkeys,
    fun c hc => ⟨((hclaims.claim c).mp hc).1, hclaims.fits c hc⟩, hclaims.sorted⟩
  · dsimp only
    rw [hpool.custody, hpool.left, hsource]
    omega
  · have hspec := mem_sortBy.mp hspec
    obtain ⟨hchain, htoken⟩ := hcodes spec hspec
    exact ⟨hpositive spec hspec, hfits spec hspec, hchain.trans hpool.chainCode.symm,
      htoken.trans hpool.tokenCode.symm⟩

end Parts

/-! ### Rows and their addresses -/

section Rows

variable {α : Type}

/-- The bytes of an address as hex, where it can be read. -/
def hexOf (ext : Externals) (chain : ImportSeedChainKind) (address : Text) : Text :=
  (nativeBytesHex ext chain address).toOption.getD []

theorem owedBy_eq_ok {chain : ImportSeedChainKind} {address : α → Text} {amount : α → ℤ}
    {rows : List α} {owed : List Owed} (h : owedBy ext chain rows address amount = .ok owed) :
    owed = rows.map fun row => ⟨hexOf ext chain (address row), amount row⟩ := by
  have hforall := except_mapM_eq_ok.mp h
  clear h
  induction hforall with
  | nil => rfl
  | cons hrow _ ih =>
      obtain ⟨hex, hhex, ⟨⟩⟩ := except_bind_eq_ok.mp hrow
      rw [ih, List.map_cons, hexOf, hhex]
      rfl

end Rows

/-! ### Keys and addresses of Ethereum -/

theorem toLower_hexPrefix : (text "0x").map toLower = text "0x" := by
  decide

theorem evmDisplayHex_address {address : Text} (h : isEvmAddress address = true) :
    evmDisplayHex address = address.map toLower := by
  unfold isEvmAddress at h
  rw [Bool.and_eq_true, Bool.and_eq_true] at h
  obtain ⟨rest, rfl⟩ := List.isPrefixOf_iff_prefix.mp h.1.1
  have hprefix : (text "0x").isPrefixOf ((text "0x" ++ rest).map toLower) = true := by
    rw [List.map_append, toLower_hexPrefix]
    exact List.isPrefixOf_iff_prefix.mpr (List.prefix_append _ _)
  rw [evmDisplayHex, withoutHexPrefix, if_pos hprefix, List.map_append, toLower_hexPrefix]
  rfl

/-- A key is the key of one address. -/
theorem address_of_key {key key' address address' : Text} (h : isKeyOf ext key address = true)
    (h' : isKeyOf ext key' address' = true) (hkey : evmDisplayHex key = evmDisplayHex key') :
    address.map toLower = address'.map toLower := by
  unfold isKeyOf at h h'
  rw [← hkey] at h'
  cases hcompute : ext.computeAddress (evmDisplayHex key) with
  | error _ =>
      rw [hcompute] at h
      cases h
  | ok computed =>
      rw [hcompute] at h h'
      exact (beq_iff_eq.mp h).symm.trans (beq_iff_eq.mp h')

/-! ### Ethereum -/

section Ethereum

variable {snapshot : EthereumGenesisSnapshot} {file : Text}

/-- What the checks of an export of Ethereum let pass. -/
structure EthereumChecked (ext : Externals) (snapshot : EthereumGenesisSnapshot) : Prop where
  keyed : ∀ position ∈ ethereumPositions snapshot, ∃ key, position.1.pubkey = some key
  own : ∀ staker ∈ snapshot.stakers, ∀ key, staker.pubkey = some key →
    isKeyOf ext key.val staker.address.val = true
  stakers : (snapshot.stakers.map fun staker => staker.address.val.map toLower).Nodup
  purchasers : (snapshot.purchasers.map fun purchaser => purchaser.address.val.map toLower).Nodup
  rows : ∀ purchaser ∈ snapshot.purchasers, purchaser.totalPretokens.toBigInt =
    purchaser.pretokens.toBigInt + purchaser.pretokenYield.toBigInt
  staked : snapshot.metadata.totalPrincipal.toBigInt =
    (snapshot.stakers.map fun staker => staker.netPrincipal.toBigInt).sum
  purchased : snapshot.metadata.totalLiqEthPurchased.toBigInt =
    (snapshot.purchasers.map fun purchaser => purchaser.liqPrincipalIn.toBigInt).sum

theorem assertEthereumExport_ok (h : assertEthereumExport ext file snapshot = .ok ()) :
    EthereumChecked ext snapshot := by
  unfold assertEthereumExport at h
  obtain ⟨hkeyed, h⟩ := assertOk_bind.mp h
  obtain ⟨hown, h⟩ := assertOk_bind.mp h
  obtain ⟨_, hstakers, h⟩ := except_bind_eq_ok.mp h
  obtain ⟨_, hpurchasers, h⟩ := except_bind_eq_ok.mp h
  obtain ⟨_, hrows, htotals⟩ := except_bind_eq_ok.mp h
  have hrows := assertRowTotals_eq_ok.mp hrows
  have htotals := assertTotals_eq_ok.mp htotals
  rw [List.isEmpty_iff, unkeyed, List.map_eq_nil_iff, List.filter_eq_nil_iff] at hkeyed
  rw [List.isEmpty_iff, misKeyed, List.map_eq_nil_iff, List.filter_eq_nil_iff] at hown
  have hlower : ∀ {β : Type} (rows : List β) (address : β → EvmAddress),
      (rows.map fun row => evmDisplayHex (address row).val) =
        rows.map fun row => (address row).val.map toLower := fun rows address =>
    List.map_congr_left fun row _ => evmDisplayHex_address (address row).property
  have hstakers := assertUnique_eq_ok.mp hstakers
  have hpurchasers := assertUnique_eq_ok.mp hpurchasers
  rw [hlower] at hstakers hpurchasers
  refine ⟨fun position hposition => ?_, fun staker hstaker key hkey => ?_, hstakers, hpurchasers,
    fun purchaser hpurchaser => ?_, ?_, ?_⟩
  · have hsome := hkeyed position hposition
    cases hkey : position.1.pubkey with
    | none =>
        rw [hkey] at hsome
        exact absurd rfl hsome
    | some key => exact ⟨key, rfl⟩
  · have hnot := hown staker hstaker
    rw [hkey, Option.any_some, Bool.not_eq_true, Bool.not_eq_false'] at hnot
    exact hnot
  · exact hrows _ (List.mem_map_of_mem hpurchaser)
  · have htotal := htotals _ List.mem_cons_self
    dsimp only at htotal
    rw [htotal, sumOf_eq, List.map_map]
    rfl
  · have htotal := htotals _ (List.mem_cons_of_mem _ (List.mem_cons_of_mem _ List.mem_cons_self))
    dsimp only at htotal
    rw [htotal, sumOf_eq, List.map_map]
    rfl

theorem mem_ethereumPositions {position : EthereumGenesisStaker × ℤ} :
    position ∈ ethereumPositions snapshot ↔ position.1 ∈ snapshot.stakers ∧
      position.2 = position.1.netPrincipal.toBigInt / 10 ^ 9 ∧ 0 < position.2 := by
  rw [ethereumPositions, List.mem_filter, decide_eq_true_eq, List.mem_map]
  have hscale : ∀ staker : EthereumGenesisStaker, scaleUnits staker.netPrincipal.toBigInt
      EthereumDecimals LIQ_TOKEN_PRECISION = staker.netPrincipal.toBigInt / 10 ^ 9 := fun staker =>
    scaleUnits_wei (toBigInt_nonneg _)
  constructor
  · rintro ⟨⟨staker, hstaker, rfl⟩, hpositive⟩
    exact ⟨hstaker, hscale staker, hpositive⟩
  · rintro ⟨hstaker, hamount, hpositive⟩
    exact ⟨⟨position.1, hstaker, Prod.ext rfl ((hscale _).trans hamount.symm)⟩, hpositive⟩

/-- No two stakers have a position under one key. -/
theorem nodup_ethereumSyndications (h : EthereumChecked ext snapshot) (chainCode tokenCode : Text) :
    ((ethereumSyndications chainCode tokenCode (ethereumPositions snapshot)).map
      SyndicationSpec.pubkey).Nodup := by
  have hstakers : (ethereumPositions snapshot).Pairwise fun position position' =>
      position.1.address.val.map toLower ≠ position'.1.address.val.map toLower := by
    refine List.Pairwise.filter _ (List.pairwise_map.mpr ?_)
    exact List.pairwise_map.mp h.stakers
  rw [ethereumSyndications, List.map_map]
  refine List.pairwise_map.mpr (hstakers.imp_of_mem ?_)
  intro position position' hposition hposition' hne hkeys
  obtain ⟨key, hkey⟩ := h.keyed position hposition
  obtain ⟨key', hkey'⟩ := h.keyed position' hposition'
  have hown := h.own _ (mem_ethereumPositions.mp hposition).1 key hkey
  have hown' := h.own _ (mem_ethereumPositions.mp hposition').1 key' hkey'
  dsimp only [Function.comp_apply] at hkeys
  rw [hkey, hkey'] at hkeys
  exact hne (address_of_key hown hown' hkeys)

/-- What the rows of an export of Ethereum owe. -/
def ethereumOwed (ext : Externals) (snapshot : EthereumGenesisSnapshot) : List Owed :=
  (snapshot.purchasers.map fun purchaser => ⟨hexOf ext .EVM purchaser.address.val,
    purchaser.pretokens.toBigInt + purchaser.pretokenYield.toBigInt⟩) ++
  snapshot.stakers.map fun staker => ⟨hexOf ext .EVM staker.address.val,
    staker.pretokenYield.toBigInt⟩

/-- The plan of Ethereum, by the rows of its export. -/
structure EthereumDerived (ext : Externals) (snapshot : EthereumGenesisSnapshot)
    (plan : ChainPlan) : Prop where
  /-- A position for every staker with a unit of the depot at least, under the staker's key. -/
  positions : ∀ spec, spec ∈ plan.syndications ↔ ∃ staker ∈ snapshot.stakers, ∃ key,
    staker.pubkey = some key ∧ 0 < staker.netPrincipal.toBigInt / 10 ^ 9 ∧
      spec = ⟨ETHEREUM_CHAIN_CODENAME, text "LIQETH", evmDisplayHex key.val,
        staker.netPrincipal.toBigInt / 10 ^ 9⟩
  keyed : ∀ staker ∈ snapshot.stakers, 0 < staker.netPrincipal.toBigInt / 10 ^ 9 →
    ∃ key, staker.pubkey = some key ∧ isKeyOf ext key.val staker.address.val = true
  /-- What was purchased, where the export books no custody. -/
  purchased : snapshot.metadata.lastPoolLiqBalance = none → plan.pool.initialChainAmount =
    (snapshot.purchasers.map fun purchaser => purchaser.liqPrincipalIn.toBigInt).sum / 10 ^ 9
  booked : ∀ balance, snapshot.metadata.lastPoolLiqBalance = some balance →
    plan.pool.custodyTotal = balance.toBigInt / 10 ^ 9
  claims : Claimed (ethereumOwed ext snapshot) EthereumDecimals plan.claims

theorem ethereumOwed_nonneg : ∀ entry ∈ ethereumOwed ext snapshot, 0 ≤ entry.amount := by
  intro entry hentry
  rcases List.mem_append.mp hentry with hmem | hmem
  · obtain ⟨purchaser, _, rfl⟩ := List.mem_map.mp hmem
    exact Int.add_nonneg (toBigInt_nonneg _) (toBigInt_nonneg _)
  · obtain ⟨staker, _, rfl⟩ := List.mem_map.mp hmem
    exact toBigInt_nonneg _

theorem mem_ethereumSyndications (h : EthereumChecked ext snapshot) {chainCode tokenCode : Text}
    {spec : SyndicationSpec} :
    spec ∈ ethereumSyndications chainCode tokenCode (ethereumPositions snapshot) ↔
      ∃ staker ∈ snapshot.stakers, ∃ key, staker.pubkey = some key ∧
        0 < staker.netPrincipal.toBigInt / 10 ^ 9 ∧ spec = ⟨chainCode, tokenCode,
          evmDisplayHex key.val, staker.netPrincipal.toBigInt / 10 ^ 9⟩ := by
  rw [ethereumSyndications, List.mem_map]
  constructor
  · rintro ⟨position, hposition, rfl⟩
    obtain ⟨key, hkey⟩ := h.keyed position hposition
    obtain ⟨hstaker, hamount, hpositive⟩ := mem_ethereumPositions.mp hposition
    refine ⟨position.1, hstaker, key, hkey, hamount ▸ hpositive, ?_⟩
    rw [hkey, ← hamount]
    rfl
  · rintro ⟨staker, hstaker, key, hkey, hpositive, rfl⟩
    refine ⟨(staker, staker.netPrincipal.toBigInt / 10 ^ 9),
      mem_ethereumPositions.mpr ⟨hstaker, rfl, hpositive⟩, ?_⟩
    rw [hkey]
    rfl

theorem bookedPlaceholder_depot {syndications : List SyndicationSpec}
    (h : 0 ≤ syndicatedTotal syndications) (metadata : EthereumGenesisMetadata) :
    scaleUnits (bookedPlaceholder syndications metadata) EthereumDecimals LIQ_TOKEN_PRECISION =
      syndicatedTotal syndications + metadata.totalLiqEthPurchased.toBigInt / 10 ^ 9 := by
  have hwei : scaleUnits (syndicatedTotal syndications) LIQ_TOKEN_PRECISION EthereumDecimals =
      syndicatedTotal syndications * 10 ^ 9 :=
    if_neg (by decide)
  have hbooked : 0 ≤ bookedPlaceholder syndications metadata := by
    rw [bookedPlaceholder, hwei]
    exact Int.add_nonneg (Int.mul_nonneg h (by positivity)) (toBigInt_nonneg _)
  rw [scaleUnits_wei hbooked, bookedPlaceholder, hwei, add_comm, Int.add_mul_ediv_right _ _
    (by positivity), add_comm]

/-- What the options and the export of Ethereum leave to no placeholder. -/
def EthereumSupplied (chainConfig : LcoImportChainConfig) (snapshot : EthereumGenesisSnapshot) :
    Prop :=
  snapshot.metadata.lastPoolLiqBalance.isSome ∧ chainConfig.nativePriceUsd.isSome ∧
    (chainConfig.highestTranchePriceUsd.or snapshot.metadata.highestTranchePriceUsd).isSome ∧
      chainConfig.pool.isSome

theorem createEthereumPlan_ok {chainConfig : LcoImportChainConfig} {derivation : ChainDerivation}
    (h : createEthereumPlan ext chainConfig = .ok derivation) :
    ∃ text snapshot, readExport ext ext.ethereumCodec chainConfig.bootstrapJsonFile =
        .ok (text, snapshot) ∧ Accounted derivation.plan ∧
      EthereumDerived ext snapshot derivation.plan ∧
        (derivation.placeholders = [] ↔ EthereumSupplied chainConfig snapshot) := by
  unfold createEthereumPlan at h
  obtain ⟨⟨text, snapshot⟩, hread, h⟩ := except_bind_eq_ok.mp h
  obtain ⟨tokenCode, htoken, h⟩ := except_bind_eq_ok.mp h
  obtain rfl : WireTools.text "LIQETH" = tokenCode := Except.ok.inj htoken
  obtain ⟨_, hchecked, h⟩ := except_bind_eq_ok.mp h
  obtain ⟨syndications, hsorted, h⟩ := except_bind_eq_ok.mp h
  obtain ⟨⟨pool, placeholders⟩, hcreated, h⟩ := except_bind_eq_ok.mp h
  obtain ⟨bought, hbought, h⟩ := except_bind_eq_ok.mp h
  obtain ⟨earned, hearned, h⟩ := except_bind_eq_ok.mp h
  obtain ⟨claims, hclaims, h⟩ := except_bind_eq_ok.mp h
  cases h
  have hchecked := assertEthereumExport_ok hchecked
  obtain ⟨hpool, hplaceholders⟩ := createPool_eq_ok hcreated
  have howed : bought ++ earned = ethereumOwed ext snapshot := by
    rw [owedBy_eq_ok hbought, owedBy_eq_ok hearned, ethereumOwed]
    refine congrArg (· ++ _) (List.map_congr_left fun purchaser hpurchaser => ?_)
    exact congrArg (Owed.mk _) (hchecked.rows purchaser hpurchaser)
  rw [howed] at hclaims
  have hclaimed := createClaims_eq_ok ethereumOwed_nonneg hclaims
  have hpositive : ∀ spec ∈ ethereumSyndications ETHEREUM_CHAIN_CODENAME
      (WireTools.text "LIQETH") (ethereumPositions snapshot), 0 < spec.amount := by
    intro spec hspec
    obtain ⟨_, _, _, _, hpositive, rfl⟩ := (mem_ethereumSyndications hchecked).mp hspec
    exact hpositive
  have hmem : ∀ spec, spec ∈ syndications ↔ spec ∈ ethereumSyndications ETHEREUM_CHAIN_CODENAME
      (WireTools.text "LIQETH") (ethereumPositions snapshot) := by
    obtain ⟨_, rfl⟩ := sortSyndications_eq_ok.mp hsorted
    exact fun spec => mem_sortBy
  have htotal : 0 ≤ syndicatedTotal syndications :=
    syndicatedTotal_nonneg fun spec hspec => hpositive spec ((hmem spec).mp hspec)
  refine ⟨text, snapshot, hread, ?_, ⟨fun spec => ?_, fun staker hstaker hamount => ?_,
    fun hnone => ?_, fun balance hsome => ?_, hclaimed⟩, ?_⟩
  · refine accounted_of_parts hsorted hpositive (fun spec hspec => ?_)
      (nodup_ethereumSyndications hchecked _ _) rfl hpool hclaimed
    obtain ⟨_, _, _, _, _, rfl⟩ := (mem_ethereumSyndications hchecked).mp hspec
    exact ⟨rfl, rfl⟩
  · exact (hmem spec).trans (mem_ethereumSyndications hchecked)
  · obtain ⟨key, hkey⟩ := hchecked.keyed (staker, staker.netPrincipal.toBigInt / 10 ^ 9)
      (mem_ethereumPositions.mpr ⟨hstaker, rfl, hamount⟩)
    exact ⟨key, hkey, hchecked.own staker hstaker key hkey⟩
  · dsimp only
    rw [hpool.left]
    dsimp only
    rw [hnone, Option.map_none, Option.getD_none, bookedPlaceholder_depot htotal,
      add_sub_cancel_left, hchecked.purchased]
  · dsimp only
    rw [hpool.custody]
    dsimp only
    rw [hsome, Option.map_some, Option.getD_some, scaleUnits_wei (toBigInt_nonneg _)]
  · dsimp only
    rw [List.append_eq_nil_iff, hplaceholders, EthereumSupplied]
    refine and_congr ?_ Iff.rfl
    cases snapshot.metadata.lastPoolLiqBalance <;> simp

end Ethereum

/-! ### Solana -/

section Solana

variable {snapshot : SolanaGenesisSnapshot} {file source : Text}

/-- What the checks of an export of Solana let pass. -/
structure SolanaChecked (ext : Externals) (source : Text) (snapshot : SolanaGenesisSnapshot) :
    Prop where
  issues : snapshot.accounting.issues = []
  hash : ext.solanaAllocationHash source = snapshot.allocationHash.val
  balances : (snapshot.balances.map fun balance => balance.address.val).Nodup
  rows : ∀ balance ∈ snapshot.balances, balance.totalPretokens.toBigInt =
    balance.directlyPurchasedPretokens.toBigInt + balance.pretokenYield.toBigInt
  purchased : snapshot.accounting.initialChainAmount.toBigInt =
    (snapshot.balances.map fun balance => balance.purchasedLiqsol.toBigInt).sum
  backing : snapshot.accounting.backingAvailable.toBigInt =
    snapshot.accounting.poolBalance.toBigInt - snapshot.accounting.unreportedLiqsolYield.toBigInt

theorem assertSolanaExport_ok (h : assertSolanaExport ext file source snapshot = .ok ()) :
    SolanaChecked ext source snapshot := by
  unfold assertSolanaExport at h
  obtain ⟨hissues, h⟩ := assertOk_bind.mp h
  obtain ⟨hhash, h⟩ := assertOk_bind.mp h
  obtain ⟨_, hbalances, h⟩ := except_bind_eq_ok.mp h
  obtain ⟨_, hrows, h⟩ := except_bind_eq_ok.mp h
  obtain ⟨_, htotals⟩ := assertOk_bind.mp h
  have hrows := assertRowTotals_eq_ok.mp hrows
  have htotals := assertTotals_eq_ok.mp htotals
  refine ⟨List.isEmpty_iff.mp hissues, beq_iff_eq.mp hhash, assertUnique_eq_ok.mp hbalances,
    fun balance hbalance => ?_, ?_, ?_⟩
  · exact hrows _ (List.mem_map_of_mem hbalance)
  · have htotal := htotals _ List.mem_cons_self
    dsimp only at htotal
    rw [htotal, sumOf_eq, List.map_map]
    rfl
  · exact htotals _ (List.mem_cons_of_mem _ List.mem_cons_self)

/-- The depot has as many decimals. -/
theorem toDepot_eq (units : SolanaGenesisUnits) (amount : UnsignedDecimalString) :
    toDepot units amount = amount.toBigInt := by
  rw [toDepot, units.liqsol]
  exact scaleUnits_self _ _

theorem mem_solanaSyndications {chainCode tokenCode : Text} {spec : SyndicationSpec} :
    spec ∈ solanaSyndications chainCode tokenCode snapshot ↔ ∃ balance ∈ snapshot.balances,
      0 < balance.syndicatedLiqsol.toBigInt ∧ spec = ⟨chainCode, tokenCode, balance.address.val,
        balance.syndicatedLiqsol.toBigInt⟩ := by
  rw [solanaSyndications, List.mem_filter, decide_eq_true_eq, List.mem_map]
  constructor
  · rintro ⟨⟨balance, hbalance, rfl⟩, hpositive⟩
    dsimp only at hpositive ⊢
    rw [toDepot_eq] at hpositive ⊢
    exact ⟨balance, hbalance, hpositive, rfl⟩
  · rintro ⟨balance, hbalance, hpositive, rfl⟩
    refine ⟨⟨balance, hbalance, ?_⟩, hpositive⟩
    rw [toDepot_eq]

theorem nodup_solanaSyndications (h : SolanaChecked ext source snapshot)
    (chainCode tokenCode : Text) :
    ((solanaSyndications chainCode tokenCode snapshot).map SyndicationSpec.pubkey).Nodup := by
  unfold solanaSyndications
  refine List.Nodup.sublist (List.filter_sublist.map _) ?_
  rw [List.map_map]
  exact h.balances

/-- What the rows of an export of Solana owe. -/
def solanaOwed (ext : Externals) (snapshot : SolanaGenesisSnapshot) : List Owed :=
  snapshot.balances.map fun balance => ⟨hexOf ext .SVM balance.address.val,
    balance.directlyPurchasedPretokens.toBigInt + balance.pretokenYield.toBigInt⟩

theorem solanaOwed_nonneg : ∀ entry ∈ solanaOwed ext snapshot, 0 ≤ entry.amount := by
  intro entry hentry
  obtain ⟨balance, _, rfl⟩ := List.mem_map.mp hentry
  exact Int.add_nonneg (toBigInt_nonneg _) (toBigInt_nonneg _)

/-- The plan of Solana, by the rows of its export. -/
structure SolanaDerived (ext : Externals) (snapshot : SolanaGenesisSnapshot) (plan : ChainPlan) :
    Prop where
  positions : ∀ spec, spec ∈ plan.syndications ↔ ∃ balance ∈ snapshot.balances,
    0 < balance.syndicatedLiqsol.toBigInt ∧ spec = ⟨SOLANA_CHAIN_CODENAME, text "LIQSOL",
      balance.address.val, balance.syndicatedLiqsol.toBigInt⟩
  purchased : plan.pool.initialChainAmount =
    (snapshot.balances.map fun balance => balance.purchasedLiqsol.toBigInt).sum
  /-- No more is booked than the pool backs, its unreported yield apart. -/
  backed : plan.pool.custodyTotal ≤
    snapshot.accounting.poolBalance.toBigInt - snapshot.accounting.unreportedLiqsolYield.toBigInt
  claims : Claimed (solanaOwed ext snapshot) 8 plan.claims

def SolanaSupplied (chainConfig : LcoImportChainConfig) (snapshot : SolanaGenesisSnapshot) :
    Prop :=
  chainConfig.nativePriceUsd.isSome ∧
    (chainConfig.highestTranchePriceUsd.or snapshot.accounting.highestTranchePriceUsd).isSome ∧
      chainConfig.pool.isSome

theorem createSolanaPlan_ok {chainConfig : LcoImportChainConfig} {derivation : ChainDerivation}
    (h : createSolanaPlan ext chainConfig = .ok derivation) :
    ∃ text snapshot, readExport ext ext.solanaCodec chainConfig.bootstrapJsonFile =
        .ok (text, snapshot) ∧ Accounted derivation.plan ∧
      SolanaDerived ext snapshot derivation.plan ∧
        (derivation.placeholders = [] ↔ SolanaSupplied chainConfig snapshot) := by
  unfold createSolanaPlan at h
  obtain ⟨⟨text, snapshot⟩, hread, h⟩ := except_bind_eq_ok.mp h
  obtain ⟨tokenCode, htoken, h⟩ := except_bind_eq_ok.mp h
  obtain rfl : WireTools.text "LIQSOL" = tokenCode := Except.ok.inj htoken
  obtain ⟨_, hchecked, h⟩ := except_bind_eq_ok.mp h
  obtain ⟨syndications, hsorted, h⟩ := except_bind_eq_ok.mp h
  obtain ⟨hbacked, h⟩ := assertOk_bind.mp h
  obtain ⟨⟨pool, placeholders⟩, hcreated, h⟩ := except_bind_eq_ok.mp h
  obtain ⟨owed, howed, h⟩ := except_bind_eq_ok.mp h
  obtain ⟨claims, hclaims, h⟩ := except_bind_eq_ok.mp h
  cases h
  have hchecked := assertSolanaExport_ok hchecked
  obtain ⟨hpool, hplaceholders⟩ := createPool_eq_ok hcreated
  have howed : owed = solanaOwed ext snapshot := by
    rw [owedBy_eq_ok howed, solanaOwed]
    refine List.map_congr_left fun balance hbalance => ?_
    exact congrArg (Owed.mk _) (hchecked.rows balance hbalance)
  rw [howed, snapshot.accounting.units.pretoken] at hclaims
  have hclaimed := createClaims_eq_ok solanaOwed_nonneg hclaims
  obtain ⟨_, hsyndications⟩ := sortSyndications_eq_ok.mp hsorted
  refine ⟨text, snapshot, hread, ?_, ⟨fun spec => ?_, ?_, ?_, hclaimed⟩, hplaceholders⟩
  · refine accounted_of_parts hsorted (fun spec hspec => ?_) (fun spec hspec => ?_)
      (nodup_solanaSyndications hchecked _ _) rfl hpool hclaimed
    · obtain ⟨_, _, hpositive, rfl⟩ := mem_solanaSyndications.mp hspec
      exact hpositive
    · obtain ⟨_, _, _, rfl⟩ := mem_solanaSyndications.mp hspec
      exact ⟨rfl, rfl⟩
  · dsimp only
    rw [hsyndications, mem_sortBy]
    exact mem_solanaSyndications
  · dsimp only
    rw [hpool.left]
    dsimp only
    rw [add_sub_cancel_right, toDepot_eq, hchecked.purchased]
  · have hbacked := of_decide_eq_true hbacked
    dsimp only
    rw [hpool.custody]
    dsimp only
    rwa [toDepot_eq snapshot.accounting.units snapshot.accounting.backingAvailable,
      hchecked.backing] at hbacked

end Solana

/-! ### Both chains -/

theorem derive_eq_ok {createChain : LcoImportChainConfig → Except Text ChainDerivation}
    {chainConfig : Option LcoImportChainConfig} {derived : Option ChainDerivation}
    (h : derive createChain chainConfig = .ok derived) : (chainConfig = none ∧ derived = none) ∨
      ∃ config derivation, chainConfig = some config ∧ derived = some derivation ∧
        createChain config = .ok derivation := by
  cases chainConfig with
  | none =>
      cases h
      exact Or.inl ⟨rfl, rfl⟩
  | some config =>
      obtain ⟨derivation, hcreate, rfl⟩ := except_map_eq_ok h
      exact Or.inr ⟨config, derivation, rfl, rfl, hcreate⟩

/-- What an accepted plan is made of. -/
theorem createPlan_eq_ok {config : LcoImportConfig} {plan : Plan}
    (h : createPlan ext config = .ok plan) :
    ∃ ethereum solana, derive (createEthereumPlan ext) config.ethereum = .ok ethereum ∧
      derive (createSolanaPlan ext) config.solana = .ok solana ∧
        plan = composePlan config ethereum solana ∧ plan.dclaimFundingAccount ≠ dclaimAccount ∧
          planClaimTotal plan ≤ AssetMaxAmount := by
  unfold createPlan at h
  obtain ⟨ethereum, hethereum, h⟩ := except_bind_eq_ok.mp h
  obtain ⟨solana, hsolana, h⟩ := except_bind_eq_ok.mp h
  obtain ⟨haccount, h⟩ := assertOk_bind.mp h
  obtain ⟨hclaims, h⟩ := assertOk_bind.mp h
  cases h
  exact ⟨ethereum, solana, hethereum, hsolana, rfl, bne_iff_ne.mp haccount,
    of_decide_eq_true hclaims⟩

theorem mem_chainPlans {plan : Plan} {chainPlan : ChainPlan} : chainPlan ∈ chainPlans plan ↔
    plan.ethereum = some chainPlan ∨ plan.solana = some chainPlan := by
  rw [chainPlans, List.mem_filterMap]
  simp only [List.mem_cons, List.not_mem_nil, or_false, id_eq]
  constructor
  · rintro ⟨_, rfl | rfl, h⟩
    · exact Or.inl h
    · exact Or.inr h
  · rintro (h | h)
    · exact ⟨_, Or.inl rfl, h⟩
    · exact ⟨_, Or.inr rfl, h⟩

/-- Both chains of an accepted plan are accounted for, and all claims fit one transfer. -/
theorem createPlan_accounted {config : LcoImportConfig} {plan : Plan}
    (h : createPlan ext config = .ok plan) :
    (∀ chainPlan ∈ chainPlans plan, Accounted chainPlan) ∧
      planClaimTotal plan ≤ AssetMaxAmount ∧ plan.dclaimFundingAccount ≠ dclaimAccount := by
  obtain ⟨ethereum, solana, hethereum, hsolana, rfl, haccount, hclaims⟩ := createPlan_eq_ok h
  refine ⟨fun chainPlan hmem => ?_, hclaims, haccount⟩
  rcases mem_chainPlans.mp hmem with hchain | hchain
  · obtain ⟨derivation, hsome, rfl⟩ := Option.map_eq_some_iff.mp hchain
    rcases derive_eq_ok hethereum with ⟨_, hnone⟩ | ⟨_, _, _, hderived, hcreate⟩
    · rw [hnone] at hsome
      cases hsome
    · obtain rfl := Option.some.inj (hsome.symm.trans hderived)
      obtain ⟨_, _, _, haccounted, _⟩ := createEthereumPlan_ok hcreate
      exact haccounted
  · obtain ⟨derivation, hsome, rfl⟩ := Option.map_eq_some_iff.mp hchain
    rcases derive_eq_ok hsolana with ⟨_, hnone⟩ | ⟨_, _, _, hderived, hcreate⟩
    · rw [hnone] at hsome
      cases hsome
    · obtain rfl := Option.some.inj (hsome.symm.trans hderived)
      obtain ⟨_, _, _, haccounted, _⟩ := createSolanaPlan_ok hcreate
      exact haccounted

/-! ### A sample -/

def sampleKey : EvmCompressedPublicKey :=
  ⟨text "0x0279be667ef9dcbbac55a06295ce870b07029bfcdb2dce28d959f2815b16f81798", by decide⟩

def sampleStaker : EvmAddress :=
  ⟨text "0x7e5f4552091a69125d5dfcb7b8c2659029395bdf", by decide⟩

def sampleWallet : SolanaAddress :=
  ⟨text "So11111111111111111111111111111111111111112", by decide⟩

def noUnits : UnsignedDecimalString :=
  ⟨text "0", by decide, by decide⟩

def oneUnit : UnsignedDecimalString :=
  ⟨text "1", by decide, by decide⟩

def oneToken : UnsignedDecimalString :=
  ⟨text "1000000000", by decide, by decide⟩

def twoTokens : UnsignedDecimalString :=
  ⟨text "2000000000", by decide, by decide⟩

/-- A staker who also bought pretokens. -/
def sampleEthereum : EthereumGenesisSnapshot where
  stakers := [⟨sampleStaker, some sampleKey, oneToken, oneToken⟩]
  purchasers := [⟨sampleStaker, oneToken, oneToken, oneToken, twoTokens⟩]
  metadata := ⟨oneToken, oneToken, oneToken, some twoTokens, none⟩

/-- A wallet that syndicated a token and spent one unit on pretokens. -/
def sampleSolana : SolanaGenesisSnapshot where
  programId := text "5nBtmutzLgNKe8NxgTWE3uhPMm8u8T3ggTq2ApZRnbbq"
  allocationHash := ⟨List.replicate 64 48, by decide⟩
  balances := [⟨sampleWallet, oneToken, oneUnit, oneToken, noUnits, oneToken⟩]
  accounting :=
    { poolBalance := twoTokens
      poolPretokens := noUnits
      allocatedPretokenYield := noUnits
      unallocatedPoolPretokens := noUnits
      directlyPurchasedPretokens := oneToken
      totalUserPretokens := oneToken
      totalPretokensSold := oneToken
      unreportedLiqsolYield := noUnits
      backingAvailable := twoTokens
      initialChainAmount := oneUnit
      issues := []
      units := ⟨9, 8, rfl, rfl⟩
      highestTranchePriceUsd := some PlaceholderHighestTranchePriceUsd }

/-- Hex digits in pairs after `0x`. -/
def sampleBytes (value : Text) : Except Text Protobuf.Bytes :=
  let digits := (value.drop 2).map toLower
  if (text "0x").isPrefixOf value && digits.length % 2 == 0 && digits.all DclaimSeed.isLowerHex then
    .ok ((List.range (digits.length / 2)).map fun i =>
      UInt8.ofNat (EnvelopeStorage.hexNumber ((digits.drop (i * 2)).take 2)))
  else .error (text "invalid BytesLike value")

def sampleExternals : Externals where
  readFile := some
  ethereumCodec := fun _ => some sampleEthereum
  solanaCodec := fun _ => some sampleSolana
  solanaAllocationHash := fun _ => List.replicate 64 48
  computeAddress := fun key =>
    if key = sampleKey.val then .ok sampleStaker.val else .error (text "invalid public key")
  getBytes := sampleBytes
  solanaBytes := fun _ => .ok [6, 155, 136, 87, 254, 171, 129, 132, 251, 104, 127, 99, 70, 24, 192,
    53, 218, 196, 57, 220, 26, 235, 59, 85, 152, 160, 240, 0, 0, 0, 0, 1]
  toJsonString := fun _ => []

/-- One unit of liq on each side, against one of WIRE. -/
def sampleConfig : LcoImportConfig where
  ethereum := some ⟨text "ethereum.json", some PlaceholderHighestTranchePriceUsd,
    some PlaceholderHighestTranchePriceUsd, some PlaceholderPoolTuning⟩
  solana := some ⟨text "solana.json", some PlaceholderHighestTranchePriceUsd, none,
    some PlaceholderPoolTuning⟩
  dclaimFundingAccount := some (text "lco.treasury")

/-- The plan of Ethereum is accounted for, and it is that of the rows of the export. -/
theorem ethereum_plan_conserves {config : LcoImportConfig} {plan : Plan} {chainPlan : ChainPlan}
    (h : createPlan ext config = .ok plan) (hchain : plan.ethereum = some chainPlan) :
    ∃ chainConfig source snapshot, config.ethereum = some chainConfig ∧
      readExport ext ext.ethereumCodec chainConfig.bootstrapJsonFile = .ok (source, snapshot) ∧
        Accounted chainPlan ∧ EthereumDerived ext snapshot chainPlan := by
  obtain ⟨ethereum, solana, hethereum, _, rfl, _, _⟩ := createPlan_eq_ok h
  obtain ⟨derivation, hsome, rfl⟩ := Option.map_eq_some_iff.mp hchain
  rcases derive_eq_ok hethereum with ⟨_, hnone⟩ | ⟨chainConfig, _, hconfig, hderived, hcreate⟩
  · rw [hnone] at hsome
    cases hsome
  · obtain rfl := Option.some.inj (hsome.symm.trans hderived)
    obtain ⟨source, snapshot, hread, haccounted, hrows, _⟩ := createEthereumPlan_ok hcreate
    exact ⟨chainConfig, source, snapshot, hconfig, hread, haccounted, hrows⟩

theorem ethereum_plan_conserves_sample : ∃ plan chainPlan,
    createPlan sampleExternals sampleConfig = .ok plan ∧ plan.ethereum = some chainPlan ∧
      ∃ chainConfig source snapshot, sampleConfig.ethereum = some chainConfig ∧
        readExport sampleExternals sampleExternals.ethereumCodec chainConfig.bootstrapJsonFile =
          .ok (source, snapshot) ∧ Accounted chainPlan ∧
            EthereumDerived sampleExternals snapshot chainPlan := by
  have hreturns : ((createPlan sampleExternals sampleConfig).toOption.bind
      Plan.ethereum).isSome = true := by
    decide +kernel
  obtain ⟨chainPlan, hchain⟩ := Option.isSome_iff_exists.mp hreturns
  obtain ⟨plan, hplan, hchain⟩ := Option.bind_eq_some_iff.mp hchain
  have hplan := except_toOption_eq_some.mp hplan
  exact ⟨plan, chainPlan, hplan, hchain, ethereum_plan_conserves hplan hchain⟩

/-- The plan of Solana is accounted for, and it is that of the rows of the export. -/
theorem solana_plan_conserves {config : LcoImportConfig} {plan : Plan} {chainPlan : ChainPlan}
    (h : createPlan ext config = .ok plan) (hchain : plan.solana = some chainPlan) :
    ∃ chainConfig source snapshot, config.solana = some chainConfig ∧
      readExport ext ext.solanaCodec chainConfig.bootstrapJsonFile = .ok (source, snapshot) ∧
        Accounted chainPlan ∧ SolanaDerived ext snapshot chainPlan := by
  obtain ⟨ethereum, solana, _, hsolana, rfl, _, _⟩ := createPlan_eq_ok h
  obtain ⟨derivation, hsome, rfl⟩ := Option.map_eq_some_iff.mp hchain
  rcases derive_eq_ok hsolana with ⟨_, hnone⟩ | ⟨chainConfig, _, hconfig, hderived, hcreate⟩
  · rw [hnone] at hsome
    cases hsome
  · obtain rfl := Option.some.inj (hsome.symm.trans hderived)
    obtain ⟨source, snapshot, hread, haccounted, hrows, _⟩ := createSolanaPlan_ok hcreate
    exact ⟨chainConfig, source, snapshot, hconfig, hread, haccounted, hrows⟩

theorem solana_plan_conserves_sample : ∃ plan chainPlan,
    createPlan sampleExternals sampleConfig = .ok plan ∧ plan.solana = some chainPlan ∧
      ∃ chainConfig source snapshot, sampleConfig.solana = some chainConfig ∧
        readExport sampleExternals sampleExternals.solanaCodec chainConfig.bootstrapJsonFile =
          .ok (source, snapshot) ∧ Accounted chainPlan ∧
            SolanaDerived sampleExternals snapshot chainPlan := by
  have hreturns : ((createPlan sampleExternals sampleConfig).toOption.bind
      Plan.solana).isSome = true := by
    decide +kernel
  obtain ⟨chainPlan, hchain⟩ := Option.isSome_iff_exists.mp hreturns
  obtain ⟨plan, hplan, hchain⟩ := Option.bind_eq_some_iff.mp hchain
  have hplan := except_toOption_eq_some.mp hplan
  exact ⟨plan, chainPlan, hplan, hchain, solana_plan_conserves hplan hchain⟩

/-! ### Real values -/

/-- Every value of the import is supplied, by the options or by the export of the chain. -/
structure Supplied (ext : Externals) (config : LcoImportConfig) : Prop where
  account : config.dclaimFundingAccount.isSome
  ethereum : ∀ chainConfig, config.ethereum = some chainConfig → ∀ source snapshot,
    readExport ext ext.ethereumCodec chainConfig.bootstrapJsonFile = .ok (source, snapshot) →
      EthereumSupplied chainConfig snapshot
  solana : ∀ chainConfig, config.solana = some chainConfig → ∀ source snapshot,
    readExport ext ext.solanaCodec chainConfig.bootstrapJsonFile = .ok (source, snapshot) →
      SolanaSupplied chainConfig snapshot

section Supply

variable {config : LcoImportConfig}

theorem ethereum_placeholders {ethereum : Option ChainDerivation}
    (h : derive (createEthereumPlan ext) config.ethereum = .ok ethereum) :
    (ethereum.map ChainDerivation.placeholders).getD [] = [] ↔
      ∀ chainConfig, config.ethereum = some chainConfig → ∀ source snapshot,
        readExport ext ext.ethereumCodec chainConfig.bootstrapJsonFile = .ok (source, snapshot) →
          EthereumSupplied chainConfig snapshot := by
  rcases derive_eq_ok h with ⟨hconfig, rfl⟩ | ⟨_, _, hconfig, rfl, hcreate⟩
  · rw [hconfig]
    exact iff_of_true rfl fun _ hsome => by cases hsome
  · obtain ⟨_, _, hread, _, _, hsupplied⟩ := createEthereumPlan_ok hcreate
    rw [Option.map_some, Option.getD_some, hsupplied, hconfig]
    constructor
    · rintro hgiven _ ⟨⟩ _ _ hread'
      cases hread.symm.trans hread'
      exact hgiven
    · exact fun hall => hall _ rfl _ _ hread

theorem solana_placeholders {solana : Option ChainDerivation}
    (h : derive (createSolanaPlan ext) config.solana = .ok solana) :
    (solana.map ChainDerivation.placeholders).getD [] = [] ↔
      ∀ chainConfig, config.solana = some chainConfig → ∀ source snapshot,
        readExport ext ext.solanaCodec chainConfig.bootstrapJsonFile = .ok (source, snapshot) →
          SolanaSupplied chainConfig snapshot := by
  rcases derive_eq_ok h with ⟨hconfig, rfl⟩ | ⟨_, _, hconfig, rfl, hcreate⟩
  · rw [hconfig]
    exact iff_of_true rfl fun _ hsome => by cases hsome
  · obtain ⟨_, _, hread, _, _, hsupplied⟩ := createSolanaPlan_ok hcreate
    rw [Option.map_some, Option.getD_some, hsupplied, hconfig]
    constructor
    · rintro hgiven _ ⟨⟩ _ _ hread'
      cases hread.symm.trans hread'
      exact hgiven
    · exact fun hall => hall _ rfl _ _ hread

/-- Real custody is imported only where no value is left to a placeholder. -/
theorem assertRealData_iff {plan : Plan} (h : createPlan ext config = .ok plan) :
    assertRealData plan = .ok () ↔ Supplied ext config := by
  obtain ⟨ethereum, solana, hethereum, hsolana, rfl, _, _⟩ := createPlan_eq_ok h
  have haccount : (if config.dclaimFundingAccount.isNone then
      [(⟨text "lcoImport.dclaimFundingAccount", PlaceholderDclaimFundingAccount⟩ : Placeholder)]
        else []) = [] ↔ config.dclaimFundingAccount.isSome := by
    cases config.dclaimFundingAccount <;> simp
  unfold assertRealData
  rw [assertOk_eq_ok, List.isEmpty_iff, composePlan, List.append_eq_nil_iff,
    List.append_eq_nil_iff, ethereum_placeholders hethereum, solana_placeholders hsolana, haccount]
  exact ⟨fun ⟨he, hs, ha⟩ => ⟨ha, he, hs⟩, fun ⟨ha, he, hs⟩ => ⟨he, hs, ha⟩⟩

theorem assertRealData_iff_sample : ∃ plan, createPlan sampleExternals sampleConfig = .ok plan ∧
    (assertRealData plan = .ok () ↔ Supplied sampleExternals sampleConfig) := by
  have hreturns : (createPlan sampleExternals sampleConfig).toOption.isSome = true := by
    decide +kernel
  obtain ⟨plan, hplan⟩ := Option.isSome_iff_exists.mp hreturns
  have hplan := except_toOption_eq_some.mp hplan
  exact ⟨plan, hplan, assertRealData_iff hplan⟩

end Supply

end WireTools.WireLcoImportTool

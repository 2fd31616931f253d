import WireTools.LcoImportTables

/-! # The gates of the launch-data import

* `claims_gate`: the gate of the claims passes when every batch of claims was executed exactly once;
* `get_readLinkedAccounts`: the links map a key to its lowest-keyed account, as the contract does;
* `syndication_gate`: the gate of the positions passes when parked rows, balances and supplies are
  those of executing every step once;
* `gates_pass_iff_once`: where no step was skipped, or none repeated, both pass only where every
  step was executed once. -/

namespace WireTools.LcoImportSteps

open DclaimSeed (ImportSeedChainKind)
open Outcome WireLcoImportTool OrderedMap

variable {ext : Externals} {sdk : Sdk} {contracts : Contracts} {plan : Plan} {links : List LinkRow}
  {executed : List ImportStep} {depot : Depot}

/-! ### Kinds and codes -/

def OfPlan (plan : Plan) (kind : ImportSeedChainKind) : Prop :=
  ∃ chainPlan ∈ chainPlans plan, kind = chainPlan.chain

theorem Sound.kind_inj (h : Sound plan) {kind kind' : ImportSeedChainKind} (hkind : OfPlan plan kind)
    (hkind' : OfPlan plan kind')
    (hcode : LcoImportSteps.chainCodeOf contracts (chainPlans plan) kind =
      LcoImportSteps.chainCodeOf contracts (chainPlans plan) kind') : kind = kind' := by
  obtain ⟨chainPlan, hmem, rfl⟩ := hkind
  obtain ⟨chainPlan', hmem', rfl⟩ := hkind'
  rw [h.chainCodeOf hmem, h.chainCodeOf hmem'] at hcode
  rw [h.chain_inj hmem hmem' (Or.inr (Or.inl hcode))]

/-! ### The claims -/

/-- An address of a chain has one claim, and the chains differ. -/
theorem nodup_planned_claims (hsound : Sound plan) :
    ((filled (stepClaims plan) (planImport plan)).map Prod.fst).Nodup := by
  rw [planned_claims hsound, List.map_flatMap]
  refine nodup_flatMap_of_tag Prod.fst ChainPlan.chain ?_ (fun chainPlan hmem => ?_) ?_
  · refine hsound.pairwise.imp_of_mem fun hmem hmem' hne hkind => hne ?_
    exact hsound.chain_inj hmem hmem' (Or.inl hkind)
  · have haddresses : (chainPlan.claims.map ClaimCredit.native_address).Nodup :=
      (hsound.accounted chainPlan hmem).addresses.imp fun hlt => (Std.ne_of_lt hlt)
    have hmap : (claimEntries ⟨chainPlan.chain, chainPlan.claims⟩).map Prod.fst =
        (chainPlan.claims.map ClaimCredit.native_address).map (Prod.mk chainPlan.chain) := by
      rw [claimEntries, List.map_map, List.map_map]
      rfl
    rw [hmap]
    exact haddresses.map (Prod.mk_right_injective _)
  · intro chainPlan _ key hkey
    obtain ⟨entry, hentry, rfl⟩ := List.mem_map.mp hkey
    obtain ⟨_, _, rfl⟩ := List.mem_map.mp hentry
    rfl

theorem planned_claims_mem (hsound : Sound plan) :
    ∀ entry ∈ filled (stepClaims plan) (planImport plan), OfPlan plan entry.1.1 ∧ 0 < entry.2 := by
  rw [planned_claims hsound]
  intro entry hentry
  obtain ⟨chainPlan, hmem, hentry⟩ := List.mem_flatMap.mp hentry
  obtain ⟨claim, hclaim, rfl⟩ := List.mem_map.mp hentry
  exact ⟨⟨chainPlan, hmem, rfl⟩, ((hsound.accounted chainPlan hmem).claims claim hclaim).1⟩

/-- Where a step adds claims, it is a batch of claims. -/
theorem stepClaims_ne_nil (hsound : Sound plan) {step : ImportStep} (h : step ∈ planImport plan) :
    stepClaims plan step ≠ [] ↔ ∃ chainCode index count,
      step = .claimBatch chainCode index count := by
  obtain ⟨chainPlan, hmem, hstep⟩ := List.mem_flatMap.mp h
  rcases mem_planChainImport.mp hstep with ⟨index, _, rfl⟩ | ⟨index, hindex, rfl⟩ | rfl
  · refine iff_of_false (fun hne => hne rfl) ?_
    rintro ⟨_, _, _, ⟨⟩⟩
  · refine iff_of_true (fun hnil => ?_) ⟨_, _, _, rfl⟩
    rw [stepClaims_claimBatch hsound hmem hindex, claimEntries] at hnil
    have hbatch := List.map_eq_nil_iff.mp hnil
    have hlt := (lt_batchCount_iff (by decide)).mp hindex
    have hlength := congrArg List.length hbatch
    rw [List.length_take, List.length_drop, List.length_nil, ClaimBatchSize] at hlength
    rw [ClaimBatchSize] at hlt
    omega
  · refine iff_of_false (fun hne => hne rfl) ?_
    rintro ⟨_, _, _, ⟨⟩⟩

def claimRow (contracts : Contracts) (plan : Plan) (row : (ImportSeedChainKind × Text) × ℤ) :
    UnmappedClaim :=
  ⟨chainCodeOf contracts (chainPlans plan) row.1.1, row.1.2, row.2⟩

theorem plannedClaims_eq (hsound : Sound plan) : plannedClaims plan =
    (filled (stepClaims plan) (planImport plan)).map (claimRow contracts plan) := by
  rw [planned_claims hsound, List.map_flatMap, plannedClaims]
  refine List.flatMap_congr fun chainPlan hmem => ?_
  rw [claimEntries, List.map_map]
  refine List.map_congr_left fun claim _ => ?_
  rw [Function.comp_apply, claimRow, hsound.chainCodeOf hmem]

theorem length_plannedClaims : (plannedClaims plan).length = claimCount plan := by
  simp only [plannedClaims, claimCount, List.length_flatMap, List.length_map]

/-- The gate compares the rows with the planned claims. -/
theorem runReconcileClaims_iff (hsound : Sound plan) (hsub : executed ⊆ planImport plan)
    (hunmapped : depot.unmapped.Perm (tally (filled (stepClaims plan) executed))) :
    runReconcileClaims contracts plan (claimCount plan) depot = .ok () ↔
      depot.unmapped.Perm (filled (stepClaims plan) (planImport plan)) := by
  have hkeys := nodup_planned_claims hsound
  have hkind : ∀ row ∈ depot.unmapped ++ filled (stepClaims plan) (planImport plan),
      OfPlan plan row.1.1 := by
    intro row hrow
    rcases List.mem_append.mp hrow with hrow | hrow
    · have hkey := key_planned hsub hunmapped hrow
      obtain ⟨entry, hentry, heq⟩ := List.mem_map.mp hkey
      rw [← heq]
      exact (planned_claims_mem hsound entry hentry).1
    · exact (planned_claims_mem hsound row hrow).1
  have hread : ∀ row ∈ depot.unmapped ++ filled (stepClaims plan) (planImport plan),
      ∀ row' ∈ depot.unmapped ++ filled (stepClaims plan) (planImport plan),
        claimRow contracts plan row = claimRow contracts plan row' → row = row' := by
    intro row hrow row' hrow' heq
    injection heq with hcode haddress hamount
    have hsame := hsound.kind_inj (hkind row hrow) (hkind row' hrow') hcode
    exact Prod.ext (Prod.ext hsame haddress) hamount
  have hsorted : (((filled (stepClaims plan) (planImport plan)).map
      (claimRow contracts plan)).map fun claim => [claim.chainCode, claim.nativeAddress]).Nodup := by
    rw [List.map_map]
    refine nodup_map_key hkeys fun row hrow row' hrow' heq => ?_
    injection heq with hcode heq
    injection heq with haddress _
    have hsame := hsound.kind_inj (hkind row (List.mem_append_right _ hrow))
      (hkind row' (List.mem_append_right _ hrow')) hcode
    exact Prod.ext hsame haddress
  have hdistinct := (distinct_tally (filled (stepClaims plan) executed)).perm hunmapped.symm
  unfold runReconcileClaims
  dsimp only
  rw [assertOk_bind, beq_iff_eq, and_iff_right length_plannedClaims, assertOk_eq_ok, beq_iff_eq,
    @plannedClaims_eq contracts plan hsound]
  unfold sortClaims
  exact (sortBy_eq_iff_perm hsorted).trans
    (map_perm_iff hread hdistinct.nodup (List.Nodup.of_map _ hkeys))

theorem reconcileClaims_once (hsound : Sound plan) (hsub : executed ⊆ planImport plan)
    (hunmapped : depot.unmapped.Perm (tally (filled (stepClaims plan) executed))) :
    runReconcileClaims contracts plan (claimCount plan) depot = .ok () ↔
      ∀ chainCode batchIndex creditCount,
        .claimBatch chainCode batchIndex creditCount ∈ planImport plan →
          executed.count (.claimBatch chainCode batchIndex creditCount) = 1 := by
  have hpos : ∀ entry ∈ filled (stepClaims plan) (planImport plan), 0 < entry.2 :=
    fun entry hentry => (planned_claims_mem hsound entry hentry).2
  have honce := tally_filled_perm_iff (nodup_planned_claims hsound) hpos hsub
  have hperm : depot.unmapped.Perm (filled (stepClaims plan) (planImport plan)) ↔
      (tally (filled (stepClaims plan) executed)).Perm
        (filled (stepClaims plan) (planImport plan)) :=
    ⟨hunmapped.symm.trans, hunmapped.trans⟩
  rw [runReconcileClaims_iff hsound hsub hunmapped, hperm, honce]
  constructor
  · intro hall chainCode batchIndex creditCount hmem
    exact hall _ hmem ((stepClaims_ne_nil hsound hmem).mpr ⟨_, _, _, rfl⟩)
  · intro hall step hmem hne
    obtain ⟨chainCode, batchIndex, creditCount, rfl⟩ := (stepClaims_ne_nil hsound hmem).mp hne
    exact hall _ _ _ hmem

/-! ### Linked accounts -/

theorem last_linkEntry {rows : List LinkRow} {entries : List (Text × Text)} (key : Text)
    (h : rows.mapM (linkEntry sdk) = .ok entries) :
    last entries key = (rows.reverse.find? fun link =>
      (linkRowKey sdk link.pub_key).toOption == some key).map LinkRow.username := by
  have hall := except_mapM_eq_ok.mp h
  clear h
  induction hall with
  | nil => rfl
  | @cons link entry _ _ hentry _ ih =>
      obtain ⟨rowKey, hkey, hentry⟩ := except_bind_eq_ok.mp hentry
      cases hentry
      have hkey : (linkRowKey sdk link.pub_key).toOption = some rowKey := by
        rw [hkey]
        rfl
      rw [last_cons, ih, List.reverse_cons, List.find?_append, Option.map_or, List.find?_singleton,
        hkey]
      congr 1
      by_cases heq : rowKey = key
      · rw [if_pos heq, if_pos (beq_iff_eq.mpr (congrArg some heq))]
        rfl
      · rw [if_neg heq, if_neg fun hsome => heq (Option.some.inj (beq_iff_eq.mp hsome))]
        rfl

/-- The links map a key to its lowest-keyed account. -/
theorem get_readLinkedAccounts {accounts : OrderedMap Text Text}
    (h : readLinkedAccounts sdk links = .ok accounts) (key : Text) :
    accounts.get key = ((sortBy LinkRow.key links).find? fun link =>
      (linkRowKey sdk link.pub_key).toOption == some key).map LinkRow.username := by
  obtain ⟨entries, hentries, haccounts⟩ := except_bind_eq_ok.mp h
  cases haccounts
  have hlast := last_linkEntry key hentries
  rw [List.reverse_reverse] at hlast
  rw [get_collect, hlast]
  exact Option.or_none

theorem readLinkedAccounts_returns
    (h : ∀ link ∈ links, ∃ key, linkRowKey sdk link.pub_key = .ok key) :
    ∃ accounts, readLinkedAccounts sdk links = .ok accounts := by
  obtain ⟨entries, hentries⟩ :
      ∃ entries, (sortBy LinkRow.key links).reverse.mapM (linkEntry sdk) = .ok entries := by
    refine except_mapM_returns fun link hlink => ?_
    obtain ⟨key, hkey⟩ := h link (mem_sortBy.mp (List.mem_reverse.mp hlink))
    exact ⟨_, except_bind_eq_ok.mpr ⟨key, hkey, rfl⟩⟩
  exact ⟨_, except_bind_eq_ok.mpr ⟨entries, hentries, rfl⟩⟩

/-! ### The positions of the plan -/

/-- A depot that an accepted plan is imported to. -/
structure Deployed (ext : Externals) (sdk : Sdk) (contracts : Contracts) (plan : Plan)
    (links : List LinkRow) : Prop where
  documented : Documented contracts
  /-- The chains are registered with their kinds. -/
  registered : ∀ chainPlan ∈ chainPlans plan,
    contracts.chainKind chainPlan.pool.chainCode = chainPlan.chain
  /-- Different keys have different bytes. -/
  apart : ∀ chainPlan ∈ chainPlans plan, ∀ spec ∈ chainPlan.syndications,
    ∀ spec' ∈ chainPlan.syndications, ∀ bytes,
      nativeBytesHex ext chainPlan.chain spec.pubkey = .ok bytes →
        nativeBytesHex ext chainPlan.chain spec'.pubkey = .ok bytes → spec.pubkey = spec'.pubkey
  lookup : Bypubkey sdk contracts links
  /-- No key of the plan is linked to an account of the chain itself. -/
  outside : ∀ credited ∈ plannedCredits ext contracts plan,
    ∀ account ∈ contracts.linked credited.kind credited.pubkey, isSystemAccount account = false
  printed : ∀ link ∈ links, ∃ key, linkRowKey sdk link.pub_key = .ok key

def positionOf (contracts : Contracts) (plan : Plan) (credited : Credited) : ImportedPosition :=
  ⟨chainCodeOf contracts (chainPlans plan) credited.kind, credited.tokenCode, credited.pubkey,
    credited.amount⟩

def plannedOf (sdk : Sdk) (contracts : Contracts) (plan : Plan) (credited : Credited) :
    PlannedPosition :=
  ⟨positionOf contracts plan credited, sdk.print (LinkKeyTypes credited.kind) credited.pubkey⟩

theorem positionCredit_eq_ok {chainPlan : ChainPlan} {spec : SyndicationSpec}
    {credit : PositionCredit} (h : positionCredit ext chainPlan spec = .ok credit) :
    nativeBytesHex ext chainPlan.chain spec.pubkey = .ok credit.pubkey ∧
      credit.amount = spec.amount := by
  obtain ⟨bytes, hbytes, hcredit⟩ := except_bind_eq_ok.mp h
  cases hcredit
  exact ⟨hbytes, rfl⟩

theorem plannedPositions_eq (hsound : Sound plan) (hread : Readable ext plan)
    (hdeployed : Deployed ext sdk contracts plan links) : plannedPositions ext sdk plan =
      .ok ((plannedCredits ext contracts plan).map (plannedOf sdk contracts plan)) := by
  have hchains : (chainPlans plan).mapM (fun chainPlan =>
      chainPlan.syndications.mapM (plannedPosition ext sdk chainPlan)) =
        .ok ((chainPlans plan).map fun chainPlan => (creditedOf contracts
          ⟨chainPlan.pool.chainCode, chainPlan.pool.tokenCode, readCredits ext chainPlan⟩).map
            (plannedOf sdk contracts plan)) := by
    rw [except_mapM_eq_ok, List.forall₂_map_right_iff, List.forall₂_same]
    intro chainPlan hmem
    rw [except_mapM_eq_ok, creditedOf, List.map_map, List.forall₂_map_right_iff]
    refine (except_mapM_eq_ok.mp (hread.eq hmem)).imp fun spec credit hcredit => ?_
    obtain ⟨hbytes, hamount⟩ := positionCredit_eq_ok hcredit
    have hkey : linkKey ext sdk chainPlan.chain spec.pubkey =
        .ok (sdk.print (LinkKeyTypes chainPlan.chain) credit.pubkey) :=
      except_bind_eq_ok.mpr ⟨_, hbytes, rfl⟩
    refine except_bind_eq_ok.mpr ⟨_, hbytes, except_bind_eq_ok.mpr ⟨_, hkey, ?_⟩⟩
    rw [Function.comp_apply, plannedOf, positionOf, hdeployed.registered chainPlan hmem,
      hsound.chainCodeOf hmem, hamount]
    rfl
  refine except_bind_eq_ok.mpr ⟨_, hchains, ?_⟩
  rw [plannedCredits, List.map_flatMap, ← List.flatMap_def]
  rfl

theorem length_plannedCredits (hread : Readable ext plan) :
    (plannedCredits ext contracts plan).length = positionCount plan := by
  rw [plannedCredits, List.length_flatMap, positionCount]
  refine congrArg _ (List.map_congr_left fun chainPlan hmem => ?_)
  rw [creditedOf, List.length_map, hread.length hmem]

/-- What is planned is known to the links as it is to the contract. -/
theorem get_linkKey (hdeployed : Deployed ext sdk contracts plan links)
    {accounts : OrderedMap Text Text} (h : readLinkedAccounts sdk links = .ok accounts)
    (credited : Credited) : accounts.get (plannedOf sdk contracts plan credited).linkKey =
      contracts.linked credited.kind credited.pubkey :=
  (get_readLinkedAccounts h _).trans (hdeployed.lookup _ _).symm

theorem nodup_readCredits (hread : Readable ext plan)
    (hdeployed : Deployed ext sdk contracts plan links) {chainPlan : ChainPlan}
    (hmem : chainPlan ∈ chainPlans plan)
    (hkeys : (chainPlan.syndications.map SyndicationSpec.pubkey).Nodup) :
    ((readCredits ext chainPlan).map PositionCredit.pubkey).Nodup := by
  rw [List.Nodup, List.pairwise_map] at hkeys ⊢
  obtain ⟨hlength, hcredits⟩ := List.forall₂_iff_get.mp (except_mapM_eq_ok.mp (hread.eq hmem))
  refine List.pairwise_iff_getElem.mpr fun i j hi hj hij heq => ?_
  have hcredit := (positionCredit_eq_ok (hcredits i (hlength ▸ hi) hi)).1
  have hcredit' := (positionCredit_eq_ok (hcredits j (hlength ▸ hj) hj)).1
  refine List.pairwise_iff_getElem.mp hkeys i j (hlength ▸ hi) (hlength ▸ hj) hij ?_
  exact hdeployed.apart chainPlan hmem _ (List.getElem_mem _) _ (List.getElem_mem _) _ hcredit
    (hcredit'.trans (congrArg Except.ok heq.symm))

/-- A key of a chain has one position, and the chains differ. -/
theorem nodup_plannedCredits (hsound : Sound plan) (hread : Readable ext plan)
    (hdeployed : Deployed ext sdk contracts plan links) :
    ((plannedCredits ext contracts plan).map fun credited =>
      (credited.kind, credited.tokenCode, credited.pubkey)).Nodup := by
  rw [plannedCredits, List.map_flatMap]
  refine nodup_flatMap_of_tag Prod.fst ChainPlan.chain ?_ (fun chainPlan hmem => ?_) ?_
  · refine hsound.pairwise.imp_of_mem fun hmem hmem' hne hkind => hne ?_
    exact hsound.chain_inj hmem hmem' (Or.inl hkind)
  · have hkeys : (chainPlan.syndications.map SyndicationSpec.pubkey).Nodup :=
      (hsound.accounted chainPlan hmem).keys.imp fun hlt => Std.ne_of_lt hlt
    have hbytes := nodup_readCredits hread hdeployed hmem hkeys
    have hmap : ((creditedOf contracts ⟨chainPlan.pool.chainCode, chainPlan.pool.tokenCode,
        readCredits ext chainPlan⟩).map fun credited =>
          (credited.kind, credited.tokenCode, credited.pubkey)) =
        ((readCredits ext chainPlan).map PositionCredit.pubkey).map fun pubkey =>
          (contracts.chainKind chainPlan.pool.chainCode, chainPlan.pool.tokenCode, pubkey) := by
      rw [creditedOf, List.map_map, List.map_map]
      rfl
    rw [hmap]
    refine hbytes.map fun pubkey pubkey' heq => ?_
    injection heq with _ heq
    injection heq
  · intro chainPlan hmem key hkey
    obtain ⟨credited, hcredited, rfl⟩ := List.mem_map.mp hkey
    obtain ⟨_, _, rfl⟩ := List.mem_map.mp hcredited
    exact hdeployed.registered chainPlan hmem

/-! ### Parked positions -/

def parkedRow (contracts : Contracts) (plan : Plan)
    (row : (ImportSeedChainKind × Text × Text) × ℤ) : ImportedPosition :=
  ⟨chainCodeOf contracts (chainPlans plan) row.1.1, row.1.2.1, row.1.2.2, row.2⟩

def isParked (contracts : Contracts) (credited : Credited) : Bool :=
  (contracts.linked credited.kind credited.pubkey).isNone

theorem filterMap_parkedEntry (credits : List Credited) :
    credits.filterMap (parkedEntry contracts) = (credits.filter (isParked contracts)).map
      fun credited => ((credited.kind, credited.tokenCode, credited.pubkey), credited.amount) := by
  induction credits with
  | nil => rfl
  | cons credited credits ih =>
      by_cases hparked : isParked contracts credited = true
      · have hentry : parkedEntry contracts credited = some
            ((credited.kind, credited.tokenCode, credited.pubkey), credited.amount) :=
          if_pos hparked
        rw [List.filterMap_cons_some hentry, List.filter_cons_of_pos hparked, List.map_cons, ih]
      · have hentry : parkedEntry contracts credited = none := if_neg hparked
        rw [List.filterMap_cons_none hentry, List.filter_cons_of_neg hparked, ih]

theorem nodup_planned_parked (hsound : Sound plan) (hread : Readable ext plan)
    (hdeployed : Deployed ext sdk contracts plan links) :
    ((filled (stepParked ext contracts plan) (planImport plan)).map Prod.fst).Nodup := by
  rw [planned_parked hsound hread, filterMap_parkedEntry, List.map_map]
  exact (nodup_plannedCredits hsound hread hdeployed).sublist (List.Sublist.map _ List.filter_sublist)

theorem planned_parked_kind (hsound : Sound plan) (hread : Readable ext plan)
    (hdeployed : Deployed ext sdk contracts plan links) :
    ∀ entry ∈ filled (stepParked ext contracts plan) (planImport plan), OfPlan plan entry.1.1 := by
  rw [planned_parked hsound hread, filterMap_parkedEntry]
  intro entry hentry
  obtain ⟨credited, hcredited, rfl⟩ := List.mem_map.mp hentry
  obtain ⟨chainPlan, hmem, hcredited⟩ := List.mem_flatMap.mp (List.mem_filter.mp hcredited).1
  obtain ⟨_, _, rfl⟩ := List.mem_map.mp hcredited
  exact ⟨chainPlan, hmem, hdeployed.registered chainPlan hmem⟩

/-- The positions of keys that are not linked, as the rows are read. -/
theorem unlinked_eq (hsound : Sound plan) (hread : Readable ext plan)
    (hdeployed : Deployed ext sdk contracts plan links) {accounts : OrderedMap Text Text}
    (h : readLinkedAccounts sdk links = .ok accounts) :
    ((((plannedCredits ext contracts plan).map (plannedOf sdk contracts plan)).filter
      fun planned => (accounts.get planned.linkKey).isNone).map PlannedPosition.position) =
      (filled (stepParked ext contracts plan) (planImport plan)).map (parkedRow contracts plan) := by
  have hfilter : (plannedCredits ext contracts plan).filter
      ((fun planned => (accounts.get planned.linkKey).isNone) ∘ plannedOf sdk contracts plan) =
        (plannedCredits ext contracts plan).filter (isParked contracts) :=
    List.filter_congr fun credited _ => by
      rw [Function.comp_apply, get_linkKey hdeployed h, isParked]
  rw [List.filter_map, hfilter, planned_parked hsound hread, filterMap_parkedEntry, List.map_map,
    List.map_map]
  rfl

/-- The gate compares the parked rows with the positions of keys that are not linked. -/
theorem sortPositions_parked_iff (hsound : Sound plan) (hread : Readable ext plan)
    (hdeployed : Deployed ext sdk contracts plan links) (hsub : executed ⊆ planImport plan)
    (htables : Tables ext contracts plan executed depot) :
    sortPositions (depot.parked.map (parkedRow contracts plan)) =
        sortPositions ((filled (stepParked ext contracts plan) (planImport plan)).map
          (parkedRow contracts plan)) ↔
      depot.parked.Perm (filled (stepParked ext contracts plan) (planImport plan)) := by
  have hkeys := nodup_planned_parked hsound hread hdeployed
  have hplanned := planned_parked_kind hsound hread hdeployed
  have hkind : ∀ row ∈ depot.parked ++ filled (stepParked ext contracts plan) (planImport plan),
      OfPlan plan row.1.1 := by
    intro row hrow
    rcases List.mem_append.mp hrow with hrow | hrow
    · have hkey := key_planned hsub htables.parked hrow
      obtain ⟨entry, hentry, heq⟩ := List.mem_map.mp hkey
      rw [← heq]
      exact hplanned entry hentry
    · exact hplanned row hrow
  have hinj : ∀ row ∈ depot.parked ++ filled (stepParked ext contracts plan) (planImport plan),
      ∀ row' ∈ depot.parked ++ filled (stepParked ext contracts plan) (planImport plan),
        parkedRow contracts plan row = parkedRow contracts plan row' → row = row' := by
    intro row hrow row' hrow' heq
    injection heq with hcode htoken hpubkey hamount
    have hsame := hsound.kind_inj (hkind row hrow) (hkind row' hrow') hcode
    exact Prod.ext (Prod.ext hsame (Prod.ext htoken hpubkey)) hamount
  have hsorted : (((filled (stepParked ext contracts plan) (planImport plan)).map
      (parkedRow contracts plan)).map fun position =>
        [position.tokenCode, position.chainCode, position.pubkey]).Nodup := by
    rw [List.map_map]
    refine nodup_map_key hkeys fun row hrow row' hrow' heq => ?_
    injection heq with htoken heq
    injection heq with hcode heq
    injection heq with hpubkey _
    have hsame := hsound.kind_inj (hkind row (List.mem_append_right _ hrow))
      (hkind row' (List.mem_append_right _ hrow')) hcode
    exact Prod.ext hsame (Prod.ext htoken hpubkey)
  have hdistinct := (distinct_tally
    (filled (stepParked ext contracts plan) executed)).perm htables.parked.symm
  unfold sortPositions
  exact (sortBy_eq_iff_perm hsorted).trans
    (map_perm_iff hinj hdistinct.nodup (List.Nodup.of_map _ hkeys))

/-! ### Holdings -/

theorem holderText_inj {account account' tokenCode tokenCode' : Text} (h : 47 ∉ tokenCode)
    (h' : 47 ∉ tokenCode') (heq : holderText account tokenCode = holderText account' tokenCode') :
    account = account' ∧ tokenCode = tokenCode' := by
  rcases List.append_eq_append_iff.mp heq with ⟨front, haccount, htoken⟩ | ⟨front, haccount, htoken⟩
  · cases front with
    | nil => exact ⟨(haccount.trans (List.append_nil _)).symm, (List.cons.inj htoken).2⟩
    | cons unit front =>
        refine absurd ?_ h
        rw [(List.cons.inj htoken).2]
        exact List.mem_append_right _ List.mem_cons_self
  · cases front with
    | nil => exact ⟨haccount.trans (List.append_nil _), (List.cons.inj htoken).2.symm⟩
    | cons unit front =>
        refine absurd ?_ h'
        rw [(List.cons.inj htoken).2]
        exact List.mem_append_right _ List.mem_cons_self

theorem Sound.token_plain (h : Sound plan) {chainPlan : ChainPlan}
    (hmem : chainPlan ∈ chainPlans plan) : 47 ∉ chainPlan.pool.tokenCode := by
  rcases mem_chainPlans.mp hmem with hchain | hchain
  · rw [(h.ethereum _ hchain).2.2]
    decide
  · rw [(h.solana _ hchain).2.2]
    decide

def holdingOf (holder : Text × Text) (amount : ℤ) : LinkedHolding :=
  ⟨holder.1, holder.2, amount⟩

def isLinked (contracts : Contracts) (credited : Credited) : Bool :=
  (contracts.linked credited.kind credited.pubkey).isSome

/-- Holdings of plain tokens, by holder. -/
def byHolder (balances : OrderedMap (Text × Text) ℤ) : OrderedMap Text LinkedHolding :=
  balances.relabel (fun holder => holderText holder.1 holder.2) holdingOf

theorem addHolding_byHolder (hdeployed : Deployed ext sdk contracts plan links)
    {accounts : OrderedMap Text Text} (h : readLinkedAccounts sdk links = .ok accounts)
    {balances : OrderedMap (Text × Text) ℤ} (hplain : ∀ entry ∈ balances, 47 ∉ entry.1.2)
    {credited : Credited} (hcredited : 47 ∉ credited.tokenCode) {account : Text}
    (hlinked : contracts.linked credited.kind credited.pubkey = some account) :
    addHolding accounts (byHolder balances) (plannedOf sdk contracts plan credited) =
      byHolder (addTo balances (account, credited.tokenCode) credited.amount) := by
  have hinj : ∀ entry ∈ balances, holderText entry.1.1 entry.1.2 =
      holderText account credited.tokenCode → entry.1 = (account, credited.tokenCode) := by
    intro entry hentry heq
    obtain ⟨haccount, htoken⟩ := holderText_inj (hplain entry hentry) hcredited heq
    exact Prod.ext haccount htoken
  unfold addHolding
  dsimp only
  rw [get_linkKey hdeployed h, hlinked, Option.getD_some]
  unfold byHolder addTo
  have hget := @get_relabel _ _ _ _ _ _ (fun holder : Text × Text => holderText holder.1 holder.2)
    holdingOf balances (account, credited.tokenCode) hinj
  have hset := @set_relabel _ _ _ _ _ _ (fun holder : Text × Text => holderText holder.1 holder.2)
    holdingOf balances (account, credited.tokenCode) hinj
      ((balances.get (account, credited.tokenCode)).getD 0 + credited.amount)
  rw [← hset]
  dsimp only at hget
  unfold plannedOf positionOf
  dsimp only
  rw [hget, Option.map_map]
  congr 1
  rw [holdingOf]
  congr 1
  cases balances.get (account, credited.tokenCode) <;> rfl

theorem foldl_addHolding (hdeployed : Deployed ext sdk contracts plan links)
    {accounts : OrderedMap Text Text} (h : readLinkedAccounts sdk links = .ok accounts)
    {credits : List Credited} (hcredits : ∀ credited ∈ credits, 47 ∉ credited.tokenCode)
    {balances : OrderedMap (Text × Text) ℤ} (hplain : ∀ entry ∈ balances, 47 ∉ entry.1.2) :
    ((credits.filter (isLinked contracts)).map (plannedOf sdk contracts plan)).foldl
        (addHolding accounts) (byHolder balances) =
      byHolder (addAll balances (credits.filterMap (accountEntry contracts))) := by
  induction credits generalizing balances with
  | nil => rfl
  | cons credited credits ih =>
      rw [List.forall_mem_cons] at hcredits
      cases hlinked : contracts.linked credited.kind credited.pubkey with
      | none =>
          have hentry : accountEntry contracts credited = none := by
            rw [accountEntry, hlinked]
            rfl
          have hout : ¬isLinked contracts credited = true := by
            rw [isLinked, hlinked]
            exact Bool.false_ne_true
          rw [List.filterMap_cons_none hentry, List.filter_cons_of_neg hout]
          exact ih hcredits.2 hplain
      | some account =>
          have hentry : accountEntry contracts credited =
              some ((account, credited.tokenCode), credited.amount) := by
            rw [accountEntry, hlinked]
            rfl
          have hin : isLinked contracts credited = true := by
            rw [isLinked, hlinked]
            rfl
          rw [List.filterMap_cons_some hentry, List.filter_cons_of_pos hin, List.map_cons,
            List.foldl_cons, addHolding_byHolder hdeployed h hplain hcredits.1 hlinked]
          refine ih hcredits.2 fun entry hentry => ?_
          rcases key_addTo hentry with hkey | hkey
          · rw [hkey]
            exact hcredits.1
          · obtain ⟨row, hrow, heq⟩ := List.mem_map.mp hkey
            rw [← heq]
            exact hplain row hrow

theorem plannedCredits_plain (hsound : Sound plan) :
    ∀ credited ∈ plannedCredits ext contracts plan, 47 ∉ credited.tokenCode := by
  intro credited hcredited
  obtain ⟨chainPlan, hmem, hcredited⟩ := List.mem_flatMap.mp hcredited
  obtain ⟨_, _, rfl⟩ := List.mem_map.mp hcredited
  exact hsound.token_plain hmem

/-- The holdings are the balances that the linked positions sum up to. -/
theorem mem_linkedHoldings (hsound : Sound plan) (hread : Readable ext plan)
    (hdeployed : Deployed ext sdk contracts plan links) {accounts : OrderedMap Text Text}
    (h : readLinkedAccounts sdk links = .ok accounts) {holding : LinkedHolding} :
    holding ∈ linkedHoldings (((plannedCredits ext contracts plan).map
        (plannedOf sdk contracts plan)).filter fun planned =>
          (accounts.get planned.linkKey).isSome) accounts ↔
      ∃ entry ∈ tally (filled (stepAccounts ext contracts plan) (planImport plan)),
        holdingOf entry.1 entry.2 = holding := by
  have hfilter : (plannedCredits ext contracts plan).filter
      ((fun planned => (accounts.get planned.linkKey).isSome) ∘ plannedOf sdk contracts plan) =
        (plannedCredits ext contracts plan).filter (isLinked contracts) :=
    List.filter_congr fun credited _ => by
      rw [Function.comp_apply, get_linkKey hdeployed h, isLinked]
  have hfold := @foldl_addHolding ext sdk contracts plan links hdeployed accounts h
    (plannedCredits ext contracts plan) (plannedCredits_plain hsound) [] (by simp)
  unfold linkedHoldings
  rw [mem_sortBy, List.filter_map, hfilter, planned_accounts hsound hread]
  have hnil : byHolder [] = [] := rfl
  rw [hnil] at hfold
  rw [hfold, byHolder, relabel, List.map_map, List.mem_map]
  rfl

/-! ### Supplies -/

theorem amounts_readCredits (hread : Readable ext plan) {chainPlan : ChainPlan}
    (hmem : chainPlan ∈ chainPlans plan) :
    ((readCredits ext chainPlan).map PositionCredit.amount) =
      chainPlan.syndications.map SyndicationSpec.amount := by
  have hall := except_mapM_eq_ok.mp (hread.eq hmem)
  refine List.forall₂_eq_eq_eq ▸ ?_
  rw [List.forall₂_map_left_iff, List.forall₂_map_right_iff]
  exact hall.flip.imp fun _ _ hcredit => (positionCredit_eq_ok hcredit).2

theorem mem_mintedEntries {chainPlan : ChainPlan} {entry : Text × ℤ}
    (h : entry ∈ mintedEntries ext chainPlan) : entry.1 = chainPlan.pool.tokenCode := by
  rcases List.mem_append.mp h with h | h
  · obtain ⟨_, _, rfl⟩ := List.mem_map.mp h
    rfl
  · rw [List.mem_singleton.mp h]

/-- What is minted of a token is the custody of its chain. -/
theorem sumAt_minted (hsound : Sound plan) (hread : Readable ext plan) {chainPlan : ChainPlan}
    (hmem : chainPlan ∈ chainPlans plan) :
    sumAt (filled (stepSupply ext contracts plan) (planImport plan)) chainPlan.pool.tokenCode =
      chainPlan.pool.custodyTotal := by
  classical
  have hown : ∀ chainPlan : ChainPlan, chainPlan ∈ chainPlans plan →
      sumAt (mintedEntries ext chainPlan) chainPlan.pool.tokenCode =
        chainPlan.pool.custodyTotal := by
    intro chainPlan hmem
    have hall : (mintedEntries ext chainPlan).filter
        (fun entry => entry.1 = chainPlan.pool.tokenCode) = mintedEntries ext chainPlan := by
      exact List.filter_eq_self.mpr fun entry hentry => decide_eq_true (mem_mintedEntries hentry)
    have hcustody := (hsound.accounted chainPlan hmem).custody
    rw [sumAt, hall, mintedEntries, List.map_append, List.map_map, List.sum_append, hcustody,
      syndicatedTotal_eq, ← amounts_readCredits hread hmem]
    change _ + (chainPlan.pool.initialChainAmount + 0) = _
    rw [add_zero, add_comm]
    rfl
  have hother : ∀ other ∈ chainPlans plan, other ≠ chainPlan →
      sumAt (mintedEntries ext other) chainPlan.pool.tokenCode = 0 := by
    intro other hother hne
    refine sumAt_of_not_mem fun hkey => hne ?_
    obtain ⟨entry, hentry, hkey⟩ := List.mem_map.mp hkey
    exact hsound.chain_inj hother hmem
      (Or.inr (Or.inr ((mem_mintedEntries hentry).symm.trans hkey)))
  have hcount : (chainPlans plan).count chainPlan = 1 :=
    (List.nodup_iff_count_eq_one.mp hsound.pairwise) chainPlan hmem
  rw [planned_supply hsound hread]
  refine (sumAt_filled_sum (chainPlans plan) chainPlan.pool.tokenCode).trans ?_
  rw [List.sum_map_eq_nsmul_single chainPlan _ fun other hne hmem' => hother other hmem' hne,
    hcount, one_nsmul, hown chainPlan hmem]

theorem token_of_mem_supply (hsound : Sound plan) (hread : Readable ext plan) {tokenCode : Text}
    (h : tokenCode ∈ (filled (stepSupply ext contracts plan) (planImport plan)).map Prod.fst) :
    ∃ chainPlan ∈ chainPlans plan, tokenCode = chainPlan.pool.tokenCode := by
  rw [planned_supply hsound hread] at h
  obtain ⟨entry, hentry, rfl⟩ := List.mem_map.mp h
  obtain ⟨chainPlan, hmem, hentry⟩ := List.mem_flatMap.mp hentry
  exact ⟨chainPlan, hmem, mem_mintedEntries hentry⟩

/-! ### The gate of the positions -/

/-- What is credited to accounts is not credited to those of the chain itself. -/
theorem planned_outside (hsound : Sound plan) (hread : Readable ext plan)
    (hdeployed : Deployed ext sdk contracts plan links) {holder : Text × Text}
    (h : holder ∈ (filled (stepAccounts ext contracts plan) (planImport plan)).map Prod.fst) :
    isSystemAccount holder.1 = false := by
  rw [planned_accounts hsound hread] at h
  obtain ⟨entry, hentry, rfl⟩ := List.mem_map.mp h
  obtain ⟨credited, hcredited, hentry⟩ := List.mem_filterMap.mp hentry
  obtain ⟨account, hlinked, rfl⟩ := Option.map_eq_some_iff.mp hentry
  exact hdeployed.outside credited hcredited account hlinked

theorem readOutstanding_eq (htables : Tables ext contracts plan executed depot)
    (tokenCode : Text) : readOutstanding depot tokenCode =
      sumAt (filled (stepSupply ext contracts plan) executed) tokenCode := by
  rw [readOutstanding, htables.liqpending, getD_of_perm_tally htables.supply]
  exact add_zero _

theorem ok_bind {α β : Type} (a : α) (f : α → Except Text β) : (Except.ok a >>= f) = f a :=
  rfl

theorem runReconcileSyndication_iff (hsound : Sound plan) (hread : Readable ext plan)
    (hdeployed : Deployed ext sdk contracts plan links) (hsub : executed ⊆ planImport plan)
    (htables : Tables ext contracts plan executed depot) :
    runReconcileSyndication ext sdk contracts plan (positionCount plan) links depot = .ok () ↔
      depot.parked.Perm (filled (stepParked ext contracts plan) (planImport plan)) ∧
      (∀ holder, sumAt (filled (stepAccounts ext contracts plan) executed) holder =
        sumAt (filled (stepAccounts ext contracts plan) (planImport plan)) holder) ∧
      ∀ chainPlan ∈ chainPlans plan,
        sumAt (filled (stepSupply ext contracts plan) executed) chainPlan.pool.tokenCode =
          chainPlan.pool.custodyTotal := by
  obtain ⟨accounts, haccounts⟩ := readLinkedAccounts_returns hdeployed.printed
  have hlength : ((plannedCredits ext contracts plan).map
      (plannedOf sdk contracts plan)).length = positionCount plan := by
    rw [List.length_map, length_plannedCredits hread]
  unfold runReconcileSyndication
  dsimp only
  rw [plannedPositions_eq hsound hread hdeployed, ok_bind, assertOk_bind, beq_iff_eq,
    and_iff_right hlength, haccounts, ok_bind, assertOk_bind, beq_iff_eq,
    unlinked_eq hsound hread hdeployed haccounts, except_bind_eq_ok]
  refine and_congr (sortPositions_parked_iff hsound hread hdeployed hsub htables) ?_
  have hholdings : (∀ holding ∈ linkedHoldings (((plannedCredits ext contracts plan).map
      (plannedOf sdk contracts plan)).filter fun planned =>
        (accounts.get planned.linkKey).isSome) accounts, assertHolding depot holding = .ok ()) ↔
      ∀ holder, sumAt (filled (stepAccounts ext contracts plan) executed) holder =
        sumAt (filled (stepAccounts ext contracts plan) (planImport plan)) holder := by
    rw [← forall_tally_iff (filled_subset hsub)]
    simp only [mem_linkedHoldings hsound hread hdeployed haccounts]
    have hbalance : ∀ entry ∈ tally (filled (stepAccounts ext contracts plan) (planImport plan)),
        readLiqBalance depot entry.1.1 entry.1.2 =
          sumAt (filled (stepAccounts ext contracts plan) executed) entry.1 := by
      intro entry hentry
      refine htables.accounts _ _ (planned_outside hsound hread hdeployed ?_)
      exact (mem_tally.mp hentry).1
    constructor
    · intro hall entry hentry
      have hone := hall _ ⟨entry, hentry, rfl⟩
      rw [assertHolding, assertOk_eq_ok, beq_iff_eq] at hone
      exact (hbalance entry hentry).symm.trans hone
    · rintro hall _ ⟨entry, hentry, rfl⟩
      rw [assertHolding, assertOk_eq_ok, beq_iff_eq]
      exact (hbalance entry hentry).trans (hall entry hentry)
  have houtstanding : (∀ chainPlan ∈ chainPlans plan, assertOutstanding depot chainPlan = .ok ()) ↔
      ∀ chainPlan ∈ chainPlans plan,
        sumAt (filled (stepSupply ext contracts plan) executed) chainPlan.pool.tokenCode =
          chainPlan.pool.custodyTotal := by
    refine forall₂_congr fun chainPlan _ => ?_
    rw [assertOutstanding, assertOk_eq_ok, beq_iff_eq, readOutstanding_eq htables]
  rw [← hholdings, ← houtstanding]
  simp only [except_forM_eq_ok, exists_const]

theorem readable_of_reconcile {count : ℕ}
    (h : runReconcileSyndication ext sdk contracts plan count links depot = .ok ()) :
    Readable ext plan := by
  obtain ⟨planned, hplanned, _⟩ := except_bind_eq_ok.mp h
  obtain ⟨positions, hpositions, _⟩ := except_bind_eq_ok.mp hplanned
  intro chainPlan hmem
  obtain ⟨read, hread⟩ := except_mapM_mem hpositions hmem
  refine except_mapM_returns fun spec hspec => ?_
  obtain ⟨position, hposition⟩ := except_mapM_mem hread hspec
  obtain ⟨bytes, hbytes, _⟩ := except_bind_eq_ok.mp hposition
  exact ⟨_, except_bind_eq_ok.mpr ⟨bytes, hbytes, rfl⟩⟩

/-! ### Exactly once -/

def stepChain : ImportStep → Text
  | .syndicationBatch chainCode _ _ => chainCode
  | .claimBatch chainCode _ _ => chainCode
  | .regliqpool data => data.chain_code

theorem nodup_planImport (hsound : Sound plan) : (planImport plan).Nodup := by
  have hpool : ∀ chainPlan, (poolRegistration chainPlan).chain_code = chainPlan.pool.chainCode :=
    fun _ => rfl
  refine nodup_flatMap_of_tag stepChain (fun chainPlan => chainPlan.pool.chainCode) ?_
    (fun chainPlan _ => ?_) ?_
  · refine hsound.pairwise.imp_of_mem fun hmem hmem' hne hcode => hne ?_
    exact hsound.chain_inj hmem hmem' (Or.inr (Or.inl hcode))
  · rw [planChainImport, List.nodup_append', List.nodup_append']
    refine ⟨?_, ⟨?_, List.nodup_singleton _, ?_⟩, ?_⟩
    · exact List.nodup_range.map fun index index' heq => by injection heq
    · exact List.nodup_range.map fun index index' heq => by injection heq
    · intro step hstep hlast
      obtain ⟨_, _, rfl⟩ := List.mem_map.mp hstep
      cases List.mem_singleton.mp hlast
    · intro step hstep hrest
      obtain ⟨_, _, rfl⟩ := List.mem_map.mp hstep
      rcases List.mem_append.mp hrest with hrest | hrest
      · obtain ⟨_, _, heq⟩ := List.mem_map.mp hrest
        cases heq
      · cases List.mem_singleton.mp hrest
  · intro chainPlan _ step hstep
    rcases mem_planChainImport.mp hstep with ⟨_, _, rfl⟩ | ⟨_, _, rfl⟩ | rfl
    · rfl
    · rfl
    · exact hpool chainPlan

/-- What is minted of a token is positive. -/
theorem planned_supply_pos (hsound : Sound plan) (hread : Readable ext plan) :
    ∀ entry ∈ filled (stepSupply ext contracts plan) (planImport plan), 0 < entry.2 := by
  rw [planned_supply hsound hread]
  intro entry hentry
  obtain ⟨chainPlan, hmem, hentry⟩ := List.mem_flatMap.mp hentry
  rcases List.mem_append.mp hentry with hentry | hentry
  · obtain ⟨credit, hcredit, rfl⟩ := List.mem_map.mp hentry
    have hamount : credit.amount ∈ (readCredits ext chainPlan).map PositionCredit.amount :=
      List.mem_map_of_mem hcredit
    rw [amounts_readCredits hread hmem] at hamount
    obtain ⟨spec, hspec, heq⟩ := List.mem_map.mp hamount
    exact heq ▸ ((hsound.accounted chainPlan hmem).positions spec hspec).1
  · rw [List.mem_singleton.mp hentry]
    exact (hsound.accounted chainPlan hmem).left

/-- A step that is no batch of claims mints the token of a chain. -/
theorem stepSupply_ne_nil (hsound : Sound plan) (hread : Readable ext plan) {step : ImportStep}
    (h : step ∈ planImport plan) : (∃ chainCode index count,
      step = .claimBatch chainCode index count) ∨ stepSupply ext contracts plan step ≠ [] := by
  obtain ⟨chainPlan, hmem, hstep⟩ := List.mem_flatMap.mp h
  rcases mem_planChainImport.mp hstep with ⟨index, hindex, rfl⟩ | ⟨index, _, rfl⟩ | rfl
  · refine Or.inr fun hnil => ?_
    have hcredited := (List.append_eq_nil_iff.mp hnil).1
    rw [stepCredited_syndicationBatch hsound hread hmem hindex, creditedOf, List.map_map] at hcredited
    have hbatch := List.map_eq_nil_iff.mp hcredited
    have hlt := (lt_batchCount_iff (by decide)).mp hindex
    have hlength := congrArg List.length hbatch
    rw [List.length_take, List.length_drop, List.length_nil, hread.length hmem,
      SyndicationBatchSize] at hlength
    rw [SyndicationBatchSize] at hlt
    omega
  · exact Or.inl ⟨_, _, _, rfl⟩
  · exact Or.inr (List.cons_ne_nil _ _)

/-- Outstanding supplies that are as booked show that nothing minted was skipped or repeated, where
not both may have happened. -/
theorem count_of_supply (hsound : Sound plan) (hread : Readable ext plan)
    (hsub : executed ⊆ planImport plan)
    (hcount : (∀ step ∈ planImport plan, 1 ≤ executed.count step) ∨
      ∀ step ∈ planImport plan, executed.count step ≤ 1)
    (hsupply : ∀ chainPlan ∈ chainPlans plan,
      sumAt (filled (stepSupply ext contracts plan) executed) chainPlan.pool.tokenCode =
        chainPlan.pool.custodyTotal) {step : ImportStep} (hstep : step ∈ planImport plan)
    (hne : stepSupply ext contracts plan step ≠ []) : executed.count step = 1 := by
  have hpos := @planned_supply_pos ext contracts plan hsound hread
  obtain ⟨⟨tokenCode, amount⟩, hentry⟩ := List.exists_mem_of_ne_nil _ hne
  have hplanned : (tokenCode, amount) ∈ filled (stepSupply ext contracts plan) (planImport plan) :=
    List.mem_flatMap.mpr ⟨step, hstep, hentry⟩
  obtain ⟨chainPlan, hmem, rfl⟩ := token_of_mem_supply hsound hread (List.mem_map_of_mem hplanned)
  have hbatch : ∀ step ∈ planImport plan, ∀ entry ∈ stepSupply ext contracts plan step,
      0 < entry.2 :=
    fun step hstep entry hentry => hpos entry (List.mem_flatMap.mpr ⟨step, hstep, hentry⟩)
  have hminted := @sumAt_minted ext contracts plan hsound hread chainPlan hmem
  have hsum := (hsupply chainPlan hmem).trans hminted.symm
  rw [sumAt_filled_sum, sumAt_filled_sum] at hsum
  refine count_eq_one_of_sum (nodup_planImport hsound) hsub (fun step hstep => ?_) hsum hcount hstep ?_
  · exact sumAt_nonneg fun entry hentry => (hbatch step hstep entry hentry).le
  · exact sumAt_pos (hbatch step hstep) (List.mem_map_of_mem hentry)

/-! ### A sample depot -/

/-- Keys are printed after the letters of their type. -/
def sampleSdk : Sdk where
  parse := fun key => .ok (.ED, key)
  print := fun type data => (match type with
    | .EM => text "EM"
    | .ED => text "ED"
    | .other name => name) ++ data
  compress := id

/-- The wallet of the sample is linked to two accounts, another key to a third. -/
def sampleByKey : List LinkRow :=
  [⟨4, text "holder", text "069b8857feab8184fb687f634618c035dac439dc1aeb3b5598a0f00000000001"⟩,
    ⟨6, text "third", text "07"⟩,
    ⟨9, text "second", text "069b8857feab8184fb687f634618c035dac439dc1aeb3b5598a0f00000000001"⟩]

def sampleLinks : List LinkRow :=
  sampleByKey.reverse

theorem sortBy_sampleLinks : sortBy LinkRow.key sampleLinks = sampleByKey := by
  have hnodup : (sampleByKey.map LinkRow.key).Nodup := by decide
  rw [sampleLinks, (sortBy_eq_iff_perm hnodup).mpr sampleByKey.reverse_perm]
  exact List.mergeSort_of_pairwise (by decide)

def sampleLinked (kind : ImportSeedChainKind) (bytes : Text) : Option Text :=
  (sampleByKey.find? fun link => (linkRowKey sampleSdk link.pub_key).toOption ==
    some (sampleSdk.print (LinkKeyTypes kind) bytes)).map LinkRow.username

def sampleKind (chainCode : Text) : ImportSeedChainKind :=
  if chainCode = ETHEREUM_CHAIN_CODENAME then .EVM else .SVM

/-- Contracts that only answer lookups. -/
def sampleReads : Contracts where
  chainKind := sampleKind
  cell := fun _ => []
  linked := sampleLinked
  importseed := fun _ => .ok
  importsynd := fun _ => .ok
  regliqpool := fun _ => .ok

/-- What is parked is held by the contract. -/
def heldEntry (row : (ImportSeedChainKind × Text × Text) × ℤ) : (Text × Text) × ℤ :=
  ((text "sysio.synd", row.1.2.1), row.2)

def sampleImportsynd (data : ImportsyndAction) (depot : Depot) : Depot :=
  let credits := creditedOf sampleReads data
  let parked := credits.filterMap (parkedEntry sampleReads)
  { depot with
    parked := addAll depot.parked parked
    accounts := addAll (addAll depot.accounts (credits.filterMap (accountEntry sampleReads)))
      (parked.map heldEntry)
    supply := addAll depot.supply (credits.map supplyEntry) }

def sampleContracts : Contracts :=
  { sampleReads with
    importseed := fun data depot =>
      .ok { depot with unmapped := addAll depot.unmapped (claimEntries data) }
    importsynd := fun data depot => .ok (sampleImportsynd data depot)
    regliqpool := fun data depot => .ok { depot with
      accounts := addAll depot.accounts
        [((text "sysio.swap", data.token_code), data.initial_chain_amount)]
      supply := addAll depot.supply [(data.token_code, data.initial_chain_amount)] } }

theorem sampleContracts_claims : ClaimsDocumented sampleContracts := by
  refine ⟨fun data before after h => ?_, fun data before after h => ?_,
    fun data before after h => ?_⟩
  · cases h
    exact .refl _
  · cases h
    exact .refl _
  · cases h
    exact .refl _

theorem sampleContracts_documented : Documented sampleContracts := by
  refine ⟨fun data before after h => ?_, fun data before after h => ?_,
    fun data before after h => ?_⟩
  · cases h
    exact ⟨.refl _, fun _ _ _ => (add_zero _).symm, .refl _, rfl⟩
  · cases h
    refine ⟨.refl _, fun account tokenCode hown => ?_, ?_, rfl⟩
    · unfold readLiqBalance
      have hheld : (account, tokenCode) ∉ (((creditedOf sampleReads data).filterMap
          (parkedEntry sampleReads)).map heldEntry).map Prod.fst := by
        intro hmem
        obtain ⟨_, hentry, heq⟩ := List.mem_map.mp hmem
        obtain ⟨_, _, rfl⟩ := List.mem_map.mp hentry
        cases heq
        exact absurd hown (by decide)
      refine (getD_addAll _ _ _).trans ?_
      rw [sumAt_of_not_mem hheld, add_zero]
      exact getD_addAll _ _ _
    · rw [List.append_nil]
      exact .refl _
  · cases h
    refine ⟨.refl _, fun account tokenCode hown => ?_, .refl _, rfl⟩
    unfold readLiqBalance
    refine (getD_addAll _ _ _).trans (congrArg _ (sumAt_of_not_mem ?_))
    intro hmem
    cases List.mem_singleton.mp hmem
    exact absurd hown (by decide)

theorem sampleLinked_outside {kind : ImportSeedChainKind} {bytes account : Text}
    (h : sampleLinked kind bytes = some account) : isSystemAccount account = false := by
  obtain ⟨link, hlink, rfl⟩ := Option.map_eq_some_iff.mp h
  have hall : ∀ link ∈ sampleByKey, isSystemAccount link.username = false := by decide
  exact hall link (List.mem_of_find?_eq_some hlink)

theorem sample_deployed (h : createPlan sampleExternals sampleConfig = .ok plan) :
    Deployed sampleExternals sampleSdk sampleContracts plan sampleLinks := by
  have hsound := sound_of_createPlan h
  refine ⟨sampleContracts_documented, fun chainPlan hmem => ?_, fun chainPlan hmem => ?_,
    fun kind bytes => ?_, fun _ _ _ hlinked => sampleLinked_outside hlinked,
    fun link _ => ⟨_, rfl⟩⟩
  · rcases mem_chainPlans.mp hmem with hchain | hchain
    · obtain ⟨hkind, hcode, _⟩ := hsound.ethereum _ hchain
      rw [hkind, hcode]
      decide
    · obtain ⟨hkind, hcode, _⟩ := hsound.solana _ hchain
      rw [hkind, hcode]
      decide
  · have hfew : ((createPlan sampleExternals sampleConfig).toOption.all fun plan =>
        (chainPlans plan).all fun chainPlan => decide (chainPlan.syndications.length ≤ 1)) = true := by
      decide +kernel
    rw [h] at hfew
    have hone := of_decide_eq_true (List.all_eq_true.mp hfew chainPlan hmem)
    intro spec hspec spec' hspec' _ _ _
    have honly : ∀ specs : List SyndicationSpec, specs.length ≤ 1 → spec ∈ specs →
        spec' ∈ specs → spec = spec'
      | [], _, hmem, _ => by cases hmem
      | [only], _, hmem, hmem' => by rw [List.mem_singleton.mp hmem, List.mem_singleton.mp hmem']
    rw [honly _ hone hspec hspec']
  · rw [sortBy_sampleLinks]
    rfl

/-- The plan of the sample can be imported, in another order too and without its first step, whose
position of Ethereum is not linked. -/
theorem sample_imported : ∃ plan once other less,
    createPlan sampleExternals sampleConfig = .ok plan ∧
    runSteps sampleExternals sampleContracts plan (planImport plan) = .ok once ∧
    runSteps sampleExternals sampleContracts plan (planImport plan).reverse = .ok other ∧
    runSteps sampleExternals sampleContracts plan (planImport plan).tail.reverse = .ok less ∧
    less.parked.length ≠ once.parked.length := by
  have hreturns : ((createPlan sampleExternals sampleConfig).toOption.any fun plan =>
      (runSteps sampleExternals sampleContracts plan (planImport plan)).toOption.any fun once =>
      (runSteps sampleExternals sampleContracts plan (planImport plan).reverse).toOption.isSome &&
      (runSteps sampleExternals sampleContracts plan (planImport plan).tail.reverse).toOption.any
        fun less => decide (less.parked.length ≠ once.parked.length)) = true := by
    decide +kernel
  obtain ⟨plan, hplan, hreturns⟩ := (Option.any_eq_true _ _).mp hreturns
  obtain ⟨once, honce, hreturns⟩ := (Option.any_eq_true _ _).mp hreturns
  obtain ⟨hother, hreturns⟩ := Bool.and_eq_true_iff.mp hreturns
  obtain ⟨other, hother⟩ := Option.isSome_iff_exists.mp hother
  obtain ⟨less, hless, hlength⟩ := (Option.any_eq_true _ _).mp hreturns
  exact ⟨plan, once, other, less, except_toOption_eq_some.mp hplan,
    except_toOption_eq_some.mp honce, except_toOption_eq_some.mp hother,
    except_toOption_eq_some.mp hless, of_decide_eq_true hlength⟩

/-! ### The gates -/

/-- The gate of the claims passes when every batch of claims was executed exactly once. -/
theorem claims_gate {config : LcoImportConfig} (h : createPlan ext config = .ok plan)
    (hdocumented : ClaimsDocumented contracts) (hsub : executed ⊆ planImport plan)
    (hrun : runSteps ext contracts plan executed = .ok depot) :
    runReconcileClaims contracts plan (claimCount plan) depot = .ok () ↔
      ∀ chainCode batchIndex creditCount,
        .claimBatch chainCode batchIndex creditCount ∈ planImport plan →
          executed.count (.claimBatch chainCode batchIndex creditCount) = 1 :=
  reconcileClaims_once (sound_of_createPlan h) hsub (runSteps_unmapped hdocumented hrun)

theorem claims_gate_sample : ∃ plan depot, createPlan sampleExternals sampleConfig = .ok plan ∧
    runSteps sampleExternals sampleContracts plan (planImport plan).reverse = .ok depot ∧
    runReconcileClaims sampleContracts plan (claimCount plan) depot = .ok () := by
  obtain ⟨plan, _, other, _, hplan, _, hother, _⟩ := sample_imported
  have hnodup := nodup_planImport (sound_of_createPlan hplan)
  refine ⟨plan, other, hplan, hother, (claims_gate hplan sampleContracts_claims
    (List.reverse_subset.mpr (List.Subset.refl _)) hother).mpr fun _ _ _ hmem => ?_⟩
  rw [List.count_reverse]
  exact List.count_eq_one_of_mem hnodup hmem

/-- The gate of the positions passes when parked rows, supplies and the balances of all accounts but
the chain's own are those of executing every step once. -/
theorem syndication_gate {config : LcoImportConfig} {once : Depot}
    (h : createPlan ext config = .ok plan) (hdeployed : Deployed ext sdk contracts plan links)
    (hsub : executed ⊆ planImport plan) (hrun : runSteps ext contracts plan executed = .ok depot)
    (honce : runSteps ext contracts plan (planImport plan) = .ok once) :
    runReconcileSyndication ext sdk contracts plan (positionCount plan) links depot = .ok () ↔
      depot.parked.Perm once.parked ∧
      (∀ account tokenCode, isSystemAccount account = false →
        readLiqBalance depot account tokenCode = readLiqBalance once account tokenCode) ∧
      ∀ tokenCode, readOutstanding depot tokenCode = readOutstanding once tokenCode := by
  have hsound := sound_of_createPlan h
  have hread := readable_of_runSteps hsound honce (List.Subset.refl _)
  have htables := runSteps_tables hdeployed.documented hrun
  have hplanned := runSteps_tables hdeployed.documented honce
  have hparked : once.parked.Perm (filled (stepParked ext contracts plan) (planImport plan)) :=
    hplanned.parked.trans (tally_of_nodup (nodup_planned_parked hsound hread hdeployed))
  rw [runReconcileSyndication_iff hsound hread hdeployed hsub htables]
  refine and_congr ⟨fun hperm => hperm.trans hparked.symm, fun hperm => hperm.trans hparked⟩
    (and_congr ?_ ?_)
  · constructor
    · intro hall account tokenCode hown
      rw [htables.accounts _ _ hown, hplanned.accounts _ _ hown]
      exact hall (account, tokenCode)
    · rintro hall ⟨account, tokenCode⟩
      by_cases hkey : (account, tokenCode) ∈
          (filled (stepAccounts ext contracts plan) (planImport plan)).map Prod.fst
      · have hown := planned_outside hsound hread hdeployed hkey
        rw [← htables.accounts _ _ hown, ← hplanned.accounts _ _ hown]
        exact hall account tokenCode hown
      · rw [sumAt_of_not_mem hkey, sumAt_of_not_mem fun hmem =>
          hkey (List.map_subset _ (filled_subset hsub) hmem)]
  · simp only [readOutstanding_eq htables, readOutstanding_eq hplanned]
    constructor
    · intro hall tokenCode
      by_cases hkey : tokenCode ∈
          (filled (stepSupply ext contracts plan) (planImport plan)).map Prod.fst
      · obtain ⟨chainPlan, hmem, rfl⟩ := token_of_mem_supply hsound hread hkey
        rw [hall chainPlan hmem, sumAt_minted hsound hread hmem]
      · rw [sumAt_of_not_mem hkey, sumAt_of_not_mem fun hmem =>
          hkey (List.map_subset _ (filled_subset hsub) hmem)]
    · intro hall chainPlan hmem
      rw [hall, sumAt_minted hsound hread hmem]

/-- Without the first step the gate stays shut. -/
theorem syndication_gate_sample : ∃ plan less,
    createPlan sampleExternals sampleConfig = .ok plan ∧
    runSteps sampleExternals sampleContracts plan (planImport plan).tail.reverse = .ok less ∧
    runReconcileSyndication sampleExternals sampleSdk sampleContracts plan (positionCount plan)
      sampleLinks less ≠ .ok () := by
  obtain ⟨plan, once, _, less, hplan, honce, _, hless, hlength⟩ := sample_imported
  have hsub : (planImport plan).tail.reverse ⊆ planImport plan :=
    List.reverse_subset.mpr (List.tail_subset _)
  refine ⟨plan, less, hplan, hless, fun hpass => hlength ?_⟩
  exact ((syndication_gate hplan (sample_deployed hplan) hsub hless honce).mp hpass).1.length_eq

/-- Where no step was skipped, or none repeated, both gates pass only where every step was executed
exactly once. -/
theorem gates_pass_iff_once {config : LcoImportConfig} (h : createPlan ext config = .ok plan)
    (hdocumented : ClaimsDocumented contracts)
    (hdeployed : Deployed ext sdk contracts plan links) (hsub : executed ⊆ planImport plan)
    (hrun : runSteps ext contracts plan executed = .ok depot)
    (hcount : (∀ step ∈ planImport plan, 1 ≤ executed.count step) ∨
      ∀ step ∈ planImport plan, executed.count step ≤ 1) :
    (runReconcileClaims contracts plan (claimCount plan) depot = .ok () ∧
      runReconcileSyndication ext sdk contracts plan (positionCount plan) links depot = .ok ()) ↔
      ∀ step ∈ planImport plan, executed.count step = 1 := by
  have hsound := sound_of_createPlan h
  have hunmapped := runSteps_unmapped hdocumented hrun
  have htables := runSteps_tables hdeployed.documented hrun
  constructor
  · rintro ⟨hclaims, hpositions⟩ step hstep
    have hread : Readable ext plan := readable_of_reconcile hpositions
    obtain ⟨_, _, hsupply⟩ := (runReconcileSyndication_iff hsound hread hdeployed hsub
      htables).mp hpositions
    rcases @stepSupply_ne_nil ext contracts plan hsound hread step hstep with
      ⟨chainCode, index, count, rfl⟩ | hne
    · exact (reconcileClaims_once hsound hsub hunmapped).mp hclaims _ _ _ hstep
    · exact count_of_supply hsound hread hsub hcount hsupply hstep hne
  · intro hall
    have hread := readable_of_runSteps hsound hrun fun step hstep =>
      List.count_pos_iff.mp (by
        rw [hall step hstep]
        exact Nat.one_pos)
    have hperm : executed.Perm (planImport plan) := perm_of_count_one (nodup_planImport hsound) hsub hall
    refine ⟨(reconcileClaims_once hsound hsub hunmapped).mpr fun _ _ _ => hall _, ?_⟩
    refine (runReconcileSyndication_iff hsound hread hdeployed hsub htables).mpr ⟨?_, fun holder => ?_,
      fun chainPlan hmem => ?_⟩
    · exact (htables.parked.trans (tally_perm (filled_perm hperm))).trans
        (tally_of_nodup (nodup_planned_parked hsound hread hdeployed))
    · exact sumAt_perm (filled_perm hperm) holder
    · exact (sumAt_perm (filled_perm hperm) _).trans (sumAt_minted hsound hread hmem)

/-- In the opposite order both gates pass. -/
theorem gates_pass_iff_once_sample : ∃ plan depot,
    createPlan sampleExternals sampleConfig = .ok plan ∧
    runSteps sampleExternals sampleContracts plan (planImport plan).reverse = .ok depot ∧
    runReconcileClaims sampleContracts plan (claimCount plan) depot = .ok () ∧
    runReconcileSyndication sampleExternals sampleSdk sampleContracts plan (positionCount plan)
      sampleLinks depot = .ok () := by
  obtain ⟨plan, _, other, _, hplan, _, hother, _⟩ := sample_imported
  have hnodup := nodup_planImport (sound_of_createPlan hplan)
  have hcount : ∀ step ∈ planImport plan, (planImport plan).reverse.count step = 1 := by
    intro step hmem
    rw [List.count_reverse]
    exact List.count_eq_one_of_mem hnodup hmem
  refine ⟨plan, other, hplan, hother, (gates_pass_iff_once hplan sampleContracts_claims
    (sample_deployed hplan) (List.reverse_subset.mpr (List.Subset.refl _)) hother
      (Or.inr fun step hmem => (hcount step hmem).le)).mpr hcount⟩

end WireTools.LcoImportSteps

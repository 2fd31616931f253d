import WireTools.SchemaCatalog

/-! # Freshness of the schema catalog

`Inv` is what every punctual step keeps.  Beside the promises of `Fresh` it says where the table
of a pending describe is: the catalog holds it, unless the last change of its owner came after the
request that it is known from (`probed`), as it does where the describe has loaded its owner
(`resumed`); and what the last change has installed the catalog holds (`installed`).

* `Inv.issue`, `Inv.hold`, `Inv.settle`, `Inv.invalidate`, `Inv.install`, `Inv.write`: the parts
  of a step;
* `catalog_fresh`: a catalog is fresh in every state of a punctual run. -/

namespace WireTools.SchemaCatalog

open Catalog

/-! ### Owners and tables -/

theorem lookupIn_isSome {tables : List CatalogTable} {table : Text} :
    (lookupIn tables table).isSome = true ↔ table ∈ tableNames tables := by
  rw [lookupIn, List.find?_isSome, tableNames, List.mem_map]
  simp only [decide_eq_true_eq]

theorem lookupTable_isSome {owners : List CatalogOwner} {owner table : Text} :
    (lookupTable owners owner table).isSome = true ↔
      ∃ entry, lookupOwner owners owner = some entry ∧ table ∈ tableNames entry.tables := by
  rw [lookupTable, Option.isSome_bind]
  cases h : lookupOwner owners owner with
  | none => simp
  | some entry => simp [lookupIn_isSome]

theorem account_of_lookupOwner {owners : List CatalogOwner} {owner : Text} {entry : CatalogOwner}
    (h : lookupOwner owners owner = some entry) : entry ∈ owners ∧ entry.account = owner :=
  ⟨List.mem_of_find?_eq_some h, by simpa using List.find?_some h⟩

theorem mem_replaceOwner {owners : List CatalogOwner} {entry e : CatalogOwner}
    (h : e ∈ replaceOwner owners entry) :
    e = entry ∨ e ∈ owners ∧ e.account ≠ entry.account := by
  unfold replaceOwner at h
  split at h
  · obtain ⟨candidate, hmem, rfl⟩ := List.mem_map.mp h
    by_cases haccount : candidate.account = entry.account
    · exact Or.inl (if_pos haccount)
    · rw [if_neg haccount]
      exact Or.inr ⟨hmem, haccount⟩
  · next habsent =>
      rcases List.mem_append.mp h with hmem | hmem
      · refine Or.inr ⟨hmem, fun haccount => habsent ?_⟩
        exact List.any_eq_true.mpr ⟨e, hmem, decide_eq_true haccount⟩
      · exact Or.inl (List.mem_singleton.mp hmem)

theorem lookupOwner_map {f : CatalogOwner → CatalogOwner} (hf : ∀ e, (f e).account = e.account)
    (owners : List CatalogOwner) (owner : Text) :
    lookupOwner (owners.map f) owner = (lookupOwner owners owner).map f := by
  rw [lookupOwner, List.find?_map]
  simp only [Function.comp_def, hf]
  rfl

/-- The entry is found under its account, every other owner as before. -/
theorem lookupOwner_replaceOwner (owners : List CatalogOwner) (entry : CatalogOwner)
    (owner : Text) : lookupOwner (replaceOwner owners entry) owner =
      if entry.account = owner then some entry else lookupOwner owners owner := by
  unfold replaceOwner
  split
  · next hpresent =>
      rw [lookupOwner_map fun e => by split <;> simp_all]
      cases hfound : lookupOwner owners owner with
      | none =>
          rw [Option.map_none, if_neg]
          rintro rfl
          obtain ⟨e, hmem, he⟩ := List.any_eq_true.mp hpresent
          exact List.find?_eq_none.mp hfound e hmem he
      | some found =>
          rw [Option.map_some, (account_of_lookupOwner hfound).2]
          by_cases howner : owner = entry.account
          · rw [if_pos howner, if_pos howner.symm]
          · rw [if_neg howner, if_neg fun h => howner h.symm]
  · next habsent =>
      rw [lookupOwner, List.find?_append]
      split
      · next howner =>
          subst howner
          have hnone : owners.find? (fun e => e.account = entry.account) = none := by
            rw [List.find?_eq_none]
            intro e hmem he
            exact habsent (List.any_eq_true.mpr ⟨e, hmem, he⟩)
          rw [hnone, Option.none_or, List.find?_cons_of_pos (by simp)]
      · next howner =>
          rw [List.find?_cons_of_neg (by simpa using howner), List.find?_nil, Option.or_none]
          rfl

theorem lookupOwner_invalidated {owners : List CatalogOwner} {which : Option Text} {owner : Text}
    (h : covers which owner = false) :
    lookupOwner (invalidated owners which) owner = lookupOwner owners owner := by
  unfold invalidated
  rw [lookupOwner_map fun e => by split <;> rfl]
  cases hfound : lookupOwner owners owner with
  | none => rfl
  | some found =>
      rw [Option.map_some, (account_of_lookupOwner hfound).2, h]
      rfl

/-- Only the described table is replaced, by one of its name. -/
theorem tableNames_withTable {entry : CatalogOwner} {table : Text} {described : CatalogTable}
    (h : described.name = table) :
    tableNames (entry.withTable table described).tables = tableNames entry.tables := by
  simp only [tableNames, CatalogOwner.withTable, List.map_map]
  apply List.map_congr_left
  intro candidate _
  rw [Function.comp_apply]
  split
  · next hname => rw [h, hname]
  · rfl

/-! ### The invariant -/

structure Inv (s : Catalog) : Prop extends s.Fresh where
  sent : ∀ op ∈ s.pending, op.ticket < s.issued
  known : ∀ op ∈ s.pending, ∀ table present since, op.request = .probe table present since →
    since < s.issued
  probed : ∀ op ∈ s.pending, ∀ table since, op.request = .probe table true since →
    (∃ c, s.lastChange op.owner = some c ∧ since < c.issued) ∨
      (lookupTable s.owners op.owner table).isSome = true
  resumed : ∀ op ∈ s.pending, ∀ table present, op.request = .loadedFor table present →
    ∃ c, s.lastChange op.owner = some c ∧ op.ticket < c.issued
  installed : ∀ owner c, s.lastChange owner = some c → ∀ table, c.installs table = true →
    (lookupTable s.owners owner table).isSome = true

theorem inv_empty (accounts : List Text) : Inv (empty accounts) where
  current entry hentry hloaded := by
    obtain ⟨account, _, rfl⟩ := List.mem_map.mp hentry
    cases hloaded
  kept entry hentry := by
    obtain ⟨account, _, rfl⟩ := List.mem_map.mp hentry
    rfl
  found op table since h := absurd h List.not_mem_nil
  sent op h := absurd h List.not_mem_nil
  known op h := absurd h List.not_mem_nil
  probed op h := absurd h List.not_mem_nil
  resumed op h := absurd h List.not_mem_nil
  installed owner c h := by cases h

namespace Inv

variable {s : Catalog}

theorem issue (h : Inv s) {owner : Text} {request : Request}
    (hknown : ∀ table present since, request = .probe table present since → since ≤ s.issued)
    (hprobe : ∀ table since, request = .probe table true since →
      (∃ c, s.lastChange owner = some c ∧ since < c.issued) ∨
        (lookupTable s.owners owner table).isSome = true)
    (hsent : request.sent = true) : Inv (s.issue owner request) where
  current := h.current
  kept := h.kept
  found := h.found
  installed := h.installed
  sent op hop := by
    rcases List.mem_append.mp hop with hop | hop
    · exact Nat.lt_succ_of_lt (h.sent op hop)
    · rw [List.mem_singleton.mp hop]
      exact Nat.lt_succ_self s.issued
  known op hop table present since hrequest := by
    rcases List.mem_append.mp hop with hop | hop
    · exact Nat.lt_succ_of_lt (h.known op hop table present since hrequest)
    · rw [List.mem_singleton.mp hop] at hrequest
      exact Nat.lt_succ_of_le (hknown table present since hrequest)
  probed op hop table since hrequest := by
    rcases List.mem_append.mp hop with hop | hop
    · exact h.probed op hop table since hrequest
    · rw [List.mem_singleton.mp hop] at hrequest ⊢
      exact hprobe table since hrequest
  resumed op hop table present hrequest := by
    rcases List.mem_append.mp hop with hop | hop
    · exact h.resumed op hop table present hrequest
    · rw [List.mem_singleton.mp hop] at hrequest
      have hrequest : request = .loadedFor table present := hrequest
      rw [hrequest] at hsent
      cases hsent

theorem withdraw (h : Inv s) (op : Operation) : Inv (s.withdraw op) where
  current := h.current
  kept := h.kept
  found := h.found
  installed := h.installed
  sent other hother := h.sent other (List.mem_of_mem_filter hother)
  known other hother := h.known other (List.mem_of_mem_filter hother)
  probed other hother := h.probed other (List.mem_of_mem_filter hother)
  resumed other hother := h.resumed other (List.mem_of_mem_filter hother)

/-- A describe whose ABI has just been installed holds. -/
theorem hold (h : Inv s) {op : Operation} (hop : op.ticket < s.issued) {table : Text}
    {present : Bool} (hchange : ∃ c, s.lastChange op.owner = some c ∧ op.ticket < c.issued) :
    Inv (s.hold op (.loadedFor table present)) where
  current := h.current
  kept := h.kept
  found := h.found
  installed := h.installed
  sent other hother := by
    rcases List.mem_append.mp hother with hother | hother
    · exact (h.withdraw op).sent other hother
    · rw [List.mem_singleton.mp hother]
      exact hop
  known other hother t p since hrequest := by
    rcases List.mem_append.mp hother with hother | hother
    · exact (h.withdraw op).known other hother t p since hrequest
    · rw [List.mem_singleton.mp hother] at hrequest
      cases hrequest
  probed other hother t since hrequest := by
    rcases List.mem_append.mp hother with hother | hother
    · exact (h.withdraw op).probed other hother t since hrequest
    · rw [List.mem_singleton.mp hother] at hrequest
      cases hrequest
  resumed other hother t p hrequest := by
    rcases List.mem_append.mp hother with hother | hother
    · exact (h.withdraw op).resumed other hother t p hrequest
    · rw [List.mem_singleton.mp hother]
      exact hchange

theorem settle (h : Inv s) {op : Operation} {ending : Ending}
    (hfound : ending = .notInCatalog → ∀ table since, op.request ≠ .probe table true since) :
    Inv (s.settle op ending) where
  current := h.current
  kept := h.kept
  installed := h.installed
  sent := (h.withdraw op).sent
  known := (h.withdraw op).known
  probed := (h.withdraw op).probed
  resumed := (h.withdraw op).resumed
  found other table since hother := by
    rcases List.mem_append.mp hother with hother | hother
    · exact h.found other table since hother
    · obtain ⟨rfl, hending⟩ := Prod.mk.inj (List.mem_singleton.mp hother)
      exact hfound hending.symm table since

/-- A change that concerns the owner is its last one; any other leaves the last one. -/
theorem lastChange_cons {s' : Catalog} {c : Change} (h : s'.history = c :: s.history)
    (owner : Text) :
    s'.lastChange owner = if c.concerns owner then some c else s.lastChange owner := by
  rw [lastChange, h, List.find?_cons]
  cases c.concerns owner with
  | true => rfl
  | false => rfl

/-- The entries that an invalidation covers are emptied; what was pending for them was sent
before. -/
theorem invalidate (h : Inv s) (which : Option Text) : Inv (s.invalidate which) where
  found := h.found
  sent := h.sent
  known := h.known
  current entry hentry hloaded := by
    obtain ⟨e, he, rfl⟩ := List.mem_map.mp hentry
    split at hloaded
    · cases hloaded
    · next hcovers =>
        rw [if_neg hcovers] at *
        obtain ⟨source, hsource, hcurrent⟩ := h.current e he hloaded
        refine ⟨source, hsource, ?_⟩
        rw [Catalog.invalidate, List.forall_mem_cons]
        exact ⟨fun hconcerns => absurd hconcerns hcovers, hcurrent⟩
  kept entry hentry := by
    obtain ⟨e, he, rfl⟩ := List.mem_map.mp hentry
    split
    · rfl
    · exact h.kept e he
  probed op hop table since hrequest := by
    rw [lastChange_cons rfl, Change.concerns]
    cases hcovers : covers which op.owner with
    | true =>
        exact Or.inl ⟨.invalidate which s.issued, rfl, h.known op hop table true since hrequest⟩
    | false =>
        rw [lookupTable, Catalog.invalidate, lookupOwner_invalidated hcovers]
        exact h.probed op hop table since hrequest
  resumed op hop table present hrequest := by
    rw [lastChange_cons rfl, Change.concerns]
    cases hcovers : covers which op.owner with
    | true => exact ⟨.invalidate which s.issued, rfl, h.sent op hop⟩
    | false => exact h.resumed op hop table present hrequest
  installed owner c hlast table hinstalls := by
    rw [lastChange_cons rfl, Change.concerns] at hlast
    cases hcovers : covers which owner with
    | true =>
        rw [hcovers] at hlast
        rw [← Option.some.inj hlast] at hinstalls
        cases hinstalls
    | false =>
        rw [hcovers] at hlast
        rw [lookupTable, Catalog.invalidate, lookupOwner_invalidated hcovers]
        exact h.installed owner c hlast table hinstalls

/-- An answer whose request nothing has outdated becomes the entry of its owner. -/
theorem install (h : Inv s) (op : Operation) (tables : List CatalogTable)
    (htimely : ∀ c ∈ s.history, c.concerns op.owner = true → c.outdates op.ticket = false) :
    Inv (s.install op tables) where
  found := h.found
  sent := h.sent
  known := h.known
  current entry hentry hloaded := by
    rw [Catalog.install]
    simp only [List.forall_mem_cons]
    rcases mem_replaceOwner hentry with rfl | ⟨hentry, haccount⟩
    · refine ⟨_, rfl, fun _ => ?_, htimely⟩
      exact decide_eq_false (Nat.lt_irrefl op.ticket)
    · obtain ⟨source, hsource, hcurrent⟩ := h.current entry hentry hloaded
      refine ⟨source, hsource, fun hconcerns => ?_, hcurrent⟩
      exact absurd (of_decide_eq_true hconcerns).symm haccount
  kept entry hentry := by
    rcases mem_replaceOwner hentry with rfl | ⟨hentry, _⟩
    · rfl
    · exact h.kept entry hentry
  probed other hother table since hrequest := by
    rw [lastChange_cons rfl, Change.concerns]
    by_cases howner : op.owner = other.owner
    · rw [if_pos (decide_eq_true howner)]
      exact Or.inl ⟨_, rfl, h.known other hother table true since hrequest⟩
    · rw [if_neg (by simpa using howner)]
      rw [lookupTable, Catalog.install, replace, lookupOwner_replaceOwner, if_neg howner]
      exact h.probed other hother table since hrequest
  resumed other hother table present hrequest := by
    rw [lastChange_cons rfl, Change.concerns]
    by_cases howner : op.owner = other.owner
    · rw [if_pos (decide_eq_true howner)]
      exact ⟨_, rfl, h.sent other hother⟩
    · rw [if_neg (by simpa using howner)]
      exact h.resumed other hother table present hrequest
  installed owner c hlast table hinstalls := by
    rw [lastChange_cons rfl, Change.concerns] at hlast
    by_cases howner : op.owner = owner
    · rw [if_pos (decide_eq_true howner)] at hlast
      rw [← Option.some.inj hlast] at hinstalls
      rw [lookupTable_isSome, Catalog.install, replace, lookupOwner_replaceOwner, if_pos howner]
      exact ⟨_, rfl, of_decide_eq_true hinstalls⟩
    · rw [if_neg (by simpa using howner)] at hlast
      rw [lookupTable, Catalog.install, replace, lookupOwner_replaceOwner, if_neg howner]
      exact h.installed owner c hlast table hinstalls

/-- A described table is written into the entry it was read from, which keeps its tables. -/
theorem write (h : Inv s) {owner table : Text} {entry : CatalogOwner} {described : CatalogTable}
    (hentry : lookupOwner s.owners owner = some entry) (hname : described.name = table) :
    Inv (s.replace (entry.withTable table described)) := by
  obtain ⟨hmem, haccount⟩ := account_of_lookupOwner hentry
  have hnames : tableNames (entry.withTable table described).tables = tableNames entry.tables :=
    tableNames_withTable hname
  have hlookup : ∀ o t, (lookupTable s.owners o t).isSome = true →
      (lookupTable (s.replace (entry.withTable table described)).owners o t).isSome = true := by
    intro o t ht
    rw [lookupTable_isSome] at ht ⊢
    rw [replace, lookupOwner_replaceOwner]
    obtain ⟨e, he, ht⟩ := ht
    by_cases ho : (entry.withTable table described).account = o
    · have heq : e = entry := by
        have ho' : o = owner := ho.symm.trans haccount
        rw [ho', hentry] at he
        exact (Option.some.inj he).symm
      refine ⟨_, if_pos ho, ?_⟩
      rw [hnames, ← heq]
      exact ht
    · exact ⟨e, (if_neg ho).trans he, ht⟩
  refine ⟨⟨?_, ?_, h.found⟩, h.sent, h.known, ?_, h.resumed, ?_⟩
  · intro e he hloaded
    rcases mem_replaceOwner he with rfl | ⟨he, _⟩
    · exact h.current entry hmem hloaded
    · exact h.current e he hloaded
  · intro e he
    rcases mem_replaceOwner he with rfl | ⟨he, _⟩
    · rw [hnames]
      exact h.kept entry hmem
    · exact h.kept e he
  · intro op hop t since hrequest
    exact (h.probed op hop t since hrequest).imp_right (hlookup op.owner t)
  · intro o c hlast t hinstalls
    exact hlookup o t (h.installed o c hlast t hinstalls)

/-! ### Steps and runs -/

theorem describe (h : Inv s) (owner table : Text) : Inv (s.describe owner table) := by
  unfold Catalog.describe
  split
  · refine h.issue ?_ ?_ rfl
    · intro t present since ht
      injection ht with _ _ hsince
      exact Nat.le_of_eq hsince.symm
    · intro t since ht
      injection ht with htable hpresent _
      right
      rw [← htable, hpresent]
  · exact h.issue nofun nofun rfl

/-- A describe that has waited for an ABI goes on after the change that this has made. -/
theorem answerAbi (h : Inv s) {op : Operation} {reply : Option Abi} {s' : Catalog}
    (hop : op ∈ s.pending) (hstep : s.answerAbi op reply = some s')
    (htimely : ∀ c ∈ s.history, c.concerns op.owner = true → c.outdates op.ticket = false) :
    Inv s' := by
  unfold Catalog.answerAbi at hstep
  cases hreply : tablesOfReply reply with
  | none =>
      rw [hreply] at hstep
      cases hrequest : op.request with
      | probe table present since => simp [hrequest] at hstep
      | loadedFor table present => simp [hrequest] at hstep
      | load =>
          simp only [hrequest, Option.some.injEq] at hstep
          subst hstep
          exact h.settle nofun
      | loadFor table =>
          simp only [hrequest, Option.some.injEq] at hstep
          subst hstep
          exact h.settle nofun
  | some tables =>
      rw [hreply] at hstep
      have hinstall := h.install op tables htimely
      cases hrequest : op.request with
      | probe table present since => simp [hrequest] at hstep
      | loadedFor table present => simp [hrequest] at hstep
      | load =>
          simp only [hrequest, Option.some.injEq] at hstep
          subst hstep
          exact hinstall.settle nofun
      | loadFor table =>
          simp only [hrequest, Option.some.injEq] at hstep
          subst hstep
          have hchange : (s.install op tables).lastChange op.owner =
              some (.load op.owner s.issued op.ticket tables) := by
            rw [lastChange_cons rfl, Change.concerns, if_pos (decide_eq_true rfl)]
          exact hinstall.hold (h.sent op hop) ⟨_, hchange, h.sent op hop⟩

theorem resume (h : Inv s) {op : Operation} {s' : Catalog} (hop : op ∈ s.pending)
    (hstep : s.resume op = some s') : Inv s' := by
  unfold Catalog.resume at hstep
  split at hstep
  · next table present hrequest =>
      cases hstep
      refine (h.withdraw op).issue ?_ ?_ rfl
      · intro t p since ht
        injection ht with _ _ hsince
        rw [← hsince]
        exact Nat.le_of_lt (h.sent op hop)
      · intro t since ht
        injection ht with _ _ hsince
        rw [← hsince]
        exact Or.inl (h.resumed op hop table present hrequest)
  · cases hstep

/-- The columns of a table that was there find it there when they come in time. -/
theorem answerColumns (h : Inv s) {op : Operation} {reply : List Column} {s' : Catalog}
    (hop : op ∈ s.pending) (hstep : s.answerColumns op reply = some s')
    (htimely : ∀ table since, op.request = .probe table true since →
      ∀ c, s.lastChange op.owner = some c → c.issued ≤ since ∨ c.installs table = true) :
    Inv s' := by
  unfold Catalog.answerColumns at hstep
  cases hrequest : op.request with
  | load => simp [hrequest] at hstep
  | loadFor table => simp [hrequest] at hstep
  | loadedFor table present => simp [hrequest] at hstep
  | probe table present since =>
      simp only [hrequest] at hstep
      split at hstep
      · next entry existing hentry hexisting =>
          simp only [Option.some.injEq] at hstep
          subst hstep
          rw [lookupTable, hentry, Option.bind_some] at hexisting
          have hname : (describedTable existing reply).name = table := by
            have hfound := List.find?_some hexisting
            exact of_decide_eq_true hfound
          exact (h.write hentry hname).settle nofun
      · next habsent =>
          simp only [Option.some.injEq] at hstep
          subst hstep
          refine h.settle fun _ t since ht => ?_
          have hthere : (lookupTable s.owners op.owner t).isSome = true := by
            rcases h.probed op hop t since ht with ⟨c, hlast, hlate⟩ | hthere
            · rcases htimely t since ht c hlast with hearly | hinstalls
              · exact absurd hlate (Nat.not_lt.mpr hearly)
              · exact h.installed op.owner c hlast t hinstalls
            · exact hthere
          rw [hrequest] at ht
          injection ht with htable _ _
          rw [← htable] at hthere
          obtain ⟨existing, hexisting⟩ := Option.isSome_iff_exists.mp hthere
          obtain ⟨entry, hentry, _⟩ := lookupTable_isSome.mp hthere
          exact habsent entry existing hentry hexisting

theorem waiting_spec {ticket : ℕ} {op : Operation} (h : s.waiting ticket = some op) :
    op ∈ s.pending ∧ op.ticket = ticket :=
  ⟨List.mem_of_find?_eq_some h, by simpa using List.find?_some h⟩

theorem step (h : Inv s) {ev : Event} {s' : Catalog} (hstep : s.step ev = some s')
    (htimely : s.Punctual ev) : Inv s' := by
  cases ev with
  | loadOwner owner =>
      cases hstep
      exact h.issue nofun nofun rfl
  | describe owner table =>
      cases hstep
      exact h.describe owner table
  | invalidate which =>
      cases hstep
      exact h.invalidate which
  | abi ticket reply =>
      obtain ⟨op, hop, hanswer⟩ := Option.bind_eq_some_iff.mp hstep
      refine h.answerAbi (waiting_spec hop).1 hanswer ?_
      rw [(waiting_spec hop).2]
      exact htimely op hop
  | resume ticket =>
      obtain ⟨op, hop, hresume⟩ := Option.bind_eq_some_iff.mp hstep
      exact h.resume (waiting_spec hop).1 hresume
  | columns ticket reply =>
      obtain ⟨op, hop, hanswer⟩ := Option.bind_eq_some_iff.mp hstep
      exact h.answerColumns (waiting_spec hop).1 hanswer (htimely op hop)
  | fail ticket =>
      obtain ⟨op, hop, rfl⟩ := Option.map_eq_some_iff.mp hstep
      exact h.settle nofun
  | abort ticket =>
      obtain ⟨op, hop, rfl⟩ := Option.map_eq_some_iff.mp hstep
      exact h.settle nofun

end Inv

/-- A catalog is fresh in every state of a run whose answers all come in time. -/
theorem catalog_fresh (accounts : List Text) {events : List Event} {s : Catalog}
    (hrun : runs Catalog.step (empty accounts) events = some s)
    (htimely : Along Catalog.step Punctual (empty accounts) events) : s.Fresh :=
  (along_induction hrun htimely (inv_empty accounts) fun _ _ _ hC hstep h =>
    h.step hstep hC).toFresh

/-- An ABI with one table, `t`, of a struct with one field. -/
def sampleAbi : Abi :=
  ⟨[], [⟨text "row", [], [⟨text "v", text "uint64"⟩]⟩], [⟨text "t", text "row", [text "id"],
    [text "uint64"]⟩]⟩

/-- A describe loads its owner first; an invalidation and a reload come before it goes on, and
another invalidation when the columns are there. -/
def sampleEvents : List Event :=
  [.describe (text "a") (text "t"), .abi 0 (some sampleAbi), .invalidate none,
    .loadOwner (text "a"), .resume 0, .abi 1 (some sampleAbi), .columns 2 [(text "v", .integer)],
    .invalidate none]

theorem catalog_fresh_describe :
    ∃ s, runs Catalog.step (empty [text "a"]) sampleEvents = some s ∧ s.Fresh := by
  have hrun : ∃ s, runs Catalog.step (empty [text "a"]) sampleEvents = some s := ⟨_, rfl⟩
  obtain ⟨s, hrun⟩ := hrun
  refine ⟨s, hrun, catalog_fresh [text "a"] hrun ?_⟩
  refine ⟨trivial, ?_, trivial, trivial, trivial, ?_, ?_, trivial, trivial⟩
  · rintro op _ c ⟨⟩
  · intro op hop c hc _
    cases hop
    rcases List.mem_cons.mp hc with rfl | hc
    · decide
    · rw [List.mem_singleton.mp hc]
      decide
  · intro op hop t since ht c hlast
    cases hop
    cases ht
    cases hlast
    exact Or.inr (by decide)

/-- An answer that comes after the invalidation marks the owner loaded; the answer of an earlier
request replaces that of a later one; a describe fails because its owner was invalidated while it
waited, for its columns or to go on after its load. -/
theorem catalog_stale :
    (∃ s, runs Catalog.step (empty [text "a"])
      [.loadOwner (text "a"), .invalidate none, .abi 0 none] = some s ∧ ¬s.Fresh) ∧
    (∃ s, runs Catalog.step (empty [text "a"]) [.loadOwner (text "a"), .loadOwner (text "a"),
      .abi 1 none, .abi 0 none] = some s ∧ ¬s.Fresh) ∧
    (∃ s, runs Catalog.step (empty [text "a"]) [.loadOwner (text "a"), .abi 0 (some sampleAbi),
      .describe (text "a") (text "t"), .invalidate none, .columns 1 []] = some s ∧ ¬s.Fresh) ∧
    ∃ s, runs Catalog.step (empty [text "a"]) [.describe (text "a") (text "t"),
      .abi 0 (some sampleAbi), .invalidate none, .resume 0, .columns 1 []] = some s ∧
        ¬s.Fresh := by
  refine ⟨⟨_, rfl, fun h => ?_⟩, ⟨_, rfl, fun h => ?_⟩, ⟨_, rfl, fun h => ?_⟩, ⟨_, rfl, fun h => ?_⟩⟩
  · obtain ⟨source, hsource, htimely⟩ := h.current _ (List.mem_cons_self ..) rfl
    cases hsource
    have hinvalid := htimely (.invalidate none 1) (by decide) rfl
    cases hinvalid
  · obtain ⟨source, hsource, htimely⟩ := h.current _ (List.mem_cons_self ..) rfl
    cases hsource
    have hlater := htimely (.load (text "a") 2 1 []) (by decide) rfl
    cases hlater
  · exact h.found ⟨1, text "a", .probe (text "t") true 1⟩ (text "t") 1 (by decide) rfl
  · exact h.found ⟨1, text "a", .probe (text "t") true 0⟩ (text "t") 0 (by decide) rfl

end WireTools.SchemaCatalog

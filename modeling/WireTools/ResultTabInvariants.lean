import WireTools.ResultTabs

/-! # Invariants of the result tabs

`Inv` is what every event keeps: beside the promises on the tabs, that ids carry numbers already
given out (`numbered`), and that every tab's current request is the one sent last for it (`last`).

* `Inv.update`, `Inv.resend`, `Inv.openSend`, `Inv.close`: the changes a reducer makes;
* `keepsPinned_step`: no event changes the query of a pinned tab;
* `resends_iff`: when a retry repeats the last request of its tab. -/

namespace WireTools.ResultTabs

open Results Workbench

/-! ### Tab strips -/

theorem resultId_injective {m n : ℕ} (h : resultId m = resultId n) : m = n := by
  have hdigits := congrArg Json.digitsValue (List.append_cancel_left h)
  rwa [Json.digitsValue_natText, Json.digitsValue_natText] at hdigits

theorem findTab_some {tabs : List ResultTab} {id : Text} {tab : ResultTab}
    (h : findTab tabs id = some tab) : tab ∈ tabs ∧ tab.id = id :=
  ⟨List.mem_of_find?_eq_some h, by simpa using List.find?_some h⟩

section Update

variable {id : Text} {f : ResultTab → ResultTab}

theorem map_id_updateTab (hf : ∀ t, (f t).id = t.id) (tabs : List ResultTab) :
    (updateTab id f tabs).map (·.id) = tabs.map (·.id) := by
  induction tabs with
  | nil => rfl
  | cons tab tabs ih =>
      rw [updateTab]
      split
      · rw [List.map_cons, hf, List.map_cons]
      · rw [List.map_cons, ih, List.map_cons]

theorem mem_updateTab {tabs : List ResultTab} {t : ResultTab} (h : t ∈ updateTab id f tabs) :
    t ∈ tabs ∨ ∃ t₀, findTab tabs id = some t₀ ∧ t = f t₀ := by
  induction tabs with
  | nil => cases h
  | cons tab tabs ih =>
      rw [updateTab] at h
      split at h
      · next hid =>
          rcases List.mem_cons.mp h with rfl | h
          · exact Or.inr ⟨tab, List.find?_cons_of_pos (decide_eq_true hid), rfl⟩
          · exact Or.inl (List.mem_cons_of_mem _ h)
      · next hid =>
          rcases List.mem_cons.mp h with rfl | h
          · exact Or.inl (List.mem_cons_self ..)
          · rcases ih h with h | ⟨t₀, ht₀, rfl⟩
            · exact Or.inl (List.mem_cons_of_mem _ h)
            · exact Or.inr ⟨t₀, (List.find?_cons_of_neg (by simpa using hid)).trans ht₀, rfl⟩

theorem findTab_updateTab (hf : ∀ t, (f t).id = t.id) (tabs : List ResultTab) :
    findTab (updateTab id f tabs) id = (findTab tabs id).map f := by
  induction tabs with
  | nil => rfl
  | cons tab tabs ih =>
      rw [updateTab]
      split
      · next hid =>
          rw [findTab, findTab, List.find?_cons_of_pos (by simpa [hf] using hid),
            List.find?_cons_of_pos (by simpa using hid)]
          rfl
      · next hid =>
          rw [findTab, findTab, List.find?_cons_of_neg (by simpa using hid),
            List.find?_cons_of_neg (by simpa using hid)]
          exact ih

theorem updateTab_of_none {tabs : List ResultTab} (h : findTab tabs id = none) :
    updateTab id f tabs = tabs := by
  induction tabs with
  | nil => rfl
  | cons tab tabs ih =>
      rw [findTab, List.find?_cons] at h
      split at h
      · cases h
      · next hid =>
          rw [updateTab, if_neg (by simpa using hid), ih h]

end Update

theorem mem_nextActive {tabs : List ResultTab} {index : ℕ} {id : Text}
    (h : nextActive tabs index = some id) : ∃ tab ∈ tabs, tab.id = id := by
  obtain ⟨tab, htab, rfl⟩ := Option.map_eq_some_iff.mp h
  exact ⟨tab, List.mem_of_getElem? htab, rfl⟩

/-- A run opens a new tab, or takes over the focused one, which is not pinned. -/
theorem runStarted_cases (r : Results) (start : RunStart) :
    r.runStarted start = r.opened start ∨
      ∃ active id, r.activeResultId = some id ∧ findTab r.tabs id = some active ∧
        active.pinned = false ∧ r.runStarted start = r.update active.id (restarted start) := by
  unfold runStarted
  cases hactive : r.activeTab with
  | none => exact Or.inl rfl
  | some active =>
      obtain ⟨id, hid, hfound⟩ := Option.bind_eq_some_iff.mp hactive
      cases hpinned : active.pinned with
      | true => exact Or.inl (if_pos hpinned)
      | false =>
          refine Or.inr ⟨active, id, hid, hfound, hpinned, if_neg ?_⟩
          rw [hpinned]
          exact Bool.false_ne_true

/-! ### The invariant -/

/-- An answer with the outcome came for the request that the tab was waiting for. -/
def Accepted (answers : List Answer) (id : Text) (e : QueryExecution) : Prop :=
  ∃ a ∈ answers, a.finish.resultId = id ∧ a.finish.execution = e ∧
    a.current = some a.finish.requestId

structure Inv (s : Workbench) : Prop where
  ids : (s.results.tabs.map (·.id)).Nodup
  numbered : ∀ tab ∈ s.results.tabs, ∃ n < s.results.nextResultNumber, tab.id = resultId n
  active : ∀ id, s.results.activeResultId = some id → ∃ tab ∈ s.results.tabs, tab.id = id
  once : (s.sent.map (·.requestId)).Nodup
  last : ∀ tab ∈ s.results.tabs, requestOf tab ∈ s.sent
  stored : ∀ tab ∈ s.results.tabs, ∀ e, tab.execution = some e → Accepted s.answers tab.id e

/-- No pinned tab has another query after the step. -/
def KeepsPinned (s s' : Workbench) : Prop :=
  ∀ tab ∈ s.results.tabs, tab.pinned = true → ∀ tab' ∈ s'.results.tabs, tab'.id = tab.id →
    tab'.query = tab.query

theorem inv_init : Inv init where
  ids := List.nodup_nil
  numbered tab h := absurd h List.not_mem_nil
  active id h := by cases h
  once := List.nodup_nil
  last tab h := absurd h List.not_mem_nil
  stored tab h := absurd h List.not_mem_nil

theorem once_append {sent : List Request} {r : Request} (h : (sent.map (·.requestId)).Nodup)
    (hfresh : ∀ r' ∈ sent, r'.requestId ≠ r.requestId) :
    ((sent ++ [r]).map (·.requestId)).Nodup := by
  rw [List.map_append, List.map_singleton, List.nodup_append]
  refine ⟨h, List.nodup_singleton _, ?_⟩
  intro id hid id' hid'
  obtain ⟨r', hr', rfl⟩ := List.mem_map.mp hid
  rw [List.mem_singleton.mp hid']
  exact hfresh r' hr'

theorem fresh_iff {s : Workbench} {requestId : Text} :
    s.fresh requestId = true ↔ ∀ r ∈ s.sent, r.requestId ≠ requestId := by
  rw [fresh, List.all_eq_true]
  simp only [decide_eq_true_eq]

namespace Inv

variable {s : Workbench}

theorem eq_of_id (h : Inv s) {t t' : ResultTab} (ht : t ∈ s.results.tabs)
    (ht' : t' ∈ s.results.tabs) (hid : t.id = t'.id) : t = t' :=
  List.inj_on_of_nodup_map h.ids ht ht' hid

section Update

variable {id : Text} {f : ResultTab → ResultTab} (hid : ∀ t, (f t).id = t.id)

include hid

theorem numbered_update (h : Inv s) : ∀ tab ∈ updateTab id f s.results.tabs,
    ∃ n < s.results.nextResultNumber, tab.id = resultId n := by
  intro tab htab
  rcases mem_updateTab htab with htab | ⟨t, ht, rfl⟩
  · exact h.numbered tab htab
  · rw [hid]
    exact h.numbered t (findTab_some ht).1

theorem active_update (h : Inv s) : ∀ active, s.results.activeResultId = some active →
    ∃ tab ∈ updateTab id f s.results.tabs, tab.id = active := by
  intro active hactive
  obtain ⟨tab, htab, rfl⟩ := h.active active hactive
  have hmem : tab.id ∈ (updateTab id f s.results.tabs).map (·.id) := by
    rw [map_id_updateTab hid]
    exact List.mem_map_of_mem htab
  exact List.mem_map.mp hmem

end Update

/-- A change of one tab that leaves its request alone. -/
theorem update (h : Inv s) {id : Text} {f : ResultTab → ResultTab} {answers : List Answer}
    (hreq : ∀ t, requestOf (f t) = requestOf t) (hanswers : ∀ a ∈ s.answers, a ∈ answers)
    (hstored : ∀ t, findTab s.results.tabs id = some t → ∀ e, (f t).execution = some e →
      Accepted answers t.id e) :
    Inv { s with results := s.results.update id f, answers } := by
  have hid : ∀ t, (f t).id = t.id := fun t => congrArg Request.resultId (hreq t)
  refine ⟨(map_id_updateTab hid _).symm ▸ h.ids, h.numbered_update hid, h.active_update hid,
    h.once, ?_, ?_⟩
  · intro tab htab
    rcases mem_updateTab htab with htab | ⟨t, ht, rfl⟩
    · exact h.last tab htab
    · rw [hreq]
      exact h.last t (findTab_some ht).1
  · intro tab htab e he
    rcases mem_updateTab htab with htab | ⟨t, ht, rfl⟩
    · obtain ⟨a, ha, haccepted⟩ := h.stored tab htab e he
      exact ⟨a, hanswers a ha, haccepted⟩
    · rw [hid]
      exact hstored t ht e he

/-- A tab takes a new request, which is sent. -/
theorem resend (h : Inv s) {id requestId : Text} {f : ResultTab → ResultTab}
    (hid : ∀ t, (f t).id = t.id) (hexecution : ∀ t, (f t).execution = t.execution)
    (hrequest : ∀ t, (f t).requestId = requestId) (hfresh : s.fresh requestId = true) :
    Inv ({ s with results := s.results.update id f }.executeResultWindow id) := by
  unfold executeResultWindow
  dsimp only [Results.update]
  rw [findTab_updateTab hid]
  cases hfound : findTab s.results.tabs id with
  | none =>
      rw [updateTab_of_none hfound]
      exact h
  | some t₀ =>
      refine ⟨(map_id_updateTab hid _).symm ▸ h.ids, h.numbered_update hid, h.active_update hid,
        ?_, ?_, ?_⟩
      · refine once_append h.once ?_
        rw [requestOf, hrequest]
        exact fresh_iff.mp hfresh
      · intro tab htab
        rcases mem_updateTab htab with htab | ⟨t, ht, rfl⟩
        · exact List.mem_append_left _ (h.last tab htab)
        · obtain rfl : t₀ = t := Option.some.inj (hfound.symm.trans ht)
          exact List.mem_append_right _ (List.mem_singleton_self _)
      · intro tab htab e he
        rcases mem_updateTab htab with htab | ⟨t, ht, rfl⟩
        · exact h.stored tab htab e he
        · rw [hexecution] at he
          rw [hid]
          exact h.stored t (findTab_some ht).1 e he

/-- A new tab has an id that no other tab has, and its first request is sent. -/
theorem openSend (h : Inv s) {start : RunStart} (hfresh : s.fresh start.requestId = true) :
    Inv ({ s with results := s.results.opened start }.executeResultWindow
      (resultId s.results.nextResultNumber)) := by
  have hnew : ∀ tab ∈ s.results.tabs, tab.id ≠ resultId s.results.nextResultNumber := by
    intro tab htab hid
    obtain ⟨n, hn, hnumber⟩ := h.numbered tab htab
    rw [resultId_injective (hnumber.symm.trans hid)] at hn
    exact Nat.lt_irrefl _ hn
  have hfound : findTab (s.results.opened start).tabs (resultId s.results.nextResultNumber) =
      some (createTab s.results.nextResultNumber start) := by
    rw [findTab, opened, List.find?_append, List.find?_eq_none.mpr, Option.none_or,
      List.find?_cons_of_pos]
    · exact decide_eq_true rfl
    · intro tab htab
      simpa using hnew tab htab
  unfold executeResultWindow
  rw [hfound]
  constructor
  · rw [opened, List.map_append, List.map_singleton, List.nodup_append]
    refine ⟨h.ids, List.nodup_singleton _, ?_⟩
    intro id hid id' hid'
    obtain ⟨tab, htab, rfl⟩ := List.mem_map.mp hid
    rw [List.mem_singleton.mp hid']
    exact hnew tab htab
  · intro tab htab
    rcases List.mem_append.mp htab with htab | htab
    · obtain ⟨n, hn, hnumber⟩ := h.numbered tab htab
      exact ⟨n, Nat.lt_succ_of_lt hn, hnumber⟩
    · rw [List.mem_singleton.mp htab]
      exact ⟨_, Nat.lt_succ_self _, rfl⟩
  · intro id hactive
    cases hactive
    exact ⟨_, List.mem_append_right _ (List.mem_singleton_self _), rfl⟩
  · exact once_append h.once (fresh_iff.mp hfresh)
  · intro tab htab
    rcases List.mem_append.mp htab with htab | htab
    · exact List.mem_append_left _ (h.last tab htab)
    · rw [List.mem_singleton.mp htab]
      exact List.mem_append_right _ (List.mem_singleton_self _)
  · intro tab htab e he
    rcases List.mem_append.mp htab with htab | htab
    · exact h.stored tab htab e he
    · rw [List.mem_singleton.mp htab] at he
      cases he

/-- Closing the focused tab focuses a tab that is left, if there is one. -/
theorem close (h : Inv s) (id : Text) :
    Inv { s with results := s.results.resultClosed id } := by
  unfold resultClosed
  dsimp only
  split
  · exact h
  · next hindex =>
      have hsub : ∀ tab ∈ s.results.tabs.eraseIdx (s.results.tabs.findIdx fun tab => tab.id = id),
          tab ∈ s.results.tabs := fun tab htab => List.mem_of_mem_eraseIdx htab
      refine ⟨h.ids.sublist ((List.eraseIdx_sublist ..).map _),
        fun tab htab => h.numbered tab (hsub tab htab), ?_, h.once,
        fun tab htab => h.last tab (hsub tab htab), fun tab htab => h.stored tab (hsub tab htab)⟩
      intro active hactive
      dsimp only at hactive
      split at hactive
      · exact mem_nextActive hactive
      · next hother =>
          obtain ⟨tab, htab, rfl⟩ := h.active active hactive
          obtain ⟨i, hi⟩ := List.mem_iff_getElem?.mp htab
          refine ⟨tab, List.mem_eraseIdx_iff_getElem?.mpr ⟨i, ?_, hi⟩, rfl⟩
          rintro rfl
          -- the tab at the index has the closed id
          have hlt := List.findIdx_lt_length_of_exists (p := fun tab : ResultTab => tab.id = id)
            (List.findIdx_lt_length.mp (Nat.lt_of_le_of_ne List.findIdx_le_length hindex))
          have hclosed := List.findIdx_getElem (w := hlt)
          rw [List.getElem?_eq_getElem hlt, Option.some.injEq] at hi
          rw [hi] at hclosed
          exact hother (hactive.trans (congrArg some (of_decide_eq_true hclosed)))

theorem runQuery (h : Inv s) {start : RunStart} (hfresh : s.fresh start.requestId = true) :
    Inv (s.runQuery start) := by
  unfold Workbench.runQuery
  rcases runStarted_cases s.results start with hopened | ⟨active, id, hid, hfound, _, hreused⟩
  · rw [hopened]
    exact h.openSend hfresh
  · obtain ⟨_, rfl⟩ := findTab_some hfound
    have hactive : (s.results.update active.id (restarted start)).activeResultId =
        some active.id := hid
    rw [hreused]
    simp only [hactive]
    exact h.resend (f := restarted start) (fun _ => rfl) (fun _ => rfl) (fun _ => rfl) hfresh

theorem requestPage (h : Inv s) {request : PageRequest}
    (hfresh : s.fresh request.requestId = true) : Inv (s.requestPage request) :=
  h.resend (fun _ => rfl) (fun _ => rfl) (fun _ => rfl) hfresh

theorem fetchPage (h : Inv s) {requestId : Text} (hfresh : s.fresh requestId = true)
    (pager : QueryPager) : Inv (s.fetchPage requestId pager) := by
  unfold Workbench.fetchPage
  split
  · split
    · exact h.requestPage hfresh
    · exact h
  · exact h

/-- An outcome is stored for the request the tab is waiting for. -/
theorem executionFinished (h : Inv s) (finish : ExecutionFinish) :
    Inv (s.executionFinished finish) := by
  refine h.update (fun t => ?_) (fun a ha => List.mem_append_left _ ha) ?_
  · rw [answered]
    split <;> rfl
  · intro t ht e he
    obtain ⟨hmem, hid⟩ := findTab_some ht
    rw [answered] at he
    split at he
    · next hcurrent =>
        cases he
        refine ⟨_, List.mem_append_right _ (List.mem_singleton_self _), hid.symm, rfl, ?_⟩
        rw [ht, Option.map_some, hcurrent]
    · obtain ⟨a, ha, haccepted⟩ := h.stored t hmem e he
      exact ⟨a, List.mem_append_left _ ha, haccepted⟩

theorem step (h : Inv s) {ev : Event} {s' : Workbench} (hstep : s.step ev = some s') : Inv s' := by
  cases ev with
  | runQuery start =>
      obtain ⟨hfresh, ⟨⟩⟩ := Option.ite_none_right_eq_some.mp hstep
      exact h.runQuery hfresh
  | requestPage request =>
      obtain ⟨hfresh, ⟨⟩⟩ := Option.ite_none_right_eq_some.mp hstep
      exact h.requestPage hfresh
  | fetchPage requestId pager =>
      obtain ⟨hfresh, ⟨⟩⟩ := Option.ite_none_right_eq_some.mp hstep
      exact h.fetchPage hfresh pager
  | retryQuery requestId =>
      obtain ⟨hfresh, ⟨⟩⟩ := Option.ite_none_right_eq_some.mp hstep
      unfold Workbench.retryQuery
      split
      · exact h.fetchPage hfresh _
      · exact h
  | executionFinished finish =>
      cases hstep
      exact h.executionFinished finish
  | resultActivated id =>
      cases hstep
      unfold resultActivated
      split
      · next hfound =>
          refine ⟨h.ids, h.numbered, fun active hactive => ?_, h.once, h.last, h.stored⟩
          cases hactive
          obtain ⟨tab, htab⟩ := Option.isSome_iff_exists.mp hfound
          exact ⟨tab, findTab_some htab⟩
      · exact h
  | resultClosed id =>
      cases hstep
      exact h.close id
  | pinToggled id =>
      cases hstep
      exact h.update (fun _ => rfl) (fun _ ha => ha) fun t ht => h.stored t (findTab_some ht).1
  | panelSelected panel =>
      cases hstep
      exact ⟨h.ids, h.numbered, h.active, h.once, h.last, h.stored⟩
  | viewPatched patch =>
      cases hstep
      exact h.update (fun _ => rfl) (fun _ ha => ha) fun t ht => h.stored t (findTab_some ht).1
  | profilesChanged profiles =>
      cases hstep
      exact ⟨h.ids, h.numbered, h.active, h.once, h.last, h.stored⟩

/-! ### Pinned tabs -/

/-- A step whose every tab is an old one, or a changed one that is not pinned or keeps its query,
or a new one, changes no pinned query. -/
theorem keeps_of_subset (h : Inv s) {s' : Workbench}
    (hsub : ∀ tab ∈ s'.results.tabs, tab ∈ s.results.tabs ∨
      (∃ t ∈ s.results.tabs, t.id = tab.id ∧ (t.pinned = true → tab.query = t.query)) ∨
      tab.id = resultId s.results.nextResultNumber) : KeepsPinned s s' := by
  intro tab htab hpinned tab' htab' hid
  rcases hsub tab' htab' with hold | ⟨t, ht, htid, hquery⟩ | hnew
  · rw [h.eq_of_id hold htab hid]
  · obtain rfl := h.eq_of_id ht htab (htid.trans hid)
    exact hquery hpinned
  · obtain ⟨n, hn, hnumber⟩ := h.numbered tab htab
    rw [resultId_injective (hnumber.symm.trans (hid.symm.trans hnew))] at hn
    exact absurd hn (Nat.lt_irrefl _)

theorem keeps_update (h : Inv s) {id : Text} {f : ResultTab → ResultTab} {s' : Workbench}
    (hs' : s'.results.tabs = updateTab id f s.results.tabs) (hid : ∀ t, (f t).id = t.id)
    (hquery : ∀ t, findTab s.results.tabs id = some t → t.pinned = true →
      (f t).query = t.query) : KeepsPinned s s' := by
  apply h.keeps_of_subset
  rw [hs']
  intro tab htab
  rcases mem_updateTab htab with htab | ⟨t, ht, rfl⟩
  · exact Or.inl htab
  · exact Or.inr (Or.inl ⟨t, (findTab_some ht).1, (hid t).symm, hquery t ht⟩)

theorem tabs_executeResultWindow (s : Workbench) (id : Text) :
    (s.executeResultWindow id).results = s.results := by
  unfold executeResultWindow
  split <;> rfl

theorem keeps_requestPage (h : Inv s) (request : PageRequest) :
    KeepsPinned s (s.requestPage request) := by
  have htabs : (s.requestPage request).results.tabs =
      updateTab request.resultId (paged request) s.results.tabs := by
    rw [Workbench.requestPage, tabs_executeResultWindow]
    rfl
  exact h.keeps_update htabs (fun _ => rfl) fun _ _ _ => rfl

theorem keeps_fetchPage (h : Inv s) (requestId : Text) (pager : QueryPager) :
    KeepsPinned s (s.fetchPage requestId pager) := by
  unfold Workbench.fetchPage
  split
  · split
    · exact h.keeps_requestPage _
    · exact h.keeps_of_subset fun tab htab => Or.inl htab
  · exact h.keeps_of_subset fun tab htab => Or.inl htab

/-- A run takes over the focused tab only when it is not pinned. -/
theorem keeps_runQuery (h : Inv s) (start : RunStart) : KeepsPinned s (s.runQuery start) := by
  have htabs : (s.runQuery start).results.tabs = (s.results.runStarted start).tabs := by
    unfold Workbench.runQuery
    dsimp only
    split
    · rw [tabs_executeResultWindow]
    · rfl
  rcases runStarted_cases s.results start with hopened | ⟨active, id, _, hfound, hpinned, hreused⟩
  · rw [hopened] at htabs
    apply h.keeps_of_subset
    rw [htabs]
    intro tab htab
    rcases List.mem_append.mp htab with htab | htab
    · exact Or.inl htab
    · rw [List.mem_singleton.mp htab]
      exact Or.inr (Or.inr rfl)
  · rw [hreused] at htabs
    refine h.keeps_update htabs (fun _ => rfl) fun t ht htpinned => ?_
    obtain ⟨hmem, hid⟩ := findTab_some ht
    obtain rfl := h.eq_of_id hmem (findTab_some hfound).1 hid
    rw [hpinned] at htpinned
    cases htpinned

theorem keepsPinned_step (h : Inv s) {ev : Event} {s' : Workbench} (hstep : s.step ev = some s') :
    KeepsPinned s s' := by
  cases ev with
  | runQuery start =>
      obtain ⟨_, ⟨⟩⟩ := Option.ite_none_right_eq_some.mp hstep
      exact h.keeps_runQuery start
  | requestPage request =>
      obtain ⟨_, ⟨⟩⟩ := Option.ite_none_right_eq_some.mp hstep
      exact h.keeps_requestPage request
  | fetchPage requestId pager =>
      obtain ⟨_, ⟨⟩⟩ := Option.ite_none_right_eq_some.mp hstep
      exact h.keeps_fetchPage requestId pager
  | retryQuery requestId =>
      obtain ⟨_, ⟨⟩⟩ := Option.ite_none_right_eq_some.mp hstep
      unfold Workbench.retryQuery
      split
      · exact h.keeps_fetchPage requestId _
      · exact h.keeps_of_subset fun tab htab => Or.inl htab
  | executionFinished finish =>
      cases hstep
      refine h.keeps_update rfl (fun t => ?_) fun t _ _ => ?_
      · rw [answered]
        split <;> rfl
      · rw [answered]
        split <;> rfl
  | resultActivated id =>
      cases hstep
      unfold resultActivated
      split <;> exact h.keeps_of_subset fun tab htab => Or.inl htab
  | resultClosed id =>
      cases hstep
      unfold resultClosed
      dsimp only
      split
      · exact h.keeps_of_subset fun tab htab => Or.inl htab
      · exact h.keeps_of_subset fun tab htab => Or.inl (List.mem_of_mem_eraseIdx htab)
  | pinToggled id =>
      cases hstep
      exact h.keeps_update rfl (fun _ => rfl) fun _ _ _ => rfl
  | panelSelected panel =>
      cases hstep
      exact h.keeps_of_subset fun tab htab => Or.inl htab
  | viewPatched patch =>
      cases hstep
      exact h.keeps_update rfl (fun _ => rfl) fun _ _ _ => rfl
  | profilesChanged profiles =>
      cases hstep
      exact h.keeps_of_subset fun tab htab => Or.inl htab

/-! ### Retry -/

theorem windowOf_eq_pager {tab : ResultTab} : tab.pager.window = windowOf tab ↔
    tab.explicitWindow = none ∨ tab.explicitWindow = some tab.pager.window := by
  unfold windowOf
  cases tab.explicitWindow with
  | none => simp
  | some window =>
      rw [Option.getD_some, Option.some.injEq]
      simp only [reduceCtorEq, false_or]
      exact eq_comm

/-- The last request of a tab is the one with the tab's request id. -/
theorem eq_last (h : Inv s) {tab : ResultTab} (htab : tab ∈ s.results.tabs) {r : Request}
    (hr : r ∈ s.sent) (hid : r.requestId = tab.requestId) : r = requestOf tab :=
  List.inj_on_of_nodup_map h.once hr (h.last tab htab) hid

/-- A retry sends the request of the tab on its pager's window. -/
theorem sent_retryQuery {tab : ResultTab} (hactive : s.results.activeTab = some tab)
    (requestId : Text) : (s.retryQuery requestId).sent =
      if tab.profileName ∈ s.profiles then
        s.sent ++ [requestOf (paged ⟨tab.id, requestId, tab.pager⟩ tab)]
      else s.sent := by
  obtain ⟨id, _, hfound⟩ := Option.bind_eq_some_iff.mp hactive
  obtain ⟨_, rfl⟩ := findTab_some hfound
  simp only [Workbench.retryQuery, Workbench.fetchPage, hactive]
  split
  · have hpaged : findTab (updateTab tab.id (paged ⟨tab.id, requestId, tab.pager⟩) s.results.tabs)
        tab.id = some (paged ⟨tab.id, requestId, tab.pager⟩ tab) := by
      rw [findTab_updateTab (f := paged _) fun _ => rfl, hfound]
      rfl
    simp only [Workbench.requestPage, executeResultWindow, pageRequested, Results.update, hpaged]
  · rfl

/-- A retry repeats the tab's last request exactly when there is a profile to send it with and the
window is the pager's. -/
theorem resends_iff (h : Inv s) {tab : ResultTab} {requestId : Text}
    (hactive : s.results.activeTab = some tab) (hfresh : s.fresh requestId = true) :
    s.Resends tab requestId ↔ tab.profileName ∈ s.profiles ∧
      (tab.explicitWindow = none ∨ tab.explicitWindow = some tab.pager.window) := by
  obtain ⟨id, _, hfound⟩ := Option.bind_eq_some_iff.mp hactive
  have htab := (findTab_some hfound).1
  rw [← windowOf_eq_pager, Resends, sent_retryQuery hactive]
  constructor
  · rintro ⟨last, hlast, hid, r, hr, hrid, _, _, hwindow⟩
    obtain rfl := h.eq_last htab hlast hid
    split at hr
    · next hprofile =>
        rcases List.mem_append.mp hr with hr | hr
        · exact absurd hrid (fresh_iff.mp hfresh r hr)
        · rw [List.mem_singleton.mp hr] at hwindow
          exact ⟨hprofile, hwindow⟩
    · exact absurd hrid (fresh_iff.mp hfresh r hr)
  · rintro ⟨hprofile, hwindow⟩
    refine ⟨requestOf tab, h.last tab htab, rfl,
      requestOf (paged ⟨tab.id, requestId, tab.pager⟩ tab), ?_, rfl, rfl, rfl, hwindow⟩
    rw [if_pos hprofile]
    exact List.mem_append_right _ (List.mem_singleton_self _)

end Inv

/-- In every state that is reached: different ids, the focus on an open tab, pinned queries kept by
every step, stored outcomes of current requests, and what a retry of the focused tab repeats. -/
theorem result_tabs {events : List Event} {s : Workbench}
    (hrun : runs Workbench.step init events = some s) :
    (s.results.tabs.map (·.id)).Nodup ∧
      (∀ id, s.results.activeResultId = some id → ∃ tab ∈ s.results.tabs, tab.id = id) ∧
      (∀ ev s', s.step ev = some s' → KeepsPinned s s') ∧
      (∀ tab ∈ s.results.tabs, ∀ e, tab.execution = some e → Accepted s.answers tab.id e) ∧
      ∀ tab requestId, s.results.activeTab = some tab → tab.status = .failed →
        s.fresh requestId = true → (s.Resends tab requestId ↔ tab.profileName ∈ s.profiles ∧
          (tab.explicitWindow = none ∨ tab.explicitWindow = some tab.pager.window)) := by
  have h : Inv s := runs_induction hrun inv_init fun _ _ _ _ hstep h => h.step hstep
  refine ⟨h.ids, h.active, fun ev s' hstep => h.keepsPinned_step hstep, h.stored, ?_⟩
  exact fun tab requestId hactive _ hfresh => h.resends_iff hactive hfresh

/-- A run in the pager's window fails, and another one opens a tab beside it, which is pinned. -/
def sampleEvents : List Event :=
  [.profilesChanged [text "local"],
    .runQuery ⟨text "SELECT 1", text "local", text "editor-1", none, text "r1"⟩,
    .executionFinished ⟨text "result-1", text "r1", ⟨text "r1", text "SELECT 1",
      .failure ⟨.transport, text "lost", false⟩⟩⟩,
    .pinToggled (text "result-1"),
    .runQuery ⟨text "SELECT 2", text "local", text "editor-1", none, text "r2"⟩,
    .resultActivated (text "result-1")]

theorem result_tabs_retry : ∃ s tab, runs Workbench.step init sampleEvents = some s ∧
    s.results.activeTab = some tab ∧ tab.pinned = true ∧ s.Resends tab (text "r3") := by
  obtain ⟨s, tab, hrun, hactive, hfailed, hpinned, hfresh, hprofile, hwindow⟩ :
      ∃ s tab, runs Workbench.step init sampleEvents = some s ∧ s.results.activeTab = some tab ∧
        tab.status = .failed ∧ tab.pinned = true ∧ s.fresh (text "r3") = true ∧
        tab.profileName ∈ s.profiles ∧ tab.explicitWindow = none :=
    ⟨_, _, rfl, rfl, rfl, rfl, rfl, by decide, rfl⟩
  obtain ⟨_, _, _, _, hretry⟩ := result_tabs hrun
  exact ⟨s, tab, hrun, hactive, hpinned,
    (hretry tab _ hactive hfailed hfresh).mpr ⟨hprofile, Or.inl hwindow⟩⟩

/-- A run with an explicit window fails; the retry sends the pager's window instead. -/
theorem retry_loses_window :
    ∃ s tab, runs Workbench.step init [.profilesChanged [text "local"],
      .runQuery ⟨text "SELECT 1", text "local", text "editor-1", some ⟨some 2, 5⟩, text "r1"⟩,
      .executionFinished ⟨text "result-1", text "r1", ⟨text "r1", text "SELECT 1",
        .failure ⟨.transport, text "lost", false⟩⟩⟩] = some s ∧
      s.results.activeTab = some tab ∧ tab.status = .failed ∧ ¬s.Resends tab (text "r2") := by
  refine ⟨_, _, rfl, rfl, rfl, ?_⟩
  rintro ⟨last, hlast, _, r, hr, hrid, _, _, hwindow⟩
  rw [List.mem_singleton.mp hlast] at hwindow
  rcases List.mem_cons.mp hr with rfl | hr
  · exact absurd hrid (by decide)
  · rw [List.mem_singleton.mp hr] at hwindow
    exact absurd hwindow (by decide)

end WireTools.ResultTabs

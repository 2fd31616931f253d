import WireTools.StreamInvariants

/-! # Steps of the two ends

What each part of a step does to the invariants: a stream is made (`Inv.accept`), subscriptions of
the client come and go (`Inv.subscribe`, `Inv.unsubscribe`, `Inv.dropAll`, `Inv.leave`), and a
connection changes its state (`Inv.socketChanged`). -/

namespace WireTools.Streams

open State

/-! ### A stream is made -/

/-- The stream for the request before `rest` is made and mapped. -/
def State.accept (s : State) (c id : ℕ) (kind : StreamTopic) (rest : List StreamFrame) : State :=
  ({ s with
    streams := Function.update s.streams s.nextStream (some (.create c id kind))
    nextStream := s.nextStream + 1 }).onConn c fun conn =>
      ({ conn.setEntry id s.nextStream with toServer := rest }).serverSend (.subscribed id)

section Accept

variable {s : State} {c id : ℕ} {topic : Text} {kind : StreamTopic} {rest : List StreamFrame}

theorem conns_accept (d : ℕ) : (s.accept c id kind rest).conns d =
    if d = c then
      ({ (s.conns d).setEntry id s.nextStream with toServer := rest }).serverSend (.subscribed id)
    else s.conns d :=
  conns_onConn _ c _ d

theorem streams_accept (k : ℕ) : (s.accept c id kind rest).streams k =
    if k = s.nextStream then some (.create c id kind) else s.streams k :=
  Function.update_apply ..

theorem link_accept (d : ℕ) : ((s.accept c id kind rest).conns d).client = (s.conns d).client ∧
    ((s.accept c id kind rest).conns d).server = (s.conns d).server ∧
    ((s.accept c id kind rest).conns d).up = (s.conns d).up := by
  rw [conns_accept]
  split
  · unfold Conn.serverSend
    split <;> exact ⟨rfl, rfl, rfl⟩
  · exact ⟨rfl, rfl, rfl⟩

theorem mem_toClient_accept {d : ℕ} {frame : StreamFrame} :
    frame ∈ ((s.accept c id kind rest).conns d).toClient ↔ frame ∈ (s.conns d).toClient ∨
      d = c ∧ (s.conns d).server = .open ∧ (s.conns d).up = true ∧ frame = .subscribed id := by
  rw [conns_accept]
  by_cases hd : d = c
  · rw [if_pos hd, Conn.mem_serverSend]
    exact or_congr Iff.rfl (and_iff_right hd).symm
  · rw [if_neg hd]
    exact ⟨Or.inl, fun h => h.resolve_right fun h => hd h.1⟩

theorem entries_accept (hmapped : (s.conns c).perConn ≠ none) (d : ℕ) :
    ((s.accept c id kind rest).conns d).entries =
      if d = c then (s.conns d).entries.filter (·.1 ≠ id) ++ [(id, s.nextStream)]
      else (s.conns d).entries := by
  rw [conns_accept]
  split
  · next hd =>
      subst hd
      obtain ⟨m, hm⟩ := Option.ne_none_iff_exists'.mp hmapped
      unfold Conn.serverSend
      split <;>
        simp only [Conn.entries, Conn.setEntry, hm, Option.map_some, Option.getD_some]
  · rfl

theorem toServer_accept (d : ℕ) : ((s.accept c id kind rest).conns d).toServer =
    if d = c then rest else (s.conns d).toServer := by
  rw [conns_accept]
  split
  · unfold Conn.serverSend
    split <;> rfl
  · rfl

theorem isOpen_accept (d : ℕ) :
    ((s.accept c id kind rest).conns d).IsOpen ↔ (s.conns d).IsOpen := by
  obtain ⟨hclient, hserver, hup⟩ := @link_accept s c id kind rest d
  rw [Conn.IsOpen, hclient, hserver, hup, Conn.IsOpen]

theorem hasError_accept {d : ℕ} (h : HasError (s.conns d).toClient) :
    HasError ((s.accept c id kind rest).conns d).toClient := by
  obtain ⟨code, message, hframe⟩ := h
  exact ⟨code, message, mem_toClient_accept.mpr (Or.inl hframe)⟩

theorem Numbered.stream_accept (h : Numbered s) {k : ℕ} {st : ServerStream}
    (hst : s.streams k = some st) : (s.accept c id kind rest).streams k = some st := by
  have hne : k ≠ s.nextStream := by
    rintro rfl
    rw [h.streams _ (Nat.le_refl _)] at hst
    cases hst
  rw [streams_accept, if_neg hne, hst]

section request
variable (hto : (s.conns c).toServer = .subscribe id topic :: rest)
include hto

theorem asked_of_head : id ∈ subscribeIds (s.conns c).toServer :=
  mem_subscribeIds.mpr ⟨topic, hto ▸ List.mem_cons_self⟩

theorem sublist_accept (d : ℕ) :
    ((s.accept c id kind rest).conns d).toServer.Sublist (s.conns d).toServer := by
  rw [toServer_accept]
  split
  · next hd =>
      rw [hd, hto]
      exact List.sublist_cons_self _ _
  · exact List.Sublist.refl _

theorem subscribeIds_accept (d : ℕ) :
    (subscribeIds ((s.accept c id kind rest).conns d).toServer).Sublist
      (subscribeIds (s.conns d).toServer) :=
  (sublist_accept hto d).filterMap _

/-- Only the request that is answered goes. -/
theorem mem_subscribeIds_accept {d i : ℕ} (hi : i ∈ subscribeIds (s.conns d).toServer) :
    d = c ∧ i = id ∨ i ∈ subscribeIds ((s.accept c id kind rest).conns d).toServer := by
  rw [toServer_accept]
  by_cases hd : d = c
  · subst hd
    rw [if_pos rfl]
    rw [hto] at hi
    exact (List.mem_cons.mp hi).imp_left fun heq => ⟨rfl, heq⟩
  · rw [if_neg hd]
    exact Or.inr hi

theorem mem_unsubscribe_accept {d i : ℕ} (hi : .unsubscribe i ∈ (s.conns d).toServer) :
    .unsubscribe i ∈ ((s.accept c id kind rest).conns d).toServer := by
  rw [toServer_accept]
  by_cases hd : d = c
  · subst hd
    rw [if_pos rfl]
    rw [hto] at hi
    exact (List.mem_cons.mp hi).resolve_left nofun
  · rw [if_neg hd]
    exact hi

theorem Numbered.unasked_accept (h : Numbered s) (d : ℕ) :
    id ∉ subscribeIds ((s.accept c id kind rest).conns d).toServer := by
  rw [toServer_accept]
  split
  · have honce := h.once c
    rw [hto] at honce
    exact (List.nodup_cons.mp honce).1
  · next hd => exact fun hmem => hd (h.apart d c id hmem (asked_of_head hto))

/-- No entry had the new id, so none is lost. -/
theorem Inv.mem_entries_accept (h : Inv s) (hmapped : (s.conns c).perConn ≠ none) {d i k : ℕ} :
    (i, k) ∈ ((s.accept c id kind rest).conns d).entries ↔
      (i, k) ∈ (s.conns d).entries ∨ d = c ∧ i = id ∧ k = s.nextStream := by
  rw [entries_accept hmapped]
  by_cases hd : d = c
  · rw [if_pos hd, List.mem_append, List.mem_filter, List.mem_singleton, Prod.mk.injEq]
    refine or_congr (and_iff_left_of_imp fun he => decide_eq_true fun heq => ?_)
      (and_iff_right hd).symm
    obtain ⟨st, hst, _, hid⟩ := h.entries d i k he
    exact h.unstarted c k st hst (hid.trans heq ▸ asked_of_head hto)
  · rw [if_neg hd]
    exact ⟨Or.inl, fun he => he.resolve_right fun hnew => hd hnew.1⟩

theorem Inv.numbered_accept (h : Inv s) : Numbered (s.accept c id kind rest) := by
  have hids := @subscribeIds_accept s c id topic kind rest hto
  constructor
  case conns =>
    intro d hle
    have habsent := h.conns d hle
    rw [conns_accept, if_neg]
    · exact habsent
    · rintro rfl
      rw [habsent] at hto
      cases hto
  case streams =>
    intro k hle
    have hle : s.nextStream + 1 ≤ k := hle
    rw [streams_accept, if_neg (by omega)]
    exact h.streams k (by omega)
  case subscriptions => exact h.subscriptions
  case started =>
    intro k st hst
    rw [streams_accept] at hst
    split at hst
    · cases hst
      exact h.bounded c id (asked_of_head hto)
    · exact h.started k st hst
  case bounded => exact fun d i hi => h.bounded d i ((hids d).subset hi)
  case once => exact fun d => (h.once d).sublist (hids d)
  case apart =>
    exact fun d e i hd he => h.apart d e i ((hids d).subset hd) ((hids e).subset he)
  case unstarted =>
    intro d k st hst
    rw [streams_accept] at hst
    split at hst
    · cases hst
      exact h.toNumbered.unasked_accept hto d
    · exact fun hmem => h.unstarted d k st hst ((hids d).subset hmem)
  case single =>
    intro k j st st' hst hst' hid
    rw [streams_accept] at hst hst'
    split at hst
    · next hk =>
        cases hst
        split at hst'
        · next hj => rw [hk, hj]
        · have hid : id = st'.id := hid
          exact absurd (hid ▸ asked_of_head hto) (h.unstarted c j st' hst')
    · split at hst'
      · cases hst'
        have hid : st.id = id := hid
        exact absurd (hid.symm ▸ asked_of_head hto) (h.unstarted c k st hst)
      · exact h.single k j st st' hst hst' hid

theorem Inv.served_accept (h : Inv s) (hmapped : (s.conns c).perConn ≠ none) :
    Served (s.accept c id kind rest) := by
  have hmem {d i k : ℕ} := @Inv.mem_entries_accept s c id topic kind rest hto h hmapped d i k
  constructor
  case entries =>
    intro d i k he
    rcases hmem.mp he with he | ⟨rfl, rfl, rfl⟩
    · obtain ⟨st, hst, hconn, hid⟩ := h.entries d i k he
      exact ⟨st, h.stream_accept hst, hconn, hid⟩
    · exact ⟨.create d i kind, by rw [streams_accept, if_pos rfl], rfl, rfl⟩
  case ended =>
    intro k st hst hactive
    rw [active, decide_eq_false_iff_not] at hactive
    rw [streams_accept] at hst
    split at hst
    · next hk =>
        cases hst
        exact absurd (hmem.mpr (Or.inr ⟨rfl, rfl, hk⟩)) hactive
    · refine h.ended k st hst ?_
      rw [active, decide_eq_false_iff_not]
      exact fun he => hactive (hmem.mpr (Or.inl he))
  case sound =>
    intro k st hst
    rw [streams_accept] at hst
    split at hst
    · cases hst
      exact ⟨fun _ => ⟨rfl, rfl⟩, rfl⟩
    · exact h.sound k st hst
  case mapped =>
    intro d ho
    rw [(link_accept d).2.1] at ho
    rw [conns_accept]
    split
    · have hsome : ((s.conns d).setEntry id s.nextStream).perConn ≠ none := by
        rw [Ne, Conn.setEntry, Option.map_eq_none_iff]
        exact h.mapped d ho
      unfold Conn.serverSend
      split <;> exact hsome
    · exact h.mapped d ho
  case sent =>
    intro d frame hframe
    rcases mem_toClient_accept.mp hframe with hframe | ⟨_, _, _, rfl⟩
    · exact (h.sent d frame hframe).later fun k st hst =>
        ⟨st, h.stream_accept hst, rfl, rfl, fun _ h => h⟩
    · exact ⟨s.nextStream, .create c id kind, by rw [streams_accept, if_pos rfl], rfl⟩

theorem Inv.held_accept (h : Inv s) : Held (s.accept c id kind rest) := by
  constructor
  case socket =>
    intro d
    rw [(link_accept d).1]
    exact h.socket d
  case empty => exact h.empty
  case silent =>
    intro d hconnecting
    rw [(link_accept d).1] at hconnecting
    have hsilent := h.silent d hconnecting
    rw [conns_accept, if_neg]
    · exact hsilent
    · rintro rfl
      rw [hsilent.1] at hto
      cases hto
  case known => exact h.known
  case pending => exact h.pending
  case gone =>
    intro d i hgone
    refine h.gone d i (hgone.imp (fun hframe => (sublist_accept hto d).subset hframe) ?_)
    rintro ⟨reason, hframe⟩
    rcases mem_toClient_accept.mp hframe with hframe | ⟨_, _, _, heq⟩
    · exact ⟨reason, hframe⟩
    · cases heq
  case taken =>
    exact fun i sub hsub => (h.taken i sub hsub).later fun k st hst =>
      ⟨st, h.stream_accept hst, rfl, rfl, fun _ h => h⟩
  case made => exact h.made

theorem Inv.linked_accept (h : Inv s) (hmapped : (s.conns c).perConn ≠ none) :
    Linked (s.accept c id kind rest) := by
  have hmem {d i k : ℕ} := @Inv.mem_entries_accept s c id topic kind rest hto h hmapped d i k
  have hasked {d i : ℕ} := @mem_subscribeIds_accept s c id topic kind rest hto d i
  constructor
  case asked =>
    exact fun d hd ho i hi =>
      h.asked d hd ((isOpen_accept d).mp ho) i ((subscribeIds_accept hto d).subset hi)
  case atServer =>
    intro d hd ho i hi
    have hopen := (isOpen_accept d).mp ho
    obtain ⟨k, he⟩ := Conn.mem_ids.mp hi
    rcases hmem.mp he with he | ⟨rfl, rfl, _⟩
    · refine (h.atServer d hd hopen i (Conn.mem_ids.mpr ⟨k, he⟩)).imp_right ?_
      exact mem_unsubscribe_accept hto
    · exact Or.inl (h.asked d hd hopen i (asked_of_head hto))
  case atClient =>
    intro d hd ho i hi
    rcases h.atClient d hd ((isOpen_accept d).mp ho) i hi with hwaits | hin | herror
    · rcases hasked hwaits with ⟨rfl, rfl⟩ | hwaits
      · exact Or.inr (Or.inl (Conn.mem_ids.mpr ⟨_, hmem.mpr (Or.inr ⟨rfl, rfl, rfl⟩)⟩))
      · exact Or.inl hwaits
    · obtain ⟨k, he⟩ := Conn.mem_ids.mp hin
      exact Or.inr (Or.inl (Conn.mem_ids.mpr ⟨k, hmem.mpr (Or.inl he)⟩))
    · exact Or.inr (Or.inr (hasError_accept herror))
  case settles =>
    intro i sub hsub hpending
    obtain ⟨d, hd, hup, hclient, hframe⟩ := h.settles i sub hsub hpending
    obtain ⟨hclient', hserver', hup'⟩ := @link_accept s c id kind rest d
    refine ⟨d, hd, hup'.trans hup, hclient'.trans hclient, ?_⟩
    rw [hserver']
    rcases hframe with ⟨hserver, hwaits⟩ | hacked | herror
    · rcases hasked hwaits with ⟨rfl, rfl⟩ | hwaits
      · refine Or.inr (Or.inl (mem_toClient_accept.mpr (Or.inr ?_)))
        exact ⟨rfl, hserver, hup, rfl⟩
      · exact Or.inl ⟨hserver, hwaits⟩
    · exact Or.inr (Or.inl (mem_toClient_accept.mpr (Or.inl hacked)))
    · exact Or.inr (Or.inr (hasError_accept herror))

end request

theorem Inv.accept (h : Inv s) (hto : (s.conns c).toServer = .subscribe id topic :: rest)
    (hmapped : (s.conns c).perConn ≠ none) : Inv (s.accept c id kind rest) where
  toNumbered := h.numbered_accept hto
  toServed := h.served_accept hto hmapped
  toHeld := h.held_accept hto
  toLinked := h.linked_accept hto hmapped

end Accept

/-! ### The client -/

namespace Inv

variable {s : State}

/-- A subscription changes; a closed one is not active, and no call waits again. -/
theorem onSubscription (h : Inv s) {id : ℕ} {f : Subscription → Subscription}
    (hf : ∀ sub, s.subscription id = some sub → ((f sub).ack = .pending → sub.ack = .pending) ∧
      (f sub).Taken s id ∧ (id ∈ s.subs → (f sub).closed = none)) :
    Inv (s.onSubscription id f) := by
  have hold : ∀ i sub', (s.onSubscription id f).subscription i = some sub' →
      ∃ sub, s.subscription i = some sub ∧ (sub'.ack = .pending → sub.ack = .pending) ∧
        sub'.Taken s i := by
    intro i sub' hi
    rw [subscription_onSubscription] at hi
    split at hi
    · next heq =>
        subst heq
        obtain ⟨sub, hsub, rfl⟩ := Option.map_eq_some_iff.mp hi
        exact ⟨sub, hsub, (hf sub hsub).1, (hf sub hsub).2.1⟩
    · exact ⟨sub', hi, fun h => h, h.taken i sub' hi⟩
  refine ⟨⟨h.conns, h.streams, ?_, h.started, h.bounded, h.once, h.apart, h.unstarted, h.single⟩,
    ⟨h.entries, h.ended, h.sound, h.mapped, h.sent⟩,
    ⟨h.socket, h.empty, h.silent, ?_, ?_, h.gone, ?_, h.made⟩,
    ⟨h.asked, h.atServer, h.atClient, ?_⟩⟩
  · intro i hle
    rw [subscription_onSubscription, h.subscriptions i hle]
    exact ite_self none
  · intro i hi
    obtain ⟨sub, hsub, hclosed⟩ := h.known i hi
    rw [subscription_onSubscription, hsub]
    split
    · next heq =>
        subst heq
        exact ⟨f sub, rfl, (hf sub hsub).2.2 hi⟩
    · exact ⟨sub, rfl, hclosed⟩
  · intro i sub' hi hpending
    obtain ⟨sub, hsub, hack, _⟩ := hold i sub' hi
    exact h.pending i sub hsub (hack hpending)
  · intro i sub' hi
    obtain ⟨_, _, _, htaken⟩ := hold i sub' hi
    exact htaken
  · intro i sub' hi hpending
    obtain ⟨sub, hsub, hack, _⟩ := hold i sub' hi
    exact h.settles i sub hsub (hack hpending)

/-- What becomes of the subscriptions when all active ones are dropped. -/
theorem subscription_dropAll (h : Inv s) {f : Subscription → Subscription}
    (htaken : ∀ id sub, sub.Taken s id → (f sub).Taken s id) {id : ℕ} {sub' : Subscription}
    (hsub : (s.dropAll f).subscription id = some sub') : sub'.Taken s id ∧
      ((∃ sub, s.subscription id = some sub ∧ sub' = f sub) ∨
        s.subscription id = some sub' ∧ id ∉ s.subs) := by
  simp only [dropAll] at hsub
  split at hsub
  · obtain ⟨sub, hold, rfl⟩ := Option.map_eq_some_iff.mp hsub
    exact ⟨htaken id sub (h.taken id sub hold), Or.inl ⟨sub, hold, rfl⟩⟩
  · next hid => exact ⟨h.taken id sub' hsub, Or.inr ⟨hsub, hid⟩⟩

theorem subscriptions_dropAll (h : Inv s) (f : Subscription → Subscription) (id : ℕ)
    (hle : s.nextId ≤ id) : (s.dropAll f).subscription id = none := by
  simp only [dropAll, h.subscriptions id hle]
  exact ite_self none

/-- An error frame arrives at a client that holds nothing the server knows. -/
theorem dropAll (h : Inv s) {f : Subscription → Subscription} (hack : ∀ sub, (f sub).ack ≠ .pending)
    (htaken : ∀ id sub, sub.Taken s id → (f sub).Taken s id) (hunknown : s.Unknown) :
    Inv (s.dropAll f) := by
  have hsettled : ∀ id sub', (s.dropAll f).subscription id = some sub' → sub'.ack ≠ .pending := by
    intro id sub' hsub hpending
    rcases (h.subscription_dropAll htaken hsub).2 with ⟨sub, _, rfl⟩ | ⟨hold, hid⟩
    · exact hack sub hpending
    · exact hid (h.pending id sub' hold hpending)
  refine ⟨⟨h.conns, h.streams, h.subscriptions_dropAll f, h.started, h.bounded, h.once, h.apart,
      h.unstarted, h.single⟩,
    ⟨h.entries, h.ended, h.sound, h.mapped, h.sent⟩,
    ⟨h.socket, fun _ => rfl, ?_, nofun, ?_, ?_, ?_, h.made⟩, ⟨?_, ?_, nofun, ?_⟩⟩
  · exact fun c hc => ⟨(h.silent c hc).1, (h.silent c hc).2.1, rfl⟩
  · exact fun id sub' hsub hpending => absurd hpending (hsettled id sub' hsub)
  · exact fun c id hgone => ⟨(h.gone c id hgone).1, List.not_mem_nil⟩
  · exact fun id sub' hsub => (h.subscription_dropAll htaken hsub).1
  · intro c hc ho id hid
    exact absurd hid (hunknown c hc id (h.asked c hc ho id hid)).2
  · intro c hc ho id hid
    rcases h.atServer c hc ho id hid with hsubs | hframe
    · exact absurd hid (hunknown c hc id hsubs).1
    · exact Or.inr hframe
  · exact fun id sub' hsub hpending => absurd hpending (hsettled id sub' hsub)

/-- The client gives up its socket, with no call waiting. -/
theorem leave (h : Inv s) {f : Subscription → Subscription} {conns : ℕ → Conn}
    (hack : ∀ sub, (f sub).ack = sub.ack)
    (htaken : ∀ id sub, sub.Taken s id → (f sub).Taken s id)
    (hsettled : ∀ id sub, s.subscription id = some sub → sub.ack ≠ .pending)
    (habsent : ∀ d, s.nextConn ≤ d → conns d = .absent)
    (hconns : ∀ d, ∃ client, conns d = { s.conns d with client := client } ∧
      client ≠ .open ∧ client ≠ .connecting) :
    Inv { s.dropAll f with ws := none, conns := conns } := by
  have hnone : ∀ id sub', (s.dropAll f).subscription id = some sub' → sub'.ack ≠ .pending := by
    intro id sub' hsub hpending
    rcases (h.subscription_dropAll htaken hsub).2 with ⟨sub, hold, rfl⟩ | ⟨hold, _⟩
    · exact hsettled id sub hold ((hack sub).symm.trans hpending)
    · exact hsettled id sub' hold hpending
  have hsame : ∀ d, (conns d).toServer = (s.conns d).toServer ∧
      (conns d).toClient = (s.conns d).toClient ∧ (conns d).perConn = (s.conns d).perConn ∧
      (conns d).server = (s.conns d).server := fun d => by
    obtain ⟨client, heq, _⟩ := hconns d
    rw [heq]
    exact ⟨rfl, rfl, rfl, rfl⟩
  have hentries : ∀ d, (conns d).entries = (s.conns d).entries := fun d => by
    rw [Conn.entries, (hsame d).2.2.1, Conn.entries]
  have hclient : ∀ d, ¬((conns d).client = .open ∨ (conns d).client = .connecting) := by
    intro d
    obtain ⟨client, heq, hopen, hconnecting⟩ := hconns d
    rw [heq, not_or]
    exact ⟨hopen, hconnecting⟩
  have hclosed : ∀ d, (none : Option ℕ) ≠ some d := fun d => (Option.some_ne_none d).symm
  constructor
  case toNumbered =>
    refine ⟨habsent, h.streams, h.subscriptions_dropAll f,
      h.started, ?_, ?_, ?_, ?_, h.single⟩
    · intro d
      rw [(hsame d).1]
      exact h.bounded d
    · intro d
      rw [(hsame d).1]
      exact h.once d
    · intro d e
      rw [(hsame d).1, (hsame e).1]
      exact h.apart d e
    · intro d
      rw [(hsame d).1]
      exact h.unstarted d
  case toServed =>
    refine ⟨?_, ?_, h.sound, ?_, ?_⟩
    · intro d
      rw [hentries]
      exact h.entries d
    · intro k st hst hactive
      rw [active, hentries] at hactive
      exact h.ended k st hst hactive
    · intro d
      rw [(hsame d).2.2.2, (hsame d).2.2.1]
      exact h.mapped d
    · intro d
      rw [(hsame d).2.1]
      exact h.sent d
  case toHeld =>
    refine ⟨fun d hd => absurd hd (hclient d), fun _ => rfl, ?_, ?_, ?_, ?_, ?_, ?_⟩
    · exact fun d hd => absurd (Or.inr hd) (hclient d)
    · exact fun id hid => absurd hid List.not_mem_nil
    · exact fun id sub' hsub hpending => absurd hpending (hnone id sub' hsub)
    · intro d id hgone
      rw [Conn.Gone, (hsame d).1, (hsame d).2.1] at hgone
      exact ⟨(h.gone d id hgone).1, List.not_mem_nil⟩
    · exact fun id sub' hsub => (h.subscription_dropAll htaken hsub).1
    · exact fun d hd => absurd hd (hclosed d)
  case toLinked =>
    exact ⟨fun d hd => absurd hd (hclosed d), fun d hd => absurd hd (hclosed d),
      fun d hd => absurd hd (hclosed d), fun id sub' hsub hpending =>
      absurd hpending (hnone id sub' hsub)⟩

end Inv

/-! ### Frames to the server -/

section Push

variable {s : State} {c : ℕ} {frame : StreamFrame}

/-- The client sends a frame on an open connection. -/
def State.push (s : State) (c : ℕ) (frame : StreamFrame) : State :=
  s.onConn c fun conn => { conn with toServer := conn.toServer ++ [frame] }

theorem conns_push (d : ℕ) : (s.push c frame).conns d =
    if d = c then { s.conns d with toServer := (s.conns d).toServer ++ [frame] }
    else s.conns d :=
  conns_onConn _ c _ d

theorem link_push (d : ℕ) : ((s.push c frame).conns d).client = (s.conns d).client ∧
    ((s.push c frame).conns d).server = (s.conns d).server ∧
    ((s.push c frame).conns d).up = (s.conns d).up ∧
    ((s.push c frame).conns d).toClient = (s.conns d).toClient ∧
    ((s.push c frame).conns d).perConn = (s.conns d).perConn := by
  rw [conns_push]
  split <;> exact ⟨rfl, rfl, rfl, rfl, rfl⟩

theorem entries_push (d : ℕ) : ((s.push c frame).conns d).entries = (s.conns d).entries := by
  rw [Conn.entries, (link_push d).2.2.2.2, Conn.entries]

theorem ids_push (d : ℕ) : ((s.push c frame).conns d).ids = (s.conns d).ids := by
  rw [Conn.ids, entries_push, Conn.ids]

theorem open_push (d : ℕ) : ((s.push c frame).conns d).IsOpen ↔ (s.conns d).IsOpen := by
  rw [Conn.IsOpen, (link_push d).1, (link_push d).2.1, (link_push d).2.2.1, Conn.IsOpen]

theorem mem_push {d : ℕ} {other : StreamFrame} :
    other ∈ ((s.push c frame).conns d).toServer ↔
      other ∈ (s.conns d).toServer ∨ d = c ∧ other = frame := by
  rw [conns_push]
  split
  · next hd => simp [hd]
  · next hd => simp [hd]

theorem mem_subscribeIds_push {d id : ℕ} :
    id ∈ subscribeIds ((s.push c frame).conns d).toServer ↔
      id ∈ subscribeIds (s.conns d).toServer ∨ d = c ∧ ∃ topic, .subscribe id topic = frame := by
  simp only [mem_subscribeIds, mem_push, exists_or]
  exact or_congr_right exists_and_left

theorem awaits_push {d id : ℕ} (h : (s.conns d).Awaits id) :
    ((s.push c frame).conns d).Awaits id := by
  obtain ⟨hclient, hserver, hup, htoClient, _⟩ := @link_push s c frame d
  rw [Conn.Awaits, hclient, hserver, hup, htoClient]
  refine ⟨h.1, h.2.1, h.2.2.imp_left fun hasked => ⟨hasked.1, ?_⟩⟩
  exact mem_subscribeIds_push.mpr (Or.inl hasked.2)

/-- An unsubscribe frame went to the server of the socket when that is open, and nowhere else. -/
structure Told (s : State) (id : ℕ) (conns : ℕ → Conn) : Prop where
  link : ∀ d, (conns d).client = (s.conns d).client ∧ (conns d).server = (s.conns d).server ∧
    (conns d).up = (s.conns d).up ∧ (conns d).toClient = (s.conns d).toClient ∧
    (conns d).perConn = (s.conns d).perConn
  absent : ∀ d, s.conns d = .absent → conns d = .absent
  asked : ∀ d, subscribeIds (conns d).toServer = subscribeIds (s.conns d).toServer
  mem : ∀ d other, other ∈ (conns d).toServer ↔ other ∈ (s.conns d).toServer ∨
    other = .unsubscribe id ∧ s.ws = some d ∧ (s.conns d).client = .open ∧ (s.conns d).up = true

theorem Told.entries {s : State} {id : ℕ} {conns : ℕ → Conn} (ht : Told s id conns) (d : ℕ) :
    (conns d).entries = (s.conns d).entries := by
  rw [Conn.entries, (ht.link d).2.2.2.2, Conn.entries]

theorem Told.isOpen {s : State} {id : ℕ} {conns : ℕ → Conn} (ht : Told s id conns) {d : ℕ} :
    (conns d).IsOpen ↔ (s.conns d).IsOpen := by
  rw [Conn.IsOpen, (ht.link d).1, (ht.link d).2.1, (ht.link d).2.2.1, Conn.IsOpen]

theorem exists_send (s : State) (id : ℕ) : ∃ conns,
    s.send (.unsubscribe id) = { s with conns := conns } ∧ Told s id conns := by
  by_cases hsends : ∃ c, s.ws = some c ∧ (s.conns c).client = .open ∧ (s.conns c).up = true
  · obtain ⟨c, hws, hclient, hup⟩ := hsends
    refine ⟨(s.push c (.unsubscribe id)).conns, ?_, ⟨fun d => link_push d, ?_, ?_, ?_⟩⟩
    · simp only [State.send, State.push, hws, onConn, Conn.clientSend,
        if_pos (And.intro hclient hup)]
    · intro d hd
      rw [conns_push, if_neg]
      · exact hd
      · rintro rfl
        rw [hd] at hclient
        cases hclient
    · intro d
      rw [conns_push]
      split
      · rw [subscribeIds_append]
        exact List.append_nil _
      · rfl
    · intro d other
      rw [mem_push, hws, Option.some.injEq]
      constructor
      · rintro (hold | ⟨rfl, heq⟩)
        · exact Or.inl hold
        · exact Or.inr ⟨heq, rfl, hclient, hup⟩
      · exact Or.imp_right fun hown => ⟨hown.2.1.symm, hown.1⟩
  · refine ⟨s.conns, ?_, ⟨fun d => ⟨rfl, rfl, rfl, rfl, rfl⟩, fun d hd => hd, fun d => rfl, ?_⟩⟩
    · cases hws : s.ws with
      | none =>
          simp only [State.send, hws]
          rw [← hws]
      | some c =>
          have hnot : ¬((s.conns c).client = .open ∧ (s.conns c).up = true) := fun hc =>
            hsends ⟨c, hws, hc⟩
          simp only [State.send, hws, onConn, Conn.clientSend, if_neg hnot,
            Function.update_eq_self]
    · exact fun d other => ⟨Or.inl, fun hor => hor.resolve_right fun hc => hsends ⟨d, hc.2⟩⟩

end Push

section asking
variable {s : State} {c : ℕ} {topic : Text}

/-- The subscription is noted, and its request goes to the open connection. -/
def State.asking (s : State) (c : ℕ) (topic : Text) : State :=
  ({ s with
      nextId := s.nextId + 1
      subs := s.nextId :: s.subs
      subscription := Function.update s.subscription s.nextId
        (some ⟨topic, .pending, none, [], []⟩) }).push c (StreamFrame.subscribe s.nextId topic)

theorem subscribe_eq_asking (hws : s.ws = some c) (ho : (s.conns c).IsOpen) :
    s.subscribe topic = s.asking c topic := by
  simp only [State.subscribe, State.asking, State.send, State.push, hws, onConn, Conn.clientSend,
    if_pos (And.intro ho.1 ho.2.2)]

theorem conns_asking : (s.asking c topic).conns = (s.push c (.subscribe s.nextId topic)).conns :=
  rfl

theorem mem_subscribeIds_asking {d id : ℕ}
    (hid : id ∈ subscribeIds ((s.asking c topic).conns d).toServer) :
    id ∈ subscribeIds (s.conns d).toServer ∨ d = c ∧ id = s.nextId := by
  refine (mem_subscribeIds_push.mp hid).imp_right fun ⟨hd, topic', heq⟩ => ⟨hd, ?_⟩
  exact (StreamFrame.subscribe.inj heq).1

theorem Numbered.unused (h : Numbered s) {d id : ℕ}
    (hid : id ∈ subscribeIds (s.conns d).toServer) : id ≠ s.nextId :=
  Nat.ne_of_lt (h.bounded _ _ hid)

theorem Held.new_id (h : Held s) (hn : Numbered s) : s.nextId ∉ s.subs := by
  intro hmem
  obtain ⟨sub, hsub, _⟩ := h.known _ hmem
  rw [hn.subscriptions _ (Nat.le_refl _)] at hsub
  cases hsub

theorem Numbered.asking (h : Numbered s) (ho : (s.conns c).IsOpen) :
    Numbered (s.asking c topic) := by
  constructor
  case conns =>
    intro d hle
    refine (conns_push d).trans ((if_neg ?_).trans (h.conns d hle))
    rintro rfl
    rw [h.conns d hle] at ho
    cases ho.1
  case streams => exact h.streams
  case subscriptions =>
    intro id hle
    have hle : s.nextId + 1 ≤ id := hle
    exact (Function.update_of_ne (by omega) ..).trans (h.subscriptions id (by omega))
  case started => exact fun k st hst => Nat.lt_succ_of_lt (h.started k st hst)
  case bounded =>
    intro d id hid
    rcases mem_subscribeIds_asking hid with hold | ⟨_, rfl⟩
    · exact Nat.lt_succ_of_lt (h.bounded d id hold)
    · exact Nat.lt_succ_self _
  case once =>
    intro d
    have hconn := @conns_push s c (.subscribe s.nextId topic) d
    split at hconn
    · have hnodup : (subscribeIds (s.conns d).toServer ++ [s.nextId]).Nodup := by
        refine List.nodup_append.mpr ⟨h.once d, List.pairwise_singleton _ _, ?_⟩
        intro id hold new hnew
        exact List.mem_singleton.mp hnew ▸ h.unused hold
      have hids : subscribeIds ((s.push c (.subscribe s.nextId topic)).conns d).toServer =
          subscribeIds (s.conns d).toServer ++ [s.nextId] := by
        rw [hconn]
        exact subscribeIds_append _ _
      exact hids.symm ▸ hnodup
    · exact hconn.symm ▸ h.once d
  case apart =>
    intro d e id hd he
    rcases mem_subscribeIds_asking hd with hd | ⟨hdc, hid⟩
    · rcases mem_subscribeIds_asking he with he | ⟨_, hid⟩
      · exact h.apart d e id hd he
      · exact absurd hid (h.unused hd)
    · rcases mem_subscribeIds_asking he with he | ⟨hec, _⟩
      · exact absurd hid (h.unused he)
      · exact hdc.trans hec.symm
  case unstarted =>
    intro d k st hst hid
    rcases mem_subscribeIds_asking hid with hold | ⟨_, hid⟩
    · exact h.unstarted d k st hst hold
    · exact Nat.ne_of_lt (h.started k st hst) hid
  case single => exact h.single

theorem Served.asking (h : Served s) : Served (s.asking c topic) := by
  constructor
  case entries =>
    intro d
    rw [conns_asking, entries_push]
    exact h.entries d
  case ended =>
    intro k st hst hactive
    refine h.ended k st hst ?_
    rw [active, ← @entries_push s c (.subscribe s.nextId topic)]
    exact hactive
  case sound => exact h.sound
  case mapped =>
    intro d hopen
    obtain ⟨_, hserver, _, _, hperConn⟩ := @link_push s c (.subscribe s.nextId topic) d
    exact hperConn.symm ▸ h.mapped d (hserver ▸ hopen)
  case sent =>
    intro d
    rw [conns_asking, (link_push d).2.2.2.1]
    exact h.sent d

theorem Held.asking (h : Held s) (hn : Numbered s) (hws : s.ws = some c)
    (ho : (s.conns c).IsOpen) : Held (s.asking c topic) := by
  constructor
  case socket =>
    intro d hclient
    exact h.socket d ((@link_push s c (.subscribe s.nextId topic) d).1 ▸ hclient)
  case empty => exact fun hnone => absurd (hws.symm.trans hnone) (Option.some_ne_none c)
  case silent =>
    intro d hclient
    have hclient : (s.conns d).client = .connecting :=
      (@link_push s c (.subscribe s.nextId topic) d).1 ▸ hclient
    have hd := Option.some.inj ((h.socket d (Or.inr hclient)).symm.trans hws)
    rw [hd, ho.1] at hclient
    cases hclient
  case known =>
    intro id hid
    rcases List.mem_cons.mp hid with rfl | hold
    · exact ⟨_, Function.update_self .., rfl⟩
    · have hne : id ≠ s.nextId := by
        rintro rfl
        exact h.new_id hn hold
      obtain ⟨sub, hsub, hclosed⟩ := h.known id hold
      exact ⟨sub, (Function.update_of_ne hne ..).trans hsub, hclosed⟩
  case pending =>
    intro id sub hsub hpending
    by_cases hid : id = s.nextId
    · exact hid ▸ List.mem_cons_self
    · exact List.mem_cons_of_mem _
        (h.pending id sub ((Function.update_of_ne hid ..).symm.trans hsub) hpending)
  case gone =>
    intro d id hgone
    have hold : (s.conns d).Gone id := by
      refine hgone.imp (fun hframe => ?_) fun hframe =>
        (@link_push s c (.subscribe s.nextId topic) d).2.2.2.1 ▸ hframe
      rcases mem_push.mp hframe with hold | ⟨_, heq⟩
      · exact hold
      · cases heq
    obtain ⟨hid, hnot⟩ := h.gone d id hold
    refine ⟨Nat.lt_succ_of_lt hid, fun hmem => ?_⟩
    rcases List.mem_cons.mp hmem with heq | hmem
    · exact Nat.ne_of_lt hid heq
    · exact hnot hmem
  case taken =>
    intro id sub hsub
    by_cases hid : id = s.nextId
    · rw [hid] at hsub
      cases (Function.update_self ..).symm.trans hsub
      exact ⟨nofun, fun _ => rfl, nofun⟩
    · exact h.taken id sub ((Function.update_of_ne hid ..).symm.trans hsub)
  case made => exact h.made

theorem Linked.asking (h : Linked s) (hws : s.ws = some c) (ho : (s.conns c).IsOpen) :
    Linked (s.asking c topic) := by
  constructor
  case asked =>
    intro d hd hopen id hid
    rcases mem_subscribeIds_asking hid with hold | ⟨_, rfl⟩
    · exact List.mem_cons_of_mem _ (h.asked d hd ((open_push d).mp hopen) id hold)
    · exact List.mem_cons_self
  case atServer =>
    intro d hd hopen id hid
    rw [conns_asking, ids_push] at hid
    exact (h.atServer d hd ((open_push d).mp hopen) id hid).imp (List.mem_cons_of_mem _)
      fun hframe => mem_push.mpr (Or.inl hframe)
  case atClient =>
    intro d hd hopen id hid
    rcases List.mem_cons.mp hid with rfl | hid
    · have hcurrent : d = c := Option.some.inj (hd.symm.trans hws)
      exact Or.inl (mem_subscribeIds_push.mpr (Or.inr ⟨hcurrent, topic, rfl⟩))
    · rw [conns_asking, ids_push, (link_push d).2.2.2.1]
      exact (h.atClient d hd ((open_push d).mp hopen) id hid).imp_left fun hold =>
        mem_subscribeIds_push.mpr (Or.inl hold)
  case settles =>
    intro id sub hsub hpending
    by_cases hid : id = s.nextId
    · obtain ⟨hclient, hserver, hup, _⟩ := @link_push s c (.subscribe s.nextId topic) c
      refine ⟨c, hws, hup.trans ho.2.2, hclient.trans ho.1, Or.inl ⟨hserver.trans ho.2.1, ?_⟩⟩
      exact mem_subscribeIds_push.mpr (Or.inr ⟨rfl, topic, hid ▸ rfl⟩)
    · obtain ⟨d, hd, hawaits⟩ :=
        h.settles id sub ((Function.update_of_ne hid ..).symm.trans hsub) hpending
      exact ⟨d, hd, awaits_push hawaits⟩

/-- A call on an open connection. -/
theorem Inv.subscribe (h : Inv s) (hws : s.ws = some c) (ho : (s.conns c).IsOpen) (topic : Text) :
    Inv (s.subscribe topic) := by
  rw [subscribe_eq_asking hws ho]
  exact ⟨h.toNumbered.asking ho, h.toServed.asking, h.toHeld.asking h.toNumbered hws ho,
    h.toLinked.asking hws ho⟩

end asking

section unsubscribe
variable {s : State} {id : ℕ} {conns : ℕ → Conn}
  (ht : Told { s with subs := s.subs.filter (· ≠ id) } id conns)

theorem mem_of_kept {i : ℕ} (hi : i ∈ s.subs.filter (· ≠ id)) : i ∈ s.subs ∧ i ≠ id :=
  ⟨List.mem_of_mem_filter hi, of_decide_eq_true (List.mem_filter.mp hi).2⟩

theorem Held.lt_nextId (h : Held s) (hn : Numbered s) (hid : id ∈ s.subs) : id < s.nextId := by
  obtain ⟨sub, hsub, _⟩ := h.known id hid
  by_contra hle
  rw [hn.subscriptions id (Nat.le_of_not_lt hle)] at hsub
  cases hsub

include ht

theorem Numbered.unsubscribed (h : Numbered s) :
    Numbered { s with subs := s.subs.filter (· ≠ id), conns := conns } := by
  refine ⟨fun d hle => ht.absent d (h.conns d hle), h.streams, h.subscriptions, h.started,
    ?_, ?_, ?_, ?_, h.single⟩
  · intro d
    rw [ht.asked]
    exact h.bounded d
  · intro d
    rw [ht.asked]
    exact h.once d
  · intro d e
    rw [ht.asked, ht.asked]
    exact h.apart d e
  · intro d
    rw [ht.asked]
    exact h.unstarted d

theorem Served.unsubscribed (h : Served s) :
    Served { s with subs := s.subs.filter (· ≠ id), conns := conns } := by
  refine ⟨?_, ?_, h.sound, ?_, ?_⟩
  · intro d
    rw [ht.entries]
    exact h.entries d
  · intro k st hst hactive
    rw [active, ht.entries] at hactive
    exact h.ended k st hst hactive
  · intro d
    rw [(ht.link d).2.1, (ht.link d).2.2.2.2]
    exact h.mapped d
  · intro d
    rw [(ht.link d).2.2.2.1]
    exact h.sent d

theorem Held.unsubscribed (h : Held s) (hn : Numbered s) {sub : Subscription}
    (hid : id ∈ s.subs) (hsub : s.subscription id = some sub) (hack : sub.ack = .resolved) :
    Held { s with subs := s.subs.filter (· ≠ id), conns := conns } := by
  constructor
  case socket =>
    intro d
    rw [(ht.link d).1]
    exact h.socket d
  case empty =>
    intro hnone
    rw [h.empty hnone] at hid
    cases hid
  case silent =>
    intro d hclient
    rw [(ht.link d).1] at hclient
    rw [(h.silent d hclient).2.2] at hid
    cases hid
  case known => exact fun i hi => h.known i (mem_of_kept hi).1
  case pending =>
    intro i other hother hpending
    refine List.mem_filter.mpr ⟨h.pending i other hother hpending, decide_eq_true fun heq => ?_⟩
    rw [heq, hsub] at hother
    cases hother
    cases hack.symm.trans hpending
  case gone =>
    intro d i hgone
    rw [Conn.Gone, (ht.link d).2.2.2.1, ht.mem] at hgone
    have hold : (s.conns d).Gone i ∨ i = id := by
      rcases hgone with (hframe | ⟨heq, _⟩) | hframe
      · exact Or.inl (Or.inl hframe)
      · exact Or.inr (StreamFrame.unsubscribe.inj heq)
      · exact Or.inl (Or.inr hframe)
    rcases hold with hgone | rfl
    · exact ⟨(h.gone d i hgone).1, fun hi => (h.gone d i hgone).2 (mem_of_kept hi).1⟩
    · exact ⟨h.lt_nextId hn hid, fun hi => (mem_of_kept hi).2 rfl⟩
  case taken => exact h.taken
  case made => exact h.made

theorem Inv.linked_unsubscribed (h : Inv s) {sub : Subscription}
    (hsub : s.subscription id = some sub) (hack : sub.ack = .resolved) :
    Linked { s with subs := s.subs.filter (· ≠ id), conns := conns } := by
  constructor
  case asked =>
    intro d hd ho i hi
    rw [ht.asked] at hi
    refine List.mem_filter.mpr ⟨h.asked d hd (ht.isOpen.mp ho) i hi, decide_eq_true ?_⟩
    -- The dropped subscription has its stream, so its request has arrived.
    rintro rfl
    obtain ⟨k, st, hst, hstream⟩ := (h.taken i sub hsub).2.2 hack
    exact h.unstarted d k st hst (hstream ▸ hi)
  case atServer =>
    intro d hd ho i hi
    have hi : i ∈ (s.conns d).ids := by
      rw [Conn.ids, ht.entries] at hi
      exact hi
    have hopen := ht.isOpen.mp ho
    rcases h.atServer d hd hopen i hi with hsubs | hframe
    · by_cases heq : i = id
      · exact Or.inr ((ht.mem d _).mpr (Or.inr ⟨heq ▸ rfl, hd, hopen.1, hopen.2.2⟩))
      · exact Or.inl (List.mem_filter.mpr ⟨hsubs, decide_eq_true heq⟩)
    · exact Or.inr ((ht.mem d _).mpr (Or.inl hframe))
  case atClient =>
    intro d hd ho i hi
    rw [ht.asked, Conn.ids, ht.entries, (ht.link d).2.2.2.1]
    exact h.atClient d hd (ht.isOpen.mp ho) i (mem_of_kept hi).1
  case settles =>
    intro i sub hsub hpending
    obtain ⟨d, hd, hawaits⟩ := h.settles i sub hsub hpending
    refine ⟨d, hd, ?_⟩
    obtain ⟨hclient, hserver, hup, htoClient, _⟩ := ht.link d
    rw [Conn.Awaits, hclient, hserver, hup, htoClient, ht.asked]
    exact hawaits

omit ht in
/-- The client drops a subscription that has been acknowledged, and tells the server if it can. -/
theorem Inv.unsubscribe (h : Inv s) {sub : Subscription} (hid : id ∈ s.subs)
    (hsub : s.subscription id = some sub) (hack : sub.ack = .resolved) :
    Inv (({ s with subs := s.subs.filter (· ≠ id) }).send (.unsubscribe id)) := by
  obtain ⟨conns, hsend, ht⟩ := exists_send { s with subs := s.subs.filter (· ≠ id) } id
  rw [hsend]
  exact ⟨h.toNumbered.unsubscribed ht, h.toServed.unsubscribed ht,
    h.toHeld.unsubscribed ht h.toNumbered hid hsub hack, h.linked_unsubscribed ht hsub hack⟩

end unsubscribe

/-! ### Sockets -/

/-- A connection changes its state, and the client may take it for its socket; frames and maps
stay as they are. -/
structure Socket (s s' : State) (c : ℕ) : Prop where
  same : s'.subs = s.subs ∧ s'.subscription = s.subscription ∧ s'.nextId = s.nextId ∧
    s'.streams = s.streams ∧ s'.nextStream = s.nextStream
  absent : ∀ d, s'.nextConn ≤ d → s'.conns d = .absent
  ws : s'.ws = s.ws ∨ s.ws = none ∧ s'.ws = some c
  made : s.nextConn ≤ s'.nextConn ∧ c < s'.nextConn
  other : ∀ d, d ≠ c → s'.conns d = s.conns d
  frames : (s'.conns c).toServer = (s.conns c).toServer ∧
    (s'.conns c).toClient = (s.conns c).toClient ∧ (s'.conns c).entries = (s.conns c).entries
  mapped : (s'.conns c).server = .open → (s'.conns c).perConn ≠ none
  socket : (s'.conns c).client = .open ∨ (s'.conns c).client = .connecting → s'.ws = some c
  silent : (s'.conns c).client = .connecting →
    (s'.conns c).toServer = [] ∧ (s'.conns c).perConn = none ∧ s.subs = []
  opens : (s'.conns c).IsOpen → s.ws = some c ∧ (s.conns c).IsOpen ∨
    (s.conns c).toServer = [] ∧ (s.conns c).entries = [] ∧ s.subs = []
  waits : ∀ id sub, s.subscription id = some sub → sub.ack = .pending → s.ws = some c →
    (s.conns c).Awaits id → (s'.conns c).Awaits id

section socket
variable {s s' : State} {c : ℕ}

namespace Socket

theorem toServer (hs : Socket s s' c) (d : ℕ) :
    (s'.conns d).toServer = (s.conns d).toServer := by
  by_cases hd : d = c
  · rw [hd, hs.frames.1]
  · rw [hs.other d hd]

theorem toClient (hs : Socket s s' c) (d : ℕ) :
    (s'.conns d).toClient = (s.conns d).toClient := by
  by_cases hd : d = c
  · rw [hd, hs.frames.2.1]
  · rw [hs.other d hd]

theorem entries (hs : Socket s s' c) (d : ℕ) : (s'.conns d).entries = (s.conns d).entries := by
  by_cases hd : d = c
  · rw [hd, hs.frames.2.2]
  · rw [hs.other d hd]

theorem ws_iff (hs : Socket s s' c) {d : ℕ} (hd : d ≠ c) : s.ws = some d ↔ s'.ws = some d := by
  rcases hs.ws with heq | ⟨hnone, hsome⟩
  · rw [heq]
  · rw [hnone, hsome, Option.some.injEq]
    exact ⟨nofun, fun heq => absurd heq.symm hd⟩

/-- An open connection was open before, or nothing has been said on it. -/
theorem opened (hs : Socket s s' c) {d : ℕ} (hd : s'.ws = some d) (ho : (s'.conns d).IsOpen) :
    s.ws = some d ∧ (s.conns d).IsOpen ∨
      (s.conns d).toServer = [] ∧ (s.conns d).entries = [] ∧ s.subs = [] := by
  by_cases hdc : d = c
  · subst hdc
    exact hs.opens ho
  · rw [hs.other d hdc] at ho
    exact Or.inl ⟨(hs.ws_iff hdc).mpr hd, ho⟩

end Socket

theorem Numbered.socketChanged (h : Numbered s) (hs : Socket s s' c) : Numbered s' := by
  obtain ⟨_, hsubscription, hnextId, hstreams, hnextStream⟩ := hs.same
  refine ⟨hs.absent, ?_, ?_, ?_, ?_, ?_, ?_, ?_, ?_⟩
  · rw [hstreams, hnextStream]
    exact h.streams
  · rw [hsubscription, hnextId]
    exact h.subscriptions
  · rw [hstreams, hnextId]
    exact h.started
  · intro d
    rw [hs.toServer, hnextId]
    exact h.bounded d
  · intro d
    rw [hs.toServer]
    exact h.once d
  · intro d e
    rw [hs.toServer, hs.toServer]
    exact h.apart d e
  · intro d
    rw [hs.toServer, hstreams]
    exact h.unstarted d
  · rw [hstreams]
    exact h.single

theorem Served.socketChanged (h : Served s) (hs : Socket s s' c) : Served s' := by
  obtain ⟨_, _, _, hstreams, _⟩ := hs.same
  refine ⟨?_, ?_, ?_, ?_, ?_⟩
  · intro d
    rw [hs.entries, hstreams]
    exact h.entries d
  · intro k st hst hactive
    rw [hstreams] at hst
    rw [active, hs.entries] at hactive
    exact h.ended k st hst hactive
  · rw [hstreams]
    exact h.sound
  · intro d ho
    by_cases hd : d = c
    · subst hd
      exact hs.mapped ho
    · rw [hs.other d hd] at ho ⊢
      exact h.mapped d ho
  · intro d frame hframe
    rw [hs.toClient] at hframe
    exact (h.sent d frame hframe).later fun k st hst =>
      ⟨st, hstreams ▸ hst, rfl, rfl, fun _ h => h⟩

theorem Held.socketChanged (h : Held s) (hs : Socket s s' c) : Held s' := by
  obtain ⟨hsubs, hsubscription, hnextId, hstreams, _⟩ := hs.same
  constructor
  case socket =>
    intro d hclient
    by_cases hd : d = c
    · subst hd
      exact hs.socket hclient
    · rw [hs.other d hd] at hclient
      exact (hs.ws_iff hd).mp (h.socket d hclient)
  case empty =>
    intro hnone
    rcases hs.ws with heq | ⟨_, hsome⟩
    · exact hsubs.trans (h.empty (heq.symm.trans hnone))
    · cases hsome.symm.trans hnone
  case silent =>
    intro d hclient
    rw [hsubs]
    by_cases hd : d = c
    · subst hd
      exact hs.silent hclient
    · rw [hs.other d hd] at hclient ⊢
      exact h.silent d hclient
  case known =>
    rw [hsubs, hsubscription]
    exact h.known
  case pending =>
    rw [hsubs, hsubscription]
    exact h.pending
  case gone =>
    intro d id hgone
    rw [Conn.Gone, hs.toServer, hs.toClient] at hgone
    rw [hsubs, hnextId]
    exact h.gone d id hgone
  case taken =>
    rw [hsubscription]
    exact fun id sub hsub => (h.taken id sub hsub).later fun k st hst =>
      ⟨st, hstreams ▸ hst, rfl, rfl, fun _ h => h⟩
  case made =>
    intro d hd
    by_cases hdc : d = c
    · exact hdc ▸ hs.made.2
    · exact Nat.lt_of_lt_of_le (h.made d ((hs.ws_iff hdc).mpr hd)) hs.made.1

theorem Linked.socketChanged (h : Linked s) (hs : Socket s s' c) : Linked s' := by
  obtain ⟨hsubs, hsubscription, _⟩ := hs.same
  constructor
  case asked =>
    intro d hd ho id hid
    rw [hs.toServer] at hid
    rw [hsubs]
    rcases hs.opened hd ho with ⟨hd, ho⟩ | ⟨hnil, _⟩
    · exact h.asked d hd ho id hid
    · rw [hnil] at hid
      cases hid
  case atServer =>
    intro d hd ho id hid
    rw [Conn.ids, hs.entries] at hid
    rw [hsubs, hs.toServer]
    rcases hs.opened hd ho with ⟨hd, ho⟩ | ⟨_, hnil, _⟩
    · exact h.atServer d hd ho id hid
    · rw [hnil] at hid
      cases hid
  case atClient =>
    intro d hd ho id hid
    rw [hsubs] at hid
    rw [hs.toServer, Conn.ids, hs.entries, hs.toClient]
    rcases hs.opened hd ho with ⟨hd, ho⟩ | ⟨_, _, hnil⟩
    · exact h.atClient d hd ho id hid
    · rw [hnil] at hid
      cases hid
  case settles =>
    intro id sub hsub hpending
    rw [hsubscription] at hsub
    obtain ⟨d, hd, hawaits⟩ := h.settles id sub hsub hpending
    have hsame : s'.ws = some d := by
      rcases hs.ws with heq | ⟨hnone, _⟩
      · exact heq.trans hd
      · cases hnone.symm.trans hd
    refine ⟨d, hsame, ?_⟩
    by_cases hdc : d = c
    · subst hdc
      exact hs.waits id sub hsub hpending hd hawaits
    · rw [hs.other d hdc]
      exact hawaits

theorem Inv.socketChanged (h : Inv s) (hs : Socket s s' c) : Inv s' :=
  ⟨h.toNumbered.socketChanged hs, h.toServed.socketChanged hs, h.toHeld.socketChanged hs,
    h.toLinked.socketChanged hs⟩

end socket

end WireTools.Streams

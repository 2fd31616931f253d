import WireTools.StreamSteps

/-! # Runs of the stream protocol

Every event of an orderly run keeps the invariants (`Inv.step`), so `streams_multiplexed`: in every
state reached calls wait for frames in flight only, subscriptions receive their own events until
they are closed, streams that are over are quiet, and both ends agree when nothing is in flight. -/

namespace WireTools.Streams

open State

/-! ### Subscriptions -/

namespace Subscription.Taken

variable {s : State} {id : ℕ} {sub : Subscription}

theorem notifyClosed (h : sub.Taken s id) (reason : ClosedReason) :
    (sub.notifyClosed reason).Taken s id := by
  unfold Subscription.notifyClosed
  split
  · exact ⟨h.1, fun _ => rfl, h.2.2⟩
  · exact h

theorem resolve (h : sub.Taken s id) (hstream : ∃ k st, s.streams k = some st ∧ st.id = id) :
    sub.resolve.Taken s id :=
  ⟨h.1, h.2.1, fun _ => hstream⟩

theorem reject (h : sub.Taken s id) (message : Text) : (sub.reject message).Taken s id := by
  refine ⟨h.1, h.2.1, fun hack => h.2.2 ?_⟩
  rw [Subscription.reject] at hack
  dsimp only at hack
  split at hack
  · cases hack
  · exact hack

theorem emitEvent (h : sub.Taken s id) {k : ℕ} {payload : Text}
    (hstream : ∃ st, s.streams k = some st ∧ st.id = id ∧ payload ∈ st.emitted) :
    (sub.emitEvent k payload).Taken s id := by
  unfold Subscription.emitEvent
  split
  · next hopen =>
      refine ⟨fun j other hmem => ?_, fun hclosed => absurd hopen hclosed, h.2.2⟩
      rcases List.mem_append.mp hmem with hold | hnew
      · exact h.1 j other hold
      · obtain ⟨rfl, rfl⟩ := Prod.mk.inj (List.mem_singleton.mp hnew)
        exact hstream
  · exact h

end Subscription.Taken

theorem ack_notifyClosed (sub : Subscription) (reason : ClosedReason) :
    (sub.notifyClosed reason).ack = sub.ack := by
  unfold Subscription.notifyClosed
  split <;> rfl

theorem ack_rejected (sub : Subscription) (message : Text) (reason : ClosedReason) :
    ((sub.reject message).notifyClosed reason).ack ≠ .pending := by
  rw [ack_notifyClosed, Subscription.reject]
  dsimp only
  split
  · exact nofun
  · next h => exact h

namespace Inv

variable {s s' : State}

theorem not_pending (h : Inv s) (hsettled : s.Settled) (id : ℕ) (sub : Subscription)
    (hsub : s.subscription id = some sub) : sub.ack ≠ .pending := fun hpending =>
  hsettled id (h.pending id sub hsub hpending) sub hsub hpending

/-! ### Events at the client -/

theorem connect (h : Inv s) : Inv s.connect := by
  unfold State.connect
  split
  · exact h
  · next hws =>
      have habsent := h.conns s.nextConn (Nat.le_refl _)
      have hself := Function.update_self s.nextConn
        (⟨.connecting, .connecting, true, [], [], none⟩ : Conn) s.conns
      refine h.socketChanged (c := s.nextConn) ⟨⟨rfl, rfl, rfl, rfl, rfl⟩, ?_, Or.inr ⟨hws, rfl⟩,
        ⟨Nat.le_succ _, Nat.lt_succ_self _⟩, fun d hd => Function.update_of_ne hd .., ?_, ?_, fun _ => rfl, ?_, ?_, ?_⟩
      · intro d hle
        have hle : s.nextConn + 1 ≤ d := hle
        exact (Function.update_of_ne (by omega) ..).trans (h.conns d (by omega))
      · dsimp only
        rw [hself, habsent]
        exact ⟨rfl, rfl, rfl⟩
      · dsimp only
        rw [hself]
        exact nofun
      · dsimp only
        rw [hself]
        exact fun _ => ⟨rfl, rfl, h.empty hws⟩
      · dsimp only
        rw [hself]
        exact fun ho => by cases ho.1
      · intro id sub _ _ hsome
        cases hws.symm.trans hsome

theorem opened (h : Inv s) {c : ℕ} (hclient : (s.conns c).client = .connecting) :
    Inv (s.onConn c fun conn =>
      { conn with
        client := .open
        server := .open
        perConn := some [] }) := by
  have hconns := s.conns_onConn c fun conn =>
    { conn with
      client := .open
      server := .open
      perConn := some [] }
  obtain ⟨hnil, hnone, hempty⟩ := h.silent c hclient
  have hentries : (s.conns c).entries = [] := by rw [Conn.entries, hnone]; rfl
  have hws := h.socket c (Or.inr hclient)
  have hmade := h.made c hws
  refine h.socketChanged (c := c) ⟨⟨rfl, rfl, rfl, rfl, rfl⟩, ?_, Or.inl rfl,
    ⟨Nat.le_refl _, hmade⟩, ?_, ?_, ?_, ?_, ?_, ?_, ?_⟩
  · intro d hle
    have hle : s.nextConn ≤ d := hle
    rw [hconns, if_neg (by omega)]
    exact h.conns d hle
  · intro d hd
    rw [hconns, if_neg hd]
  · rw [hconns, if_pos rfl, hentries]
    exact ⟨rfl, rfl, rfl⟩
  · rw [hconns, if_pos rfl]
    exact fun _ => Option.some_ne_none _
  · exact fun _ => hws
  · rw [hconns, if_pos rfl]
    rintro ⟨⟩
  · exact fun _ => Or.inr ⟨hnil, hentries, hempty⟩
  · intro id sub _ _ _ hawaits
    cases hclient.symm.trans hawaits.2.1

/-- A connection that fails or is lost while no call waits for a frame on it. -/
theorem down (h : Inv s) {c : ℕ} {client : ReadyState} (hc : c < s.nextConn)
    (hclient : client = (s.conns c).client ∨ client = .closed)
    (hsettled : s.ws = some c → ∀ id sub, s.subscription id = some sub → sub.ack = .pending →
      ¬(s.conns c).Awaits id) :
    Inv (s.onConn c fun conn =>
      { conn with
        client := client
        up := false }) := by
  have hconns := s.conns_onConn c fun conn =>
    { conn with
      client := client
      up := false }
  refine h.socketChanged (c := c) ⟨⟨rfl, rfl, rfl, rfl, rfl⟩, ?_, Or.inl rfl,
    ⟨Nat.le_refl _, hc⟩, ?_, ?_, ?_, ?_, ?_, ?_, ?_⟩
  · intro d hle
    have hle : s.nextConn ≤ d := hle
    rw [hconns, if_neg (by omega)]
    exact h.conns d hle
  · intro d hd
    rw [hconns, if_neg hd]
  · rw [hconns, if_pos rfl]
    exact ⟨rfl, rfl, rfl⟩
  · rw [hconns, if_pos rfl]
    exact h.mapped c
  · rw [hconns, if_pos rfl]
    rcases hclient with rfl | rfl
    · exact h.socket c
    · rintro (hopen | hopen) <;> cases hopen
  · rw [hconns, if_pos rfl]
    rcases hclient with rfl | rfl
    · exact h.silent c
    · exact nofun
  · rw [hconns, if_pos rfl]
    exact fun ho => absurd ho.2.2 Bool.false_ne_true
  · exact fun id sub hsub hpending hws hawaits =>
      absurd hawaits (hsettled hws id sub hsub hpending)

theorem lost (h : Inv s) {c : ℕ} (hsettled : s.ws = some c → s.Settled) :
    Inv (s.onConn c fun conn => { conn with up := false }) := by
  by_cases hc : c < s.nextConn
  · refine h.down hc (Or.inl rfl) fun hws id sub hsub hpending _ => ?_
    exact h.not_pending (hsettled hws) id sub hsub hpending
  · have hsame : s.onConn c (fun conn => { conn with up := false }) = s := by
      have heq : ({ s.conns c with up := false } : Conn) = s.conns c := by
        rw [h.conns c (Nat.le_of_not_lt hc)]
        rfl
      simp only [onConn, heq, Function.update_eq_self]
    rw [hsame]
    exact h

theorem connectFailed (h : Inv s) {c : ℕ} (hclient : (s.conns c).client = .connecting) :
    Inv (s.onConn c fun conn =>
      { conn with
        client := .closed
        up := false }) := by
  have hmade := h.made c (h.socket c (Or.inr hclient))
  refine h.down hmade (Or.inr rfl) fun _ _ _ _ _ hawaits => ?_
  cases hclient.symm.trans hawaits.2.1

theorem sendUnsubscribe (h : Inv s) {id : ℕ} {sub : Subscription}
    (hsub : s.subscription id = some sub) (hack : sub.ack = .resolved) :
    Inv (s.sendUnsubscribe id) ∧ (s.sendUnsubscribe id).subscription = s.subscription ∧
      (s.sendUnsubscribe id).streams = s.streams ∧ id ∉ (s.sendUnsubscribe id).subs := by
  unfold State.sendUnsubscribe
  split
  · next hid =>
      refine ⟨h.unsubscribe hid hsub hack, ?_⟩
      obtain ⟨conns, hsend, _⟩ := exists_send { s with subs := s.subs.filter (· ≠ id) } id
      rw [hsend]
      refine ⟨rfl, rfl, fun hmem => ?_⟩
      exact of_decide_eq_true (List.mem_filter.mp hmem).2 rfl
  · next hid => exact ⟨h, rfl, rfl, hid⟩

theorem close (h : Inv s) {id : ℕ} {sub : Subscription} (hsub : s.subscription id = some sub)
    (hack : sub.ack = .resolved) (reason : ClosedReason) : Inv (s.close id reason sub) := by
  unfold State.close
  split
  · obtain ⟨hinv, hsubscription, _, hid⟩ := h.sendUnsubscribe hsub hack
    refine hinv.onSubscription fun other hother => ⟨?_, ?_, fun hmem => absurd hmem hid⟩
    · exact fun hpending => (ack_notifyClosed other reason).symm.trans hpending
    · exact (hinv.taken id other hother).notifyClosed reason
  · exact h

/-- The client leaves its socket `c`, or has none, while no call waits. -/
theorem leaveSocket (h : Inv s) {c : ℕ} (hc : c < s.nextConn) {client : ReadyState}
    (hclient : client ≠ .open ∧ client ≠ .connecting) (hws : ∀ d, s.ws = some d → d = c)
    (hsettled : ∀ id sub, s.subscription id = some sub → sub.ack ≠ .pending) :
    Inv { s.dropAll (·.notifyClosed .serverShutdown) with
      ws := none
      conns := Function.update s.conns c { s.conns c with client := client } } := by
  refine h.leave (fun sub => ack_notifyClosed sub _) (fun id sub htaken => htaken.notifyClosed _)
    hsettled (fun d hle => ?_) fun d => ?_
  · rw [Function.update_of_ne (by omega)]
    exact h.conns d hle
  · by_cases hd : d = c
    · subst hd
      exact ⟨client, by rw [Function.update_self], hclient⟩
    · refine ⟨(s.conns d).client, by rw [Function.update_of_ne hd], ?_, ?_⟩
      · exact fun hopen => hd (hws d (h.socket d (Or.inl hopen)))
      · exact fun hopen => hd (hws d (h.socket d (Or.inr hopen)))

theorem disconnect (h : Inv s) (hsettled : s.Settled) : Inv s.disconnect := by
  cases hws : s.ws with
  | none =>
      have hsame : s.disconnect = s := by
        simp only [State.disconnect, State.dropAll, hws, h.empty hws, List.not_mem_nil, if_false]
        rw [← hws, ← h.empty hws]
      rw [hsame]
      exact h
  | some c =>
      have hsame : s.disconnect =
          { s.dropAll (·.notifyClosed .serverShutdown) with
            ws := none
            conns := Function.update s.conns c { s.conns c with client := .closing } } := by
        simp only [State.disconnect, State.dropAll, hws, onConn]
      rw [hsame]
      refine h.leaveSocket (h.made c hws) ⟨by decide, by decide⟩ (fun d hd => ?_)
        (h.not_pending hsettled)
      exact Option.some.inj (hd.symm.trans hws)

theorem clientClosed (h : Inv s) {c : ℕ} (hup : (s.conns c).up = false)
    (hclient : (s.conns c).client = .open ∨ (s.conns c).client = .closing)
    (hws : ∀ d ∈ s.ws, d = c) :
    Inv (s.onConn c fun conn => { conn with client := .closed }).onClientClose := by
  have hc : c < s.nextConn := by
    by_contra hle
    rw [h.conns c (Nat.le_of_not_lt hle)] at hclient
    rcases hclient with heq | heq <;> cases heq
  refine h.leaveSocket hc ⟨nofun, nofun⟩ hws fun id sub hsub hpending => ?_
  obtain ⟨d, hd, hawaits⟩ := h.settles id sub hsub hpending
  rw [hws d hd] at hawaits
  exact absurd (hup.symm.trans hawaits.1) Bool.false_ne_true

/-! ### Frames at the client -/

/-- The frame taken is no acknowledgement that a call waits for, and no error that the client has
not acted on. -/
theorem popClient (h : Inv s) {c : ℕ} {frame : StreamFrame} {rest : List StreamFrame}
    (hto : (s.conns c).toClient = frame :: rest)
    (hack : ∀ id sub, frame = .subscribed id → s.subscription id = some sub → sub.ack ≠ .pending)
    (herror : ∀ code message, frame = .error code message → s.subs = []) :
    Inv (s.onConn c fun conn => { conn with toClient := rest }) := by
  refine h.toClient ?_ ?_ ?_ ?_
  · intro habsent
    rw [habsent] at hto
    cases hto
  · intro other hother
    rw [hto]
    exact Or.inl (List.mem_cons_of_mem _ hother)
  · intro id sub hsub hpending hmem
    rw [hto] at hmem
    rcases List.mem_cons.mp hmem with heq | hmem
    · exact absurd hpending (hack id sub heq.symm hsub)
    · exact hmem
  · rintro hsubs ⟨code, message, hmem⟩
    rw [hto] at hmem
    rcases List.mem_cons.mp hmem with heq | hmem
    · exact absurd (herror code message heq.symm) hsubs
    · exact ⟨code, message, hmem⟩

theorem clientMessage (h : Inv s) {c : ℕ} {frame : StreamFrame} {rest : List StreamFrame}
    (hto : (s.conns c).toClient = frame :: rest)
    (hunknown : ∀ code message, frame = .error code message → s.Unknown) :
    Inv ((s.onConn c fun conn => { conn with toClient := rest }).onMessage frame) := by
  have hmem : frame ∈ (s.conns c).toClient := hto ▸ List.mem_cons_self
  have hbacked := h.sent c frame hmem
  cases frame with
  | subscribe id topic => exact h.popClient hto nofun nofun
  | unsubscribe id => exact h.popClient hto nofun nofun
  | subscribed id =>
      have hpop : ∀ m : State, m.conns = s.conns → Inv m →
          (∀ sub, m.subscription id = some sub → sub.ack ≠ .pending) →
          Inv (m.onConn c fun conn => { conn with toClient := rest }) := by
        intro m hm hinv hack
        have hto : (m.conns c).toClient = .subscribed id :: rest := by
          rw [hm]
          exact hto
        refine hinv.popClient hto ?_ nofun
        rintro i sub heq hsub
        cases heq
        exact hack sub hsub
      unfold State.onMessage
      dsimp only
      split
      · refine hpop (s.onSubscription id (·.resolve)) rfl (h.onSubscription ?_) ?_
        · intro sub hsub
          refine ⟨fun hpending => ?_, (h.taken id sub hsub).resolve hbacked, fun hid => ?_⟩
          · rw [Subscription.resolve] at hpending
            dsimp only at hpending
            split at hpending
            · cases hpending
            · exact hpending
          · obtain ⟨known, hknown, hclosed⟩ := h.known id hid
            cases hsub.symm.trans hknown
            exact hclosed
        · intro sub hsub
          rw [subscription_onSubscription, if_pos rfl] at hsub
          obtain ⟨old, _, rfl⟩ := Option.map_eq_some_iff.mp hsub
          rw [Subscription.resolve]
          dsimp only
          split
          · exact nofun
          · next hnot => exact hnot
      · next hid => exact hpop s rfl h fun sub hsub hpending => hid (h.pending id sub hsub hpending)
  | event id payload k =>
      unfold State.onMessage
      dsimp only
      split
      · have hinv : Inv (s.onSubscription id (·.emitEvent k payload)) := by
          refine h.onSubscription fun sub hsub => ⟨?_, (h.taken id sub hsub).emitEvent hbacked, ?_⟩
          · unfold Subscription.emitEvent
            split <;> exact fun hpending => hpending
          · intro hid
            obtain ⟨known, hknown, hclosed⟩ := h.known id hid
            cases hsub.symm.trans hknown
            rw [Subscription.emitEvent, if_pos hclosed]
            exact hclosed
        exact hinv.popClient hto nofun nofun
      · exact h.popClient hto nofun nofun
  | closed id reason =>
      have hid := (h.gone c id (Or.inr ⟨reason, hmem⟩)).2
      have hsame : (s.onConn c fun conn => { conn with toClient := rest }).onMessage
          (.closed id reason) = s.onConn c fun conn => { conn with toClient := rest } := if_neg hid
      rw [hsame]
      exact h.popClient hto nofun nofun
  | error code message =>
      have hinv : Inv (s.dropAll fun sub => (sub.reject message).notifyClosed .internalError) :=
        h.dropAll (fun sub => ack_rejected sub message _)
          (fun id sub htaken => (htaken.reject message).notifyClosed _)
          (hunknown code message rfl)
      exact hinv.popClient hto nofun fun _ _ _ => rfl

/-! ### Frames at the server -/

theorem onConn_onConn (s : State) (c : ℕ) (f g : Conn → Conn) :
    (s.onConn c f).onConn c g = s.onConn c fun conn => g (f conn) := by
  simp only [onConn, Function.update_self, Function.update_idem]

theorem serverSend_deleteEntry (conn : Conn) (id : ℕ) (frame : StreamFrame) :
    (conn.deleteEntry id).serverSend frame = (conn.serverSend frame).deleteEntry id := by
  by_cases hsends : conn.server = .open ∧ conn.up = true
  · have hsent : conn.serverSend frame = { conn with toClient := conn.toClient ++ [frame] } :=
      if_pos hsends
    rw [hsent]
    exact if_pos hsends
  · have hsilent : conn.serverSend frame = conn := if_neg hsends
    rw [hsilent]
    exact if_neg hsends

theorem serverSend_toServer (conn : Conn) (frame : StreamFrame) (rest : List StreamFrame) :
    ({ conn with toServer := rest } : Conn).serverSend frame =
      { conn.serverSend frame with toServer := rest } := by
  unfold Conn.serverSend
  split <;> rfl

/-- Sending and then taking a frame is taking it and then sending. -/
theorem send_pop (s : State) (c : ℕ) (frame : StreamFrame) (rest : List StreamFrame) :
    (s.onConn c fun conn => { conn with toServer := rest }).onConn c (·.serverSend frame) =
      (s.onConn c (·.serverSend frame)).onConn c fun conn => { conn with toServer := rest } := by
  rw [onConn_onConn, onConn_onConn]
  simp only [serverSend_toServer]

/-- A frame is answered with an error. -/
theorem refuse (h : Inv s) {c : ℕ} {frame : StreamFrame} {rest : List StreamFrame}
    (hto : (s.conns c).toServer = frame :: rest) (hnot : ∀ id, frame ≠ .unsubscribe id)
    (code : StreamErrorCode) (message : Text) :
    Inv ((s.onConn c fun conn => { conn with toServer := rest }).onConn c
      (·.serverSend (.error code message))) := by
  have hconns := s.conns_onConn c (·.serverSend (.error code message)) c
  rw [if_pos rfl] at hconns
  obtain ⟨hserver, hup, htoServer, _⟩ := (s.conns c).link_serverSend (.error code message)
  have hsent : Inv (s.onConn c (·.serverSend (.error code message))) :=
    h.serverSend ⟨trivial, nofun⟩
  rw [send_pop]
  refine hsent.popServer ?_ ?_ fun id heq => absurd heq (hnot id)
  · rw [hconns, htoServer, hto]
  · intro id topic _ hup' hserver'
    rw [hconns, hup] at hup'
    rw [hconns, hserver] at hserver'
    rw [hconns]
    exact ⟨code, message, Conn.mem_serverSend.mpr (Or.inr ⟨hserver', hup', rfl⟩)⟩

theorem handleSubscribe (h : Inv s) {c id : ℕ} {topic : Text} {rest : List StreamFrame}
    (hto : (s.conns c).toServer = .subscribe id topic :: rest) :
    Inv ((s.onConn c fun conn => { conn with toServer := rest }).handleSubscribe c id topic) := by
  have hconns := s.conns_onConn c (fun conn => { conn with toServer := rest }) c
  rw [if_pos rfl] at hconns
  unfold State.handleSubscribe
  rw [hconns]
  split
  · next hnone =>
      refine h.popServer hto (fun _ _ _ _ hserver => ?_) nofun
      exact absurd hnone (h.mapped c hserver)
  · next m hsome =>
      split
      · exact h.refuse hto nofun _ _
      · next kind _ =>
          have hinv : Inv (s.accept c id kind rest) := by
            refine h.accept hto fun hnone => ?_
            cases hnone.symm.trans hsome
          have hsame : ({ s.onConn c (fun conn => { conn with toServer := rest }) with
              streams := Function.update s.streams s.nextStream (some (.create c id kind))
              nextStream := s.nextStream + 1 } : State).onConn c (fun conn =>
                (conn.setEntry id s.nextStream).serverSend (.subscribed id)) =
              s.accept c id kind rest := by
            simp only [State.accept, onConn, Function.update_self, Function.update_idem,
              Conn.setEntry]
          exact hsame ▸ hinv

theorem lookup_mem {entries : List (ℕ × ℕ)} {id k : ℕ} (h : entries.lookup id = some k) :
    (id, k) ∈ entries := by
  obtain ⟨before, after, heq, _⟩ := List.lookup_eq_some_iff.mp h
  rw [heq]
  exact List.mem_append_right _ List.mem_cons_self

theorem handleUnsubscribe (h : Inv s) {c id : ℕ} {rest : List StreamFrame}
    (hto : (s.conns c).toServer = .unsubscribe id :: rest)
    (hcalm : ∀ k ∈ (s.conns c).entries.lookup id, s.Calm k) :
    Inv ((s.onConn c fun conn => { conn with toServer := rest }).handleUnsubscribe c id) := by
  have hconns := s.conns_onConn c (fun conn => { conn with toServer := rest }) c
  rw [if_pos rfl] at hconns
  have hmem : StreamFrame.unsubscribe id ∈ (s.conns c).toServer := hto ▸ List.mem_cons_self
  have hgone := h.gone c id (Or.inl hmem)
  unfold State.handleUnsubscribe
  rw [hconns]
  split
  · next hnone =>
      refine h.popServer hto nofun ?_
      rintro i heq hids
      cases heq
      obtain ⟨k, hentry⟩ := Conn.mem_ids.mp hids
      have hnot := List.lookup_eq_none_iff.mp hnone (id, k) hentry
      simp at hnot
  · next k hsome =>
      have hsome : (s.conns c).entries.lookup id = some k := hsome
      obtain ⟨st, hst, _, hid⟩ := h.entries c id k (lookup_mem hsome)
      obtain ⟨hstarting, hrunning⟩ := hcalm k hsome st hst
      have hstop : Inv (s.onStream k (·.stop)) := by
        refine h.onStream fun other hother => ?_
        cases hst.symm.trans hother
        refine ⟨⟨rfl, rfl, fun _ h => h⟩, ⟨fun hstart => ?_, (h.sound k st hst).2⟩, fun _ => ?_⟩
        · exact absurd (hstarting.symm.trans hstart) Bool.false_ne_true
        · exact ⟨hstarting, rfl, hrunning⟩
      have hdelete : Inv ((s.onStream k (·.stop)).onConn c (·.deleteEntry id)) := by
        refine hstop.deleteEntry (fun j other hother hentry => ?_) fun _ _ hmem => ?_
        · -- The entry of the id is that of the stopped stream.
          obtain ⟨st', hst', _, hid'⟩ := h.entries c id j hentry
          have hj : j = k := h.single j k st' st hst' hst (hid'.trans hid.symm)
          rw [streams_onStream, if_pos hj, hj, hst] at hother
          cases hother
          exact ⟨hstarting, rfl, hrunning⟩
        · exact absurd hmem hgone.2
      have hclosed : Inv (((s.onStream k (·.stop)).onConn c (·.deleteEntry id)).onConn c
          (·.serverSend (.closed id .clientRequested))) := by
        refine hdelete.serverSend ⟨trivial, ?_⟩
        rintro _ _ ⟨⟩
        exact hgone
      have hconns : (((s.onStream k (·.stop)).onConn c (·.deleteEntry id)).onConn c
          (·.serverSend (.closed id .clientRequested))).conns c =
            ((s.conns c).deleteEntry id).serverSend (.closed id .clientRequested) := by
        rw [conns_onConn, if_pos rfl, conns_onConn, if_pos rfl]
        rfl
      obtain ⟨_, _, htoServer, hperConn⟩ :=
        ((s.conns c).deleteEntry id).link_serverSend (.closed id .clientRequested)
      have hcommute : (s.onConn c fun conn => { conn with toServer := rest }).onStream k (·.stop) =
          (s.onStream k (·.stop)).onConn c fun conn => { conn with toServer := rest } := rfl
      have hsame : ((s.onConn c fun conn => { conn with toServer := rest }).onStream k
            (·.stop)).onConn c (fun conn =>
              (conn.deleteEntry id).serverSend (.closed id .clientRequested)) =
          (((s.onStream k (·.stop)).onConn c (·.deleteEntry id)).onConn c
            (·.serverSend (.closed id .clientRequested))).onConn c
              fun conn => { conn with toServer := rest } := by
        rw [hcommute, onConn_onConn, onConn_onConn, onConn_onConn]
        simp only [← serverSend_toServer]
        rfl
      have hto : ((((s.onStream k (·.stop)).onConn c (·.deleteEntry id)).onConn c
          (·.serverSend (.closed id .clientRequested))).conns c).toServer =
            .unsubscribe id :: rest :=
        (congrArg Conn.toServer hconns).trans (htoServer.trans hto)
      rw [hsame]
      refine hclosed.popServer hto nofun ?_
      · rintro i heq hids
        cases heq
        rw [Conn.ids, hconns, Conn.entries, hperConn] at hids
        obtain ⟨e, he, hei⟩ := List.mem_map.mp hids
        rw [← Conn.entries, Conn.entries_deleteEntry] at he
        exact of_decide_eq_true (List.mem_filter.mp he).2 hei

theorem onServerMessage (h : Inv s) {c : ℕ} {frame : StreamFrame} {rest : List StreamFrame}
    (hto : (s.conns c).toServer = frame :: rest)
    (hcalm : ∀ id, frame = .unsubscribe id →
      ∀ k ∈ (s.conns c).entries.lookup id, s.Calm k) :
    Inv ((s.onConn c fun conn => { conn with toServer := rest }).onServerMessage c frame) := by
  cases frame with
  | subscribe id topic => exact h.handleSubscribe hto
  | unsubscribe id => exact h.handleUnsubscribe hto (hcalm id rfl)
  | subscribed id => exact h.refuse hto nofun _ _
  | event id payload k => exact h.refuse hto nofun _ _
  | closed id reason => exact h.refuse hto nofun _ _
  | error code message => exact h.refuse hto nofun _ _

/-! ### The server leaves -/

theorem quiet_stopAll {keys : List ℕ} (hcalm : ∀ k ∈ keys, s.Calm k) {k : ℕ}
    {st : ServerStream} (hk : k ∈ keys) (hst : (s.stopAll keys).streams k = some st) :
    st.Quiet := by
  simp only [State.stopAll, if_pos hk] at hst
  obtain ⟨old, hold, rfl⟩ := Option.map_eq_some_iff.mp hst
  obtain ⟨hstarting, hrunning⟩ := hcalm k hk old hold
  exact ⟨hstarting, rfl, hrunning⟩

theorem onServerClose (h : Inv s) {c : ℕ} (hup : (s.conns c).up = false)
    (hserver : (s.conns c).server = .open ∨ (s.conns c).server = .closing)
    (hcalm : ∀ entry ∈ (s.conns c).entries, s.Calm entry.2) : Inv (s.onServerClose c) := by
  have hkeys : ∀ k ∈ (s.conns c).entries.map Prod.snd, s.Calm k := by
    intro k hk
    obtain ⟨entry, hentry, rfl⟩ := List.mem_map.mp hk
    exact hcalm entry hentry
  refine (h.stopAll _ hkeys).unmap (fun d hd => ?_) fun d => ?_
  · rw [Function.update_apply]
    split
    · next heq =>
        have hd : s.conns c = .absent := heq ▸ hd
        rw [hd] at hserver
        rcases hserver with h | h <;> cases h
    · exact hd
  · rw [Function.update_apply]
    split
    · next heq =>
        subst heq
        refine Or.inr ⟨⟨.closed, nofun, rfl⟩, fun k st hst hentry => ?_, fun _ hup' => ?_⟩
        · exact quiet_stopAll hkeys (List.mem_map.mpr ⟨_, hentry, rfl⟩) hst
        · exact absurd (hup.symm.trans hup') Bool.false_ne_true
    · exact Or.inl rfl

theorem detach (h : Inv s) (hcalm : ∀ k ∈ s.allStreams, s.Calm k)
    (hasked : ∀ c ∈ s.ws, subscribeIds (s.conns c).toServer = []) : Inv s.detach := by
  refine (h.stopAll _ hcalm).unmap (fun d hd => ?_) fun d => ?_
  · have hd : s.conns d = .absent := hd
    rw [hd]
    rfl
  · refine Or.inr ⟨⟨_, ?_, rfl⟩, fun k st hst hentry => ?_, fun hws _ _ => hasked d hws⟩
    · split
      · exact nofun
      · next hnot => exact hnot
    · refine quiet_stopAll hcalm ?_ hst
      rw [allStreams, List.mem_flatMap]
      refine ⟨d, List.mem_range.mpr ?_, List.mem_map.mpr ⟨_, hentry, rfl⟩⟩
      by_contra hle
      have hentry : (st.id, k) ∈ (s.conns d).entries := hentry
      rw [h.conns d (Nat.le_of_not_lt hle)] at hentry
      cases hentry

/-! ### Streams -/

theorem emit (h : Inv s) {k : ℕ} {st : ServerStream} (hst : s.streams k = some st)
    (payload : Text) : Inv (s.emit k st payload) ∧
      (s.emit k st payload).streams k = some { st with emitted := st.emitted ++ [payload] } := by
  have hstream := s.streams_onStream k
    (fun st => { st with emitted := st.emitted ++ [payload] }) k
  rw [if_pos rfl, hst] at hstream
  have hemitted : Inv (s.onStream k fun st => { st with emitted := st.emitted ++ [payload] }) := by
    refine h.onStream fun other hother => ⟨⟨rfl, rfl, ?_⟩, h.sound k other hother,
      h.ended k other hother⟩
    exact fun old hold => List.mem_append_left _ hold
  refine ⟨hemitted.serverSend ⟨⟨_, hstream, rfl, ?_⟩, nofun⟩, hstream⟩
  exact List.mem_append_right _ List.mem_cons_self

theorem startReturns (h : Inv s) {k : ℕ} {st : ServerStream} (hst : s.streams k = some st)
    (hstarting : st.starting = true) (baseline : Option Text) :
    Inv (s.startReturns k st baseline) := by
  have hup : ∀ {m : State} {st' : ServerStream}, Inv m → m.streams k = some st' →
      st'.starting = true → Inv (m.onStream k fun st =>
        { st with
          starting := false
          live := true }) := by
    intro m st' hm hst' hstarting'
    refine hm.onStream fun other hother => ?_
    cases hst'.symm.trans hother
    refine ⟨⟨rfl, rfl, fun _ h => h⟩, ⟨nofun, (hm.sound k st' hst').2⟩, fun hactive => ?_⟩
    exact absurd ((hm.ended k st' hst' hactive).1.symm.trans hstarting') Bool.false_ne_true
  cases baseline with
  | none => exact hup h hst hstarting
  | some payload =>
      obtain ⟨hemit, hstream⟩ := h.emit hst payload
      exact hup hemit hstream hstarting

theorem startFails (h : Inv s) {k : ℕ} {st : ServerStream} (hst : s.streams k = some st)
    (hstarting : st.starting = true) (message : Text) : Inv (s.startFails k st message) := by
  have hsound := (h.sound k st hst).1 hstarting
  have hfailed : Inv (s.onStream k fun st => { st with starting := false }) := by
    refine h.onStream fun other hother => ⟨⟨rfl, rfl, fun _ h => h⟩,
      ⟨nofun, (h.sound k other hother).2⟩, fun hactive => ?_⟩
    exact ⟨rfl, (h.ended k other hother hactive).2⟩
  have htold : Inv ((s.onStream k fun st => { st with starting := false }).onConn st.conn
      (·.serverSend (.error .internal (text "Subscribe failed: " ++ message)))) :=
    hfailed.serverSend ⟨trivial, nofun⟩
  have hsame : s.startFails k st message =
      ((s.onStream k fun st => { st with starting := false }).onConn st.conn
        (·.serverSend (.error .internal (text "Subscribe failed: " ++ message)))).onConn st.conn
          (·.deleteEntry st.id) := by
    rw [State.startFails, onConn_onConn]
    simp only [serverSend_deleteEntry]
  rw [hsame]
  have hconns := (s.onStream k fun st => { st with starting := false }).conns_onConn st.conn
    (·.serverSend (.error .internal (text "Subscribe failed: " ++ message))) st.conn
  rw [if_pos rfl] at hconns
  obtain ⟨hserver, hup, _, hperConn⟩ := (s.conns st.conn).link_serverSend
    (.error .internal (text "Subscribe failed: " ++ message))
  refine htold.deleteEntry (fun j other hother hentry => ?_) fun _ ho _ => ?_
  · rw [hconns, Conn.entries] at hentry
    have hentry : (st.id, j) ∈ (s.conns st.conn).entries := by
      rw [Conn.entries, ← hperConn]
      exact hentry
    obtain ⟨st', hst', _, hid⟩ := h.entries st.conn st.id j hentry
    have hj : j = k := h.single j k st' st hst' hst hid
    have hother := (streams_onStream s k _ j).symm.trans hother
    rw [if_pos hj, hj, hst] at hother
    cases hother
    exact ⟨rfl, hsound⟩
  · rw [hconns] at ho ⊢
    refine ⟨_, _, Conn.mem_serverSend.mpr (Or.inr ⟨?_, ?_, rfl⟩)⟩
    · exact hserver ▸ ho.2.1
    · exact hup ▸ ho.2.2

theorem runStarts (h : Inv s) {k : ℕ} {st : ServerStream} (hst : s.streams k = some st)
    (hlive : st.live = true) :
    Inv (s.onStream k fun st => { st with running := st.running + 1 }) := by
  refine h.onStream fun other hother => ?_
  cases hst.symm.trans hother
  refine ⟨⟨rfl, rfl, fun _ h => h⟩, ⟨fun hstart => ?_, (h.sound k st hst).2⟩, fun hactive => ?_⟩
  · have hdead := ((h.sound k st hst).1 hstart).1
    exact absurd (hdead.symm.trans hlive) Bool.false_ne_true
  · have hdead := (h.ended k st hst hactive).2.1
    exact absurd (hdead.symm.trans hlive) Bool.false_ne_true

theorem runEnds (h : Inv s) (k : ℕ) :
    Inv (s.onStream k fun st => { st with running := st.running - 1 }) := by
  refine h.onStream fun st hst => ⟨⟨rfl, rfl, fun _ h => h⟩, ⟨fun hstart => ?_,
    (h.sound k st hst).2⟩, fun hactive => ?_⟩
  · obtain ⟨hlive, hrunning⟩ := (h.sound k st hst).1 hstart
    exact ⟨hlive, by rw [hrunning]⟩
  · obtain ⟨hstarting, hlive, hrunning⟩ := h.ended k st hst hactive
    exact ⟨hstarting, hlive, by rw [hrunning]⟩

theorem runEmits (h : Inv s) {k : ℕ} {st : ServerStream} (hst : s.streams k = some st)
    (hrunning : st.running ≠ 0) (payload : Text) : Inv (s.runEmits k st payload) := by
  have hactive : s.active k st = true := by
    by_contra hnot
    exact hrunning (h.ended k st hst (by simpa using hnot)).2.2
  obtain ⟨hemit, hstream⟩ := h.emit hst payload
  refine hemit.onStream fun other hother => ?_
  cases hstream.symm.trans hother
  have hsound := h.sound k st hst
  refine ⟨⟨rfl, rfl, fun _ h => h⟩, ⟨fun hstart => ?_, ?_⟩, fun hover => ?_⟩
  · exact absurd (hsound.1 hstart).2 hrunning
  · rw [hactive, hsound.2]
    rfl
  · exact absurd (hemit.ended k _ hstream hover).2.2 hrunning

theorem step {ev : Event} (hs : s.step ev = some s') (h : Inv s) (horderly : s.Orderly ev) :
    Inv s' := by
  cases ev with
  | connect =>
      cases hs
      exact h.connect
  | opened c =>
      obtain ⟨⟨hclient, _⟩, ⟨⟩⟩ := Option.ite_none_right_eq_some.mp hs
      exact h.opened hclient
  | connectFailed c =>
      obtain ⟨hclient, ⟨⟩⟩ := Option.ite_none_right_eq_some.mp hs
      exact h.connectFailed hclient
  | subscribe topic =>
      cases hs
      cases hws : s.ws with
      | none =>
          simp only [State.subscribe, hws]
          exact h
      | some c => exact h.subscribe hws (horderly c hws) topic
  | close id reason =>
      simp only [State.step] at hs
      split at hs
      · next sub hsub =>
          obtain ⟨hack, ⟨⟩⟩ := Option.ite_none_right_eq_some.mp hs
          exact h.close hsub hack reason
      · cases hs
  | disconnect =>
      cases hs
      exact h.disconnect horderly
  | atServer c =>
      obtain ⟨_, hs⟩ := Option.ite_none_right_eq_some.mp hs
      split at hs
      · cases hs
      · next frame rest hto =>
          cases hs
          refine h.onServerMessage hto fun id heq => ?_
          subst heq
          simp only [Orderly, hto] at horderly
          exact horderly
  | atClient c =>
      obtain ⟨_, hs⟩ := Option.ite_none_right_eq_some.mp hs
      split at hs
      · cases hs
      · next frame rest hto =>
          cases hs
          refine h.clientMessage hto fun code message heq => ?_
          subst heq
          simp only [Orderly, hto] at horderly
          exact horderly
  | lost c =>
      cases hs
      exact h.lost horderly
  | serverClosed c =>
      obtain ⟨⟨hup, hserver⟩, ⟨⟩⟩ := Option.ite_none_right_eq_some.mp hs
      exact h.onServerClose hup hserver horderly
  | clientClosed c =>
      obtain ⟨⟨hup, _, hclient⟩, ⟨⟩⟩ := Option.ite_none_right_eq_some.mp hs
      exact h.clientClosed hup hclient horderly
  | detach =>
      cases hs
      exact h.detach horderly.1 horderly.2
  | startReturns k baseline =>
      simp only [State.step] at hs
      split at hs
      · next st hst =>
          obtain ⟨hstarting, ⟨⟩⟩ := Option.ite_none_right_eq_some.mp hs
          exact h.startReturns hst hstarting baseline
      · cases hs
  | startFails k message =>
      simp only [State.step] at hs
      split at hs
      · next st hst =>
          obtain ⟨hstarting, ⟨⟩⟩ := Option.ite_none_right_eq_some.mp hs
          exact h.startFails hst hstarting message
      · cases hs
  | runStarts k =>
      simp only [State.step] at hs
      split at hs
      · next st hst =>
          obtain ⟨⟨hlive, _⟩, ⟨⟩⟩ := Option.ite_none_right_eq_some.mp hs
          exact h.runStarts hst hlive
      · cases hs
  | runEmits k payload =>
      simp only [State.step] at hs
      split at hs
      · next st hst =>
          obtain ⟨hrunning, ⟨⟩⟩ := Option.ite_none_right_eq_some.mp hs
          exact h.runEmits hst hrunning payload
      · cases hs
  | runEnds k =>
      simp only [State.step] at hs
      split at hs
      · obtain ⟨_, ⟨⟩⟩ := Option.ite_none_right_eq_some.mp hs
        exact h.runEnds k
      · cases hs

end Inv

/-- An unknown topic is refused, then two streams share the socket; one is closed, and the other
ends with the connection. -/
def shared : List Event :=
  [Event.connect, .opened 0, .subscribe (text "metrics"), .atServer 0, .atClient 0] ++
    [Event.subscribe (text "log-tail"), .subscribe (text "process-liveness"), .atServer 0,
      .startReturns 0 (text "baseline"), .atServer 0, .startReturns 1 none] ++
    [Event.runStarts 1, .runEmits 1 (text "alive"), .atClient 0, .atClient 0, .atClient 0,
      .atClient 0] ++
    [Event.close 2 .clientRequested, .atServer 0, .atClient 0, .lost 0, .serverClosed 0,
      .clientClosed 0]

end WireTools.Streams

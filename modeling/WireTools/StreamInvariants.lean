import WireTools.StreamMultiplex

/-! # Agreement of the two ends

Four invariants, each of one part of the system, are kept together:

* `Numbered`: numbers are used once, and an id is asked for on one connection, once;
* `Served`: the maps of the server and its streams; a stream that is in no map is quiet;
* `Held`: what the client holds, and that no frame drops it;
* `Linked`: on an open connection both ends differ only in what a frame in flight will settle.

`Change` is what the server may do to its maps and streams without telling, and `Frames` what may
happen to the frames in flight.  Each of the four is kept by both, and so are they together
(`Inv.change`, `Inv.frames`). -/

namespace WireTools.Streams

open State

theorem mem_subscribeIds {frames : List StreamFrame} {id : ℕ} :
    id ∈ subscribeIds frames ↔ ∃ topic, .subscribe id topic ∈ frames := by
  rw [subscribeIds, List.mem_filterMap]
  constructor
  · rintro ⟨frame, hframe, hid⟩
    cases frame <;> cases hid
    exact ⟨_, hframe⟩
  · rintro ⟨topic, hframe⟩
    exact ⟨_, hframe, rfl⟩

theorem subscribeIds_append (as bs : List StreamFrame) :
    subscribeIds (as ++ bs) = subscribeIds as ++ subscribeIds bs :=
  List.filterMap_append

def HasError (frames : List StreamFrame) : Prop :=
  ∃ code message, .error code message ∈ frames

/-! ### The invariants -/

structure Numbered (s : State) : Prop where
  conns : ∀ c, s.nextConn ≤ c → s.conns c = .absent
  streams : ∀ k, s.nextStream ≤ k → s.streams k = none
  subscriptions : ∀ id, s.nextId ≤ id → s.subscription id = none
  started : ∀ k st, s.streams k = some st → st.id < s.nextId
  bounded : ∀ c id, id ∈ subscribeIds (s.conns c).toServer → id < s.nextId
  once : ∀ c, (subscribeIds (s.conns c).toServer).Nodup
  apart : ∀ c d id, id ∈ subscribeIds (s.conns c).toServer →
    id ∈ subscribeIds (s.conns d).toServer → c = d
  unstarted : ∀ c k st, s.streams k = some st → st.id ∉ subscribeIds (s.conns c).toServer
  single : ∀ k j st st', s.streams k = some st → s.streams j = some st' → st.id = st'.id → k = j

/-- No timer, no watcher, and nothing under way. -/
def ServerStream.Quiet (st : ServerStream) : Prop :=
  st.starting = false ∧ st.live = false ∧ st.running = 0

/-- Nothing runs before the start returns, and nothing was emitted too late. -/
def ServerStream.Sound (st : ServerStream) : Prop :=
  (st.starting = true → st.live = false ∧ st.running = 0) ∧ st.late = false

/-- The stream that a frame speaks of is there. -/
def StreamFrame.Backed (s : State) : StreamFrame → Prop
  | .event id payload k => ∃ st, s.streams k = some st ∧ st.id = id ∧ payload ∈ st.emitted
  | .subscribed id => ∃ k st, s.streams k = some st ∧ st.id = id
  | _ => True

structure Served (s : State) : Prop where
  entries : ∀ c id k, (id, k) ∈ (s.conns c).entries →
    ∃ st, s.streams k = some st ∧ st.conn = c ∧ st.id = id
  ended : ∀ k st, s.streams k = some st → s.active k st = false → st.Quiet
  sound : ∀ k st, s.streams k = some st → st.Sound
  mapped : ∀ c, (s.conns c).server = .open → (s.conns c).perConn ≠ none
  sent : ∀ c, ∀ frame ∈ (s.conns c).toClient, frame.Backed s

/-- What a subscription has taken comes from streams of its id, and none came after its close; its
call has been acknowledged for a stream of its id. -/
def Subscription.Taken (s : State) (id : ℕ) (sub : Subscription) : Prop :=
  (∀ k payload, (k, payload) ∈ sub.received →
    ∃ st, s.streams k = some st ∧ st.id = id ∧ payload ∈ st.emitted) ∧
  (sub.closed ≠ none → sub.received = sub.atClose) ∧
  (sub.ack = .resolved → ∃ k st, s.streams k = some st ∧ st.id = id)

/-- A frame in flight says that the subscription is over. -/
def Conn.Gone (conn : Conn) (id : ℕ) : Prop :=
  .unsubscribe id ∈ conn.toServer ∨ ∃ reason, .closed id reason ∈ conn.toClient

structure Held (s : State) : Prop where
  socket : ∀ c, (s.conns c).client = .open ∨ (s.conns c).client = .connecting → s.ws = some c
  empty : s.ws = none → s.subs = []
  silent : ∀ c, (s.conns c).client = .connecting →
    (s.conns c).toServer = [] ∧ (s.conns c).perConn = none ∧ s.subs = []
  known : ∀ id ∈ s.subs, ∃ sub, s.subscription id = some sub ∧ sub.closed = none
  pending : ∀ id sub, s.subscription id = some sub → sub.ack = .pending → id ∈ s.subs
  gone : ∀ c id, (s.conns c).Gone id → id < s.nextId ∧ id ∉ s.subs
  taken : ∀ id sub, s.subscription id = some sub → sub.Taken s id
  made : ∀ c, s.ws = some c → c < s.nextConn

structure Linked (s : State) : Prop where
  asked : ∀ c, s.ws = some c → (s.conns c).IsOpen →
    ∀ id ∈ subscribeIds (s.conns c).toServer, id ∈ s.subs
  atServer : ∀ c, s.ws = some c → (s.conns c).IsOpen →
    ∀ id ∈ (s.conns c).ids, id ∈ s.subs ∨ .unsubscribe id ∈ (s.conns c).toServer
  atClient : ∀ c, s.ws = some c → (s.conns c).IsOpen →
    ∀ id ∈ s.subs, id ∈ subscribeIds (s.conns c).toServer ∨ id ∈ (s.conns c).ids ∨
      HasError (s.conns c).toClient
  settles : ∀ id sub, s.subscription id = some sub → sub.ack = .pending →
    ∃ c, s.ws = some c ∧ (s.conns c).Awaits id

structure Inv (s : State) : Prop extends Numbered s, Served s, Held s, Linked s

theorem inv_init : Inv .init where
  conns _ _ := rfl
  streams _ _ := rfl
  subscriptions _ _ := rfl
  started _ _ h := by cases h
  bounded _ _ h := by cases h
  once _ := List.nodup_nil
  apart _ _ _ h := by cases h
  unstarted _ _ _ h := by cases h
  single _ _ _ _ h := by cases h
  entries _ _ _ h := by cases h
  ended _ _ h := by cases h
  sound _ _ h := by cases h
  mapped _ h := by cases h
  sent _ _ h := by cases h
  socket _ h := by rcases h with h | h <;> cases h
  empty _ := rfl
  silent _ h := by cases h
  known _ h := by cases h
  pending _ _ h := by cases h
  gone _ _ h := by rcases h with h | ⟨_, h⟩ <;> cases h
  taken _ _ h := by cases h
  made _ h := by cases h
  asked _ h := by cases h
  atServer _ h := by cases h
  atClient _ h := by cases h
  settles _ _ h := by cases h

namespace Inv

variable {s s' : State}

end Inv

/-! ### Changes at the server -/

/-- The same stream later. -/
def ServerStream.Later (st st' : ServerStream) : Prop :=
  st'.conn = st.conn ∧ st'.id = st.id ∧ ∀ payload ∈ st.emitted, payload ∈ st'.emitted

/-- The server changes streams and forgets entries of its maps, and no frame moves. -/
structure Change (s s' : State) (g : ℕ → ServerStream → ServerStream) : Prop where
  same : s'.ws = s.ws ∧ s'.subs = s.subs ∧ s'.subscription = s.subscription ∧
    s'.nextId = s.nextId ∧ s'.nextConn = s.nextConn ∧ s'.nextStream = s.nextStream
  absent : ∀ c, s.conns c = .absent → s'.conns c = .absent
  link : ∀ c, (s'.conns c).client = (s.conns c).client ∧ (s'.conns c).up = (s.conns c).up ∧
    (s'.conns c).toServer = (s.conns c).toServer ∧ (s'.conns c).toClient = (s.conns c).toClient
  server : ∀ c, (s'.conns c).server = .open →
    (s.conns c).server = .open ∧ ((s.conns c).perConn ≠ none → (s'.conns c).perConn ≠ none)
  entries : ∀ c, ∀ e ∈ (s'.conns c).entries, e ∈ (s.conns c).entries
  unmapped : ∀ c, (s.conns c).perConn = none → (s'.conns c).perConn = none
  streams : ∀ k, s'.streams k = (s.streams k).map (g k)
  stream : ∀ k st, s.streams k = some st → st.Later (g k st) ∧ (g k st).Sound ∧
    (s'.active k (g k st) = false → (g k st).Quiet)
  told : ∀ c, s.ws = some c → (s'.conns c).IsOpen → ∀ id ∈ s.subs, id ∈ (s.conns c).ids →
    id ∈ (s'.conns c).ids ∨ HasError (s.conns c).toClient
  waits : ∀ c, s.ws = some c → (s.conns c).up = true → (s.conns c).server = .open →
    (s'.conns c).server = .open ∨ subscribeIds (s.conns c).toServer = []

/-- What streams have emitted stays emitted. -/
theorem Subscription.Taken.later {s s' : State} {id : ℕ} {sub : Subscription}
    (h : sub.Taken s id)
    (hstreams : ∀ k st, s.streams k = some st → ∃ st', s'.streams k = some st' ∧ st.Later st') :
    sub.Taken s' id := by
  refine ⟨fun k payload hmem => ?_, h.2.1, fun hack => ?_⟩
  · obtain ⟨st, hst, hid, hemitted⟩ := h.1 k payload hmem
    obtain ⟨st', hst', hlater⟩ := hstreams k st hst
    exact ⟨st', hst', hlater.2.1.trans hid, hlater.2.2 payload hemitted⟩
  · obtain ⟨k, st, hst, hid⟩ := h.2.2 hack
    obtain ⟨st', hst', hlater⟩ := hstreams k st hst
    exact ⟨k, st', hst', hlater.2.1.trans hid⟩

theorem StreamFrame.Backed.later {s s' : State} {frame : StreamFrame} (h : frame.Backed s)
    (hstreams : ∀ k st, s.streams k = some st → ∃ st', s'.streams k = some st' ∧ st.Later st') :
    frame.Backed s' := by
  cases frame with
  | event id payload k =>
      obtain ⟨st, hst, hid, hemitted⟩ := h
      obtain ⟨st', hst', hlater⟩ := hstreams k st hst
      exact ⟨st', hst', hlater.2.1.trans hid, hlater.2.2 payload hemitted⟩
  | subscribed id =>
      obtain ⟨k, st, hst, hid⟩ := h
      obtain ⟨st', hst', hlater⟩ := hstreams k st hst
      exact ⟨k, st', hst', hlater.2.1.trans hid⟩
  | subscribe id topic => trivial
  | unsubscribe id => trivial
  | closed id reason => trivial
  | error code message => trivial

theorem Change.later {s s' : State} {g : ℕ → ServerStream → ServerStream} (h : Change s s' g)
    (k : ℕ) (st : ServerStream) (hst : s.streams k = some st) :
    ∃ st', s'.streams k = some st' ∧ st.Later st' := by
  refine ⟨g k st, ?_, (h.stream k st hst).1⟩
  rw [h.streams, hst]
  rfl

theorem Change.earlier {s s' : State} {g : ℕ → ServerStream → ServerStream} (h : Change s s' g)
    {k : ℕ} {st' : ServerStream} (hst' : s'.streams k = some st') :
    ∃ st, s.streams k = some st ∧ st' = g k st := by
  rw [h.streams] at hst'
  obtain ⟨st, hst, rfl⟩ := Option.map_eq_some_iff.mp hst'
  exact ⟨st, hst, rfl⟩

theorem Conn.mem_ids {conn : Conn} {id : ℕ} : id ∈ conn.ids ↔ ∃ k, (id, k) ∈ conn.entries := by
  rw [Conn.ids, List.mem_map]
  constructor
  · rintro ⟨⟨i, k⟩, hmem, rfl⟩
    exact ⟨k, hmem⟩
  · rintro ⟨k, hmem⟩
    exact ⟨(id, k), hmem, rfl⟩

section change
variable {s s' : State} {g : ℕ → ServerStream → ServerStream}

theorem Change.isOpen (hc : Change s s' g) {c : ℕ} (ho : (s'.conns c).IsOpen) :
    (s.conns c).IsOpen :=
  ⟨(hc.link c).1 ▸ ho.1, (hc.server c ho.2.1).1, (hc.link c).2.1 ▸ ho.2.2⟩

theorem Numbered.change (h : Numbered s) (hc : Change s s' g) : Numbered s' := by
  obtain ⟨_, _, hsubscription, hnextId, hnextConn, hnextStream⟩ := hc.same
  have htoServer c := (hc.link c).2.2.1
  constructor
  case conns => exact fun c hle => hc.absent c (h.conns c (hnextConn ▸ hle))
  case streams =>
    intro k hle
    rw [hc.streams, h.streams k (hnextStream ▸ hle)]
    rfl
  case subscriptions =>
    rw [hnextId, hsubscription]
    exact h.subscriptions
  case started =>
    intro k st' hst'
    obtain ⟨st, hst, rfl⟩ := hc.earlier hst'
    rw [(hc.stream k st hst).1.2.1, hnextId]
    exact h.started k st hst
  case bounded =>
    intro c
    rw [htoServer, hnextId]
    exact h.bounded c
  case once =>
    intro c
    rw [htoServer]
    exact h.once c
  case apart =>
    intro c d
    rw [htoServer, htoServer]
    exact h.apart c d
  case unstarted =>
    intro c k st' hst'
    obtain ⟨st, hst, rfl⟩ := hc.earlier hst'
    rw [(hc.stream k st hst).1.2.1, htoServer]
    exact h.unstarted c k st hst
  case single =>
    intro k j st' st'' hst' hst'' hid
    obtain ⟨st₁, hst₁, rfl⟩ := hc.earlier hst'
    obtain ⟨st₂, hst₂, rfl⟩ := hc.earlier hst''
    rw [(hc.stream k st₁ hst₁).1.2.1, (hc.stream j st₂ hst₂).1.2.1] at hid
    exact h.single k j st₁ st₂ hst₁ hst₂ hid

theorem Served.change (h : Served s) (hc : Change s s' g) : Served s' := by
  have htoClient c := (hc.link c).2.2.2
  constructor
  case entries =>
    intro c id k hmem
    obtain ⟨st, hst, hconn, hid⟩ := h.entries c id k (hc.entries c _ hmem)
    obtain ⟨st', hst', hlater⟩ := hc.later k st hst
    exact ⟨st', hst', hlater.1.trans hconn, hlater.2.1.trans hid⟩
  case ended =>
    intro k st' hst'
    obtain ⟨st, hst, rfl⟩ := hc.earlier hst'
    exact (hc.stream k st hst).2.2
  case sound =>
    intro k st' hst'
    obtain ⟨st, hst, rfl⟩ := hc.earlier hst'
    exact (hc.stream k st hst).2.1
  case mapped =>
    exact fun c ho => (hc.server c ho).2 (h.mapped c (hc.server c ho).1)
  case sent =>
    intro c frame hframe
    rw [htoClient] at hframe
    exact (h.sent c frame hframe).later hc.later

theorem Held.change (h : Held s) (hc : Change s s' g) : Held s' := by
  obtain ⟨hws, hsubs, hsubscription, hnextId, hnextConn, _⟩ := hc.same
  have htoServer c := (hc.link c).2.2.1
  have htoClient c := (hc.link c).2.2.2
  constructor
  case socket =>
    intro c
    rw [(hc.link c).1, hws]
    exact h.socket c
  case empty =>
    rw [hws, hsubs]
    exact h.empty
  case silent =>
    intro c hconnecting
    rw [(hc.link c).1] at hconnecting
    obtain ⟨hnil, hnone, hempty⟩ := h.silent c hconnecting
    rw [htoServer, hsubs]
    exact ⟨hnil, hc.unmapped c hnone, hempty⟩
  case known =>
    rw [hsubs, hsubscription]
    exact h.known
  case pending =>
    rw [hsubs, hsubscription]
    exact h.pending
  case gone =>
    intro c id hgone
    rw [Conn.Gone, htoServer, htoClient] at hgone
    rw [hsubs, hnextId]
    exact h.gone c id hgone
  case taken =>
    rw [hsubscription]
    exact fun id sub hsub => (h.taken id sub hsub).later hc.later
  case made =>
    rw [hws, hnextConn]
    exact h.made

theorem Linked.change (h : Linked s) (hc : Change s s' g) : Linked s' := by
  obtain ⟨hws, hsubs, hsubscription, _⟩ := hc.same
  have htoServer c := (hc.link c).2.2.1
  have htoClient c := (hc.link c).2.2.2
  constructor
  case asked =>
    intro c hc' ho
    rw [htoServer, hsubs]
    exact h.asked c (hws ▸ hc') (hc.isOpen ho)
  case atServer =>
    intro c hc' ho id hid
    obtain ⟨k, hmem⟩ := Conn.mem_ids.mp hid
    rw [htoServer, hsubs]
    exact h.atServer c (hws ▸ hc') (hc.isOpen ho) id
      (Conn.mem_ids.mpr ⟨k, hc.entries c _ hmem⟩)
  case atClient =>
    intro c hc' ho id hid
    rw [hsubs] at hid
    rw [htoServer, htoClient]
    rcases h.atClient c (hws ▸ hc') (hc.isOpen ho) id hid with hasked | hids | herror
    · exact Or.inl hasked
    · exact Or.inr (hc.told c (hws ▸ hc') ho id hid hids)
    · exact Or.inr (Or.inr herror)
  case settles =>
    intro id sub hsub hpending
    rw [hsubscription] at hsub
    obtain ⟨c, hc', hup', hclient', hframe⟩ := h.settles id sub hsub hpending
    refine ⟨c, hws.trans hc', (hc.link c).2.1.trans hup', (hc.link c).1.trans hclient', ?_⟩
    rw [htoServer, htoClient]
    rcases hframe with ⟨hserver, hasked⟩ | hframe
    · rcases hc.waits c hc' hup' hserver with hopen | hnone
      · exact Or.inl ⟨hopen, hasked⟩
      · rw [hnone] at hasked
        cases hasked
    · exact Or.inr hframe

theorem Inv.change (h : Inv s) (hc : Change s s' g) : Inv s' :=
  ⟨h.toNumbered.change hc, h.toServed.change hc, h.toHeld.change hc, h.toLinked.change hc⟩

end change

namespace Inv

variable {s s' : State}

/-- Streams change, and the maps do not. -/
theorem streamsChanged (h : Inv s) {g : ℕ → ServerStream → ServerStream}
    {streams : ℕ → Option ServerStream} (hmap : ∀ k, streams k = (s.streams k).map (g k))
    (hg : ∀ k st, s.streams k = some st → st.Later (g k st) ∧ (g k st).Sound ∧
      (s.active k st = false → (g k st).Quiet)) : Inv { s with streams := streams } := by
  refine h.change (g := g) ⟨⟨rfl, rfl, rfl, rfl, rfl, rfl⟩, fun _ h => h,
    fun _ => ⟨rfl, rfl, rfl, rfl⟩, fun _ ho => ⟨ho, fun h => h⟩, fun _ _ h => h, fun _ h => h,
    hmap, ?_, fun _ _ _ _ _ hids => Or.inl hids, fun _ _ _ ho => Or.inl ho⟩
  intro k st hst
  obtain ⟨hlater, hsound, hover⟩ := hg k st hst
  refine ⟨hlater, hsound, fun hactive => hover ?_⟩
  rw [active, hlater.1, hlater.2.1] at hactive
  exact hactive

theorem onStream (h : Inv s) {k : ℕ} {f : ServerStream → ServerStream}
    (hf : ∀ st, s.streams k = some st → st.Later (f st) ∧ (f st).Sound ∧
      (s.active k st = false → (f st).Quiet)) : Inv (s.onStream k f) := by
  refine h.streamsChanged (g := fun j st => if j = k then f st else st) (fun j => ?_) ?_
  · rw [Function.update_apply]
    split
    · next hj => rw [hj]
    · exact Option.map_id'.symm ▸ rfl
  · intro j st hst
    split
    · next hj =>
        subst hj
        exact hf st hst
    · exact ⟨⟨rfl, rfl, fun _ h => h⟩, h.sound j st hst, h.ended j st hst⟩

theorem stopAll (h : Inv s) (keys : List ℕ) (hcalm : ∀ k ∈ keys, s.Calm k) :
    Inv (s.stopAll keys) := by
  refine h.streamsChanged (g := fun j st => if j ∈ keys then st.stop else st) (fun j => ?_) ?_
  · split
    · rfl
    · exact Option.map_id'.symm ▸ rfl
  · intro k st hst
    split
    · next hk =>
        obtain ⟨hstarting, hrunning⟩ := hcalm k hk st hst
        refine ⟨⟨rfl, rfl, fun _ h => h⟩, ⟨fun hstart => ?_, (h.sound k st hst).2⟩, fun _ => ?_⟩
        · exact absurd (hstarting.symm.trans hstart) Bool.false_ne_true
        · exact ⟨hstarting, rfl, hrunning⟩
    · exact ⟨⟨rfl, rfl, fun _ h => h⟩, h.sound k st hst, h.ended k st hst⟩

/-- The server forgets an id whose stream is quiet, unless the client relies on it and is not
told. -/
theorem deleteEntry (h : Inv s) {c id : ℕ}
    (hquiet : ∀ k st, s.streams k = some st → (id, k) ∈ (s.conns c).entries → st.Quiet)
    (htold : s.ws = some c → (s.conns c).IsOpen → id ∈ s.subs → HasError (s.conns c).toClient) :
    Inv (s.onConn c (·.deleteEntry id)) := by
  have hconns := s.conns_onConn c (·.deleteEntry id)
  have hentries := (s.conns c).entries_deleteEntry id
  refine h.change (g := fun _ st => st) ⟨⟨rfl, rfl, rfl, rfl, rfl, rfl⟩, ?_, ?_, ?_, ?_, ?_,
    fun k => Option.map_id'.symm ▸ rfl, ?_, ?_, ?_⟩
  · intro d hd
    rw [hconns, hd]
    split <;> rfl
  · intro d
    rw [hconns]
    split <;> exact ⟨rfl, rfl, rfl, rfl⟩
  · intro d ho
    rw [hconns] at ho ⊢
    split at ho
    · next hd =>
        rw [if_pos hd]
        refine ⟨ho, fun hsome => ?_⟩
        rw [Conn.deleteEntry, Ne, Option.map_eq_none_iff]
        exact hsome
    · next hd =>
        rw [if_neg hd]
        exact ⟨ho, fun h => h⟩
  · intro d e he
    rw [hconns] at he
    split at he
    · next hd =>
        subst hd
        rw [hentries] at he
        exact List.mem_of_mem_filter he
    · exact he
  · intro d hd
    rw [hconns]
    split
    · rw [Conn.deleteEntry, hd]
      rfl
    · exact hd
  · intro k st hst
    refine ⟨⟨rfl, rfl, fun _ h => h⟩, h.sound k st hst, fun hactive => ?_⟩
    by_cases hold : s.active k st = true
    · rw [active, decide_eq_true_eq] at hold
      rw [active, decide_eq_false_iff_not, hconns] at hactive
      split at hactive
      · next hd =>
          rw [hd] at hold
          rw [hd, hentries, List.mem_filter, not_and] at hactive
          have hid : st.id = id := by simpa using hactive hold
          exact hquiet k st hst (hid ▸ hold)
      · exact absurd hold hactive
    · exact h.ended k st hst (by simpa using hold)
  · intro d hd ho i hi hids
    rw [hconns] at ho ⊢
    split at ho
    · next heq =>
        subst heq
        rw [if_pos rfl]
        by_cases hid : i = id
        · subst hid
          exact Or.inr (htold hd ho hi)
        · obtain ⟨k, hmem⟩ := Conn.mem_ids.mp hids
          refine Or.inl (Conn.mem_ids.mpr ⟨k, ?_⟩)
          rw [hentries]
          exact List.mem_filter.mpr ⟨hmem, by simpa using hid⟩
    · next heq =>
        rw [if_neg heq]
        exact Or.inl hids
  · intro d _ _ ho
    rw [hconns]
    split <;> exact Or.inl ho

/-- The server gives up some connections, whose streams are quiet. -/
theorem unmap (h : Inv s) {conns : ℕ → Conn} {attached : Bool}
    (habsent : ∀ d, s.conns d = .absent → conns d = .absent)
    (hconns : ∀ d, conns d = s.conns d ∨
      (∃ server, server ≠ .open ∧
        conns d = { s.conns d with server := server, perConn := none }) ∧
      (∀ k st, s.streams k = some st → (st.id, k) ∈ (s.conns d).entries → st.Quiet) ∧
      (s.ws = some d → (s.conns d).up = true → (s.conns d).server = .open →
        subscribeIds (s.conns d).toServer = [])) :
    Inv { s with conns := conns, attached := attached } := by
  refine h.change (g := fun _ st => st) ⟨⟨rfl, rfl, rfl, rfl, rfl, rfl⟩, habsent, ?_, ?_, ?_, ?_,
    fun k => Option.map_id'.symm ▸ rfl, ?_, ?_, ?_⟩
  · intro d
    dsimp only
    rcases hconns d with heq | ⟨⟨server, _, heq⟩, _⟩
    · rw [heq]
      exact ⟨rfl, rfl, rfl, rfl⟩
    · rw [heq]
      exact ⟨rfl, rfl, rfl, rfl⟩
  · intro d ho
    dsimp only at ho ⊢
    rcases hconns d with heq | ⟨⟨server, hserver, heq⟩, _⟩
    · rw [heq] at ho ⊢
      exact ⟨ho, fun h => h⟩
    · rw [heq] at ho
      exact absurd ho hserver
  · intro d e he
    dsimp only at he
    rcases hconns d with heq | ⟨⟨server, _, heq⟩, _⟩
    · rw [heq] at he
      exact he
    · rw [heq] at he
      cases he
  · intro d hd
    dsimp only
    rcases hconns d with heq | ⟨⟨server, _, heq⟩, _⟩
    · rw [heq]
      exact hd
    · rw [heq]
  · intro k st hst
    refine ⟨⟨rfl, rfl, fun _ h => h⟩, h.sound k st hst, fun hactive => ?_⟩
    by_cases hold : s.active k st = true
    · rw [active, decide_eq_true_eq] at hold
      rcases hconns st.conn with heq | ⟨_, hquiet, _⟩
      · rw [active, decide_eq_false_iff_not] at hactive
        dsimp only at hactive
        rw [heq] at hactive
        exact absurd hold hactive
      · exact hquiet k st hst hold
    · exact h.ended k st hst (by simpa using hold)
  · intro d _ ho i _ hids
    dsimp only at ho ⊢
    rcases hconns d with heq | ⟨⟨server, hserver, heq⟩, _⟩
    · rw [heq]
      exact Or.inl hids
    · rw [heq] at ho
      exact absurd ho.2.1 hserver
  · intro d hd hup ho
    dsimp only
    rcases hconns d with heq | ⟨_, _, hnone⟩
    · rw [heq]
      exact Or.inl ho
    · exact Or.inr (hnone hd hup ho)

end Inv

/-! ### Frames -/

/-- A frame that the client may be sent: what it closes is closed. -/
def StreamFrame.Harmless (s : State) (frame : StreamFrame) : Prop :=
  frame.Backed s ∧ ∀ id reason, frame = .closed id reason → id < s.nextId ∧ id ∉ s.subs

/-- Frames are taken from the connections, and harmless ones are sent to the client; what an end
depends on is still in flight, or has arrived. -/
structure Frames (s s' : State) : Prop where
  same : s'.ws = s.ws ∧ s'.subs = s.subs ∧ s'.subscription = s.subscription ∧
    s'.nextId = s.nextId ∧ s'.nextConn = s.nextConn ∧ s'.nextStream = s.nextStream ∧
    s'.streams = s.streams
  absent : ∀ c, s.conns c = .absent → s'.conns c = .absent
  conn : ∀ c, (s'.conns c).client = (s.conns c).client ∧
    (s'.conns c).server = (s.conns c).server ∧ (s'.conns c).up = (s.conns c).up ∧
    (s'.conns c).perConn = (s.conns c).perConn
  toServer : ∀ c, (s'.conns c).toServer.Sublist (s.conns c).toServer
  toClient : ∀ c, ∀ frame ∈ (s'.conns c).toClient,
    frame ∈ (s.conns c).toClient ∨ frame.Harmless s
  unsubscribed : ∀ c, ∀ id ∈ (s.conns c).ids, .unsubscribe id ∈ (s.conns c).toServer →
    .unsubscribe id ∈ (s'.conns c).toServer
  told : ∀ c, s.ws = some c → (s.conns c).IsOpen → ∀ id ∈ s.subs,
    id ∈ subscribeIds (s.conns c).toServer ∨ HasError (s.conns c).toClient →
    id ∈ subscribeIds (s'.conns c).toServer ∨ id ∈ (s.conns c).ids ∨
      HasError (s'.conns c).toClient
  waits : ∀ c id sub, s.ws = some c → s.subscription id = some sub → sub.ack = .pending →
    (s.conns c).Awaits id → (s'.conns c).Awaits id

section frames
variable {s s' : State}

namespace Frames

theorem entries (hf : Frames s s') (c : ℕ) : (s'.conns c).entries = (s.conns c).entries := by
  rw [Conn.entries, (hf.conn c).2.2.2, Conn.entries]

theorem ids (hf : Frames s s') (c : ℕ) : (s'.conns c).ids = (s.conns c).ids := by
  rw [Conn.ids, hf.entries, Conn.ids]

theorem isOpen (hf : Frames s s') {c : ℕ} : (s'.conns c).IsOpen ↔ (s.conns c).IsOpen := by
  obtain ⟨hclient, hserver, hup, _⟩ := hf.conn c
  rw [Conn.IsOpen, hclient, hserver, hup, Conn.IsOpen]

theorem asked (hf : Frames s s') (c : ℕ) : (subscribeIds (s'.conns c).toServer).Sublist
    (subscribeIds (s.conns c).toServer) :=
  (hf.toServer c).filterMap _

end Frames

theorem Numbered.frames (h : Numbered s) (hf : Frames s s') : Numbered s' := by
  obtain ⟨_, _, hsubscription, hnextId, hnextConn, hnextStream, hstreams⟩ := hf.same
  constructor
  case conns => exact fun c hle => hf.absent c (h.conns c (hnextConn ▸ hle))
  case streams =>
    rw [hstreams, hnextStream]
    exact h.streams
  case subscriptions =>
    rw [hnextId, hsubscription]
    exact h.subscriptions
  case started =>
    rw [hstreams, hnextId]
    exact h.started
  case bounded =>
    intro c id hid
    rw [hnextId]
    exact h.bounded c id ((hf.asked c).subset hid)
  case once => exact fun c => (h.once c).sublist (hf.asked c)
  case apart =>
    exact fun c d id hc hd => h.apart c d id ((hf.asked c).subset hc) ((hf.asked d).subset hd)
  case unstarted =>
    intro c k st hst hmem
    rw [hstreams] at hst
    exact h.unstarted c k st hst ((hf.asked c).subset hmem)
  case single =>
    rw [hstreams]
    exact h.single

theorem Served.frames (h : Served s) (hf : Frames s s') : Served s' := by
  obtain ⟨_, _, _, _, _, _, hstreams⟩ := hf.same
  constructor
  case entries =>
    intro c
    rw [hf.entries, hstreams]
    exact h.entries c
  case ended =>
    intro k st hst hactive
    rw [hstreams] at hst
    rw [active, hf.entries] at hactive
    exact h.ended k st hst hactive
  case sound =>
    rw [hstreams]
    exact h.sound
  case mapped =>
    intro c
    rw [(hf.conn c).2.1, (hf.conn c).2.2.2]
    exact h.mapped c
  case sent =>
    intro c frame hframe
    have hbacked : frame.Backed s :=
      (hf.toClient c frame hframe).elim (h.sent c frame) fun hnew => hnew.1
    exact hbacked.later fun k st hst => ⟨st, hstreams ▸ hst, rfl, rfl, fun _ h => h⟩

theorem Held.frames (h : Held s) (hf : Frames s s') : Held s' := by
  obtain ⟨hws, hsubs, hsubscription, hnextId, hnextConn, _, hstreams⟩ := hf.same
  constructor
  case socket =>
    intro c
    rw [(hf.conn c).1, hws]
    exact h.socket c
  case empty =>
    rw [hws, hsubs]
    exact h.empty
  case silent =>
    intro c hconnecting
    rw [(hf.conn c).1] at hconnecting
    obtain ⟨hnil, hnone, hempty⟩ := h.silent c hconnecting
    rw [(hf.conn c).2.2.2, hsubs]
    refine ⟨?_, hnone, hempty⟩
    have hsublist := hf.toServer c
    rw [hnil] at hsublist
    exact List.sublist_nil.mp hsublist
  case known =>
    rw [hsubs, hsubscription]
    exact h.known
  case pending =>
    rw [hsubs, hsubscription]
    exact h.pending
  case gone =>
    intro c id hgone
    rw [hsubs, hnextId]
    rcases hgone with hframe | ⟨reason, hframe⟩
    · exact h.gone c id (Or.inl ((hf.toServer c).subset hframe))
    · rcases hf.toClient c _ hframe with hold | hnew
      · exact h.gone c id (Or.inr ⟨reason, hold⟩)
      · exact hnew.2 id reason rfl
  case taken =>
    rw [hsubscription]
    exact fun id sub hsub => (h.taken id sub hsub).later fun k st hst =>
      ⟨st, hstreams ▸ hst, rfl, rfl, fun _ h => h⟩
  case made =>
    rw [hws, hnextConn]
    exact h.made

theorem Linked.frames (h : Linked s) (hf : Frames s s') : Linked s' := by
  obtain ⟨hws, hsubs, hsubscription, _⟩ := hf.same
  constructor
  case asked =>
    intro c hc ho id hid
    rw [hsubs]
    exact h.asked c (hws ▸ hc) (hf.isOpen.mp ho) id ((hf.asked c).subset hid)
  case atServer =>
    intro c hc ho id hid
    rw [hf.ids] at hid
    rw [hsubs]
    exact (h.atServer c (hws ▸ hc) (hf.isOpen.mp ho) id hid).imp_right
      (hf.unsubscribed c id hid)
  case atClient =>
    intro c hc ho id hid
    rw [hsubs] at hid
    rw [hf.ids]
    have htold := hf.told c (hws ▸ hc) (hf.isOpen.mp ho) id hid
    rcases h.atClient c (hws ▸ hc) (hf.isOpen.mp ho) id hid with hasked | hin | herror
    · exact htold (Or.inl hasked)
    · exact Or.inr (Or.inl hin)
    · exact htold (Or.inr herror)
  case settles =>
    intro id sub hsub hpending
    rw [hsubscription] at hsub
    obtain ⟨c, hc, hawaits⟩ := h.settles id sub hsub hpending
    exact ⟨c, hws.trans hc, hf.waits c id sub hc hsub hpending hawaits⟩

theorem Inv.frames (h : Inv s) (hf : Frames s s') : Inv s' :=
  ⟨h.toNumbered.frames hf, h.toServed.frames hf, h.toHeld.frames hf, h.toLinked.frames hf⟩

end frames

namespace Inv

variable {s s' : State}

/-- Frames for the client: new ones are harmless, and what a call or the subscriptions of the
client depend on is not taken away. -/
theorem toClient (h : Inv s) {c : ℕ} {frames : List StreamFrame} (hc : s.conns c ≠ .absent)
    (hnew : ∀ frame ∈ frames, frame ∈ (s.conns c).toClient ∨ frame.Harmless s)
    (hack : ∀ id sub, s.subscription id = some sub → sub.ack = .pending →
      .subscribed id ∈ (s.conns c).toClient → .subscribed id ∈ frames)
    (herror : s.subs ≠ [] → HasError (s.conns c).toClient → HasError frames) :
    Inv (s.onConn c fun conn => { conn with toClient := frames }) := by
  have hconns := s.conns_onConn c fun conn => { conn with toClient := frames }
  refine h.frames ⟨⟨rfl, rfl, rfl, rfl, rfl, rfl, rfl⟩, ?_, ?_, ?_, ?_, ?_, ?_, ?_⟩
  · intro d hd
    have hne : d ≠ c := by
      rintro rfl
      exact hc hd
    rw [hconns, if_neg hne]
    exact hd
  · intro d
    rw [hconns]
    split <;> exact ⟨rfl, rfl, rfl, rfl⟩
  · intro d
    rw [hconns]
    split <;> exact List.Sublist.refl _
  · intro d frame hframe
    rw [hconns] at hframe
    split at hframe
    · next hd =>
        subst hd
        exact hnew frame hframe
    · exact Or.inl hframe
  · intro d id _ hframe
    rw [hconns]
    split <;> exact hframe
  · intro d _ _ id hid htold
    rw [hconns]
    split
    · next hd =>
        subst hd
        exact htold.imp_right fun he => Or.inr (herror (List.ne_nil_of_mem hid) he)
    · exact htold.imp_right Or.inr
  · intro d id sub _ hsub hpending hawaits
    rw [hconns]
    split
    · next hd =>
        subst hd
        obtain ⟨hup, hclient, hasked | hack' | he⟩ := hawaits
        · exact ⟨hup, hclient, Or.inl hasked⟩
        · exact ⟨hup, hclient, Or.inr (Or.inl (hack id sub hsub hpending hack'))⟩
        · have hid := h.pending id sub hsub hpending
          exact ⟨hup, hclient, Or.inr (Or.inr (herror (List.ne_nil_of_mem hid) he))⟩
    · exact hawaits

theorem serverSend (h : Inv s) {c : ℕ} {frame : StreamFrame} (hframe : frame.Harmless s) :
    Inv (s.onConn c (·.serverSend frame)) := by
  by_cases hsends : (s.conns c).server = .open ∧ (s.conns c).up = true
  · have heq : s.onConn c (·.serverSend frame) = s.onConn c fun conn =>
        { conn with toClient := (s.conns c).toClient ++ [frame] } := by
      simp only [onConn, Conn.serverSend, if_pos hsends]
    rw [heq]
    refine h.toClient ?_ ?_ ?_ ?_
    · intro habsent
      rw [habsent] at hsends
      cases hsends.1
    · intro other hother
      rcases List.mem_append.mp hother with hold | hnew
      · exact Or.inl hold
      · rw [List.mem_singleton.mp hnew]
        exact Or.inr hframe
    · exact fun id sub _ _ hmem => List.mem_append_left _ hmem
    · rintro _ ⟨code, message, hmem⟩
      exact ⟨code, message, List.mem_append_left _ hmem⟩
  · have heq : s.onConn c (·.serverSend frame) = s := by
      simp only [onConn, Conn.serverSend, if_neg hsends, Function.update_eq_self]
    rw [heq]
    exact h

/-- The next frame for the server is taken away when what it asks has been done. -/
theorem popServer (h : Inv s) {c : ℕ} {frame : StreamFrame} {rest : List StreamFrame}
    (hto : (s.conns c).toServer = frame :: rest)
    (hsubscribe : ∀ id topic, frame = .subscribe id topic → (s.conns c).up = true →
      (s.conns c).server = .open → HasError (s.conns c).toClient)
    (hunsubscribe : ∀ id, frame = .unsubscribe id → id ∉ (s.conns c).ids) :
    Inv (s.onConn c fun conn => { conn with toServer := rest }) := by
  have hconns := s.conns_onConn c fun conn => { conn with toServer := rest }
  have hasked : ∀ id ∈ subscribeIds (s.conns c).toServer, (s.conns c).up = true →
      (s.conns c).server = .open →
      id ∈ subscribeIds rest ∨ HasError (s.conns c).toClient := by
    intro id hid hup hserver
    obtain ⟨topic, hmem⟩ := mem_subscribeIds.mp hid
    rw [hto] at hmem
    rcases List.mem_cons.mp hmem with heq | hmem
    · exact Or.inr (hsubscribe id topic heq.symm hup hserver)
    · exact Or.inl (mem_subscribeIds.mpr ⟨topic, hmem⟩)
  refine h.frames ⟨⟨rfl, rfl, rfl, rfl, rfl, rfl, rfl⟩, ?_, ?_, ?_, ?_, ?_, ?_, ?_⟩
  · intro d hd
    rw [hconns]
    split
    · next heq =>
        rw [heq] at hd
        rw [hd] at hto
        cases hto
    · exact hd
  · intro d
    rw [hconns]
    split <;> exact ⟨rfl, rfl, rfl, rfl⟩
  · intro d
    rw [hconns]
    split
    · next hd =>
        subst hd
        rw [hto]
        exact List.sublist_cons_self _ _
    · exact List.Sublist.refl _
  · intro d other hother
    rw [hconns] at hother
    split at hother <;> exact Or.inl hother
  · intro d id hid hmem
    rw [hconns]
    split
    · next hd =>
        subst hd
        rw [hto] at hmem
        rcases List.mem_cons.mp hmem with heq | hmem
        · exact absurd hid (hunsubscribe id heq.symm)
        · exact hmem
    · exact hmem
  · intro d _ ho id _ htold
    rw [hconns]
    split
    · next hd =>
        subst hd
        rcases htold with hmem | he
        · exact (hasked id hmem ho.2.2 ho.2.1).imp_right Or.inr
        · exact Or.inr (Or.inr he)
    · exact htold.imp_right Or.inr
  · intro d id sub _ _ _ hawaits
    rw [hconns]
    split
    · next hd =>
        subst hd
        obtain ⟨hup, hclient, ⟨hserver, hmem⟩ | hack | he⟩ := hawaits
        · rcases hasked id hmem hup hserver with hrest | he
          · exact ⟨hup, hclient, Or.inl ⟨hserver, hrest⟩⟩
          · exact ⟨hup, hclient, Or.inr (Or.inr he)⟩
        · exact ⟨hup, hclient, Or.inr (Or.inl hack)⟩
        · exact ⟨hup, hclient, Or.inr (Or.inr he)⟩
    · exact hawaits

end Inv

end WireTools.Streams

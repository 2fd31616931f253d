import Mathlib.Data.List.Nodup
import WireTools.QueryHost

/-! # The renderer's side of the query port

Calls are correlated with their responses by request id, over whatever port main handed the
window last.

* Everything the client does is appended to `effects`, in order: what it posts, what it asks of
  main, and how a call settles;
* `QueryPortClient.Consistent` relates the pending calls to what was posted and settled, for the
  calls made so far; every operation keeps it. -/

namespace WireTools.QueryPort

inductive QueryPortStatus where
  | connecting
  | connected
  | failed
  deriving DecidableEq

/-- How a port is lost. -/
inductive PortLoss where
  | HostRestarted
  | HostExited
  | HostFailed
  deriving DecidableEq

/-- How a call settles: it resolves, or it is rejected with a failure. -/
inductive Outcome where
  | resolved (response : QueryHostResponse)
  | failed (response : QueryHostResponse)
  | lost (loss : PortLoss)
  | cancelled
  deriving DecidableEq

inductive ClientEffect where
  | requestQueryPort
  | restartQueryHost
  | posted (port : ChannelId) (request : QueryHostRequest)
  | closed (port : ChannelId)
  | settled (requestId : RequestId) (outcome : Outcome)
  deriving DecidableEq

/-- A call that awaits its response; `sent` is false while it is queued. -/
structure PendingCall where
  requestId : RequestId
  kind : RequestKind
  sent : Bool
  deriving DecidableEq

structure QueryPortClient where
  port : Option ChannelId
  currentStatus : QueryPortStatus
  /-- The pending calls by request id, in order of insertion. -/
  pending : List PendingCall
  effects : List ClientEffect
  deriving DecidableEq

namespace QueryPortClient

def initial : QueryPortClient :=
  ⟨none, .connecting, [], []⟩

variable (c : QueryPortClient)

def perform (effects : List ClientEffect) : QueryPortClient :=
  { c with effects := c.effects ++ effects }

def find (requestId : RequestId) : Option PendingCall :=
  c.pending.find? fun call => call.requestId = requestId

def remove (requestId : RequestId) : QueryPortClient :=
  { c with pending := c.pending.filter fun call => call.requestId ≠ requestId }

/-- Insert a call, in the place of a call with the same id. -/
def insert (call : PendingCall) : QueryPortClient :=
  { c with
    pending := if (c.find call.requestId).isSome then
        c.pending.map fun other => if other.requestId = call.requestId then call else other
      else c.pending ++ [call] }

def start : QueryPortClient :=
  c.perform [.requestQueryPort]

/-- Post the calls that have not been sent, of those chosen. -/
def sendWhere (chosen : PendingCall → Bool) : QueryPortClient :=
  { c with
    pending := c.pending.map fun call => if chosen call then { call with sent := true } else call
    effects := c.effects ++ (c.pending.filter fun call => chosen call && !call.sent).flatMap
      fun call => c.port.toList.map fun p => .posted p (.ask call.kind call.requestId) }

/-- Reject, and forget, the calls chosen. -/
def rejectWhere (chosen : PendingCall → Bool) (loss : PortLoss) : QueryPortClient :=
  { c with
    pending := c.pending.filter fun call => !chosen call
    effects := c.effects ++ (c.pending.filter chosen).map
      fun call => .settled call.requestId (.lost loss) }

def dropPort : QueryPortClient :=
  { c with port := none }.perform (c.port.toList.map .closed)

def call (requestId : RequestId) (kind : RequestKind) : QueryPortClient :=
  if c.currentStatus = .failed then c.perform [.settled requestId (.lost .HostFailed)]
  else
    let c := c.insert ⟨requestId, kind, false⟩
    if c.currentStatus = .connected then c.sendWhere fun call => call.requestId = requestId else c

def cancel (requestId : RequestId) : QueryPortClient :=
  match c.find requestId with
  | none => c
  | some call =>
      if !call.sent then (c.remove requestId).perform [.settled requestId .cancelled]
      else if c.currentStatus = .connected then
        c.perform (c.port.toList.map fun p => .posted p (.cancel requestId))
      else c

/-- A new port: what was in flight on the old one is rejected, what is queued goes out. -/
def replacePort (port : ChannelId) : QueryPortClient :=
  let c := c.rejectWhere PendingCall.sent .HostRestarted
  let c := c.perform (c.port.toList.map .closed)
  { c with port := some port, currentStatus := .connected }.sendWhere fun _ => true

def hostExited : QueryPortClient :=
  let c := (c.rejectWhere (fun _ => true) .HostExited).dropPort
  { c with currentStatus := .connecting }.perform [.requestQueryPort]

def hostFailed : QueryPortClient :=
  let c := (c.rejectWhere (fun _ => true) .HostFailed).dropPort
  { c with currentStatus := .failed }

def restart : QueryPortClient :=
  { c.perform [.restartQueryHost] with currentStatus := .connecting }.perform [.requestQueryPort]

/-- A response settles the call with its id, if that is pending. -/
def receive (response : QueryHostResponse) : QueryPortClient :=
  match c.find response.requestId with
  | none => c
  | some _ =>
      (c.remove response.requestId).perform [.settled response.requestId
        (if response.kind = .failed then .failed response else .resolved response)]

/-! ### Reading the effects -/

/-- The ids of the calls that were posted. -/
def postedIds (effects : List ClientEffect) : List RequestId :=
  effects.filterMap fun
    | .posted _ (.ask _ requestId) => some requestId
    | _ => none

def settledIds (effects : List ClientEffect) : List RequestId :=
  effects.filterMap fun
    | .settled requestId _ => some requestId
    | _ => none

theorem postedIds_append (es fs : List ClientEffect) :
    postedIds (es ++ fs) = postedIds es ++ postedIds fs :=
  List.filterMap_append

theorem settledIds_append (es fs : List ClientEffect) :
    settledIds (es ++ fs) = settledIds es ++ settledIds fs :=
  List.filterMap_append

theorem mem_postedIds {requestId : RequestId} {es : List ClientEffect} :
    requestId ∈ postedIds es ↔ ∃ p kind, .posted p (.ask kind requestId) ∈ es := by
  rw [postedIds, List.mem_filterMap]
  constructor
  · rintro ⟨e, he, h⟩
    match e, h with
    | .posted p (.ask kind _), rfl => exact ⟨p, kind, he⟩
  · rintro ⟨p, kind, h⟩
    exact ⟨_, h, rfl⟩

theorem mem_settledIds {requestId : RequestId} {es : List ClientEffect} :
    requestId ∈ settledIds es ↔ ∃ outcome, .settled requestId outcome ∈ es := by
  rw [settledIds, List.mem_filterMap]
  constructor
  · rintro ⟨e, he, h⟩
    match e, h with
    | .settled _ outcome, rfl => exact ⟨outcome, he⟩
  · rintro ⟨outcome, h⟩
    exact ⟨_, h, rfl⟩

/-! ### The invariant -/

/-- The pending calls against what was posted and settled, for the calls made so far. -/
structure Consistent (calls : List (RequestId × RequestKind)) (c : QueryPortClient) : Prop where
  pending_nodup : (c.pending.map PendingCall.requestId).Nodup
  pending_called : ∀ call ∈ c.pending, (call.requestId, call.kind) ∈ calls
  settled_nodup : (settledIds c.effects).Nodup
  settled_called : ∀ id ∈ settledIds c.effects, id ∈ calls.map Prod.fst
  settled_done : ∀ call ∈ c.pending, call.requestId ∉ settledIds c.effects
  posted_nodup : (postedIds c.effects).Nodup
  posted_called : ∀ p kind id, .posted p (.ask kind id) ∈ c.effects → (id, kind) ∈ calls
  /-- A pending call that was sent was posted on the current port. -/
  sent_posted : ∀ call ∈ c.pending, call.sent = true →
    ∃ p, c.port = some p ∧ .posted p (.ask call.kind call.requestId) ∈ c.effects
  queued_unposted : ∀ call ∈ c.pending, call.sent = false → call.requestId ∉ postedIds c.effects
  connected_port : c.currentStatus = .connected → c.port.isSome = true
  cancelled_unposted : ∀ id, .settled id .cancelled ∈ c.effects → id ∉ postedIds c.effects

variable {calls : List (RequestId × RequestKind)} {c}

theorem Consistent.pending_unique (h : Consistent calls c) {call other : PendingCall}
    (hcall : call ∈ c.pending) (hother : other ∈ c.pending)
    (hid : call.requestId = other.requestId) : call = other :=
  List.inj_on_of_nodup_map h.pending_nodup hcall hother hid

theorem Consistent.more (h : Consistent calls c) (call : RequestId × RequestKind) :
    Consistent (call :: calls) c where
  pending_nodup := h.pending_nodup
  pending_called call hcall := List.mem_cons_of_mem _ (h.pending_called call hcall)
  settled_nodup := h.settled_nodup
  settled_called id hid := List.mem_cons_of_mem _ (h.settled_called id hid)
  settled_done := h.settled_done
  posted_nodup := h.posted_nodup
  posted_called p kind id hp := List.mem_cons_of_mem _ (h.posted_called p kind id hp)
  sent_posted := h.sent_posted
  queued_unposted := h.queued_unposted
  connected_port := h.connected_port
  cancelled_unposted := h.cancelled_unposted

/-- Calls leave the pending ones and settle; no request is posted. -/
theorem Consistent.settle (h : Consistent calls c) {pending : List PendingCall}
    {es : List ClientEffect} (hsub : pending.Sublist c.pending) (hposted : postedIds es = [])
    (hnodup : (settledIds es).Nodup) (hcalled : ∀ id ∈ settledIds es, id ∈ calls.map Prod.fst)
    (hnew : ∀ id ∈ settledIds es, id ∉ settledIds c.effects)
    (hgone : ∀ call ∈ pending, call.requestId ∉ settledIds es)
    (hcancelled : ∀ id, .settled id .cancelled ∈ es → id ∉ postedIds c.effects) :
    Consistent calls { c with pending := pending, effects := c.effects ++ es } where
  pending_nodup := h.pending_nodup.sublist (hsub.map _)
  pending_called call hcall := h.pending_called call (hsub.subset hcall)
  settled_nodup := by
    rw [settledIds_append, List.nodup_append]
    refine ⟨h.settled_nodup, hnodup, ?_⟩
    rintro id hid _ hid' rfl
    exact hnew id hid' hid
  settled_called id hid := by
    rw [settledIds_append] at hid
    exact (List.mem_append.mp hid).elim (h.settled_called id) (hcalled id)
  settled_done call hcall hid := by
    rw [settledIds_append] at hid
    exact (List.mem_append.mp hid).elim (h.settled_done call (hsub.subset hcall))
      (hgone call hcall)
  posted_nodup := by
    rw [postedIds_append, hposted, List.append_nil]
    exact h.posted_nodup
  posted_called p kind id hp := by
    refine h.posted_called p kind id ((List.mem_append.mp hp).resolve_right fun hes => ?_)
    have hid := mem_postedIds.mpr ⟨p, kind, hes⟩
    rw [hposted] at hid
    exact List.not_mem_nil hid
  sent_posted call hcall hsent := by
    obtain ⟨p, hp, hmem⟩ := h.sent_posted call (hsub.subset hcall) hsent
    exact ⟨p, hp, List.mem_append_left _ hmem⟩
  queued_unposted call hcall hsent := by
    rw [postedIds_append, hposted, List.append_nil]
    exact h.queued_unposted call (hsub.subset hcall) hsent
  connected_port := h.connected_port
  cancelled_unposted id hid := by
    rw [postedIds_append, hposted, List.append_nil]
    exact (List.mem_append.mp hid).elim (h.cancelled_unposted id) (hcancelled id)

/-- Effects that neither post a request nor settle a call. -/
theorem Consistent.perform (h : Consistent calls c) {es : List ClientEffect}
    (hposted : postedIds es = []) (hsettled : settledIds es = []) :
    Consistent calls (c.perform es) := by
  refine h.settle (List.Sublist.refl _) hposted ?_ ?_ ?_ ?_ ?_
  · rw [hsettled]
    exact List.nodup_nil
  · rw [hsettled]
    exact nofun
  · rw [hsettled]
    exact nofun
  · rw [hsettled]
    exact fun _ _ => List.not_mem_nil
  · intro id hid
    have hmem := mem_settledIds.mpr ⟨_, hid⟩
    rw [hsettled] at hmem
    exact absurd hmem List.not_mem_nil

/-- The port changes while no pending call is on it. -/
theorem Consistent.rebind (h : Consistent calls c) (hqueued : ∀ call ∈ c.pending, call.sent = false)
    {port : Option ChannelId} {status : QueryPortStatus}
    (hport : status = .connected → port.isSome = true) :
    Consistent calls { c with port := port, currentStatus := status } :=
  ⟨h.pending_nodup, h.pending_called, h.settled_nodup, h.settled_called, h.settled_done,
    h.posted_nodup, h.posted_called,
    fun call hcall hsent => absurd hsent (by rw [hqueued call hcall]; nofun),
    h.queued_unposted, hport, h.cancelled_unposted⟩

theorem Consistent.status (h : Consistent calls c) {status : QueryPortStatus}
    (hstatus : status ≠ .connected) : Consistent calls { c with currentStatus := status } :=
  ⟨h.pending_nodup, h.pending_called, h.settled_nodup, h.settled_called, h.settled_done,
    h.posted_nodup, h.posted_called, h.sent_posted, h.queued_unposted,
    fun heq => absurd heq hstatus, h.cancelled_unposted⟩

/-! ### Operations -/

theorem settledIds_map (calls : List PendingCall) (outcome : Outcome) :
    settledIds (calls.map fun call => .settled call.requestId outcome) =
      calls.map PendingCall.requestId := by
  rw [settledIds, List.filterMap_map]
  change calls.filterMap (some ∘ PendingCall.requestId) = _
  rw [List.filterMap_eq_map]

theorem postedIds_map_settled (calls : List PendingCall) (outcome : Outcome) :
    postedIds (calls.map fun call => .settled call.requestId outcome) = [] := by
  rw [postedIds, List.filterMap_map]
  exact List.filterMap_eq_nil_iff.mpr fun _ _ => rfl

theorem Consistent.rejectWhere (h : Consistent calls c) (chosen : PendingCall → Bool)
    (loss : PortLoss) : Consistent calls (c.rejectWhere chosen loss) := by
  have hids := settledIds_map (c.pending.filter chosen) (.lost loss)
  refine h.settle List.filter_sublist (postedIds_map_settled _ _) ?_ ?_ ?_ ?_ ?_
  · rw [hids]
    exact h.pending_nodup.sublist (List.filter_sublist.map _)
  · intro id hid
    rw [hids] at hid
    obtain ⟨call, hcall, rfl⟩ := List.mem_map.mp hid
    exact List.mem_map.mpr ⟨_, h.pending_called call (List.mem_filter.mp hcall).1, rfl⟩
  · intro id hid
    rw [hids] at hid
    obtain ⟨call, hcall, rfl⟩ := List.mem_map.mp hid
    exact h.settled_done call (List.mem_filter.mp hcall).1
  · intro call hcall hid
    rw [hids] at hid
    obtain ⟨other, hother, hid⟩ := List.mem_map.mp hid
    rw [List.mem_filter] at hcall hother
    have heq := h.pending_unique hother.1 hcall.1 hid
    rw [heq] at hother
    simp [hother.2] at hcall
  · intro id hid
    obtain ⟨call, _, heq⟩ := List.mem_map.mp hid
    cases heq

theorem mem_of_find {call : PendingCall} {requestId : RequestId}
    (h : c.find requestId = some call) : call ∈ c.pending ∧ call.requestId = requestId :=
  ⟨List.mem_of_find?_eq_some h, by simpa using List.find?_some h⟩

/-- A pending call settles by itself. -/
theorem Consistent.remove (h : Consistent calls c) {call : PendingCall} {requestId : RequestId}
    (hcall : c.find requestId = some call) {outcome : Outcome}
    (hcancelled : outcome = .cancelled → call.sent = false) :
    Consistent calls ((c.remove requestId).perform [.settled requestId outcome]) := by
  obtain ⟨hmem, rfl⟩ := mem_of_find hcall
  have hids : settledIds [.settled call.requestId outcome] = [call.requestId] := rfl
  refine h.settle List.filter_sublist rfl ?_ ?_ ?_ ?_ ?_
  · rw [hids]
    exact List.nodup_singleton _
  · intro id hid
    rw [hids, List.mem_singleton] at hid
    rw [hid]
    exact List.mem_map.mpr ⟨_, h.pending_called call hmem, rfl⟩
  · intro id hid
    rw [hids, List.mem_singleton] at hid
    rw [hid]
    exact h.settled_done call hmem
  · intro other hother hid
    rw [hids, List.mem_singleton] at hid
    exact (of_decide_eq_true (List.mem_filter.mp hother).2) hid
  · intro id hid
    cases List.mem_singleton.mp hid
    exact h.queued_unposted call hmem (hcancelled rfl)

/-- What the chosen calls post. -/
theorem sendWhere_effects {p : ChannelId} (hp : c.port = some p) (chosen : PendingCall → Bool) :
    (c.sendWhere chosen).effects = c.effects ++
      (c.pending.filter fun call => chosen call && !call.sent).map
        fun call => .posted p (.ask call.kind call.requestId) := by
  rw [sendWhere, hp]
  change c.effects ++ List.flatMap (fun call : PendingCall =>
    [ClientEffect.posted p (.ask call.kind call.requestId)]) _ = _
  rw [List.map_eq_flatMap]

theorem postedIds_map (p : ChannelId) (calls : List PendingCall) :
    postedIds (calls.map fun call => .posted p (.ask call.kind call.requestId)) =
      calls.map PendingCall.requestId := by
  rw [postedIds, List.filterMap_map]
  change calls.filterMap (some ∘ PendingCall.requestId) = _
  rw [List.filterMap_eq_map]

theorem settledIds_map_posted (p : ChannelId) (calls : List PendingCall) :
    settledIds (calls.map fun call => .posted p (.ask call.kind call.requestId)) = [] := by
  rw [settledIds, List.filterMap_map]
  exact List.filterMap_eq_nil_iff.mpr fun _ _ => rfl

/-- A call of the pending ones after some were sent. -/
theorem mem_sendWhere {chosen : PendingCall → Bool} {call : PendingCall}
    (h : call ∈ (c.sendWhere chosen).pending) : ∃ before ∈ c.pending,
      call.requestId = before.requestId ∧ call.kind = before.kind ∧
        call.sent = (chosen before || before.sent) := by
  obtain ⟨before, hbefore, rfl⟩ := List.mem_map.mp h
  refine ⟨before, hbefore, ?_⟩
  split_ifs with hchosen
  · exact ⟨rfl, rfl, by rw [hchosen]; rfl⟩
  · exact ⟨rfl, rfl, by rw [Bool.not_eq_true] at hchosen; rw [hchosen]; rfl⟩

theorem postedIds_sendWhere {p : ChannelId} (hp : c.port = some p) (chosen : PendingCall → Bool) :
    postedIds (c.sendWhere chosen).effects = postedIds c.effects ++
      (c.pending.filter fun call => chosen call && !call.sent).map PendingCall.requestId := by
  rw [sendWhere_effects hp, postedIds_append, postedIds_map]

theorem settledIds_sendWhere {p : ChannelId} (hp : c.port = some p)
    (chosen : PendingCall → Bool) :
    settledIds (c.sendWhere chosen).effects = settledIds c.effects := by
  rw [sendWhere_effects hp, settledIds_append, settledIds_map_posted, List.append_nil]

theorem pendingIds_sendWhere (chosen : PendingCall → Bool) :
    (c.sendWhere chosen).pending.map PendingCall.requestId =
      c.pending.map PendingCall.requestId := by
  change (c.pending.map _).map PendingCall.requestId = _
  rw [List.map_map]
  refine List.map_congr_left fun call _ => ?_
  simp only [Function.comp_apply]
  split_ifs
  · rfl
  · rfl

/-- What is posted now had not been sent. -/
theorem unsent_of_chosen {chosen : PendingCall → Bool} {id : RequestId}
    (hid : id ∈ (c.pending.filter fun call => chosen call && !call.sent).map
      PendingCall.requestId) :
    ∃ call ∈ c.pending, call.requestId = id ∧ chosen call = true ∧ call.sent = false := by
  obtain ⟨call, hcall, rfl⟩ := List.mem_map.mp hid
  obtain ⟨hmem, hcall⟩ := List.mem_filter.mp hcall
  simp only [Bool.and_eq_true, Bool.not_eq_true'] at hcall
  exact ⟨call, hmem, rfl, hcall⟩

theorem Consistent.sendWhere (h : Consistent calls c) {p : ChannelId} (hp : c.port = some p)
    (chosen : PendingCall → Bool) : Consistent calls (c.sendWhere chosen) := by
  have hids := postedIds_sendWhere hp chosen
  have hsettled := settledIds_sendWhere hp chosen
  exact
    { pending_nodup := by
        rw [pendingIds_sendWhere]
        exact h.pending_nodup
      pending_called := by
        intro call hcall
        obtain ⟨before, hbefore, hid, hkind, _⟩ := mem_sendWhere hcall
        rw [hid, hkind]
        exact h.pending_called before hbefore
      settled_nodup := by
        rw [hsettled]
        exact h.settled_nodup
      settled_called := by
        rw [hsettled]
        exact h.settled_called
      settled_done := by
        intro call hcall
        obtain ⟨before, hbefore, hid, _⟩ := mem_sendWhere hcall
        rw [hid, hsettled]
        exact h.settled_done before hbefore
      posted_nodup := by
        rw [hids, List.nodup_append]
        refine ⟨h.posted_nodup, h.pending_nodup.sublist (List.filter_sublist.map _), ?_⟩
        rintro id hold _ hid rfl
        obtain ⟨call, hcall, rfl, _, hsent⟩ := unsent_of_chosen hid
        exact h.queued_unposted call hcall hsent hold
      posted_called := by
        intro q kind id hq
        rw [sendWhere_effects hp] at hq
        rcases List.mem_append.mp hq with hq | hq
        · exact h.posted_called q kind id hq
        · obtain ⟨call, hcall, heq⟩ := List.mem_map.mp hq
          cases heq
          exact h.pending_called call (List.mem_filter.mp hcall).1
      sent_posted := by
        intro call hcall hsent
        obtain ⟨before, hbefore, hid, hkind, hsent'⟩ := mem_sendWhere hcall
        rw [hid, hkind, sendWhere_effects hp]
        cases hwas : before.sent with
        | true =>
            obtain ⟨q, hq, hmem⟩ := h.sent_posted before hbefore hwas
            exact ⟨q, hq, List.mem_append_left _ hmem⟩
        | false =>
            rw [hsent', hwas, Bool.or_false] at hsent
            refine ⟨p, hp, List.mem_append_right _ (List.mem_map.mpr ⟨before, ?_, rfl⟩)⟩
            exact List.mem_filter.mpr ⟨hbefore, by rw [hsent, hwas]; rfl⟩
      queued_unposted := by
        intro call hcall hsent hid
        obtain ⟨before, hbefore, hsame, _, hsent'⟩ := mem_sendWhere hcall
        rw [hsent', Bool.or_eq_false_iff] at hsent
        rw [hids, hsame] at hid
        rcases List.mem_append.mp hid with hid | hid
        · exact h.queued_unposted before hbefore hsent.2 hid
        · obtain ⟨other, hother, heq, hchosen, _⟩ := unsent_of_chosen hid
          rw [h.pending_unique hother hbefore heq, hsent.1] at hchosen
          cases hchosen
      connected_port := fun _ => by
        change c.port.isSome = true
        rw [hp]
        rfl
      cancelled_unposted := by
        intro id hid
        have hold : .settled id .cancelled ∈ c.effects := by
          rw [sendWhere_effects hp] at hid
          refine (List.mem_append.mp hid).resolve_right fun hid => ?_
          obtain ⟨call, _, heq⟩ := List.mem_map.mp hid
          cases heq
        rw [hids, List.mem_append, not_or]
        refine ⟨h.cancelled_unposted id hold, fun hid => ?_⟩
        obtain ⟨call, hcall, rfl, _⟩ := unsent_of_chosen hid
        exact h.settled_done call hcall (mem_settledIds.mpr ⟨_, hold⟩) }

theorem postedIds_closed (port : Option ChannelId) : postedIds (port.toList.map .closed) = [] := by
  cases port with
  | none => rfl
  | some p => rfl

theorem settledIds_closed (port : Option ChannelId) :
    settledIds (port.toList.map .closed) = [] := by
  cases port with
  | none => rfl
  | some p => rfl

theorem Consistent.dropPort (h : Consistent calls c)
    (hqueued : ∀ call ∈ c.pending, call.sent = false) {status : QueryPortStatus}
    (hstatus : status ≠ .connected) :
    Consistent calls { c.dropPort with currentStatus := status } := by
  have hbind : Consistent calls { c with port := none, currentStatus := status } :=
    h.rebind hqueued fun heq => absurd heq hstatus
  exact hbind.perform (postedIds_closed _) (settledIds_closed _)

theorem Consistent.replacePort (h : Consistent calls c) (port : ChannelId) :
    Consistent calls (c.replacePort port) := by
  have hreject := h.rejectWhere PendingCall.sent .HostRestarted
  have hqueued : ∀ call ∈ (c.rejectWhere PendingCall.sent .HostRestarted).pending,
      call.sent = false := by
    intro call hcall
    simpa using (List.mem_filter.mp hcall).2
  have hclosed := hreject.perform (postedIds_closed c.port) (settledIds_closed c.port)
  have hbind := @Consistent.rebind _ _ hclosed hqueued (some port) .connected fun _ => rfl
  exact hbind.sendWhere rfl _

theorem pending_rejectAll {loss : PortLoss} {call : PendingCall}
    (h : call ∈ (c.rejectWhere (fun _ => true) loss).pending) : call.sent = false := by
  simp [QueryPortClient.rejectWhere] at h

theorem Consistent.hostExited (h : Consistent calls c) : Consistent calls c.hostExited := by
  have hreject := h.rejectWhere (fun _ => true) .HostExited
  have hdrop := @Consistent.dropPort _ _ hreject (fun _ => pending_rejectAll) .connecting nofun
  exact hdrop.perform rfl rfl

theorem Consistent.hostFailed (h : Consistent calls c) : Consistent calls c.hostFailed := by
  have hreject := h.rejectWhere (fun _ => true) .HostFailed
  exact hreject.dropPort (fun _ => pending_rejectAll) nofun

theorem Consistent.restart (h : Consistent calls c) : Consistent calls c.restart := by
  have hask := @Consistent.perform _ _ h [.restartQueryHost] rfl rfl
  have hstatus := @Consistent.status _ _ hask .connecting nofun
  exact hstatus.perform rfl rfl

theorem Consistent.receive (h : Consistent calls c) (response : QueryHostResponse) :
    Consistent calls (c.receive response) := by
  unfold QueryPortClient.receive
  cases hfind : c.find response.requestId with
  | none => exact h
  | some call =>
      refine h.remove hfind fun heq => ?_
      split_ifs at heq

theorem Consistent.cancel (h : Consistent calls c) (requestId : RequestId) :
    Consistent calls (c.cancel requestId) := by
  unfold QueryPortClient.cancel
  cases hfind : c.find requestId with
  | none => exact h
  | some call =>
      simp only
      split_ifs with hsent hstatus
      · exact h.remove hfind fun _ => by simpa using hsent
      · refine h.perform ?_ ?_
        · cases c.port with
          | none => rfl
          | some p => rfl
        · cases c.port with
          | none => rfl
          | some p => rfl
      · exact h

/-- The call with an id awaits its port. -/
def Queued (c : QueryPortClient) (requestId : RequestId) : Prop :=
  ∃ call ∈ c.pending, call.requestId = requestId ∧ call.sent = false

/-- A call that is cancelled while it is queued settles as cancelled. -/
theorem settled_cancel (h : Consistent calls c) {requestId : RequestId}
    (hqueued : c.Queued requestId) :
    .settled requestId .cancelled ∈ (c.cancel requestId).effects := by
  obtain ⟨call, hcall, rfl, hsent⟩ := hqueued
  cases hfind : c.find call.requestId with
  | none =>
      have hno := List.find?_eq_none.mp hfind call hcall
      exact absurd (decide_eq_true rfl) hno
  | some other =>
      obtain ⟨hother, hid⟩ := mem_of_find hfind
      obtain rfl := h.pending_unique hcall hother hid.symm
      rw [QueryPortClient.cancel, hfind]
      dsimp only
      rw [if_pos (by rw [hsent]; rfl)]
      exact List.mem_append_right _ (List.mem_singleton.mpr rfl)

/-- A call with a new id is appended. -/
theorem insert_fresh {call : PendingCall}
    (h : ∀ other ∈ c.pending, other.requestId ≠ call.requestId) :
    c.insert call = { c with pending := c.pending ++ [call] } := by
  have hnone : c.find call.requestId = none :=
    List.find?_eq_none.mpr fun other hother => by simpa using h other hother
  rw [insert, hnone]
  rfl

/-- A call with an id that was not used yet. -/
theorem Consistent.call (h : Consistent calls c) {requestId : RequestId} (kind : RequestKind)
    (hfresh : requestId ∉ calls.map Prod.fst) :
    Consistent ((requestId, kind) :: calls) (c.call requestId kind) := by
  have hpending : ∀ call ∈ c.pending, call.requestId ≠ requestId := by
    rintro call hcall rfl
    exact hfresh (List.mem_map.mpr ⟨_, h.pending_called call hcall, rfl⟩)
  have hsettled : requestId ∉ settledIds c.effects := fun hid => hfresh (h.settled_called _ hid)
  have hposted : requestId ∉ postedIds c.effects := by
    intro hid
    obtain ⟨p, kind, hmem⟩ := mem_postedIds.mp hid
    exact hfresh (List.mem_map.mpr ⟨_, h.posted_called p kind requestId hmem, rfl⟩)
  have hmore := h.more (requestId, kind)
  have hinsert : Consistent ((requestId, kind) :: calls)
      { c with pending := c.pending ++ [⟨requestId, kind, false⟩] } :=
    { pending_nodup := by
        rw [List.map_append, List.nodup_append]
        refine ⟨h.pending_nodup, List.nodup_singleton _, ?_⟩
        rintro id hid _ hnew rfl
        obtain ⟨call, hcall, rfl⟩ := List.mem_map.mp hid
        exact hpending call hcall (List.mem_singleton.mp hnew)
      pending_called := by
        intro call hcall
        rcases List.mem_append.mp hcall with hcall | hcall
        · exact hmore.pending_called call hcall
        · rw [List.mem_singleton.mp hcall]
          exact List.mem_cons_self
      settled_nodup := h.settled_nodup
      settled_called := hmore.settled_called
      settled_done := by
        intro call hcall
        rcases List.mem_append.mp hcall with hcall | hcall
        · exact h.settled_done call hcall
        · rw [List.mem_singleton.mp hcall]
          exact hsettled
      posted_nodup := h.posted_nodup
      posted_called := hmore.posted_called
      sent_posted := by
        intro call hcall hsent
        rcases List.mem_append.mp hcall with hcall | hcall
        · exact h.sent_posted call hcall hsent
        · rw [List.mem_singleton.mp hcall] at hsent
          cases hsent
      queued_unposted := by
        intro call hcall hsent
        rcases List.mem_append.mp hcall with hcall | hcall
        · exact h.queued_unposted call hcall hsent
        · rw [List.mem_singleton.mp hcall]
          exact hposted
      connected_port := h.connected_port
      cancelled_unposted := h.cancelled_unposted }
  dsimp only [QueryPortClient.call]
  rw [insert_fresh hpending]
  split_ifs with hfailed hconnected
  · refine hmore.settle (List.Sublist.refl _) rfl (List.nodup_singleton requestId) ?_ ?_ ?_ ?_
    · intro id hid
      rw [List.mem_singleton.mp hid]
      exact List.mem_cons_self
    · intro id hid
      rw [List.mem_singleton.mp hid]
      exact hsettled
    · exact fun call hcall hid => hpending call hcall (List.mem_singleton.mp hid)
    · exact fun id hid => by cases List.mem_singleton.mp hid
  · obtain ⟨p, hp⟩ := Option.isSome_iff_exists.mp (h.connected_port hconnected)
    exact hinsert.sendWhere hp _
  · exact hinsert

/-! ### Responses -/

/-- The response of an outcome, if a response settled the call. -/
def Outcome.response : Outcome → Option QueryHostResponse
  | .resolved response => some response
  | .failed response => some response
  | .lost _ => none
  | .cancelled => none

/-- The calls that responses settled, with their responses. -/
def responses (effects : List ClientEffect) : List (RequestId × QueryHostResponse) :=
  effects.filterMap fun
    | .settled requestId outcome => (Outcome.response outcome).map (requestId, ·)
    | _ => none

theorem responses_append (es fs : List ClientEffect) :
    responses (es ++ fs) = responses es ++ responses fs :=
  List.filterMap_append

/-- Effects were added, and no call was settled by a response. -/
def Grows (c c' : QueryPortClient) : Prop :=
  ∃ es, c'.effects = c.effects ++ es ∧ responses es = []

theorem Grows.trans {c c' c'' : QueryPortClient} (h : Grows c c') (h' : Grows c' c'') :
    Grows c c'' := by
  obtain ⟨es, hes, hnil⟩ := h
  obtain ⟨fs, hfs, hnil'⟩ := h'
  refine ⟨es ++ fs, by rw [hfs, hes, List.append_assoc], ?_⟩
  rw [responses_append, hnil, hnil']
  rfl

theorem Grows.refl (c : QueryPortClient) : Grows c c :=
  ⟨[], (List.append_nil _).symm, rfl⟩

theorem grows_rejectWhere (chosen : PendingCall → Bool) (loss : PortLoss) :
    Grows c (c.rejectWhere chosen loss) := by
  refine ⟨_, rfl, List.filterMap_eq_nil_iff.mpr fun e he => ?_⟩
  obtain ⟨call, _, rfl⟩ := List.mem_map.mp he
  rfl

theorem grows_sendWhere (chosen : PendingCall → Bool) : Grows c (c.sendWhere chosen) := by
  refine ⟨_, rfl, List.filterMap_eq_nil_iff.mpr fun e he => ?_⟩
  obtain ⟨call, _, he⟩ := List.mem_flatMap.mp he
  obtain ⟨p, _, rfl⟩ := List.mem_map.mp he
  rfl

theorem grows_closed (c : QueryPortClient) :
    Grows c (c.perform (c.port.toList.map .closed)) := by
  refine ⟨_, rfl, List.filterMap_eq_nil_iff.mpr fun e he => ?_⟩
  obtain ⟨p, _, rfl⟩ := List.mem_map.mp he
  rfl

theorem grows_replacePort (port : ChannelId) : Grows c (c.replacePort port) :=
  ((grows_rejectWhere _ _).trans (grows_closed _)).trans (grows_sendWhere _)

theorem grows_hostExited : Grows c c.hostExited :=
  ((grows_rejectWhere _ _).trans (grows_closed _)).trans ⟨_, rfl, rfl⟩

theorem grows_hostFailed : Grows c c.hostFailed := by
  have hclosed := grows_closed (c.rejectWhere (fun _ => true) .HostFailed)
  exact Grows.trans (grows_rejectWhere _ _) hclosed

theorem grows_restart : Grows c c.restart := by
  have hask : Grows c { c.perform [.restartQueryHost] with currentStatus := .connecting } :=
    ⟨_, rfl, rfl⟩
  exact hask.trans ⟨_, rfl, rfl⟩

theorem grows_cancel (requestId : RequestId) : Grows c (c.cancel requestId) := by
  unfold QueryPortClient.cancel
  cases c.find requestId with
  | none => exact Grows.refl c
  | some call =>
      simp only
      split_ifs
      · exact ⟨_, rfl, rfl⟩
      · refine ⟨_, rfl, List.filterMap_eq_nil_iff.mpr fun e he => ?_⟩
        obtain ⟨p, _, rfl⟩ := List.mem_map.mp he
        rfl
      · exact Grows.refl c

theorem grows_call (requestId : RequestId) (kind : RequestKind) :
    Grows c (c.call requestId kind) := by
  dsimp only [QueryPortClient.call]
  split_ifs
  · exact ⟨_, rfl, rfl⟩
  · exact grows_sendWhere _
  · exact Grows.refl c

/-- A response settles its own call, or none. -/
theorem receive_effects (response : QueryHostResponse) : ∃ es,
    (c.receive response).effects = c.effects ++ es ∧
      ∀ id r, (id, r) ∈ responses es → r = response ∧ id = response.requestId := by
  unfold QueryPortClient.receive
  cases c.find response.requestId with
  | none => exact ⟨[], (List.append_nil _).symm, nofun⟩
  | some call =>
      refine ⟨_, rfl, fun id r h => ?_⟩
      split_ifs at h
      · cases List.mem_singleton.mp h
        exact ⟨rfl, rfl⟩
      · cases List.mem_singleton.mp h
        exact ⟨rfl, rfl⟩

theorem consistent_start : Consistent [] initial.start where
  pending_nodup := List.nodup_nil
  pending_called := nofun
  settled_nodup := List.nodup_nil
  settled_called := nofun
  settled_done := nofun
  posted_nodup := List.nodup_nil
  posted_called p kind id hp := by cases List.mem_singleton.mp hp
  sent_posted := nofun
  queued_unposted := nofun
  connected_port := nofun
  cancelled_unposted id hid := by cases List.mem_singleton.mp hid

end QueryPortClient

end WireTools.QueryPort

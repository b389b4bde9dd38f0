import CowStore.Local.Device
import CowStore.Server.Requests

/-!
# The network endpoint

`handle_wire` decodes a request, looks at the incarnation and the deadline, answers from a
bounded cache of its own where it can, and otherwise hands the envelope to the local server.
The lock of the endpoint is not held while the server works, so that deliveries of one
request can pass each other at every point.

A delivery is one call of `handle_wire`.  A request that is dropped has none, a duplicate or
a retry is a delivery of its own, and delays and reorderings are the order of the turns.
-/

namespace CowStore.Server

open Lib

def display : StorageError → String
  | .invalidArgument reason => "invalid argument: " ++ reason
  | .notFound kind id => kind ++ " not found: " ++ id
  | .conflict reason => "conflict: " ++ reason
  | .unavailable reason => "unavailable: " ++ reason
  | .corrupt reason => "corrupt: " ++ reason
  | .unsupported reason => "unsupported: " ++ reason

structure RemoteWireRequest (Request : Type) where
  incarnation : Nat
  envelope : RequestEnvelope Request
  deriving DecidableEq, Repr

inductive RemoteWireReply (Response : Type)
  | ok (incarnation : Nat) (envelope : ResponseEnvelope Response)
  | err (incarnation : Nat) (reason : String)
  deriving DecidableEq, Repr

abbrev RemoteRequestKey := Nat × RequestKey

structure RemoteCacheEntry (Bytes Response : Type) where
  requestBytes : Bytes
  response : RemoteWireReply Response

structure RemoteEndpointState (Bytes Response : Type) where
  cache : Table RemoteRequestKey (RemoteCacheEntry Bytes Response)
  order : List RemoteRequestKey
  inFlight : Nat
  shutdown : Bool
  logicalTime : Nat

def RemoteEndpointState.new {Bytes Response : Type} : RemoteEndpointState Bytes Response :=
  ⟨∅, [], 0, false, 0⟩

structure Endpoint (Bytes Request Response Op : Type) (Ans : Op → Type) where
  service : Service Request Response Op Ans
  incarnation : Nat
  dedupeCapacity : Nat
  mailboxCapacity : Nat
  /-- `decode_network_frame`. -/
  decode : Bytes → Result (RemoteWireRequest Request)

inductive Delivery (Request Response Op : Type) (Ans : Op → Type)
  | arrived
  /-- At the check of the deadline. -/
  | decoded (e : RequestEnvelope Request)
  /-- At the lock of the endpoint's state. -/
  | checked (e : RequestEnvelope Request)
  /-- In the server's `handle`. -/
  | serving (e : RequestEnvelope Request) (p : Phase Response Op Ans)
  /-- No longer in flight; at the lock under which the answer is cached. -/
  | storing (e : RequestEnvelope Request) (result : Result (ResponseEnvelope Response))
  | replied (reply : RemoteWireReply Response)

/-- The endpoint with its server, and where the deliveries stand. -/
structure Network (Bytes σ Request Response Op : Type) (Ans : Op → Type) where
  endpoint : RemoteEndpointState Bytes Response
  server : LocalServer σ Request Response
  deliveries : Nat → Delivery Request Response Op Ans

inductive Turn
  | deliver (delivery : Nat)
  | setShutdown (shutdown : Bool)
  | setLogicalTime (logicalTime : Nat)
  deriving DecidableEq, Repr

section

variable {Bytes Response : Type}

/-- The oldest entries go while there are more than the capacity. -/
def evict (capacity : Nat) : List RemoteRequestKey → Table RemoteRequestKey (RemoteCacheEntry Bytes Response) →
    List RemoteRequestKey × Table RemoteRequestKey (RemoteCacheEntry Bytes Response)
  | [], cache => ([], cache)
  | evicted :: order, cache =>
    if capacity < (evicted :: order).length then evict capacity order (cache.erase evicted)
    else (evicted :: order, cache)

/-- An answer in the cache, unless the endpoint has none. -/
def RemoteEndpointState.store (s : RemoteEndpointState Bytes Response) (capacity : Nat)
    (key : RemoteRequestKey) (entry : RemoteCacheEntry Bytes Response) :
    RemoteEndpointState Bytes Response :=
  if capacity = 0 then s
  else
    { s with
      cache := (evict capacity (s.order ++ [key]) (s.cache.insert key entry)).2
      order := (evict capacity (s.order ++ [key]) (s.cache.insert key entry)).1 }

theorem lookup_evict {capacity : Nat} {order : List RemoteRequestKey}
    {cache : Table RemoteRequestKey (RemoteCacheEntry Bytes Response)} {key : RemoteRequestKey}
    {entry : RemoteCacheEntry Bytes Response}
    (h : (evict capacity order cache).2.lookup key = some entry) : cache.lookup key = some entry := by
  induction order generalizing cache with
  | nil => exact h
  | cons evicted order ih =>
    rw [evict] at h
    split at h
    · have hlookup := ih h
      by_cases hkey : key = evicted
      · rw [hkey, AList.lookup_erase] at hlookup
        cases hlookup
      · rwa [AList.lookup_erase_ne hkey] at hlookup
    · exact h

theorem RemoteEndpointState.lookup_store {s : RemoteEndpointState Bytes Response} {capacity : Nat}
    {key key' : RemoteRequestKey} {entry entry' : RemoteCacheEntry Bytes Response}
    (h : (s.store capacity key entry).cache.lookup key' = some entry') :
    key' = key ∧ entry' = entry ∨ s.cache.lookup key' = some entry' := by
  unfold store at h
  split at h
  · exact .inr h
  · have hlookup := lookup_evict h
    by_cases hkey : key' = key
    · rw [hkey, AList.lookup_insert] at hlookup
      cases hlookup
      exact .inl ⟨hkey, rfl⟩
    · rw [AList.lookup_insert_ne hkey] at hlookup
      exact .inr hlookup

end

namespace Endpoint

variable {Bytes σ Request Response Op : Type} {Ans : Op → Type} [DecidableEq Bytes]
  [DecidableEq Request] (ep : Endpoint Bytes Request Response Op Ans)
  (serve : (r : Op) → σ → Ans r × σ)

def error (reason : String) : Delivery Request Response Op Ans := .replied (.err ep.incarnation reason)

def reply : Result (ResponseEnvelope Response) → RemoteWireReply Response
  | .ok envelope => .ok ep.incarnation envelope
  | .error e => .err ep.incarnation (display e)

def key (e : RequestEnvelope Request) : RemoteRequestKey := (ep.incarnation, e.key)

/-- The request is decoded and its incarnation compared. -/
def receive (bytes : Bytes) : Delivery Request Response Op Ans :=
  match ep.decode bytes with
  | .error e => ep.error (display e)
  | .ok wire =>
    if wire.incarnation ≠ ep.incarnation then
      ep.error ("stale " ++ ep.service.kind ++ " server incarnation")
    else .decoded wire.envelope

def expired (s : RemoteEndpointState Bytes Response) (e : RequestEnvelope Request) : Bool :=
  match e.deadline with
  | none => false
  | some deadline => decide (deadline < s.logicalTime)

/-- What happens under the first lock of the endpoint's state. -/
def admitRequest (s : RemoteEndpointState Bytes Response) (bytes : Bytes) (e : RequestEnvelope Request) :
    RemoteEndpointState Bytes Response × Delivery Request Response Op Ans :=
  if s.shutdown then
    (s, ep.error (ep.service.kind ++ " endpoint is shut down"))
  else
    match s.cache.lookup (ep.key e) with
    | some entry =>
      if entry.requestBytes = bytes then (s, .replied entry.response)
      else (s, ep.error ("request ID and client epoch reused for a different network " ++
        ep.service.kind ++ " request"))
    | none =>
      if ep.mailboxCapacity ≤ s.inFlight then
        (s, ep.error (ep.service.kind ++ " endpoint mailbox is full"))
      else ({ s with inFlight := s.inFlight + 1 }, .serving e .waiting)

def step (bytes : Bytes) (s : RemoteEndpointState Bytes Response)
    (server : LocalServer σ Request Response) :
    Delivery Request Response Op Ans →
    Option (RemoteEndpointState Bytes Response × LocalServer σ Request Response ×
      Delivery Request Response Op Ans)
  | .arrived => some (s, server, ep.receive bytes)
  | .decoded e =>
    some (s, server,
      if expired s e then ep.error (ep.service.kind ++ " request deadline expired") else .checked e)
  | .checked e => some ((ep.admitRequest s bytes e).1, server, (ep.admitRequest s bytes e).2)
  | .serving e (.finished result) =>
    some ({ s with inFlight := s.inFlight - 1 }, server, .storing e result)
  | .serving e p =>
    (ep.service.step serve e server p).map fun r => (s, r.1, .serving e r.2)
  | .storing e result =>
    some (s.store ep.dedupeCapacity (ep.key e) ⟨bytes, ep.reply result⟩, server,
      .replied (ep.reply result))
  | .replied _ => none

/-- A turn: one step of a delivery, or a change of the endpoint's settings. -/
def turn (wire : Nat → Bytes) (n : Network Bytes σ Request Response Op Ans) :
    Turn → Option (Network Bytes σ Request Response Op Ans)
  | .deliver t =>
    (ep.step serve (wire t) n.endpoint n.server (n.deliveries t)).map fun r =>
      ⟨r.1, r.2.1, Function.update n.deliveries t r.2.2⟩
  | .setShutdown shutdown => some { n with endpoint := { n.endpoint with shutdown } }
  | .setLogicalTime logicalTime => some { n with endpoint := { n.endpoint with logicalTime } }

def start (store : σ) : Network Bytes σ Request Response Op Ans :=
  ⟨.new, .new store, fun _ => .arrived⟩

end Endpoint

section

variable {Bytes σ Request Response Op : Type} {Ans : Op → Type}

namespace Delivery

def envelope? : Delivery Request Response Op Ans → Option (RequestEnvelope Request)
  | decoded e | checked e | serving e _ | storing e _ => some e
  | _ => none

def call? : Delivery Request Response Op Ans → Option (RequestEnvelope Request × Phase Response Op Ans)
  | serving e p => some (e, p)
  | _ => none

end Delivery

def Network.calls (n : Network Bytes σ Request Response Op Ans) : Calls Request Response Op Ans :=
  fun t => (n.deliveries t).call?

def Endpoint.Sent (ep : Endpoint Bytes Request Response Op Ans) (wire : Nat → Bytes)
    (e : RequestEnvelope Request) : Prop :=
  ∃ t w, ep.decode (wire t) = .ok w ∧ w.envelope = e

/-- A reply that is not an error is the remembered answer. -/
def Endpoint.Remembered (ep : Endpoint Bytes Request Response Op Ans)
    (server : LocalServer σ Request Response) (key : RequestKey)
    (reply : RemoteWireReply Response) : Prop :=
  ∀ i envelope, reply = .ok i envelope → i = ep.incarnation ∧
    ∃ request, server.responses.lookup key = some ⟨request, .ok envelope⟩

/-- The deliveries, the endpoint's cache and the server's memory agree. -/
structure Consistent (ep : Endpoint Bytes Request Response Op Ans) (wire : Nat → Bytes)
    (n : Network Bytes σ Request Response Op Ans) : Prop where
  guarded : Guarded ep.service (ep.Sent wire) n.server n.calls
  carried : ∀ t e, (n.deliveries t).envelope? = some e →
    ∃ w, ep.decode (wire t) = .ok w ∧ w.envelope = e
  storing : ∀ t e result, n.deliveries t = .storing e result →
    n.server.responses.lookup e.key = some ⟨e.request, result⟩
  cached : ∀ key entry, n.endpoint.cache.lookup (ep.incarnation, key) = some entry →
    ep.Remembered n.server key entry.response
  replied : ∀ t reply w, n.deliveries t = .replied reply → ep.decode (wire t) = .ok w →
    ep.Remembered n.server w.envelope.key reply

variable {ep : Endpoint Bytes Request Response Op Ans} {wire : Nat → Bytes}
  {n : Network Bytes σ Request Response Op Ans} {s : RemoteEndpointState Bytes Response}
  {server server' : LocalServer σ Request Response} {key : RequestKey}
  {reply : RemoteWireReply Response}

theorem Endpoint.Remembered.mono (h : ep.Remembered server key reply)
    (hext : server.responses.Extends server'.responses) : ep.Remembered server' key reply := by
  intro i envelope hreply
  obtain ⟨hi, request, hlookup⟩ := h i envelope hreply
  exact ⟨hi, request, hext _ _ hlookup⟩

theorem Endpoint.remembered_err (reason : String) :
    ep.Remembered server key (.err ep.incarnation reason) := by
  exact nofun

theorem Endpoint.remembered_reply {request : Request} {result : Result (ResponseEnvelope Response)}
    (h : server.responses.lookup key = some ⟨request, result⟩) :
    ep.Remembered server key (ep.reply result) := by
  intro i envelope hreply
  cases result with
  | ok envelope' =>
    cases hreply
    exact ⟨rfl, request, h⟩
  | error e => cases hreply

theorem Network.calls_update (t : Nat) (d : Delivery Request Response Op Ans) :
    (Network.calls ⟨s, server, Function.update n.deliveries t d⟩) = Function.update n.calls t d.call? :=
  Function.comp_update Delivery.call? n.deliveries t d

variable {t : Nat} {a : Turn}

theorem Consistent.move (h : Consistent ep wire n) {d : Delivery Request Response Op Ans}
    (hext : n.server.responses.Extends server.responses)
    (hguarded : Guarded ep.service (ep.Sent wire) server (Function.update n.calls t d.call?))
    (hcarried : ∀ e, d.envelope? = some e → ∃ w, ep.decode (wire t) = .ok w ∧ w.envelope = e)
    (hstoring : ∀ e result, d = .storing e result → server.responses.lookup e.key = some ⟨e.request, result⟩)
    (hcached : ∀ key entry, s.cache.lookup (ep.incarnation, key) = some entry →
      ep.Remembered server key entry.response)
    (hreplied : ∀ reply w, d = .replied reply → ep.decode (wire t) = .ok w →
      ep.Remembered server w.envelope.key reply) :
    Consistent ep wire ⟨s, server, Function.update n.deliveries t d⟩ := by
  constructor
  case guarded =>
    rw [Network.calls_update]
    exact hguarded
  case carried =>
    intro t' e he
    change (Function.update n.deliveries t d t').envelope? = some e at he
    obtain ⟨rfl, hd⟩ | ⟨-, hd⟩ := update_eq (rfl : Function.update n.deliveries t d t' = _)
    · rw [← hd] at he
      exact hcarried e he
    · rw [← hd] at he
      exact h.carried t' e he
  case storing =>
    intro t' e result hd
    obtain ⟨-, hd⟩ | ⟨-, hd⟩ := update_eq hd
    · exact hstoring e result hd
    · exact hext _ _ (h.storing t' e result hd)
  case cached => exact hcached
  case replied =>
    intro t' reply w hd hw
    obtain ⟨ht, hd⟩ | ⟨-, hd⟩ := update_eq hd
    · exact hreplied reply w hd (ht ▸ hw)
    · exact (h.replied t' reply w hd hw).mono hext

theorem Consistent.outside (h : Consistent ep wire n) {d : Delivery Request Response Op Ans}
    (hcall : d.call? = none)
    (hcarried : ∀ e, d.envelope? = some e → ∃ w, ep.decode (wire t) = .ok w ∧ w.envelope = e)
    (hstoring : ∀ e result, d = .storing e result →
      n.server.responses.lookup e.key = some ⟨e.request, result⟩)
    (hcached : ∀ key entry, s.cache.lookup (ep.incarnation, key) = some entry →
      ep.Remembered n.server key entry.response)
    (hreplied : ∀ reply w, d = .replied reply → ep.decode (wire t) = .ok w →
      ep.Remembered n.server w.envelope.key reply) :
    Consistent ep wire ⟨s, n.server, Function.update n.deliveries t d⟩ := by
  refine h.move (.refl _) (h.guarded.of_fewer fun t' e p hc => ?_) hcarried hstoring hcached hreplied
  obtain ⟨-, hc⟩ | ⟨-, hc⟩ := update_eq hc
  · cases hcall.symm.trans hc
  · exact hc

theorem Consistent.error (h : Consistent ep wire n) (t : Nat) (reason : String) :
    Consistent ep wire ⟨n.endpoint, n.server, Function.update n.deliveries t (ep.error reason)⟩ := by
  refine h.outside rfl nofun nofun h.cached ?_
  intro reply w hd _
  cases hd
  exact ep.remembered_err reason

variable [DecidableEq Bytes]

theorem Consistent.admitRequest (h : Consistent ep wire n) {e : RequestEnvelope Request}
    (hd : n.deliveries t = .checked e) :
    Consistent ep wire ⟨(ep.admitRequest n.endpoint (wire t) e).1, n.server,
      Function.update n.deliveries t (ep.admitRequest n.endpoint (wire t) e).2⟩ := by
  obtain ⟨w, hw, he⟩ := h.carried t e (by rw [hd]; rfl)
  unfold Endpoint.admitRequest
  split
  · exact h.error t _
  · split
    · next entry hentry =>
      split
      · refine h.outside rfl nofun nofun h.cached ?_
        intro reply w' hreply hw'
        cases hreply
        rw [hw] at hw'
        cases hw'
        rw [he]
        exact h.cached e.key entry hentry
      · exact h.error t _
    · split
      · exact h.error t _
      · refine h.move (.refl _) (h.guarded.enter ⟨t, w, hw, he⟩) ?_ nofun
          h.cached nofun
        intro e' he'
        cases he'
        exact ⟨w, hw, he⟩

variable [DecidableEq Request] {serve : (r : Op) → σ → Ans r × σ}

theorem Endpoint.step_serving {bytes : Bytes} {e : RequestEnvelope Request} {p : Phase Response Op Ans}
    {r : RemoteEndpointState Bytes Response × LocalServer σ Request Response ×
      Delivery Request Response Op Ans}
    (h : ep.step serve bytes s server (.serving e p) = some r) :
    (∃ result, p = .finished result ∧
      r = ({ s with inFlight := s.inFlight - 1 }, server, .storing e result)) ∨
      ∃ q, ep.service.step serve e server p = some q ∧ r = (s, q.1, .serving e q.2) := by
  cases p with
  | finished result =>
    cases h
    exact .inl ⟨result, rfl, rfl⟩
  | waiting | looking | missed | executing _ | remembering _ | releasing _ =>
    rw [Endpoint.step, Option.map_eq_some_iff] at h
    · obtain ⟨q, hq, heq⟩ := h
      exact .inr ⟨q, hq, heq.symm⟩
    · exact nofun

theorem Consistent.turn (h : Consistent ep wire n) (hkeys : DistinctKeys (ep.Sent wire))
    {n' : Network Bytes σ Request Response Op Ans} (hturn : ep.turn serve wire n a = some n') :
    Consistent ep wire n' := by
  cases a with
  | setShutdown shutdown =>
    cases hturn
    exact ⟨h.guarded, h.carried, h.storing, h.cached, h.replied⟩
  | setLogicalTime logicalTime =>
    cases hturn
    exact ⟨h.guarded, h.carried, h.storing, h.cached, h.replied⟩
  | deliver t =>
    obtain ⟨⟨s', server', d'⟩, hstep, rfl⟩ := Option.map_eq_some_iff.1 hturn
    cases hd : n.deliveries t with
    | arrived =>
      rw [hd] at hstep
      cases hstep
      unfold Endpoint.receive
      split
      · exact h.error t _
      · next w hw =>
        split
        · exact h.error t _
        · refine h.outside rfl (fun e he => ?_) nofun h.cached
            nofun
          cases he
          exact ⟨w, hw, rfl⟩
    | decoded e =>
      have hcarried := h.carried t e (by rw [hd]; rfl)
      rw [hd] at hstep
      cases hstep
      split
      · exact h.error t _
      · refine h.outside rfl (fun e he => ?_) nofun h.cached
          nofun
        cases he
        exact hcarried
    | checked e =>
      rw [hd] at hstep
      cases hstep
      exact h.admitRequest hd
    | serving e p =>
      have hcarried := h.carried t e (by rw [hd]; rfl)
      have hcall : n.calls t = some (e, p) := by rw [Network.calls, hd]; rfl
      have hserver : ∀ q, ep.service.step serve e n.server p = some q →
          Consistent ep wire ⟨n.endpoint, q.1, Function.update n.deliveries t (.serving e q.2)⟩ := by
        intro q hq
        have hext := h.guarded.extends_step hcall hq
        refine h.move hext (h.guarded.step hkeys hcall hq) (fun e' he' => ?_)
          nofun (fun key entry hentry => (h.cached key entry hentry).mono hext)
          nofun
        cases he'
        exact hcarried
      rw [hd] at hstep
      obtain ⟨result, rfl, hleft⟩ | ⟨q, hq, hmoved⟩ := Endpoint.step_serving hstep
      · cases hleft
        refine h.outside rfl (fun e' he' => ?_) (fun e' result' hd' => ?_) h.cached
          nofun
        · cases he'
          exact hcarried
        · cases hd'
          exact h.guarded.answered t e _ result hcall rfl
      · cases hmoved
        exact hserver q hq
    | storing e result =>
      obtain ⟨w, hw, he⟩ := h.carried t e (by rw [hd]; rfl)
      have hlookup := h.storing t e result hd
      rw [hd] at hstep
      cases hstep
      refine h.outside rfl nofun nofun ?_ ?_
      · intro key entry hentry
        obtain ⟨hkey, rfl⟩ | hentry := RemoteEndpointState.lookup_store hentry
        · cases hkey
          exact Endpoint.remembered_reply hlookup
        · exact h.cached key entry hentry
      · intro reply w' hreply hw'
        cases hreply
        rw [hw] at hw'
        cases hw'
        rw [he]
        exact Endpoint.remembered_reply hlookup
    | replied reply =>
      rw [hd] at hstep
      cases hstep

/-! ## Executions -/

/-- The execution of a request with this key has begun. -/
def Network.Begun (n : Network Bytes σ Request Response Op Ans) (key : RequestKey) : Prop :=
  Started n.server n.calls key

omit [DecidableEq Bytes] [DecidableEq Request] in
theorem Started.update {calls : Calls Request Response Op Ans} (h : Started server calls key)
    (hidle : ∀ e p, calls t = some (e, p) → ¬ p.executes)
    (call : Option (RequestEnvelope Request × Phase Response Op Ans)) :
    Started server (Function.update calls t call) key := by
  obtain ⟨t', e, p, hcall, hkey, hexecutes⟩ | hcached := h
  · have ht : t' ≠ t := fun ht => hidle e p (ht ▸ hcall) hexecutes
    exact .inl ⟨t', e, p, by rw [Function.update_of_ne ht, hcall], hkey, hexecutes⟩
  · exact .inr hcached

theorem Network.Begun.turn (h : n.Begun key) {n' : Network Bytes σ Request Response Op Ans}
    (hturn : ep.turn serve wire n a = some n') : n'.Begun key := by
  cases a with
  | setShutdown shutdown =>
    cases hturn
    exact h
  | setLogicalTime logicalTime =>
    cases hturn
    exact h
  | deliver t =>
    obtain ⟨⟨s', server', d'⟩, hstep, rfl⟩ := Option.map_eq_some_iff.1 hturn
    unfold Network.Begun at h
    rw [Network.Begun, Network.calls_update]
    have hcall : n.calls t = (n.deliveries t).call? := rfl
    cases hd : n.deliveries t with
    | serving e p =>
      rw [hd] at hstep hcall
      obtain ⟨result, rfl, hleft⟩ | ⟨q, hq, hmoved⟩ := Endpoint.step_serving hstep
      · cases hleft
        refine h.update (fun e' p' hcall' => ?_) _
        rw [hcall] at hcall'
        cases hcall'
        exact id
      · cases hmoved
        exact h.step hcall hq
    | arrived | decoded e | checked e | storing e result | replied reply =>
      rw [hd] at hstep hcall
      cases hstep
      all_goals exact h.update (fun e' p' hcall' => by rw [hcall] at hcall'; cases hcall') _

end

/-! A request that is delivered twice at once and again after its answer has left the
endpoint's cache, beside a request that pushes it out. -/

end CowStore.Server

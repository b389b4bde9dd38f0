import CowStore.Local.Device
import CowStore.Server.Requests

/-!
# The clients of one server

A client handle has a counter of request identifiers, which its clones and the devices and
files that it opens share, and every handle sends client epoch one.  The server knows a
request by these two numbers only.  The calls of several handles run side by side here,
through the in-process transport.
-/

namespace CowStore.Server

open Lib Local StorageError

/-- The client epoch of every new handle. -/
def clientEpoch : Nat := 1

def nextRequestId (next : Nat) : Result (Nat × Nat) := do
  failIf (u128Bound ≤ next + 1) (conflict "request id overflow")
  return (next, next + 1)

inductive ClientCall (Request Response Op : Type) (Ans : Op → Type)
  /-- Not made yet. -/
  | idle
  /-- There was no request identifier for it. -/
  | refused (error : StorageError)
  | serving (e : RequestEnvelope Request) (p : Phase Response Op Ans)
  | returned (e : RequestEnvelope Request) (result : Result (ResponseEnvelope Response))

structure Clients (σ Request Response Op : Type) (Ans : Op → Type) where
  server : LocalServer σ Request Response
  /-- The counters of the handles. -/
  nextRequestId : Nat → Nat
  calls : Nat → ClientCall Request Response Op Ans

/-- The calls that are going to be made: through which handle, and with which request. -/
structure Callers (Request : Type) where
  client : Nat → Nat
  request : Nat → Request

namespace Clients

variable {σ Request Response Op : Type} {Ans : Op → Type}

def start (store : σ) : Clients σ Request Response Op Ans :=
  ⟨.new store, fun _ => 1, fun _ => .idle⟩

def setCall (s : Clients σ Request Response Op Ans) (t : Nat) (call : ClientCall Request Response Op Ans) :
    Clients σ Request Response Op Ans :=
  { s with calls := Function.update s.calls t call }

variable [DecidableEq Request] (svc : Service Request Response Op Ans)
  (serve : (r : Op) → σ → Ans r × σ) (callers : Callers Request)

def turn (s : Clients σ Request Response Op Ans) (t : Nat) : Option (Clients σ Request Response Op Ans) :=
  match s.calls t with
  | .idle =>
    match Server.nextRequestId (s.nextRequestId (callers.client t)) with
    | .error error => some (s.setCall t (.refused error))
    | .ok (requestId, next) =>
      some { s with
        nextRequestId := Function.update s.nextRequestId (callers.client t) next
        calls := Function.update s.calls t
          (.serving ⟨requestId, clientEpoch, none, callers.request t⟩ .waiting) }
  | .serving e (.finished result) => some (s.setCall t (.returned e result))
  | .serving e p =>
    (svc.step serve e s.server p).map fun r =>
      { s with server := r.1, calls := Function.update s.calls t (.serving e r.2) }
  | .refused _ | .returned _ _ => none

end Clients

section

variable {σ Request Response Op : Type} {Ans : Op → Type}

/-- A call that has its request identifier, and where it stands in the server. -/
def ClientCall.sent? : ClientCall Request Response Op Ans → Option (RequestEnvelope Request × Phase Response Op Ans)
  | serving e p => some (e, p)
  | returned e result => some (e, .finished result)
  | _ => none

def ClientCall.returned? : ClientCall Request Response Op Ans →
    Option (RequestEnvelope Request × Result (ResponseEnvelope Response))
  | returned e result => some (e, result)
  | _ => none

variable {t : Nat} {e : RequestEnvelope Request}

theorem ClientCall.eq_returned {call : ClientCall Request Response Op Ans}
    {result : Result (ResponseEnvelope Response)} (h : call.returned? = some (e, result)) :
    call = .returned e result := by
  cases call with
  | returned e' result' =>
    cases h
    rfl
  | _ => cases h

/-- No two calls of one handle have the same identifier, and what is remembered is the end of
a call that was made. -/
structure Tidy (callers : Callers Request) (s : Clients σ Request Response Op Ans) : Prop where
  drawn : ∀ t e p, (s.calls t).sent? = some (e, p) →
    e.clientEpoch = clientEpoch ∧ e.request = callers.request t ∧
      e.requestId < s.nextRequestId (callers.client t)
  apart : ∀ t t' e e' p p', (s.calls t).sent? = some (e, p) → (s.calls t').sent? = some (e', p') →
    callers.client t = callers.client t' → e.requestId = e'.requestId → t = t'
  remembered : ∀ key cached, s.server.responses.lookup key = some cached →
    ∃ t e p, (s.calls t).sent? = some (e, p) ∧ e.key = key ∧ p.result?.isSome

variable {svc : Service Request Response Op Ans} {serve : (r : Op) → σ → Ans r × σ}
  {callers : Callers Request} {s s' : Clients σ Request Response Op Ans}

theorem nextRequestId_eq_ok {next requestId next' : Nat}
    (h : nextRequestId next = .ok (requestId, next')) : requestId = next ∧ next' = next + 1 := by
  obtain ⟨_, -, h⟩ := bind_eq_ok.1 h
  cases h
  exact ⟨rfl, rfl⟩

section

variable {calls : Nat → ClientCall Request Response Op Ans} {t t' : Nat}
  {call : ClientCall Request Response Op Ans} {x : RequestEnvelope Request × Phase Response Op Ans}

theorem sent_update_self (h : call.sent? = some x) : (Function.update calls t call t).sent? = some x := by
  rw [Function.update_self, h]

theorem sent_update_of_ne (ht : t' ≠ t) (h : (calls t').sent? = some x) :
    (Function.update calls t call t').sent? = some x := by
  rw [Function.update_of_ne ht, h]

theorem sent_update (h : (Function.update calls t call t').sent? = some x) :
    t' = t ∧ call.sent? = some x ∨ t' ≠ t ∧ (calls t').sent? = some x := by
  by_cases ht : t' = t
  · rw [ht, Function.update_self] at h
    exact .inl ⟨ht, h⟩
  · rw [Function.update_of_ne ht] at h
    exact .inr ⟨ht, h⟩

end

theorem Tidy.remembered_update (h : Tidy callers s) (hidle : s.calls t = .idle) {key : RequestKey}
    {cached : CachedRequest Request Response} {call : ClientCall Request Response Op Ans}
    (hlookup : s.server.responses.lookup key = some cached) :
    ∃ t' e p, (Function.update s.calls t call t').sent? = some (e, p) ∧ e.key = key ∧ p.result?.isSome := by
  obtain ⟨t', e, p, hp, hkey, hresult⟩ := h.remembered key cached hlookup
  have ht : t' ≠ t := by
    rintro rfl
    rw [hidle] at hp
    cases hp
  exact ⟨t', e, p, sent_update_of_ne ht hp, hkey, hresult⟩

theorem le_update_succ (next : Nat → Nat) (c c' : Nat) :
    next c' ≤ Function.update next c (next c + 1) c' := by
  by_cases hc : c' = c
  · rw [hc, Function.update_self]
    omega
  · rw [Function.update_of_ne hc]

theorem Tidy.refuse (h : Tidy callers s) (hidle : s.calls t = .idle) (error : StorageError) :
    Tidy callers (s.setCall t (.refused error)) := by
  have hother : ∀ t' x, ((s.setCall t (.refused error)).calls t').sent? = some x →
      (s.calls t').sent? = some x := by
    intro t' x hx
    obtain ⟨-, hx⟩ | ⟨-, hx⟩ := sent_update hx
    · cases hx
    · exact hx
  refine ⟨fun t' e p hp => h.drawn t' e p (hother t' _ hp),
    fun t1 t2 e1 e2 p1 p2 h1 h2 => h.apart t1 t2 e1 e2 p1 p2 (hother t1 _ h1) (hother t2 _ h2), ?_⟩
  exact fun key cached => h.remembered_update hidle

theorem Tidy.move (h : Tidy callers s) {p p' : Phase Response Op Ans}
    {call : ClientCall Request Response Op Ans} {server : LocalServer σ Request Response}
    (hsent : (s.calls t).sent? = some (e, p)) (hcall : call.sent? = some (e, p'))
    (hresult : p.result?.isSome → p'.result?.isSome)
    (hserver : ∀ key cached, server.responses.lookup key = some cached →
      key = e.key ∧ p'.result?.isSome ∨ ∃ cached, s.server.responses.lookup key = some cached) :
    Tidy callers { s with server, calls := Function.update s.calls t call } := by
  have hback : ∀ t' e' q, (Function.update s.calls t call t').sent? = some (e', q) →
      ∃ q', (s.calls t').sent? = some (e', q') := by
    intro t' e' q hq
    obtain ⟨ht, hq'⟩ | ⟨-, hq'⟩ := sent_update hq
    · rw [hcall] at hq'
      cases hq'
      exact ⟨p, ht ▸ hsent⟩
    · exact ⟨q, hq'⟩
  constructor
  case drawn =>
    intro t' e' q hq
    obtain ⟨q', hq'⟩ := hback t' e' q hq
    exact h.drawn t' e' q' hq'
  case apart =>
    intro t1 t2 e1 e2 p1 p2 h1 h2
    obtain ⟨q1, h1⟩ := hback t1 e1 p1 h1
    obtain ⟨q2, h2⟩ := hback t2 e2 p2 h2
    exact h.apart t1 t2 e1 e2 q1 q2 h1 h2
  case remembered =>
    intro key cached hlookup
    obtain ⟨hkey, hp'⟩ | ⟨cached', hlookup'⟩ := hserver key cached hlookup
    · exact ⟨t, e, p', sent_update_self hcall, hkey.symm, hp'⟩
    · obtain ⟨t', e', q, hq, hkey, hq'⟩ := h.remembered key cached' hlookup'
      by_cases ht : t' = t
      · rw [ht, hsent] at hq
        cases hq
        exact ⟨t, e, p', sent_update_self hcall, hkey, hresult hq'⟩
      · exact ⟨t', e', q, sent_update_of_ne ht hq, hkey, hq'⟩

theorem Tidy.draw (h : Tidy callers s) (hidle : s.calls t = .idle) : Tidy callers
      { s with
        nextRequestId := Function.update s.nextRequestId (callers.client t)
          (s.nextRequestId (callers.client t) + 1)
        calls := Function.update s.calls t (.serving ⟨s.nextRequestId (callers.client t), clientEpoch, none,
          callers.request t⟩ .waiting) } := by
  constructor
  case drawn =>
    intro t' e p hp
    obtain ⟨rfl, hp'⟩ | ⟨-, hp'⟩ := sent_update hp
    · cases hp'
      have hself : Function.update s.nextRequestId (callers.client t')
          (s.nextRequestId (callers.client t') + 1) (callers.client t') =
          s.nextRequestId (callers.client t') + 1 := Function.update_self ..
      exact ⟨rfl, rfl, lt_of_lt_of_eq (Nat.lt_succ_self _) hself.symm⟩
    · obtain ⟨hepoch, hrequest, hlt⟩ := h.drawn t' e p hp'
      exact ⟨hepoch, hrequest, lt_of_lt_of_le hlt (le_update_succ ..)⟩
  case apart =>
    intro t1 t2 e1 e2 p1 p2 h1 h2 hclient hid
    have hnew : ∀ t' e' q, callers.client t' = callers.client t → (s.calls t').sent? = some (e', q) →
        e'.requestId ≠ s.nextRequestId (callers.client t) := by
      intro t' e' q hclient' hq
      rw [← hclient']
      exact (h.drawn t' e' q hq).2.2.ne
    obtain ⟨ht1, hq1⟩ | ⟨-, hq1⟩ := sent_update h1 <;>
      obtain ⟨ht2, hq2⟩ | ⟨-, hq2⟩ := sent_update h2
    · rw [ht1, ht2]
    · cases hq1
      exact absurd hid.symm (hnew t2 e2 p2 (ht1 ▸ hclient.symm) hq2)
    · cases hq2
      exact absurd hid (hnew t1 e1 p1 (ht2 ▸ hclient) hq1)
    · exact h.apart t1 t2 e1 e2 p1 p2 hq1 hq2 hclient hid
  case remembered => exact fun key cached => h.remembered_update hidle

variable [DecidableEq Request]

/-- What a turn can do: refuse a call, make it, hand back its result, or take a step of the
server. -/
theorem Clients.turn_cases (h : Clients.turn svc serve callers s t = some s') :
    (s.calls t = .idle ∧ u128Bound ≤ s.nextRequestId (callers.client t) + 1 ∧
      ∃ error, s' = s.setCall t (.refused error)) ∨
    (s.calls t = .idle ∧ s' = { s with
      nextRequestId := Function.update s.nextRequestId (callers.client t)
        (s.nextRequestId (callers.client t) + 1)
      calls := Function.update s.calls t (.serving ⟨s.nextRequestId (callers.client t), clientEpoch, none,
        callers.request t⟩ .waiting) }) ∨
    (∃ e result, s.calls t = .serving e (.finished result) ∧ s' = s.setCall t (.returned e result)) ∨
    ∃ e p q, s.calls t = .serving e p ∧ svc.step serve e s.server p = some q ∧
      s' = { s with server := q.1, calls := Function.update s.calls t (.serving e q.2) } := by
  cases hcall : s.calls t with
  | idle =>
    rw [Clients.turn, hcall] at h
    cases hnext : Server.nextRequestId (s.nextRequestId (callers.client t)) with
    | error error =>
      rw [hnext] at h
      cases h
      refine .inl ⟨rfl, ?_, error, rfl⟩
      by_contra hlt
      rw [Server.nextRequestId, failIf, if_neg hlt] at hnext
      cases hnext
    | ok drawn =>
      obtain ⟨requestId, next⟩ := drawn
      obtain ⟨rfl, rfl⟩ := nextRequestId_eq_ok hnext
      rw [hnext] at h
      cases h
      exact .inr (.inl ⟨rfl, rfl⟩)
  | refused error =>
    rw [Clients.turn, hcall] at h
    cases h
  | returned e result =>
    rw [Clients.turn, hcall] at h
    cases h
  | serving e p =>
    rw [Clients.turn, hcall] at h
    split at h
    · next heq => cases heq
    · next e' result heq =>
      cases heq
      cases h
      exact .inr (.inr (.inl ⟨e, result, rfl, rfl⟩))
    · next e' p' _ heq =>
      cases heq
      obtain ⟨q, hq, rfl⟩ := Option.map_eq_some_iff.1 h
      exact .inr (.inr (.inr ⟨e, p, q, rfl, hq, rfl⟩))
    · next heq => cases heq
    · next heq => cases heq

theorem Tidy.turn (h : Tidy callers s) (hturn : Clients.turn svc serve callers s t = some s') :
    Tidy callers s' := by
  obtain ⟨hidle, -, error, rfl⟩ | ⟨hidle, rfl⟩ | ⟨e, result, hcall, rfl⟩ | ⟨e, p, q, hcall, hq, rfl⟩ :=
    Clients.turn_cases hturn
  · exact h.refuse hidle error
  · exact h.draw hidle
  · have hsent : (s.calls t).sent? = some (e, .finished result) := by
      rw [hcall]
      rfl
    exact h.move hsent rfl id fun key cached hlookup => .inr ⟨cached, hlookup⟩
  · have hsent : (s.calls t).sent? = some (e, p) := by
      rw [hcall]
      rfl
    refine h.move hsent rfl (Service.step_keeps_result hq) fun key cached hlookup => ?_
    obtain ⟨hsame, -⟩ | ⟨result, -, hp', hinsert⟩ := Service.step_responses hq
    · exact .inr ⟨cached, hsame ▸ hlookup⟩
    · by_cases hkey : key = e.key
      · exact .inl ⟨hkey, by rw [hp']; rfl⟩
      · rw [hinsert, AList.lookup_insert_ne hkey] at hlookup
        exact .inr ⟨cached, hlookup⟩

/-! ## Isolation -/

/-- What a request has made, if it has made something. -/
inductive CreatedId
  | device (deviceId : Nat)
  | keyspace (keyspaceId : Nat)
  | file (fileId : Nat)
  deriving DecidableEq, Repr

def BlockResponse.created? : BlockResponse → Option CreatedId
  | created deviceId => some (.device deviceId)
  | _ => none

def NativeResponse.created? : NativeResponse → Option CreatedId
  | keyspaceCreated keyspaceId => some (.keyspace keyspaceId)
  | fileCreated fileId => some (.file fileId)
  | _ => none

variable (svc serve callers) in
/-- Every call that has returned was executed, and its result is the end of that execution;
calls are refused only by a counter at its end; and creates of different handles have made
different things. -/
structure Isolated (created? : Response → Option CreatedId) (store : σ) (turns : List Nat) : Prop where
  executed : ∀ t e result,
    (afterTurns (Clients.turn svc serve callers) (.start store) turns).calls t = .returned e result →
    e.request = callers.request t ∧ ∃ before rest, turns = before ++ rest ∧
      (afterTurns (Clients.turn svc serve callers) (.start store) before).calls t =
        .serving e (.remembering result)
  refused : ∀ t error,
    (afterTurns (Clients.turn svc serve callers) (.start store) turns).calls t = .refused error →
    u128Bound ≤ (afterTurns (Clients.turn svc serve callers) (.start store) turns).nextRequestId
      (callers.client t) + 1
  apart : ∀ t t' e e' r r' id, callers.client t ≠ callers.client t' →
    (afterTurns (Clients.turn svc serve callers) (.start store) turns).calls t = .returned e (.ok r) →
    (afterTurns (Clients.turn svc serve callers) (.start store) turns).calls t' = .returned e' (.ok r') →
    created? r.response = some id → created? r'.response ≠ some id

variable (svc serve callers) in
abbrev Clients.ran (store : σ) (turns : List Nat) : Clients σ Request Response Op Ans :=
  afterTurns (turn svc serve callers) (.start store) turns

open Clients (ran)

theorem tidy_after (store : σ) (turns : List Nat) : Tidy callers (ran svc serve callers store turns) := by
  refine afterTurns_invariant ?_ (fun s t s' h hturn => h.turn hturn) turns
  refine ⟨?_, ?_, ?_⟩
  all_goals
    intros
    contradiction

theorem calls_of_not_mem {store : σ} {turns : List Nat} (ht : t ∉ turns) :
    (ran svc serve callers store turns).calls t = .idle := by
  induction turns using List.reverseRecOn with
  | nil => rfl
  | append_singleton turns a ih =>
    rw [List.mem_append, List.mem_singleton, not_or] at ht
    rw [ran, afterTurns_concat]
    cases hturn : Clients.turn svc serve callers
        (ran svc serve callers store turns) a with
    | none => exact ih ht.1
    | some s' =>
      have hsame : s'.calls t = (ran svc serve callers store turns).calls t := by
        obtain ⟨-, -, error, rfl⟩ | ⟨-, rfl⟩ | ⟨e, result, -, rfl⟩ | ⟨e, p, q, -, -, rfl⟩ :=
          Clients.turn_cases hturn
        all_goals exact Function.update_of_ne ht.2 ..
      exact hsame.trans (ih ht.1)

theorem refused_after (store : σ) (turns : List Nat) (t : Nat) (error : StorageError) :
    (ran svc serve callers store turns).calls t = .refused error →
    u128Bound ≤ (ran svc serve callers store turns).nextRequestId (callers.client t) + 1 := by
  refine afterTurns_invariant (P := fun s : Clients σ Request Response Op Ans =>
    s.calls t = .refused error → u128Bound ≤ s.nextRequestId (callers.client t) + 1)
    (fun h => by cases h) (fun s a s' ih hturn hcall => ?_) turns
  by_cases ha : a = t
  · subst ha
    obtain ⟨-, hfull, error', rfl⟩ | ⟨-, rfl⟩ | ⟨e, result, -, rfl⟩ | ⟨e, p, q, -, -, rfl⟩ :=
      Clients.turn_cases hturn
    · exact hfull
    all_goals
      rw [show (_ : Clients σ Request Response Op Ans).calls a = _ from Function.update_self ..] at hcall
      cases hcall
  · have hne : t ≠ a := fun h => ha h.symm
    obtain ⟨-, -, error', rfl⟩ | ⟨-, rfl⟩ | ⟨e, result, -, rfl⟩ | ⟨e, p, q, -, -, rfl⟩ :=
      Clients.turn_cases hturn
    · exact ih ((Function.update_of_ne hne ..).symm.trans hcall)
    · have hfull := ih ((Function.update_of_ne hne ..).symm.trans hcall)
      exact hfull.trans (Nat.succ_le_succ (le_update_succ ..))
    · exact ih ((Function.update_of_ne hne ..).symm.trans hcall)
    · exact ih ((Function.update_of_ne hne ..).symm.trans hcall)

/-- Where one handle makes all the calls, a call never finds an answer under its key, so that
its result is the end of its own execution. -/
theorem result_own {store : σ} {turns : List Nat}
    (hone : ∀ t ∈ turns, ∀ t' ∈ turns, callers.client t = callers.client t')
    {p : Phase Response Op Ans} {result : Result (ResponseEnvelope Response)}
    (hsent : ((ran svc serve callers store turns).calls t).sent? = some (e, p))
    (hresult : p.result? = some result) : ∃ before rest, turns = before ++ rest ∧
      (ran svc serve callers store before).calls t = .serving e (.remembering result) := by
  induction turns using List.reverseRecOn generalizing p with
  | nil => cases hsent
  | append_singleton turns a ih =>
    have hone' : ∀ t ∈ turns, ∀ t' ∈ turns, callers.client t = callers.client t' := fun t ht t' ht' =>
      hone t (List.mem_append_left _ ht) t' (List.mem_append_left _ ht')
    have hearlier : ∀ p, ((ran svc serve callers store turns).calls t).sent? =
        some (e, p) → p.result? = some result → ∃ before rest, turns ++ [a] = before ++ rest ∧
          (ran svc serve callers store before).calls t =
            .serving e (.remembering result) := by
      intro p hp hr
      obtain ⟨before, rest, rfl, hbefore⟩ := ih hone' hp hr
      exact ⟨before, rest ++ [a], List.append_assoc .., hbefore⟩
    rw [ran, afterTurns_concat] at hsent
    have htidy : Tidy callers (ran svc serve callers store turns) :=
      tidy_after store turns
    have hmade : ∀ t', ((ran svc serve callers store turns).calls t').sent? ≠ none →
        t' ∈ turns := by
      intro t' ht'
      by_contra hmem
      rw [calls_of_not_mem hmem] at ht'
      exact ht' rfl
    cases hturn : Clients.turn svc serve callers
        (ran svc serve callers store turns) a with
    | none =>
      rw [hturn] at hsent
      exact hearlier p hsent hresult
    | some s' =>
      rw [hturn] at hsent
      generalize hs : ran svc serve callers store turns = s at *
      obtain ⟨-, -, error, rfl⟩ | ⟨-, rfl⟩ | ⟨e', result', hcall, rfl⟩ | ⟨e', q, r, hcall, hstep, rfl⟩ :=
        Clients.turn_cases hturn <;>
        obtain ⟨rfl, hsent'⟩ | ⟨-, hsent'⟩ := sent_update hsent
      · cases hsent'
      · exact hearlier p hsent' hresult
      · cases hsent'
        cases hresult
      · exact hearlier p hsent' hresult
      · cases hsent'
        exact hearlier _ (by rw [hcall]; rfl) hresult
      · exact hearlier p hsent' hresult
      · cases hsent'
        have hsent'' : (s.calls t).sent? = some (e, q) := by
          rw [hcall]
          rfl
        obtain hq | rfl | ⟨rfl, cached, hlookup⟩ := Service.step_result hstep hresult
        · exact hearlier q hsent'' hq
        · exact ⟨turns, [t], rfl, by rw [hs]; exact hcall⟩
        · -- Another call under the key would be of the same handle, with the same identifier.
          obtain ⟨t', e'', p'', hp'', hkey, hsome⟩ := htidy.remembered _ _ hlookup
          have hmem : t' ∈ turns := hmade t' (by rw [hp'']; exact Option.some_ne_none _)
          have hclient := hone t' (List.mem_append_left _ hmem) t (List.mem_append_right _ (List.mem_singleton.2 rfl))
          have ht := htidy.apart t' t e'' e p'' _ hp'' hsent'' hclient (congrArg Prod.snd hkey)
          rw [ht, hsent''] at hp''
          cases hp''
          cases hsome
      · exact hearlier p hsent' hresult

/-- Calls that are all made through one handle are isolated. -/
theorem isolated_of_one_client (svc : Service Request Response Op Ans) (serve : (r : Op) → σ → Ans r × σ)
    (callers : Callers Request) (created? : Response → Option CreatedId) (store : σ) (turns : List Nat)
    (hone : ∀ t ∈ turns, ∀ t' ∈ turns, callers.client t = callers.client t') :
    Isolated svc serve callers created? store turns := by
  have hmade : ∀ t e result, (afterTurns (Clients.turn svc serve callers) (.start store) turns).calls t =
      .returned e result → t ∈ turns := by
    intro t e result hcall
    by_contra hmem
    rw [calls_of_not_mem hmem] at hcall
    cases hcall
  constructor
  case executed =>
    intro t e result hcall
    have hsent : ((afterTurns (Clients.turn svc serve callers) (.start store) turns).calls t).sent? =
        some (e, .finished result) := by
      rw [hcall]
      rfl
    have htidy : Tidy callers (afterTurns (Clients.turn svc serve callers) (.start store) turns) :=
      tidy_after store turns
    exact ⟨(htidy.drawn t e _ hsent).2.1, result_own hone hsent rfl⟩
  case refused => exact refused_after store turns
  case apart =>
    intro t t' e e' r r' id hclient hcall hcall'
    exact absurd (hone t (hmade t e _ hcall) t' (hmade t' e' _ hcall')) hclient

end

/-! Two creates, through one handle and through two. -/

def creators (client : Nat → Nat) : Callers BlockRequest :=
  ⟨client, fun _ => .create ⟨⟨4, 4⟩, none⟩⟩

def bothCreate : List Nat := List.replicate 9 0 ++ List.replicate 9 1

def afterBoth (client : Nat → Nat) :
    Clients Coordinator BlockRequest BlockResponse BlockRequest fun _ => Result BlockResponse :=
  afterTurns (Clients.turn blockService (serveBlock (fun _ => 0) smallConfig) (creators client))
    (.start smallStore) bothCreate

theorem isolated_one_handle : (∀ t ∈ bothCreate, ∀ t' ∈ bothCreate, (creators fun _ => 0).client t =
      (creators fun _ => 0).client t') ∧
    ((afterBoth fun _ => 0).calls 1).returned? =
      some (⟨2, 1, none, .create ⟨⟨4, 4⟩, none⟩⟩, .ok ⟨2, .created 2⟩) ∧
    Isolated blockService (serveBlock (fun _ => 0) smallConfig) (creators fun _ => 0)
      BlockResponse.created? smallStore bothCreate :=
  ⟨fun _ _ _ _ => rfl, by decide +kernel,
    isolated_of_one_client _ _ _ _ _ _ fun _ _ _ _ => rfl⟩

/-- Two handles with one create each are told of the same device. -/
theorem same_device_two_handles : (creators id).client 0 ≠ (creators id).client 1 ∧
    ((afterBoth id).calls 0).returned? =
      some (⟨1, 1, none, .create ⟨⟨4, 4⟩, none⟩⟩, .ok ⟨1, .created 1⟩) ∧
    ((afterBoth id).calls 1).returned? =
      some (⟨1, 1, none, .create ⟨⟨4, 4⟩, none⟩⟩, .ok ⟨1, .created 1⟩) ∧
    (afterBoth id).server.requestLog = [1] ∧
    ¬ Isolated blockService (serveBlock (fun _ => 0) smallConfig) (creators id)
      BlockResponse.created? smallStore bothCreate := by
  have hne : (creators id).client 0 ≠ (creators id).client 1 := Nat.zero_ne_one
  have hfirst : ((afterBoth id).calls 0).returned? =
      some (⟨1, 1, none, .create ⟨⟨4, 4⟩, none⟩⟩, .ok ⟨1, .created 1⟩) := by decide +kernel
  have hsecond : ((afterBoth id).calls 1).returned? =
      some (⟨1, 1, none, .create ⟨⟨4, 4⟩, none⟩⟩, .ok ⟨1, .created 1⟩) := by decide +kernel
  refine ⟨hne, hfirst, hsecond, by decide +kernel, fun hisolated => ?_⟩
  have hcall := ClientCall.eq_returned hfirst
  have hcall' := ClientCall.eq_returned hsecond
  unfold afterBoth at hcall hcall'
  exact hisolated.apart 0 1 _ _ _ _ (.device 1) hne hcall hcall' rfl rfl

end CowStore.Server

import CowStore.Base
import CowStore.Lib.Run
import CowStore.Lib.Script
import CowStore.Lib.Table

/-!
# The local servers

A local server answers request envelopes.  Every call takes the lock of its request's stripe,
looks for a remembered answer under the client epoch and the request identifier, and
otherwise executes the request and remembers how it ended.  The block server and the native
server differ in their requests, their stripes and what they do with the store.

The calls run side by side: `Service.step` is one step of one call, between two points at
which others can come in.  An execution asks for operations of the store one at a time.
-/

namespace CowStore.Server

open Lib StorageError

structure RequestEnvelope (Request : Type) where
  requestId : Nat
  clientEpoch : Nat
  deadline : Option Nat
  request : Request
  deriving DecidableEq, Repr

structure ResponseEnvelope (Response : Type) where
  requestId : Nat
  response : Response
  deriving DecidableEq, Repr

abbrev RequestKey := Nat × Nat

namespace RequestEnvelope

variable {Request Response : Type}

def key (e : RequestEnvelope Request) : RequestKey := (e.clientEpoch, e.requestId)

def respond (e : RequestEnvelope Request) (response : Response) : ResponseEnvelope Response :=
  ⟨e.requestId, response⟩

end RequestEnvelope

structure CachedRequest (Request Response : Type) where
  request : Request
  result : Result (ResponseEnvelope Response)

/-- What the block server and the native server differ in. -/
structure Service (Request Response Op : Type) (Ans : Op → Type) where
  /-- `block` or `native`, as the texts of errors have it. -/
  kind : String
  stripe : Request → Nat
  program : Request → Script Op Ans StorageError Response

structure LocalServer (σ Request Response : Type) where
  store : σ
  requestLog : List Nat
  responses : Table RequestKey (CachedRequest Request Response)
  locked : Nat → Bool

def LocalServer.new {σ Request Response : Type} (store : σ) : LocalServer σ Request Response :=
  ⟨store, [], ∅, fun _ => false⟩

inductive Phase (Response Op : Type) (Ans : Op → Type)
  /-- At the lock of its stripe. -/
  | waiting
  /-- At `cached_response`. -/
  | looking
  /-- Nothing was remembered; at the push to the request log. -/
  | missed
  | executing (rest : Script Op Ans StorageError Response)
  /-- The execution has ended; at `remember_response`. -/
  | remembering (result : Result (ResponseEnvelope Response))
  /-- The result is known and the guard of the stripe is still alive. -/
  | releasing (result : Result (ResponseEnvelope Response))
  | finished (result : Result (ResponseEnvelope Response))

namespace Phase

variable {Response Op : Type} {Ans : Op → Type}

def holds : Phase Response Op Ans → Prop
  | waiting | finished _ => False
  | _ => True

/-- The request is executed in this call and its end is not remembered yet. -/
def executes : Phase Response Op Ans → Prop
  | executing _ | remembering _ => True
  | _ => False

/-- Nothing was remembered when this call looked, and it has not remembered anything yet. -/
def unanswered : Phase Response Op Ans → Prop
  | missed | executing _ | remembering _ => True
  | _ => False

def result? : Phase Response Op Ans → Option (Result (ResponseEnvelope Response))
  | releasing result | finished result => some result
  | _ => none

end Phase

section

variable {σ Request Response Op : Type} {Ans : Op → Type} [DecidableEq Request]
  (svc : Service Request Response Op Ans) (serve : (r : Op) → σ → Ans r × σ)

def Service.reused : StorageError :=
  conflict ("request ID and client epoch reused for a different " ++ svc.kind ++ " request")

/-- `cached_response`, and what follows from it. -/
def Service.lookup (s : LocalServer σ Request Response) (e : RequestEnvelope Request) :
    Phase Response Op Ans :=
  match s.responses.lookup e.key with
  | none => .missed
  | some cached =>
    if cached.request ≠ e.request then .releasing (.error svc.reused) else .releasing cached.result

/-- One step of a call of `handle`; there is none while the stripe is locked by another call. -/
def Service.step (e : RequestEnvelope Request) (s : LocalServer σ Request Response) :
    Phase Response Op Ans → Option (LocalServer σ Request Response × Phase Response Op Ans)
  | .waiting =>
    if s.locked (svc.stripe e.request) then none
    else some ({ s with locked := Function.update s.locked (svc.stripe e.request) true }, .looking)
  | .looking => some (s, svc.lookup s e)
  | .missed =>
    some ({ s with requestLog := s.requestLog ++ [e.requestId] }, .executing (svc.program e.request))
  | .executing (.ask r next) =>
    some ({ s with store := (serve r s.store).2 }, .executing (next (serve r s.store).1))
  | .executing (.done response) => some (s, .remembering (.ok (e.respond response)))
  | .executing (.fail error) => some (s, .remembering (.error error))
  | .remembering result =>
    some ({ s with responses := s.responses.insert e.key ⟨e.request, result⟩ }, .releasing result)
  | .releasing result =>
    some ({ s with locked := Function.update s.locked (svc.stripe e.request) false },
      .finished result)
  | .finished _ => none

end

/-! ## One execution at a time -/

abbrev Calls (Request Response Op : Type) (Ans : Op → Type) :=
  Nat → Option (RequestEnvelope Request × Phase Response Op Ans)

section

variable {σ Request Response Op : Type} {Ans : Op → Type}

def DistinctKeys (Sent : RequestEnvelope Request → Prop) : Prop :=
  ∀ e e', Sent e → Sent e' → e.key = e'.key → e.request = e'.request

/-- The calls under way with `s`: those that hold a stripe hold it alone, and what they have
found or not found under their keys is still so. -/
structure Guarded (svc : Service Request Response Op Ans) (Sent : RequestEnvelope Request → Prop)
    (s : LocalServer σ Request Response) (calls : Calls Request Response Op Ans) : Prop where
  sent : ∀ t e p, calls t = some (e, p) → Sent e
  locked : ∀ t e p, calls t = some (e, p) → p.holds → s.locked (svc.stripe e.request) = true
  alone : ∀ t t' e e' p p', calls t = some (e, p) → calls t' = some (e', p') → p.holds → p'.holds →
    svc.stripe e.request = svc.stripe e'.request → t = t'
  unanswered : ∀ t e p, calls t = some (e, p) → p.unanswered → s.responses.lookup e.key = none
  answered : ∀ t e p result, calls t = some (e, p) → p.result? = some result →
    s.responses.lookup e.key = some ⟨e.request, result⟩
  cached : ∀ key cached, s.responses.lookup key = some cached →
    ∃ e, Sent e ∧ e.key = key ∧ e.request = cached.request

theorem Phase.holds_of_unanswered {p : Phase Response Op Ans} (h : p.unanswered) : p.holds := by
  cases p with
  | missed => trivial
  | executing rest => trivial
  | remembering result => trivial
  | waiting => cases h
  | looking => cases h
  | releasing result => cases h
  | finished result => cases h

variable {svc : Service Request Response Op Ans} {serve : (r : Op) → σ → Ans r × σ}
  {Sent : RequestEnvelope Request → Prop} {s s' : LocalServer σ Request Response}
  {calls : Calls Request Response Op Ans} {t : Nat} {e : RequestEnvelope Request}
  {p p' : Phase Response Op Ans}

/-- One call moves from `p` to `p'`.  It has the lock of its stripe or finds it free, it
touches that lock and its own key only, and what stands under the key is not replaced. -/
theorem Guarded.move (h : Guarded svc Sent s calls) (hkeys : DistinctKeys Sent)
    (hcall : calls t = some (e, p)) (hstripe : p.holds ∨ s.locked (svc.stripe e.request) = false)
    (hlocks : ∀ k, k ≠ svc.stripe e.request → s'.locked k = s.locked k)
    (hresponses : ∀ k, k ≠ e.key → s'.responses.lookup k = s.responses.lookup k)
    (hkept : ∀ cached, s.responses.lookup e.key = some cached → s'.responses.lookup e.key = some cached)
    (hcached : ∀ cached, s'.responses.lookup e.key = some cached → cached.request = e.request)
    (hlocked : p'.holds → s'.locked (svc.stripe e.request) = true)
    (hun : p'.unanswered → s'.responses.lookup e.key = none) (hres : ∀ result, p'.result? = some result →
      s'.responses.lookup e.key = some ⟨e.request, result⟩) :
    Guarded svc Sent s' (Function.update calls t (some (e, p'))) := by
  have halone : ∀ t' e' q, t' ≠ t → calls t' = some (e', q) → q.holds →
      svc.stripe e'.request ≠ svc.stripe e.request := by
    intro t' e' q hne hq hholds heq
    obtain hp | hfree := hstripe
    · exact hne (h.alone t' t e' e q p hq hcall hholds hp heq)
    · have hlocked' := h.locked t' e' q hq hholds
      rw [heq, hfree] at hlocked'
      cases hlocked'
  constructor
  case sent =>
    intro t' e' q hq
    obtain ⟨-, ⟨⟩⟩ | ⟨-, hq⟩ := update_eq hq
    · exact h.sent t _ p hcall
    · exact h.sent t' e' q hq
  case locked =>
    intro t' e' q hq hholds
    obtain ⟨-, ⟨⟩⟩ | ⟨hne, hq⟩ := update_eq hq
    · exact hlocked hholds
    · rw [hlocks _ (halone t' e' q hne hq hholds)]
      exact h.locked t' e' q hq hholds
  case alone =>
    intro t1 t2 e1 e2 p1 p2 h1 h2 hh1 hh2 heq
    obtain ⟨ht1, ⟨⟩⟩ | ⟨hne1, h1⟩ := update_eq h1 <;>
      obtain ⟨ht2, ⟨⟩⟩ | ⟨hne2, h2⟩ := update_eq h2
    · rw [ht1, ht2]
    · exact absurd heq.symm (halone t2 e2 p2 hne2 h2 hh2)
    · exact absurd heq (halone t1 e1 p1 hne1 h1 hh1)
    · exact h.alone t1 t2 e1 e2 p1 p2 h1 h2 hh1 hh2 heq
  case unanswered =>
    intro t' e' q hq hun'
    obtain ⟨-, ⟨⟩⟩ | ⟨hne, hq⟩ := update_eq hq
    · exact hun hun'
    · have hkey : e'.key ≠ e.key := fun hkey =>
        halone t' e' q hne hq (Phase.holds_of_unanswered hun')
          (congrArg svc.stripe (hkeys e' e (h.sent t' e' q hq) (h.sent t e p hcall) hkey))
      rw [hresponses _ hkey]
      exact h.unanswered t' e' q hq hun'
  case answered =>
    intro t' e' q result hq hres'
    obtain ⟨-, ⟨⟩⟩ | ⟨-, hq⟩ := update_eq hq
    · exact hres result hres'
    · have hcached := h.answered t' e' q result hq hres'
      by_cases hkey : e'.key = e.key
      · rw [hkey] at hcached ⊢
        exact hkept _ hcached
      · rw [hresponses _ hkey]
        exact hcached
  case cached =>
    intro key cached hlookup
    by_cases hkey : key = e.key
    · rw [hkey] at hlookup
      exact ⟨e, h.sent t e p hcall, hkey.symm, (hcached cached hlookup).symm⟩
    · rw [hresponses _ hkey] at hlookup
      exact h.cached key cached hlookup

theorem Guarded.cached_request (h : Guarded svc Sent s calls) (hkeys : DistinctKeys Sent)
    (hsent : Sent e) {cached : CachedRequest Request Response}
    (hlookup : s.responses.lookup e.key = some cached) : cached.request = e.request := by
  obtain ⟨e', hsent', hkey, hrequest⟩ := h.cached _ _ hlookup
  rw [← hrequest]
  exact hkeys e' e hsent' hsent hkey

variable [DecidableEq Request]

theorem Service.step_waiting (hstep : svc.step serve e s .waiting = some (s', p')) :
    s.locked (svc.stripe e.request) = false ∧
      { s with locked := Function.update s.locked (svc.stripe e.request) true } = s' ∧
      .looking = p' := by
  by_cases hlock : s.locked (svc.stripe e.request)
  · rw [Service.step, if_pos hlock] at hstep
    cases hstep
  · rw [Service.step, if_neg hlock] at hstep
    cases hstep
    exact ⟨Bool.eq_false_of_not_eq_true hlock, rfl, rfl⟩

theorem Guarded.step (h : Guarded svc Sent s calls) (hkeys : DistinctKeys Sent)
    (hcall : calls t = some (e, p)) (hstep : svc.step serve e s p = some (s', p')) :
    Guarded svc Sent s' (Function.update calls t (some (e, p'))) := by
  have hsame : ∀ cached, s.responses.lookup e.key = some cached → cached.request = e.request :=
    fun _ hlookup => h.cached_request hkeys (h.sent t e p hcall) hlookup
  cases p with
  | waiting =>
    obtain ⟨hlock, rfl, rfl⟩ := Service.step_waiting hstep
    exact h.move hkeys hcall (.inr hlock) (fun k hk => Function.update_of_ne hk ..) (fun _ _ => rfl)
      (fun _ hc => hc) hsame (fun _ => Function.update_self ..) nofun nofun
  | looking =>
    cases hstep
    have hfound : ∀ result, (svc.lookup s e).result? = some result →
        s.responses.lookup e.key = some ⟨e.request, result⟩ := by
      intro result hres
      unfold Service.lookup at hres
      cases hlookup : s.responses.lookup e.key with
      | none =>
        rw [hlookup] at hres
        cases hres
      | some cached =>
        have hrequest := hsame cached hlookup
        rw [hlookup] at hres
        simp only [hrequest, ne_eq, not_true_eq_false, if_false] at hres
        cases hres
        rw [← hrequest]
    have hmissed : (svc.lookup s e).unanswered → s.responses.lookup e.key = none := by
      intro hun
      unfold Service.lookup at hun
      split at hun
      · next hlookup => exact hlookup
      · split at hun <;> cases hun
    exact h.move hkeys hcall (.inl trivial) (fun _ _ => rfl) (fun _ _ => rfl) (fun _ hc => hc) hsame
      (fun _ => h.locked t e _ hcall trivial) hmissed hfound
  | missed =>
    cases hstep
    exact h.move hkeys hcall (.inl trivial) (fun _ _ => rfl) (fun _ _ => rfl) (fun _ hc => hc) hsame
      (fun _ => h.locked t e _ hcall trivial) (fun _ => h.unanswered t e _ hcall trivial)
      nofun
  | executing rest =>
    have hun := h.unanswered t e _ hcall trivial
    have hlocked := h.locked t e _ hcall trivial
    cases rest <;> cases hstep <;>
      exact h.move hkeys hcall (.inl trivial) (fun _ _ => rfl) (fun _ _ => rfl) (fun _ hc => hc) hsame
        (fun _ => hlocked) (fun _ => hun) nofun
  | remembering result =>
    cases hstep
    refine h.move hkeys hcall (.inl trivial) (fun _ _ => rfl) (fun k hk => AList.lookup_insert_ne hk)
      (fun cached hlookup => ?_) (fun cached hlookup => ?_) (fun _ => h.locked t e _ hcall trivial)
      nofun (fun r hres => ?_)
    · rw [h.unanswered t e _ hcall trivial] at hlookup
      cases hlookup
    · rw [AList.lookup_insert] at hlookup
      cases hlookup
      rfl
    · cases hres
      exact AList.lookup_insert _
  | releasing result =>
    cases hstep
    exact h.move hkeys hcall (.inl trivial) (fun k hk => Function.update_of_ne hk ..)
      (fun _ _ => rfl) (fun _ hc => hc) hsame nofun
      nofun (fun r hres => h.answered t e _ r hcall hres)
  | finished result => cases hstep

/-- A step remembers the end of an execution, or it leaves what is remembered alone and an
execution goes on. -/
theorem Service.step_responses (hstep : svc.step serve e s p = some (s', p')) :
    (s'.responses = s.responses ∧ (p.executes → p'.executes)) ∨
      ∃ result, p = .remembering result ∧ p' = .releasing result ∧
        s'.responses = s.responses.insert e.key ⟨e.request, result⟩ := by
  cases p with
  | waiting =>
    obtain ⟨-, rfl, rfl⟩ := Service.step_waiting hstep
    exact .inl ⟨rfl, id⟩
  | looking =>
    cases hstep
    exact .inl ⟨rfl, nofun⟩
  | missed =>
    cases hstep
    exact .inl ⟨rfl, nofun⟩
  | executing rest => cases rest <;> cases hstep <;> exact .inl ⟨rfl, id⟩
  | remembering result =>
    cases hstep
    exact .inr ⟨result, rfl, rfl, rfl⟩
  | releasing result =>
    cases hstep
    exact .inl ⟨rfl, nofun⟩
  | finished result => cases hstep

theorem Service.step_keeps_result (hstep : svc.step serve e s p = some (s', p'))
    (hresult : p.result?.isSome) : p'.result?.isSome := by
  cases p with
  | releasing result =>
    cases hstep
    rfl
  | finished result => cases hstep
  | _ => cases hresult

theorem Service.step_result (hstep : svc.step serve e s p = some (s', p'))
    {result : Result (ResponseEnvelope Response)} (hresult : p'.result? = some result) :
    p.result? = some result ∨ p = .remembering result ∨
      p = .looking ∧ ∃ cached, s.responses.lookup e.key = some cached := by
  cases p with
  | waiting =>
    obtain ⟨-, rfl, rfl⟩ := Service.step_waiting hstep
    cases hresult
  | looking =>
    cases hstep
    cases hlookup : s.responses.lookup e.key with
    | none =>
      rw [Service.lookup, hlookup] at hresult
      cases hresult
    | some cached => exact .inr (.inr ⟨rfl, cached, rfl⟩)
  | missed =>
    cases hstep
    cases hresult
  | executing rest => cases rest <;> cases hstep <;> cases hresult
  | remembering result' =>
    cases hstep
    cases hresult
    exact .inr (.inl rfl)
  | releasing result' =>
    cases hstep
    exact .inl hresult
  | finished result' => cases hstep

theorem Guarded.extends_step (h : Guarded svc Sent s calls) (hcall : calls t = some (e, p))
    (hstep : svc.step serve e s p = some (s', p')) : s.responses.Extends s'.responses := by
  obtain ⟨hsame, -⟩ | ⟨result, rfl, -, hinsert⟩ := Service.step_responses hstep
  · rw [hsame]
    exact .refl _
  · rw [hinsert]
    exact Table.extends_insert _ (h.unanswered t e _ hcall trivial)

omit [DecidableEq Request] in
theorem Guarded.enter (h : Guarded svc Sent s calls) (hsent : Sent e) :
    Guarded svc Sent s (Function.update calls t (some (e, .waiting))) := by
  constructor
  case sent =>
    intro t' e' q hq
    obtain ⟨-, ⟨⟩⟩ | ⟨-, hq⟩ := update_eq hq
    · exact hsent
    · exact h.sent t' e' q hq
  case locked =>
    intro t' e' q hq hholds
    obtain ⟨-, ⟨⟩⟩ | ⟨-, hq⟩ := update_eq hq
    · cases hholds
    · exact h.locked t' e' q hq hholds
  case alone =>
    intro t1 t2 e1 e2 p1 p2 h1 h2 hh1 hh2 heq
    obtain ⟨-, ⟨⟩⟩ | ⟨-, h1⟩ := update_eq h1
    · cases hh1
    · obtain ⟨-, ⟨⟩⟩ | ⟨-, h2⟩ := update_eq h2
      · cases hh2
      · exact h.alone t1 t2 e1 e2 p1 p2 h1 h2 hh1 hh2 heq
  case unanswered =>
    intro t' e' q hq hun
    obtain ⟨-, ⟨⟩⟩ | ⟨-, hq⟩ := update_eq hq
    · cases hun
    · exact h.unanswered t' e' q hq hun
  case answered =>
    intro t' e' q result hq hres
    obtain ⟨-, ⟨⟩⟩ | ⟨-, hq⟩ := update_eq hq
    · cases hres
    · exact h.answered t' e' q result hq hres
  case cached => exact h.cached

omit [DecidableEq Request] in
theorem Guarded.of_fewer (h : Guarded svc Sent s calls) {calls' : Calls Request Response Op Ans}
    (hfewer : ∀ t e p, calls' t = some (e, p) → calls t = some (e, p)) :
    Guarded svc Sent s calls' where
  sent t e p hc := h.sent t e p (hfewer t e p hc)
  locked t e p hc := h.locked t e p (hfewer t e p hc)
  alone t t' e e' p p' hc hc' := h.alone t t' e e' p p' (hfewer t e p hc) (hfewer t' e' p' hc')
  unanswered t e p hc := h.unanswered t e p (hfewer t e p hc)
  answered t e p result hc := h.answered t e p result (hfewer t e p hc)
  cached := h.cached

/-- A request with this key is being executed or has been. -/
def Started (s : LocalServer σ Request Response) (calls : Calls Request Response Op Ans)
    (key : RequestKey) : Prop :=
  (∃ t e p, calls t = some (e, p) ∧ e.key = key ∧ p.executes) ∨
    ∃ cached, s.responses.lookup key = some cached

theorem Started.step {key : RequestKey} (h : Started s calls key) (hcall : calls t = some (e, p))
    (hstep : svc.step serve e s p = some (s', p')) :
    Started s' (Function.update calls t (some (e, p'))) key := by
  have hcached : ∀ cached, s.responses.lookup key = some cached →
      ∃ cached, s'.responses.lookup key = some cached := by
    intro cached hlookup
    obtain ⟨hsame, -⟩ | ⟨result, -, -, hinsert⟩ := Service.step_responses hstep
    · exact ⟨cached, by rw [hsame, hlookup]⟩
    · rw [hinsert, ← Option.isSome_iff_exists, AList.lookup_isSome, AList.mem_insert]
      exact .inr (AList.lookup_isSome.1 (by rw [hlookup]; rfl))
  obtain ⟨t', e', q, hcall', hkey, hexecutes⟩ | ⟨cached, hlookup⟩ := h
  · by_cases ht : t' = t
    · rw [ht, hcall] at hcall'
      cases hcall'
      obtain ⟨-, hgoes⟩ | ⟨result, -, -, hinsert⟩ := Service.step_responses hstep
      · exact .inl ⟨t, e, p', Function.update_self .., hkey, hgoes hexecutes⟩
      · exact .inr ⟨_, by rw [hinsert, ← hkey, AList.lookup_insert]⟩
    · exact .inl ⟨t', e', q, by rw [Function.update_of_ne ht, hcall'], hkey, hexecutes⟩
  · exact .inr (hcached cached hlookup)

end

end CowStore.Server

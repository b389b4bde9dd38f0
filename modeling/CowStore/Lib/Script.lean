import CowStore.Lib.Fallible
import Mathlib.Data.List.Induction

/-!
# Interleaved programs

A script asks for atomic operations of a shared state, one after the other, and ends with
a result or a failure.  Several scripts run side by side: `Interleaving` says that a list
of operations is what they did together, in this order.  Each of them has done a first
part of its own run, and every operation was served in the state that the operations
before it had left.

`Returns p es a` and `Reaches p es r` speak of one script: it has gone through the
operations `es` and returned `a`, or is about to ask for `r`.  Both have a rule for every
way to put scripts together, so that what a script has done before it asks for something
can be read off its text.
-/

namespace CowStore.Lib

/-- A program that asks for operations of a shared state. -/
inductive Script (Req : Type) (Ans : Req → Type) (ε α : Type)
  | done (a : α)
  | fail (e : ε)
  | ask (r : Req) (next : Ans r → Script Req Ans ε α)

abbrev Event (Req : Type) (Ans : Req → Type) := Sigma Ans

namespace Script

variable {Req : Type} {Ans : Req → Type} {ε α β γ : Type}

protected def bind : Script Req Ans ε α → (α → Script Req Ans ε β) → Script Req Ans ε β
  | done a, f => f a
  | fail e, _ => fail e
  | ask r next, f => ask r fun x => (next x).bind f

instance : Monad (Script Req Ans ε) where
  pure := done
  bind := Script.bind

instance : MonadLift (Except ε) (Script Req Ans ε) where
  monadLift
    | .ok a => done a
    | .error e => fail e

def request (r : Req) : Script Req Ans ε (Ans r) := ask r done

@[simp] theorem pure_eq_done (a : α) : (pure a : Script Req Ans ε α) = done a := rfl

@[simp] theorem done_bind (a : α) (f : α → Script Req Ans ε β) : (done a >>= f) = f a := rfl

@[simp] theorem fail_bind (e : ε) (f : α → Script Req Ans ε β) : (fail e >>= f) = fail e := rfl

@[simp] theorem ask_bind (r : Req) (next : Ans r → Script Req Ans ε α)
    (f : α → Script Req Ans ε β) : (ask r next >>= f) = ask r fun x => next x >>= f := rfl

@[simp] theorem lift_ok (a : α) : (liftM (.ok a : Except ε α) : Script Req Ans ε α) = done a := rfl

@[simp] theorem lift_error (e : ε) :
    (liftM (.error e : Except ε α) : Script Req Ans ε α) = fail e := rfl

theorem bind_done (p : Script Req Ans ε α) : (p >>= done) = p := by
  induction p with
  | done a => rfl
  | fail e => rfl
  | ask r next ih => rw [ask_bind]; exact congrArg _ (funext ih)

theorem bind_assoc (p : Script Req Ans ε α) (f : α → Script Req Ans ε β)
    (g : β → Script Req Ans ε γ) : (p >>= f >>= g) = p >>= fun a => f a >>= g := by
  induction p with
  | done a => rfl
  | fail e => rfl
  | ask r next ih => simp only [ask_bind, ih]

instance : LawfulMonad (Script Req Ans ε) :=
  LawfulMonad.mk' _ bind_done (fun _ _ => rfl) bind_assoc

def result? : Script Req Ans ε α → Option α
  | done a => some a
  | _ => none

variable {x : Except ε α} {a : α} {f : α → Script Req Ans ε β} {b : β}

theorem eq_done_of_result? {p : Script Req Ans ε α} (h : p.result? = some a) : p = done a := by
  cases p with
  | done b => exact congrArg done (Option.some.inj h)
  | fail e => cases h
  | ask r next => cases h

/-! ## What one script does -/

/-- `p` has gone through the operations and `q` is left of it. -/
inductive Steps : Script Req Ans ε α → List (Event Req Ans) → Script Req Ans ε α → Prop
  | nil (p : Script Req Ans ε α) : Steps p [] p
  | cons {r : Req} {next : Ans r → Script Req Ans ε α} {x : Ans r} {es : List (Event Req Ans)}
      {q : Script Req Ans ε α} (h : Steps (next x) es q) : Steps (ask r next) (⟨r, x⟩ :: es) q

/-- `p` has gone through the operations and returned `a`. -/
def Returns (p : Script Req Ans ε α) (es : List (Event Req Ans)) (a : α) : Prop :=
  Steps p es (done a)

/-- `p` has gone through the operations and is about to ask for `r`. -/
def Reaches (p : Script Req Ans ε α) (es : List (Event Req Ans)) (r : Req) : Prop :=
  ∃ next, Steps p es (ask r next)

variable {p q : Script Req Ans ε α} {es es' : List (Event Req Ans)} {r : Req}

theorem Steps.append {p' : Script Req Ans ε α} (h : Steps p es q) (h' : Steps q es' p') :
    Steps p (es ++ es') p' := by
  induction h with
  | nil p => exact h'
  | cons _ ih => exact .cons (ih h')

theorem steps_append : Steps p (es ++ es') q ↔ ∃ p', Steps p es p' ∧ Steps p' es' q := by
  constructor
  · intro h
    induction es generalizing p with
    | nil => exact ⟨p, .nil p, h⟩
    | cons e es ih =>
      cases h with
      | cons h =>
        obtain ⟨p', hp', hq⟩ := ih h
        exact ⟨p', .cons hp', hq⟩
  · rintro ⟨p', h, h'⟩
    exact h.append h'

/-- What is left of a sequence: of its first part, or of the second. -/
theorem steps_bind {q : Script Req Ans ε β} (h : Steps (p >>= f) es q) :
    (∃ p', Steps p es p' ∧ q = p' >>= f) ∨
      ∃ a es₁ es₂, es = es₁ ++ es₂ ∧ Returns p es₁ a ∧ Steps (f a) es₂ q := by
  induction p generalizing es with
  | done a => exact .inr ⟨a, [], es, rfl, .nil _, h⟩
  | fail e =>
    rw [fail_bind] at h
    cases h
    exact .inl ⟨fail e, .nil _, rfl⟩
  | ask r next ih =>
    rw [ask_bind] at h
    cases h with
    | nil => exact .inl ⟨ask r next, .nil _, rfl⟩
    | @cons _ _ x es _ h =>
      obtain ⟨p', hp', rfl⟩ | ⟨a, es₁, es₂, rfl, hreturns, hrest⟩ := ih x h
      · exact .inl ⟨p', .cons hp', rfl⟩
      · exact .inr ⟨a, ⟨r, x⟩ :: es₁, es₂, rfl, .cons hreturns, hrest⟩

theorem Steps.bind (h : Steps p es q) (f : α → Script Req Ans ε β) : Steps (p >>= f) es (q >>= f) := by
  induction h with
  | nil p => exact .nil _
  | cons _ ih => exact .cons ih

theorem returns_bind : Returns (p >>= f) es b ↔
      ∃ a es₁ es₂, es = es₁ ++ es₂ ∧ Returns p es₁ a ∧ Returns (f a) es₂ b := by
  constructor
  · intro h
    obtain ⟨p', hp', heq⟩ | h := steps_bind h
    · cases p' with
      | done a => exact ⟨a, es, [], (List.append_nil es).symm, hp', by rw [Returns, heq]; exact .nil _⟩
      | fail e => cases heq
      | ask r next => cases heq
    · exact h
  · rintro ⟨a, es₁, es₂, rfl, hp, hf⟩
    exact (hp.bind f).append hf

theorem reaches_bind : Reaches (p >>= f) es r ↔
      Reaches p es r ∨ ∃ a es₁ es₂, es = es₁ ++ es₂ ∧ Returns p es₁ a ∧ Reaches (f a) es₂ r := by
  constructor
  · rintro ⟨next, h⟩
    obtain ⟨p', hp', heq⟩ | ⟨a, es₁, es₂, rfl, hp, hf⟩ := steps_bind h
    · cases p' with
      | done a => exact .inr ⟨a, es, [], (List.append_nil es).symm, hp', next, by rw [heq]; exact .nil _⟩
      | fail e => cases heq
      | ask r' next' =>
        rw [ask_bind] at heq
        cases heq
        exact .inl ⟨next', hp'⟩
    · exact .inr ⟨a, es₁, es₂, rfl, hp, next, hf⟩
  · rintro (⟨next, h⟩ | ⟨a, es₁, es₂, rfl, hp, next, hf⟩)
    · exact ⟨_, h.bind f⟩
    · exact ⟨next, (hp.bind f).append hf⟩

@[simp] theorem returns_done {b : α} :
    Returns (done a : Script Req Ans ε α) es b ↔ es = [] ∧ a = b := by
  constructor
  · intro h
    cases h
    exact ⟨rfl, rfl⟩
  · rintro ⟨rfl, rfl⟩
    exact .nil _

@[simp] theorem not_returns_fail {e : ε} :
    ¬ Returns (fail e : Script Req Ans ε α) es a := nofun

@[simp] theorem not_reaches_done : ¬ Reaches (done a : Script Req Ans ε α) es r :=
  fun ⟨_, h⟩ => by cases h

@[simp] theorem not_reaches_fail {e : ε} : ¬ Reaches (fail e : Script Req Ans ε α) es r :=
  fun ⟨_, h⟩ => by cases h

theorem returns_request {x : Ans r} :
    Returns (request r : Script Req Ans ε (Ans r)) es x ↔ es = [⟨r, x⟩] := by
  constructor
  · intro h
    cases h with
    | cons h =>
      cases h
      rfl
  · rintro rfl
    exact .cons (.nil _)

theorem reaches_request {r' : Req} :
    Reaches (request r : Script Req Ans ε (Ans r)) es r' ↔ es = [] ∧ r = r' := by
  constructor
  · rintro ⟨next, h⟩
    cases h with
    | nil => exact ⟨rfl, rfl⟩
    | cons h => cases h
  · rintro ⟨rfl, rfl⟩
    exact ⟨_, .nil _⟩

theorem returns_lift : Returns (liftM x : Script Req Ans ε α) es a ↔ es = [] ∧ x = .ok a := by
  cases x with
  | error e => simp
  | ok b => simp

@[simp] theorem not_reaches_lift : ¬ Reaches (liftM x : Script Req Ans ε α) es r := by
  cases x with
  | error e => simp
  | ok b => simp

theorem returns_lift_bind : Returns (liftM x >>= f) es b ↔ ∃ a, x = .ok a ∧ Returns (f a) es b := by
  cases x with
  | error e => simp
  | ok a => simp

theorem reaches_lift_bind : Reaches (liftM x >>= f) es r ↔ ∃ a, x = .ok a ∧ Reaches (f a) es r := by
  cases x with
  | error e => simp
  | ok a => simp

theorem returns_request_bind {f : Ans r → Script Req Ans ε β} :
    Returns (request r >>= f) es b ↔ ∃ x es', es = ⟨r, x⟩ :: es' ∧ Returns (f x) es' b := by
  constructor
  · intro h
    obtain ⟨x, es1, es2, rfl, hx, hf⟩ := returns_bind.1 h
    rw [returns_request.1 hx]
    exact ⟨x, es2, rfl, hf⟩
  · rintro ⟨x, es', rfl, hf⟩
    exact .cons hf

theorem reaches_request_bind {f : Ans r → Script Req Ans ε β} {r' : Req} : Reaches (request r >>= f) es r' ↔
      (es = [] ∧ r = r') ∨ ∃ x es', es = ⟨r, x⟩ :: es' ∧ Reaches (f x) es' r' := by
  rw [reaches_bind, reaches_request]
  refine or_congr_right ⟨?_, ?_⟩
  · rintro ⟨x, es1, es2, rfl, hx, hf⟩
    rw [returns_request.1 hx]
    exact ⟨x, es2, rfl, hf⟩
  · rintro ⟨x, es', rfl, hf⟩
    exact ⟨x, [⟨r, x⟩], es', rfl, returns_request.2 rfl, hf⟩

/-! ## Loops -/

variable {xs : List α}

/-- The rounds of a loop that returned: what each went through, and its result. -/
theorem returns_mapM {ys : List β} (h : Returns (xs.mapM f) es ys) :
    ∃ rounds : List (List (Event Req Ans) × β), ys = rounds.map (·.2) ∧ es = (rounds.map (·.1)).flatten ∧
        List.Forall₂ (fun x round => Returns (f x) round.1 round.2) xs rounds := by
  induction xs generalizing es ys with
  | nil =>
    rw [List.mapM_nil, pure_eq_done, returns_done] at h
    obtain ⟨rfl, rfl⟩ := h
    exact ⟨[], rfl, rfl, .nil⟩
  | cons x xs ih =>
    rw [List.mapM_cons] at h
    obtain ⟨y, es1, es2, rfl, hy, h⟩ := returns_bind.1 h
    obtain ⟨ys', es3, es4, rfl, hys, h⟩ := returns_bind.1 h
    rw [pure_eq_done, returns_done] at h
    obtain ⟨rfl, rfl⟩ := h
    obtain ⟨rounds, rfl, rfl, hrounds⟩ := ih hys
    exact ⟨(es1, y) :: rounds, rfl, by simp, .cons hy hrounds⟩

/-- A loop that asks for something does so in one of its rounds, after full ones. -/
theorem reaches_mapM (h : Reaches (xs.mapM f) es r) : ∃ before x after es₁ es₂ ys,
      xs = before ++ x :: after ∧ es = es₁ ++ es₂ ∧ Returns (before.mapM f) es₁ ys ∧ Reaches (f x) es₂ r := by
  induction xs generalizing es with
  | nil =>
    rw [List.mapM_nil] at h
    exact absurd h not_reaches_done
  | cons x xs ih =>
    rw [List.mapM_cons] at h
    obtain h | ⟨y, es₁, es₂, rfl, hy, h⟩ := reaches_bind.1 h
    · exact ⟨[], x, xs, [], es, [], rfl, rfl, by simp, h⟩
    · obtain h | ⟨ys, es3, es4, rfl, hys, h⟩ := reaches_bind.1 h
      · obtain ⟨before, x', after, es3, es4, ys, rfl, rfl, hbefore, hreach⟩ := ih h
        refine ⟨x :: before, x', after, es₁ ++ es3, es4, y :: ys, rfl, by simp, ?_, hreach⟩
        rw [List.mapM_cons]
        exact returns_bind.2 ⟨y, es₁, es3, rfl, hy,
          returns_bind.2 ⟨ys, es3, [], by simp, hbefore, by simp⟩⟩
      · exact absurd h not_reaches_done

/-! ## The requests of a script -/

/-- Whatever the answers, `p` asks only for what meets `P`. -/
def Asks (P : Req → Prop) : Script Req Ans ε α → Prop
  | done _ => True
  | fail _ => True
  | ask r next => P r ∧ ∀ x, (next x).Asks P

variable {P : Req → Prop}

theorem Asks.bind (hp : p.Asks P) (hf : ∀ a, (f a).Asks P) : (p >>= f).Asks P := by
  induction p with
  | done a => exact hf a
  | fail e => trivial
  | ask r next ih => exact ⟨hp.1, fun x => ih x (hp.2 x)⟩

theorem asks_request (h : P r) : (request r : Script Req Ans ε (Ans r)).Asks P :=
  ⟨h, fun _ => trivial⟩

theorem asks_lift {x : Except ε α} : (liftM x : Script Req Ans ε α).Asks P := by
  cases x with
  | error e => trivial
  | ok a => trivial

theorem asks_mapM (h : ∀ x ∈ xs, (f x).Asks P) : (xs.mapM f).Asks P := by
  induction xs with
  | nil =>
    rw [List.mapM_nil]
    trivial
  | cons x xs ih =>
    rw [List.mapM_cons]
    refine (h x List.mem_cons_self).bind fun y => ?_
    exact (ih fun x' hx' => h x' (List.mem_cons_of_mem x hx')).bind fun ys => trivial

theorem Asks.mono {P' : Req → Prop} (h : p.Asks P) (hP : ∀ r, P r → P' r) : p.Asks P' := by
  induction p with
  | done a => trivial
  | fail e => trivial
  | ask r next ih => exact ⟨hP r h.1, fun x => ih x (h.2 x)⟩

theorem Asks.steps (h : p.Asks P) (hsteps : Steps p es q) : (∀ e ∈ es, P e.1) ∧ q.Asks P := by
  induction hsteps with
  | nil p => exact ⟨by simp, h⟩
  | cons _ ih =>
    obtain ⟨hes, hq⟩ := ih (h.2 _)
    exact ⟨List.forall_mem_cons.2 ⟨h.1, hes⟩, hq⟩

theorem Asks.reaches (h : p.Asks P) (hreach : Reaches p es r) : P r := by
  obtain ⟨next, hsteps⟩ := hreach
  exact (h.steps hsteps).2.1

end Script

/-! ## Scripts side by side -/

theorem exists_append_of_getElem? {ι : Type} {xs : List ι} {i : Nat} {x : ι} (h : xs[i]? = some x) :
    ∃ ys zs, xs = ys ++ x :: zs ∧ ys.length = i := by
  obtain ⟨hlt, rfl⟩ := List.getElem?_eq_some_iff.1 h
  refine ⟨xs.take i, xs.drop (i + 1), ?_, List.length_take_of_le (Nat.le_of_lt hlt)⟩
  rw [List.getElem_cons_drop, List.take_append_drop]

theorem append_cons_eq_append_cons {ι : Type} {xs xs' ys ys' : List ι} {x x' : ι}
    (h : xs ++ x :: ys = xs' ++ x' :: ys') : (xs = xs' ∧ x = x' ∧ ys = ys') ∨
      (∃ mid, xs' = xs ++ x :: mid ∧ ys = mid ++ x' :: ys') ∨
      ∃ mid, xs = xs' ++ x' :: mid ∧ ys' = mid ++ x :: ys := by
  obtain ⟨mid, rfl, hmid⟩ | ⟨mid, rfl, hmid⟩ := List.append_eq_append_iff.1 h
  · cases mid with
    | nil =>
      cases hmid
      exact .inl ⟨by rw [List.append_nil], rfl, rfl⟩
    | cons y mid =>
      cases hmid
      exact .inr (.inl ⟨mid, rfl, rfl⟩)
  · cases mid with
    | nil =>
      cases hmid
      exact .inl ⟨by rw [List.append_nil], rfl, rfl⟩
    | cons y mid =>
      cases hmid
      exact .inr (.inr ⟨mid, rfl, rfl⟩)

section

variable {Req : Type} {Ans : Req → Type} {ε α σ : Type}

structure Act (Req : Type) (Ans : Req → Type) where
  thread : Nat
  event : Event Req Ans

def own (t : Nat) (acts : List (Act Req Ans)) : List (Event Req Ans) :=
  (acts.filter fun act => act.thread = t).map Act.event

@[simp] theorem own_nil (t : Nat) : own t ([] : List (Act Req Ans)) = [] := rfl

theorem own_append (t : Nat) (acts acts' : List (Act Req Ans)) :
    own t (acts ++ acts') = own t acts ++ own t acts' := by
  simp [own]

theorem own_cons_self (act : Act Req Ans) (acts : List (Act Req Ans)) :
    own act.thread (act :: acts) = act.event :: own act.thread acts := by
  simp [own]

theorem own_append_cons (t : Nat) (acts acts' : List (Act Req Ans)) (e : Event Req Ans) :
    own t (acts ++ ⟨t, e⟩ :: acts') = own t acts ++ e :: own t acts' := by
  simp [own]

variable {acts : List (Act Req Ans)} {t : Nat}

theorem own_cons_of_ne {act : Act Req Ans} (h : act.thread ≠ t) (acts : List (Act Req Ans)) :
    own t (act :: acts) = own t acts := by
  simp [own, h]

theorem mem_own {e : Event Req Ans} : e ∈ own t acts ↔ (⟨t, e⟩ : Act Req Ans) ∈ acts := by
  simp only [own, List.mem_map, List.mem_filter, decide_eq_true_eq]
  constructor
  · rintro ⟨⟨t', e'⟩, ⟨hmem, rfl⟩, rfl⟩
    exact hmem
  · exact fun h => ⟨⟨t, e⟩, ⟨h, rfl⟩, rfl⟩

theorem own_eq_append_cons {es es' : List (Event Req Ans)} {e : Event Req Ans}
    (h : own t acts = es ++ e :: es') :
    ∃ before after, acts = before ++ ⟨t, e⟩ :: after ∧ own t before = es ∧ own t after = es' := by
  induction acts generalizing es with
  | nil => simp [own] at h
  | cons act acts ih =>
    by_cases ht : act.thread = t
    · subst ht
      rw [own_cons_self] at h
      cases es with
      | nil =>
        cases h
        exact ⟨[], acts, rfl, rfl, rfl⟩
      | cons e' es =>
        rw [List.cons_append] at h
        obtain ⟨rfl, htail⟩ := List.cons.inj h
        obtain ⟨before, after, rfl, hbefore, hafter⟩ := ih htail
        exact ⟨act :: before, after, rfl, by rw [own_cons_self, hbefore], hafter⟩
    · rw [own_cons_of_ne ht] at h
      obtain ⟨before, after, rfl, hbefore, hafter⟩ := ih h
      exact ⟨act :: before, after, rfl, by rw [own_cons_of_ne ht, hbefore], hafter⟩

variable (serve : (r : Req) → σ → Ans r × σ)

/-- The state after the operations; their answers do not matter. -/
def after (s : σ) (acts : List (Act Req Ans)) : σ :=
  acts.foldl (fun s act => (serve act.event.1 s).2) s

/-- Every operation has the answer that the state before it gives. -/
def Served (s : σ) : List (Act Req Ans) → Prop
  | [] => True
  | act :: acts =>
    act.event.2 = (serve act.event.1 s).1 ∧ Served (serve act.event.1 s).2 acts

structure Interleaving (scripts : Nat → Script Req Ans ε α) (s : σ) (acts : List (Act Req Ans)) :
    Prop where
  served : Served serve s acts
  follows : ∀ t, ∃ q, (scripts t).Steps (own t acts) q

@[simp] theorem after_nil (s : σ) : after serve s ([] : List (Act Req Ans)) = s := rfl

theorem after_append (s : σ) (acts acts' : List (Act Req Ans)) :
    after serve s (acts ++ acts') = after serve (after serve s acts) acts' := by
  simp [after]

@[simp] theorem after_cons (s : σ) (act : Act Req Ans) (acts : List (Act Req Ans)) :
    after serve s (act :: acts) = after serve (serve act.event.1 s).2 acts := rfl

variable {serve}

theorem served_append {s : σ} {acts' : List (Act Req Ans)} : Served serve s (acts ++ acts') ↔
      Served serve s acts ∧ Served serve (after serve s acts) acts' := by
  induction acts generalizing s with
  | nil => simp [Served]
  | cons act acts ih => simp [Served, ih, and_assoc]

namespace Interleaving

variable {scripts : Nat → Script Req Ans ε α} {s : σ} {acts acts' : List (Act Req Ans)}

/-- What they had done at any moment before. -/
theorem before (h : Interleaving serve scripts s (acts ++ acts')) :
    Interleaving serve scripts s acts where
  served := (served_append.1 h.served).1
  follows t := by
    obtain ⟨q, hq⟩ := h.follows t
    rw [own_append] at hq
    obtain ⟨p', hp', -⟩ := Script.steps_append.1 hq
    exact ⟨p', hp'⟩

theorem answer {act : Act Req Ans} (h : Interleaving serve scripts s (acts ++ act :: acts')) :
    act.event.2 = (serve act.event.1 (after serve s acts)).1 :=
  (served_append.1 h.served).2.1

end Interleaving

theorem after_of_step {R : σ → σ → Prop} (hrefl : ∀ s, R s s)
    (htrans : ∀ {s s' s''}, R s s' → R s' s'' → R s s'')
    (hserve : ∀ r s, R s (serve r s).2) (s : σ) (acts : List (Act Req Ans)) : R s (after serve s acts) := by
  induction acts generalizing s with
  | nil => exact hrefl s
  | cons act acts ih => exact htrans (hserve act.event.1 s) (ih _)

/-! ## Schedules -/

structure Progress (Req : Type) (Ans : Req → Type) (ε α σ : Type) where
  scripts : Nat → Script Req Ans ε α
  state : σ
  acts : List (Act Req Ans)

variable (serve)

/-- The next operation of the script `t`, if it has one. -/
def Progress.step (run : Progress Req Ans ε α σ) (t : Nat) : Progress Req Ans ε α σ :=
  match run.scripts t with
  | .done _ => run
  | .fail _ => run
  | .ask r next =>
    { scripts := Function.update run.scripts t (next (serve r run.state).1)
      state := (serve r run.state).2
      acts := run.acts ++ [⟨t, ⟨r, (serve r run.state).1⟩⟩] }

def schedule (scripts : Nat → Script Req Ans ε α) (s : σ) (turns : List Nat) :
    Progress Req Ans ε α σ :=
  turns.foldl (Progress.step serve) ⟨scripts, s, []⟩

/-- A schedule is an interleaving, and tells what is left of each script. -/
theorem schedule_spec (scripts : Nat → Script Req Ans ε α) (s : σ) (turns : List Nat) :
    Interleaving serve scripts s (schedule serve scripts s turns).acts ∧
      after serve s (schedule serve scripts s turns).acts = (schedule serve scripts s turns).state ∧
      ∀ t, (scripts t).Steps (own t (schedule serve scripts s turns).acts)
        ((schedule serve scripts s turns).scripts t) := by
  suffices h : Served serve s (schedule serve scripts s turns).acts ∧
      after serve s (schedule serve scripts s turns).acts = (schedule serve scripts s turns).state ∧
      ∀ t, (scripts t).Steps (own t (schedule serve scripts s turns).acts)
        ((schedule serve scripts s turns).scripts t) from
    ⟨⟨h.1, fun t => ⟨_, h.2.2 t⟩⟩, h.2⟩
  induction turns using List.reverseRecOn with
  | nil => exact ⟨trivial, rfl, fun t => .nil _⟩
  | append_singleton turns t ih =>
    obtain ⟨hserved, hafter, hsteps⟩ := ih
    have hlast : schedule serve scripts s (turns ++ [t]) =
        (schedule serve scripts s turns).step serve t := by
      rw [schedule, List.foldl_append]
      rfl
    rw [hlast]
    generalize hrun : schedule serve scripts s turns = run at hserved hafter hsteps
    unfold Progress.step
    split
    · exact ⟨hserved, hafter, hsteps⟩
    · exact ⟨hserved, hafter, hsteps⟩
    · next r next hask =>
      refine ⟨served_append.2 ⟨hserved, ?_, trivial⟩, ?_, fun t' => ?_⟩
      · rw [hafter]
      · rw [after_append, hafter]
        rfl
      · rw [own_append]
        by_cases ht : t' = t
        · subst ht
          dsimp only
          rw [Function.update_self]
          have hlast := hsteps t'
          rw [hask] at hlast
          exact hlast.append (own_cons_self (⟨t', _⟩ : Act Req Ans) [] ▸ .cons (.nil _))
        · dsimp only
          rw [Function.update_of_ne ht, own_cons_of_ne (Ne.symm ht), own_nil, List.append_nil]
          exact hsteps t'

end

end CowStore.Lib

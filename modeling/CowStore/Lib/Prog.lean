import CowStore.Lib.Fallible

/-!
# Programs whose state survives a failure

A program of `EStateM` may fail, and what it has done to the state by then stays.  The
weakest precondition `wp` therefore has two postconditions, one for each way to end.

Most programs of a store only add to the state: whatever they do, and however they end,
the new state extends the old one.  `Along R` says this for a preorder `R`, together with
what holds of the result, and has a rule for each way to put programs together, so that
the extension is never argued for at every step.
-/

namespace CowStore.Lib

variable {ε σ α β : Type}

instance liftExcept : MonadLift (Except ε) (EStateM ε σ) where
  monadLift x := fun s => match x with
    | .ok a => .ok a s
    | .error e => .error e s

section

variable {x : EStateM ε σ α} {f : α → EStateM ε σ β} {s s' : σ}

theorem run_bind_ok {a : α} (h : x s = .ok a s') : (x >>= f) s = f a s' := by
  simp [bind, EStateM.bind, h]

theorem run_bind_error {e : ε} (h : x s = .error e s') : (x >>= f) s = .error e s' := by
  simp [bind, EStateM.bind, h]

@[simp] theorem run_get : (get : EStateM ε σ σ) s = .ok s s := rfl

@[simp] theorem run_set {t : σ} : (set t : EStateM ε σ PUnit) s = .ok ⟨⟩ t := rfl

@[simp] theorem run_modify {g : σ → σ} : (modify g : EStateM ε σ PUnit) s = .ok ⟨⟩ (g s) := rfl

@[simp] theorem run_lift_ok (a : α) :
    (liftM (.ok a : Except ε α) : EStateM ε σ α) s = .ok a s := rfl

@[simp] theorem run_lift_error (e : ε) :
    (liftM (.error e : Except ε α) : EStateM ε σ α) s = .error e s := rfl

end

def output (x : EStateM ε σ α) (s : σ) : Option α :=
  match x s with
  | .ok a _ => some a
  | .error _ _ => none

variable {x : EStateM ε σ α} {a : α} {f : α → EStateM ε σ β} {Q : α → σ → Prop} {s s' : σ}
  {E : σ → Prop}

theorem ok_of_output (h : output x s = some a) : ∃ s', x s = .ok a s' := by
  unfold output at h
  split at h
  · next b s' hx =>
    cases h
    exact ⟨s', hx⟩
  · cases h

/-- The state that a run leaves behind, however it ends. -/
def lastState (x : EStateM ε σ α) (s : σ) : σ :=
  match x s with
  | .ok _ s' => s'
  | .error _ s' => s'

/-- `x`, run in `s`, ends in a result and a state that meet `Q`, or fails in a state that
meets `E`. -/
def wp (x : EStateM ε σ α) (Q : α → σ → Prop) (E : σ → Prop) (s : σ) : Prop :=
  match x s with
  | .ok a s' => Q a s'
  | .error _ s' => E s'

theorem wp_of_ok (h : wp x Q E s) (hx : x s = .ok a s') : Q a s' := by
  unfold wp at h
  rw [hx] at h
  exact h

theorem wp_of_error {e : ε} (h : wp x Q E s) (hx : x s = .error e s') : E s' := by
  unfold wp at h
  rw [hx] at h
  exact h

theorem wp_lastState {P : σ → Prop} (h : wp x (fun _ => P) P s) : P (lastState x s) := by
  unfold wp at h
  unfold lastState
  cases hx : x s <;> simpa only [hx] using h

theorem wp_mono {Q' : α → σ → Prop} {E' : σ → Prop} (h : wp x Q E s) (hQ : ∀ a s', Q a s' → Q' a s')
    (hE : ∀ s', E s' → E' s') : wp x Q' E' s := by
  unfold wp at h ⊢
  split at h
  · exact hQ _ _ h
  · exact hE _ h

theorem wp_and {Q' : α → σ → Prop} {E' : σ → Prop} (h : wp x Q E s) (h' : wp x Q' E' s) :
    wp x (fun a s' => Q a s' ∧ Q' a s') (fun s' => E s' ∧ E' s') s := by
  unfold wp at h h' ⊢
  split at h
  · next hx =>
    rw [hx] at h'
    exact ⟨h, h'⟩
  · next hx =>
    rw [hx] at h'
    exact ⟨h, h'⟩

theorem wp_of_forall (hQ : ∀ a s', Q a s') (hE : ∀ s', E s') : wp x Q E s := by
  unfold wp
  split
  · exact hQ _ _
  · exact hE _

theorem wp_pure : wp (pure a : EStateM ε σ α) Q E s ↔ Q a s := Iff.rfl

theorem wp_bind {Q : β → σ → Prop} : wp (x >>= f) Q E s ↔ wp x (fun a s' => wp (f a) Q E s') E s := by
  simp only [wp, bind, EStateM.bind]
  cases x s <;> rfl

theorem wp_lift {x : Except ε α} (hok : ∀ a, x = .ok a → Q a s) (herr : ∀ e, x = .error e → E s) :
    wp (liftM x : EStateM ε σ α) Q E s := by
  cases x with
  | ok a => exact hok a rfl
  | error e => exact herr e rfl

theorem wp_check {v : Except ε α} {Q : β → σ → Prop} (hE : E s)
    (h : ∀ a, v = .ok a → wp (f a) Q E s) : wp (liftM v >>= f) Q E s :=
  wp_bind.2 (wp_lift h fun _ _ => hE)

theorem wp_ok {v : Except ε α} {Q : β → σ → Prop} (hv : v = .ok a) (h : wp (f a) Q E s) :
    wp (liftM v >>= f) Q E s := by
  subst hv
  exact h

theorem wp_step {Q : β → σ → Prop} (hx : x s = .ok a s') (h : wp (f a) Q E s') : wp (x >>= f) Q E s := by
  rw [wp_bind, wp, hx]
  exact h

/-- A loop with an invariant of what it carries. -/
theorem wp_foldlM {f : β → α → EStateM ε σ β} {xs : List α} {b : β} {Q : β → σ → Prop} (hb : Q b s)
    (hf : ∀ b x s, Q b s → wp (f b x) Q E s) : wp (xs.foldlM f b) Q E s := by
  induction xs generalizing b s with
  | nil => exact hb
  | cons x xs ih =>
    rw [List.foldlM_cons]
    exact wp_bind.2 (wp_mono (hf b x s hb) (fun _ _ hb' => ih hb') fun _ he => he)

/-! ## Programs that move along a preorder -/

/-- However `x` ends, its last state is above the first; where it returns, the result and
the last state meet `Q`. -/
def Along (R : σ → σ → Prop) (x : EStateM ε σ α) (s : σ) (Q : α → σ → Prop) : Prop :=
  wp x (fun a s' => R s s' ∧ Q a s') (R s) s

/-- However `x` ends, its last state is above the first. -/
abbrev Moves (R : σ → σ → Prop) (x : EStateM ε σ α) (s : σ) : Prop := Along R x s fun _ _ => True

section

variable {R : σ → σ → Prop}

variable {x : EStateM ε σ α} {xs : List α} {f : α → EStateM ε σ β} {Q : α → σ → Prop} {s : σ}

theorem Along.pure [Std.Refl R] {a : α} (h : Q a s) :
    Along R (pure a : EStateM ε σ α) s Q := ⟨refl s, h⟩

theorem Along.bind [IsTrans σ R] {P : α → σ → Prop} {Q : β → σ → Prop} (hx : Along R x s P)
    (hf : ∀ a s', R s s' → P a s' → Along R (f a) s' Q) : Along R (x >>= f) s Q := by
  rw [Along, wp_bind]
  refine wp_mono hx (fun a s' ha => ?_) (fun _ h => h)
  exact wp_mono (hf a s' ha.1 ha.2) (fun b s'' hb => ⟨IsTrans.trans _ _ _ ha.1 hb.1, hb.2⟩)
    (fun s'' h => IsTrans.trans _ _ _ ha.1 h)

theorem Along.thenPure [Std.Refl R] [IsTrans σ R] {g : α → β} (h : Along R x s Q) :
    Moves R (x >>= fun a => Pure.pure (g a)) s :=
  h.bind fun _ _ _ _ => Along.pure trivial

theorem Along.check [Std.Refl R] {v : Except ε α} {Q : β → σ → Prop}
    (h : ∀ a, v = .ok a → Along R (f a) s Q) : Along R (liftM v >>= f) s Q := by
  cases v with
  | ok a => exact h a rfl
  | error e => exact refl s

/-- Two checks, of which only the values are needed. -/
theorem Along.check2 {γ : Type} [Std.Refl R] {v : Except ε α} {w : α → Except ε β}
    {f : α → β → EStateM ε σ γ} {Q : γ → σ → Prop} (h : ∀ a b, Along R (f a b) s Q) :
    Along R (liftM v >>= fun a => liftM (w a) >>= f a) s Q :=
  Along.check fun a _ => Along.check fun b _ => h a b

theorem Along.check3 {γ δ : Type} [Std.Refl R] {v : Except ε α} {w : α → Except ε β}
    {u : α → β → Except ε γ} {f : α → β → γ → EStateM ε σ δ} {Q : δ → σ → Prop}
    (h : ∀ a b c, Along R (f a b c) s Q) :
    Along R (liftM v >>= fun a => liftM (w a) >>= fun b => liftM (u a b) >>= f a b) s Q :=
  Along.check fun a _ => Along.check2 fun b c => h a b c

theorem Along.step [IsTrans σ R] {s' : σ} {a : α} {Q : β → σ → Prop} (hx : x s = .ok a s')
    (hR : R s s') (hf : Along R (f a) s' Q) : Along R (x >>= f) s Q := by
  refine Along.bind (P := fun b t => b = a ∧ t = s') ?_ ?_
  · unfold Along wp
    rw [hx]
    exact ⟨hR, rfl, rfl⟩
  · rintro _ _ - ⟨rfl, rfl⟩
    exact hf

theorem Along.get {f : σ → EStateM ε σ β} {Q : β → σ → Prop} (h : Along R (f s) s Q) :
    Along R (MonadState.get >>= f) s Q := h

theorem Along.mono {P : α → σ → Prop} (h : Along R x s P) (hPQ : ∀ a s', R s s' → P a s' → Q a s') :
    Along R x s Q :=
  wp_mono h (fun a s' ha => ⟨ha.1, hPQ a s' ha.1 ha.2⟩) (fun _ h => h)

theorem Along.weaken {R' : σ → σ → Prop} (h : Along R x s Q) (hR : ∀ s', R s s' → R' s s') : Along R' x s Q :=
  wp_mono h (fun _ s' ha => ⟨hR s' ha.1, ha.2⟩) hR

theorem Along.moves (h : Along R x s Q) : Moves R x s := h.mono fun _ _ _ _ => trivial

theorem Moves.seq [IsTrans σ R] {Q : β → σ → Prop} (hx : Moves R x s)
    (hf : ∀ a s', R s s' → Along R (f a) s' Q) : Along R (x >>= f) s Q :=
  Along.bind hx fun a s' hs _ => hf a s' hs

theorem Along.lastState (h : Along R x s Q) : R s (lastState x s) :=
  wp_lastState (wp_mono h (fun _ _ hx => hx.1) fun _ hx => hx)

/-- A loop: what each round yields of its element, and later rounds do not undo. -/
theorem Along.mapM [Std.Refl R] [IsTrans σ R] {Q : α → β → σ → Prop}
    (hQ : ∀ a b s s', R s s' → Q a b s → Q a b s') (hf : ∀ x ∈ xs, ∀ s', R s s' → Along R (f x) s' (Q x)) :
    Along R (xs.mapM f) s (fun ys s' => List.Forall₂ (fun x y => Q x y s') xs ys) := by
  induction xs generalizing s with
  | nil =>
    rw [List.mapM_nil]
    exact Along.pure .nil
  | cons x xs ih =>
    rw [List.mapM_cons]
    refine Along.bind (hf x List.mem_cons_self s (refl s)) fun y s1 h1 hy => ?_
    have hrest := ih (fun z hz s' hs => hf z (List.mem_cons_of_mem x hz) s'
      (IsTrans.trans _ _ _ h1 hs))
    refine Along.bind hrest fun ys s2 h2 hys => ?_
    exact Along.pure (.cons (hQ x y s1 s2 h2 hy) hys)

theorem Moves.mapM [Std.Refl R] [IsTrans σ R] (hf : ∀ x s, Moves R (f x) s) : Moves R (xs.mapM f) s :=
  Along.moves (Along.mapM (Q := fun _ _ _ => True) (fun _ _ _ _ _ _ => trivial) fun x _ s _ => hf x s)

/-- A loop that carries a value. -/
theorem Along.foldlM [Std.Refl R] [IsTrans σ R] {f : β → α → EStateM ε σ β} {b : β}
    {Q : β → σ → Prop} (hb : Q b s) (hf : ∀ b, ∀ x ∈ xs, ∀ s', R s s' → Q b s' → Along R (f b x) s' Q) :
    Along R (xs.foldlM f b) s Q := by
  induction xs generalizing b s with
  | nil => exact Along.pure hb
  | cons x xs ih =>
    rw [List.foldlM_cons]
    refine Along.bind (hf b x List.mem_cons_self s (refl s) hb) fun b' s' hs' hb' => ih hb' ?_
    exact fun b x hx s'' hs'' => hf b x (List.mem_cons_of_mem _ hx) s'' (IsTrans.trans _ _ _ hs' hs'')

/-- A loop without a result. -/
theorem Along.forM [Std.Refl R] [IsTrans σ R] {f : α → EStateM ε σ PUnit}
    (hf : ∀ x ∈ xs, ∀ s', R s s' → Moves R (f x) s') : Moves R (xs.forM f) s := by
  induction xs generalizing s with
  | nil => exact Along.pure trivial
  | cons x xs ih =>
    refine Along.bind (hf x List.mem_cons_self s (refl s)) fun _ s1 h1 _ => ih ?_
    exact fun y hy s' hs' => hf y (List.mem_cons_of_mem x hy) s' (IsTrans.trans _ _ _ h1 hs')

def Both (R R' : σ → σ → Prop) (s s' : σ) : Prop := R s s' ∧ R' s s'

instance {R' : σ → σ → Prop} [Std.Refl R] [Std.Refl R'] : Std.Refl (Both R R') :=
  ⟨fun s => ⟨refl s, refl s⟩⟩

instance {R' : σ → σ → Prop} [IsTrans σ R] [IsTrans σ R'] : IsTrans σ (Both R R') :=
  ⟨fun _ _ _ h h' => ⟨IsTrans.trans _ _ _ h.1 h'.1, IsTrans.trans _ _ _ h.2 h'.2⟩⟩

end

/-- What is left to do after a program that moves along `R`. -/
theorem Along.thenWp {R : σ → σ → Prop} {P : α → σ → Prop} {Q : β → σ → Prop} (hx : Along R x s P)
    (hf : ∀ a s', R s s' → P a s' → wp (f a) Q E s') (hE : ∀ s', R s s' → E s') : wp (x >>= f) Q E s := by
  rw [wp_bind]
  exact wp_mono hx (fun a s' h => hf a s' h.1 h.2) hE

/-! ## Programs of a part of the state -/

section

variable {τ : Type} {part : σ → τ} {put : σ → τ → σ}

def zoom (part : σ → τ) (put : σ → τ → σ) (x : EStateM ε τ α) : EStateM ε σ α := fun s =>
  match x (part s) with
  | .ok a t => .ok a (put s t)
  | .error e t => .error e (put s t)

theorem wp_zoom {x : EStateM ε τ α} {s : σ} {Q : α → σ → Prop} {E : σ → Prop} : wp (zoom part put x) Q E s ↔
      wp x (fun a t => Q a (put s t)) (fun t => E (put s t)) (part s) := by
  unfold wp zoom
  cases x (part s) <;> rfl

theorem Along.zoom {R : σ → σ → Prop} {R' : τ → τ → Prop} {x : EStateM ε τ α} {s : σ}
    {Q : α → τ → Prop} (h : Along R' x (part s) Q) (hR : ∀ t, R' (part s) t → R s (put s t)) :
    Along R (zoom part put x) s fun a s' => ∃ t, s' = put s t ∧ R' (part s) t ∧ Q a t :=
  wp_zoom.2 (wp_mono h (fun _ t ht => ⟨hR t ht.1, t, rfl, ht.1, ht.2⟩) hR)

theorem Moves.zoom {R : σ → σ → Prop} {x : EStateM ε τ α} {s : σ} (h : ∀ t, R s (put s t)) :
    Moves R (zoom part put x) s :=
  wp_zoom.2 (wp_of_forall (fun _ t => ⟨h t, trivial⟩) h)

end

/-! ## Programs that compute a value -/

/-- `x` computes `spec` along `R`: it returns where `spec` does, with a result that `Q`
relates to the value, and fails where `spec` does. -/
def Follows (R : σ → σ → Prop) (spec : Except ε β) (x : EStateM ε σ α) (s : σ)
    (Q : β → α → σ → Prop) : Prop :=
  match spec, x s with
  | .ok b, .ok a s' => R s s' ∧ Q b a s'
  | .error _, .error _ s' => R s s'
  | _, _ => False

section

variable {γ δ : Type} {R : σ → σ → Prop}

variable {x : EStateM ε σ α} {u : Except ε β} {a : α} {P Q : β → α → σ → Prop} {s : σ}

variable {b : β}

theorem Follows.of_ok {s' : σ} (h : x s = .ok a s') (hR : R s s') (hQ : Q b a s') :
    Follows R (.ok b) x s Q := by
  simp only [Follows, h]
  exact ⟨hR, hQ⟩

theorem Follows.of_error {s' : σ} {e e' : ε} (h : x s = .error e s') (hR : R s s') :
    Follows R (.error e') x s Q := by
  simp only [Follows, h]
  exact hR

theorem Follows.pure [Std.Refl R] (h : Q b a s) :
    Follows R (.ok b : Except ε β) (Pure.pure a) s Q := ⟨refl s, h⟩

theorem Follows.lift [Std.Refl R] {x : Except ε α} :
    Follows R x (liftM x : EStateM ε σ α) s (fun b a s' => b = a ∧ s = s') := by
  cases x with
  | ok a => exact ⟨refl s, rfl, rfl⟩
  | error e => exact refl s

theorem Follows.bind [IsTrans σ R] {v : β → Except ε δ} {f : α → EStateM ε σ γ}
    {Q : δ → γ → σ → Prop} (hx : Follows R u x s P)
    (hf : ∀ b a s', u = .ok b → R s s' → P b a s' → Follows R (v b) (f a) s' Q) :
    Follows R (u >>= v) (x >>= f) s Q := by
  cases u with
  | error e =>
    cases hxs : x s with
    | ok a s' => simp [Follows, hxs] at hx
    | error e' s' => simpa [Follows, Bind.bind, EStateM.bind, Except.bind, hxs] using hx
  | ok b =>
    cases hxs : x s with
    | error e' s' => simp [Follows, hxs] at hx
    | ok a s' =>
      simp only [Follows, hxs] at hx
      have hrest := hf b a s' rfl hx.1 hx.2
      simp only [Follows, Bind.bind, EStateM.bind, Except.bind, hxs] at hrest ⊢
      split at hrest
      · exact ⟨IsTrans.trans _ _ _ hx.1 hrest.1, hrest.2⟩
      · exact IsTrans.trans _ _ _ hx.1 hrest
      · exact hrest.elim

/-- A step of the program that only reads. -/
theorem Follows.read {u : Except ε δ} {f : α → EStateM ε σ γ} {Q : δ → γ → σ → Prop}
    (hx : x s = .ok a s) (hf : Follows R u (f a) s Q) : Follows R u (x >>= f) s Q := by
  simp only [Follows] at hf ⊢
  rw [run_bind_ok hx]
  exact hf

/-- A last step of the program that only puts the result into another form. -/
theorem Follows.andThen [Std.Refl R] [IsTrans σ R] {g : α → γ} {Q : β → γ → σ → Prop}
    (hx : Follows R u x s P) (hg : ∀ b a s', u = .ok b → R s s' → P b a s' → Q b (g a) s') :
    Follows R u (x >>= fun a => Pure.pure (g a)) s Q := by
  rw [← bind_pure u]
  exact Follows.bind hx fun b a s' hb hR hP => Follows.pure (hg b a s' hb hR hP)

/-- A last step of the value that the program does not need. -/
theorem Follows.specThen [Std.Refl R] [IsTrans σ R] {g : β → δ} {Q : δ → α → σ → Prop}
    (hx : Follows R u x s P) (hg : ∀ b a s', u = .ok b → R s s' → P b a s' → Q (g b) a s') :
    Follows R (u >>= fun b => Pure.pure (g b)) x s Q := by
  rw [← bind_pure x]
  exact Follows.bind hx fun b a s' hb hR hP => Follows.pure (hg b a s' hb hR hP)

/-- A program returns where the value that it computes is one. -/
theorem Follows.exists_ok (h : Follows R u x s Q) (hu : u = .ok b) :
    ∃ a s', x s = .ok a s' ∧ R s s' ∧ Q b a s' := by
  subst hu
  cases hxs : x s with
  | ok a s' => exact ⟨a, s', rfl, by simpa [Follows, hxs] using h⟩
  | error e s' => simp [Follows, hxs] at h

/-- What a program that computes a value does. -/
theorem Follows.along (h : Follows R u x s Q) : Along R x s (fun a s' => ∃ b, u = .ok b ∧ Q b a s') := by
  unfold Along wp
  cases u with
  | error e =>
    cases hxs : x s with
    | ok a s' => simp [Follows, hxs] at h
    | error e' s' =>
      simp only [Follows, hxs] at h
      exact h
  | ok b =>
    cases hxs : x s with
    | error e' s' => simp [Follows, hxs] at h
    | ok a s' =>
      simp only [Follows, hxs] at h
      exact ⟨h.1, b, rfl, h.2⟩

end

/-- `x` computes `spec` along `R`, or gives up and has done nothing. -/
def Attempts (R : σ → σ → Prop) (spec : Except ε β) (x : EStateM ε σ (Option α)) (s : σ)
    (Q : β → α → σ → Prop) : Prop :=
  match x s with
  | .ok none s' => s' = s
  | .ok (some a) s' => ∃ b, spec = .ok b ∧ R s s' ∧ Q b a s'
  | .error _ s' => (∃ e, spec = .error e) ∧ R s s'

section

variable {γ δ : Type} {R : σ → σ → Prop} {u : Except ε β} {s : σ} {Q : β → α → σ → Prop}

theorem Attempts.giveUp : Attempts R u (pure none) s Q := rfl

theorem Attempts.lift [Std.Refl R] {v : Except ε γ} {f : γ → EStateM ε σ (Option α)}
    (hok : ∀ c, v = .ok c → Attempts R u (f c) s Q)
    (herr : ∀ e, v = .error e → ∃ e', u = .error e') : Attempts R u (liftM v >>= f) s Q := by
  cases v with
  | ok c => exact hok c rfl
  | error e => exact ⟨herr e rfl, refl s⟩

theorem Attempts.read {x : EStateM ε σ γ} {f : γ → EStateM ε σ (Option α)} {c : γ}
    (hx : x s = .ok c s) (hf : Attempts R u (f c) s Q) : Attempts R u (x >>= f) s Q := by
  unfold Attempts at hf ⊢
  rw [run_bind_ok hx]
  exact hf

theorem Attempts.of_follows {x : EStateM ε σ α} (h : Follows R u x s Q) :
    Attempts R u (x >>= fun a => pure (some a)) s Q := by
  unfold Attempts
  unfold Follows at h
  cases hxs : x s with
  | ok a s' =>
    rw [run_bind_ok hxs]
    cases u with
    | ok b => exact ⟨b, rfl, by simpa [hxs] using h⟩
    | error e => simp [hxs] at h
  | error e s' =>
    rw [run_bind_error hxs]
    cases u with
    | ok b => simp [hxs] at h
    | error e' => exact ⟨⟨e', rfl⟩, by simpa [hxs] using h⟩

/-- An attempt, and what is done with what it returned. -/
theorem Attempts.bind [IsTrans σ R] {x : EStateM ε σ (Option α)} {v : β → Except ε δ}
    {f : Option α → EStateM ε σ (Option γ)} {g : α → EStateM ε σ γ} {P : δ → γ → σ → Prop}
    (hx : Attempts R u x s Q) (hnone : f none = pure none)
    (hsome : ∀ a, f (some a) = g a >>= fun c => pure (some c))
    (hg : ∀ b a s', u = .ok b → R s s' → Q b a s' → Follows R (v b) (g a) s' P) :
    Attempts R (u >>= v) (x >>= f) s P := by
  unfold Attempts at hx ⊢
  cases hxs : x s with
  | error e s' =>
    rw [hxs] at hx
    rw [run_bind_error hxs]
    obtain ⟨⟨e', rfl⟩, hR⟩ := hx
    exact ⟨⟨e', rfl⟩, hR⟩
  | ok r s' =>
    rw [hxs] at hx
    rw [run_bind_ok hxs]
    cases r with
    | none =>
      rw [hnone]
      exact hx
    | some a =>
      rw [hsome]
      obtain ⟨b, rfl, hR, hQ⟩ := hx
      have hrest := Attempts.of_follows (hg b a s' rfl hR hQ)
      unfold Attempts at hrest
      cases hgs : (g a >>= fun c => (pure (some c) : EStateM ε σ (Option γ))) s' with
      | ok r s2 =>
        simp only [hgs] at hrest ⊢
        cases r with
        | some c =>
          obtain ⟨d, hd, hR2, hP⟩ := hrest
          exact ⟨d, hd, IsTrans.trans _ _ _ hR hR2, hP⟩
        | none =>
          cases hga : g a s' with
          | ok c s3 =>
            rw [run_bind_ok hga] at hgs
            cases hgs
          | error e s3 =>
            rw [run_bind_error hga] at hgs
            cases hgs
      | error e s2 =>
        simp only [hgs] at hrest ⊢
        exact ⟨hrest.1, IsTrans.trans _ _ _ hR hrest.2⟩

/-- An attempt, and what is done where it gives up. -/
theorem Attempts.orElse {x : EStateM ε σ (Option α)} {f : Option α → EStateM ε σ α}
    (hx : Attempts R u x s Q) (hsome : ∀ a, f (some a) = pure a)
    (hy : Follows R u (f none) s Q) : Follows R u (x >>= f) s Q := by
  unfold Attempts at hx
  cases hxs : x s with
  | error e s' =>
    rw [hxs] at hx
    obtain ⟨⟨e', rfl⟩, hR⟩ := hx
    exact Follows.of_error (run_bind_error hxs) hR
  | ok r s' =>
    rw [hxs] at hx
    cases r with
    | some a =>
      obtain ⟨b, rfl, hR, hQ⟩ := hx
      refine Follows.of_ok ?_ hR hQ
      rw [run_bind_ok hxs, hsome]
      rfl
    | none =>
      have hs : s' = s := hx
      subst hs
      exact Follows.read hxs hy

end

/-! ## Failures that do not occur -/

def MayReturn (x : EStateM ε σ α) (a : α) : Prop := ∃ s s', x s = .ok a s'

def Spares (e : ε) (x : EStateM ε σ α) : Prop := ∀ s s', x s ≠ .error e s'

section

variable {e : ε}

theorem spares_pure {a : α} : Spares e (pure a : EStateM ε σ α) := nofun

theorem spares_lift {v : Except ε α} (h : Avoids e v) : Spares e (liftM v : EStateM ε σ α) := by
  intro s s' hs
  cases v with
  | ok a => cases hs
  | error e' =>
    cases hs
    exact h rfl

variable {f : α → EStateM ε σ β}

theorem spares_bind {x : EStateM ε σ α} (hx : Spares e x)
    (hf : ∀ a, MayReturn x a → Spares e (f a)) : Spares e (x >>= f) := by
  intro s s' h
  cases hxs : x s with
  | ok a s1 =>
    rw [run_bind_ok hxs] at h
    exact hf a ⟨s, s1, hxs⟩ s1 s' h
  | error e' s1 =>
    rw [run_bind_error hxs] at h
    cases h
    exact hx s _ hxs

theorem mayReturn_bind {x : EStateM ε σ α} {b : β} (h : MayReturn (x >>= f) b) :
    ∃ a, MayReturn x a ∧ MayReturn (f a) b := by
  obtain ⟨s, s', h⟩ := h
  cases hxs : x s with
  | ok a s1 =>
    rw [run_bind_ok hxs] at h
    exact ⟨a, ⟨s, s1, hxs⟩, s1, s', h⟩
  | error e' s1 =>
    rw [run_bind_error hxs] at h
    cases h

theorem mayReturn_pure {a b : α} (h : MayReturn (pure a : EStateM ε σ α) b) : b = a := by
  obtain ⟨s, s', h⟩ := h
  cases h
  rfl

theorem mayReturn_lift {v : Except ε α} {a : α} (h : MayReturn (liftM v : EStateM ε σ α) a) : v = .ok a := by
  obtain ⟨s, s', h⟩ := h
  cases v with
  | ok b =>
    cases h
    rfl
  | error e' => cases h

theorem mayReturn_mapM {xs : List α} {ys : List β} (h : MayReturn (xs.mapM f) ys) :
    List.Forall₂ (fun x y => MayReturn (f x) y) xs ys := by
  induction xs generalizing ys with
  | nil =>
    rw [List.mapM_nil] at h
    cases mayReturn_pure h
    exact .nil
  | cons x xs ih =>
    rw [List.mapM_cons] at h
    obtain ⟨y, hy, h⟩ := mayReturn_bind h
    obtain ⟨rest, hrest, h⟩ := mayReturn_bind h
    cases mayReturn_pure h
    exact .cons hy (ih hrest)

theorem spares_mapM {xs : List α} (h : ∀ x ∈ xs, Spares e (f x)) : Spares e (xs.mapM f) := by
  induction xs with
  | nil => exact spares_pure
  | cons x xs ih =>
    obtain ⟨hx, hxs⟩ := List.forall_mem_cons.1 h
    rw [List.mapM_cons]
    exact spares_bind hx fun _ _ => spares_bind (ih hxs) fun _ _ => spares_pure

end

end CowStore.Lib

import Mathlib.Tactic.Common

/-!
# Programs with a state, error codes and fuel

`Prog σ ε α` is a function that reads and updates a state of type `σ` and stops
either with a value of type `α` or with an error of type `ε`; the outcome `none`
is a run that does not stop, or that its fuel does not finish.  The state at the
moment of an error is kept, as in a language whose functions return error codes.

`Prog.wp x Q s` says that whenever `x` stops from `s`, its outcome satisfies `Q`.
The rules below compute it through every constructor, so that a fact about a
program is proved along the program's own text, and `wp_bind_of_spec` lets a caller use
the fact already proved about a callee.  `Prog.Keeps I x` is the special case of
an invariant.
-/

set_option autoImplicit false

namespace Programs

/-- A value is handed to what follows it. -/
theorem except_ok_bind {ε α β : Type} (a : α) (f : α → Except ε β) :
    ((Except.ok a : Except ε α) >>= f) = f a := rfl

/-- Behind an error nothing runs. -/
theorem except_error_bind {ε α β : Type} (e : ε) (f : α → Except ε β) :
    ((Except.error e : Except ε α) >>= f) = .error e := rfl

/-- A sequence of two computations with error codes ends with a value exactly when both
of its parts do. -/
theorem except_bind_eq_ok {ε α β : Type} (x : Except ε α) (f : α → Except ε β) (b : β) :
    (x >>= f) = .ok b ↔ ∃ a, x = .ok a ∧ f a = .ok b := by
  cases x with
  | error e => simp [Bind.bind, Except.bind]
  | ok a => simp [Bind.bind, Except.bind]

/-- A program over the state `σ` with errors `ε` and values `α`. -/
def Prog (σ ε α : Type) : Type := σ → Option (Except ε α × σ)

namespace Prog

variable {σ ε ε' α β : Type}

/-- Stop with the value `a`. -/
protected def pure (a : α) : Prog σ ε α := fun s => some (.ok a, s)

/-- Run `x`; on a value go on with `f`, on an error stop with it. -/
protected def bind (x : Prog σ ε α) (f : α → Prog σ ε β) : Prog σ ε β := fun s =>
  match x s with
  | none => none
  | some (.error e, s') => some (.error e, s')
  | some (.ok a, s') => f a s'

instance : Monad (Prog σ ε) where
  pure := Prog.pure
  bind := Prog.bind

/-- Stop with the error `e`. -/
def throw (e : ε) : Prog σ ε α := fun s => some (.error e, s)

/-- The run that does not stop. -/
def diverge : Prog σ ε α := fun _ => none

/-- Read the state. -/
def get : Prog σ ε σ := fun s => some (.ok s, s)

/-- Update the state. -/
def modify (f : σ → σ) : Prog σ ε Unit := fun s => some (.ok (), f s)

/-- Stop with an outcome that was computed without the state. -/
def lift (r : Except ε α) : Prog σ ε α := fun s => some (r, s)

/-- Run `x`; on an error `e` run `handler e` instead of stopping. -/
def onError (x : Prog σ ε α) (handler : ε → Prog σ ε α) : Prog σ ε α := fun s =>
  match x s with
  | none => none
  | some (.error e, s') => handler e s'
  | some (.ok a, s') => some (.ok a, s')

/-- Run `x` and return its outcome, error or value, as a value. -/
def attempt (x : Prog σ ε α) : Prog σ ε' (Except ε α) := fun s =>
  match x s with
  | none => none
  | some (r, s') => some (.ok r, s')

/-! ## Runs that end with a value -/

/-- `pure` returns its value and leaves the state. -/
@[simp] theorem pure_apply (a : α) (s : σ) :
    (pure a : Prog σ ε α) s = some (.ok a, s) := rfl

/-- `throw` returns its error and leaves the state. -/
@[simp] theorem throw_apply (e : ε) (s : σ) :
    (throw e : Prog σ ε α) s = some (.error e, s) := rfl

/-- `diverge` has no outcome. -/
@[simp] theorem diverge_apply (s : σ) : (diverge : Prog σ ε α) s = none := rfl

/-- `get` returns the state. -/
@[simp] theorem get_apply (s : σ) : (get : Prog σ ε σ) s = some (.ok s, s) := rfl

/-- `modify` changes the state and returns nothing. -/
@[simp] theorem modify_apply (f : σ → σ) (s : σ) :
    (modify f : Prog σ ε Unit) s = some (.ok (), f s) := rfl

/-- A lifted result leaves the state. -/
@[simp] theorem lift_apply (r : Except ε α) (s : σ) :
    (lift r : Prog σ ε α) s = some (r, s) := rfl

/-- The second part runs from the state of the first, unless that failed or diverged. -/
theorem bind_apply (x : Prog σ ε α) (f : α → Prog σ ε β) (s : σ) :
    (x >>= f) s = match x s with
      | none => none
      | some (.error e, s') => some (.error e, s')
      | some (.ok a, s') => f a s' := rfl

/-- A sequence ends with a value exactly when both of its parts do. -/
theorem bind_eq_ok_iff (x : Prog σ ε α) (f : α → Prog σ ε β) (s s' : σ) (b : β) :
    (x >>= f) s = some (.ok b, s') ↔
      ∃ a s₁, x s = some (.ok a, s₁) ∧ f a s₁ = some (.ok b, s') := by
  rw [bind_apply]
  constructor
  · intro h
    split at h
    · cases h
    · simp at h
    · rename_i a s₁ hx
      exact ⟨a, s₁, hx, h⟩
  · rintro ⟨a, s₁, hx, hf⟩
    rw [hx]
    exact hf

/-- A lifted value is returned. -/
theorem lift_of_ok {r : Except ε α} {a : α} (h : r = .ok a) (s : σ) :
    (lift r : Prog σ ε α) s = some (.ok a, s) := by
  rw [lift_apply, h]

/-- Going on after a first part that ends with a value. -/
theorem bind_of_ok {x : Prog σ ε α} {f : α → Prog σ ε β} {s t : σ} {a : α}
    (hx : x s = some (.ok a, t)) : (x >>= f) s = f a t := by
  rw [bind_apply, hx]

/-- A first part that ends with an error ends the sequence. -/
theorem bind_of_error {x : Prog σ ε α} {f : α → Prog σ ε β} {s s₁ : σ} {e : ε}
    (hx : x s = some (.error e, s₁)) : (x >>= f) s = some (.error e, s₁) := by
  rw [bind_apply, hx]

/-- Returning the value of a program is the program. -/
theorem bind_pure_right (x : Prog σ ε α) : (x >>= fun a => pure a) = x := by
  funext s
  rw [bind_apply]
  cases x s with
  | none => rfl
  | some out =>
    obtain ⟨r, s'⟩ := out
    cases r with
    | ok a => rfl
    | error e => rfl

/-- A value passes the handler by. -/
theorem onError_of_ok {x : Prog σ ε α} {handler : ε → Prog σ ε α} {s s₁ : σ} {a : α}
    (hx : x s = some (.ok a, s₁)) : onError x handler s = some (.ok a, s₁) := by
  unfold onError
  rw [hx]

/-- An error starts the handler in the state that it left. -/
theorem onError_of_error {x : Prog σ ε α} {handler : ε → Prog σ ε α} {s s₁ : σ} {e : ε}
    (hx : x s = some (.error e, s₁)) : onError x handler s = handler e s₁ := by
  unfold onError
  rw [hx]

/-! ## Weakest preconditions -/

/-- Whenever `x` stops from `s`, its outcome and final state satisfy `Q`. -/
def wp (x : Prog σ ε α) (Q : Except ε α → σ → Prop) (s : σ) : Prop :=
  ∀ r s', x s = some (r, s') → Q r s'

/-- The outcome of a run satisfies what holds of every outcome. -/
theorem wp_elim {x : Prog σ ε α} {Q : Except ε α → σ → Prop} {s s' : σ} {r : Except ε α}
    (h : wp x Q s) (hx : x s = some (r, s')) : Q r s' :=
  h r s' hx

/-- A weaker statement about the outcome holds as well. -/
theorem wp_mono {x : Prog σ ε α} {Q R : Except ε α → σ → Prop} {s : σ}
    (h : wp x Q s) (hQR : ∀ r s', Q r s' → R r s') : wp x R s :=
  fun r s' hx => hQR r s' (h r s' hx)

/-- A program that does from `s` what another does from `t`. -/
theorem wp_congr {x y : Prog σ ε α} {Q : Except ε α → σ → Prop} {s t : σ} (h : x s = y t)
    (hy : wp y Q t) : wp x Q s := by
  intro r s' hx
  exact hy r s' (h ▸ hx)

/-- A program that is known to stop. -/
theorem wp_of_run {x : Prog σ ε α} {Q : Except ε α → σ → Prop} {s s' : σ} {r : Except ε α}
    (hx : x s = some (r, s')) (hQ : Q r s') : wp x Q s := by
  intro r₁ s₁ h
  cases hx.symm.trans h
  exact hQ

/-- What holds behind `pure`. -/
@[simp] theorem wp_pure (a : α) (Q : Except ε α → σ → Prop) (s : σ) :
    wp (pure a : Prog σ ε α) Q s ↔ Q (.ok a) s := by
  simp [wp]

/-- What holds behind `throw`. -/
@[simp] theorem wp_throw (e : ε) (Q : Except ε α → σ → Prop) (s : σ) :
    wp (throw e : Prog σ ε α) Q s ↔ Q (.error e) s := by
  simp [wp]

/-- Anything holds behind a program that does not end. -/
@[simp] theorem wp_diverge (Q : Except ε α → σ → Prop) (s : σ) :
    wp (diverge : Prog σ ε α) Q s := by
  simp [wp]

/-- What holds behind `get`. -/
@[simp] theorem wp_get (Q : Except ε σ → σ → Prop) (s : σ) :
    wp (get : Prog σ ε σ) Q s ↔ Q (.ok s) s := by
  simp [wp]

/-- What holds behind `modify`. -/
@[simp] theorem wp_modify (f : σ → σ) (Q : Except ε Unit → σ → Prop) (s : σ) :
    wp (modify f : Prog σ ε Unit) Q s ↔ Q (.ok ()) (f s) := by
  simp [wp]

/-- What holds behind a lifted result. -/
@[simp] theorem wp_lift (r : Except ε α) (Q : Except ε α → σ → Prop) (s : σ) :
    wp (lift r : Prog σ ε α) Q s ↔ Q r s := by
  simp [wp]

/-- The postcondition of the first part of a sequence: its errors end the
sequence, its values start the second part. -/
def thenWp (f : α → Prog σ ε β) (Q : Except ε β → σ → Prop) : Except ε α → σ → Prop
  | .ok a, s => wp (f a) Q s
  | .error e, s => Q (.error e) s

/-- Behind a value the second part decides. -/
@[simp] theorem thenWp_ok (f : α → Prog σ ε β) (Q : Except ε β → σ → Prop) (a : α) (s : σ) :
    thenWp f Q (.ok a) s ↔ wp (f a) Q s := Iff.rfl

/-- An error is the outcome of the whole. -/
@[simp] theorem thenWp_error (f : α → Prog σ ε β) (Q : Except ε β → σ → Prop) (e : ε) (s : σ) :
    thenWp f Q (.error e) s ↔ Q (.error e) s := Iff.rfl

/-- The rule for two programs one after the other. -/
@[simp] theorem wp_bind (x : Prog σ ε α) (f : α → Prog σ ε β) (Q : Except ε β → σ → Prop)
    (s : σ) : wp (x >>= f) Q s ↔ wp x (thenWp f Q) s := by
  unfold wp
  simp only [bind_apply]
  constructor
  · intro h r s' hx
    cases r with
    | ok a => exact fun r' s'' hf => h r' s'' (by rw [hx]; exact hf)
    | error e => exact h _ _ (by rw [hx])
  · intro h r s' hx
    split at hx
    · cases hx
    · rename_i e s₁ hx₁
      cases hx
      exact h _ _ hx₁
    · rename_i a s₁ hx₁
      exact h _ _ hx₁ r s' hx

/-- The postcondition under a handler: errors start the handler. -/
def handledWp (handler : ε → Prog σ ε α) (Q : Except ε α → σ → Prop) :
    Except ε α → σ → Prop
  | .ok a, s => Q (.ok a) s
  | .error e, s => wp (handler e) Q s

/-- A value is the outcome of the whole. -/
@[simp] theorem handledWp_ok (handler : ε → Prog σ ε α) (Q : Except ε α → σ → Prop) (a : α)
    (s : σ) : handledWp handler Q (.ok a) s ↔ Q (.ok a) s := Iff.rfl

/-- Behind an error the handler decides. -/
@[simp] theorem handledWp_error (handler : ε → Prog σ ε α) (Q : Except ε α → σ → Prop) (e : ε)
    (s : σ) : handledWp handler Q (.error e) s ↔ wp (handler e) Q s := Iff.rfl

/-- The rule for a program with a handler. -/
@[simp] theorem wp_onError (x : Prog σ ε α) (handler : ε → Prog σ ε α)
    (Q : Except ε α → σ → Prop) (s : σ) :
    wp (onError x handler) Q s ↔ wp x (handledWp handler Q) s := by
  unfold wp onError
  constructor
  · intro h r s' hx
    cases r with
    | ok a => exact h _ _ (by rw [hx])
    | error e => exact fun r' s'' hf => h r' s'' (by rw [hx]; exact hf)
  · intro h r s' hx
    split at hx
    · cases hx
    · rename_i e s₁ hx₁
      exact h _ _ hx₁ r s' hx
    · rename_i a s₁ hx₁
      cases hx
      exact h _ _ hx₁

/-- The rule for a program whose errors are values. -/
@[simp] theorem wp_attempt (x : Prog σ ε α) (Q : Except ε' (Except ε α) → σ → Prop) (s : σ) :
    wp (attempt x : Prog σ ε' (Except ε α)) Q s ↔ wp x (fun r s' => Q (.ok r) s') s := by
  unfold wp attempt
  constructor
  · intro h r s' hx
    exact h _ _ (by rw [hx])
  · intro h r s' hx
    split at hx
    · cases hx
    · rename_i r₁ s₁ hx₁
      cases hx
      exact h _ _ hx₁

/-- The rule for a sequence whose first part has a proved fact. -/
theorem wp_bind_of_spec {x : Prog σ ε α} {f : α → Prog σ ε β} {R : Except ε α → σ → Prop}
    {Q : Except ε β → σ → Prop} {s : σ} (hx : wp x R s)
    (hok : ∀ a s', R (.ok a) s' → wp (f a) Q s')
    (herr : ∀ e s', R (.error e) s' → Q (.error e) s') : wp (x >>= f) Q s := by
  rw [wp_bind]
  refine wp_mono hx ?_
  intro r s' hR
  cases r with
  | ok a => exact hok a s' hR
  | error e => exact herr e s' hR

/-! ## Runs that end with a value -/

/-- Whenever `x` ends with a value from `s`, the value and the final state satisfy `Q`. -/
def wpOk (x : Prog σ ε α) (Q : α → σ → Prop) (s : σ) : Prop :=
  ∀ a s', x s = some (.ok a, s') → Q a s'

/-- A weaker statement about the value holds as well. -/
theorem wpOk_mono {x : Prog σ ε α} {Q R : α → σ → Prop} {s : σ}
    (h : wpOk x Q s) (hQR : ∀ a s', Q a s' → R a s') : wpOk x R s :=
  fun a s' hx => hQR a s' (h a s' hx)

/-- What holds of every outcome holds of the values. -/
theorem wpOk_of_wp {x : Prog σ ε α} {Q : Except ε α → σ → Prop} {s : σ} (h : wp x Q s) :
    wpOk x (fun a => Q (.ok a)) s :=
  fun a s' hx => h (.ok a) s' hx

/-- What holds of the value of `pure`. -/
@[simp] theorem wpOk_pure (a : α) (Q : α → σ → Prop) (s : σ) :
    wpOk (pure a : Prog σ ε α) Q s ↔ Q a s := by
  simp [wpOk]

/-- An error has no value to speak of. -/
@[simp] theorem wpOk_throw (e : ε) (Q : α → σ → Prop) (s : σ) :
    wpOk (throw e : Prog σ ε α) Q s := by
  simp [wpOk]

/-- A program that does not end has no value to speak of. -/
@[simp] theorem wpOk_diverge (Q : α → σ → Prop) (s : σ) :
    wpOk (diverge : Prog σ ε α) Q s := by
  simp [wpOk]

/-- What holds of the value of a lifted result. -/
@[simp] theorem wpOk_lift (r : Except ε α) (Q : α → σ → Prop) (s : σ) :
    wpOk (lift r : Prog σ ε α) Q s ↔ ∀ a, r = .ok a → Q a s := by
  unfold wpOk
  simp only [lift_apply, Option.some.injEq, Prod.mk.injEq]
  exact ⟨fun h a ha => h a s ⟨ha, rfl⟩, fun h a s' ⟨ha, hs⟩ => hs ▸ h a ha⟩

/-- The rule for two programs one after the other, for values only. -/
@[simp] theorem wpOk_bind (x : Prog σ ε α) (f : α → Prog σ ε β) (Q : β → σ → Prop) (s : σ) :
    wpOk (x >>= f) Q s ↔ wpOk x (fun a => wpOk (f a) Q) s := by
  unfold wpOk
  simp only [bind_eq_ok_iff]
  exact ⟨fun h a s₁ hx b s' hf => h b s' ⟨a, s₁, hx, hf⟩,
    fun h b s' ⟨a, s₁, hx, hf⟩ => h a s₁ hx b s' hf⟩

/-- A handler that never ends with a value does not matter here. -/
theorem wpOk_onError {x : Prog σ ε α} {handler : ε → Prog σ ε α} {Q : α → σ → Prop} {s : σ}
    (hx : wpOk x Q s) (hh : ∀ e s', wpOk (handler e) Q s') : wpOk (onError x handler) Q s := by
  intro a s' h
  unfold onError at h
  split at h
  · cases h
  · exact hh _ _ _ _ h
  · next a₁ s₁ hx₁ =>
    cases h
    exact hx _ _ hx₁

/-- A program whose errors are values always has a value if it ends. -/
@[simp] theorem wpOk_attempt (x : Prog σ ε α) (Q : Except ε α → σ → Prop) (s : σ) :
    wpOk (attempt x : Prog σ ε' (Except ε α)) Q s ↔ wp x Q s := by
  unfold wpOk wp attempt
  constructor
  · intro h r s' hx
    exact h _ _ (by rw [hx])
  · intro h r s' hx
    split at hx
    · cases hx
    · rename_i r₁ s₁ hx₁
      cases hx
      exact h _ _ hx₁

/-- The rule for a sequence whose first part has a proved fact. -/
theorem wpOk_bind_of_spec {x : Prog σ ε α} {f : α → Prog σ ε β} {R : α → σ → Prop}
    {Q : β → σ → Prop} {s : σ} (hx : wpOk x R s) (hf : ∀ a s', R a s' → wpOk (f a) Q s') :
    wpOk (x >>= f) Q s := by
  rw [wpOk_bind]
  exact wpOk_mono hx hf

/-! ## Runs that do end with a value -/

/-- `x` ends with a value from `s`, and the value and the final state satisfy `Q`. -/
def succeeds (x : Prog σ ε α) (Q : α → σ → Prop) (s : σ) : Prop :=
  ∃ a s', x s = some (.ok a, s') ∧ Q a s'

/-- A weaker statement about the value still holds of a run that succeeds. -/
theorem succeeds_mono {x : Prog σ ε α} {Q R : α → σ → Prop} {s : σ}
    (h : succeeds x Q s) (hQR : ∀ a s', Q a s' → R a s') : succeeds x R s := by
  obtain ⟨a, s', hx, hQ⟩ := h
  exact ⟨a, s', hx, hQR a s' hQ⟩

/-- A run with a value succeeds. -/
theorem succeeds_of_eq {x : Prog σ ε α} {Q : α → σ → Prop} {s s' : σ} {a : α}
    (hx : x s = some (.ok a, s')) (hQ : Q a s') : succeeds x Q s :=
  ⟨a, s', hx, hQ⟩

/-- `pure` succeeds. -/
@[simp] theorem succeeds_pure (a : α) (Q : α → σ → Prop) (s : σ) :
    succeeds (pure a : Prog σ ε α) Q s ↔ Q a s := by
  simp [succeeds]

/-- A lifted value succeeds. -/
theorem succeeds_lift {r : Except ε α} {a : α} {Q : α → σ → Prop} {s : σ} (hr : r = .ok a)
    (hQ : Q a s) : succeeds (lift r : Prog σ ε α) Q s :=
  ⟨a, s, lift_of_ok hr s, hQ⟩

/-- Two programs succeed if the first does and the second does behind it. -/
theorem succeeds_bind {x : Prog σ ε α} {f : α → Prog σ ε β} {Q : β → σ → Prop} {s : σ}
    (h : succeeds x (fun a => succeeds (f a) Q) s) : succeeds (x >>= f) Q s := by
  obtain ⟨a, s₁, hx, b, s', hf, hQ⟩ := h
  exact ⟨b, s', (bind_of_ok hx).trans hf, hQ⟩

/-- A program that succeeds does so under a handler. -/
theorem succeeds_onError {x : Prog σ ε α} {handler : ε → Prog σ ε α} {Q : α → σ → Prop} {s : σ}
    (h : succeeds x Q s) : succeeds (onError x handler) Q s := by
  obtain ⟨a, s', hx, hQ⟩ := h
  exact ⟨a, s', onError_of_ok hx, hQ⟩

/-- The rule for a sequence whose first part has a proved fact. -/
theorem succeeds_bind_of_spec {x : Prog σ ε α} {f : α → Prog σ ε β} {R : α → σ → Prop}
    {Q : β → σ → Prop} {s : σ} (hx : succeeds x R s)
    (hf : ∀ a s', R a s' → succeeds (f a) Q s') : succeeds (x >>= f) Q s :=
  succeeds_bind (succeeds_mono hx hf)

/-! ## Invariants -/

/-- A value with a state that satisfies `I`, or an error with one that satisfies `J`. -/
def ends (I J : σ → Prop) : Except ε α → σ → Prop
  | .ok _, s => I s
  | .error _, s => J s

/-- Behind a value the first invariant holds. -/
@[simp] theorem ends_ok (I J : σ → Prop) (a : α) (s : σ) :
    ends I J (.ok a : Except ε α) s ↔ I s := Iff.rfl

/-- Behind an error the second invariant holds. -/
@[simp] theorem ends_error (I J : σ → Prop) (e : ε) (s : σ) :
    ends I J (.error e : Except ε α) s ↔ J s := Iff.rfl

/-- A value with a state of which `R` holds, or an error with one that satisfies `J`. -/
def thenEnds (R : α → σ → Prop) (J : σ → Prop) : Except ε α → σ → Prop
  | .ok a, s => R a s
  | .error _, s => J s

/-- `x` leads from `I` to `I'`: from a state that satisfies `I`, a value leaves a state that
satisfies `I'` and an error a state that satisfies `J`. -/
def Leads (I I' J : σ → Prop) (x : Prog σ ε α) : Prop := ∀ s, I s → wp x (ends I' J) s

/-- `x` maintains `I`: from a state that satisfies `I`, a value leaves a state that
satisfies `I` and an error a state that satisfies `J`. -/
def Maintains (I J : σ → Prop) (x : Prog σ ε α) : Prop := ∀ s, I s → wp x (ends I J) s

/-- `x` keeps `I`, however it stops. -/
def Keeps (I : σ → Prop) (x : Prog σ ε α) : Prop := Maintains I I x

section Maintains

variable {I J : σ → Prop}

/-- A run that returns a value keeps the invariant. -/
theorem Maintains.run_ok {x : Prog σ ε α} (hx : Maintains I J x) {s s' : σ} {a : α}
    (hs : I s) (hrun : x s = some (.ok a, s')) : I s' :=
  hx s hs (.ok a) s' hrun

/-- A run that fails leaves the invariant of errors. -/
theorem Maintains.run_error {x : Prog σ ε α} (hx : Maintains I J x) {s s' : σ} {e : ε}
    (hs : I s) (hrun : x s = some (.error e, s')) : J s' :=
  hx s hs (.error e) s' hrun

/-- A run keeps an invariant of both outcomes. -/
theorem Keeps.run {x : Prog σ ε α} (hx : Keeps I x) {s s' : σ} {r : Except ε α}
    (hs : I s) (hrun : x s = some (r, s')) : I s' := by
  cases r with
  | ok a => exact Maintains.run_ok hx hs hrun
  | error e => exact Maintains.run_error hx hs hrun

/-- The invariant of errors may be weakened. -/
theorem maintains_mono {J' : σ → Prop} {x : Prog σ ε α} (hx : Maintains I J x)
    (hJ : ∀ s, J s → J' s) : Maintains I J' x := by
  intro s hs
  refine wp_mono (hx s hs) ?_
  intro r s' hr
  cases r with
  | ok a => exact hr
  | error e => exact hJ s' hr

/-- `pure` maintains everything. -/
theorem maintains_pure (a : α) : Maintains I J (pure a : Prog σ ε α) := by
  intro s hs
  simpa using hs

/-- `throw` maintains an invariant that implies the one of errors. -/
theorem maintains_throw (hJ : ∀ s, I s → J s) (e : ε) :
    Maintains I J (throw e : Prog σ ε α) := by
  intro s hs
  simpa using hJ s hs

/-- A program that does not end maintains everything. -/
theorem maintains_diverge : Maintains I J (diverge : Prog σ ε α) := by
  intro s _
  simp

/-- A lifted result maintains an invariant that implies the one of errors. -/
theorem maintains_lift (hJ : ∀ s, I s → J s) (r : Except ε α) :
    Maintains I J (lift r : Prog σ ε α) := by
  intro s hs
  rw [wp_lift]
  cases r with
  | ok a => exact hs
  | error e => exact hJ s hs

/-- Two programs that maintain an invariant do so one after the other. -/
theorem maintains_bind {x : Prog σ ε α} {f : α → Prog σ ε β} (hx : Maintains I J x)
    (hf : ∀ a, Maintains I J (f a)) : Maintains I J (x >>= f) := by
  intro s hs
  refine wp_bind_of_spec (hx s hs) ?_ ?_
  · intro a s' hs'
    exact hf a s' hs'
  · intro e s' hs'
    exact hs'

/-- `throw` leads anywhere, if the invariant of errors holds at the start. -/
theorem leads_throw {I' : σ → Prop} (hJ : ∀ s, I s → J s) (e : ε) :
    Leads I I' J (throw e : Prog σ ε α) := by
  intro s hs
  simpa using hJ s hs

/-- The rule for a sequence that passes through an intermediate invariant. -/
theorem leads_bind {K I' : σ → Prop} {x : Prog σ ε α} {f : α → Prog σ ε β}
    (hx : Leads I K J x) (hf : ∀ a, Leads K I' J (f a)) : Leads I I' J (x >>= f) := by
  intro s hs
  refine wp_bind_of_spec (hx s hs) ?_ ?_
  · intro a s' hs'
    exact hf a s' hs'
  · intro e s' hs'
    exact hs'

/-- The start may be strengthened, and both ends weakened. -/
theorem leads_mono {I₀ I' I'' J' : σ → Prop} {x : Prog σ ε α} (hx : Leads I I' J x)
    (hI : ∀ s, I₀ s → I s) (hI' : ∀ s, I' s → I'' s) (hJ : ∀ s, J s → J' s) :
    Leads I₀ I'' J' x := by
  intro s hs
  refine wp_mono (hx s (hI s hs)) ?_
  intro r s' hr
  cases r with
  | ok a => exact hI' s' hr
  | error e => exact hJ s' hr

/-- A handler that leads on from the errors of the program. -/
theorem leads_onError {K I' : σ → Prop} {x : Prog σ ε α} {handler : ε → Prog σ ε α}
    (hx : Leads I I' K x) (hh : ∀ e, Leads K I' J (handler e)) :
    Leads I I' J (onError x handler) := by
  intro s hs
  rw [wp_onError]
  refine wp_mono (hx s hs) ?_
  intro r s' hr
  cases r with
  | ok a => exact hr
  | error e => exact hh e s' hr

/-- However `x` stops, the sequence goes on. -/
theorem leads_attempt {K : σ → Prop} {x : Prog σ ε α} (hx : Leads I K K x) :
    Leads I K J (attempt x : Prog σ ε' (Except ε α)) := by
  intro s hs
  rw [wp_attempt]
  refine wp_mono (hx s hs) ?_
  intro r s' hr
  cases r with
  | ok a => exact hr
  | error e => exact hr

/-- `x` from `I`: a value leaves a state of which `R` holds with it, an error one of which `J`
does. -/
def Yields (I : σ → Prop) (R : α → σ → Prop) (J : σ → Prop) (x : Prog σ ε α) : Prop :=
  ∀ s, I s → wp x (thenEnds R J) s

/-- What maintains an invariant yields it behind every value. -/
theorem yields_of_maintains {x : Prog σ ε α} (hx : Maintains I J x) :
    Yields I (fun _ => I) J x := by
  intro s hs
  refine wp_mono (hx s hs) ?_
  intro r s' hr
  cases r with
  | ok a => exact hr
  | error e => exact hr

/-- What yields its own invariant behind every value maintains it. -/
theorem maintains_of_yields {x : Prog σ ε α} (hx : Yields I (fun _ => I) J x) :
    Maintains I J x := by
  intro s hs
  refine wp_mono (hx s hs) ?_
  intro r s' hr
  cases r with
  | ok a => exact hr
  | error e => exact hr

/-- `throw` yields anything, if the invariant of errors holds at the start. -/
theorem yields_throw {R : α → σ → Prop} (hJ : ∀ s, I s → J s) (e : ε) :
    Yields I R J (throw e : Prog σ ε α) := by
  intro s hs
  rw [wp_throw]
  exact hJ s hs

/-- A program that leads to the start of the second. -/
theorem yields_bind {K : σ → Prop} {R : β → σ → Prop} {x : Prog σ ε α} {f : α → Prog σ ε β}
    (hx : Leads I K J x) (hf : ∀ a, Yields K R J (f a)) : Yields I R J (x >>= f) := by
  intro s hs
  refine wp_bind_of_spec (hx s hs) ?_ ?_
  · intro a s' hs'
    exact hf a s' hs'
  · intro e s' hs'
    exact hs'

/-- A handler that restores the invariants behind every error. -/
theorem maintains_onError {K : σ → Prop} {x : Prog σ ε α} {handler : ε → Prog σ ε α}
    (hx : Maintains I K x) (hh : ∀ e s, K s → wp (handler e) (ends I J) s) :
    Maintains I J (onError x handler) := by
  intro s hs
  rw [wp_onError]
  refine wp_mono (hx s hs) ?_
  intro r s' hr
  cases r with
  | ok a => exact hr
  | error e => exact hh e s' hr

/-- An invariant of both outcomes is maintained where errors are values. -/
theorem keeps_attempt {x : Prog σ ε α} (hx : Keeps I x) :
    Maintains I J (attempt x : Prog σ ε' (Except ε α)) := by
  intro s hs
  rw [wp_attempt]
  refine wp_mono (hx s hs) ?_
  intro r s' hr
  cases r with
  | ok a => exact hr
  | error e => exact hr

end Maintains

end Prog

end Programs

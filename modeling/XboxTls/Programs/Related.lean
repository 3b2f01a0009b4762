import XboxTls.Programs.Prog

/-!
# Two programs that do the same

`Related R x y` relates a program over one state to a program over another: from states that
are related by `R` neither of them stops, or both stop with the same outcome and again in
related states.  The rules below follow the constructors, so that two instances of one text
are related as soon as their primitive operations are.
-/

set_option autoImplicit false

namespace Programs

namespace Prog

variable {σ τ ε ε' α β : Type} {R : σ → τ → Prop}

/-- Neither run stops, or both stop with the same outcome and in related states. -/
inductive SameEnd (R : σ → τ → Prop) :
    Option (Except ε α × σ) → Option (Except ε α × τ) → Prop where
  | diverge : SameEnd R none none
  | stop (r : Except ε α) {s : σ} {t : τ} (h : R s t) : SameEnd R (some (r, s)) (some (r, t))

/-- From related states the two programs do the same. -/
def Related (R : σ → τ → Prop) (x : Prog σ ε α) (y : Prog τ ε α) : Prop :=
  ∀ s t, R s t → SameEnd R (x s) (y t)

/-- The second run of two related programs follows the first. -/
theorem Related.run {x : Prog σ ε α} {y : Prog τ ε α} (h : Related R x y) {s s' : σ} {t : τ}
    {r : Except ε α} (hst : R s t) (hx : x s = some (r, s')) :
    ∃ t', y t = some (r, t') ∧ R s' t' := by
  have hend := h s t hst
  rw [hx] at hend
  generalize hy : y t = out at hend
  cases hend with
  | stop r h => exact ⟨_, rfl, h⟩

/-- The same value, and related states. -/
theorem related_pure (a : α) : Related R (pure a : Prog σ ε α) (pure a) :=
  fun _ _ h => .stop (.ok a) h

/-- The same error, and related states. -/
theorem related_throw (e : ε) : Related R (throw e : Prog σ ε α) (throw e) :=
  fun _ _ h => .stop (.error e) h

/-- Neither program ends. -/
theorem related_diverge : Related R (diverge : Prog σ ε α) diverge :=
  fun _ _ _ => .diverge

/-- The same result, and related states. -/
theorem related_lift (r : Except ε α) : Related R (lift r : Prog σ ε α) (lift r) :=
  fun _ _ h => .stop r h

/-- Related programs one after the other. -/
theorem related_bind {x : Prog σ ε α} {y : Prog τ ε α} {f : α → Prog σ ε β}
    {g : α → Prog τ ε β} (hxy : Related R x y) (hfg : ∀ a, Related R (f a) (g a)) :
    Related R (x >>= f) (y >>= g) := by
  intro s t h
  have hend := hxy s t h
  rw [bind_apply, bind_apply]
  generalize x s = out at hend
  generalize y t = out' at hend
  cases hend with
  | diverge => exact .diverge
  | stop r h' =>
    cases r with
    | error e => exact .stop (.error e) h'
    | ok a => exact hfg a _ _ h'

/-- Related programs with related handlers. -/
theorem related_onError {x : Prog σ ε α} {y : Prog τ ε α} {f : ε → Prog σ ε α}
    {g : ε → Prog τ ε α} (hxy : Related R x y) (hfg : ∀ e, Related R (f e) (g e)) :
    Related R (onError x f) (onError y g) := by
  intro s t h
  have hend := hxy s t h
  unfold onError
  generalize x s = out at hend
  generalize y t = out' at hend
  cases hend with
  | diverge => exact .diverge
  | stop r h' =>
    cases r with
    | error e => exact hfg e _ _ h'
    | ok a => exact .stop (.ok a) h'

/-- Related programs whose errors are values. -/
theorem related_attempt {x : Prog σ ε α} {y : Prog τ ε α} (hxy : Related R x y) :
    Related R (attempt x : Prog σ ε' (Except ε α)) (attempt y) := by
  intro s t h
  have hend := hxy s t h
  unfold attempt
  generalize x s = out at hend
  generalize y t = out' at hend
  cases hend with
  | diverge => exact .diverge
  | stop r h' => exact .stop (.ok r) h'

/-- Related programs in both branches of one condition. -/
theorem related_ite {c : Prop} [Decidable c] {x₁ x₂ : Prog σ ε α} {y₁ y₂ : Prog τ ε α}
    (h₁ : c → Related R x₁ y₁) (h₂ : ¬ c → Related R x₂ y₂) :
    Related R (if c then x₁ else x₂) (if c then y₁ else y₂) := by
  split
  · next hc => exact h₁ hc
  · next hc => exact h₂ hc

end Prog

end Programs

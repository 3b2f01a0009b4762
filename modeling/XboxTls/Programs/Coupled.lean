import XboxTls.Programs.Related

/-!
# Two runs side by side

`Coupled Q` compares the ends of two runs: neither stops, or both stop with the same outcome,
and `Q` holds of that outcome and of the two states.  It is `SameEnd` with a relation that may
depend on the outcome, and its rules follow the two programs.  `CoupledUnless` leaves out runs
that fail with one error.  `Extends x y` says that `y` does what `x` does wherever `x` stops, as
a loop with more fuel does.
-/

set_option autoImplicit false

namespace Programs

namespace Prog

variable {σ σ' τ ε α β : Type}

/-! ## The ends of two runs -/

/-- Neither run stops, or both stop with the same outcome, and `Q` holds of the end. -/
inductive Coupled (Q : Except ε α → σ → τ → Prop) :
    Option (Except ε α × σ) → Option (Except ε α × τ) → Prop where
  | diverge : Coupled Q none none
  | stop (r : Except ε α) {s : σ} {t : τ} (h : Q r s t) : Coupled Q (some (r, s)) (some (r, t))

/-- A weaker statement about the two outcomes holds as well. -/
theorem Coupled.mono {Q Q' : Except ε α → σ → τ → Prop} {x : Option (Except ε α × σ)}
    {y : Option (Except ε α × τ)} (h : Coupled Q x y) (hQ : ∀ r s t, Q r s t → Q' r s t) :
    Coupled Q' x y := by
  cases h with
  | diverge => exact .diverge
  | stop r h => exact .stop r (hQ r _ _ h)

/-- The second run stops as the first does. -/
theorem Coupled.run {Q : Except ε α → σ → τ → Prop} {s : σ} {r : Except ε α}
    {y : Option (Except ε α × τ)} (h : Coupled Q (some (r, s)) y) :
    ∃ t, y = some (r, t) ∧ Q r s t := by
  cases h with
  | stop r h => exact ⟨_, rfl, h⟩

/-- The two runs may change places. -/
theorem Coupled.symm {Q : Except ε α → σ → τ → Prop} {x : Option (Except ε α × σ)}
    {y : Option (Except ε α × τ)} (h : Coupled Q x y) : Coupled (fun r t s => Q r s t) y x := by
  cases h with
  | diverge => exact .diverge
  | stop r h => exact .stop r h

/-- Two runs that both end as a third one does. -/
theorem Coupled.trans {Q : Except ε α → σ → τ → Prop} {Q' : Except ε α → τ → σ' → Prop}
    {R : Except ε α → σ → σ' → Prop} {x : Option (Except ε α × σ)} {y : Option (Except ε α × τ)}
    {z : Option (Except ε α × σ')} (h : Coupled Q x y) (h' : Coupled Q' y z)
    (hR : ∀ r s t u, Q r s t → Q' r t u → R r s u) : Coupled R x z := by
  cases h with
  | diverge =>
    cases h' with
    | diverge => exact .diverge
  | stop r h =>
    cases h' with
    | stop r h' => exact .stop r (hR r _ _ _ h h')

/-- What is known of the second run alone. -/
theorem Coupled.and_wp {Q : Except ε α → σ → τ → Prop} {Q' : Except ε α → τ → Prop}
    {x : Option (Except ε α × σ)} {y : Prog τ ε α} {t : τ} (h : Coupled Q x (y t))
    (hy : wp y Q' t) : Coupled (fun r s t' => Q r s t' ∧ Q' r t') x (y t) := by
  have hwp : ∀ r t', y t = some (r, t') → Q' r t' := hy
  generalize y t = out at h hwp ⊢
  cases h with
  | diverge => exact .diverge
  | stop r h => exact .stop r ⟨h, hwp r _ rfl⟩

/-- Related programs have coupled outcomes from related states. -/
theorem Related.coupled {R : σ → τ → Prop} {x : Prog σ ε α} {y : Prog τ ε α}
    (h : Related R x y) {s : σ} {t : τ} (hst : R s t) : Coupled (fun _ => R) (x s) (y t) := by
  have hend := h s t hst
  generalize x s = out at hend ⊢
  generalize y t = out' at hend ⊢
  cases hend with
  | diverge => exact .diverge
  | stop r h => exact .stop r h

/-- Coupled runs that go on with coupled runs behind a value. -/
theorem coupled_bind {Q : Except ε α → σ → τ → Prop} {Q' : Except ε β → σ → τ → Prop}
    {x : Prog σ ε α} {y : Prog τ ε α} {f : α → Prog σ ε β} {g : α → Prog τ ε β} {s : σ} {t : τ}
    (hxy : Coupled Q (x s) (y t))
    (hok : ∀ a s' t', Q (.ok a) s' t' → Coupled Q' (f a s') (g a t'))
    (herr : ∀ e s' t', Q (.error e) s' t' → Q' (.error e) s' t') :
    Coupled Q' ((x >>= f) s) ((y >>= g) t) := by
  rw [bind_apply, bind_apply]
  generalize x s = out at hxy
  generalize y t = out' at hxy
  cases hxy with
  | diverge => exact .diverge
  | stop r h =>
    cases r with
    | error e => exact .stop _ (herr e _ _ h)
    | ok a => exact hok a _ _ h

/-- Coupled runs that go on with coupled runs behind an error. -/
theorem coupled_onError {Q Q' : Except ε α → σ → τ → Prop} {x : Prog σ ε α} {y : Prog τ ε α}
    {f : ε → Prog σ ε α} {g : ε → Prog τ ε α} {s : σ} {t : τ} (hxy : Coupled Q (x s) (y t))
    (hok : ∀ a s' t', Q (.ok a) s' t' → Q' (.ok a) s' t')
    (herr : ∀ e s' t', Q (.error e) s' t' → Coupled Q' (f e s') (g e t')) :
    Coupled Q' (onError x f s) (onError y g t) := by
  unfold onError
  generalize x s = out at hxy
  generalize y t = out' at hxy
  cases hxy with
  | diverge => exact .diverge
  | stop r h =>
    cases r with
    | error e => exact herr e _ _ h
    | ok a => exact .stop _ (hok a _ _ h)

/-- `coupled_bind` for first parts that are related. -/
theorem Related.coupled_bind {R : σ → τ → Prop} {Q : Except ε β → σ → τ → Prop} {x : Prog σ ε α}
    {y : Prog τ ε α} {f : α → Prog σ ε β} {g : α → Prog τ ε β} {s : σ} {t : τ}
    (hxy : Related R x y) (hst : R s t)
    (hok : ∀ a s' t', R s' t' → Coupled Q (f a s') (g a t'))
    (herr : ∀ e s' t', R s' t' → Q (.error e) s' t') :
    Coupled Q ((x >>= f) s) ((y >>= g) t) :=
  Prog.coupled_bind (hxy.coupled hst) hok herr

/-- The grouping of a sequence does not matter. -/
theorem bind_assoc_apply {γ : Type} (x : Prog σ ε α) (f : α → Prog σ ε β) (g : β → Prog σ ε γ)
    (s : σ) : ((x >>= f) >>= g) s = (x >>= fun a => f a >>= g) s := by
  simp only [bind_apply]
  cases x s with
  | none => rfl
  | some out =>
    obtain ⟨r, s'⟩ := out
    cases r with
    | error e => rfl
    | ok a => rfl

/-! ## Runs that may fail -/

/-- The two runs are coupled, unless one of them fails with `e`: the first may do so where `A`
holds, and the second where `B` does. -/
def CoupledUnless (e : ε) (A B : Prop) (Q : Except ε α → σ → τ → Prop)
    (x : Option (Except ε α × σ)) (y : Option (Except ε α × τ)) : Prop :=
  Coupled Q x y ∨ (A ∧ ∃ s, x = some (.error e, s)) ∨ B ∧ ∃ t, y = some (.error e, t)

variable {e : ε} {A B : Prop}

/-- Runs that may not fail are coupled. -/
theorem CoupledUnless.coupled {Q : Except ε α → σ → τ → Prop} {x : Option (Except ε α × σ)}
    {y : Option (Except ε α × τ)} (h : CoupledUnless e A B Q x y) (hA : ¬ A) (hB : ¬ B) :
    Coupled Q x y := by
  obtain hxy | ⟨ha, -⟩ | ⟨hb, -⟩ := h
  · exact hxy
  · exact absurd ha hA
  · exact absurd hb hB

/-- A weaker statement about the two outcomes holds as well. -/
theorem CoupledUnless.mono {Q Q' : Except ε α → σ → τ → Prop} {x : Option (Except ε α × σ)}
    {y : Option (Except ε α × τ)} (h : CoupledUnless e A B Q x y)
    (hQ : ∀ r s t, Q r s t → Q' r s t) : CoupledUnless e A B Q' x y :=
  h.imp_left fun hxy => hxy.mono hQ

/-- The two runs may change places. -/
theorem CoupledUnless.symm {Q : Except ε α → σ → τ → Prop} {x : Option (Except ε α × σ)}
    {y : Option (Except ε α × τ)} (h : CoupledUnless e A B Q x y) :
    CoupledUnless e B A (fun r t s => Q r s t) y x :=
  h.imp Coupled.symm Or.symm

/-- Two runs beside a third one that does not fail. -/
theorem CoupledUnless.trans {Q : Except ε α → σ → τ → Prop} {Q' : Except ε α → σ' → τ → Prop}
    {R : Except ε α → σ → σ' → Prop} {x : Option (Except ε α × σ)} {y : Option (Except ε α × τ)}
    {z : Option (Except ε α × σ')} (h : CoupledUnless e A False Q x y)
    (h' : CoupledUnless e B False Q' z y) (hR : ∀ r s t u, Q r s t → Q' r u t → R r s u) :
    CoupledUnless e A B R x z := by
  obtain hxy | hx | ⟨hfalse, -⟩ := h
  · obtain hzy | hz | ⟨hfalse, -⟩ := h'
    · exact .inl (hxy.trans hzy.symm hR)
    · exact .inr (.inr hz)
    · exact hfalse.elim
  · exact .inr (.inl hx)
  · exact hfalse.elim

/-- A failure passes by what comes behind it. -/
theorem coupledUnless_bind {Q : Except ε α → σ → τ → Prop} {Q' : Except ε β → σ → τ → Prop}
    {x : Prog σ ε α} {y : Prog τ ε α} {f : α → Prog σ ε β} {g : α → Prog τ ε β} {s : σ} {t : τ}
    (hxy : CoupledUnless e A B Q (x s) (y t))
    (hok : ∀ a s' t', Q (.ok a) s' t' → CoupledUnless e A B Q' (f a s') (g a t'))
    (herr : ∀ e' s' t', Q (.error e') s' t' → Q' (.error e') s' t') :
    CoupledUnless e A B Q' ((x >>= f) s) ((y >>= g) t) := by
  rw [bind_apply, bind_apply]
  obtain hxy | ⟨ha, s', hx⟩ | ⟨hb, t', hy⟩ := hxy
  · generalize x s = out at hxy
    generalize y t = out' at hxy
    cases hxy with
    | diverge => exact .inl .diverge
    | stop r h =>
      cases r with
      | error e' => exact .inl (.stop _ (herr e' _ _ h))
      | ok a => exact hok a _ _ h
  · rw [hx]
    exact .inr (.inl ⟨ha, s', rfl⟩)
  · rw [hy]
    exact .inr (.inr ⟨hb, t', rfl⟩)

/-- A failure stays one under handlers that pass every error on. -/
theorem coupledUnless_onError {Q Q' : Except ε α → σ → τ → Prop} {x : Prog σ ε α}
    {y : Prog τ ε α} {f : ε → Prog σ ε α} {g : ε → Prog τ ε α} {s : σ} {t : τ}
    (hxy : CoupledUnless e A B Q (x s) (y t))
    (hok : ∀ a s' t', Q (.ok a) s' t' → Q' (.ok a) s' t')
    (herr : ∀ e' s' t', Q (.error e') s' t' → Coupled Q' (f e' s') (g e' t'))
    (hf : ∀ s', ∃ s'', f e s' = some (.error e, s''))
    (hg : ∀ t', ∃ t'', g e t' = some (.error e, t'')) :
    CoupledUnless e A B Q' (onError x f s) (onError y g t) := by
  obtain hxy | ⟨ha, s', hx⟩ | ⟨hb, t', hy⟩ := hxy
  · exact .inl (coupled_onError hxy hok herr)
  · obtain ⟨s'', hs⟩ := hf s'
    exact .inr (.inl ⟨ha, s'', by rw [onError, hx]; exact hs⟩)
  · obtain ⟨t'', ht⟩ := hg t'
    exact .inr (.inr ⟨hb, t'', by rw [onError, hy]; exact ht⟩)

/-! ## More fuel -/

/-- Wherever `x` stops, `y` does the same. -/
def Extends (x y : Prog σ ε α) : Prop := ∀ s out, x s = some out → y s = some out

/-- A program extends itself. -/
theorem extends_refl (x : Prog σ ε α) : Extends x x := fun _ _ h => h

/-- Every program extends the one that does not end. -/
theorem extends_diverge (x : Prog σ ε α) : Extends diverge x := by
  intro s out h
  cases h

/-- Extensions one after the other. -/
theorem extends_bind {x y : Prog σ ε α} {f g : α → Prog σ ε β} (hxy : Extends x y)
    (hfg : ∀ a, Extends (f a) (g a)) : Extends (x >>= f) (y >>= g) := by
  intro s out h
  rw [bind_apply] at h ⊢
  cases hx : x s with
  | none =>
    rw [hx] at h
    cases h
  | some end_ =>
    obtain ⟨r, s'⟩ := end_
    rw [hxy s _ hx]
    rw [hx] at h
    cases r with
    | error e => exact h
    | ok a => exact hfg a s' out h

/-- An extension under the same handler. -/
theorem extends_onError {x y : Prog σ ε α} {f : ε → Prog σ ε α} (hxy : Extends x y) :
    Extends (onError x f) (onError y f) := by
  intro s out h
  unfold onError at h ⊢
  cases hx : x s with
  | none =>
    rw [hx] at h
    cases h
  | some end_ =>
    rw [hxy s _ hx]
    rw [hx] at h
    exact h

/-- Extensions in both branches of one condition. -/
theorem extends_ite {c : Prop} [Decidable c] {x₁ x₂ y₁ y₂ : Prog σ ε α} (h₁ : Extends x₁ y₁)
    (h₂ : Extends x₂ y₂) : Extends (if c then x₁ else x₂) (if c then y₁ else y₂) := by
  split
  · exact h₁
  · exact h₂

end Prog

end Programs

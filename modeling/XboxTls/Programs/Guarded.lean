import Mathlib.Algebra.Group.Nat.Defs
import Mathlib.Data.List.Basic
import Mathlib.Tactic.Common

/-!
# Programs that fault at their bounds

A guarded computation faults, refuses with an error or returns.  It faults where it would read
or write outside of what it was given, where a number would wrap, and where a loop would go on
for longer than it was allowed to.  An error is not a fault: it is what the program answers.
-/

set_option autoImplicit false

namespace Programs

/-- A computation that faults (`none`), refuses with an error or returns. -/
abbrev Guarded (ε α : Type) : Type := ExceptT ε Option α

/-- A computation that has no errors. -/
abbrev Infallible (α : Type) : Type := Guarded Empty α

namespace Guarded

variable {ε ε' α β τ : Type}

/-! ## Steps -/

/-- The computation leaves its bounds. -/
def fault : Guarded ε α := (none : Option (Except ε α))

/-- The answer is an error. -/
def refuse (e : ε) : Guarded ε α := (some (.error e) : Option (Except ε α))

/-- `if (c) return e;` -/
def refuseIf (c : Prop) [Decidable c] (e : ε) : Guarded ε Unit := if c then refuse e else pure ()

/-- `if (!ok) return false;` where there is nothing else to return. -/
def check (ok : Bool) : Guarded Unit Unit := if ok then pure () else refuse ()

/-- The same computation with `e` in the place of each of its errors. -/
def orRefuse (x : Guarded ε α) (e : ε') : Guarded ε' α :=
  (Option.map (Except.mapError fun _ => e) x : Option (Except ε' α))

/-- Whether the computation returns. -/
def succeeds (x : Guarded ε α) : Guarded ε' Bool :=
  (Option.map (fun r => Except.ok r.isOk) x : Option (Except ε' Bool))

/-- `l[i]`. -/
def getAt (l : List τ) (i : ℕ) : Guarded ε τ :=
  if h : i < l.length then pure l[i] else fault

/-- `a + b` of unsigned numbers below `limit`. -/
def plus (limit a b : ℕ) : Guarded ε ℕ := if a + b < limit then pure (a + b) else fault

/-- `a - b` of unsigned numbers. -/
def minus (a b : ℕ) : Guarded ε ℕ := if b ≤ a then pure (a - b) else fault

/-- `memcpy(dest, src, n)` into an array. -/
def copyTo {n : ℕ} (dest : { l : List τ // l.length = n }) (src : List τ) :
    Guarded ε { l : List τ // l.length = n } :=
  if h : src.length ≤ n then
    pure ⟨src ++ dest.val.drop src.length, by
      have hdest := dest.property
      rw [List.length_append, List.length_drop]
      omega⟩
  else fault

/-- `dest[i] = x` in an array. -/
def store {n : ℕ} (dest : { l : List τ // l.length = n }) (i : ℕ) (x : τ) :
    Guarded ε { l : List τ // l.length = n } :=
  if i < n then pure ⟨dest.val.set i x, by rw [List.length_set, dest.property]⟩ else fault

/-! ## Steps within their bounds -/

/-- Behind a refusal nothing runs. -/
theorem refuse_bind (e : ε) (f : α → Guarded ε β) : (refuse e >>= f) = refuse e :=
  rfl

/-- What follows a choice is in both of its branches. -/
theorem ite_bind {c : Prop} [Decidable c] (x y : Guarded ε α) (f : α → Guarded ε β) :
    ((if c then x else y) >>= f) = if c then x >>= f else y >>= f :=
  apply_ite (· >>= f) c x y

/-- The condition holds, and the program refuses. -/
theorem refuseIf_pos {c : Prop} [Decidable c] (e : ε) (h : c) : refuseIf c e = refuse e :=
  if_pos h

/-- The condition does not hold, and the program goes on. -/
theorem refuseIf_neg {c : Prop} [Decidable c] (e : ε) (h : ¬ c) : refuseIf c e = pure () :=
  if_neg h

/-- A check that passes does nothing. -/
@[simp] theorem check_true : check true = pure () := rfl

/-- A check that fails refuses. -/
@[simp] theorem check_false : check false = refuse () := rfl

/-- A refusal under a condition is a check of its negation. -/
theorem refuseIf_eq_check {c : Prop} [Decidable c] {ok : Bool} (h : c ↔ ok = false) :
    refuseIf c () = check ok := by
  cases ok with
  | false => exact refuseIf_pos () (h.2 rfl)
  | true => exact refuseIf_neg () fun hc => Bool.noConfusion (h.1 hc)

/-- Whether a check succeeds is what it checks. -/
theorem succeeds_check (ok : Bool) : (succeeds (check ok) : Guarded ε' Bool) = pure ok := by
  cases ok <;> rfl

/-- The refusal is replaced. -/
theorem orRefuse_refuse (e : ε) (e' : ε') : orRefuse (refuse e : Guarded ε α) e' = refuse e' :=
  rfl

/-- A value has no refusal to replace. -/
theorem orRefuse_pure (a : α) (e : ε') : orRefuse (pure a : Guarded ε α) e = pure a :=
  rfl

/-- A read inside the list gives the member. -/
theorem getAt_eq {l : List τ} {i : ℕ} (h : i < l.length) :
    getAt (ε := ε) l i = pure l[i] :=
  dif_pos h

/-- A sum below the limit is the sum. -/
theorem plus_eq {limit a b : ℕ} (h : a + b < limit) : plus (ε := ε) limit a b = pure (a + b) :=
  if_pos h

/-- A difference that is not negative is the difference. -/
theorem minus_eq {a b : ℕ} (h : b ≤ a) : minus (ε := ε) a b = pure (a - b) :=
  if_pos h

/-- What is copied becomes the front of the array. -/
theorem copyTo_eq {n : ℕ} (dest : { l : List τ // l.length = n }) {src : List τ}
    (h : src.length ≤ n) : ∃ d : { l : List τ // l.length = n },
      copyTo (ε := ε) dest src = pure d ∧ d.val.take src.length = src :=
  ⟨_, dif_pos h, List.take_left⟩

/-- What is stored behind the first `i` elements joins them. -/
theorem store_eq {n : ℕ} (dest : { l : List τ // l.length = n }) {i : ℕ} (x : τ) (h : i < n) :
    ∃ d : { l : List τ // l.length = n }, store (ε := ε) dest i x = pure d ∧
      d.val.take (i + 1) = dest.val.take i ++ [x] ∧ ∀ y ∈ d.val, y ∈ dest.val ∨ y = x := by
  have hlen : i < (dest.val.set i x).length := by
    rw [List.length_set, dest.property]
    exact h
  refine ⟨_, if_pos h, ?_, fun y hy => List.mem_or_eq_of_mem_set hy⟩
  rw [List.take_succ_eq_append_getElem hlen, List.take_set_of_le (Nat.le_refl i),
    List.getElem_set_self]

/-! ## Agreement with a program that has no bounds -/

/-- The computation does not fault and answers as `y` does: with the same error, or with a value
that stands for the value of `y`. -/
def Agrees (R : α → β → Prop) (x : Guarded ε α) (y : Except ε β) : Prop :=
  (∃ e, x = refuse e ∧ y = .error e) ∨ ∃ a b, x = pure a ∧ y = .ok b ∧ R a b

variable {R : α → β → Prop}

/-- A refusal agrees with the same error. -/
theorem agrees_refuse (e : ε) : Agrees R (refuse e) (.error e) :=
  .inl ⟨e, rfl, rfl⟩

/-- A value agrees with one that it is related to. -/
theorem agrees_pure {a : α} {b : β} (h : R a b) : Agrees (ε := ε) R (pure a) (.ok b) :=
  .inr ⟨a, b, rfl, rfl, h⟩

/-- A check that both programs make. -/
theorem agrees_refuseIf {c d : Prop} [Decidable c] [Decidable d] {e : ε}
    {f : Unit → Guarded ε α} {y : Except ε β} (hcond : c ↔ d)
    (h : ¬ d → Agrees R (f ()) y) :
    Agrees R (refuseIf c e >>= f) (if d then .error e else y) := by
  by_cases hd : d
  · rw [refuseIf_pos e (hcond.2 hd), refuse_bind, if_pos hd]
    exact agrees_refuse e
  · rw [refuseIf_neg e (mt hcond.1 hd), pure_bind, if_neg hd]
    exact h hd

/-- A check that the other program makes together with one that follows. -/
theorem agrees_refuseIf_or {c d q : Prop} [Decidable c] [Decidable d] [Decidable q] {e : ε}
    {f : Unit → Guarded ε α} {y : Except ε β} (hcond : d ↔ c ∨ q)
    (h : ¬ c → Agrees R (f ()) (if q then .error e else y)) :
    Agrees R (refuseIf c e >>= f) (if d then .error e else y) := by
  by_cases hc : c
  · rw [refuseIf_pos e hc, refuse_bind, if_pos (hcond.2 (.inl hc))]
    exact agrees_refuse e
  · have hq : d ↔ q := by tauto
    rw [refuseIf_neg e hc, pure_bind]
    by_cases hd : d
    · simpa only [if_pos hd, if_pos (hq.1 hd)] using h hc
    · simpa only [if_neg hd, if_neg (mt hq.2 hd)] using h hc

/-- A choice that both programs make. -/
theorem agrees_ite {c d : Prop} [Decidable c] [Decidable d] {x x' : Guarded ε α}
    {y y' : Except ε β} (hcond : c ↔ d) (h : d → Agrees R x y) (h' : ¬ d → Agrees R x' y') :
    Agrees R (if c then x else x') (if d then y else y') := by
  by_cases hd : d
  · rw [if_pos (hcond.2 hd), if_pos hd]
    exact h hd
  · rw [if_neg (mt hcond.1 hd), if_neg hd]
    exact h' hd

/-- One program after another. -/
theorem agrees_bind {α' β' : Type} {S : α' → β' → Prop} {x : Guarded ε α} {y : Except ε β}
    {f : α → Guarded ε α'} {g : β → Except ε β'} (hx : Agrees R x y)
    (hf : ∀ a b, R a b → Agrees S (f a) (g b)) : Agrees S (x >>= f) (y >>= g) := by
  obtain ⟨e, rfl, rfl⟩ | ⟨a, b, rfl, rfl, hab⟩ := hx
  · exact agrees_refuse e
  · exact hf a b hab

/-- An error in the place of the only one that there can be. -/
theorem Agrees.orRefuse {x : Guarded ε α} {y : Except ε β} {e : ε} (hx : Agrees R x y)
    (honly : ∀ e', y = .error e' → e' = e) : Agrees R (orRefuse x e) y := by
  obtain ⟨e', rfl, rfl⟩ | ⟨a, b, rfl, rfl, hab⟩ := hx
  · rw [honly e' rfl, orRefuse_refuse]
    exact agrees_refuse e
  · rw [orRefuse_pure]
    exact agrees_pure hab

/-! ## Programs without errors of their own -/

/-- What a program that may have no value answers. -/
def asAnswer : Option β → Except Unit β
  | none => .error ()
  | some b => .ok b

/-- No value is a refusal. -/
@[simp] theorem asAnswer_none : asAnswer (none : Option β) = .error () := rfl

/-- A value is one. -/
@[simp] theorem asAnswer_some (b : β) : asAnswer (some b) = .ok b := rfl

/-- The answer of a choice is the choice of the answers. -/
theorem asAnswer_ite {d : Prop} [Decidable d] (y y' : Option β) :
    asAnswer (if d then y else y') = if d then asAnswer y else asAnswer y' :=
  apply_ite asAnswer d y y'

/-- What it means to agree with a program that may have no value. -/
theorem agrees_asAnswer_iff {x : Guarded Unit α} {y : Option β} :
    Agrees R x (asAnswer y) ↔
      (x = refuse () ∧ y = none) ∨ ∃ a b, x = pure a ∧ y = some b ∧ R a b := by
  constructor
  · rintro (⟨e, hx, hy⟩ | ⟨a, b, hx, hy, hab⟩)
    · cases y with
      | none => exact .inl ⟨hx, rfl⟩
      | some b => cases hy
    · cases y with
      | none => cases hy
      | some b' =>
        obtain rfl : b' = b := Except.ok.inj hy
        exact .inr ⟨a, b', hx, rfl, hab⟩
  · rintro (⟨rfl, rfl⟩ | ⟨a, b, rfl, rfl, hab⟩)
    · exact agrees_refuse ()
    · exact agrees_pure hab

/-- A choice between a value and none, as a check. -/
theorem agrees_check_some {ok : Bool} {a : α} {b : β} (hab : R a b) :
    Agrees R (check ok >>= fun _ => pure a) (asAnswer (if ok then some b else none)) := by
  cases ok with
  | false => exact agrees_refuse ()
  | true => exact agrees_pure hab

/-- The answer of two parts is that of the first, then that of the second. -/
theorem asAnswer_bind {β' : Type} (y : Option β) (g : β → Option β') :
    asAnswer (y >>= g) = asAnswer y >>= fun b => asAnswer (g b) := by
  cases y <;> rfl

/-- Agreement where the kind of the error is forgotten. -/
theorem Agrees.toOption {x : Guarded ε α} {y : Except ε β} (hx : Agrees R x y) :
    Agrees R (Guarded.orRefuse x ()) (asAnswer y.toOption) := by
  obtain ⟨e, rfl, rfl⟩ | ⟨a, b, rfl, rfl, hab⟩ := hx
  · exact agrees_refuse ()
  · exact agrees_pure hab

/-! ## Computations that stay within their bounds -/

/-- The computation does not fault, and a value that it returns is as `P` says. -/
def Safe (P : α → Prop) (x : Guarded ε α) : Prop := ∃ r, x = some r ∧ ∀ a, r = .ok a → P a

/-- What agrees with a program is safe, and its values are those that the relation allows. -/
theorem Agrees.safe {P : α → Prop} {x : Guarded ε α} {y : Except ε β} (hx : Agrees R x y)
    (h : ∀ a b, R a b → P a) : Safe P x := by
  obtain ⟨e, rfl, -⟩ | ⟨a, b, rfl, -, hab⟩ := hx
  · exact ⟨.error e, rfl, fun a ha => by cases ha⟩
  · refine ⟨.ok a, rfl, fun a' ha' => ?_⟩
    cases ha'
    exact h a b hab

end Guarded

end Programs

import ManagedCode.Proofs.Action

/-!
# Two runs side by side

An action that starts from two states may have to end in the same way from both: with the same value
or the same error, in states that are related as the first ones were.

* `Both`: two outcomes of this kind.
* `Parallel`: an action that gives them on all related states, with a rule for each way of putting
  actions together.
-/

namespace ManagedCode

variable {ε σ α β : Type} {R : σ → σ → Prop}

/-- Two outcomes with the same value or the same error, in states that are related. -/
inductive Both (R : σ → σ → Prop) : EStateM.Result ε σ α → EStateM.Result ε σ α → Prop where
  | ok {a : α} {s t : σ} (related : R s t) : Both R (.ok a s) (.ok a t)
  | error {e : ε} {s t : σ} (related : R s t) : Both R (.error e s) (.error e t)

/-- An action that gives the same on related states and leaves related states. -/
def Parallel (R : σ → σ → Prop) (act : EStateM ε σ α) : Prop :=
  ∀ ⦃s t⦄, R s t → Both R (act s) (act t)

variable {ε' : Type}

namespace Both

variable {s t : σ}

theorem leaves {x y : EStateM.Result ε σ α} (both : Both R x y) :
    R (ManagedCode.leaves x) (ManagedCode.leaves y) := by
  cases both with
  | ok related | error related => exact related

variable {x : EStateM ε σ α}

/-- The second action starts where the first one ended. -/
theorem bind {f g : α → EStateM ε σ β} (first : Both R (x s) (x t))
    (rest : ∀ a s' t', x s = .ok a s' → x t = .ok a t' → R s' t' → Both R (f a s') (g a t')) :
    Both R ((x >>= f) s) ((x >>= g) t) := by
  cases here : x s with
  | ok a s' =>
    cases there : x t with
    | ok b t' =>
      rw [here, there] at first
      cases first with
      | ok related =>
        rw [bind_of_ok here, bind_of_ok there]
        exact rest a s' t' here there related
    | error e t' =>
      rw [here, there] at first
      cases first
  | error e s' =>
    cases there : x t with
    | ok b t' =>
      rw [here, there] at first
      cases first
    | error e' t' =>
      rw [here, there] at first
      cases first with
      | error related =>
        rw [bind_of_error here, bind_of_error there]
        exact .error related

theorem adaptExcept (both : Both R (x s) (x t)) (f : ε → ε') :
    Both R (x.adaptExcept f s) (x.adaptExcept f t) := by
  unfold EStateM.adaptExcept
  generalize x s = here, x t = there at both
  cases both with
  | ok related => exact .ok related
  | error related => exact .error related

end Both

namespace Parallel

variable {act : EStateM ε σ α}

theorem bind {next : α → EStateM ε σ β} (first : Parallel R act)
    (rest : ∀ a, Parallel R (next a)) : Parallel R (act >>= next) :=
  fun _ _ related => (first related).bind fun a _ _ _ _ later => rest a later

theorem ite {P : Prop} [Decidable P] {other : EStateM ε σ α} (first : Parallel R act)
    (second : Parallel R other) : Parallel R (if P then act else other) := by
  split
  · exact first
  · exact second

theorem map (parallel : Parallel R act) (f : α → β) : Parallel R (f <$> act) :=
  parallel.bind fun _ _ _ related => .ok related

theorem adaptExcept (parallel : Parallel R act) (f : ε → ε') : Parallel R (act.adaptExcept f) :=
  fun _ _ related => (parallel related).adaptExcept f

theorem forM {f : α → EStateM ε σ PUnit} {l : List α} (each : ∀ a ∈ l, Parallel R (f a)) :
    Parallel R (l.forM f) := by
  induction l with
  | nil => exact fun _ _ related => .ok related
  | cons a rest ih =>
    exact (each a List.mem_cons_self).bind fun _ => ih fun b mem =>
      each b (List.mem_cons_of_mem _ mem)

end Parallel

theorem parallel_pure (a : α) : Parallel R (pure a : EStateM ε σ α) :=
  fun _ _ related => .ok related

theorem parallel_throw (e : ε) : Parallel R (throw e : EStateM ε σ α) :=
  fun _ _ related => .error related

theorem parallel_modify {f : σ → σ} (kept : ∀ s t, R s t → R (f s) (f t)) :
    Parallel R (modify f : EStateM ε σ PUnit) :=
  fun s t related => .ok (kept s t related)

/-- An action that looks at the whole state first. -/
theorem parallel_get_bind {f : σ → EStateM ε σ β}
    (each : ∀ s t, R s t → Both R (f s s) (f t t)) : Parallel R (get >>= f) :=
  fun s t related => each s t related

theorem parallel_ofExcept (x : Except ε α) :
    Parallel R (MonadExcept.ofExcept x : EStateM ε σ α) := by
  intro s t related
  cases x with
  | ok a => exact .ok related
  | error e => exact .error related

end ManagedCode

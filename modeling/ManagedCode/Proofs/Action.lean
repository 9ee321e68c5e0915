/-!
# Actions

An action changes a state and may fail. `leaves` is the state that it leaves either way; the other
lemmas run an action one step at a time, and a function that may fail along a list.
-/

namespace ManagedCode

variable {ε σ α β : Type}

/-- The state that an action leaves, whether it succeeded or failed. -/
def leaves : EStateM.Result ε σ α → σ
  | .ok _ s => s
  | .error _ s => s

variable {ε' : Type} {x : EStateM ε σ α} {f : α → EStateM ε σ β} {s s' : σ} {a : α} {e : ε} {b : β}
  {l : List α} {bs : List β}

theorem bind_of_ok (run : x s = .ok a s') : (x >>= f) s = f a s' := by
  show EStateM.bind x f s = f a s'
  rw [EStateM.bind, run]

theorem bind_of_error (run : x s = .error e s') : (x >>= f) s = .error e s' := by
  show EStateM.bind x f s = .error e s'
  rw [EStateM.bind, run]

theorem get_bind (f : σ → EStateM ε σ β) (s : σ) :
    ((get : EStateM ε σ σ) >>= f) s = f s s := rfl

theorem ofExcept_eq_ok_iff {x : Except ε α} :
    (MonadExcept.ofExcept x : EStateM ε σ α) s = .ok a s' ↔ x = .ok a ∧ s' = s := by
  cases x with
  | ok b =>
    show (EStateM.Result.ok b s : EStateM.Result ε σ α) = .ok a s' ↔ _
    constructor
    · intro same
      cases same
      exact ⟨rfl, rfl⟩
    · rintro ⟨same, rfl⟩
      cases same
      rfl
  | error e =>
    show (EStateM.Result.error e s : EStateM.Result ε σ α) = .ok a s' ↔ _
    constructor
    · intro same
      cases same
    · rintro ⟨same, _⟩
      cases same

theorem leaves_ofExcept (x : Except ε α) (s : σ) :
    leaves ((MonadExcept.ofExcept x : EStateM ε σ α) s) = s := by
  cases x <;> rfl

/-- What holds after every step of a sequence holds after the sequence. -/
theorem leaves_bind {R : σ → σ → Prop} (trans : ∀ {s t u}, R s t → R t u → R s u)
    (first : R s (leaves (x s))) (rest : ∀ a t, x s = .ok a t → R t (leaves (f a t))) :
    R s (leaves ((x >>= f) s)) := by
  cases run : x s with
  | ok a t =>
    rw [bind_of_ok run]
    rw [run] at first
    exact trans first (rest a t run)
  | error e t =>
    rw [bind_of_error run]
    rw [run] at first
    exact first

/-- A sequence of actions succeeds if each of them does. -/
theorem bind_eq_ok_iff : (x >>= f) s = .ok b s' ↔ ∃ a t, x s = .ok a t ∧ f a t = .ok b s' := by
  cases run : x s with
  | ok a t =>
    rw [bind_of_ok run]
    constructor
    · exact fun rest => ⟨a, t, rfl, rest⟩
    · rintro ⟨_, _, same, rest⟩
      cases same
      exact rest
  | error e t =>
    rw [bind_of_error run]
    constructor
    · exact fun failed => by cases failed
    · rintro ⟨_, _, same, _⟩
      cases same

/-- A sequence of actions fails where one of them does. -/
theorem bind_eq_error_iff :
    (x >>= f) s = .error e s' ↔
      x s = .error e s' ∨ ∃ a t, x s = .ok a t ∧ f a t = .error e s' := by
  cases run : x s with
  | ok a t =>
    rw [bind_of_ok run]
    constructor
    · exact fun rest => .inr ⟨a, t, rfl, rest⟩
    · rintro (same | ⟨_, _, same, rest⟩)
      · cases same
      · cases same
        exact rest
  | error e' t =>
    rw [bind_of_error run]
    constructor
    · intro same
      cases same
      exact .inl rfl
    · rintro (same | ⟨_, _, same, _⟩)
      · cases same
        rfl
      · cases same

theorem ofExcept_bind_eq_ok_iff {x : Except ε α} :
    (MonadExcept.ofExcept x >>= f) s = .ok b s' ↔ ∃ a, x = .ok a ∧ f a s = .ok b s' := by
  rw [bind_eq_ok_iff]
  constructor
  · rintro ⟨a, t, first, rest⟩
    obtain ⟨found, rfl⟩ := ofExcept_eq_ok_iff.mp first
    exact ⟨a, found, rest⟩
  · rintro ⟨a, found, rest⟩
    exact ⟨a, s, ofExcept_eq_ok_iff.mpr ⟨found, rfl⟩, rest⟩

theorem adaptExcept_eq_ok_iff {f : ε → ε'} : x.adaptExcept f s = .ok a s' ↔ x s = .ok a s' := by
  unfold EStateM.adaptExcept
  cases x s with
  | ok b t =>
    constructor
    · intro same
      cases same
      rfl
    · intro same
      cases same
      rfl
  | error e t =>
    constructor
    · intro same
      cases same
    · intro same
      cases same

theorem ofExcept_eq_error_iff {x : Except ε α} :
    (MonadExcept.ofExcept x : EStateM ε σ α) s = .error e s' ↔ x = .error e ∧ s' = s := by
  cases x with
  | ok b =>
    show (EStateM.Result.ok b s : EStateM.Result ε σ α) = .error e s' ↔ _
    constructor
    · intro same
      cases same
    · rintro ⟨same, _⟩
      cases same
  | error e' =>
    show (EStateM.Result.error e' s : EStateM.Result ε σ α) = .error e s' ↔ _
    constructor
    · intro same
      cases same
      exact ⟨rfl, rfl⟩
    · rintro ⟨same, rfl⟩
      cases same
      rfl

theorem ofExcept_bind_eq_error_iff {x : Except ε α} :
    (MonadExcept.ofExcept x >>= f) s = .error e s' ↔
      (x = .error e ∧ s' = s) ∨ ∃ a, x = .ok a ∧ f a s = .error e s' := by
  rw [bind_eq_error_iff, ofExcept_eq_error_iff]
  refine or_congr_right ⟨?_, ?_⟩
  · rintro ⟨a, t, first, rest⟩
    obtain ⟨found, rfl⟩ := ofExcept_eq_ok_iff.mp first
    exact ⟨a, found, rest⟩
  · rintro ⟨a, found, rest⟩
    exact ⟨a, s, ofExcept_eq_ok_iff.mpr ⟨found, rfl⟩, rest⟩

theorem adaptExcept_eq_error_iff {f : ε → ε'} {e : ε'} :
    x.adaptExcept f s = .error e s' ↔ ∃ e', x s = .error e' s' ∧ e = f e' := by
  unfold EStateM.adaptExcept
  cases x s with
  | ok b t =>
    constructor
    · intro same
      cases same
    · rintro ⟨_, same, _⟩
      cases same
  | error e' t =>
    constructor
    · intro same
      cases same
      exact ⟨e', rfl, rfl⟩
    · rintro ⟨_, same, rfl⟩
      cases same
      rfl

theorem leaves_adaptExcept (x : EStateM ε σ α) (f : ε → ε') (s : σ) :
    leaves (x.adaptExcept f s) = leaves (x s) := by
  unfold EStateM.adaptExcept
  cases x s <;> rfl

theorem map_eq_ok_iff {f : α → β} : (f <$> x) s = .ok b s' ↔ ∃ a, x s = .ok a s' ∧ f a = b := by
  show EStateM.map f x s = _ ↔ _
  unfold EStateM.map
  cases x s with
  | ok a t =>
    constructor
    · intro same
      cases same
      exact ⟨a, rfl, rfl⟩
    · rintro ⟨_, same, rfl⟩
      cases same
      rfl
  | error e t =>
    constructor
    · intro same
      cases same
    · rintro ⟨_, same, _⟩
      cases same

theorem map_eq_error_iff {f : α → β} : (f <$> x) s = .error e s' ↔ x s = .error e s' := by
  show EStateM.map f x s = _ ↔ _
  unfold EStateM.map
  cases x s with
  | ok a t =>
    constructor
    · intro same
      cases same
    · intro same
      cases same
  | error e' t =>
    constructor
    · intro same
      cases same
      rfl
    · intro same
      cases same
      rfl

theorem leaves_map (f : α → β) (x : EStateM ε σ α) (s : σ) : leaves ((f <$> x) s) = leaves (x s) := by
  show leaves (EStateM.map f x s) = _
  unfold EStateM.map
  cases x s <;> rfl

theorem discard_eq_ok_iff : (discard x) s = .ok () s' ↔ ∃ a, x s = .ok a s' := by
  refine map_eq_ok_iff.trans (exists_congr fun a => ?_)
  exact and_iff_left rfl

theorem discard_eq_error_iff : (discard x) s = .error e s' ↔ x s = .error e s' :=
  map_eq_error_iff

theorem leaves_discard (x : EStateM ε σ α) (s : σ) : leaves ((discard x) s) = leaves (x s) :=
  leaves_map _ x s

theorem forM_cons_apply (f : α → EStateM ε σ PUnit) (a : α) (l : List α) (s : σ) :
    (a :: l).forM f s = (f a >>= fun _ => l.forM f) s := rfl

theorem forM_map_apply (g : β → α) (f : α → EStateM ε σ PUnit) (l : List β) (s : σ) :
    l.forM (fun b => f (g b)) s = (l.map g).forM f s := by
  induction l generalizing s with
  | nil => rfl
  | cons b rest ih =>
    rw [List.map_cons, forM_cons_apply, forM_cons_apply]
    cases run : f (g b) s with
    | ok _ t => rw [bind_of_ok run, bind_of_ok run, ih]
    | error e t => rw [bind_of_error run, bind_of_error run]

/-! ## Lists of results -/

theorem except_bind_eq_ok_iff {x : Except ε α} {f : α → Except ε β} :
    (x >>= f) = .ok b ↔ ∃ a, x = .ok a ∧ f a = .ok b := by
  cases x with
  | ok a =>
    constructor
    · exact fun rest => ⟨a, rfl, rest⟩
    · rintro ⟨_, same, rest⟩
      cases same
      exact rest
  | error e =>
    constructor
    · intro failed
      cases failed
    · rintro ⟨_, same, _⟩
      cases same

theorem mapError_eq_ok_iff {x : Except ε α} {f : ε → ε'} : x.mapError f = .ok a ↔ x = .ok a := by
  cases x with
  | ok b =>
    constructor
    · intro same
      cases same
      rfl
    · intro same
      cases same
      rfl
  | error e =>
    constructor
    · intro same
      cases same
    · intro same
      cases same

theorem mapM_cons_eq_ok_iff {f : α → Except ε β} :
    (a :: l).mapM f = .ok bs ↔ ∃ b rest, f a = .ok b ∧ l.mapM f = .ok rest ∧ bs = b :: rest := by
  rw [List.mapM_cons, except_bind_eq_ok_iff]
  constructor
  · rintro ⟨b, first, second⟩
    obtain ⟨rest, others, same⟩ := except_bind_eq_ok_iff.mp second
    cases same
    exact ⟨b, rest, first, others, rfl⟩
  · rintro ⟨b, rest, first, others, rfl⟩
    exact ⟨b, first, except_bind_eq_ok_iff.mpr ⟨rest, others, rfl⟩⟩

theorem exists_mapM_eq_ok {f : α → Except ε β} (each : ∀ a ∈ l, ∃ b, f a = .ok b) :
    ∃ bs, l.mapM f = .ok bs := by
  induction l with
  | nil => exact ⟨[], rfl⟩
  | cons a rest ih =>
    obtain ⟨b, first⟩ := each a List.mem_cons_self
    obtain ⟨bs, others⟩ := ih fun a' mem => each a' (List.mem_cons_of_mem _ mem)
    exact ⟨b :: bs, mapM_cons_eq_ok_iff.mpr ⟨b, bs, first, others, rfl⟩⟩

/-- Every element of a list that was mapped gave a result. -/
theorem exists_of_mapM_eq_ok {f : α → Except ε β} (mapped : l.mapM f = .ok bs) (mem : a ∈ l) :
    ∃ b ∈ bs, f a = .ok b := by
  induction l generalizing bs with
  | nil => cases mem
  | cons head tail ih =>
    obtain ⟨b, rest, first, others, rfl⟩ := mapM_cons_eq_ok_iff.mp mapped
    rcases List.mem_cons.mp mem with rfl | later
    · exact ⟨b, List.mem_cons_self, first⟩
    · obtain ⟨b', mem', found⟩ := ih others later
      exact ⟨b', List.mem_cons_of_mem _ mem', found⟩

/-- Every result comes from an element. -/
theorem exists_of_mem_mapM {f : α → Except ε β} (mapped : l.mapM f = .ok bs) (mem : b ∈ bs) :
    ∃ a ∈ l, f a = .ok b := by
  induction l generalizing bs with
  | nil =>
    cases mapped
    cases mem
  | cons head tail ih =>
    obtain ⟨b', rest, first, others, rfl⟩ := mapM_cons_eq_ok_iff.mp mapped
    rcases List.mem_cons.mp mem with rfl | later
    · exact ⟨head, List.mem_cons_self, first⟩
    · obtain ⟨a, mem', found⟩ := ih others later
      exact ⟨a, List.mem_cons_of_mem _ mem', found⟩

/-- Two rounds over a list are one. -/
theorem mapM_mapM_eq_ok {γ : Type} {f : α → Except ε β} {g : β → Except ε γ} {cs : List γ}
    (first : l.mapM f = .ok bs) (second : bs.mapM g = .ok cs) :
    l.mapM (fun a => f a >>= g) = .ok cs := by
  induction l generalizing bs cs with
  | nil =>
    cases first
    exact second
  | cons head tail ih =>
    obtain ⟨b, rest, found, others, rfl⟩ := mapM_cons_eq_ok_iff.mp first
    obtain ⟨c, more, found', others', rfl⟩ := mapM_cons_eq_ok_iff.mp second
    refine mapM_cons_eq_ok_iff.mpr ⟨c, more, ?_, ih others others', rfl⟩
    exact except_bind_eq_ok_iff.mpr ⟨b, found, found'⟩

end ManagedCode

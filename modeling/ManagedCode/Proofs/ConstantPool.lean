import ManagedCode.Proofs.Grants

/-!
# The pool of constants

A constant is stored the first time it is asked for, and found again by its bit pattern afterwards. So
the address of a constant stands for its pattern, and what is stored there never changes.

* `CodeStore.Retains`: constants keep their addresses. `CodeStore.respects_retains`: whatever is done
  with a store.
* `CodeStore.address_known_iff`: a store knows the addresses that it has granted, and no others.
* `CodeStore.constants_identified`: constants have the same address exactly if they have the same
  pattern, and can be read there from then on.
-/

namespace ManagedCode.Memory.CodeStore

open Number (Single)

variable {store store' store'' : CodeStore} {requests : List Request} {i j k : Nat}
  {v w : Single} {a b : UInt64}

/-! ## Addresses that stay -/

/-- Constants with an address keep it, and new pages have the size that they had. -/
structure Retains (store store' : CodeStore) : Prop where
  addresses : ∀ (value : Single) (address : UInt64), store.addresses[value]? = some address →
    store'.addresses[value]? = some address
  smallest : store'.constants.minPageSize = store.constants.minPageSize

theorem Retains.refl (store : CodeStore) : Retains store store := ⟨fun _ _ known => known, rfl⟩

theorem Retains.trans (first : Retains store store') (second : Retains store' store'') :
    Retains store store'' :=
  ⟨fun value address known => second.addresses value address (first.addresses value address known),
    second.smallest.trans first.smallest⟩

variable {α : Type}

theorem addresses_openCode (act : EStateM MemoryError PagePool α) (store : CodeStore) :
    (leaves ((requireOpen >>= fun _ => onCode act) store)).addresses = store.addresses := by
  rcases leaves_openCode act store with same | changed
  · rw [same]
  · rw [changed]

theorem retains_openCode (act : EStateM MemoryError PagePool α) (store : CodeStore) :
    Retains store (leaves ((requireOpen >>= fun _ => onCode act) store)) := by
  rcases leaves_openCode act store with same | changed
  · rw [same]
    exact .refl store
  · rw [changed]
    exact ⟨fun _ _ known => known, rfl⟩

/-- A constant that has an address is found there. -/
theorem constant_known (known : store.addresses[v]? = some a) : constant v store = .ok a store := by
  unfold constant
  rw [get_bind, known]
  rfl

/-- What asking for a constant does to the addresses: it is added if it is new. -/
theorem addresses_constant (store : CodeStore) (value : Single) :
    (leaves (constant value store)).addresses = store.addresses ∨
      store.addresses[value]? = none ∧ ∃ address, constant value store
          = .ok address (leaves (constant value store)) ∧
        (leaves (constant value store)).addresses = store.addresses.insert value address := by
  cases known : store.addresses[value]? with
  | some address =>
    rw [constant_known known]
    exact .inl rfl
  | none =>
    rcases constant_cases store value with ⟨a, _, run⟩ | ⟨_, e, run⟩ |
      ⟨a, mid, e, _, _, run⟩ | ⟨a, mid, pool, _, _, run⟩
    · rw [run]
      exact .inl rfl
    · rw [run]
      exact .inl rfl
    · rw [run]
      exact .inl rfl
    · rw [run]
      exact .inr ⟨rfl, a, rfl, rfl⟩

theorem retains_constant (store : CodeStore) (value : Single) :
    Retains store (leaves (constant value store)) := by
  refine ⟨fun other address known => ?_, (leaves_constant store value).2.2
    (·.minPageSize = store.constants.minPageSize)
    (fun pool => (PagePool.allocate_places pool _ _).2.2.1.trans)
    (fun pool _ _ => (PagePool.minPageSize_write pool _ _).trans) rfl⟩
  rcases addresses_constant store value with same | ⟨new, _, _, inserted⟩
  · rw [same]
    exact known
  · rw [inserted, Std.HashMap.getElem?_insert]
    split
    · rename_i same
      rw [beq_iff_eq.mp same, known] at new
      cases new
    · exact known

theorem retains_makeExecutable (store : CodeStore) :
    Retains store (leaves (makeExecutable store)) := by
  rw [makeExecutable_eq]
  split
  · exact .refl store
  · exact ⟨fun _ _ known => known, rfl⟩

/-- Whatever is done with a store, its constants keep their addresses. -/
theorem respects_retains : Respects Retains :=
  ⟨⟨.refl, .trans, retains_constant⟩, fun store _ => retains_openCode _ store,
    fun store _ _ => retains_openCode _ store⟩

/-! ## Sequences of requests -/

theorem known_of_constant (run : constant v store = .ok a store') :
    store'.addresses[v]? = some a := by
  rcases constant_cases store v with ⟨_, known, found⟩ | ⟨_, e, found⟩ | ⟨_, mid, e, _, _, found⟩ |
    ⟨_, mid, pool, _, _, found⟩
  · cases found.symm.trans run
    exact known
  · cases found.symm.trans run
  · cases found.symm.trans run
  · cases found.symm.trans run
    exact Std.HashMap.getElem?_insert_self

theorem Grants.known (grants : store.Grants requests i (.constant v) a) (later : i < k) :
    (store.after (requests.take k)).addresses[v]? = some a :=
  (respects_retains.between retains_makeExecutable store requests later).addresses v a
    (known_of_constant grants.constant)

/-- A request adds no address but the one that it grants. -/
theorem known_of_perform {request : Request}
    (known : (leaves (request.perform store)).addresses[v]? = some a) :
    store.addresses[v]? = some a ∨
      request = .constant v ∧ ∃ store', request.perform store = .ok (some a) store' := by
  cases request with
  | allocate size =>
    rw [Request.perform, leaves_map, allocateCode, addresses_openCode] at known
    exact .inl known
  | write address data =>
    rw [Request.perform, leaves_map, writeCode, addresses_openCode] at known
    exact .inl known
  | constant value =>
    rw [Request.perform, leaves_map] at known
    rcases addresses_constant store value with same | ⟨_, address, run, inserted⟩
    · rw [same] at known
      exact .inl known
    · rw [inserted, Std.HashMap.getElem?_insert] at known
      split at known
      · rename_i same
        cases known
        cases beq_iff_eq.mp same
        exact .inr ⟨rfl, _, map_eq_ok_iff.mpr ⟨a, run, rfl⟩⟩
      · exact .inl known
  | close =>
    rw [Request.perform, leaves_map, makeExecutable_eq] at known
    split at known
    · exact .inl known
    · exact .inl known

section

variable (fresh : store.Fresh)

include fresh

/-- A store knows the addresses that it has granted, and no others. -/
theorem address_known_iff :
    (store.after (requests.take k)).addresses[v]? = some a ↔
      ∃ i < k, store.Grants requests i (.constant v) a := by
  constructor
  · intro known
    induction k with
    | zero =>
      rw [List.take_zero] at known
      cases (fresh.addresses v).symm.trans known
    | succ k ih =>
      cases here : requests[k]? with
      | none =>
        rw [List.take_add_one, here] at known
        obtain ⟨i, before, grants⟩ := ih (by simpa using known)
        exact ⟨i, Nat.lt_succ_of_lt before, grants⟩
      | some request =>
        rw [after_take_succ here] at known
        rcases known_of_perform known with old | ⟨rfl, granted⟩
        · obtain ⟨i, before, grants⟩ := ih old
          exact ⟨i, Nat.lt_succ_of_lt before, grants⟩
        · exact ⟨k, Nat.lt_succ_self k, here, granted⟩
  · rintro ⟨i, before, grants⟩
    exact grants.known before

theorem Grants.readConstant (apart : (store.after requests).Apart)
    (grants : store.Grants requests i (.constant v) a) (later : i < k) :
    (store.after (requests.take k)).readConstant a = .ok v := by
  have before := apart_take apart k
  exact readConstant_of_constant before.constants
    ((fresh.sound_after before).known v a (grants.known later))

/-- Until a store is asked to be closed it grants every constant. -/
theorem Fresh.grants_constant (apart : (store.after requests).Apart)
    (here : requests[i]? = some (.constant v)) (opened : .close ∉ requests.take i) :
    ∃ a, store.Grants requests i (.constant v) a := by
  have filling := fresh.filling_after opened
  have smallest := (respects_retains.after retains_makeExecutable (requests.take i) store).smallest
  have writable : (store.after (requests.take i)).constants.Writable := by
    refine ⟨uniform_iff.mpr filling.constants, ?_⟩
    rw [smallest, fresh.constantPage]
    decide
  have next := (apart_take apart (i + 1)).constants
  rw [after_take_succ here, Request.perform, leaves_map] at next
  obtain ⟨a, store', run⟩ := constant_ok_of_writable filling.executable writable
    (fresh.sound_after (apart_take apart i)).constants next
  exact ⟨a, here, store', map_eq_ok_iff.mpr ⟨a, run, rfl⟩⟩

/-- A closed store grants only constants that it knows. -/
theorem Grants.known_of_closed (grants : store.Grants requests i (.constant v) a)
    (closed : .close ∈ requests.take i) :
    (store.after (requests.take i)).addresses[v]? = some a := by
  have running : (store.after (requests.take i)).Running := by
    rcases fresh.filling.after (requests.take i) with ⟨never, _⟩ | ⟨_, running⟩
    · exact absurd closed never
    · exact running
  have run := grants.constant
  rw [constant_closed running.executable] at run
  split at run
  · rename_i known
    cases (EStateM.Result.ok.inj run).1
    exact known
  · cases run

end

/-- Constants that were granted are granted again, by a closed store too. -/
theorem Grants.again (grants : store.Grants requests j (.constant v) a) (later : j < i)
    (here : requests[i]? = some (.constant v)) : store.Grants requests i (.constant v) a :=
  ⟨here, _, map_eq_ok_iff.mpr ⟨a, constant_known (grants.known later), rfl⟩⟩

/-- **Constants are stored once.** Whatever is asked of a store whose pages do not meet, and in whatever
order: two constants are granted the same address exactly if they have the same bit pattern; from the
moment an address is granted, the constant is read there, whatever is asked afterwards; and a constant
is granted exactly if the store has not been asked to be closed or has granted it before. -/
theorem constants_identified (fresh : store.Fresh) (requests : List Request)
    (apart : (store.after requests).Apart) :
    (∀ i j v w a b, store.Grants requests i (.constant v) a →
      store.Grants requests j (.constant w) b → (a = b ↔ v.bits = w.bits)) ∧
    (∀ i k v a, store.Grants requests i (.constant v) a → i < k →
      ∃ value, (store.after (requests.take k)).readConstant a = .ok value ∧ value.bits = v.bits) ∧
    ∀ i v, requests[i]? = some (.constant v) →
      ((∃ a, store.Grants requests i (.constant v) a) ↔
        .close ∉ requests.take i ∨ ∃ j < i, ∃ a, store.Grants requests j (.constant v) a) := by
  refine ⟨fun i j v w a b first second => ?_, fun i k v a grants later => ?_, fun i v here => ?_⟩
  · have left := first.known first.lt
    have right := second.known second.lt
    constructor
    · rintro rfl
      have read := first.readConstant fresh apart first.lt
      have read' := second.readConstant fresh apart second.lt
      exact congrArg Single.bits (Except.ok.inj (read.symm.trans read'))
    · intro same
      cases v
      cases w
      cases same
      exact Option.some.inj (left.symm.trans right)
  · exact ⟨v, grants.readConstant fresh apart later, rfl⟩
  · constructor
    · rintro ⟨a, grants⟩
      by_cases closed : .close ∈ requests.take i
      · obtain ⟨j, before, earlier⟩ :=
          (address_known_iff fresh).mp (grants.known_of_closed fresh closed)
        exact .inr ⟨j, before, a, earlier⟩
      · exact .inl closed
    · rintro (opened | ⟨j, before, a, grants⟩)
      · exact fresh.grants_constant apart here opened
      · exact ⟨a, grants.again before here⟩

/-! ## Two zeros -/

/-- What asking for a constant does to the pages: nothing, or the constant is put behind the others. -/
theorem constants_constant (store : CodeStore) (value : Single) :
    (leaves (constant value store)).constants = store.constants ∨
      (leaves (constant value store)).constants
        = leaves ((PagePool.allocate constantSize constantSize >>= fun address =>
          PagePool.write address (encodeLE constantSize value.bits.toUInt64)) store.constants) := by
  rcases constant_cases store value with ⟨a, _, run⟩ | ⟨_, e, run⟩ |
    ⟨a, mid, e, allocated, failed, run⟩ | ⟨a, mid, pool, allocated, wrote, run⟩
  · exact .inl (by rw [run]; rfl)
  · exact .inl (by rw [run]; rfl)
  · exact .inr (by rw [run, bind_of_ok allocated, failed]; rfl)
  · exact .inr (by rw [run, bind_of_ok allocated, wrote]; rfl)

namespace Zeros

def positive : Single := ⟨0x00000000⟩

def negative : Single := ⟨0x80000000⟩

/-- Both zeros are asked for, and one of them again. -/
def inquiries : List Request := [.constant positive, .constant negative, .constant positive]

theorem apart : ((empty 64).after inquiries).Apart := by
  simp only [after, inquiries, List.foldl_cons, List.foldl_nil, Request.perform, leaves_map]
  constructor
  · rw [respects_code.constant, respects_code.constant, respects_code.constant]
    decide
  · rcases constants_constant _ positive with third | third <;> rw [third] <;>
      rcases constants_constant _ negative with second | second <;> rw [second] <;>
      rcases constants_constant (empty 64) positive with first | first <;> rw [first] <;>
      decide +kernel

end Zeros

theorem constants_identified_zeros :
    (empty 64).Fresh ∧ ((empty 64).after Zeros.inquiries).Apart ∧
      ∃ a b, a ≠ b ∧ (empty 64).Grants Zeros.inquiries 0 (.constant Zeros.positive) a ∧
        (empty 64).Grants Zeros.inquiries 1 (.constant Zeros.negative) b ∧
        (empty 64).Grants Zeros.inquiries 2 (.constant Zeros.positive) a ∧
        ∃ value, ((empty 64).after Zeros.inquiries).readConstant b = .ok value ∧
          value.bits = 0x80000000 := by
  have fresh := fresh_empty 64
  obtain ⟨identified, read, granted⟩ := constants_identified fresh Zeros.inquiries Zeros.apart
  obtain ⟨a, first⟩ := (granted 0 Zeros.positive rfl).mpr (.inl (by simp))
  obtain ⟨b, second⟩ := (granted 1 Zeros.negative rfl).mpr (.inl (by simp [Zeros.inquiries]))
  obtain ⟨a', third⟩ := (granted 2 Zeros.positive rfl).mpr (.inr ⟨0, by decide, a, first⟩)
  have again : a = a' := (identified 0 2 _ _ a a' first third).mpr rfl
  refine ⟨fresh, Zeros.apart, a, b, fun same => ?_, first, second, again ▸ third,
    read 1 3 Zeros.negative b second (by decide)⟩
  exact absurd ((identified 0 1 _ _ a b first second).mp same) (by decide)

end ManagedCode.Memory.CodeStore

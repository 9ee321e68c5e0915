import ManagedCode.Proofs.Lifecycle

/-!
# What a code store grants

A store starts without pages and is asked for room and for constants, one request after the other.
Requests are told apart by their position, and a property of a later store comes from the relation
that every single request keeps.

* `CodeStore.Fresh`: a store without pages, which places them at multiples of the page size.
* `CodeStore.Grants`: the request at a position was answered with an address.
* `CodeStore.Respects.perform`, `CodeStore.Respects.after`: what every action on a store respects holds
  for every request and every sequence of them.
-/

namespace ManagedCode.Memory

open Number (Single)

/-- A pool without pages, whose pages will lie at multiples of the page size. -/
structure PagePool.Fresh (pool : PagePool) : Prop where
  pages : pool.pages = #[]
  origin : pageSize ∣ pool.origin.toNat
  stride : pageSize ∣ pool.stride.toNat

theorem PagePool.Fresh.absent {pool : PagePool} (fresh : pool.Fresh) (k : Nat) :
    pool.pages[k]? = none := by
  rw [fresh.pages]
  rfl

namespace CodeStore

/-- A store that nothing was asked of. Where its pages will lie is left open. -/
structure Fresh (store : CodeStore) : Prop where
  code : store.code.Fresh
  constants : store.constants.Fresh
  constantPage : store.constants.minPageSize = pageSize
  addresses : ∀ value : Single, store.addresses[value]? = none
  executable : store.executable = false

/-- A request at a position in a sequence was answered with an address. -/
def Grants (store : CodeStore) (requests : List Request) (i : Nat) (request : Request)
    (address : UInt64) : Prop :=
  requests[i]? = some request ∧
    ∃ store', request.perform (store.after (requests.take i)) = .ok (some address) store'

section Fresh

variable {store : CodeStore}

theorem fresh_empty (codePageSize : Nat) : (empty codePageSize).Fresh :=
  ⟨⟨rfl, show pageSize ∣ codeOrigin.toNat by decide, show pageSize ∣ codeStride.toNat by decide⟩,
    ⟨rfl, show pageSize ∣ constantOrigin.toNat by decide,
      show pageSize ∣ constantStride.toNat by decide⟩,
    rfl, fun _ => Std.HashMap.getElem?_empty, rfl⟩

theorem Fresh.sound (fresh : store.Fresh) : store.Sound := by
  refine ⟨fun k page at_ => ?_, fun k page at_ => ?_, fun value address known => ?_⟩
  · cases (fresh.code.absent k).symm.trans at_
  · cases (fresh.constants.absent k).symm.trans at_
  · cases (fresh.addresses value).symm.trans known

theorem Fresh.filling (fresh : store.Fresh) : store.Filling := by
  refine ⟨fresh.executable, fun page mem => ?_, fun page mem => ?_⟩
  · rw [fresh.code.pages] at mem
    exact absurd mem (Array.not_mem_empty page)
  · rw [fresh.constants.pages] at mem
    exact absurd mem (Array.not_mem_empty page)

end Fresh

/-! ## Sequences of requests -/

section Sequences

variable {store : CodeStore} {requests : List Request} {request : Request} {i j : Nat}
  {address : UInt64}

theorem after_append (store : CodeStore) (first second : List Request) :
    store.after (first ++ second) = (store.after first).after second :=
  List.foldl_append

theorem after_take_succ (here : requests[i]? = some request) :
    store.after (requests.take (i + 1))
      = leaves (request.perform (store.after (requests.take i))) := by
  rw [List.take_add_one, here, after_append]
  rfl

section Closing

variable {R : CodeStore → CodeStore → Prop} (respects : Respects R)
  (closing : ∀ store, R store (leaves (makeExecutable store)))

include respects closing

/-- What every action on a store respects holds for every request. -/
theorem Respects.perform (request : Request) (store : CodeStore) :
    R store (leaves (request.perform store)) := by
  cases request with
  | allocate size =>
    rw [Request.perform, leaves_map]
    exact respects.allocateCode store size
  | write address data =>
    rw [Request.perform, leaves_map]
    exact respects.writeCode store address data
  | constant value =>
    rw [Request.perform, leaves_map]
    exact respects.constant store value
  | close =>
    rw [Request.perform, leaves_map]
    exact closing store

theorem Respects.after (requests : List Request) (store : CodeStore) :
    R store (store.after requests) := by
  induction requests generalizing store with
  | nil => exact respects.refl store
  | cons request rest ih =>
    exact respects.trans (respects.perform closing request store) (ih _)

/-- What every action on a store respects holds from one position in a sequence to a later one. -/
theorem Respects.between (store : CodeStore) (requests : List Request) (later : i ≤ j) :
    R (store.after (requests.take i)) (store.after (requests.take j)) := by
  obtain ⟨n, rfl⟩ := Nat.exists_eq_add_of_le later
  rw [List.take_add, after_append]
  exact respects.after closing _ _

end Closing

theorem apart_take (apart : (store.after requests).Apart) (k : Nat) :
    (store.after (requests.take k)).Apart := by
  rw [← List.take_append_drop k requests, after_append] at apart
  exact (respects_evolves.after evolves_makeExecutable _ _).apart apart

theorem Fresh.sound_after (fresh : store.Fresh) (apart : (store.after requests).Apart) :
    (store.after requests).Sound :=
  ((respects_evolves.after evolves_makeExecutable requests store).sound apart fresh.sound).1

theorem Fresh.filling_after (fresh : store.Fresh) (opened : .close ∉ requests) :
    (store.after requests).Filling := by
  rcases fresh.filling.after requests with ⟨_, filling⟩ | ⟨closed, _⟩
  · exact filling
  · exact absurd closed opened

theorem Grants.lt (grants : store.Grants requests i request address) : i < requests.length :=
  (List.getElem?_eq_some_iff.mp grants.1).1

theorem Grants.after (grants : store.Grants requests i request address) :
    request.perform (store.after (requests.take i))
      = .ok (some address) (store.after (requests.take (i + 1))) := by
  obtain ⟨here, store', run⟩ := grants
  rw [after_take_succ here, run]
  rfl

theorem Grants.allocate {size : Nat} (grants : store.Grants requests i (.allocate size) address) :
    allocateCode size (store.after (requests.take i))
      = .ok address (store.after (requests.take (i + 1))) := by
  obtain ⟨a, run, same⟩ := map_eq_ok_iff.mp grants.after
  cases same
  exact run

theorem Grants.constant {value : Single} (grants : store.Grants requests i (.constant value) address) :
    CodeStore.constant value (store.after (requests.take i))
      = .ok address (store.after (requests.take (i + 1))) := by
  obtain ⟨a, run, same⟩ := map_eq_ok_iff.mp grants.after
  cases same
  exact run

end Sequences

end CodeStore

end ManagedCode.Memory

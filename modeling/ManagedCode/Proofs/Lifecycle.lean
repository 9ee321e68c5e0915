import ManagedCode.Proofs.OpenStore

/-!
# The two phases of a code store

A store is filled first and run afterwards. Whatever is asked of it, and in whatever order, it is in
one of the two phases, and closing it is the only way from the first to the second.

* `CodeStore.Request`, `CodeStore.after`: what can be asked of a store, and where a sequence of
  requests leads, whether they succeed or not.
* `CodeStore.Filling`, `CodeStore.Running`: the phases. `Filling.perform`, `Running.perform`: one
  request.
* `CodeStore.two_phases`: every sequence of requests.
-/

namespace ManagedCode.Memory.CodeStore

open Number (Single)

inductive Request where
  | allocate (size : Nat)
  | write (address : UInt64) (data : List UInt8)
  | constant (value : Single)
  | close

/-- Does what is asked. Room and constants are answered with their address. -/
def Request.perform : Request → EStateM MemoryError CodeStore (Option UInt64)
  | allocate size => some <$> allocateCode size
  | write address data => (fun _ => none) <$> writeCode address data
  | constant value => some <$> CodeStore.constant value
  | close => (fun _ => none) <$> makeExecutable

/-- The store that a sequence of requests leads to. A request may fail. -/
def after (store : CodeStore) (requests : List Request) : CodeStore :=
  requests.foldl (fun store request => leaves (request.perform store)) store

/-- What a closed store answers: constants that it has are still found, and nothing else is
granted. -/
def answerClosed (store : CodeStore) : Request → EStateM.Result MemoryError CodeStore (Option UInt64)
  | .constant value =>
    match store.addresses[value]? with
    | some address => .ok (some address) store
    | none => .error .sealed store
  | _ => .error .sealed store

/-- The first phase: every page can be written, and none can be run. -/
structure Filling (store : CodeStore) : Prop where
  executable : store.executable = false
  code : ∀ page ∈ store.code.pages, page.protection = .readWrite
  constants : ∀ page ∈ store.constants.pages, page.protection = .readWrite

/-- The second phase: no page can be written, and those of code can be run. -/
structure Running (store : CodeStore) : Prop where
  executable : store.executable = true
  code : ∀ page ∈ store.code.pages, page.protection = .readExecute
  constants : ∀ page ∈ store.constants.pages, page.protection = .readOnly

theorem uniform_iff {pool : PagePool} {mode : Protection} :
    pool.Uniform mode ↔ ∀ page ∈ pool.pages, page.protection = mode := by
  constructor
  · intro uniform page mem
    obtain ⟨k, at_⟩ := Array.mem_iff_getElem?.mp mem
    exact uniform at_
  · intro all k page at_
    exact all page (Array.mem_of_getElem? at_)

section Requests

variable {store : CodeStore}

/-! ## The first phase -/

theorem filling_empty (codePageSize : Nat) : (empty codePageSize).Filling :=
  ⟨rfl, uniform_iff.mp (PagePool.uniform_empty _ _ _ _),
    uniform_iff.mp (PagePool.uniform_empty _ _ _ _)⟩

section

variable (filling : store.Filling)

include filling

theorem Filling.fetch (address : UInt64) (limit : Nat) :
    store.fetch address limit = .error .notExecutable := by
  unfold CodeStore.fetch codePage
  rw [filling.executable]
  rfl

/-- An action on the code that keeps its pages writable keeps the store in the first phase. -/
theorem Filling.onCode {α : Type} {act : EStateM MemoryError PagePool α}
    (keeps : ∀ pool : PagePool, pool.Uniform .readWrite → (leaves (act pool)).Uniform .readWrite) :
    (leaves ((do CodeStore.requireOpen; CodeStore.onCode act : EStateM _ _ α) store)).Filling := by
  rw [bind_of_ok (requireOpen_open filling.executable), leaves_onCode]
  exact ⟨filling.executable, uniform_iff.mp (keeps _ (uniform_iff.mpr filling.code)),
    filling.constants⟩

theorem Filling.constant (value : Single) : (leaves (constant value store)).Filling := by
  obtain ⟨code, executable, keeps⟩ := leaves_constant store value
  refine ⟨executable.trans filling.executable, code ▸ filling.code, uniform_iff.mp ?_⟩
  exact keeps (·.Uniform .readWrite) (fun _ uniform => uniform.allocate _ _)
    (fun _ _ _ uniform => uniform.write _ _) (uniform_iff.mpr filling.constants)

theorem Filling.close : (leaves (makeExecutable store)).Running := by
  rw [makeExecutable_eq, if_neg (by simp [filling.executable])]
  exact ⟨rfl, uniform_iff.mp (PagePool.uniform_protectAll _ _),
    uniform_iff.mp (PagePool.uniform_protectAll _ _)⟩

/-- Closing a store ends the first phase, and no other request does. -/
theorem Filling.perform (request : Request) :
    (request ≠ .close ∧ (leaves (request.perform store)).Filling) ∨
      (request = .close ∧ (leaves (request.perform store)).Running) := by
  cases request with
  | allocate size =>
    refine .inl ⟨nofun, ?_⟩
    rw [Request.perform, leaves_map]
    exact filling.onCode fun _ uniform => uniform.allocate _ _
  | write address data =>
    refine .inl ⟨nofun, ?_⟩
    rw [Request.perform, leaves_map]
    exact filling.onCode fun _ uniform => uniform.write _ _
  | constant value =>
    refine .inl ⟨nofun, ?_⟩
    rw [Request.perform, leaves_map]
    exact filling.constant value
  | close =>
    refine .inr ⟨rfl, ?_⟩
    rw [Request.perform, leaves_map]
    exact filling.close

end

/-! ## The second phase -/

section

variable (closed : store.executable = true)

include closed

theorem requireOpen_closed : requireOpen store = .error .sealed store := by
  rw [requireOpen_eq, if_pos closed]

theorem constant_closed (value : Single) :
    constant value store = match store.addresses[value]? with
      | some address => .ok address store
      | none => .error .sealed store := by
  unfold CodeStore.constant
  rw [get_bind]
  cases store.addresses[value]? with
  | some address => rfl
  | none => exact bind_of_error (requireOpen_closed closed)

/-- A closed store stays as it is, and says so wherever it would have to change. -/
theorem perform_closed (request : Request) :
    request.perform store = store.answerClosed request := by
  have refused := requireOpen_closed closed
  cases request with
  | allocate size | write address data => exact map_eq_error_iff.mpr (bind_of_error refused)
  | constant value =>
    have asked := constant_closed closed value
    unfold answerClosed
    dsimp only
    split at asked
    · exact map_eq_ok_iff.mpr ⟨_, asked, rfl⟩
    · exact map_eq_error_iff.mpr asked
  | close =>
    refine map_eq_error_iff.mpr ?_
    rw [makeExecutable_eq, if_pos closed]

end

theorem leaves_answerClosed (store : CodeStore) (request : Request) :
    leaves (store.answerClosed request) = store := by
  cases request with
  | constant value =>
    unfold answerClosed
    dsimp only
    split <;> rfl
  | _ => rfl

theorem Running.perform (running : store.Running) (request : Request) :
    leaves (request.perform store) = store := by
  rw [perform_closed running.executable, leaves_answerClosed]

theorem Running.after (running : store.Running) (requests : List Request) :
    store.after requests = store := by
  induction requests with
  | nil => rfl
  | cons request rest ih =>
    show CodeStore.after (leaves (request.perform store)) rest = store
    rw [running.perform, ih]

/-! ## Both phases -/

/-- The phase of a store says whether it was asked to be closed. -/
theorem Filling.after (filling : store.Filling) (requests : List Request) :
    (.close ∉ requests ∧ (store.after requests).Filling) ∨
      (.close ∈ requests ∧ (store.after requests).Running) := by
  induction requests generalizing store with
  | nil => exact .inl ⟨List.not_mem_nil, filling⟩
  | cons request rest ih =>
    show (_ ∧ (CodeStore.after (leaves (request.perform store)) rest).Filling) ∨
      (_ ∧ (CodeStore.after (leaves (request.perform store)) rest).Running)
    rcases filling.perform request with ⟨other, still⟩ | ⟨rfl, running⟩
    · rw [List.mem_cons, not_or]
      rcases ih still with ⟨never, later⟩ | ⟨later, running⟩
      · exact .inl ⟨⟨other.symm, never⟩, later⟩
      · exact .inr ⟨.inr later, running⟩
    · -- Closing is final: the rest of the requests leaves the store as it is.
      rw [running.after rest]
      exact .inr ⟨List.mem_cons_self, running⟩

theorem mem_of_codePage {address : UInt64} {page : Page}
    (found : store.codePage address = .ok page) :
    store.executable = true ∧ page ∈ store.code.pages := by
  unfold codePage at found
  split at found
  · rename_i closed
    split at found
    · rename_i there
      cases found
      exact ⟨closed, Array.mem_of_find?_eq_some there⟩
    · cases found
  · cases found

/-- **Two phases.** After any requests, whether they were granted or not, a store that was never
asked to be closed has only pages that can be written and runs none of them; one that was asked has
code pages that can only be run and constant pages that can only be read. No page from which code is
run can be written. Once closed, a store never changes, whatever it is asked: each request is
answered with an address that the store has already, or refused because the store is closed. -/
theorem two_phases (codePageSize : Nat) (requests : List Request) :
    let store := (empty codePageSize).after requests
    ((.close ∉ requests ∧ store.Filling ∧
        ∀ address limit, store.fetch address limit = .error .notExecutable) ∨
      (.close ∈ requests ∧ store.Running)) ∧
    (∀ address page, store.codePage address = .ok page → page.protection ≠ .readWrite) ∧
    (store.executable = true →
      (∀ request, request.perform store = store.answerClosed request) ∧
        ∀ later, (empty codePageSize).after (requests ++ later) = store) := by
  intro store
  have phase := (filling_empty codePageSize).after requests
  refine ⟨?_, fun address page found => ?_, fun closed => ⟨perform_closed closed, fun later => ?_⟩⟩
  · exact phase.imp_left fun ⟨never, filling⟩ => ⟨never, filling, filling.fetch⟩
  · obtain ⟨closed, mem⟩ := mem_of_codePage found
    rcases phase with ⟨_, filling⟩ | ⟨_, running⟩
    · cases closed.symm.trans filling.executable
    · rw [running.code page mem]
      decide
  · have joined : (empty codePageSize).after (requests ++ later) = store.after later :=
      List.foldl_append
    rcases phase with ⟨_, filling⟩ | ⟨_, running⟩
    · cases closed.symm.trans filling.executable
    · rw [joined]
      exact running.after later

end Requests

end ManagedCode.Memory.CodeStore

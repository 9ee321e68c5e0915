import ManagedCode.Proofs.Compilable
import ManagedCode.Proofs.Disassembly

/-!
# Compiling and linking in any order

Until an image is closed, functions can be compiled and calls linked in any order, again and again,
and any of these requests may fail. A call is filled in once, by the first link that comes to it:
compiling the callee anew gives it another entry but leaves its callers as they are.

* `Request`, `Image.after`: what can be asked of an image, and where a history of requests leads.
* `Found`: what a link in the history found for a callee.
* `progress_after`: after any history, every compiled function stands in the store, and the operands
  of its calls wait or are what some link found.
* `Steady`: a history in which no function is compiled both before and after a link.
* `operands_found`: the operands in a closed image are those that links found, and in a steady
  history they are current.
* `stale_operand_kept`: they need not be current otherwise.
-/

namespace ManagedCode.Compile

open Bytecode TypeSystem
open Memory (CodeStore PagePool)
open Target (Op)

/-! ## Histories -/

/-- What can be asked of an image before it is closed. -/
inductive Request where
  | compile (id : FunctionId)
  | link
  deriving DecidableEq

def Request.run (types : TypeTable) (functions : FunctionTable) (image : Image) : Request → Image
  | compile id => leaves (Image.compile types functions id image)
  | link => leaves (Image.link functions image)

/-- The image that requests lead to, the last request first. -/
def Image.after (types : TypeTable) (functions : FunctionTable) (pageSize : Nat) :
    List Request → Image
  | [] => .empty pageSize
  | request :: earlier => request.run types functions (Image.after types functions pageSize earlier)

/-- A link found the callee at an address, before the later requests. -/
def Found (types : TypeTable) (functions : FunctionTable) (pageSize : Nat) (history : List Request)
    (callee : FunctionId) (address : UInt64) (later : List Request) : Prop :=
  ∃ earlier, history = later ++ .link :: earlier ∧
    (Image.after types functions pageSize earlier).cache.target? functions callee = some address

/-- No function is compiled both before and after a link. -/
def Steady (history : List Request) : Prop :=
  ∀ later earlier, history = later ++ .link :: earlier →
    ∀ id, .compile id ∈ later → .compile id ∉ earlier

theorem steady_iff {history : List Request} :
    Steady history ↔ ∀ k < history.length, history[k]? = some .link →
      ∀ request ∈ history.take k, request ∈ history.drop (k + 1) → request = .link := by
  constructor
  · intro steady k _ here request after before
    obtain ⟨inside, here⟩ := List.getElem?_eq_some_iff.mp here
    have split : history = history.take k ++ .link :: history.drop (k + 1) := by
      rw [← here, List.getElem_cons_drop, List.take_append_drop]
    cases request with
    | link => rfl
    | compile id => exact absurd before (steady _ _ split id after)
  · rintro each later earlier rfl id after before
    have length : later.length < (later ++ .link :: earlier).length := by simp
    have here : (later ++ Request.link :: earlier)[later.length]? = some .link := by simp
    cases each later.length length here (.compile id) (by simpa using after) (by simpa using before)

instance (history : List Request) : Decidable (Steady history) :=
  decidable_of_iff' _ steady_iff

/-- Where a callee is: at the address of its routine or at the entry of its code. -/
def Current (functions : FunctionTable) (cache : CodeCache) (callee : FunctionId)
    (address : UInt64) : Prop :=
  (∃ f routine, functions.get? callee = some f ∧ f.native? = some routine ∧
      address = routine.address) ∨
    ∃ c, cache.get? callee = some c ∧ address = c.entry

/-- Where the calls of a function lead after a history: where a link found the callee, which is there
still unless it was compiled again since. -/
structure Leads (types : TypeTable) (functions : FunctionTable) (pageSize : Nat)
    (history : List Request) (cache : CodeCache) (callee : FunctionId) (address : UInt64) :
    Prop where
  found : ∃ later, Found types functions pageSize history callee address later ∧
    (.compile callee ∉ later → Current functions cache callee address)
  steady : Steady history → Current functions cache callee address

section Requests

variable {types : TypeTable} {functions : FunctionTable} {pageSize : Nat} {image : Image}
  {history later earlier : List Request} {callee id : FunctionId} {address : UInt64}

theorem current_of_target? {cache : CodeCache}
    (there : cache.target? functions callee = some address) :
    Current functions cache callee address := by
  unfold CodeCache.target? at there
  cases known : functions.get? callee with
  | none =>
    rw [known] at there
    cases there
  | some f =>
    rw [known] at there
    dsimp only at there
    cases native : f.native? with
    | some routine =>
      rw [native] at there
      cases there
      exact .inl ⟨f, routine, known, native, rfl⟩
    | none =>
      rw [native] at there
      obtain ⟨c, cached, rfl⟩ := Option.map_eq_some_iff.mp there
      exact .inr ⟨c, cached, rfl⟩

/-! ## One request -/

theorem Request.evolves (types : TypeTable) (functions : FunctionTable) (request : Request)
    (image : Image) : image.store.Evolves (request.run types functions image).store := by
  cases request with
  | compile id =>
    show image.store.Evolves (leaves (Image.compile types functions id image)).store
    rw [store_imageCompile]
    exact evolves_compile types functions id image.store
  | link =>
    exact (leaves_linkAll CodeStore.respects_evolves functions image.cache.pending 0
      (image.withPending [])).1

variable {request : Request}

/-- Compiling a function changes what is known of that function alone, and linking of none. -/
theorem Request.get?_run (other : request ≠ .compile id) :
    (request.run types functions image).cache.get? id = image.cache.get? id := by
  cases request with
  | compile id' =>
    show (leaves (Image.compile types functions id' image)).cache.get? id = _
    cases run : Image.compile types functions id' image with
    | ok entry image' =>
      obtain ⟨c, calls, store, compiled, rfl⟩ := imageCompile_eq_ok run
      obtain ⟨f, _, _, _, body⟩ := compile_eq_ok compiled
      have self : c.function = id' := (compileBody_caller body).1
      refine (CodeCache.get?_insert id).trans (if_neg fun same => other ?_)
      rw [← self, same]
    | error e image' =>
      obtain ⟨store, failed, rfl⟩ := imageCompile_eq_error run
      rfl
  | link =>
    have entries := (leaves_linkAll CodeStore.respects_evolves functions image.cache.pending 0
      (image.withPending [])).2.1
    show (leaves (Image.linkAll functions image.cache.pending 0 (image.withPending []))).cache.get?
      id = _
    rw [CodeCache.get?, entries]
    rfl

theorem Request.contains_run (cached : (request.run types functions image).cache.contains id
  = true) :
    request = .compile id ∨ image.cache.contains id = true := by
  by_cases other : request = .compile id
  · exact .inl other
  · rw [CodeCache.contains, Request.get?_run other] at cached
    exact .inr cached

variable {lands : FunctionId → UInt64 → Prop} {c : CompiledFunction}

/-- A request leaves every compiled function standing, whether it succeeds or not. -/
theorem Request.progress (request : Request)
    (progress : Progress types functions image (fun id => image.cache.contains id = true) lands)
    (reached : request = .link → ∀ callee address, image.cache.target? functions callee = some address → lands callee address)
    (apart : (request.run types functions image).store.Apart) :
    Progress types functions (request.run types functions image)
      (fun id => (request.run types functions image).cache.contains id = true) lands := by
  cases request with
  | compile id =>
    cases run : Image.compile types functions id image with
    | ok entry image' =>
      have left : Request.run types functions image (.compile id) = image' :=
        congrArg leaves run
      refine left ▸ (progress.compile run (left ▸ apart)).restrict fun id' cached => ?_
      rw [← left] at cached
      exact (Request.contains_run cached).imp_left fun same => (Request.compile.inj same).symm
    | error e image' =>
      have left : Request.run types functions image (.compile id) = image' :=
        congrArg leaves run
      obtain ⟨store, _, same⟩ := imageCompile_eq_error run
      refine left ▸ (progress.compile_error run (left ▸ apart)).restrict fun id' cached => ?_
      rw [same] at cached
      exact cached
  | link =>
    refine (progress.link progress.owned (reached rfl) apart).restrict fun id' cached => ?_
    exact (Request.contains_run cached).resolve_left (fun no => nomatch no)

/-! ## Histories of requests -/

theorem get?_after_append (absent : .compile id ∉ later) :
    (Image.after types functions pageSize (later ++ earlier)).cache.get? id
      = (Image.after types functions pageSize earlier).cache.get? id := by
  induction later with
  | nil => rfl
  | cons request rest ih =>
    rw [List.mem_cons, not_or] at absent
    exact (Request.get?_run (Ne.symm absent.1)).trans (ih absent.2)

theorem compile_mem_of_get?
    (cached : (Image.after types functions pageSize history).cache.get? id = some c) :
    .compile id ∈ history := by
  by_contra absent
  have same : (Image.after types functions pageSize history).cache.get? id = _ :=
    (congrArg (fun h => (Image.after types functions pageSize h).cache.get? id)
      (List.append_nil history).symm).trans (get?_after_append absent)
  cases cached.symm.trans same

/-- What a link found stays so unless the callee is compiled again. -/
theorem Found.current (found : Found types functions pageSize history callee address later)
    (absent : .compile callee ∉ later) :
    Current functions (Image.after types functions pageSize history).cache callee address := by
  obtain ⟨earlier, rfl, there⟩ := found
  rcases current_of_target? there with native | ⟨c, cached, rfl⟩
  · exact .inl native
  · refine .inr ⟨c, ?_, rfl⟩
    rw [get?_after_append absent]
    exact (Request.get?_run (by simp)).trans cached

theorem Found.current_of_steady (steady : Steady history)
    (found : Found types functions pageSize history callee address later) :
    Current functions (Image.after types functions pageSize history).cache callee address := by
  obtain ⟨earlier, split, there⟩ := found
  rcases current_of_target? there with native | ⟨c, cached, _⟩
  · exact .inl native
  · -- The link found code, so that the callee was compiled before it and not after it.
    exact Found.current ⟨earlier, split, there⟩ fun again =>
      steady later earlier split callee again (compile_mem_of_get? cached)

theorem Found.cons (request : Request)
    (found : Found types functions pageSize history callee address later) :
    Found types functions pageSize (request :: history) callee address (request :: later) := by
  obtain ⟨earlier, rfl, there⟩ := found
  exact ⟨earlier, rfl, there⟩

/-- After any history every compiled function stands in the store, and each of its calls waits or
has been filled in with what a link found. -/
theorem progress_after (history : List Request)
    (apart : (Image.after types functions pageSize history).store.Apart) :
    Progress types functions (Image.after types functions pageSize history)
      (fun id => (Image.after types functions pageSize history).cache.contains id = true)
      fun callee address => ∃ later, Found types functions pageSize history callee address later := by
  induction history with
  | nil =>
    refine ⟨?_, empty_sound pageSize, ?_, ?_⟩
    · exact fun _ mem => nomatch mem
    · exact fun _ no => nomatch no
    · exact fun _ _ no => nomatch no
  | cons request earlier ih =>
    have before := (request.evolves types functions _).apart apart
    refine request.progress ((ih before).mono ?_) ?_ apart
    · exact fun callee address ⟨later, found⟩ => ⟨_, found.cons request⟩
    · rintro rfl callee address there
      exact ⟨[], earlier, rfl, there⟩

/-! ## Closed images -/

theorem resolved_of_stands {s : Source} {store : CodeStore} {groups : List (List Piece)}
    (laid : Laid s store c groups) {p : Placed} (mem : p ∈ placedOf s groups) {op : Op}
    (stands : Stands s c [] lands p op) : Resolved c lands p op := by
  cases stands with
  | settled settled closed =>
    exact resolved_of_settled laid.function (laid.wellFormed p mem) settled closed
  | waiting fixup open_ => cases open_
  | landed fixup there => exact .call fixup there

/-- In a closed image the operand of every call of a compiled function is what a link found for the
callee, and the callee is there still unless it was compiled again since. If no function was compiled
both before and after a link, every operand is the address of a routine or the entry of a compiled
function, so that calls lead from compiled code to compiled code. -/
theorem operands_found {closed : Image} {c : CompiledFunction}
    (run : Image.finish (Image.after types functions pageSize history) = .ok () closed)
    (apart : closed.store.Apart) (cached : closed.cache.get? id = some c) :
    ∃ f bytes blocks, functions.get? id = some f ∧
      closed.store.read c.entry c.size = .ok bytes ∧
      Disassembled (sourceOf types functions id f) closed.store c
        (Leads types functions pageSize history closed.cache) bytes blocks := by
  obtain ⟨empty, _, same⟩ := finish_eq_ok run
  have cache : closed.cache = (Image.after types functions pageSize history).cache := by rw [same]
  have none : closed.cache.pending = [] := by rw [cache, empty]
  have before : (Image.after types functions pageSize history).store.Apart := by
    rw [same] at apart
    exact ⟨apart.code.of_grows (CodeStore.grows_protectAll _ _),
      apart.constants.of_grows (CodeStore.grows_protectAll _ _)⟩
  have progress : Progress types functions closed
      (fun id => (Image.after types functions pageSize history).cache.contains id = true)
      (Leads types functions pageSize history closed.cache) := by
    refine ((progress_after history before).mono ?_).finish run
    rw [cache]
    rintro callee address ⟨later, found⟩
    exact ⟨⟨later, found, found.current⟩, fun steady => found.current_of_steady steady⟩
  obtain ⟨f, c', groups, made⟩ := progress.made id (by
    rw [CodeCache.contains, ← cache, cached]
    rfl)
  cases made.cached.symm.trans cached
  obtain ⟨blocks, _, read, structured⟩ := exists_disassembled made.laid apart progress.sound.code
    made.taken made.prologue fun p mem => by
      obtain ⟨op, stands, stored⟩ := made.pieces p mem
      rw [none] at stands
      exact ⟨op, resolved_of_stands made.laid mem stands, stored⟩
  exact ⟨f, _, blocks, made.known, read, structured⟩

end Requests

/-! ## A chain of functions -/

namespace Chain

def function (name : String) (code : Array Instr) : Function :=
  ⟨.free name [] .void, .body ⟨[], code⟩ (code.map fun _ => some [])⟩

def first : FunctionId := ⟨0, 0⟩

def second : FunctionId := ⟨1, 0⟩

def third : FunctionId := ⟨2, 0⟩

/-- The first function calls the second, and the second the third. -/
def functions : FunctionTable :=
  ⟨#[⟨0, some (function "first" #[.call second, .ret])⟩,
    ⟨0, some (function "second" #[.call third, .ret])⟩, ⟨0, some (function "third" #[.ret])⟩], [], 3⟩

/-- The second function is compiled after the call of the first to it has failed to be linked. -/
def once : List Request :=
  [.link, .compile third, .compile second, .link, .compile first]

/-- The second function is compiled again after the call of the first to it has been linked, while
its own call waits. -/
def twice : List Request :=
  [.link, .compile third, .compile second, .link, .compile second, .compile first]

def closed (history : List Request) : Image :=
  leaves (Image.finish (Image.after .primitives functions 64 history))

theorem finish_eq {history : List Request}
    (before : (Image.after .primitives functions 64 history).finished = false)
    (done : (closed history).finished = true) :
    Image.finish (Image.after .primitives functions 64 history) = .ok () (closed history) := by
  unfold closed at done ⊢
  cases run : Image.finish (Image.after .primitives functions 64 history) with
  | ok => rfl
  | error e image =>
    rw [run] at done
    cases finish_error run
    cases before.symm.trans done

theorem closed_once :
    Image.finish (Image.after .primitives functions 64 once) = .ok () (closed once) :=
  finish_eq (by decide +kernel) (by decide +kernel)

end Chain

theorem operands_found_chain : Steady Chain.once ∧ ∃ c f bytes blocks,
    (Chain.closed Chain.once).cache.get? Chain.first = some c ∧
      Chain.functions.get? Chain.first = some f ∧
      (Chain.closed Chain.once).store.read c.entry c.size = .ok bytes ∧
      Disassembled (sourceOf .primitives Chain.functions Chain.first f)
        (Chain.closed Chain.once).store c
        (Leads .primitives Chain.functions 64 Chain.once (Chain.closed Chain.once).cache)
        bytes blocks := by
  refine ⟨by decide, ?_⟩
  have there : ((Chain.closed Chain.once).cache.get? Chain.first).isSome = true := by
    decide +kernel
  obtain ⟨c, cached⟩ := Option.isSome_iff_exists.mp there
  have apart : (Chain.closed Chain.once).store.Apart := by decide +kernel
  obtain ⟨f, bytes, blocks, known, read, structured⟩ :=
    operands_found Chain.closed_once apart cached
  exact ⟨c, f, bytes, blocks, cached, known, read, structured⟩

/-- Checked functions whose calls are all filled in when the image is closed: the call of the first
goes to the code that the second had before it was compiled again, and the call there is still
open. -/
theorem stale_operand_kept :
    (∀ entry ∈ Chain.functions.toList,
        (Typing.verify ⟨.primitives, Chain.functions, entry.2⟩).toOption
          = some entry.2.snapshots) ∧
      Image.finish (Image.after .primitives Chain.functions 64 Chain.twice)
        = .ok () (Chain.closed Chain.twice) ∧
      (Chain.closed Chain.twice).cache.entryOf? Chain.first = some 0x100000000 ∧
      (Chain.closed Chain.twice).cache.entryOf? Chain.second = some 0x100000040 ∧
      ((Chain.closed Chain.twice).store.read 0x100000012 9).toOption
        = some (Op.callAbsolute 0x100000020).encode ∧
      ((Chain.closed Chain.twice).store.read 0x100000032 9).toOption
        = some (Op.callAbsolute 0).encode := by
  refine ⟨by decide +kernel, Chain.finish_eq (by decide +kernel) (by decide +kernel), ?_⟩
  decide +kernel

end ManagedCode.Compile

import ManagedCode.Proofs.Machine.Operations

/-!
# Activations as frames on the stack

Every activation has a frame on the stack: its arguments, locals and operands below the saved base
of its caller, under which lie the return address and the caller's frame.

* `Activation.frame`, `spine`: the words of one frame, and of all frames from a call outward.
* `Configuration.view`: the view of a machine that is where the activations are.
* `gives_loadSlot`, `gives_storeSlot`, `gives_enter`, `gives_leave`, `gives_ret`: how machine
  instructions reach into frames, and how they make and drop them.
-/

namespace ManagedCode

open Bytecode TypeSystem
open Compile (Source CompiledFunction)
open Machine (Action Stop Registers copyArguments execute pushZeros setRegisters)
open Stack (ActiveCall)

/-! ## Words of frames -/

namespace Program

def addressOf? (p : Program) (id : FunctionId) (index : Nat) : Option UInt64 :=
  (p.image.cache.get? id).bind (·.addressOf? index)

/-- How far behind the start of its code a call instruction returns to. -/
def returnDistance (self : FunctionId) : Instr → Nat
  | .call callee => 13 + if callee = self then 5 else 9
  | .callInstance callee => 3 + (13 + if callee = self then 5 else 9)
  | _ => 0

/-- Where the call returns to that an activation is at. -/
def returnAddress (p : Program) (a : Activation UInt64) : UInt64 :=
  let instr := ((p.functions.get? a.function).bind (·.code[a.index]?)).getD .nop
  (p.addressOf? a.function a.index).getD 0 + UInt64.ofNat (returnDistance a.function instr)

end Program

namespace Activation

def slots (a : Activation UInt64) : List UInt64 := a.arguments ++ (a.locals ++ a.operands.reverse)

/-- The words of a frame, with the saved base and what lies above it. -/
def frame (a : Activation UInt64) (saved : UInt64) (above : List UInt64) : List UInt64 :=
  a.slots.reverse ++ saved :: above

/-- How the table of calls notes a call that an activation makes. -/
def site {V : Type} (a : Activation V) : ActiveCall := ⟨a.function, UInt32.ofNat a.index⟩

section

variable (a : Activation UInt64) (saved : UInt64) (above : List UInt64)

include a saved above

theorem frame_eq :
    a.frame saved above
      = a.operands ++ (a.locals.reverse ++ (a.arguments.reverse ++ saved :: above)) := by
  simp [frame, slots]

theorem length_frame : (a.frame saved above).length = a.slots.length + (above.length + 1) := by
  simp [frame]

end

end Activation

section Spine

variable (x : Fixed) (bottom : List UInt64)

/-- The number of words from a return address up to the end of the stack. -/
def height : List (Activation UInt64) → Nat
  | [] => bottom.length
  | a :: callers => a.slots.length + (height callers + 1) + 1

/-- The base of the innermost frame. -/
def baseOf : List (Activation UInt64) → UInt64
  | [] => 0
  | _ :: callers => x.place (height bottom callers + 1)

/-- The words from the return address into an activation on. -/
def spine : List (Activation UInt64) → List UInt64
  | [] => bottom
  | a :: callers => x.program.returnAddress a :: a.frame (baseOf x bottom callers) (spine callers)

def Configuration.words (c : Configuration UInt64) : List UInt64 :=
  c.current.frame (baseOf x bottom c.callers) (spine x bottom c.callers)

/-- The view of a machine that is where the activations are. -/
def Configuration.view (c : Configuration UInt64) (ip result : UInt64) : View where
  ip := ip
  bp := baseOf x bottom c.active
  result := result
  words := c.words x bottom
  calls := c.callers.map Activation.site
  world := c.world

variable {x bottom}

@[simp] theorem length_spine (callers : List (Activation UInt64)) :
    (spine x bottom callers).length = height bottom callers := by
  induction callers with
  | nil => rfl
  | cons a callers ih =>
    rw [spine, List.length_cons, Activation.length_frame, ih, height]

/-- Every caller has at least two words on the stack. -/
theorem length_le_height (callers : List (Activation UInt64)) :
    2 * callers.length ≤ height bottom callers := by
  induction callers with
  | nil => exact Nat.zero_le _
  | cons a callers ih =>
    rw [height, List.length_cons]
    omega

end Spine

/-! ## Slots -/

variable {n : Nat}

variable {h : Nat}

section Slots

variable {x : Fixed} {v : View} {E : Stop → World → Prop}

/-- The address of a slot of a frame. -/
theorem slotAddress_below (near : 8 * (1 + n) ≤ 2 ^ 31) (inside : 8 * (h + 1 + n) ≤ x.stackSize)
    (below : x.stackBase.toNat + x.stackSize < 2 ^ 64) :
    Stack.slotAddress (x.place h) (Stack.below n) = x.place (h + 1 + n) := by
  have distance : (Stack.below n).toInt = -(8 * (1 + n : Int)) :=
    Int32.toInt_ofInt_of_le (by omega) (by omega)
  have words := toNat_toUInt64_toInt64 (Stack.below n)
  rw [distance] at words
  apply UInt64.toNat_inj.mp
  unfold Stack.slotAddress Fixed.place
  rw [UInt64.toNat_add, UInt64.toNat_ofNat', UInt64.toNat_ofNat']
  omega

variable {slots above : List UInt64}

variable {w : UInt64}

/-- Where a slot stands among the words. -/
theorem getElem?_slots (here : slots[n]? = some w) :
    (slots.reverse ++ above)[slots.length - 1 - n]? = some w := by
  have bound := (List.getElem?_eq_some_iff.mp here).1
  rw [List.getElem?_append_left (by rw [List.length_reverse]; omega),
    List.getElem?_reverse (by omega), show slots.length - 1 - (slots.length - 1 - n) = n by omega]
  exact here

theorem set_reverse_slots (bound : n < slots.length) (w : UInt64) :
    slots.reverse.set (slots.length - 1 - n) w = (slots.set n w).reverse := by
  refine List.ext_getElem (by simp) fun i low high => ?_
  rw [List.getElem_set, List.getElem_reverse, List.getElem_reverse, List.getElem_set]
  simp only [List.length_set]
  have short : i < slots.length := by simpa using low
  by_cases same : slots.length - 1 - n = i
  · rw [if_pos same, if_pos (by omega)]
  · rw [if_neg same, if_neg (by omega)]

section

variable (near : 8 * (1 + n) ≤ 2 ^ 31) (words : v.words = slots.reverse ++ above)
  (base : v.bp = x.place above.length)

include near words base

theorem gives_loadSlot (here : slots[n]? = some w) :
    Gives x v (Machine.readSlot (Stack.slotAddress v.bp (Stack.below n))) w v E := by
  intro m shows_
  have bound := (List.getElem?_eq_some_iff.mp here).1
  have length : v.words.length = slots.length + above.length := by
    rw [words, List.length_append, List.length_reverse]
  have fits := shows_.fits
  refine gives_readSlot (slots.length - 1 - n) (by rw [words]; exact getElem?_slots here) ?_ m shows_
  rw [base, slotAddress_below near (by omega) shows_.below]
  congr 1
  omega

theorem gives_storeSlot (bound : n < slots.length) (w : UInt64) :
    Gives x v (Machine.writeSlot (Stack.slotAddress v.bp (Stack.below n)) w) ()
      { v with words := (slots.set n w).reverse ++ above } E := by
  intro m shows_
  have length : v.words.length = slots.length + above.length := by
    rw [words, List.length_append, List.length_reverse]
  have fits := shows_.fits
  have set : v.words.set (slots.length - 1 - n) w = (slots.set n w).reverse ++ above := by
    rw [words, List.set_append_left _ _ (by rw [List.length_reverse]; omega),
      set_reverse_slots bound]
  rw [← set]
  refine gives_writeSlot (slots.length - 1 - n) (by omega) ?_ m shows_
  rw [base, slotAddress_below near (by omega) shows_.below]
  congr 1
  omega

end

end Slots

/-! ## Making and dropping frames -/

section Calls

variable {x : Fixed} {v : View} {E : Stop → World → Prop}

/-- The address of a slot above a base. -/
theorem slotAddress_above (inside : n ≤ h) (near : 8 * n < 2 ^ 31) (fits : 8 * h ≤ x.stackSize) :
    Stack.slotAddress (x.place h) (Int32.ofNat (8 * n)) = x.place (h - n) := by
  have distance : (Int32.ofNat (8 * n)).toInt = ((8 * n : Nat) : Int) :=
    Int32.toInt_ofNat_of_lt near
  have words := toNat_toUInt64_toInt64 (Int32.ofNat (8 * n))
  rw [distance] at words
  apply UInt64.toNat_inj.mp
  unfold Stack.slotAddress Fixed.place
  rw [UInt64.toNat_add, UInt64.toNat_ofNat', UInt64.toNat_ofNat']
  omega

/-- The arguments that the caller pushed are copied one after the other. `arguments.take done` are
there already. -/
theorem gives_copyArguments (arguments rest : List UInt64) (saved address : UInt64)
    (few : arguments.length < 65536)
    (overflow : ∀ address, E (.trap (.stackExhausted address)) v.world) (left done : Nat)
    (count : done + left = arguments.length)
    (words : v.words = (arguments.take done).reverse ++ saved :: address :: (arguments.reverse ++ rest))
    (base : v.bp = x.place (saved :: address :: (arguments.reverse ++ rest)).length) :
    Gives x v (copyArguments arguments.length left) ()
      { v with words := arguments.reverse ++ saved :: address :: (arguments.reverse ++ rest) } E := by
  induction left generalizing v done with
  | zero =>
    have all : arguments.take done = arguments := List.take_of_length_le (by omega)
    rw [all] at words
    rw [← words]
    exact gives_pure ()
  | succ left ih =>
    intro m shows_
    obtain ⟨w, here⟩ : ∃ w, arguments[done]? = some w :=
      ⟨_, List.getElem?_eq_getElem (by omega)⟩
    have fits := shows_.fits
    have size : v.words.length = done + (arguments.length + rest.length + 2) := by
      rw [words]
      simp
      omega
    have caller : v.words[arguments.length + 1]? = some w := by
      have taken : (arguments.take done).reverse.length ≤ arguments.length + 1 := by
        rw [List.length_reverse, List.length_take]
        omega
      rw [words, List.getElem?_append_right taken, List.length_reverse,
        List.length_take, show arguments.length + 1 - min done arguments.length
          = (arguments.length - 1 - done) + 1 + 1 by omega, List.getElem?_cons_succ,
        List.getElem?_cons_succ]
      exact getElem?_slots here
    have place : Stack.slotAddress (v.registers x).bp (Stack.callerArgumentOffset arguments.length
        (arguments.length - (left + 1))) = x.place (v.words.length - (arguments.length + 1)) := by
      have length : (saved :: address :: (arguments.reverse ++ rest)).length
          = arguments.length + rest.length + 2 := by
        simp
      have distance : Stack.callerArgumentOffset arguments.length (arguments.length - (left + 1))
          = Int32.ofNat (8 * (2 + (arguments.length - 1 - done))) := by
        unfold Stack.callerArgumentOffset
        congr 1
        omega
      show Stack.slotAddress v.bp _ = _
      rw [base, distance, length, slotAddress_above (by omega) (by omega) (by omega), size]
      congr 1
      omega
    have next : arguments.take (done + 1) = arguments.take done ++ [w] := by
      rw [List.take_add_one, here]
      rfl
    unfold copyArguments
    refine gives_registersOf.bind ((gives_readSlot _ caller place).bind
      ((gives_push overflow).bind ?_)) m shows_
    refine ih (v := { v with words := w :: v.words }) overflow (done + 1) (by omega) ?_ base
    show w :: v.words = _
    rw [words, next, List.reverse_append]
    rfl

theorem gives_pushZeros (overflow : ∀ address, E (.trap (.stackExhausted address)) v.world) (n : Nat) :
    Gives x v (pushZeros n) () { v with words := List.replicate n 0 ++ v.words } E := by
  induction n generalizing v with
  | zero => exact gives_pure ()
  | succ n ih =>
    unfold pushZeros
    refine (gives_push overflow).bind ?_
    have rest := ih (v := { v with words := 0 :: v.words }) overflow
    rwa [show List.replicate n (0 : UInt64) ++ 0 :: v.words
      = List.replicate (n + 1) 0 ++ v.words by
        rw [List.replicate_succ', List.append_assoc]; rfl] at rest

/-- The base of a new frame is where the old one was saved. -/
theorem gives_setBase : Gives x { v with words := v.bp :: v.words }
    (setRegisters fun r => { r with bp := r.sp }) ()
    { v with bp := x.place (v.words.length + 1), words := v.bp :: v.words } E :=
  gives_setRegisters 0 (Nat.zero_le _) rfl rfl rfl rfl

variable {next : UInt64}

variable {address : UInt64}

/-- A frame for a call: the base of the caller, copies of the arguments and zeroed locals. -/
theorem gives_enter {arguments rest : List UInt64} {locals : Nat} (few : arguments.length < 65536)
    (fewLocals : locals < 65536) (overflow : ∀ address, E (.trap (.stackExhausted address)) v.world)
    (words : v.words = address :: (arguments.reverse ++ rest)) :
    Gives x v (execute next
        (.enter (UInt16.ofNat arguments.length) (UInt16.ofNat locals))) ()
      { v with
        bp := x.place (v.words.length + 1)
        words := (arguments ++ List.replicate locals 0).reverse ++ v.bp :: v.words } E := by
  have count : (UInt16.ofNat arguments.length).toNat = arguments.length := by
    rw [UInt16.toNat_ofNat', Nat.mod_eq_of_lt few]
  have count' : (UInt16.ofNat locals).toNat = locals := by
    rw [UInt16.toNat_ofNat', Nat.mod_eq_of_lt fewLocals]
  unfold execute
  dsimp only
  rw [count, count']
  refine gives_registersOf.bind ((gives_push overflow).bind ?_)
  refine gives_setBase.bind ?_
  have copied : Gives x { v with bp := x.place (v.words.length + 1), words := v.bp :: v.words }
      (copyArguments arguments.length arguments.length) ()
      { v with
        bp := x.place (v.words.length + 1)
        words := arguments.reverse ++ v.bp :: v.words } E := by
    have copy := gives_copyArguments
      (v := { v with bp := x.place (v.words.length + 1), words := v.bp :: v.words })
      (E := E) (x := x) arguments rest v.bp address few overflow arguments.length 0 (by omega)
      (by rw [words]; rfl) (by rw [words]; rfl)
    rwa [← words] at copy
  refine copied.bind ?_
  have zeroed := gives_pushZeros (x := x) (E := E)
    (v := { v with
      bp := x.place (v.words.length + 1)
      words := arguments.reverse ++ v.bp :: v.words }) overflow locals
  rwa [show List.replicate locals (0 : UInt64) ++ (arguments.reverse ++ v.bp :: v.words)
    = (arguments ++ List.replicate locals 0).reverse ++ v.bp :: v.words by
      rw [List.reverse_append, List.reverse_replicate, List.append_assoc]] at zeroed

theorem gives_leave {saved : UInt64} {slots above : List UInt64}
    (words : v.words = slots ++ saved :: above) (base : v.bp = x.place (above.length + 1)) :
    Gives x v (execute next .leave) () { v with bp := saved, words := above } E := by
  unfold execute
  have moved : Gives x v (setRegisters fun r => { r with sp := r.bp }) ()
      { v with words := saved :: above } E := by
    refine gives_setRegisters slots.length (by rw [words]; simp) ?_ (by rw [words]; simp) rfl rfl
    show Registers.mk v.ip v.bp v.bp v.result = Registers.mk v.ip _ v.bp v.result
    rw [base]
    rfl
  have set : Gives x { v with words := above } (setRegisters ({ · with bp := saved })) ()
      { v with bp := saved, words := above } E :=
    gives_setRegisters 0 (Nat.zero_le _) rfl rfl rfl rfl
  exact moved.bind ((gives_pop rfl).bind set)

/-- The machine returns and drops the arguments that the caller pushed. -/
theorem gives_ret {words : List UInt64} (few : n < 65536) (top : v.words = address :: words)
    (enough : n ≤ words.length) :
    Gives x v (execute next (.ret (UInt16.ofNat n))) ()
      { v with ip := address, words := words.drop n } E := by
  intro m shows_
  have count : (UInt16.ofNat n).toNat = n := by
    rw [UInt16.toNat_ofNat', Nat.mod_eq_of_lt few]
  have fits := shows_.fits
  rw [top, List.length_cons] at fits
  have place : x.place (words.length - n)
      = x.place words.length + (UInt16.ofNat n).toUInt64 * Stack.slotSize := by
    apply UInt64.toNat_inj.mp
    unfold Fixed.place
    rw [UInt64.toNat_add, UInt64.toNat_mul, UInt16.toNat_toUInt64, count, UInt64.toNat_ofNat',
      UInt64.toNat_ofNat', show Stack.slotSize.toNat = 8 from rfl]
    omega
  have moved : Gives x { v with words } (setRegisters fun r =>
      { r with sp := r.sp + (UInt16.ofNat n).toUInt64 * Stack.slotSize, ip := address }) ()
      { v with ip := address, words := words.drop n } E := by
    refine gives_setRegisters n enough ?_ rfl rfl rfl
    unfold View.registers
    dsimp only
    rw [List.length_drop, place]
  unfold execute
  exact (gives_pop top).bind moved m shows_

end Calls

end ManagedCode

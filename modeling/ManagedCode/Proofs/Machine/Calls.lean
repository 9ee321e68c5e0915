import ManagedCode.Proofs.Machine.Plain

/-!
# Calls and returns

A call of a function with a body is several machine instructions on both sides of the callee's own
code: the call is noted, the callee makes its frame, and after it has dropped the frame again the
note is dropped and the result pushed. The routines of the runtime are called without a frame.

* `Here.leads_routine`: a call of a routine of the runtime.
* `Midway`: what a machine shows between the machine instructions of a call or a return.
* `Here.leads_managed`: a call of a function with a body, until its first instruction.
* `Here.leads_return`: a return, until the instruction behind the call.
-/

namespace ManagedCode

open Bytecode TypeSystem
open Compile (CompiledFunction Piece Source codeLength codeLength_cons)
open Machine (Stop Registers displace execute)
open Target (Op)
open Compile.Source (callPiece checkPieces lowerCall resultPieces)

/-! ## Targets of calls -/

variable {address : UInt64}

theorem Bytecode.Native.eq_of_atAddress? {routine : Native}
    (here : Native.atAddress? address = some routine) : address = routine.address := by
  unfold Native.atAddress? at here
  dsimp only at here
  split at here
  · rename_i range
    obtain ⟨low, aligned⟩ := range
    have base : Native.baseAddress.toNat = 18446603336221196288 := rfl
    have distance := UInt64.toNat_sub_of_le _ _ low
    have aligned := congrArg UInt64.toNat aligned
    rw [UInt64.toNat_mod, distance, show Native.addressStride.toNat = 16 from rfl,
      show (0 : UInt64).toNat = 0 from rfl] at aligned
    rw [UInt64.le_iff_toNat_le] at low
    rw [UInt64.toNat_div, distance, show Native.addressStride.toNat = 16 from rfl] at here
    have small := address.toNat_lt
    unfold Native.ofIndex? at here
    have bound := (List.getElem?_eq_some_iff.mp here).1
    have place : address.toNat = Native.baseAddress.toNat
        + (address.toNat - Native.baseAddress.toNat) / 16 * 16 := by
      omega
    generalize (address.toNat - Native.baseAddress.toNat) / 16 = n at here place bound
    apply UInt64.toNat_inj.mp
    rw [place]
    rw [show Native.all.length = 5 from rfl] at bound
    have few : n = 0 ∨ n = 1 ∨ n = 2 ∨ n = 3 ∨ n = 4 := by omega
    rcases few with rfl | rfl | rfl | rfl | rfl <;> cases here <;> rfl
  · cases here

namespace Program

variable {p : Program} {id callee : FunctionId} {f g : Function} {k : CompiledFunction}
  {offset : Nat} {rest : List Piece}

/-- No routine of the runtime is called at an address in compiled code. -/
theorem Runnable.atAddress?_eq_none (ready : p.Runnable)
    (code : p.image.store.isCode address = true) : Native.atAddress? address = none := by
  cases here : Native.atAddress? address with
  | none => rfl
  | some routine =>
    rw [Native.eq_of_atAddress? here, ready.notNative] at code
    cases code

variable {op : Op}

theorem Lies.absolute (lies : p.Lies k offset (⟨op, .call callee .absolute⟩ :: rest)) :
    ∃ address, p.image.cache.target? p.functions callee = some address ∧
      p.OpAt (k.address offset) (.callAbsolute address) ∧ p.Lies k (offset + op.length) rest := by
  obtain ⟨⟨op', resolves, here⟩, later⟩ := lies
  cases resolves with
  | done fixup | branch fixup | self fixup => cases fixup
  | call fixup there =>
    cases fixup
    exact ⟨_, there, here, later⟩

theorem Lies.relative (lies : p.Lies k offset (⟨op, .call callee .relative⟩ :: rest)) :
    ∃ d, displace (k.address (offset + op.length)) d = k.entry ∧
      p.OpAt (k.address offset) (.callRelative d) ∧ p.Lies k (offset + op.length) rest := by
  obtain ⟨⟨op', resolves, here⟩, later⟩ := lies
  cases resolves with
  | done fixup | branch fixup | call fixup => cases fixup
  | self fixup leads =>
    cases fixup
    exact ⟨_, leads, here, later⟩

end Program

/-! ## Between the machine instructions of a call or a return -/

/-- The machine instructions that calls of functions with a body and returns are made of. -/
def Target.Op.isLinkage : Op → Bool
  | .enter .. | .leave | .ret _ | .pushResult | .popResult | .callRelative _ | .callAbsolute _
  | .nullCheck _ | .pushFrame .. | .popFrame => true
  | _ => false

/-- What a machine shows after some of the machine instructions of the call or return that the
innermost activation is at: no instruction starts where it is, and the stack has words of the frames
only, with a return address on top of them at most. -/
structure Midway (x : Fixed) (bottom : List UInt64) (c : Configuration UInt64) (u : View) : Prop where
  interior : x.program.Interior u.ip
  linkage : ∃ op, x.program.OpAt u.ip op ∧ op.isLinkage = true
  words : ∃ top rest, u.words = top ++ rest ∧ top.length ≤ 1 ∧ rest <:+ c.words x bottom
  world : u.world = c.world

section Calls

variable {x : Fixed} {root callee : FunctionId} {bottom : List UInt64} {c : Configuration UInt64}
  {f g : Function} {k k' : CompiledFunction} {instr : Instr} {after : OperandTypes} {offset : Nat}
  {constant result : UInt64} {pieces : List Piece} {m : Machine Vm}
  {R : TypeId → UInt64 → Prop}
variable {a : Activation UInt64} {routine : Native} {p : Program} {inner : View → Prop}
  {id : FunctionId} {onObject : Bool} {types : TypeTable} {functions : FunctionTable}
  {rest : List UInt64} {op : Op} {start : Nat} {value : Option UInt64}

/-! ## Routines of the runtime -/

theorem short_of_fits (ready : x.program.Ready) (fits : a.Fits x.program.functions R f) :
    a.index < 2 ^ 32 := by
  have size := (ready.checked _ _ fits.found fits.body).body.size
  have bound := (Array.getElem?_eq_some_iff.mp (Typing.snapshot_of_reachable fits.reachable)).1
  have short := ready.short _ _ fits.found
  have size : f.snapshots.size = f.code.size := size
  omega

/-- Every call under way is of a known function and stands at an index that fits the table. -/
theorem known_of_fits (ready : x.program.Ready) {active : List (Activation UInt64)}
    (fits : ∀ a ∈ active, ∃ f, a.Fits x.program.functions R f) :
    ∀ a ∈ active, (∃ f, x.program.functions.get? a.function = some f) ∧ a.index < 2 ^ 32 := by
  intro a mem
  obtain ⟨f, fit⟩ := fits a mem
  exact ⟨⟨f, fit.found⟩, short_of_fits ready fit⟩

theorem Bytecode.Native.atAddress?_address (routine : Native) :
    Native.atAddress? routine.address = some routine := by
  cases routine <;> rfl

section

variable (collects : routine ≠ .collect) (lists : routine ≠ .printCallStack)

include collects lists

theorem prints_one (w : UInt64) :
    (∃ type, routine.parameters = [type]) ∧ routine.arity = 1 ∧
      ∃ line, Vm.printed? routine [w] = some line := by
  cases routine with
  | collect => exact absurd rfl collects
  | printCallStack => exact absurd rfl lists
  | printInt | printFloat | printBool => exact ⟨⟨_, rfl⟩, rfl, _, rfl⟩

theorem callRoutine_print {w : UInt64} (top : c.operands = w :: rest) {line : String}
    (printed : Vm.printed? routine [w] = some line) :
    Words.callRoutine types functions routine c
      = .next ((c.inWorld ((c.world.say line).say "\n")).goOn rest) := by
  unfold Words.callRoutine
  split
  · exact absurd rfl collects
  · exact absurd rfl lists
  · rw [pop1_eq top, printed]

end

theorem perform_routine (found : functions.get? callee = some (.ofNative routine)) :
    Words.perform types functions f c (.call callee)
      = Words.callRoutine types functions routine c := by
  show Words.call types functions c callee false = _
  unfold Words.call
  rw [found]
  rfl

theorem Here.leads_print (here : Here x c f k (.call callee) after offset constant pieces)
    (ready : x.program.Runnable) (fits : c.current.Fits x.program.functions R f)
    (found : x.program.functions.get? callee = some (.ofNative routine))
    (collects : routine ≠ .collect) (lists : routine ≠ .printCallStack)
    (shows_ : Shows x (c.view x bottom (k.address offset) result) m) :
    LeadsTo x bottom inner
      (Words.callRoutine x.program.types x.program.functions routine c) m := by
  have lowered : (x.program.source c.current.function f).lower c.current.index constant
      (.call callee) = .ok [⟨.callAbsolute 0, .call callee .absolute⟩] := by
    show lowerCall _ _ callee false = _
    unfold lowerCall
    rw [show (x.program.source c.current.function f).functions.get? callee
      = some (.ofNative routine) from found]
    cases routine with
    | collect => exact absurd rfl collects
    | printCallStack => exact absurd rfl lists
    | _ => rfl
  cases here.at_.lowered.symm.trans lowered
  obtain ⟨address, target, opAt, _⟩ := here.at_.lies.absolute
  have target : address = routine.address := by
    unfold Compile.CodeCache.target? at target
    rw [found] at target
    cases target
    rfl
  subst target
  obtain ⟨stack, effect, operands⟩ := fits.effect here.flow
  cases effect with
  | call there =>
    cases found.symm.trans there
    obtain ⟨⟨type, parameters⟩, arity, _⟩ := prints_one collects lists 0
    rw [show (Function.ofNative routine).definition.parameters = [type] from parameters]
      at operands
    obtain ⟨w, rest, top, _⟩ := operands_one operands
    obtain ⟨_, _, line, printed⟩ := prints_one collects lists w
    rw [callRoutine_print collects lists top printed]
    exact leads_single ready opAt
      (agrees_print (here.go rfl) top arity printed routine.atAddress?_address) shows_

section

variable (here : Here x c f k instr after offset constant pieces)

include here

/-- Routines belong to no type, so that none is called on an object. -/
theorem Here.eq_call (calls : instr.callee? = some callee)
    (found : x.program.functions.get? callee = some (.ofNative routine)) :
    instr = .call callee := by
  have effect := here.flow.effect
  cases instr with
  | call =>
    cases calls
    rfl
  | callInstance =>
    cases calls
    generalize f.operandTypes c.current.index = stack at effect
    cases effect with
    | callInstance there method =>
      cases found.symm.trans there
      cases method
  | _ => cases calls

theorem Here.leads_routine (setting : Setting x root bottom)
    (fits : c.Fits x.program.functions R root) (calls : instr.callee? = some callee)
    (found : x.program.functions.get? callee = some g) (native : g.native? = some routine)
    (shows_ : Shows x (c.view x bottom (k.address offset) result) m) :
    LeadsTo x bottom inner (Words.perform x.program.types x.program.functions f c instr) m := by
  have ready := setting.ready
  have same : g = .ofNative routine := ready.tidy.natives _ _ _ found native
  obtain rfl := here.eq_call calls (same ▸ found)
  have performed : Words.perform x.program.types x.program.functions f c (.call callee)
      = Words.callRoutine x.program.types x.program.functions routine c :=
    perform_routine (same ▸ found)
  have active := fits.active
  have known := known_of_fits ready active
  have short : ∀ a ∈ c.active, a.index < 2 ^ 32 := fun a mem => (known a mem).2
  subst same
  cases routine with
  | collect =>
    refine here.leads_done ready rfl ?_ performed
      (fun _ go => agrees_collect go setting.small active short) shows_
    show lowerCall _ _ callee false = _
    unfold lowerCall
    rw [show (x.program.source c.current.function f).functions.get? callee = _ from found]
    rfl
  | printCallStack =>
    refine here.leads_done ready rfl ?_ performed
      (fun _ go => agrees_printCallStack go known) shows_
    show lowerCall _ _ callee false = _
    unfold lowerCall
    rw [show (x.program.source c.current.function f).functions.get? callee = _ from found]
    rfl
  | _ =>
    obtain ⟨f', current⟩ := fits.current
    cases here.code.found.symm.trans current.found
    rw [performed]
    exact here.leads_print ready current found (by decide) (by decide) shows_

end

/-! ## Functions with a body -/

section Through

variable {v u : View} {inner : View → Prop} {Q : View → Prop} {E : Stop → World → Prop} {op : Op}

section

variable (ready : x.program.Runnable) (here : x.program.OpAt (k.address offset) op)
  (gives : Gives x { v with ip := k.address (offset + op.length) } (execute (k.address
    (offset + op.length)) op) () u E)

include ready here gives

theorem leads_through (inside : inner u) (rest : ∀ m, Shows x u m → Leads x inner Q E m)
    (shows_ : Shows x { v with ip := k.address offset } m) : Leads x inner Q E m := by
  rw [← k.address_add] at gives
  exact leads_more (v := { v with ip := k.address offset }) ready here gives inside rest shows_

theorem leads_to (good : Q u) (shows_ : Shows x { v with ip := k.address offset } m) :
    Leads x inner Q E m := by
  rw [← k.address_add] at gives
  exact leads_last (v := { v with ip := k.address offset }) ready here (gives.does good) shows_

end

end Through

/-- A machine instruction that goes to the entry of a function. -/
def Goes (k k' : CompiledFunction) (offset : Nat) (op : Op) : Prop :=
  (∃ d, op = .callRelative d ∧ displace (k.address (offset + op.length)) d = k'.entry) ∨
    op = .callAbsolute k'.entry

/-- The machine instruction that calls a function goes to its entry. -/
theorem call_of_lies (ready : p.Runnable) (code : p.Code id f k)
    (found : p.functions.get? callee = some g) (native : g.native? = none) {rest : List Piece}
    (lies : p.Lies k offset ((p.source id f).callPiece callee :: rest)) :
    ∃ k' op, p.Code callee g k' ∧ p.OpAt (k.address offset) op ∧ Goes k k' offset op ∧
      op.length = if callee = id then 5 else 9 := by
  unfold callPiece at lies
  by_cases same : callee = id
  · rw [if_pos (show callee = (p.source id f).id from same)] at lies
    obtain ⟨d, leads, opAt, _⟩ := lies.relative
    subst same
    cases found.symm.trans code.found
    exact ⟨k, _, code, opAt, .inl ⟨d, rfl, leads⟩, (if_pos rfl).symm⟩
  · rw [if_neg (show callee ≠ (p.source id f).id from same)] at lies
    obtain ⟨address, target, opAt, _⟩ := lies.absolute
    unfold Compile.CodeCache.target? at target
    rw [found] at target
    dsimp only at target
    rw [native] at target
    obtain ⟨k', cached, rfl⟩ := Option.map_eq_some_iff.mp target
    obtain ⟨g', code'⟩ := ready.code_of_cached cached
    cases found.symm.trans code'.found
    exact ⟨k', _, code', opAt, .inr rfl, (if_neg same).symm⟩

theorem Goes.isLinkage (goes : Goes k k' offset op) : op.isLinkage = true := by
  rcases goes with ⟨d, rfl, _⟩ | rfl <;> rfl

/-- No function is compiled to where a routine of the runtime is called. -/
theorem Program.Code.atAddress?_entry (code : p.Code id g k) (ready : p.Runnable) :
    Native.atAddress? k.entry = none := by
  refine ready.atAddress?_eq_none ?_
  rw [show k.entry = k.address 0 from (UInt64.add_zero _).symm]
  exact code.isCode 0 (Nat.lt_of_lt_of_le (by decide) code.positive)

theorem Goes.gives (goes : Goes k k' offset op) (ready : x.program.Runnable)
    (code : x.program.Code id g k') (v : View) {E : Stop → World → Prop}
    (overflow : ∀ address, E (.trap (.stackExhausted address)) v.world) :
    Gives x v (execute (k.address (offset + op.length)) op) ()
      { v with ip := k'.entry, words := k.address (offset + op.length) :: v.words } E := by
  rcases goes with ⟨d, rfl, leads⟩ | rfl
  · rw [← leads]
    exact (gives_push overflow).bind (gives_goto _)
  · unfold execute
    dsimp only
    rw [code.atAddress?_entry ready]
    exact (gives_push overflow).bind (gives_goto _)

/-- What a machine shows between a caller and a function without a frame: the return address is on
top of the stack. -/
def View.linking (x : Fixed) (bottom : List UInt64) (active : List (Activation UInt64))
    (ip result : UInt64) (world : World) : View :=
  ⟨ip, baseOf x bottom active, result, spine x bottom active, active.map Activation.site, world⟩

/-- A function that was just called makes its frame. -/
theorem leads_enter (ready : x.program.Runnable) (code : x.program.Code callee g k)
    (bottom : List UInt64) (active : List (Activation UInt64)) (world : World)
    {arguments : List UInt64}
    (words : spine x bottom active = address :: (arguments.reverse ++ rest))
    (count : arguments.length = g.argumentCount)
    (shows_ : Shows x (.linking x bottom active k.entry result world) m) :
    LeadsTo x bottom inner (.next (Words.entered callee g arguments active world)) m := by
  have opAt := code.enter
  rw [← count] at opAt
  have start : k.entry = k.address 0 := (UInt64.add_zero _).symm
  have few : arguments.length < 65536 := by
    rw [count]
    exact code.arguments
  have made : Gives x (.linking x bottom active (k.address 5) result world)
      (execute (k.address 5) _) () _
      ((Outcome.next (Words.entered callee g arguments active world)).Stops x) :=
    gives_enter few code.locals stops_overflow words
  rw [start] at opAt shows_
  refine leads_to (v := .linking x bottom active (k.address 0) result world) ready opAt made
    ⟨k.address 5, result, ?_, ?_⟩ shows_
  · show x.program.addressOf? callee 0 = _
    rw [code.addressOf?, code.first]
    rfl
  · unfold View.linking Configuration.view Configuration.words Activation.frame Activation.slots
    simp only [length_spine, Words.entered, List.reverse_nil, List.append_nil]
    rfl

/-! ## The code of a call -/

theorem Bytecode.Instr.endsBlock_of_callee? (calls : instr.callee? = some callee) :
    instr.endsBlock = false := by
  cases instr with
  | call | callInstance => rfl
  | _ => cases calls

variable {i n : Nat} {ip : UInt64}

/-- The code of a call is lowered for a call on an object or for one that is not. -/
theorem lowered_call (at_ : p.At id f k i instr offset constant pieces)
    (calls : instr.callee? = some callee) (found : p.functions.get? callee = some g)
    (native : g.native? = none) :
    ∃ onObject : Bool, instr = (if onObject then .callInstance callee else .call callee) ∧
      (onObject = true → g.argumentCount - 1 < 65536) ∧
      pieces = (p.source id f).callPieces i callee g onObject := by
  have managed : ∀ onObject,
      (p.source id f).lowerCall i callee onObject = (p.source id f).lowerManaged i callee g onObject := by
    intro onObject
    unfold lowerCall
    rw [show (p.source id f).functions.get? callee = some g from found]
    dsimp only
    rw [native]
  have lowered := at_.lowered
  cases instr with
  | call =>
    cases calls
    obtain ⟨_, same⟩ := Source.lowerManaged_eq_ok ((managed false).symm.trans lowered)
    exact ⟨false, rfl, (nomatch ·), same⟩
  | callInstance =>
    cases calls
    obtain ⟨few, same⟩ := Source.lowerManaged_eq_ok ((managed true).symm.trans lowered)
    exact ⟨true, rfl, few, same⟩
  | _ => cases calls

theorem length_callPiece (s : Source) (callee : FunctionId) :
    (s.callPiece callee).op.length = if callee = s.id then 5 else 9 := by
  unfold callPiece
  split <;> rfl

theorem length_callPieces (s : Source) (i : Nat) (callee : FunctionId) (g : Function)
    (onObject : Bool) : codeLength (s.callPieces i callee g onObject)
      = codeLength (checkPieces g onObject) + (13 + (s.callPiece callee).op.length)
        + (1 + codeLength (resultPieces g)) := by
  rw [Source.callPieces, Compile.codeLength_append, Compile.codeLength_append]
  show _ + (13 + (s.callPiece callee).op.length + 1 + _) = _
  omega

theorem returnDistance_eq (s : Source) (g : Function) (callee : FunctionId) (onObject : Bool) :
    Program.returnDistance s.id (if onObject then .callInstance callee else .call callee)
      = codeLength (checkPieces g onObject) + (13 + (s.callPiece callee).op.length) := by
  rw [length_callPiece]
  cases onObject with
  | false => exact (Nat.zero_add _).symm
  | true => rfl

section Return

variable (code : p.Code a.function f k) (here : f.code[a.index]? = some instr)
  (at_ : p.At a.function f k a.index instr offset constant pieces)

include code here at_

theorem returnAddress_eq :
    p.returnAddress a = k.address (offset + Program.returnDistance a.function instr) := by
  unfold Program.returnAddress
  rw [code.found, Option.bind_some, here, at_.address code]
  exact k.address_add offset _

/-- A call returns to behind its machine instruction that goes to the function. -/
theorem returnAddress_of_call
    (same : instr = if onObject then .callInstance callee else .call callee) (g : Function) :
    p.returnAddress a = k.address (offset + codeLength (checkPieces g onObject) + 13
      + if callee = a.function then 5 else 9) := by
  have distance := returnDistance_eq (p.source a.function f) g callee onObject
  rw [← same, length_callPiece] at distance
  rw [returnAddress_eq code here at_,
    show Program.returnDistance a.function instr = _ from distance,
    show (p.source a.function f).id = a.function from rfl]
  congr 1
  omega

/-- Behind a call its note is dropped and its result taken over. -/
theorem code_behind_call (calls : instr.callee? = some callee)
    (found : p.functions.get? callee = some g) (native : g.native? = none) :
    ∃ back, 0 < back ∧ p.returnAddress a = k.address (offset + back) ∧
      p.OpAt (k.address (offset + back)) .popFrame ∧
      (if g.definition.returnType = .void then codeLength pieces = back + 1
      else p.OpAt (k.address (offset + back + 1)) .pushResult ∧ codeLength pieces = back + 2) := by
  obtain ⟨onObject, same, _, split⟩ := lowered_call at_ calls found native
  have distance := returnDistance_eq (p.source a.function f) g callee onObject
  rw [← same] at distance
  have lies := at_.lies
  rw [split] at lies
  obtain ⟨_, lies⟩ := lies.append
  have lies : p.Lies k _ ([_, _] ++ _) := lies
  obtain ⟨_, lies⟩ := lies.append
  obtain ⟨dropped, lies⟩ := lies.done
  have place : offset + codeLength (checkPieces g onObject)
      + codeLength [.done (.pushFrame (p.source a.function f).id.toBits (UInt32.ofNat a.index)),
        (p.source a.function f).callPiece callee]
      = offset + Program.returnDistance a.function instr := by
    rw [show Program.returnDistance a.function instr = _ from distance, Nat.add_assoc]
    rfl
  rw [place] at dropped lies
  refine ⟨Program.returnDistance a.function instr, ?_, returnAddress_eq code here at_, dropped, ?_⟩
  · rw [show Program.returnDistance a.function instr = _ from distance]
    omega
  have length : codeLength pieces = Program.returnDistance a.function instr
      + (1 + codeLength (resultPieces g)) := by
    rw [split, length_callPieces, show Program.returnDistance a.function instr = _ from distance]
  unfold resultPieces at lies length
  split
  · rename_i none
    rw [if_pos none] at length
    exact length
  · rename_i some
    rw [if_neg some] at lies length
    exact ⟨lies.done.1, length⟩

end Return

/-! ## Calls of functions with a body -/

/-- A view with all words of the frames, and perhaps a return address on top of them. -/
theorem midway_of_words {u : View} (interior : x.program.Interior u.ip)
    (here : x.program.OpAt u.ip op) (linkage : op.isLinkage = true) (world : u.world = c.world)
    (top : List UInt64) (words : u.words = top ++ rest) (short : top.length ≤ 1)
    (suffix : rest <:+ c.words x bottom) : Midway x bottom c u :=
  ⟨interior, ⟨op, here, linkage⟩, ⟨top, rest, words, short, suffix⟩, world⟩

/-- The table of calls has an address for one more call. -/
theorem room_for_call (grounds : Grounds x root bottom)
    (shows_ : Shows x (c.view x bottom ip result) m) :
    x.callsBase.toNat + (8 + 16 * ((c.callers.map Activation.site).length + 1)) < 2 ^ 64 := by
  have fits : 8 * (c.words x bottom).length ≤ x.stackSize := shows_.fits
  have deep : 2 * c.callers.length ≤ height bottom c.callers := length_le_height c.callers
  have space : x.stackSize ≤ 0x800000000000 := grounds.space
  have table := grounds.table
  unfold Configuration.words at fits
  rw [Activation.length_frame, length_spine] at fits
  rw [List.length_map]
  omega

/-- The operands of a call are the arguments, the last one on top, and what lies below. -/
theorem operands_of_call (fits : a.Fits functions R f)
    (flow : Typing.Flows ⟨types, functions, f⟩ a.index instr after)
    (calls : instr.callee? = some callee) (found : functions.get? callee = some g) :
    ∃ low, f.operandTypes a.index = g.definition.parameters.reverse ++ low ∧
      after = Typing.resultTypes g.definition ++ low ∧ g.argumentCount ≤ a.operands.length := by
  have operands := fits.operands
  have effect := flow.effect
  dsimp only at effect
  generalize f.operandTypes a.index = stack at effect operands
  have length := operands.length_eq
  cases effect with
  | call there | callInstance there =>
    cases calls
    cases found.symm.trans there
    refine ⟨_, rfl, rfl, ?_⟩
    rw [List.length_append, List.length_reverse] at length
    exact Nat.le.intro length
  | _ => cases calls

/-- A function that is called on an object takes the object. -/
theorem argumentCount_pos {s : Typing.Scope} (same : instr = .callInstance callee)
    (flow : Typing.Flows s i instr after) (found : s.functions.get? callee = some g) :
    0 < g.argumentCount := by
  have effect := flow.effect
  subst same
  generalize s.function.operandTypes i = stack at effect
  cases effect with
  | callInstance there method =>
    cases found.symm.trans there
    obtain ⟨owner, rest, _, parameters⟩ := Typing.receiver_of_isInstanceMethod method
    rw [Function.argumentCount, parameters]
    exact Nat.zero_lt_succ _

/-- The words from the return address of a call on start with the arguments. -/
theorem spine_of_call (x : Fixed) (bottom : List UInt64) (c : Configuration UInt64)
    (arguments : Nat) :
    spine x bottom c.active = x.program.returnAddress c.current ::
      ((c.operands.take arguments).reverse.reverse ++ (c.operands.drop arguments ++
        (c.current.locals.reverse ++ (c.current.arguments.reverse ++
          baseOf x bottom c.callers :: spine x bottom c.callers)))) := by
  show x.program.returnAddress c.current :: c.current.frame _ _ = _
  rw [Activation.frame_eq, List.reverse_reverse, ← List.append_assoc (c.operands.take _),
    List.take_append_drop]
  rfl

/-- A call that is noted already goes to the callee, which makes its frame. -/
theorem leads_call (ready : x.program.Runnable) (code : x.program.Code c.current.function f k)
    (here : f.code[c.current.index]? = some instr)
    (at_ : x.program.At c.current.function f k c.current.index instr offset constant pieces)
    (same : instr = if onObject then .callInstance callee else .call callee)
    (found : x.program.functions.get? callee = some g) (native : g.native? = none)
    (enough : g.argumentCount ≤ c.operands.length) {rest : List Piece}
    (place : start = offset + codeLength (checkPieces g onObject) + 13)
    (lies : x.program.Lies k start
      ((x.program.source c.current.function f).callPiece callee :: rest))
    {outcome : Outcome UInt64}
    (enters : c.enter callee g.argumentCount (List.replicate g.locals.length 0) = outcome)
    (shows_ : Shows x { c.view x bottom (k.address start) result with
      calls := c.active.map Activation.site } m) :
    LeadsTo x bottom (Midway x bottom c) outcome m := by
  obtain ⟨k', op, code', opAt, goes, length⟩ := call_of_lies ready code found native lies
  have target : k.address (start + op.length) = x.program.returnAddress c.current := by
    rw [length, place]
    exact (returnAddress_of_call code here at_ same g).symm
  unfold Configuration.enter at enters
  rw [if_pos enough] at enters
  subst enters
  have count : (c.operands.take g.argumentCount).reverse.length = g.argumentCount := by
    rw [List.length_reverse, List.length_take, Nat.min_eq_left enough]
  have words := spine_of_call x bottom c g.argumentCount
  refine leads_through (v := { c.view x bottom (k.address start) result with
    calls := c.active.map Activation.site }) ready opAt (goes.gives ready code' _ stops_overflow)
    ?_ ?_ shows_
  · exact midway_of_words (ready.interior_entry code') code'.enter rfl rfl
      [k.address (start + op.length)] rfl (Nat.le_refl 1) (List.suffix_refl _)
  · intro m' shows'
    rw [target] at shows'
    exact leads_enter ready code' bottom c.active c.world words count shows'

section

variable (here : Here x c f k instr after offset constant pieces)

include here

/-- Until its machine instruction that goes to the callee, a call is inside its own code. -/
theorem Here.interior_call (ready : x.program.Runnable)
    (split : pieces =
      (x.program.source c.current.function f).callPieces c.current.index callee g onObject)
    (behind : 0 < n) (inside : n ≤ codeLength (checkPieces g onObject) + 13) :
    x.program.Interior (k.address (offset + n)) := by
  refine ready.interior here.code here.at_ behind ?_
  rw [split, length_callPieces, length_callPiece]
  split <;> omega

theorem Here.leads_noted (setting : Setting x root bottom)
    (same : instr = if onObject then .callInstance callee else .call callee)
    (split : pieces =
      (x.program.source c.current.function f).callPieces c.current.index callee g onObject)
    (found : x.program.functions.get? callee = some g) (native : g.native? = none)
    (enough : g.argumentCount ≤ c.operands.length)
    (place : start = offset + codeLength (checkPieces g onObject))
    (shows_ : Shows x (c.view x bottom (k.address start) result) m) :
    LeadsTo x bottom (Midway x bottom c)
      (c.enter callee g.argumentCount (List.replicate g.locals.length 0)) m := by
  have ready := setting.ready
  have lies := here.at_.lies
  rw [split] at lies
  obtain ⟨_, lies⟩ := lies.append
  rw [← place] at lies
  obtain ⟨noted, lies⟩ := lies.done
  obtain ⟨_, op, _, opAt, goes, _⟩ := call_of_lies ready here.code found native lies
  have room := room_for_call setting.grounds shows_
  have entered : c.enter callee g.argumentCount (List.replicate g.locals.length 0) = .next _ :=
    if_pos enough
  have interior := here.interior_call ready split (n := codeLength (checkPieces g onObject) + 13)
    (by omega) (Nat.le_refl _)
  rw [← Nat.add_assoc, ← place] at interior
  refine leads_through (v := c.view x bottom (k.address start) result) ready noted
    (gives_pushFrame room ?_ ?_) ?_ ?_ shows_
  · intro _
    rw [entered]
    exact ⟨.inl rfl, rfl⟩
  · intro cramped address reason
    rw [entered]
    exact ⟨.inr ⟨cramped, address, reason, rfl⟩, rfl⟩
  · exact midway_of_words interior opAt goes.isLinkage rfl [] rfl (Nat.zero_le 1)
      (List.suffix_refl _)
  · intro m' shows'
    exact leads_call ready here.code here.flow.code here.at_ same found native enough
      (congrArg (· + 13) place) lies rfl shows'

end

/-- The object that a function is called on is the first argument, so it lies under all the
others. -/
theorem Here.object (here : Here x c f k (.callInstance callee) after offset constant pieces)
    (found : x.program.functions.get? callee = some g) (few : g.argumentCount - 1 < 65536)
    (enough : g.argumentCount ≤ c.operands.length) :
    ∃ w, c.operands[g.argumentCount - 1]? = some w ∧ ∀ bottom ip result,
      (c.view x bottom ip result).words[(UInt16.ofNat (g.argumentCount - 1)).toNat]? = some w := by
  have some_ : 0 < g.argumentCount := argumentCount_pos rfl here.flow found
  have there := List.getElem?_eq_getElem (l := c.operands) (i := g.argumentCount - 1) (by omega)
  refine ⟨_, there, fun bottom ip result => ?_⟩
  rw [UInt16.toNat_ofNat', Nat.mod_eq_of_lt few, view_eq]
  show (c.operands ++ c.low x bottom)[g.argumentCount - 1]? = _
  rw [List.getElem?_append_left (by omega), there]

theorem Here.leads_managed (here : Here x c f k instr after offset constant pieces)
    (setting : Setting x root bottom) (fits : c.current.Fits x.program.functions R f)
    (calls : instr.callee? = some callee) (found : x.program.functions.get? callee = some g)
    (native : g.native? = none)
    (shows_ : Shows x (c.view x bottom (k.address offset) result) m) :
    LeadsTo x bottom (Midway x bottom c)
      (Words.perform x.program.types x.program.functions f c instr) m := by
  have ready := setting.ready
  obtain ⟨onObject, same, few, split⟩ := lowered_call here.at_ calls found native
  obtain ⟨_, _, _, enough⟩ := operands_of_call fits here.flow calls found
  have enough : g.argumentCount ≤ c.operands.length := enough
  have performed : Words.perform x.program.types x.program.functions f c instr
      = if onObject = true ∧ c.operands[g.argumentCount - 1]? = some 0 then
          .stopped (.trap (.null .instanceCall)) c.world
        else c.enter callee g.argumentCount (List.replicate g.locals.length 0) := by
    have calling : Words.perform x.program.types x.program.functions f c instr
        = Words.call x.program.types x.program.functions c callee onObject := by
      rw [same]
      cases onObject <;> rfl
    rw [calling]
    unfold Words.call
    rw [found]
    dsimp only
    rw [native]
  rw [performed]
  cases onObject with
  | false =>
    rw [if_neg (by simp)]
    exact here.leads_noted setting same split found native enough rfl shows_
  | true =>
    have lies := here.at_.lies
    rw [split] at lies
    obtain ⟨check, lies⟩ := lies.append
    obtain ⟨noted, _⟩ := lies.done
    obtain ⟨opAt, _⟩ := check.done
    subst same
    obtain ⟨w, at_, there⟩ := here.object found (few rfl) enough
    by_cases null : w = 0
    · subst null
      rw [if_pos ⟨rfl, at_⟩]
      refine leads_last (v := c.view x bottom (k.address offset) result) ready opAt ?_ shows_
      rw [show (c.view x bottom (k.address offset) result).ip = k.address offset from rfl,
        k.address_add]
      refine Gives.bind (gives_peek (there _ _ _)) ?_
      rw [if_pos rfl]
      exact does_trap ⟨rfl, rfl⟩
    · rw [if_neg (by rw [at_]; simpa using null)]
      have passed : Gives x (c.view x bottom (k.address (offset + 3)) result)
          (execute (k.address (offset + 3))
            (.nullCheck (UInt16.ofNat (g.argumentCount - 1)))) ()
          (c.view x bottom (k.address (offset + 3)) result)
          ((c.enter callee g.argumentCount (List.replicate g.locals.length 0)).Stops x) := by
        refine Gives.bind (gives_peek (there _ _ _)) ?_
        rw [if_neg null]
        exact gives_pure ()
      refine leads_through (v := c.view x bottom (k.address offset) result) ready opAt passed ?_
        (fun m' shows' => here.leads_noted setting rfl split found native enough rfl shows')
        shows_
      exact midway_of_words (here.interior_call ready split (n := 3) (by decide)
        (Nat.le_add_right 3 13)) noted rfl rfl [] rfl (Nat.zero_le 1) (List.suffix_refl _)

/-! ## Returns -/

def Activation.without {V : Type} (a : Activation V) (arguments : Nat) : Activation V :=
  { a with operands := a.operands.drop arguments }

def Activation.resumed {V : Type} (a : Activation V) (arguments : Nat) (value : Option V) :
    Activation V :=
  { a with index := a.index + 1, operands := value.toList ++ a.operands.drop arguments }

/-- The words below the arguments that a caller pushed. -/
theorem drop_frame (enough : n ≤ a.operands.length) (saved : UInt64) (above : List UInt64) :
    (a.frame saved above).drop n = (a.without n).frame saved above := by
  rw [Activation.frame_eq, Activation.frame_eq, List.drop_append_of_le_length enough]
  rfl

theorem frame_resumed (a : Activation UInt64) (n : Nat) (value : Option UInt64) (saved : UInt64)
    (above : List UInt64) :
    (a.resumed n value).frame saved above
      = value.toList ++ (a.without n).frame saved above := by
  simp [Activation.frame_eq, Activation.resumed, Activation.without]

/-- What a machine shows that is back at a caller, whose arguments are gone. -/
def View.back (x : Fixed) (bottom : List UInt64) (a : Activation UInt64)
    (callers : List (Activation UInt64)) (arguments : Nat) (result : UInt64) (world : World) : View :=
  ⟨x.program.returnAddress a, baseOf x bottom (a :: callers), result,
    (a.without arguments).frame (baseOf x bottom callers) (spine x bottom callers),
    (a :: callers).map Activation.site, world⟩

variable {callers : List (Activation UInt64)} {world : World}

theorem view_resumed (value : Option UInt64) :
    Configuration.view x bottom ⟨a.resumed n value, callers, world⟩ ip result
      = ⟨ip, baseOf x bottom (a :: callers), result,
        value.toList ++ (a.without n).frame (baseOf x bottom callers) (spine x bottom callers),
        callers.map Activation.site, world⟩ := by
  rw [← frame_resumed]
  rfl

/-- What stands behind the call of a function: the note of the call is dropped, and the result
pushed if there is one. -/
structure Program.Awaits (p : Program) (a : Activation UInt64) (g : Function) : Prop where
  enough : g.argumentCount ≤ a.operands.length
  interior : p.Interior (p.returnAddress a)
  dropped : p.OpAt (p.returnAddress a) .popFrame
  next : if g.definition.returnType = .void then
      p.addressOf? a.function (a.index + 1) = some (p.returnAddress a + 1)
    else p.OpAt (p.returnAddress a + 1) .pushResult ∧ p.Interior (p.returnAddress a + 1) ∧
      p.addressOf? a.function (a.index + 1) = some (p.returnAddress a + 1 + 1)

theorem awaits_of_fits (ready : p.Runnable) (fits : a.Fits p.functions R f)
    (here : f.code[a.index]? = some instr) (calls : instr.callee? = some callee)
    (found : p.functions.get? callee = some g) (native : g.native? = none) : p.Awaits a g := by
  obtain ⟨k, code⟩ := ready.code fits.found fits.body
  obtain ⟨instr', after, flow⟩ := ready.flows code fits.reachable
  cases here.symm.trans flow.code
  obtain ⟨_, _, _, enough⟩ := operands_of_call fits flow calls found
  obtain ⟨offset, constant, pieces, at_⟩ := code.at_ _ _ here fits.reachable
  obtain ⟨back, behind, target, dropped, rest⟩ := code_behind_call code here at_ calls found native
  have next := at_.address_next code (flow.next (Instr.endsBlock_of_callee? calls)).1
  have one : k.address (offset + back) + 1 = k.address (offset + (back + 1)) := k.address_add _ 1
  have two : k.address (offset + (back + 1)) + 1 = k.address (offset + (back + 2)) :=
    k.address_add _ 1
  refine ⟨enough, ?_, target ▸ dropped, ?_⟩
  · rw [target]
    exact ready.interior code at_ behind (by split at rest <;> omega)
  · rw [target, one, two]
    split at rest
    · rename_i void
      rw [if_pos void, next, rest]
    · rename_i some_
      rw [if_neg some_, next, rest.2]
      exact ⟨rest.1, ready.interior code at_ (by omega) (by omega), rfl⟩

theorem gives_pushResult {v : View} {next : UInt64} {E : Stop → World → Prop}
    (overflow : ∀ address, E (.trap (.stackExhausted address)) v.world) :
    Gives x v (execute next .pushResult) () { v with words := v.result :: v.words } E :=
  gives_registersOf.bind (gives_push overflow)

theorem leads_resume (ready : x.program.Runnable) (awaits : x.program.Awaits a g)
    (returns : value = if g.definition.returnType = .void then none else some result)
    (inside : ∀ u : View, x.program.Interior u.ip → (∃ op, x.program.OpAt u.ip op ∧ op.isLinkage = true) → u.words = (View.back x bottom a callers g.argumentCount result world).words → u.world = world → inner u)
    (shows_ : Shows x (.back x bottom a callers g.argumentCount result world) m) :
    LeadsTo x bottom inner (.next ⟨a.resumed g.argumentCount value, callers, world⟩) m := by
  have next := awaits.next
  by_cases void : g.definition.returnType = .void
  · rw [if_pos void] at next returns
    subst returns
    refine leads_last (v := .back x bottom a callers g.argumentCount result world) ready
      awaits.dropped ((gives_popFrame rfl).does ?_) shows_
    exact ⟨_, result, next, (view_resumed none).symm⟩
  · rw [if_neg void] at next returns
    subst returns
    refine leads_more (v := .back x bottom a callers g.argumentCount result world) ready
      awaits.dropped (gives_popFrame rfl) (inside _ next.2.1 ⟨_, next.1, rfl⟩ rfl rfl)
      (fun m' shows' => ?_) shows_
    refine leads_last (v := { View.back x bottom a callers g.argumentCount result world with
      ip := x.program.returnAddress a + 1
      calls := callers.map Activation.site }) ready next.1
      ((gives_pushResult stops_overflow).does ?_) shows'
    exact ⟨_, result, next.2.2, (view_resumed (some result)).symm⟩

/-- A function that has dropped its frame goes back to its caller. -/
theorem leads_back (ready : x.program.Runnable) (code : x.program.Code callee f k)
    (awaits : x.program.Awaits a f)
    (returns : value = if f.definition.returnType = .void then none else some result)
    (goes : x.program.OpAt (k.address offset) (.ret (UInt16.ofNat f.argumentCount)))
    (above : a.frame (baseOf x bottom callers) (spine x bottom callers) <:+ c.words x bottom)
    (same : world = c.world)
    (shows_ : Shows x (.linking x bottom (a :: callers) (k.address offset) result world) m) :
    LeadsTo x bottom (Midway x bottom c)
      (.next ⟨a.resumed f.argumentCount value, callers, world⟩) m := by
  have enough := awaits.enough
  have below := (List.drop_suffix f.argumentCount _).trans above
  have long : f.argumentCount
      ≤ (a.frame (baseOf x bottom callers) (spine x bottom callers)).length := by
    rw [Activation.frame_eq, List.length_append]
    omega
  refine leads_more (v := .linking x bottom (a :: callers) (k.address offset) result world) ready
    goes (gives_ret code.arguments rfl long) ?_ ?_ shows_
  · exact midway_of_words awaits.interior awaits.dropped rfl same [] rfl (Nat.zero_le 1) below
  · intro m' shows'
    rw [drop_frame enough] at shows' below
    exact leads_resume ready awaits returns (fun u interior linkage words world =>
      ⟨interior, linkage, ⟨[], u.words, rfl, Nat.zero_le 1, words ▸ below⟩, world.trans same⟩) shows'

section

variable (here : Here x c f k .ret after offset constant pieces)

include here

/-- A return whose result is in its register. -/
theorem Here.leads_unwind (setting : Setting x root bottom)
    (fits : c.Fits x.program.functions R root)
    (returns : value = if f.definition.returnType = .void then none else some result)
    (place : start = offset + codeLength pieces - 4) (behind : offset ≤ start)
    (long : 4 ≤ codeLength pieces) (drops : x.program.OpAt (k.address start) .leave)
    (goes : x.program.OpAt (k.address (start + 1)) (.ret (UInt16.ofNat f.argumentCount)))
    {operands : List UInt64}
    (shows_ : Shows x (c.showing x bottom (k.address start) result operands) m) :
    LeadsTo x bottom (Midway x bottom c) (c.leave f.argumentCount value) m := by
  have ready := setting.ready
  have base : (c.showing x bottom (k.address start) result operands).bp
      = x.place ((spine x bottom c.callers).length + 1) := showing_base operands
  have above : spine x bottom c.callers <:+ c.words x bottom :=
    ⟨c.current.slots.reverse ++ [baseOf x bottom c.callers], by
      rw [List.append_assoc]
      rfl⟩
  refine leads_through (v := c.showing x bottom (k.address start) result operands) ready drops
    (gives_leave (showing_words operands) base) ?_ ?_ shows_
  · refine midway_of_words ?_ goes rfl rfl [] rfl (Nat.zero_le 1) above
    rw [show start + Op.leave.length = offset + (codeLength pieces - 3) by
      show start + 1 = _
      omega]
    exact ready.interior here.code here.at_ (by omega) (by omega)
  · intro m' shows'
    have few := here.code.arguments
    have suspended := fits.callers
    obtain ⟨current, callers, world⟩ := c
    cases callers with
    | nil =>
      have outermost : current.function = root := suspended
      obtain ⟨g, rest, found, under, enough⟩ := setting.entered
      rw [← outermost] at found
      cases here.code.found.symm.trans found
      refine leads_to (v := ⟨k.address (start + 1), 0, result, bottom, [], world⟩) ready goes
        (gives_ret few under enough) ?_ shows'
      refine ⟨rfl, fun w same => ?_, rfl⟩
      rw [same] at returns
      split at returns
      · cases returns
      · cases returns
        rfl
    | cons a callers =>
      obtain ⟨⟨g, instr, fits', code, calls⟩, _⟩ := suspended
      have awaits := awaits_of_fits ready fits' code calls here.code.found
        (Function.native?_of_hasBody here.code.body)
      exact leads_back ready here.code awaits returns goes ((List.suffix_cons _ _).trans above) rfl
        shows'

/-- The code of a return pops the result while the frame still stands, if there is one. -/
theorem Here.code_of_ret (current : c.current.Fits x.program.functions R f) :
    let Drops := fun start => x.program.OpAt (k.address start) .leave ∧
      x.program.OpAt (k.address (start + 1)) (.ret (UInt16.ofNat f.argumentCount))
    if f.definition.returnType = .void then codeLength pieces = 4 ∧ Drops offset
    else codeLength pieces = 5 ∧ x.program.OpAt (k.address offset) .popResult ∧
      Drops (offset + 1) ∧ ∃ w rest, c.operands = w :: rest := by
  have lowered := here.at_.lowered
  have lies := here.at_.lies
  unfold Source.lower at lowered
  dsimp only at lowered
  split
  · rename_i void
    rw [if_pos (show (x.program.source c.current.function f).function.definition.returnType = .void
      from void)] at lowered
    cases lowered
    obtain ⟨drops, lies⟩ := lies.done
    exact ⟨rfl, drops, lies.done.1⟩
  · rename_i some_
    rw [if_neg (show ¬ (x.program.source c.current.function f).function.definition.returnType = .void
      from some_)] at lowered
    cases lowered
    obtain ⟨w, rest, top, _⟩ := current.returned here.flow some_
    obtain ⟨pops, lies⟩ := lies.done
    obtain ⟨drops, lies⟩ := lies.done
    exact ⟨rfl, pops, ⟨drops, lies.done.1⟩, w, rest, top⟩

theorem Here.leads_return (setting : Setting x root bottom)
    (fits : c.Fits x.program.functions R root)
    (shows_ : Shows x (c.view x bottom (k.address offset) result) m) :
    LeadsTo x bottom (Midway x bottom c) (Words.ret f c) m := by
  have ready := setting.ready
  obtain ⟨f', current⟩ := fits.current
  cases here.code.found.symm.trans current.found
  have code := here.code_of_ret current
  unfold Words.ret
  rw [view_eq] at shows_
  by_cases void : f.definition.returnType = .void
  · rw [if_pos void] at code
    obtain ⟨length, drops, goes⟩ := code
    rw [if_pos void]
    exact here.leads_unwind setting fits (if_pos void).symm (by omega) (Nat.le_refl _) (by omega)
      drops goes shows_
  · rw [if_neg void] at code
    obtain ⟨length, pops, ⟨drops, goes⟩, w, rest, top⟩ := code
    rw [if_neg void, pop1_eq top]
    rw [top] at shows_
    have popped : Gives x (c.showing x bottom (k.address (offset + 1)) result (w :: rest))
        (execute (k.address (offset + 1)) .popResult) ()
        (c.showing x bottom (k.address (offset + 1)) w rest)
        ((c.leave f.argumentCount (some w)).Stops x) :=
      (gives_pop rfl).bind (gives_setResult w)
    refine leads_through (v := c.showing x bottom (k.address offset) result (w :: rest)) ready pops
      popped ?_ ?_ shows_
    · refine midway_of_words (ready.interior here.code here.at_ (k := 1) (by decide) (by omega))
        drops rfl rfl [] rfl (Nat.zero_le 1) ?_
      have words : c.words x bottom = w :: (rest ++ c.low x bottom) := by
        have view : (c.view x bottom 0 result).words
            = (c.showing x bottom 0 result c.operands).words := congrArg View.words view_eq
        rw [top] at view
        exact view
      rw [words]
      exact List.suffix_cons _ _
    · intro m' shows'
      exact here.leads_unwind setting fits (if_neg void).symm (by omega) (Nat.le_succ _) (by omega)
        drops goes shows'

end

end Calls

end ManagedCode

import ManagedCode.Proofs.Machine.Congruence
import ManagedCode.Proofs.Requests
import ManagedCode.Proofs.TypeNames

/-!
# The functions of a program

A virtual machine finds functions by handles and by signatures, and it knows the main function. The
signatures were written down when the functions were declared, while types are still being added.
Whatever is asked of the machine, the three stay in step.

* `Registry`: the part of a virtual machine that holds the program. A run does not change it.
* `Registry.Leads`: how requests change it, and which functions they declare.
* `Registry.Indexed`: signatures and the main function belong to the functions declared.
* `Registry.Extends`: what stays for good.
* `Vm.registry_consistent`: every sequence of requests.
-/

namespace ManagedCode

open Bytecode
open Machine (Stop)
open TypeSystem (TypeId TypeTable)

/-! ## Definitions and functions -/

variable {g : Function}

namespace Bytecode

namespace Definition

variable {d : Definition}

def types (d : Definition) : List TypeId := d.parameters ++ [d.returnType] ++ d.owner.toList

/-- Whether a definition is that of a free function called main. -/
def IsMain (d : Definition) : Prop := d.name = "main" ∧ d.owner = none

theorem isMain_iff : Vm.isMain d = true ↔ d.IsMain := by
  unfold Vm.isMain isMember IsMain
  simp

/-- A signature depends on nothing but the names of the types in it. -/
theorem signature_congr {t u : TypeTable} (same : ∀ id ∈ d.types, u.name id = t.name id) :
    d.signature u = d.signature t := by
  have parameters : d.parameters.map u.name = d.parameters.map t.name :=
    List.map_congr_left fun id mem => same id (by simp [types, mem])
  have owner : ∀ id, d.owner = some id → u.name id = t.name id :=
    fun id owned => same id (by simp [types, owned])
  unfold signature
  rw [parameters]
  cases owned : d.owner with
  | none => rfl
  | some id =>
    dsimp only
    rw [owner id owned]

theorem signature_of_isMain (main : d.IsMain) (none : d.parameters = []) (types : TypeTable) :
    d.signature types = "main()" := by
  unfold signature
  rw [main.1, main.2, none]
  rfl

end Definition

/-- What a function can become: a routine of the runtime and a body stay, though a body may be
checked again. -/
structure Function.Becomes (f g : Function) : Prop where
  definition : g.definition = f.definition
  native : ∀ routine, g.implementation = .native routine ↔ f.implementation = .native routine
  body : ∀ b snapshots, f.implementation = .body b snapshots →
    ∃ snapshots', g.implementation = .body b snapshots'

namespace Function

theorem Becomes.refl (f : Function) : f.Becomes f :=
  ⟨rfl, fun _ => Iff.rfl, fun _ snapshots same => ⟨snapshots, same⟩⟩

theorem Becomes.trans {f h : Function} (first : f.Becomes g) (second : g.Becomes h) :
    f.Becomes h := by
  refine ⟨second.definition.trans first.definition,
    fun routine => (second.native routine).trans (first.native routine), fun b snapshots has => ?_⟩
  obtain ⟨snapshots', has'⟩ := first.body b snapshots has
  exact second.body b snapshots' has'

theorem becomes_withBody {f : Function} (missing : f.implementation = .missing) (body : Body) :
    f.Becomes (f.withBody body) := by
  refine ⟨rfl, fun routine => ?_, fun b snapshots has => ?_⟩
  · rw [missing]
    constructor <;> intro same <;> cases same
  · cases missing.symm.trans has

theorem becomes_withSnapshots (f : Function) (snapshots : Snapshots) :
    f.Becomes (f.withSnapshots snapshots) := by
  refine ⟨f.definition_withSnapshots snapshots, fun routine => ?_, fun b old has => ?_⟩
  · rw [implementation_withSnapshots]
    cases f.implementation <;> simp
  · rw [implementation_withSnapshots, has]
    exact ⟨snapshots, rfl⟩

end Function

end Bytecode

/-! ## Registries -/

/-- The part of a virtual machine that holds the program. -/
structure Registry where
  types : TypeTable
  functions : FunctionTable
  signatures : Std.HashMap String FunctionId
  main : Option FunctionId
  loaded : Bool

def Vm.registry (vm : Vm) : Registry :=
  ⟨vm.types, vm.functions, vm.signatures, vm.main, vm.loaded⟩

namespace Registry

/-- The functions and their definitions, in the order in which they were declared. -/
def declared (r : Registry) : List (FunctionId × Definition) :=
  r.functions.toList.map fun entry => (entry.1, entry.2.definition)

def definitions (r : Registry) : List Definition := r.declared.map Prod.snd

/-- Whether a function with this definition can be entered. -/
structure Admits (r : Registry) (d : Definition) : Prop where
  known : ∀ id ∈ d.types, r.types.Issued id
  unused : r.signatures[d.signature r.types]? = none
  main : d.IsMain → d.parameters = [] ∧ d.returnType = .int

def enter (r : Registry) (f : Function) : Registry :=
  { r with
    functions := (r.functions.insert f).2
    signatures := r.signatures.insert (f.signature r.types) (r.functions.insert f).1
    main := if Vm.isMain f.definition then some (r.functions.insert f).1 else r.main }

/-- How a registry changes, and the functions that are declared on the way. -/
inductive Leads : Registry → List Definition → Registry → Prop where
  | refl (r : Registry) : Leads r [] r
  | trans {r s u : Registry} {first second : List Definition} (here : Leads r first s)
      (there : Leads s second u) : Leads r (first ++ second) u
  | type (r : Registry) (command : TypeTable.Command) :
      Leads r [] { r with types := command.run r.types }
  | declare {r : Registry} {d : Definition} (admits : r.Admits d) :
      Leads r [d] (r.enter (.declared d))
  | define {r : Registry} {id : FunctionId} {f : Function} (found : r.functions.get? id = some f)
      (missing : f.implementation = .missing) (body : Body) :
      Leads r [] { r with functions := r.functions.set id (f.withBody body) }
  | check {r : Registry} {id : FunctionId} {f : Function} (found : r.functions.get? id = some f)
      (snapshots : Snapshots) :
      Leads r [] { r with functions := r.functions.set id (f.withSnapshots snapshots) }
  | load (r : Registry) : Leads r [] { r with loaded := true }

/-- Signatures and the main function belong to the functions that are declared, and no function is
ever removed. The types of a definition are known, so that its signature stays as it is. -/
structure Indexed (r : Registry) : Prop where
  full : r.functions.free = []
  distinct : (r.definitions.map fun d => d.signature r.types).Nodup
  found : ∀ s id, r.signatures[s]? = some id ↔
    ∃ d, (id, d) ∈ r.declared ∧ d.signature r.types = s
  main : ∀ id, r.main = some id ↔ ∃ d, (id, d) ∈ r.declared ∧ d.IsMain
  shaped : ∀ d ∈ r.definitions, d.IsMain → d.parameters = [] ∧ d.returnType = .int
  known : ∀ d ∈ r.definitions, ∀ id ∈ d.types, r.types.Issued id

/-- What stays of a registry for good. -/
structure Extends (r u : Registry) : Prop where
  names : ∀ id, r.types.Issued id → u.types.Issued id ∧ u.types.name id = r.types.name id
  functions : ∀ id f, r.functions.get? id = some f →
    ∃ g, u.functions.get? id = some g ∧ f.Becomes g
  signatures : ∀ (s : String) id, r.signatures[s]? = some id → u.signatures[s]? = some id
  main : ∀ id, r.main = some id → u.main = some id
  loaded : r.loaded = true → u.loaded = true

section Steps

variable {r u : Registry} {d : Definition} {id : FunctionId}
variable {f : Function} {P : Definition → Prop}

theorem mem_definitions : d ∈ r.definitions ↔ ∃ id, (id, d) ∈ r.declared := by
  unfold definitions
  simp

theorem mem_declared :
    (id, d) ∈ r.declared ↔ ∃ f, (id, f) ∈ r.functions.toList ∧ f.definition = d := by
  unfold declared
  simp

theorem exists_declared :
    (∃ d, (id, d) ∈ r.declared ∧ P d) ↔ ∃ f, (id, f) ∈ r.functions.toList ∧ P f.definition := by
  constructor
  · rintro ⟨d, mem, holds⟩
    obtain ⟨f, listed, rfl⟩ := mem_declared.mp mem
    exact ⟨f, listed, holds⟩
  · rintro ⟨f, mem, holds⟩
    exact ⟨f.definition, mem_declared.mpr ⟨f, mem, rfl⟩, holds⟩

/-- A function that is replaced keeps its place if it keeps its definition. -/
theorem declared_set (found : r.functions.get? id = some f) (same : g.definition = f.definition) :
    { r with functions := r.functions.set id g }.declared = r.declared :=
  SlotTable.map_toList_set Function.definition found same

theorem declared_enter (full : r.functions.free = []) (f : Function) :
    (r.enter f).declared = r.declared ++ [((r.functions.insert f).1, f.definition)] := by
  unfold declared enter
  dsimp only
  rw [SlotTable.toList_insert full, List.map_append]
  rfl

theorem definitions_enter (full : r.functions.free = []) (f : Function) :
    (r.enter f).definitions = r.definitions ++ [f.definition] := by
  unfold definitions
  rw [declared_enter full, List.map_append]
  rfl

/-- Nothing that is declared has an unused signature. -/
theorem Indexed.signature_ne (indexed : r.Indexed) {s : String} (unused : r.signatures[s]? = none)
    (mem : (id, d) ∈ r.declared) : d.signature r.types ≠ s := by
  intro same
  cases unused.symm.trans ((indexed.found s id).mpr ⟨d, mem, same⟩)

/-- There is no main function where one is admitted: it would have the same signature. -/
theorem Indexed.not_isMain (indexed : r.Indexed) (admits : r.Admits d) (main : d.IsMain)
    {d' : Definition} (mem : (id, d') ∈ r.declared) : ¬ d'.IsMain := by
  intro main'
  refine indexed.signature_ne admits.unused mem ?_
  have shaped := indexed.shaped d' (mem_definitions.mpr ⟨id, mem⟩) main'
  rw [Definition.signature_of_isMain main (admits.main main).1,
    Definition.signature_of_isMain main' shaped.1]

/-- What holds of the function that is entered and of no other one. -/
theorem exists_entered (full : r.functions.free = []) (holds : P f.definition)
    (alone : ∀ id d, (id, d) ∈ r.declared → ¬ P d) :
    some (r.functions.insert f).1 = some id ↔ ∃ d, (id, d) ∈ (r.enter f).declared ∧ P d := by
  rw [declared_enter full]
  constructor
  · intro same
    cases same
    exact ⟨f.definition, List.mem_append_right _ List.mem_cons_self, holds⟩
  · rintro ⟨d, mem, holds⟩
    rcases List.mem_append.mp mem with old | new
    · exact absurd holds (alone id d old)
    · cases List.mem_singleton.mp new
      rfl

theorem exists_entered_of_not (full : r.functions.free = []) (fails : ¬ P f.definition) :
    (∃ d, (id, d) ∈ r.declared ∧ P d) ↔ ∃ d, (id, d) ∈ (r.enter f).declared ∧ P d := by
  rw [declared_enter full]
  refine exists_congr fun d => and_congr_left fun holds => ⟨List.mem_append_left _, fun mem => ?_⟩
  refine (List.mem_append.mp mem).resolve_right fun new => ?_
  cases List.mem_singleton.mp new
  exact fails holds

theorem Indexed.enter (indexed : r.Indexed) (admits : r.Admits f.definition) :
    (r.enter f).Indexed := by
  have all := definitions_enter indexed.full f
  refine ⟨SlotTable.free_insert indexed.full f, ?_, fun s id => ?_, fun id => ?_, fun d => ?_,
    fun d => ?_⟩
  · rw [all, List.map_append, List.nodup_append]
    refine ⟨indexed.distinct, List.nodup_singleton _, ?_⟩
    rintro s old _ last rfl
    cases List.mem_singleton.mp last
    obtain ⟨d, mem, same⟩ := List.mem_map.mp old
    obtain ⟨id, mem⟩ := mem_definitions.mp mem
    exact indexed.signature_ne admits.unused mem same
  · show (r.signatures.insert (f.signature r.types) _)[s]? = some id ↔ _
    rw [Std.HashMap.getElem?_insert]
    by_cases same : f.signature r.types = s
    · subst same
      rw [if_pos (by simp)]
      exact exists_entered indexed.full rfl fun id d => indexed.signature_ne admits.unused
    · rw [if_neg (by simpa using same), indexed.found s id]
      exact exists_entered_of_not indexed.full same
  · show (if Vm.isMain f.definition then _ else r.main) = some id ↔ _
    by_cases main : f.definition.IsMain
    · rw [if_pos (Definition.isMain_iff.mpr main)]
      exact exists_entered indexed.full main fun id d => indexed.not_isMain admits main
    · rw [if_neg (fun is => main (Definition.isMain_iff.mp is)), indexed.main id]
      exact exists_entered_of_not indexed.full main
  · rw [all, List.mem_append, List.mem_singleton]
    rintro (old | rfl)
    · exact indexed.shaped d old
    · exact admits.main
  · rw [all, List.mem_append, List.mem_singleton]
    rintro (old | rfl)
    · exact indexed.known d old
    · exact admits.known

/-- A change that declares nothing and keeps the names of the types. -/
theorem Indexed.carry (indexed : r.Indexed) (declared : u.declared = r.declared)
    (signatures : u.signatures = r.signatures) (main : u.main = r.main)
    (full : u.functions.free = [])
    (names : ∀ id, r.types.Issued id → u.types.Issued id ∧ u.types.name id = r.types.name id) :
    u.Indexed := by
  have definitions : u.definitions = r.definitions := congrArg (List.map Prod.snd) declared
  have signature : ∀ d ∈ r.definitions, d.signature u.types = d.signature r.types := fun d mem =>
    Definition.signature_congr fun id named => (names id (indexed.known d mem id named)).2
  refine ⟨full, ?_, fun s id => ?_, fun id => ?_, fun d => ?_, fun d => ?_⟩
  · rw [definitions, List.map_congr_left signature]
    exact indexed.distinct
  · rw [signatures, declared, indexed.found s id]
    refine exists_congr fun d => and_congr_right fun mem => ?_
    rw [signature d (mem_definitions.mpr ⟨id, mem⟩)]
  · rw [main, declared, indexed.main id]
  · rw [definitions]
    exact indexed.shaped d
  · rw [definitions]
    exact fun mem id named => (names id (indexed.known d mem id named)).1

theorem Extends.refl (r : Registry) : r.Extends r :=
  ⟨fun _ issued => ⟨issued, rfl⟩, fun _ f found => ⟨f, found, .refl f⟩, fun _ _ found => found,
    fun _ main => main, fun loaded => loaded⟩

theorem Extends.trans {s : Registry} (first : r.Extends s) (second : s.Extends u) :
    r.Extends u := by
  refine ⟨fun id issued => ?_, fun id f found => ?_,
    fun t id found => second.signatures t id (first.signatures t id found),
    fun id main => second.main id (first.main id main),
    fun loaded => second.loaded (first.loaded loaded)⟩
  · obtain ⟨issued', same⟩ := first.names id issued
    obtain ⟨issued'', same'⟩ := second.names id issued'
    exact ⟨issued'', same'.trans same⟩
  · obtain ⟨g, found', becomes⟩ := first.functions id f found
    obtain ⟨h, found'', becomes'⟩ := second.functions id g found'
    exact ⟨h, found'', becomes.trans becomes'⟩

theorem Indexed.extends_enter (indexed : r.Indexed) (admits : r.Admits f.definition) :
    r.Extends (r.enter f) := by
  refine ⟨fun _ issued => ⟨issued, rfl⟩, fun id g found => ?_, fun s id found => ?_,
    fun id main => ?_, fun loaded => loaded⟩
  · exact ⟨g, SlotTable.get?_insert_of_some indexed.full found, .refl g⟩
  · show (r.signatures.insert _ _)[s]? = some id
    rw [Std.HashMap.getElem?_insert, if_neg]
    · exact found
    · intro same
      cases (eq_of_beq same ▸ admits.unused : r.signatures[s]? = none).symm.trans found
  · show (if Vm.isMain f.definition then _ else r.main) = some id
    rw [if_neg]
    · exact main
    · intro is
      obtain ⟨d, mem, main'⟩ := (indexed.main id).mp main
      exact indexed.not_isMain admits (Definition.isMain_iff.mp is) mem main'

/-- A function is replaced by what it can become. -/
theorem Indexed.set (indexed : r.Indexed) (found : r.functions.get? id = some f)
    (becomes : f.Becomes g) : { r with functions := r.functions.set id g }.Indexed ∧
      r.Extends { r with functions := r.functions.set id g } ∧
      { r with functions := r.functions.set id g }.definitions = r.definitions ++ [] := by
  have same := declared_set found becomes.definition
  have full := (SlotTable.free_set id g).trans indexed.full
  refine ⟨indexed.carry same rfl rfl full fun _ issued => ⟨issued, rfl⟩,
    { Extends.refl r with functions := fun other h found' => ?_ }, ?_⟩
  · rw [SlotTable.get?_set]
    split
    · rename_i here
      obtain ⟨rfl, _⟩ := here
      cases found.symm.trans found'
      exact ⟨g, rfl, becomes⟩
    · exact ⟨h, found', .refl h⟩
  · exact (congrArg (List.map Prod.snd) same).trans (List.append_nil _).symm

/-- What every change keeps. -/
theorem Leads.keeps {declared : List Definition} (leads : Leads r declared u)
    (indexed : r.Indexed) :
    u.Indexed ∧ r.Extends u ∧ u.definitions = r.definitions ++ declared := by
  induction leads with
  | refl r => exact ⟨indexed, .refl r, (List.append_nil _).symm⟩
  | trans _ _ first second =>
    obtain ⟨indexed', extends_, longer⟩ := first indexed
    obtain ⟨indexed'', extends', longer'⟩ := second indexed'
    exact ⟨indexed'', extends_.trans extends', by rw [longer', longer, List.append_assoc]⟩
  | type r command =>
    -- Known types keep their names, and a signature has no other parts that could change.
    have names (id : TypeId) (issued : r.types.Issued id) :=
      TypeTable.persists_after issued [command]
    have kept (id : TypeId) (issued : r.types.Issued id) :
        (command.run r.types).Issued id ∧ (command.run r.types).name id = r.types.name id :=
      ⟨(names id issued).issued, (names id issued).name⟩
    exact ⟨indexed.carry rfl rfl rfl indexed.full kept, { Extends.refl r with names := kept },
      (List.append_nil _).symm⟩
  | declare admits =>
    exact ⟨indexed.enter admits, indexed.extends_enter admits, definitions_enter indexed.full _⟩
  | define found missing body => exact indexed.set found (Function.becomes_withBody missing body)
  | check found snapshots => exact indexed.set found (Function.becomes_withSnapshots _ snapshots)
  | load r =>
    exact ⟨indexed.carry rfl rfl rfl indexed.full fun _ issued => ⟨issued, rfl⟩,
      { Extends.refl r with loaded := fun _ => rfl }, (List.append_nil _).symm⟩

end Steps

end Registry

/-! ## Declaring, defining and loading -/

namespace Vm

variable {vm vm' : Vm}

theorem admits_of_checkDefinition {d : Definition} (passed : vm.checkDefinition d = .ok ()) :
    vm.registry.Admits d := by
  obtain ⟨_, resolved, rest⟩ := except_bind_eq_ok_iff.mp passed
  have known := TypeTable.resolveAll_eq_ok_iff.mp (mapError_eq_ok_iff.mp resolved)
  dsimp only at rest
  split at rest
  · cases rest
  · rename_i unused
    split at rest
    · cases rest
    · rename_i shaped
      refine ⟨known, ?_, fun main => ?_⟩
      · show vm.signatures[d.signature vm.types]? = none
        exact Std.HashMap.getElem?_eq_none (by simpa using unused)
      · rw [Definition.isMain_iff.mpr main] at shaped
        simpa using shaped

theorem leads_register {d : Definition} (passed : vm.checkDefinition d = .ok ()) :
    Registry.Leads vm.registry [d] (leaves (register d vm)).registry :=
  .declare (admits_of_checkDefinition passed)

def Settles (vm vm' : Vm) : Prop := Registry.Leads vm.registry [] vm'.registry

theorem Settles.refl (vm : Vm) : Settles vm vm := Registry.Leads.refl _

theorem Settles.trans {vm'' : Vm} (first : Settles vm vm') (second : Settles vm' vm'') :
    Settles vm vm'' := Registry.Leads.trans first second

theorem settles_of_eq (same : vm'.registry = vm.registry) : Settles vm vm' := by
  unfold Settles
  rw [same]
  exact .refl _

theorem settles_define (id : FunctionId) (body : Body) (vm : Vm) :
    Settles vm (leaves (define id body vm)) := by
  rcases define_cases id body vm with ⟨e, refused⟩ | ⟨f, _, found, missing, defined⟩
  · rw [refused]
    exact .refl vm
  · rw [defined]
    exact Registry.Leads.define found missing body

theorem settles_verifyOne (id : FunctionId) (vm : Vm) : Settles vm (leaves (verifyOne id vm)) := by
  rcases verifyOne_cases id vm with ⟨_, run⟩ | ⟨_, e, _, _, run⟩ | ⟨f, snapshots, found, _, run⟩
  · rw [run]
    exact .refl vm
  · rw [run]
    exact .refl vm
  · rw [run]
    exact Registry.Leads.check found snapshots

variable {α : Type}

theorem settles_onImage
    (act : TypeTable → FunctionTable → EStateM Compile.CompileError Compile.Image α) (vm : Vm) :
    Settles vm (leaves (onImage act vm)) := by
  rw [leaves_onImage]
  exact settles_of_eq rfl

theorem settles_forM {f : α → EStateM VmError Vm PUnit}
    (each : ∀ a vm, Settles vm (leaves (f a vm))) (l : List α) (vm : Vm) :
    Settles vm (leaves (l.forM f vm)) := by
  induction l generalizing vm with
  | nil => exact .refl vm
  | cons a rest ih =>
    exact leaves_bind (R := Settles) Settles.trans (each a vm) fun _ later _ => ih later

theorem settles_load (vm : Vm) : Settles vm (leaves (load vm)) := by
  cases loaded : vm.loaded with
  | true =>
    rw [load_refused loaded]
    exact .refl vm
  | false =>
    rw [load_eq loaded]
    refine leaves_bind (R := Settles) Settles.trans (settles_of_eq ?_) fun _ _ _ => ?_
    · rw [leaves_ofExcept]
    refine leaves_bind (R := Settles) Settles.trans (settles_forM settles_verifyOne _ _)
      fun _ _ _ => ?_
    refine leaves_bind (R := Settles) Settles.trans
      (settles_forM (fun id => settles_onImage _) _ _) fun _ _ _ => ?_
    refine leaves_bind (R := Settles) Settles.trans (settles_onImage _ _) fun _ _ _ => ?_
    refine leaves_bind (R := Settles) Settles.trans (settles_onImage _ _) fun _ last _ => ?_
    exact Registry.Leads.load last.registry

/-- What no run changes includes the program. -/
theorem settles_of_lasting (same : vm'.lasting = vm.lasting) : Settles vm vm' :=
  settles_of_eq (congrArg (fun kept : Fixed × Std.HashMap String FunctionId × Option FunctionId =>
    (⟨kept.1.program.types, kept.1.program.functions, kept.2.1, kept.2.2, kept.1.loaded⟩ :
      Registry)) same)

/-! ## Histories -/

/-- The definitions that a request declares. A function that is added is declared first. -/
def Request.declares (vm : Vm) : Request → List Definition
  | .declare d | .add d _ =>
    match Vm.declare d vm with
    | .ok .. => [d]
    | .error .. => []
  | _ => []

/-- The definitions that requests declare, one after the other. -/
def declarations (vm : Vm) : List Request → List Definition
  | [] => []
  | request :: rest => request.declares vm ++ declarations (leaves (request.perform vm)) rest

/-- The requests that change the program, those for types apart. -/
def Request.assembles : Request → Bool
  | .declare _ | .define .. | .add .. | .load => true
  | _ => false

theorem Request.leaves_type (command : TypeTable.Command) (vm : Vm) :
    leaves (perform (.type command) vm) = { vm with types := command.run vm.types } := by
  rw [perform, leaves_map, leaves_adaptExcept, ← command.leaves_perform]
  unfold onTypes
  cases command.perform vm.types <;> rfl

theorem Request.leads (request : Request) (vm : Vm) :
    Registry.Leads vm.registry (request.declares vm) (leaves (request.perform vm)).registry := by
  cases request with
  | type command =>
    rw [leaves_type]
    exact .type _ command
  | declare d =>
    rw [perform, leaves_map, declares]
    rcases declare_cases d vm with ⟨e, refused⟩ | ⟨_, passed, registered⟩
    · rw [refused]
      exact .refl _
    · rw [registered]
      exact leads_register passed
  | define id body =>
    rw [perform, leaves_map]
    exact settles_define id body vm
  | add d body =>
    rw [perform, leaves_map, declares, Vm.add]
    rcases declare_cases d vm with ⟨e, refused⟩ | ⟨_, passed, registered⟩
    · rw [bind_of_error refused, refused]
      exact .refl _
    · -- Where there is no handle left the definition fails, and the declaration stays.
      rw [bind_of_ok registered, registered]
      refine .trans (leads_register passed) ?_
      refine leaves_bind (R := Settles) Settles.trans (settles_define _ body _) ?_
      exact fun _ later _ => .refl later
  | load =>
    rw [perform, leaves_map]
    exact settles_load vm
  | invoke fuel id arguments =>
    rw [perform, leaves_map]
    exact settles_of_lasting (lasting_invoke fuel id arguments vm)
  | runMain fuel =>
    rw [perform, leaves_map]
    exact settles_of_lasting (lasting_runMain fuel vm)

theorem leads_after (vm : Vm) (requests : List Request) :
    Registry.Leads vm.registry (vm.declarations requests) (vm.after requests).registry := by
  induction requests generalizing vm with
  | nil => exact .refl _
  | cons request rest ih => exact .trans (request.leads vm) (ih _)

end Vm

/-! ## The functions of the runtime -/

namespace Registry

def empty : Registry := ⟨.primitives, .empty, ∅, none, false⟩

theorem indexed_empty : empty.Indexed := by
  refine ⟨rfl, List.nodup_nil, fun s id => ?_, fun id => ?_, fun d mem => ?_, fun d mem => ?_⟩
  · simp [empty, declared, SlotTable.toList, SlotTable.empty]
  · simp [empty, declared, SlotTable.toList, SlotTable.empty]
  · cases mem
  · cases mem

theorem not_isMain_native (routine : Native) : ¬ routine.definition.IsMain := by
  intro main
  exact absurd main.1 (by cases routine <;> decide)

variable {r : Registry}

theorem admits_native (indexed : r.Indexed) (types : r.types = .primitives) {routine : Native}
    (unused : ∀ d ∈ r.definitions,
      d.signature .primitives ≠ routine.definition.signature .primitives) :
    r.Admits routine.definition := by
  refine ⟨?_, ?_, fun main => ?_⟩
  · rw [types]
    unfold TypeTable.Issued
    cases routine <;> decide +kernel
  · rw [types]
    cases found : r.signatures[routine.definition.signature .primitives]? with
    | none => rfl
    | some id =>
      obtain ⟨d, mem, same⟩ := (indexed.found _ id).mp found
      rw [types] at same
      exact absurd same (unused d (mem_definitions.mpr ⟨id, mem⟩))
  · exact absurd main (not_isMain_native routine)

theorem indexed_natives (routines : List Native) (indexed : r.Indexed)
    (types : r.types = .primitives)
    (distinct :
      ((r.definitions ++ routines.map Native.definition).map fun d => d.signature .primitives).Nodup) :
    (routines.foldl (fun r routine => r.enter (.ofNative routine)) r).Indexed ∧
      (routines.foldl (fun r routine => r.enter (.ofNative routine)) r).definitions
        = r.definitions ++ routines.map Native.definition := by
  induction routines generalizing r with
  | nil => exact ⟨indexed, (List.append_nil _).symm⟩
  | cons routine rest ih =>
    have admits : r.Admits routine.definition := by
      refine admits_native indexed types fun d mem same => ?_
      rw [List.map_append, List.nodup_append] at distinct
      exact distinct.2.2 _ (List.mem_map_of_mem mem) _ List.mem_cons_self same
    have all : (r.enter (.ofNative routine)).definitions ++ rest.map Native.definition
        = r.definitions ++ (routine :: rest).map Native.definition := by
      rw [definitions_enter indexed.full, List.append_assoc]
      rfl
    obtain ⟨indexed', same⟩ := ih (indexed.enter admits) types (by rw [all]; exact distinct)
    exact ⟨indexed', same.trans all⟩

end Registry

namespace Vm

variable {vm : Vm}

variable {settings : Settings} {id : FunctionId} {u : Vm} {body : Body} {e : VmError}

/-- A machine without a program has the functions of the runtime. -/
theorem registry_create (made : create settings = .ok vm) :
    vm.registry = Native.all.foldl (fun r routine => r.enter (.ofNative routine)) .empty := by
  obtain ⟨collector, stack, calls, _, _, _, rfl⟩ := create_eq_ok made
  rfl

theorem indexed_after {initial : Vm} (made : create settings = .ok initial)
    (requests : List Request) :
    (initial.after requests).registry.Indexed ∧
      (initial.after requests).registry.definitions
        = Native.all.map Native.definition ++ initial.declarations requests := by
  have distinct : ((Registry.empty.definitions ++ Native.all.map Native.definition).map
      fun d => d.signature .primitives).Nodup := by
    decide +kernel
  have start := Registry.indexed_natives Native.all Registry.indexed_empty rfl distinct
  rw [← registry_create made] at start
  obtain ⟨indexed, _, longer⟩ := (leads_after initial requests).keeps start.1
  rw [start.2] at longer
  exact ⟨indexed, longer⟩

section Indexed

variable {vm : Vm} (indexed : vm.registry.Indexed)

include indexed

theorem nodup_signatures :
    (vm.functions.toList.map fun entry => entry.2.signature vm.types).Nodup := by
  have distinct := indexed.distinct
  unfold Registry.definitions Registry.declared at distinct
  rw [List.map_map, List.map_map] at distinct
  exact distinct

/-- There is one main function at most. -/
theorem pairwise_not_main :
    vm.registry.definitions.Pairwise fun d d' => ¬ (d.IsMain ∧ d'.IsMain) := by
  have distinct := List.pairwise_map.mp (List.nodup_iff_pairwise_ne.mp indexed.distinct)
  refine distinct.imp_of_mem fun {d d'} mem mem' differ => ?_
  rintro ⟨main, main'⟩
  apply differ
  rw [Definition.signature_of_isMain main (indexed.shaped d mem main).1,
    Definition.signature_of_isMain main' (indexed.shaped d' mem' main').1]

/-- A function that was declared is found by its signature. -/
theorem find?_of_declare {d : Definition} (answer : declare d vm = .ok id u) :
    u.find? (d.signature vm.types) = some id ∧ (id, .declared d) ∈ u.functions.toList := by
  rcases declare_cases d vm with ⟨e, refused⟩ | ⟨_, _, registered⟩
  · cases refused.symm.trans answer
  · cases registered.symm.trans answer
    refine ⟨Std.HashMap.getElem?_insert_self, ?_⟩
    have listed := SlotTable.toList_insert indexed.full (Function.declared d)
    exact listed ▸ List.mem_append_right _ List.mem_cons_self

/-- A function that can be declared can be added. -/
theorem add_unchanged (room : vm.functions.slots.size < SlotTable.handleLimit) {d : Definition}
    (failed : add d body vm = .error e u) : u = vm := by
  unfold add at failed
  rcases declare_cases d vm with ⟨e, refused⟩ | ⟨unloaded, _, registered⟩
  · rw [bind_of_error refused] at failed
    cases failed
    rfl
  · rw [bind_of_ok registered] at failed
    have found : (leaves (register d vm)).functions.get? (vm.functions.insert (.declared d)).1
        = some (.declared d) := SlotTable.get?_insert_self indexed.full room _
    have unloaded : (leaves (register d vm)).loaded = false := unloaded
    have defined := define_of_missing unloaded found rfl body
    rw [bind_of_ok defined] at failed
    cases failed

/-- A function keeps its definition, its signature and, once it has one, its routine or body. -/
theorem function?_after (later : List Request) {f : Function} (found : vm.function? id = some f) :
    ∃ g, (vm.after later).function? id = some g ∧ f.Becomes g ∧
      g.signature (vm.after later).types = f.signature vm.types := by
  obtain ⟨_, extends_, _⟩ := (leads_after vm later).keeps indexed
  obtain ⟨g, found', becomes⟩ := extends_.functions id f found
  have mem : f.definition ∈ vm.registry.definitions := Registry.mem_definitions.mpr
    ⟨id, Registry.mem_declared.mpr ⟨f, SlotTable.mem_toList_of_get? found, rfl⟩⟩
  refine ⟨g, found', becomes, ?_⟩
  unfold Function.signature
  rw [becomes.definition]
  exact Definition.signature_congr fun type named =>
    (extends_.names type (indexed.known _ mem type named)).2

end Indexed

theorem declare_unchanged {d : Definition} (failed : declare d vm = .error e u) : u = vm := by
  rcases declare_cases d vm with ⟨_, refused⟩ | ⟨_, _, registered⟩
  · cases refused.symm.trans failed
    rfl
  · cases registered.symm.trans failed

theorem define_unchanged (failed : define id body vm = .error e u) : u = vm := by
  rcases define_cases id body vm with ⟨_, refused⟩ | ⟨_, _, _, _, defined⟩
  · cases refused.symm.trans failed
    rfl
  · cases defined.symm.trans failed

/-- A body is given only to a function without one. -/
theorem missing_of_define (answer : define id body vm = .ok () u) :
    ∃ f, vm.function? id = some f ∧ f.implementation = .missing ∧
      u.function? id = some (f.withBody body) := by
  rcases define_cases id body vm with ⟨_, refused⟩ | ⟨f, _, found, missing, defined⟩
  · cases refused.symm.trans answer
  · cases defined.symm.trans answer
    refine ⟨f, found, missing, ?_⟩
    show (vm.functions.set id (f.withBody body)).get? id = _
    rw [SlotTable.get?_set, if_pos ⟨rfl, SlotTable.contains_iff.mpr ⟨f, found⟩⟩]

theorem refused_of_loaded (loaded : vm.loaded = true) {request : Request}
    (assembles : request.assembles = true) :
    request.perform vm = .error (.load .alreadyLoaded) vm := by
  have refused := requireUnloaded_eq vm
  rw [if_pos loaded] at refused
  cases request with
  | declare d | define id body => exact map_eq_error_iff.mpr (bind_of_error refused)
  | add d body =>
    have declared : Vm.declare d vm = .error (.load .alreadyLoaded) vm := bind_of_error refused
    exact map_eq_error_iff.mpr (bind_of_error declared)
  | load => exact map_eq_error_iff.mpr (load_refused loaded)
  | _ => cases assembles

/-- **The functions of a program.** After any requests to a virtual machine, whether they succeeded
or not:

* A signature finds a function exactly if the function has it under the types that there are now, and
  no two functions have the same one. As long as there are no more functions than handles, the handle
  that is found stands for that function. There are the functions of the runtime and those declared.
* There is a main function exactly if a free function called main has been declared. That happens
  once at most, and the function takes nothing and returns an integer.
* Whatever is asked later, a function keeps its definition and its signature, and its routine or its
  body once it has one. A signature finds the same function, and the main function stays.
* A declaration and a definition that fail change nothing, and neither does an addition that fails, as
  long as there is a handle left.
* Once the program is loaded, nothing more can be declared, defined, added or loaded. -/
theorem registry_consistent {settings : Settings} {initial : Vm}
    (made : create settings = .ok initial) (requests : List Request) :
    let vm := initial.after requests
    let declarations := initial.declarations requests
    ((∀ s id, vm.find? s = some id ↔
        ∃ f, (id, f) ∈ vm.functions.toList ∧ f.signature vm.types = s) ∧
      (vm.functions.slots.size ≤ SlotTable.handleLimit → ∀ s id, vm.find? s = some id ↔
        ∃ f, vm.function? id = some f ∧ f.signature vm.types = s) ∧
      (vm.functions.toList.map fun entry => entry.2.signature vm.types).Nodup ∧
      (vm.functions.toList.map fun entry => entry.2.definition)
        = Native.all.map Native.definition ++ declarations ∧
      ∀ d id u, declare d vm = .ok id u →
        u.find? (d.signature vm.types) = some id ∧ (id, .declared d) ∈ u.functions.toList) ∧
    ((∀ id, vm.main = some id ↔ ∃ f, (id, f) ∈ vm.functions.toList ∧ f.definition.IsMain) ∧
      ((∃ id, vm.main = some id) ↔ ∃ d ∈ declarations, d.IsMain) ∧
      (declarations.Pairwise fun d d' => ¬ (d.IsMain ∧ d'.IsMain)) ∧
      ∀ d ∈ declarations, d.IsMain → d.parameters = [] ∧ d.returnType = .int) ∧
    ((∀ later id f, vm.function? id = some f → ∃ g, (vm.after later).function? id = some g ∧
        f.Becomes g ∧ g.signature (vm.after later).types = f.signature vm.types) ∧
      (∀ later s id, vm.find? s = some id → (vm.after later).find? s = some id) ∧
      (∀ later id, vm.main = some id → (vm.after later).main = some id) ∧
      ∀ id body u, define id body vm = .ok () u → ∃ f, vm.function? id = some f ∧
        f.implementation = .missing ∧ u.function? id = some (f.withBody body)) ∧
    ((∀ d e u, declare d vm = .error e u → u = vm) ∧
      (∀ id body e u, define id body vm = .error e u → u = vm) ∧
      (vm.functions.slots.size < SlotTable.handleLimit →
        ∀ d body e u, add d body vm = .error e u → u = vm)) ∧
    ∀ u, load vm = .ok () u → ∀ later request, Request.assembles request = true →
      request.perform (u.after later) = .error (.load .alreadyLoaded) (u.after later) := by
  intro vm declarations
  obtain ⟨indexed, all⟩ := indexed_after made requests
  have indexed : vm.registry.Indexed := indexed
  have all : vm.registry.definitions = Native.all.map Native.definition ++ declarations := all
  have found (s : String) (id : FunctionId) := (indexed.found s id).trans Registry.exists_declared
  have main (id : FunctionId) := (indexed.main id).trans Registry.exists_declared
  have among : ∀ d ∈ declarations, d ∈ vm.registry.definitions := fun d mem => by
    rw [all]
    exact List.mem_append_right _ mem
  refine ⟨⟨found, fun few s id => ?_, nodup_signatures indexed, ?_, fun d id u => ?_⟩,
    ⟨main, ?_, ?_, fun d mem => indexed.shaped d (among d mem)⟩,
    ⟨fun later id f => function?_after indexed later, fun later s id => ?_, fun later id => ?_,
      fun id body u => missing_of_define⟩,
    ⟨fun d e u => declare_unchanged, fun id body e u => define_unchanged,
      fun room d body e u => add_unchanged indexed room⟩,
    fun u run later request assembles => ?_⟩
  · refine (found s id).trans (exists_congr fun f => and_congr_left fun _ => ?_)
    exact SlotTable.mem_toList_iff few
  · rw [← all]
    unfold Registry.definitions Registry.declared
    rw [List.map_map]
    rfl
  · exact find?_of_declare indexed
  · constructor
    · rintro ⟨id, some⟩
      obtain ⟨d, mem, is⟩ := (indexed.main id).mp some
      have listed := Registry.mem_definitions.mpr ⟨id, mem⟩
      rw [all, List.mem_append] at listed
      refine ⟨d, listed.resolve_left fun native => ?_, is⟩
      obtain ⟨routine, _, rfl⟩ := List.mem_map.mp native
      exact Registry.not_isMain_native routine is
    · rintro ⟨d, mem, is⟩
      obtain ⟨id, mem⟩ := Registry.mem_definitions.mp (among d mem)
      exact ⟨id, (indexed.main id).mpr ⟨d, mem, is⟩⟩
  · have apart := pairwise_not_main indexed
    rw [all] at apart
    exact (List.pairwise_append.mp apart).2.1
  · exact ((leads_after vm later).keeps indexed).2.1.signatures s id
  · exact ((leads_after vm later).keeps indexed).2.1.main id
  · have settles := settles_load vm
    rw [run] at settles
    have extends_ := ((leads_after u later).keeps (settles.keeps indexed).1).2.1
    exact refused_of_loaded (extends_.loaded (loaded_of_load run)) assembles

namespace Sample

def main : Definition := .free "main" [] .int

/-- The machine with a class, before functions are declared. -/
def typed : Vm := { empty with types := (TypeTable.Command.declareClass "Node").run .primitives }

theorem after_main : empty.after [.type (.declareClass "Node"), .declare main, .declare main]
    = leaves (register main typed) := by
  have unused : typed.signatures.contains (main.signature typed.types) = false := by
    refine unused_of_natives fun routine => ?_
    cases routine <;> decide +kernel
  have declared : declare main typed = register main typed :=
    declare_eq rfl (by decide +kernel) (by decide +kernel) unused
  have again : leaves (declare main (leaves (register main typed)))
      = leaves (register main typed) := by
    rcases declare_cases main (leaves (register main typed)) with ⟨e, refused⟩ | ⟨_, passed, _⟩
    · rw [refused]
      rfl
    · -- The signature is taken.
      have free := (admits_of_checkDefinition passed).unused
      cases free.symm.trans Std.HashMap.getElem?_insert_self
  show leaves (Request.perform (.declare main) (leaves (Request.perform (.declare main)
    (leaves (Request.perform (.type (.declareClass "Node")) empty))))) = _
  rw [Request.leaves_type, Request.perform, leaves_map, leaves_map]
  show leaves (declare main (leaves (declare main typed))) = _
  rw [declared, again]

end Sample

/-- A class and a main function are declared; another main function is refused. -/
theorem registry_consistent_main :
    let vm := Sample.empty.after
      [.type (.declareClass "Node"), .declare Sample.main, .declare Sample.main]
    create Sample.settings = .ok Sample.empty ∧
    vm.functions.slots.size ≤ SlotTable.handleLimit ∧ vm.main = some ⟨5, 0⟩ ∧
    (∀ s id, vm.find? s = some id ↔ ∃ f, vm.function? id = some f ∧ f.signature vm.types = s) ∧
    ∀ d body e u, add d body vm = .error e u → u = vm := by
  intro vm
  have size : vm.functions.slots.size = 6 := by
    show (Sample.empty.after _).functions.slots.size = 6
    rw [Sample.after_main]
    decide +kernel
  have room : vm.functions.slots.size < SlotTable.handleLimit := by
    rw [size]
    decide
  have set : vm.main = some ⟨5, 0⟩ := by
    show (Sample.empty.after _).main = some ⟨5, 0⟩
    rw [Sample.after_main]
    decide +kernel
  obtain ⟨⟨_, found, _⟩, _, _, ⟨_, _, unchanged⟩, _⟩ := registry_consistent Sample.create_eq
    [.type (.declareClass "Node"), .declare Sample.main, .declare Sample.main]
  exact ⟨Sample.create_eq, Nat.le_of_lt room, set, found (Nat.le_of_lt room), unchanged room⟩

end Vm

end ManagedCode

import ManagedCode.Proofs.Heap.History

/-!
# The accounts of a heap

The statistics, the journal and the reports of a collector are written in different places. They agree
with each other and with the heap at every point of its history.

* `Request.noted`, `Collector.collect_noted`: what an allocation and a collection write down.
* `Booked`: the accounts along a history.
* `Collector.accounts_balance`: addresses grow and are freed once, each by the first collection that
  cannot reach it; the journal lists what the reports list; and what was allocated is what was freed
  and what is still there, counted in objects and in bytes.
-/

namespace ManagedCode.Heap

open TypeSystem (TypeId TypeTable)
open Arena

/-! ## What is written down -/

variable {data : UInt64} {roots : List UInt64}

variable {type : TypeId}

namespace Collector

structure NotesAllocation (c : Collector) (data : UInt64) (c' : Collector) : Prop where
  stats : c'.stats = { c.stats with objectsAllocated := c.stats.objectsAllocated + 1 }
  options : c'.options = c.options
  deallocations : c'.journal.deallocations = c.journal.deallocations
  allocations : c.options.logAllocation = true →
    c'.journal.allocations = c.journal.allocations.push data

/-- What the sweep of some objects writes down: whatever it adds to the report it adds to the
journal. -/
structure NotesSweep (report : Report) (c : Collector) (report' : Report) (c' : Collector) : Prop where
  collection : report'.collection = report.collection
  stats : c'.stats = c.stats
  options : c'.options = c.options
  allocations : c'.journal.allocations = c.journal.allocations
  deallocations : ∃ added, report'.deallocated.toList = report.deallocated.toList ++ added ∧
    (c.options.logDeallocation = true → c'.journal.deallocations.toList
      = c.journal.deallocations.toList ++ added.map fun r => (report.collection, r))

variable {types : TypeTable} {c c' : Collector} {report report' : Report}

theorem allocate_noted {dataSize : Nat} (run : allocate types type dataSize c = .ok data c') :
    c.NotesAllocation data c' := by
  obtain ⟨heap, stats, journal, options⟩ := c
  unfold allocate at run
  dsimp only at run
  split at run
  · cases run
  · cases run
    refine ⟨rfl, rfl, ?_, fun logged => ?_⟩
    · unfold Journal.noteAllocation
      split <;> split <;> rfl
    · unfold Journal.noteAllocation
      dsimp only at logged
      rw [if_pos logged]
      split <;> rfl

theorem NotesSweep.refl (report : Report) (c : Collector) : NotesSweep report c report c :=
  ⟨rfl, rfl, rfl, rfl, [], by simp, fun _ => by simp⟩

theorem NotesSweep.trans {report'' : Report} {c'' : Collector}
    (first : NotesSweep report c report' c') (second : NotesSweep report' c' report'' c'') :
    NotesSweep report c report'' c'' := by
  obtain ⟨added, listed, logged⟩ := first.deallocations
  obtain ⟨added', listed', logged'⟩ := second.deallocations
  refine ⟨second.collection.trans first.collection, second.stats.trans first.stats,
    second.options.trans first.options, second.allocations.trans first.allocations,
    added ++ added', ?_, fun log => ?_⟩
  · rw [listed', listed, List.append_assoc]
  · rw [logged' (first.options ▸ log), logged log, first.collection, List.map_append,
      List.append_assoc]

theorem sweepOne_noted {x : HeapObject} (run : sweepOne types report x c = .ok report' c') :
    NotesSweep report c report' c' := by
  obtain ⟨heap, stats, journal, options⟩ := c
  unfold sweepOne at run
  dsimp only at run
  split at run
  · cases run
    exact ⟨rfl, rfl, rfl, rfl, [], by simp, fun _ => by simp⟩
  · split at run
    · cases run
      refine ⟨rfl, rfl, rfl, ?_, [x.address], by simp, fun logged => ?_⟩
      · unfold Journal.noteDeallocation
        split <;> split <;> rfl
      · unfold Journal.noteDeallocation
        dsimp only at logged
        rw [if_pos logged]
        split <;> simp [Journal.say]
    · cases run

theorem sweepAll_noted {objects : List HeapObject}
    (run : sweepAll types objects report c = .ok report' c') : NotesSweep report c report' c' := by
  induction objects generalizing report c with
  | nil =>
    cases run
    exact .refl _ _
  | cons x rest ih =>
    obtain ⟨next, between, first, later⟩ := bind_eq_ok_iff.mp run
    exact (sweepOne_noted first).trans (ih later)

structure NotesCollection (c : Collector) (report : Report) (c' : Collector) : Prop where
  collection : report.collection = c.stats.collections + 1
  stats : c'.stats = c.stats.record report
  options : c'.options = c.options
  allocations : c'.journal.allocations = c.journal.allocations
  deallocations : c.options.logDeallocation = true → c'.journal.deallocations.toList
    = c.journal.deallocations.toList ++ report.deallocated.toList.map fun r => (report.collection, r)

/-- The walk changes nothing. -/
theorem objects_cases (types : TypeTable) (c : Collector) :
    (∃ found, objects types c = .ok found c) ∨ ∃ e, objects types c = .error e c := by
  unfold objects
  split
  · exact .inr ⟨_, rfl⟩
  · exact .inl ⟨_, rfl⟩

theorem collect_noted (run : collect types roots c = .ok report c') :
    c.NotesCollection report c' := by
  obtain ⟨heap, stats, journal, options⟩ := c
  unfold collect at run
  obtain ⟨count, c₁, marked, rest₁⟩ := bind_eq_ok_iff.mp run
  obtain ⟨found, c₂, walked, rest₂⟩ := bind_eq_ok_iff.mp rest₁
  rw [get_bind] at rest₂
  obtain ⟨swept, c₃, sweeping, rest₃⟩ := bind_eq_ok_iff.mp rest₂
  cases rest₃
  have first : c₁.stats = stats ∧ c₁.journal = journal ∧ c₁.options = options := by
    unfold mark at marked
    dsimp only at marked
    split at marked
    · cases marked
      exact ⟨rfl, rfl, rfl⟩
    · cases marked
  have second : c₂ = c₁ := by
    rcases objects_cases types c₁ with ⟨_, same⟩ | ⟨_, same⟩
    · cases walked.symm.trans same
      rfl
    · cases walked.symm.trans same
  subst second
  obtain ⟨stats', journal', options'⟩ := first
  have noted := sweepAll_noted sweeping
  obtain ⟨added, listed, logged⟩ := noted.deallocations
  have all : report.deallocated.toList = added := by simpa using listed
  refine ⟨?_, ?_, noted.options.trans options', ?_, fun log => ?_⟩
  · exact noted.collection.trans (by rw [stats'])
  · show c₃.stats.record report = stats.record report
    rw [noted.stats, stats']
  · show c₃.journal.allocations = journal.allocations
    rw [noted.allocations, journal']
  · show c₃.journal.deallocations.toList = journal.deallocations.toList ++ _
    rw [logged (by rw [options']; exact log), journal', all, noted.collection]

end Collector

theorem Request.noted {types : TypeTable} {c c' : Collector} {request : Request}
    (run : request.run types c = .ok data c') : c.NotesAllocation data c' := by
  cases request with
  | object type =>
    change Collector.newObject types type c = _ at run
    unfold Collector.newObject at run
    cases object : types.layout? type with
    | none =>
      rw [object] at run
      cases run
    | some layout =>
      rw [object] at run
      exact Collector.allocate_noted run
  | array type length =>
    change Collector.newArray types type length c = _ at run
    unfold Collector.newArray at run
    cases array : types.element? type with
    | none =>
      rw [array] at run
      cases run
    | some element =>
      rw [array] at run
      dsimp only at run
      split at run
      · obtain ⟨given, between, first, rest⟩ := bind_eq_ok_iff.mp run
        have noted := Collector.allocate_noted first
        cases rest
        exact ⟨noted.stats, noted.options, noted.deallocations, noted.allocations⟩
      · cases run

/-! ## The accounts along a history -/

/-- What the reports say was freed, each address with the number of its collection. -/
def entriesOf (reports : List Report) : List (Nat × UInt64) :=
  reports.flatMap fun report => report.deallocated.toList.map fun r => (report.collection, r)

theorem entriesOf_append (reports reports' : List Report) :
    entriesOf (reports ++ reports') = entriesOf reports ++ entriesOf reports' :=
  List.flatMap_append

/-- Where the reports are numbered, the entries with a number are those of its report. -/
theorem filter_entriesOf {reports : List Report} {first : Nat}
    (numbered : ∀ k report, reports[k]? = some report → report.collection = first + k)
    {k : Nat} {report : Report} (at_ : reports[k]? = some report) :
    ((entriesOf reports).filter (·.1 == first + k)).map (·.2) = report.deallocated.toList := by
  induction reports generalizing first k with
  | nil => cases at_
  | cons head rest ih =>
    have number : head.collection = first := numbered 0 head rfl
    have later : ∀ k report, rest[k]? = some report → report.collection = first + 1 + k :=
      fun k report there => (numbered (k + 1) report there).trans (by omega)
    have apart : entriesOf (head :: rest)
        = head.deallocated.toList.map (fun r => (first, r)) ++ entriesOf rest := by
      rw [← number]
      rfl
    rw [apart, List.filter_append, List.map_append]
    cases k with
    | zero =>
      cases at_
      have none_ : (entriesOf rest).filter (·.1 == first + 0) = [] := by
        refine List.filter_eq_nil_iff.mpr fun entry mem => ?_
        obtain ⟨other, there, inside⟩ := List.mem_flatMap.mp mem
        obtain ⟨r, _, rfl⟩ := List.mem_map.mp inside
        obtain ⟨j, at_⟩ := List.getElem?_of_mem there
        have number := later j other at_
        simp only [beq_iff_eq]
        omega
      rw [none_, List.filter_map]
      simp [Function.comp_def]
    | succ k =>
      have none_ : (head.deallocated.toList.map fun r => (first, r)).filter
          (·.1 == first + (k + 1)) = [] := by
        refine List.filter_eq_nil_iff.mpr fun entry mem => ?_
        obtain ⟨r, _, rfl⟩ := List.mem_map.mp mem
        simp
      rw [none_, List.map_nil, List.nil_append, show first + (k + 1) = first + 1 + k by omega]
      exact ih later at_

theorem bytesOf_append (objects objects' : List HeapObject) :
    bytesOf (objects ++ objects') = bytesOf objects + bytesOf objects' := by
  induction objects with
  | nil => exact (Nat.zero_add _).symm
  | cons x rest ih =>
    show x.size + bytesOf (rest ++ objects') = x.size + bytesOf rest + bytesOf objects'
    rw [ih, Nat.add_assoc]

theorem bytesOf_aged (objects : List HeapObject) :
    bytesOf (objects.map HeapObject.aged) = bytesOf objects := by
  unfold bytesOf
  rw [List.foldr_map]
  rfl

/-- Objects that are kept and objects that are not are all objects. -/
theorem bytesOf_filter (objects : List HeapObject) (keep : HeapObject → Prop) [DecidablePred keep] :
    bytesOf (objects.filter (¬ keep ·)) + bytesOf (objects.filter keep) = bytesOf objects := by
  induction objects with
  | nil => rfl
  | cons x rest ih =>
    have whole : bytesOf (x :: rest) = x.size + bytesOf rest := rfl
    by_cases kept : keep x
    · rw [List.filter_cons_of_neg (by simpa using kept), List.filter_cons_of_pos (by simpa using kept)]
      show _ + (x.size + bytesOf (rest.filter keep)) = _
      omega
    · rw [List.filter_cons_of_pos (by simpa using kept), List.filter_cons_of_neg (by simpa using kept)]
      show x.size + bytesOf (rest.filter (¬ keep ·)) + _ = _
      omega

/-- The accounts of a heap with these cells.

* `collections`, `numbered`: collections are counted, and each report has its number.
* `objects`, `bytes`: what was allocated was freed or is there.
* `allocations`, `deallocations`: the journal is what happened. -/
structure Booked (c : Collector) (events : List Event) (cells : List Cell) : Prop where
  collections : c.stats.collections = (reportsIn events).length
  numbered : ∀ k report, (reportsIn events)[k]? = some report → report.collection = 1 + k
  objects : c.stats.objectsAllocated = c.stats.objectsFreed + (objectsOf cells).length
  bytes : c.heap.used = c.stats.bytesFreed + bytesOf (objectsOf cells)
  allocations : c.options.logAllocation = true →
    c.journal.allocations.toList = (blocksIn events).map (·.address)
  deallocations : c.options.logDeallocation = true →
    c.journal.deallocations.toList = entriesOf (reportsIn events)

section Booked

variable {types : TypeTable} {c c' : Collector} {events : List Event} {cells : List Cell}

theorem booked_fresh (region : Memory.Region) (options : JournalOptions) :
    Booked ⟨⟨region, 0⟩, {}, {}, options⟩ [] [] :=
  ⟨rfl, fun _ _ none_ => (nomatch none_), rfl, rfl, fun _ => rfl, fun _ => rfl⟩

theorem Booked.made (booked : Booked c events cells) {total : Nat}
    (noted : c.NotesAllocation data c') (extended : c.heap.Extended types type total c'.heap) :
    Booked c' (events ++ [.made ⟨data, total⟩]) (cells ++ [c.heap.newCell type total]) := by
  have new : objectsOf (cells ++ [c.heap.newCell type total]) = objectsOf cells ++ _ :=
    objectsOf_snoc rfl
  refine ⟨?_, ?_, ?_, ?_, fun log => ?_, fun log => ?_⟩
  · rw [noted.stats, reportsIn_made]
    exact booked.collections
  · rw [reportsIn_made]
    exact booked.numbered
  · rw [noted.stats, new, List.length_append]
    show c.stats.objectsAllocated + 1 = c.stats.objectsFreed + ((objectsOf cells).length + 1)
    rw [booked.objects, Nat.add_assoc]
  · rw [noted.stats, new, bytesOf_append, extended.used]
    show c.heap.used + total = c.stats.bytesFreed + (bytesOf (objectsOf cells) + total)
    rw [booked.bytes, Nat.add_assoc]
  · rw [noted.options] at log
    rw [noted.allocations log, blocksIn_made, Array.toList_push, booked.allocations log,
      List.map_append]
    rfl
  · rw [noted.options] at log
    rw [noted.deallocations, reportsIn_made]
    exact booked.deallocations log

theorem Booked.collected (booked : Booked c events cells) {t : TypeTable} {M : List UInt64}
    {report : Report} (noted : c.NotesCollection report c') (used : c'.heap.used = c.heap.used)
    (tells : Collector.Tells report (objectsOf cells) M) :
    Booked c' (events ++ [.collected t c.heap roots report]) (cells.map (Cell.settled M)) := by
  refine ⟨?_, ?_, ?_, ?_, fun log => ?_, fun log => ?_⟩
  · rw [noted.stats, reportsIn_collected, List.length_append]
    exact congrArg (· + 1) booked.collections
  · intro k found there
    rw [reportsIn_collected, List.getElem?_append] at there
    split at there
    · exact booked.numbered k found there
    · rename_i behind
      obtain ⟨last, rfl⟩ : k - (reportsIn events).length = 0 ∧ report = found := by
        rw [List.getElem?_singleton] at there
        split at there
        · exact ⟨‹_›, Option.some.inj there⟩
        · cases there
      rw [noted.collection, booked.collections]
      omega
  · have all := List.length_eq_length_filter_add (l := objectsOf cells) (decide <| ·.address ∈ M)
    rw [noted.stats, objectsOf_map_settled, List.length_map]
    show c.stats.objectsAllocated = c.stats.objectsFreed + report.deallocated.size + _
    rw [← Array.length_toList, tells.deallocated, List.length_map, booked.objects, all]
    simp only [decide_not]
    omega
  · have all := bytesOf_filter (objectsOf cells) (·.address ∈ M)
    rw [noted.stats, objectsOf_map_settled, bytesOf_aged, used]
    show c.heap.used = c.stats.bytesFreed + report.freedBytes + _
    rw [tells.freedBytes, booked.bytes]
    omega
  · rw [noted.options] at log
    rw [noted.allocations, blocksIn_collected]
    exact booked.allocations log
  · rw [noted.options] at log
    rw [noted.deallocations log, reportsIn_collected, entriesOf_append, booked.deallocations log]
    exact congrArg _ (List.append_nil _).symm

theorem History.booked (history : History types c events) :
    ∃ cells, Tracked types c.heap events cells ∧ Booked c events cells :=
  history.along booked_fresh
    (fun _ run extended booked => booked.made (Request.noted run) extended)
    (fun used booked => { booked with bytes := used.trans booked.bytes })
    (fun _ run settled tells booked => booked.collected (Collector.collect_noted run) settled.used tells)

end Booked

/-- Allocations stand in the order of their addresses. -/
theorem Arena.Tiled.blocks_increasing {a : Arena} {types : TypeTable} {cells : List Cell}
    (placed : a.Placed) (tiled : a.Tiled types 0 cells) :
    ((cells.map a.block).map (·.address)).Pairwise (· < ·) := by
  rw [List.map_map, List.pairwise_map]
  refine tiled.pairwise.imp_of_mem ?_
  intro c d memC memD before
  have enough := tiled.minSize_le memC
  have insideC := tiled.minSize_inside placed memC
  have insideD := tiled.minSize_inside placed memD
  simp only [minSize, minDataSize] at enough insideC insideD
  show a.dataAt c.offset < a.dataAt d.offset
  rw [UInt64.lt_iff_toNat_lt, toNat_dataAt placed (by omega), toNat_dataAt placed (by omega)]
  omega

/-- The accounts of a collector and the events of its heap.

* `increasing`, `allocations`: every allocation gives a higher address, and the journal lists them.
* `once`: no address is freed twice.
* `fair`: a collection frees what was made before it, was reached by every collection in between and
  is not reached now.
* `deallocations`: the journal and the reports agree on what each collection freed.
* `balance`: what was allocated was freed or is found by the walk, in objects and in bytes. -/
structure Collector.Balanced (types : TypeTable) (c : Collector) (events : List Event) : Prop where
  increasing : ((blocksIn events).map (·.address)).Pairwise (· < ·)
  allocations : c.journal.allocations.toList = (blocksIn events).map (·.address)
  once : (freedIn events).Nodup
  fair : ∀ before t heap roots report after,
    events = before ++ .collected t heap roots report :: after →
      ∀ r, r ∈ report.deallocated.toList ↔ Spared before r ∧ ¬ heap.Reaches t roots r
  collections : c.stats.collections = (reportsIn events).length
  deallocations : ∀ k report, (reportsIn events)[k]? = some report →
    c.journal.deallocatedIn (k + 1) = report.deallocated
  balance : ∃ found, c.heap.walk types = (found, none) ∧
    c.stats.objectsAllocated = c.stats.objectsFreed + found.size ∧
    c.heap.used = c.stats.bytesFreed + bytesOf found.toList

/-- **The accounts balance.** Whatever has happened to a heap whose journal notes allocations and
deallocations, the journal, the reports, the statistics and the walk over the heap tell the same. -/
theorem Collector.accounts_balance {types : TypeTable} {c : Collector} {events : List Event}
    (history : History types c events) (allocation : c.options.logAllocation = true)
    (deallocation : c.options.logDeallocation = true) : c.Balanced types events := by
  obtain ⟨cells, tracked, booked⟩ := history.booked
  have tiled := tracked.consistent.tiled
  refine ⟨?_, booked.allocations allocation, tracked.once, tracked.fair, booked.collections, ?_,
    (objectsOf cells).toArray, tiled.walk, ?_, ?_⟩
  · rw [tracked.blocks]
    exact tiled.blocks_increasing tracked.consistent.placed
  · intro k report at_
    rw [← Array.toList_inj, Journal.deallocatedIn, Array.toList_map, Array.toList_filter,
      booked.deallocations deallocation, Nat.add_comm]
    exact filter_entriesOf booked.numbered at_
  · rw [List.size_toArray]
    exact booked.objects
  · exact booked.bytes

/-- An object is made and freed, and the journal notes both. -/
theorem Collector.accounts_balance_freed :
    ∃ c report c', newObject nodeTypes (.ofIndex 4) blank = .ok 0x40000005 c ∧
      collect nodeTypes [] c = .ok report c' ∧ c'.options = blank.options ∧
      c'.Balanced nodeTypes [.made ⟨0x40000005, 13⟩, .collected nodeTypes c.heap [] report] := by
  obtain ⟨c, report, c', run, ran, history⟩ := freed_blank
  have made : (Request.object (.ofIndex 4)).run nodeTypes blank = .ok 0x40000005 c := run
  have same : c'.options = blank.options :=
    (collect_noted ran).options.trans (Request.noted made).options
  exact ⟨c, report, c', run, ran, same,
    accounts_balance history (by rw [same]; rfl) (by rw [same]; rfl)⟩

end ManagedCode.Heap

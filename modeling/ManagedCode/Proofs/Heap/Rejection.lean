import ManagedCode.Proofs.Heap.Accounting

/-!
# Roots that are no objects

A collection may be asked to start from words that are not references. It is refused if one of them
lies outside the used part of the heap or is the address of an object that was freed.

* `Arena.mark_rejects`: the marker stops at such a root. What it marked before keeps its mark.
* `Collector.roots_checked`: a collection succeeds exactly if its roots are objects, and never touches
  the type or the data of an object that stays.
* `Collector.failed_collect`: a collection that fails leaves all but some marks as it was, and leaves
  all as it was exactly if the root that it follows first is no object.

Two things it does not do. A root inside an object is not told from an object
(`Collector.interior_root_accepted`), and the marks of a failed collection are not taken back, so the
next one takes what has them for reachable (`Collector.stale_mark_kept`).
-/

namespace ManagedCode.Heap

open Memory (Region)
open TypeSystem (TypeId TypeTable)
open Arena

/-! ## The marker -/

variable {r : UInt64}

namespace Arena

section Reject

variable {a b : Arena} {types : TypeTable} {cells : List Cell} {roots M : List UInt64}

/-- A marked object was changed. -/
theorem Marks.ne (marks : Marks a cells M b) (consistent : a.Consistent types cells)
    (clear : ∀ x ∈ objectsOf cells, x.info.isMarked = false) (alive : Live cells r) (mem : r ∈ M) :
    b ≠ a := by
  rintro rfl
  obtain ⟨c, there, x, live, rfl⟩ := alive.cell
  have before := (Marks.refl b cells).header? consistent.placed consistent.tiled there live
  have after := marks.header? consistent.placed consistent.tiled there live
  rw [if_pos mem] at after
  rw [if_neg List.not_mem_nil] at before
  have same : x.info = x.info.marked :=
    congrArg Header.info (Option.some.inj (before.symm.trans after))
  have marked := isMarked_marked x.info
  rw [← same, clear x (mem_objectsOf.mpr ⟨c, there, live⟩)] at marked
  cases marked

/-- If a root is no object the marker stops at one that is none. It has marked some of the objects
that the roots lead to, the root that it follows first among them if that is one. -/
theorem mark_rejects (wf : types.WellFormed) (consistent : a.Consistent types cells)
    (clear : ∀ x ∈ objectsOf cells, x.info.isMarked = false)
    (known : ∀ r ∈ roots, r ≠ 0 → Live cells r ∨ a.Rejected cells r)
    (bad : ∃ r ∈ roots, r ≠ 0 ∧ ¬ Live cells r) :
    ∃ r ∈ roots, ∃ M b, r ≠ 0 ∧ a.Rejected cells r ∧
      Arena.mark types a (roots.filter (· != 0)).reverse 0 = .error (.invalidReference r) b ∧
      Marks a cells M b ∧ (∀ s ∈ M, Live cells s ∧ Reachable a types cells roots s) ∧
      ∀ first, (roots.filter (· != 0)).getLast? = some first →
        Live cells first ∧ first ∈ M ∨ ¬ Live cells first ∧ b = a := by
  have state := markState_start a types cells roots
  rw [← List.head?_reverse]
  cases work : (roots.filter (· != 0)).reverse with
  | nil =>
    obtain ⟨r, mem, nonnull, _⟩ := bad
    have none_ := List.filter_eq_nil_iff.mp (List.reverse_eq_nil_iff.mp work) r mem
    exact absurd (by simpa using nonnull) none_
  | cons first rest =>
    rw [work] at state
    have head : first ∈ roots ∧ first ≠ 0 := by
      have mem : first ∈ (roots.filter (· != 0)).reverse := work ▸ List.mem_cons_self
      obtain ⟨there, nonnull⟩ := List.mem_filter.mp (List.mem_reverse.mp mem)
      exact ⟨there, by simpa using nonnull⟩
    rcases known first head.1 head.2 with live | rejected
    · rcases state.round wf consistent clear live 0 with ⟨again, _⟩ | ⟨b, pushed, _, _, visited, same⟩
      · exact absurd again List.not_mem_nil
      · obtain ⟨M', b', marks, _, more, reached, result⟩ := visited.mark_cases wf consistent clear
          known fun s mem => List.mem_singleton.mp mem ▸ live
        rw [same]
        rcases result with ⟨_, all⟩ | ⟨r, mem, nonnull, rejected, run⟩
        · obtain ⟨r, mem, nonnull, dead⟩ := bad
          exact absurd (reached r (all r (.root mem nonnull))).1 dead
        · refine ⟨r, mem, M', b', nonnull, rejected, run, marks, reached, fun s same => ?_⟩
          cases same
          exact .inl ⟨live, more List.mem_cons_self⟩
    · refine ⟨first, head.1, [], a, head.2, rejected,
        (Marks.refl a cells).mark_rejected consistent rejected 0, .refl a cells,
        fun s mem => absurd mem List.not_mem_nil, fun s same => ?_⟩
      cases same
      exact .inr ⟨rejected.not_live consistent, rfl⟩

/-- The object has the same type and the same data in both. The length of an array is part of its
data. -/
def Keeps (a b : Arena) (x : HeapObject) : Prop :=
  (∃ info, b.header? x.address = some ⟨x.type.raw, info⟩) ∧
    ∃ bytes, a.region.read? x.address (x.size - headerSize) = some bytes ∧
      b.region.read? x.address (x.size - headerSize) = some bytes

variable {x : HeapObject}

theorem Marks.keeps (marks : Marks a cells M b) (placed : a.Placed) (tiled : a.Tiled types 0 cells)
    (mem : x ∈ objectsOf cells) : a.Keeps b x := by
  obtain ⟨c, there, live⟩ := mem_objectsOf.mp mem
  exact ⟨⟨_, marks.header? placed tiled there live⟩,
    tiled.read?_congr placed marks.base marks.size there live (marks.sameData tiled there)⟩

theorem Settled.keeps (settled : Settled a types cells M b) (placed : a.Placed)
    (tiled : a.Tiled types 0 cells) (mem : x ∈ objectsOf cells) (kept : x.address ∈ M) :
    a.Keeps b x := by
  refine ⟨?_, settled.read? placed tiled mem kept⟩
  obtain ⟨c, there, live⟩ := mem_objectsOf.mp mem
  have aged : (c.settled M).object = some x.aged := by simp [Cell.settled, live, kept]
  have header := (Marks.refl b _).header? (settled.placed placed) settled.tiled
    (List.mem_map_of_mem there) aged
  exact ⟨_, header⟩

end Reject

end Arena

/-! ## Collections -/

namespace Collector

variable {types : TypeTable} {c c' : Collector} {events : List Event} {cells : List Cell}
variable {roots : List UInt64} {e : GcError}

variable {b : Arena}

theorem collect_of_mark_error
    (marking : Arena.mark types c.heap (roots.filter (· != 0)).reverse 0 = .error e b) :
    collect types roots c = .error e { c with heap := b } := by
  have first : mark types (roots.filter (· != 0)) c = .error e { c with heap := b } := by
    simp only [mark, marking]
  unfold collect
  exact bind_of_error first

/-- Statistics, options and the noted allocations stay whatever the roots are. -/
structure SameBooks (c c' : Collector) : Prop where
  stats : c'.stats = c.stats
  options : c'.options = c.options
  allocations : c'.journal.allocations = c.journal.allocations

theorem sweepAll_error {objects : List HeapObject} {report : Report}
    (failed : sweepAll types objects report c = .error e c') : c.SameBooks c' := by
  induction objects generalizing report c with
  | nil => cases failed
  | cons x rest ih =>
    cases first : sweepOne types report x c with
    | ok next between =>
      have noted := sweepOne_noted first
      have later := ih ((bind_of_ok first).symm.trans failed)
      exact ⟨later.stats.trans noted.stats, later.options.trans noted.options,
        later.allocations.trans noted.allocations⟩
    | error e' between =>
      have same : between = c := by
        unfold sweepOne at first
        dsimp only at first
        split at first
        · cases first
        · split at first
          · cases first
          · cases first
            rfl
      subst same
      cases (bind_of_error first).symm.trans failed
      exact ⟨rfl, rfl, rfl⟩

theorem collect_error (failed : collect types roots c = .error e c') : c.SameBooks c' := by
  cases marking : Arena.mark types c.heap (roots.filter (· != 0)).reverse 0 with
  | error e' b =>
    cases (collect_of_mark_error marking).symm.trans failed
    exact ⟨rfl, rfl, rfl⟩
  | ok count b =>
    have first : mark types (roots.filter (· != 0)) c = .ok count { c with heap := b } := by
      simp only [mark, marking]
    unfold collect at failed
    rw [bind_of_ok first] at failed
    rcases objects_cases types { c with heap := b } with ⟨found, second⟩ | ⟨e', second⟩
    · rw [bind_of_ok second, get_bind] at failed
      cases third : sweepAll types found
          (unswept (c.stats.collections + 1) (roots.filter (· != 0)).length count)
          { c with heap := b } with
      | ok report last => cases (bind_of_ok third).symm.trans failed
      | error e' last =>
        cases (bind_of_error third).symm.trans failed
        have same := sweepAll_error third
        exact ⟨same.stats, same.options, same.allocations⟩
    · cases (bind_of_error second).symm.trans failed
      exact ⟨rfl, rfl, rfl⟩

/-- A root that the collector can judge: null, an object, a word outside the used part or the address
of an object that was freed. -/
def Judged (types : TypeTable) (c : Collector) (events : List Event) (r : UInt64) : Prop :=
  r = 0 ∨ c.heap.Alive types r ∨ c.heap.contains r = false ∨ r ∈ freedIn events

theorem Judged.known (tracked : Tracked types c.heap events cells)
    (judged : c.Judged types events r) (nonnull : r ≠ 0) :
    Live cells r ∨ c.heap.Rejected cells r := by
  rcases judged with null | alive | outside | freed
  · exact absurd null nonnull
  · exact .inl ((alive_iff tracked.consistent.tiled).mp alive)
  · exact .inr (.inl outside)
  · obtain ⟨d, mem, dead, place⟩ := (tracked.freed r).mp freed
    exact .inr (.inr ⟨d, mem, dead, place.symm⟩)

/-- After a collection that failed with the objects `M` marked, the next one takes these for
reachable. -/
theorem collect_marked {M : List UInt64} (consistent : c.heap.Consistent types cells)
    (clear : ∀ x ∈ objectsOf cells, x.info.isMarked = false) (marks : Marks c.heap cells M b) :
    ∃ report c', collect types [] { c with heap := b } = .ok report c' ∧
      ∀ r, r ∈ report.deallocated.toList ↔ Live cells r ∧ r ∉ M := by
  have marking : Arena.mark types b (([] : List UInt64).filter (· != 0)).reverse 0 = .ok 0 b := by
    show Arena.mark types b [] 0 = .ok 0 b
    rw [Arena.mark]
  obtain ⟨report, heap, journal, run, is, _⟩ := collect_of_mark (c := { c with heap := b }) marking
    (marks.placed consistent.placed) (marks.tiled consistent.placed consistent.tiled)
  refine ⟨report, _, run, fun r => ?_⟩
  have tells := (tells_after (M := M) (c.stats.collections + 1) 0 clear).deallocated
  rw [← objectsOf_map_marked] at tells
  have listed : report.deallocated.toList
      = ((objectsOf cells).filter (·.address ∉ M)).map (·.address) := by
    rw [is]
    exact tells
  rw [listed]
  exact mem_lost

/-- A collection that fails because of a root, with the objects `M` marked.

* `cause`: the error names a root that is no object.
* `books`, `marks`: only marks change.
* `marked`, `first`: what is marked is an object that the roots lead to, and the root that is followed
  first is marked if it is an object.
* `unchanged`: all is as before exactly if that root is no object.
* `next`: a collection without roots would now free what is not marked. -/
structure Interrupted (types : TypeTable) (c : Collector) (roots M : List UInt64) (e : GcError)
    (c' : Collector) : Prop where
  cause : ∃ r ∈ roots, r ≠ 0 ∧ ¬ c.heap.Alive types r ∧ e = .invalidReference r
  books : c' = { c with heap := c'.heap }
  marks : ∃ cells, c.heap.Tiled types 0 cells ∧ Marks c.heap cells M c'.heap
  marked : ∀ r ∈ M, c.heap.Alive types r ∧ c.heap.Reaches types roots r
  first : ∀ r, (roots.filter (· != 0)).getLast? = some r → c.heap.Alive types r → r ∈ M
  unchanged : c' = c ↔ ∃ r, (roots.filter (· != 0)).getLast? = some r ∧ ¬ c.heap.Alive types r
  next : ∃ report c'', collect types [] c' = .ok report c'' ∧
    ∀ r, r ∈ report.deallocated.toList ↔ c.heap.Alive types r ∧ r ∉ M

section

variable (tracked : Tracked types c.heap events cells)
  (judged : ∀ r ∈ roots, c.Judged types events r)

include tracked judged

/-- A collection with a root that is no object fails. -/
theorem collect_interrupted (bad : ∃ r ∈ roots, r ≠ 0 ∧ ¬ c.heap.Alive types r) :
    ∃ M e c', collect types roots c = .error e c' ∧ c.Interrupted types roots M e c' := by
  have consistent := tracked.consistent
  have alive : ∀ r, c.heap.Alive types r ↔ Live cells r := fun _ => alive_iff consistent.tiled
  simp only [alive] at bad
  obtain ⟨r, mem, M, b, nonnull, rejected, run, marks, reached, first⟩ :=
    mark_rejects tracked.built.wellFormed consistent tracked.clear
      (fun r mem nonnull => (judged r mem).known tracked nonnull) bad
  have dead : ¬ c.heap.Alive types r := (alive r).not.mpr (rejected.not_live consistent)
  refine ⟨M, _, _, collect_of_mark_error run, ⟨r, mem, nonnull, dead, rfl⟩, rfl,
    ⟨cells, consistent.tiled, marks⟩, fun s there => ?_, fun s is live => ?_, ?_, ?_⟩
  · obtain ⟨live, reachable⟩ := reached s there
    exact ⟨(alive s).mpr live, (reaches_iff consistent.tiled).mpr reachable⟩
  · rcases first s is with ⟨_, marked⟩ | ⟨gone, _⟩
    · exact marked
    · exact absurd ((alive s).mp live) gone
  · obtain ⟨head, is⟩ : ∃ head, (roots.filter (· != 0)).getLast? = some head := by
      refine Option.isSome_iff_exists.mp (List.getLast?_isSome.mpr ?_)
      exact List.ne_nil_of_mem (List.mem_filter.mpr ⟨mem, by simpa using nonnull⟩)
    simp only [is, Option.some.injEq, exists_eq_left', alive]
    constructor
    · intro same
      rcases first head is with ⟨live, marked⟩ | ⟨gone, _⟩
      · exact absurd (congrArg Collector.heap same) (marks.ne consistent tracked.clear live marked)
      · exact gone
    · intro gone
      rcases first head is with ⟨live, _⟩ | ⟨_, rfl⟩
      · exact absurd live gone
      · rfl
  · simp only [alive]
    exact collect_marked consistent tracked.clear marks

/-- A collection from roots that it can judge fails because of one of them, or all of them are objects
and it keeps what they lead to. -/
theorem collect_cases :
    (∃ M e c', collect types roots c = .error e c' ∧ c.Interrupted types roots M e c') ∨
      (∀ r ∈ roots, r = 0 ∨ c.heap.Alive types r) ∧
        ∃ M report c', collect types roots c = .ok report c' ∧
          (∀ r, r ∈ M ↔ Reachable c.heap types cells roots r) ∧
          Settled c.heap types cells M c'.heap := by
  by_cases bad : ∃ r ∈ roots, r ≠ 0 ∧ ¬ c.heap.Alive types r
  · exact .inl (collect_interrupted tracked judged bad)
  · have rooted : ∀ r ∈ roots, r = 0 ∨ c.heap.Alive types r := by
      intro r mem
      by_contra neither
      rw [not_or] at neither
      exact bad ⟨r, mem, neither⟩
    obtain ⟨M, report, heap, journal, ran, _, exactly, settled, _⟩ := tracked.collect rooted
    exact .inr ⟨rooted, M, report, _, ran, exactly, settled⟩

end

/-- **What a failed collection leaves.** Whatever the roots are, statistics, options and the noted
allocations stay. If the collector can judge the roots then nothing but some marks changes, and not
even these exactly if the root that it follows first is no object. -/
theorem failed_collect (history : History types c events)
    (failed : collect types roots c = .error e c') :
    c.SameBooks c' ∧
      ((∀ r ∈ roots, c.Judged types events r) → ∃ M, c.Interrupted types roots M e c') := by
  refine ⟨collect_error failed, fun judged => ?_⟩
  obtain ⟨cells, tracked⟩ := history.tracked
  rcases collect_cases tracked judged with
    ⟨M, e', c'', run, interrupted⟩ | ⟨_, M, report, c'', run, _⟩
  · cases failed.symm.trans run
    exact ⟨M, interrupted⟩
  · cases failed.symm.trans run

/-- The first object of a heap and the roots of a collection that fails. -/
theorem newObject_judged :
    ∃ c, newObject nodeTypes (.ofIndex 4) blank = .ok 0x40000005 c ∧
      History nodeTypes c [.made ⟨0x40000005, 13⟩] ∧
      (∀ r, c.heap.Alive nodeTypes r ↔ r = 0x40000005) ∧
      ∀ r ∈ [0x10, 0x40000005], c.Judged nodeTypes [.made ⟨0x40000005, 13⟩] r := by
  obtain ⟨c, run, base, history⟩ := newObject_blank
  obtain ⟨cells, tracked⟩ := history.tracked
  have alive : ∀ r, c.heap.Alive nodeTypes r ↔ r = 0x40000005 := by
    intro r
    rw [alive_iff tracked.consistent.tiled, ← tracked.spared]
    exact spared_made.trans (or_iff_right not_spared_nil)
  refine ⟨c, run, history, alive, fun r mem => ?_⟩
  rcases List.mem_cons.mp mem with rfl | last
  · refine .inr (.inr (.inl ?_))
    rw [Arena.contains, base]
    rfl
  · exact .inr (.inl ((alive r).mpr (List.mem_singleton.mp last)))

/-- A word outside the heap makes the collection fail after the object was marked. -/
theorem failed_collect_outside :
    ∃ c e c', newObject nodeTypes (.ofIndex 4) blank = .ok 0x40000005 c ∧
      collect nodeTypes [0x10, 0x40000005] c = .error e c' ∧ c.SameBooks c' ∧
      ∃ M, c.Interrupted nodeTypes [0x10, 0x40000005] M e c' := by
  obtain ⟨c, run, history, alive, judged⟩ := newObject_judged
  obtain ⟨cells, tracked⟩ := history.tracked
  have bad : ∃ r ∈ [0x10, 0x40000005], r ≠ 0 ∧ ¬ c.heap.Alive nodeTypes r :=
    ⟨0x10, List.mem_cons_self, by decide, by rw [alive]; decide⟩
  obtain ⟨_, e, c', failed, _⟩ := collect_interrupted tracked judged bad
  have left := failed_collect history failed
  exact ⟨c, e, c', run, failed, left.1, left.2 judged⟩

theorem not_reaches_nil {a : Arena} (r : UInt64) : ¬ a.Reaches types [] r := by
  rintro ⟨cells, _, reached⟩
  induction reached with
  | root mem => exact List.not_mem_nil mem
  | follow _ _ _ ih => exact ih

/-- The mark that a failed collection leaves keeps an object that nothing leads to from being freed. -/
theorem stale_mark_kept :
    ∃ c e c' report c'', newObject nodeTypes (.ofIndex 4) blank = .ok 0x40000005 c ∧
      collect nodeTypes [0x10, 0x40000005] c = .error e c' ∧ c' ≠ c ∧
      collect nodeTypes [] c' = .ok report c'' ∧ ¬ c'.heap.Reaches nodeTypes [] 0x40000005 ∧
      report.deallocated = #[] := by
  obtain ⟨c, run, history, alive, judged⟩ := newObject_judged
  obtain ⟨cells, tracked⟩ := history.tracked
  have bad : ∃ r ∈ [0x10, 0x40000005], r ≠ 0 ∧ ¬ c.heap.Alive nodeTypes r :=
    ⟨0x10, List.mem_cons_self, by decide, by rw [alive]; decide⟩
  obtain ⟨M, e, c', failed, interrupted⟩ := collect_interrupted tracked judged bad
  obtain ⟨report, c'', next, freed⟩ := interrupted.next
  have marked := interrupted.first 0x40000005 rfl ((alive _).mpr rfl)
  refine ⟨c, e, c', report, c'', run, failed, ?_, next, not_reaches_nil _, ?_⟩
  · rw [Ne, interrupted.unchanged]
    rintro ⟨r, is, dead⟩
    cases is
    exact dead ((alive _).mpr rfl)
  · rw [← Array.toList_eq_nil_iff, List.eq_nil_iff_forall_not_mem]
    intro r mem
    obtain ⟨live, gone⟩ := (freed r).mp mem
    rw [(alive r).mp live] at gone
    exact gone marked

/-- **Roots that are no objects are detected.** If a root is no object the collection fails and names
such a root. An object keeps its type and its data, unless it is freed. -/
theorem roots_checked (history : History types c events)
    (judged : ∀ r ∈ roots, c.Judged types events r) :
    ((∃ r ∈ roots, r ≠ 0 ∧ ¬ c.heap.Alive types r) →
      ∃ r ∈ roots, ∃ c', r ≠ 0 ∧ ¬ c.heap.Alive types r ∧
        collect types roots c = .error (.invalidReference r) c') ∧
    ∀ x ∈ (c.heap.walk types).1.toList,
      (∀ e c', collect types roots c = .error e c' → c.heap.Keeps c'.heap x) ∧
      ∀ report c', collect types roots c = .ok report c' →
        c.heap.Reaches types roots x.address → c.heap.Keeps c'.heap x := by
  obtain ⟨cells, tracked⟩ := history.tracked
  have placed := tracked.consistent.placed
  have tiled := tracked.consistent.tiled
  rw [tiled.walk]
  rcases collect_cases tracked judged with
    ⟨M, e, c', run, interrupted⟩ | ⟨rooted, M, report, c', run, exactly, settled⟩
  · obtain ⟨r, mem, nonnull, dead, rfl⟩ := interrupted.cause
    obtain ⟨cells', tiled', marks⟩ := interrupted.marks
    cases tiled.unique tiled'
    refine ⟨fun _ => ⟨r, mem, c', nonnull, dead, run⟩, fun x there => ⟨?_, ?_⟩⟩
    · intro e c'' failed
      cases failed.symm.trans run
      exact marks.keeps placed tiled there
    · intro report c'' ran
      cases ran.symm.trans run
  · refine ⟨fun ⟨r, mem, nonnull, dead⟩ => absurd (rooted r mem) (not_or.mpr ⟨nonnull, dead⟩),
      fun x there => ⟨?_, ?_⟩⟩
    · intro e c'' failed
      cases failed.symm.trans run
    · intro report' c'' ran reached
      cases ran.symm.trans run
      exact settled.keeps placed tiled there ((exactly _).mpr ((reaches_iff tiled).mp reached))

/-- A word outside the heap is named by the error. -/
theorem roots_checked_outside :
    ∃ c c', newObject nodeTypes (.ofIndex 4) blank = .ok 0x40000005 c ∧
      collect nodeTypes [0x10, 0x40000005] c = .error (.invalidReference 0x10) c' := by
  obtain ⟨c, run, history, alive, judged⟩ := newObject_judged
  obtain ⟨r, mem, c', nonnull, dead, failed⟩ := (roots_checked history judged).1
    ⟨0x10, List.mem_cons_self, by decide, by rw [alive]; decide⟩
  rcases List.mem_cons.mp mem with rfl | last
  · exact ⟨c, c', run, failed⟩
  · exact absurd ((alive r).mpr (List.mem_singleton.mp last)) dead

/-! ## A root inside an object -/

def rowTypes : TypeTable := (TypeTable.Command.arrayOf (.ofIndex 0)).run .primitives

/-- An array of four zeros as the first object of a heap of one page. -/
theorem newArray_blank :
    ∃ c, newArray rowTypes (.ofIndex 4) 4 blank = .ok 0x40000005 c ∧
      blank.heap.Extended rowTypes (.ofIndex 4) 25 c.heap ∧ c.heap.firstWord 0 = 4 := by
  have array : rowTypes.element? (.ofIndex 4) = some (.ofIndex 0) := by decide +kernel
  have fits : blank.heap.fit? (arrayDataSize (rowTypes.size (.ofIndex 0)) 4) = some 25 := by
    decide +kernel
  rcases newArray_spec (c := blank) ⟨by decide, by decide⟩ array (show 4 < 2 ^ 31 by decide) with
    ⟨full, _⟩ | ⟨total, c, room, run, extended, first⟩
  · cases fits.symm.trans full
  · cases fits.symm.trans room
    exact ⟨c, run, extended, first⟩

theorem pushReferences_row (a : Arena) {type : TypeId} (known : type = .ofIndex 3 ∨ type = .ofIndex 4)
    (data : UInt64) (work : List UInt64) :
    a.pushReferences rowTypes type data work = .ok work := by
  have nothing : rowTypes.shape? (.ofIndex 3) = some (.primitive .void) := by cbv
  have array : rowTypes.shape? (.ofIndex 4) = some (.array (.ofIndex 0)) := by cbv
  have value : rowTypes.isReference (.ofIndex 0) = false := by decide +kernel
  unfold pushReferences
  rcases known with rfl | rfl
  · rw [nothing]
  · rw [array]
    dsimp only
    rw [value, if_neg (by decide)]

/-- A word inside the array is taken for an object. The length of the array is read as its type, and
its mark is set in the first number of the array. -/
theorem interior_root_accepted :
    ∃ c report c', newArray rowTypes (.ofIndex 4) 4 blank = .ok 0x40000005 c ∧
      (∀ r, c.heap.Alive rowTypes r ↔ r = 0x40000005) ∧
      collect rowTypes [0x4000000A, 0x40000005] c = .ok report c' ∧
      c.heap.region.byte 9 = 0 ∧ c'.heap.region.byte 9 = 1 := by
  obtain ⟨c, run, extended, length⟩ := newArray_blank
  have empty : blank.heap.Regular rowTypes [] := ⟨⟨by decide, by decide⟩, rfl, by simp [objectsOf]⟩
  have regular := extended.regular empty
  have placed := regular.placed
  have tiled := regular.tiled
  have base : c.heap.region.base = heapBase := extended.base
  have size : c.heap.region.size = 4096 := extended.size
  have used : c.heap.used = 25 := extended.used
  have mem : blank.heap.newCell (.ofIndex 4) 25 ∈ [] ++ [blank.heap.newCell (.ofIndex 4) 25] :=
    List.mem_cons_self
  have zero : c.heap.region.byte 9 = 0 := by
    refine extended.zero (4, .ofIndex 0) ?_ 9 (by decide) (by decide)
    rw [show blank.heap.used = 0 from rfl, length]
    decide +kernel
  -- The array is followed first and marked.
  have marks := (Marks.refl c.heap _).insert placed tiled mem rfl
  have header := (Marks.refl c.heap _).header? placed tiled mem rfl
  rw [if_neg List.not_mem_nil] at header
  have first := mark_visit (contains_address placed tiled mem rfl) header (isTombstone_live ..) rfl
    (TypeId.ofRaw?_raw _) (pushReferences_row _ (.inr rfl) _ [0x4000000A]) 0
  generalize c.heap.setInfo _ _ = b at marks first
  have placed' := marks.placed placed
  have tiled' := marks.tiled placed tiled
  have same := marks.sameData tiled mem
  -- Then the word inside it, whose header would be the length and the first number.
  have place : b.dataAt 5 = 0x4000000A := by rw [marks.dataAt, dataAt, Arena.base, base]; rfl
  have inside : 5 + headerSize ≤ b.region.size := by rw [marks.size, size]; decide
  have header' : b.header? 0x4000000A = some ⟨4, ⟨0⟩⟩ := by
    have word : b.region.wordAt 5 4 = c.heap.region.wordAt 5 4 :=
      Region.wordAt_congr fun j low high => same j low (show j < 0 + 25 by omega)
    rw [← place, header?_dataAt placed' inside, headerAt, same 9 (by decide) (by decide), zero, word]
    exact congrArg (fun n => some (Header.mk n ⟨0⟩)) length
  have there : b.contains 0x4000000A = true := by
    rw [marks.contains, Arena.contains, next, Arena.base, base, used]
    rfl
  have second := mark_visit there header' rfl rfl
    (show TypeId.ofRaw? 4 = some (.ofIndex 3) from rfl) (pushReferences_row _ (.inl rfl) _ []) 1
  have region : (b.setInfo 0x4000000A (GcInfo.marked ⟨0⟩)).region = b.region.setByte 9 1 := by
    rw [← place]
    exact setInfo_eq _ (offset?_info placed' inside)
  have within : b.Within rowTypes 0x40000005 (b.setInfo 0x4000000A (GcInfo.marked ⟨0⟩)) := by
    refine ⟨by rw [region, Region.base_setByte], by rw [region, Region.size_setByte], rfl,
      _, tiled', _, List.mem_map_of_mem mem, _, rfl, rfl, fun j changed => ?_⟩
    have here : j = 9 := by
      by_contra elsewhere
      rw [region, Region.byte_setByte, if_neg elsewhere] at changed
      exact changed rfl
    subst here
    exact ⟨by decide +kernel, by decide⟩
  have marking : Arena.mark rowTypes c.heap
      ([0x4000000A, 0x40000005].filter (· != 0)).reverse 0 = .ok 2 _ :=
    first.trans (second.trans (by rw [Arena.mark]))
  obtain ⟨report, heap, journal, done, _, swept⟩ :=
    collect_of_mark marking (within.placed placed') (within.tiled placed' tiled')
  refine ⟨c, report, _, run, fun r => ?_, done, zero, ?_⟩
  · rw [alive_iff tiled, live_snoc (x := ⟨0x40000005, .ofIndex 4, .fresh, 25⟩) rfl]
    refine or_iff_right ?_
    rintro ⟨_, none_, _⟩
    exact absurd none_ List.not_mem_nil
  · show heap.region.byte 9 = 1
    rw [swept.data _ (List.mem_map_of_mem mem) _ rfl rfl 9 (by decide) (by decide), region,
      Region.byte_setByte, if_pos rfl]

end Collector

end ManagedCode.Heap

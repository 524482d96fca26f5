import Mathlib.Data.List.Sort
import Mathlib.Order.Lattice

/-!
# An interval index with running maxima

The index lists closed intervals by their first bound and stores with each one the largest last
bound up to and including it.  A stabbing query scans the intervals that start at or before the
point from the right and stops as soon as the running maximum is below the point.  Sortedness and
the running maximum are fields of the index, so a query never meets an index without them.
-/

namespace Exo.Library

/-- An interval with its payload and the running maximum of the last bounds. -/
structure IndexedInterval (Bound Key : Type*) where
  first : Bound
  last : Bound
  maxLast : Bound
  key : Key

namespace IndexedInterval

variable {Bound Key : Type*} [LinearOrder Bound]

/-- The loop that writes the running maximum, started from the maximum of what is before. -/
def accumulate : Option Bound → List (IndexedInterval Bound Key) →
    List (IndexedInterval Bound Key)
  | _, [] => []
  | running, interval :: rest =>
    let maxLast := running.elim interval.last (max · interval.last)
    { interval with maxLast := maxLast } :: accumulate (some maxLast) rest

/-- The intervals before the first one that starts after `point`. -/
def startingBy (point : Bound) (intervals : List (IndexedInterval Bound Key)) :
    List (IndexedInterval Bound Key) :=
  intervals.takeWhile (fun interval ↦ interval.first ≤ point)

section
variable (intervals : List (IndexedInterval Bound Key))

/-- The number of intervals that start at or before `point`. -/
def partitionPoint (point : Bound) : ℕ :=
  (startingBy point intervals).length

/-- The scan of a query, from the right, with its early stop. -/
def scan (point : Bound) : List (IndexedInterval Bound Key) → List Key
  | [] => []
  | interval :: rest =>
    if interval.maxLast < point then []
    else if point ≤ interval.last then interval.key :: scan point rest
    else scan point rest

/-- The earlier interval ends no later than the running maximum of the later one says. -/
def Covers (earlier later : IndexedInterval Bound Key) : Prop := earlier.last ≤ later.maxLast

instance (earlier later : IndexedInterval Bound Key) : Decidable (Covers earlier later) :=
  inferInstanceAs (Decidable (_ ≤ _))

/-- The running maxima are at least every last bound up to and including their own. -/
def Accumulated : Prop :=
  intervals.Pairwise Covers ∧ ∀ interval ∈ intervals, Covers interval interval

/-- The intervals are listed by their first bound. -/
def SortedByFirst : Prop :=
  intervals.Pairwise (fun earlier later ↦ earlier.first ≤ later.first)

end

theorem map_accumulate {α : Type*} (f : IndexedInterval Bound Key → α)
    (hf : ∀ interval maxLast, f { interval with maxLast := maxLast } = f interval)
    (running : Option Bound) (intervals : List (IndexedInterval Bound Key)) :
    (accumulate running intervals).map f = intervals.map f := by
  induction intervals generalizing running with
  | nil => rfl
  | cons interval rest ih => simp only [accumulate, List.map_cons, ih, hf]

variable {intervals : List (IndexedInterval Bound Key)}

theorem le_maxLast_of_mem_accumulate {bound : Bound} {running : Option Bound}
    {interval : IndexedInterval Bound Key} (hrunning : ∃ current ∈ running, bound ≤ current)
    (hinterval : interval ∈ accumulate running intervals) : bound ≤ interval.maxLast := by
  induction intervals generalizing running with
  | nil => simp [accumulate] at hinterval
  | cons head rest ih =>
    obtain ⟨current, rfl, hle⟩ := hrunning
    have hmax : bound ≤ max current head.last := hle.trans (le_max_left _ _)
    rw [accumulate, List.mem_cons] at hinterval
    rcases hinterval with rfl | hrest
    · exact hmax
    · exact ih ⟨_, rfl, hmax⟩ hrest

theorem accumulated_accumulate (running : Option Bound)
    (intervals : List (IndexedInterval Bound Key)) :
    Accumulated (accumulate running intervals) := by
  induction intervals generalizing running with
  | nil => simp [accumulate, Accumulated]
  | cons interval rest ih =>
    have hself : interval.last ≤ running.elim interval.last (max · interval.last) := by
      cases running with
      | none => exact le_refl _
      | some current => exact le_max_right _ _
    obtain ⟨hpairwise, hrest⟩ := ih (some (running.elim interval.last (max · interval.last)))
    constructor
    · rw [accumulate, List.pairwise_cons]
      exact ⟨fun later hlater ↦ le_maxLast_of_mem_accumulate ⟨_, rfl, hself⟩ hlater, hpairwise⟩
    · intro later hlater
      rw [accumulate, List.mem_cons] at hlater
      rcases hlater with rfl | hlater
      · exact hself
      · exact hrest later hlater

theorem accumulated_append {first second : List (IndexedInterval Bound Key)}
    (hfirst : Accumulated first) (hsecond : Accumulated second)
    (hacross : ∀ earlier ∈ first, ∀ later ∈ second, Covers earlier later) :
    Accumulated (first ++ second) := by
  constructor
  · exact List.pairwise_append.2 ⟨hfirst.1, hsecond.1, hacross⟩
  · intro interval hinterval
    rw [List.mem_append] at hinterval
    exact hinterval.elim (hfirst.2 interval) (hsecond.2 interval)

theorem sortedByFirst_accumulate (running : Option Bound) (hsorted : SortedByFirst intervals) :
    SortedByFirst (accumulate running intervals) := by
  unfold SortedByFirst
  rw [← List.pairwise_map (R := (· ≤ ·)) (f := IndexedInterval.first),
    map_accumulate IndexedInterval.first (fun _ _ ↦ rfl), List.pairwise_map]
  exact hsorted

variable {point : Bound}

theorem mem_startingBy (hsorted : SortedByFirst intervals) (interval : IndexedInterval Bound Key) :
    interval ∈ startingBy point intervals ↔ interval ∈ intervals ∧ interval.first ≤ point := by
  induction intervals with
  | nil => simp [startingBy]
  | cons head rest ih =>
    obtain ⟨hhead, hrest⟩ := List.pairwise_cons.1 hsorted
    by_cases hstart : head.first ≤ point
    · have htake : startingBy point (head :: rest) = head :: startingBy point rest := by
        simp [startingBy, hstart]
      rw [htake, List.mem_cons, List.mem_cons, ih hrest]
      constructor
      · rintro (rfl | hmem)
        · exact ⟨.inl rfl, hstart⟩
        · exact ⟨.inr hmem.1, hmem.2⟩
      · rintro ⟨rfl | hmem, hle⟩
        · exact .inl rfl
        · exact .inr ⟨hmem, hle⟩
    · have htake : startingBy point (head :: rest) = [] := by simp [startingBy, hstart]
      rw [htake]
      constructor
      · intro hmem
        cases hmem
      · rintro ⟨hmem, hle⟩
        rcases List.mem_cons.1 hmem with rfl | hmem
        · exact absurd hle hstart
        · exact absurd ((hhead interval hmem).trans hle) hstart

theorem take_partitionPoint (point : Bound) (intervals : List (IndexedInterval Bound Key)) :
    intervals.take (partitionPoint intervals point) = startingBy point intervals :=
  (List.prefix_iff_eq_take.1 (List.takeWhile_prefix _)).symm

theorem lt_first_of_mem_drop (hsorted : SortedByFirst intervals)
    {interval : IndexedInterval Bound Key}
    (hmem : interval ∈ intervals.drop (partitionPoint intervals point)) :
    point < interval.first := by
  induction intervals with
  | nil => simp at hmem
  | cons head rest ih =>
    obtain ⟨hhead, hrest⟩ := List.pairwise_cons.1 hsorted
    by_cases hstart : head.first ≤ point
    · have hpoint : partitionPoint (head :: rest) point = partitionPoint rest point + 1 := by
        simp [partitionPoint, startingBy, hstart]
      rw [hpoint, List.drop_succ_cons] at hmem
      exact ih hrest hmem
    · have hpoint : partitionPoint (head :: rest) point = 0 := by
        simp [partitionPoint, startingBy, hstart]
      rw [hpoint, List.drop_zero] at hmem
      rcases List.mem_cons.1 hmem with rfl | hmem
      · exact not_le.1 hstart
      · exact (not_le.1 hstart).trans_le (hhead interval hmem)

/-- The early stop loses nothing: the scan reports every interval that reaches the point. -/
theorem mem_scan {key : Key}
    (hpairwise : intervals.Pairwise (fun later earlier ↦ Covers earlier later))
    (hself : ∀ interval ∈ intervals, Covers interval interval) :
    key ∈ scan point intervals ↔
      ∃ interval ∈ intervals, interval.key = key ∧ point ≤ interval.last := by
  induction intervals with
  | nil => simp [scan]
  | cons head rest ih =>
    obtain ⟨hhead, hrest⟩ := List.pairwise_cons.1 hpairwise
    have hih := ih hrest (fun interval hmem ↦ hself interval (List.mem_cons_of_mem _ hmem))
    have hcovers : ∀ interval ∈ head :: rest, interval.last ≤ head.maxLast := by
      intro interval hmem
      rcases List.mem_cons.1 hmem with rfl | hmem
      · exact hself interval List.mem_cons_self
      · exact hhead interval hmem
    by_cases hstop : head.maxLast < point
    · have hnone : ∀ interval ∈ head :: rest, ¬ point ≤ interval.last := by
        intro interval hmem hle
        exact absurd (hstop.trans_le (hle.trans (hcovers interval hmem))) (lt_irrefl _)
      simp only [scan, hstop, if_true, List.not_mem_nil, false_iff]
      rintro ⟨interval, hmem, _, hle⟩
      exact hnone interval hmem hle
    · by_cases hreach : point ≤ head.last
      · simp only [scan, hstop, hreach, if_true, if_false, List.mem_cons, hih, exists_eq_or_imp,
          and_true, eq_comm (a := key)]
      · simp only [scan, hstop, hreach, if_false, hih, List.mem_cons, exists_eq_or_imp, and_false,
          false_or]

end IndexedInterval

open IndexedInterval List

/-- Intervals listed by their first bound, with correct running maxima. -/
structure IntervalIndex (Bound Key : Type*) [LinearOrder Bound] where
  intervals : List (IndexedInterval Bound Key)
  sorted : SortedByFirst intervals
  accumulated : Accumulated intervals

namespace IntervalIndex

variable {Bound Key : Type*} [LinearOrder Bound]

/-- The index without intervals. -/
def empty : IntervalIndex Bound Key where
  intervals := []
  sorted := List.Pairwise.nil
  accumulated := ⟨List.Pairwise.nil, by simp⟩

/-- Sort the ranges by their first bound and write the running maxima. -/
def ofRanges (ranges : List (Bound × Bound × Key)) : IntervalIndex Bound Key where
  intervals := accumulate none
    ((ranges.map fun range ↦ ⟨range.1, range.2.1, range.2.1, range.2.2⟩).insertionSort
      (fun earlier later ↦ earlier.first ≤ later.first))
  sorted := by
    apply sortedByFirst_accumulate
    have : Std.Total (fun earlier later : IndexedInterval Bound Key ↦
        earlier.first ≤ later.first) := ⟨fun earlier later ↦ le_total earlier.first later.first⟩
    have : IsTrans (IndexedInterval Bound Key) (fun earlier later ↦
        earlier.first ≤ later.first) := ⟨fun _ _ _ hle hle' ↦ hle.trans hle'⟩
    exact List.pairwise_insertionSort _ _
  accumulated := accumulated_accumulate _ _

section
variable (index : IntervalIndex Bound Key)

/-- The running maximum just before the position at which a range starting at `first` goes. -/
def runningBefore (first : Bound) : Option Bound :=
  (index.intervals.take (partitionPoint index.intervals first)).getLast?.map IndexedInterval.maxLast

theorem covers_runningBefore (first : Bound)
    {interval : IndexedInterval Bound Key} (hmem : interval ∈ startingBy first index.intervals) :
    ∃ current ∈ index.runningBefore first, interval.last ≤ current := by
  have hne : startingBy first index.intervals ≠ [] := ne_nil_of_mem hmem
  have hsublist : (startingBy first index.intervals).Sublist index.intervals :=
    takeWhile_sublist _
  refine ⟨((startingBy first index.intervals).getLast hne).maxLast, ?_, ?_⟩
  · simp [runningBefore, take_partitionPoint, getLast?_eq_some_getLast hne]
  · have hpairwise := index.accumulated.1.sublist hsublist
    rw [← dropLast_append_getLast hne, pairwise_append] at hpairwise
    rw [← dropLast_append_getLast hne, mem_append, mem_singleton] at hmem
    rcases hmem with hmem | hlast
    · exact hpairwise.2.2 interval hmem _ (mem_singleton_self _)
    · rw [hlast]
      exact index.accumulated.2 _ (hsublist.subset (getLast_mem hne))

/-- Insert a range after every interval that starts no later, and redo the maxima from there. -/
def insert (first last : Bound) (key : Key) : IntervalIndex Bound Key where
  intervals :=
    index.intervals.take (partitionPoint index.intervals first) ++
      accumulate (index.runningBefore first)
        (⟨first, last, last, key⟩ :: index.intervals.drop (partitionPoint index.intervals first))
  sorted := by
    have hsplit := index.sorted
    unfold SortedByFirst at hsplit
    rw [← List.take_append_drop (partitionPoint index.intervals first) index.intervals,
      List.pairwise_append] at hsplit
    obtain ⟨hbefore, hafter, hacross⟩ := hsplit
    have hnew : SortedByFirst (⟨first, last, last, key⟩ ::
        index.intervals.drop (partitionPoint index.intervals first)) := by
      refine List.pairwise_cons.2 ⟨fun later hlater ↦ ?_, hafter⟩
      exact (lt_first_of_mem_drop index.sorted hlater).le
    unfold SortedByFirst
    rw [← List.pairwise_map (R := (· ≤ ·)) (f := IndexedInterval.first), List.map_append,
      map_accumulate IndexedInterval.first (fun _ _ ↦ rfl), ← List.map_append, List.pairwise_map,
      List.pairwise_append]
    refine ⟨hbefore, hnew, ?_⟩
    intro earlier hearlier later hlater
    rcases List.mem_cons.1 hlater with rfl | hlater
    · rw [take_partitionPoint] at hearlier
      exact ((mem_startingBy index.sorted earlier).1 hearlier).2
    · exact hacross earlier hearlier later hlater
  accumulated := by
    apply accumulated_append
    · have hsublist := List.take_sublist (partitionPoint index.intervals first) index.intervals
      exact ⟨index.accumulated.1.sublist hsublist,
        fun interval hmem ↦ index.accumulated.2 interval (hsublist.subset hmem)⟩
    · exact accumulated_accumulate _ _
    · intro earlier hearlier later hlater
      rw [take_partitionPoint] at hearlier
      exact le_maxLast_of_mem_accumulate (index.covers_runningBefore first hearlier) hlater

/-- The ranges with their payloads, without the running maxima. -/
def ranges : List (Bound × Bound × Key) :=
  index.intervals.map (fun interval ↦ (interval.first, interval.last, interval.key))

@[simp]
theorem mem_ranges_empty (range : Bound × Bound × Key) :
    range ∈ (empty : IntervalIndex Bound Key).ranges ↔ False := by
  simp [ranges, empty]

@[simp]
theorem mem_ranges_ofRanges (range : Bound × Bound × Key) (given : List (Bound × Bound × Key)) :
    range ∈ (ofRanges given).ranges ↔ range ∈ given := by
  rw [ranges, ofRanges, map_accumulate _ (fun _ _ ↦ rfl)]
  simp only [mem_map, mem_insertionSort, exists_exists_and_eq_and, Prod.mk.eta, exists_eq_right]

@[simp]
theorem mem_ranges_insert (first last : Bound) (key : Key)
    (range : Bound × Bound × Key) :
    range ∈ (index.insert first last key).ranges ↔
      range = (first, last, key) ∨ range ∈ index.ranges := by
  have hsplit : range ∈ index.ranges ↔
      range ∈ (index.intervals.take (partitionPoint index.intervals first)).map
        (fun interval ↦ (interval.first, interval.last, interval.key)) ∨
      range ∈ (index.intervals.drop (partitionPoint index.intervals first)).map
        (fun interval ↦ (interval.first, interval.last, interval.key)) := by
    rw [← mem_append, ← map_append, take_append_drop, ranges]
  rw [hsplit, ranges, insert, map_append, map_accumulate _ (fun _ _ ↦ rfl), mem_append,
    map_cons, mem_cons]
  tauto

/-- The payloads of the intervals that contain `point`, by the scan from the right. -/
def containing (point : Bound) : List Key :=
  scan point (index.intervals.take (partitionPoint index.intervals point)).reverse

theorem mem_containing (point : Bound) (key : Key) : key ∈ index.containing point ↔
      ∃ first last, (first, last, key) ∈ index.ranges ∧ first ≤ point ∧ point ≤ last := by
  have hsublist : (startingBy point index.intervals).Sublist index.intervals :=
    takeWhile_sublist _
  unfold containing
  rw [take_partitionPoint, mem_scan]
  · simp only [mem_reverse, mem_startingBy index.sorted, ranges, mem_map]
    constructor
    · rintro ⟨interval, ⟨hmem, hfirst⟩, rfl, hlast⟩
      exact ⟨interval.first, interval.last, ⟨interval, hmem, rfl⟩, hfirst, hlast⟩
    · rintro ⟨first, last, ⟨interval, hmem, hrange⟩, hfirst, hlast⟩
      cases hrange
      exact ⟨interval, ⟨hmem, hfirst⟩, rfl, hlast⟩
  · exact pairwise_reverse.2 (index.accumulated.1.sublist hsublist)
  · intro interval hmem
    exact index.accumulated.2 interval (hsublist.subset (mem_reverse.1 hmem))

end

end IntervalIndex

end Exo.Library

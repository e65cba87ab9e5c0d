import NodeAgg.State

/-!
# The states of a group

What a group's transitions hold after it has read some rows.  `groupStates cfg
c` runs, for every transition, one row's update (`transStep`) over the rows `c`
from the initial state; this is what `advance_aggregates` (or
`combine_aggregates`) does to a group's states one row at a time
(`rowStep_groupStates`).  A DISTINCT / ORDER BY transition is not advanced: its
rows go to its sorter, whose contents are `sorterOf`.

`transFold` is the state in the words of the contract: the left fold of the
transition function over the rows the FILTER passes, or in COMBINE mode of the
combine function over all rows (`combine_aggregates` evaluates no FILTER).  The
two agree on every transition without DISTINCT / ORDER BY
(`groupStates_eq_transFold`).
-/

namespace NodeAgg

section

variable {D : Type} [Inhabited D]

/-- One row's effect on one transition's state: the combine function in
COMBINE mode, else the transition function unless the FILTER rejects the row
or the transition sorts its input. -/
def transStep (cfg : AggConfig D) (pt : AggStatePerTrans D) (pg : AggStatePerGroup D)
    (t : Tuple D) : AggStatePerGroup D :=
  if cfg.aggsplit.combine then advanceCombineFunction pt (combineInput pt t) pg
  else advanceTrans pt t pg

/-- The states of a group that has read the rows `c`. -/
def groupStates (cfg : AggConfig D) (c : List (Tuple D)) : List (AggStatePerGroup D) :=
  cfg.pertrans.map fun pt => c.foldl (transStep cfg pt) (initializeAggregate pt)

/-- What one row does to a group's states: `combine_aggregates` in COMBINE
mode, else the per-group part of `advance_aggregates`. -/
def rowStep (cfg : AggConfig D) (t : Tuple D) (pgs : List (AggStatePerGroup D)) :
    List (AggStatePerGroup D) :=
  if cfg.aggsplit.combine then combineAggregates cfg t pgs else advanceGroupStates cfg t pgs

omit [Inhabited D] in
/-- A per-transition loop over an array built from the transitions. -/
theorem mapIdx_withTrans_map {α : Type} (cfg : AggConfig D) (f : AggStatePerTrans D → α)
    (g : AggStatePerTrans D → α → α) :
    (cfg.pertrans.map f).mapIdx (cfg.withTrans g) = cfg.pertrans.map fun pt => g pt (f pt) := by
  refine List.mapIdx_eq_iff.mpr fun i => ?_
  cases h : cfg.pertrans[i]? <;> simp [AggConfig.withTrans, h]

omit [Inhabited D] in
/-- A per-transition loop whose body changes nothing. -/
theorem mapIdx_withTrans_id {α : Type} (cfg : AggConfig D) {g : Nat → AggStatePerTrans D → α → α}
    (hg : ∀ i, ∀ pt ∈ cfg.pertrans, ∀ x, g i pt x = x) (l : List α) :
    l.mapIdx (fun i => cfg.withTrans (g i) i) = l := by
  refine List.mapIdx_eq_iff.mpr fun i => ?_
  cases hl : l[i]? with
  | none => rfl
  | some x =>
    cases h : cfg.pertrans[i]? with
    | none => simp [AggConfig.withTrans, h]
    | some pt => simp [AggConfig.withTrans, h, hg i pt (List.getElem?_mem h)]

theorem rowStep_of_combine {cfg : AggConfig D} (hc : cfg.aggsplit.combine = true) (t : Tuple D) :
    rowStep cfg t = combineAggregates cfg t :=
  funext fun _ => if_pos hc

theorem rowStep_of_not_combine {cfg : AggConfig D} (hc : cfg.aggsplit.combine = false) (t : Tuple D) :
    rowStep cfg t = advanceGroupStates cfg t :=
  funext fun _ => if_neg (by simp [hc])

theorem groupStates_nil (cfg : AggConfig D) : groupStates cfg [] = initializeEntry cfg := rfl

theorem rowStep_groupStates (cfg : AggConfig D) (t : Tuple D) (c : List (Tuple D)) :
    rowStep cfg t (groupStates cfg c) = groupStates cfg (c ++ [t]) := by
  unfold rowStep groupStates combineAggregates advanceGroupStates
  split <;> rw [mapIdx_withTrans_map] <;> simp [transStep, *]

/-! ## The contract's words -/

/-- A transition's state after the rows `c`, as the contract states it. -/
def transFold (cfg : AggConfig D) (pt : AggStatePerTrans D) (c : List (Tuple D)) : AggStatePerGroup D :=
  if cfg.aggsplit.combine then
    c.foldl (fun pg t => advanceCombineFunction pt (combineInput pt t) pg) (initializeAggregate pt)
  else
    (c.filter (passesFilter pt)).foldl (fun pg t => advanceTransitionFunction pt (transArgs pt t) pg)
      (initializeAggregate pt)

/-- Without DISTINCT / ORDER BY, the state fold of a group is the fold of the
transition function over its FILTER-passing rows. -/
theorem foldl_advanceTrans {pt : AggStatePerTrans D} (hsort : pt.numSortCols = 0)
    (c : List (Tuple D)) (pg : AggStatePerGroup D) :
    c.foldl (fun pg t => advanceTrans pt t pg) pg =
      (c.filter (passesFilter pt)).foldl (fun pg t => advanceTransitionFunction pt (transArgs pt t) pg) pg := by
  induction c generalizing pg with
  | nil => rfl
  | cons t c ih =>
    rw [List.foldl_cons, ih, List.filter_cons]
    by_cases hp : passesFilter pt t = true <;> simp [advanceTrans, hp, hsort]

theorem foldl_transStep_eq_transFold {cfg : AggConfig D} {pt : AggStatePerTrans D}
    (hsort : pt.numSortCols = 0) (c : List (Tuple D)) :
    c.foldl (transStep cfg pt) (initializeAggregate pt) = transFold cfg pt c := by
  unfold transStep transFold
  cases cfg.aggsplit.combine
  · exact foldl_advanceTrans hsort c _
  · rfl

theorem groupStates_eq_transFold {cfg : AggConfig D} (hsort : ∀ pt ∈ cfg.pertrans, pt.numSortCols = 0)
    (c : List (Tuple D)) : groupStates cfg c = cfg.pertrans.map (transFold cfg · c) :=
  List.map_congr_left fun pt hpt => foldl_transStep_eq_transFold (hsort pt hpt) c

/-! ## Sorters -/

/-- What a DISTINCT / ORDER BY transition's sorter holds after the rows `c`:
the sort input of each row it accepts; no sorter for the other transitions. -/
def sorterOf (pt : AggStatePerTrans D) (c : List (Tuple D)) : Option (List (Tuple D)) :=
  if 0 < pt.numSortCols then some ((c.filter (sortAccepts pt)).map (sortInput pt)) else none

omit [Inhabited D] in
theorem sorterOf_nil (pt : AggStatePerTrans D) : sorterOf pt [] = initializeSort pt := by
  simp [sorterOf, initializeSort]

omit [Inhabited D] in
/-- `tuplesort_putdatum` / `tuplesort_puttupleslot` of one row. -/
theorem sorterOf_append (pt : AggStatePerTrans D) (c : List (Tuple D)) (t : Tuple D) :
    sorterOf pt (c ++ [t]) =
      if sortAccepts pt t then (sorterOf pt c).map (· ++ [sortInput pt t]) else sorterOf pt c := by
  unfold sorterOf
  by_cases hs : 0 < pt.numSortCols
  · by_cases ha : sortAccepts pt t = true <;> simp [hs, ha]
  · have : sortAccepts pt t = false := by simp [sortAccepts, hs]
    simp [hs, this]

end

end NodeAgg

import NodeAgg.HashTable

/-!
# The Agg node's state and its per-row operations

`AggConfig` is what `ExecInitAgg` fixes once: the strategy and split mode, the
phases, the per-transition, per-aggregate and per-hash data, and the GUCs the
hybrid code reads.  `AggState` is what the node mutates: the phase and
grouping-set cursor (`current_phase`, `projected_set`), the input flags, the
representative-tuple slot, the sorted path's per-group states (one array per
grouping set), the DISTINCT / ORDER BY sorters, the input (the outer plan's
remaining tuples, or the phase's input sorter), the output sorter feeding the
next phase, and the hash tables with their iterators.

The operations are the source's helpers that touch one input row or one
output group: `initialize_phase`, `fetch_input_tuple`, `initialize_aggregates`,
`advance_aggregates`, `combine_aggregates`, `finalize_aggregates`,
`prepare_projection_slot` and `project_aggregates`.  Expression evaluation is
already folded into the configuration (`evalArgs`, `aggfilter`, the qual), and
the output row is the projection's input: the phase and grouping set, the
representative tuple, the set's transition states and the aggregate values.
-/

namespace NodeAgg

inductive AggStrategy
  | plain
  | sorted
  | hashed
  | mixed
  deriving DecidableEq, Repr

/-- The `aggsplit` flags. -/
structure AggSplit where
  combine : Bool
  skipfinal : Bool
  serialize : Bool
  deserialize : Bool
  deriving DecidableEq, Repr

/-- `AggStatePerPhaseData`, with the fields of the phase's Agg node that the
sorted path reads (`numCols`, `grpColIdx`) and the ordering its Sort node
imposes on the phase's input. -/
structure AggStatePerPhase (D : Type) where
  aggstrategy : AggStrategy
  numsets : Nat
  gsetLengths : List Nat
  /-- `grouped_cols`: NULL for a phase without grouping sets. -/
  groupedCols : Option (List (List Nat))
  eqfunctions : List (D → D → Bool)
  numCols : Nat
  grpColIdx : List Nat
  /-- `tuplesort_performsort` of the sorter built from this phase's Sort node. -/
  sortnode : List (Tuple D) → List (Tuple D)

/-- A row the node hands to its projection: which phase and grouping set it
belongs to, the representative tuple after `prepare_projection_slot`, the
set's transition states after finalisation and the aggregate values. -/
structure AggOutput (D : Type) where
  phase : Nat
  set : Nat
  rep : Tuple D
  pergroup : List (AggStatePerGroup D)
  aggvalues : List (NullableDatum D)
  deriving DecidableEq, Repr

/-- What `ExecInitAgg` fixes.  `qual` is the HAVING clause on an output row. -/
structure AggConfig (D : Type) where
  aggstrategy : AggStrategy
  aggsplit : AggSplit
  phases : List (AggStatePerPhase D)
  pertrans : List (AggStatePerTrans D)
  peragg : List (AggStatePerAgg D)
  perhash : List (AggStatePerHash D)
  /-- `all_grouped_cols`, in descending order. -/
  allGroupedCols : List Nat
  /-- Attributes of the scan tuple. -/
  natts : Nat
  qual : AggOutput D → Bool
  /-- `g_hybrid_hash_agg`, `work_mem` and `g_default_hashagg_nbatches`. -/
  hybridHashAgg : Bool
  workMem : Nat
  defaultHashaggNbatches : Nat

/-- The mutable part of `AggState`. -/
structure AggState (D : Type) where
  currentPhase : Nat
  currentSet : Nat
  projectedSet : Int
  inputDone : Bool
  aggDone : Bool
  tableFilled : Bool
  grpFirstTuple : Option (Tuple D)
  /-- `ss_ScanTupleSlot`, the representative tuple; `none` while empty. -/
  firstSlot : Option (Tuple D)
  /-- `tmpcontext->ecxt_outertuple`, the input tuple being aggregated. -/
  tmpOuterTuple : Option (Tuple D)
  /-- `pergroup`, the sorted path's states: `pergroup[setno][transno]` is the C
  array's element `transno + setno * numtrans`. -/
  pergroup : List (List (AggStatePerGroup D))
  /-- `pertrans[transno].sortstates[setno]`: the tuples put into that sorter. -/
  sortstates : List (List (Option (List (Tuple D))))
  /-- The outer plan's tuples not yet fetched. -/
  outer : List (Tuple D)
  /-- `sort_in`: the phase's input sorter, its tuples not yet read. -/
  sortIn : Option (List (Tuple D))
  /-- `sort_out`: the tuples put into the next phase's sorter. -/
  sortOut : Option (List (Tuple D))
  hashtables : List (TupleHashTable D)
  /-- `perhash[i].hashiter`: the position of the next entry to scan. -/
  hashiters : List Nat
  deriving DecidableEq, Repr

section

variable {D : Type} [Inhabited D]

/-- A phase that is never used: what an out-of-range `phases[i]` reads as. -/
def AggStatePerPhase.dummy : AggStatePerPhase D :=
  ⟨.plain, 0, [], none, [], 0, [], id⟩

namespace AggConfig

def numphases (cfg : AggConfig D) : Nat := cfg.phases.length

def phase (cfg : AggConfig D) (i : Nat) : AggStatePerPhase D := cfg.phases.getD i .dummy

def numtrans (cfg : AggConfig D) : Nat := cfg.pertrans.length

/-- `Max(phase->numsets, 1)`. -/
def numGroupingSets (cfg : AggConfig D) (i : Nat) : Nat := max (cfg.phase i).numsets 1

/-- The body of a `for (transno = 0; transno < numtrans; transno++)` loop over a
per-transition array: element `transno` is updated with `pertrans[transno]`. -/
def withTrans {α : Type} (cfg : AggConfig D) (g : AggStatePerTrans D → α → α) (transno : Nat)
    (x : α) : α :=
  match cfg.pertrans.get? transno with
  | some pt => g pt x
  | none => x

end AggConfig

namespace AggState

/-- The tuples the current input source still holds. -/
def inputRemaining (s : AggState D) : List (Tuple D) := s.sortIn.getD s.outer

/-- `tuplesort_puttupleslot(sort_out, slot)` when there is an output sorter. -/
def putSortOut (s : AggState D) (t : Tuple D) : AggState D :=
  { s with sortOut := s.sortOut.map (· ++ [t]) }

end AggState

/-- `fetch_input_tuple`: the next tuple of the input sorter if there is one,
else of the outer plan, copied into the output sorter if there is one. -/
def fetchInputTuple (s : AggState D) : Option (Tuple D) × AggState D :=
  match s.sortIn with
  | some [] => (none, s)
  | some (t :: rest) => (some t, { s with sortIn := some rest }.putSortOut t)
  | none =>
    match s.outer with
    | [] => (none, s)
    | t :: rest => (some t, { s with outer := rest }.putSortOut t)

/-- `initialize_phase`: drop the input sorter; entering a phase after the
first, the previous phase's output sorter is sorted and becomes the input;
every phase but the last gets a fresh output sorter. -/
def initializePhase (cfg : AggConfig D) (s : AggState D) (newphase : Nat) : AggState D :=
  let sortIn := if newphase ≤ 1 then none
    else some ((cfg.phase newphase).sortnode (s.sortOut.getD []))
  let sortOut := if 0 < newphase ∧ newphase < cfg.numphases - 1 then some [] else none
  { s with sortIn := sortIn, sortOut := sortOut, currentPhase := newphase }

/-- `initialize_aggregates` on the sorted path: re-initialise the states (and
sorters) of the first `numReset` grouping sets. -/
def initializeAggregates (cfg : AggConfig D) (s : AggState D) (numReset : Nat) : AggState D :=
  { s with
    pergroup := s.pergroup.mapIdx fun setno pgs =>
      if setno < numReset then cfg.pertrans.map initializeAggregate else pgs
    sortstates := s.sortstates.mapIdx <| cfg.withTrans fun pt sts =>
      sts.mapIdx fun setno st => if setno < numReset then initializeSort pt else st }

/-- `initialize_aggregates(..., -1)`: the states of a new hash entry. -/
def initializeEntry (cfg : AggConfig D) : List (AggStatePerGroup D) :=
  cfg.pertrans.map initializeAggregate

/-- Whether a transition takes this input tuple: no FILTER, or FILTER true. -/
def passesFilter (pt : AggStatePerTrans D) (t : Tuple D) : Bool :=
  match pt.aggfilter with
  | none => true
  | some f => f t == some true

/-- The arguments `advance_aggregates` loads into `fcinfo->arg[1..]`. -/
def transArgs (pt : AggStatePerTrans D) (t : Tuple D) : Tuple D :=
  (pt.evalArgs t).take pt.numTransInputs

/-- What `advance_aggregates` does to one state of a transition without
DISTINCT / ORDER BY: advance it, unless the FILTER rejects the tuple. -/
def advanceTrans (pt : AggStatePerTrans D) (t : Tuple D) (pg : AggStatePerGroup D) :
    AggStatePerGroup D :=
  if passesFilter pt t && pt.numSortCols == 0 then advanceTransitionFunction pt (transArgs pt t) pg
  else pg

/-- `advance_aggregates` on one array of per-transition states: the states of
one grouping set, or of one hash entry.  Element `transno` belongs to
`pertrans[transno]`. -/
def advanceGroupStates (cfg : AggConfig D) (t : Tuple D) (pgs : List (AggStatePerGroup D)) :
    List (AggStatePerGroup D) :=
  pgs.mapIdx <| cfg.withTrans fun pt pg => advanceTrans pt t pg

/-- Whether a DISTINCT / ORDER BY transition puts the tuple into its sorters:
the FILTER passes, and a strict transition function would not skip it. -/
def sortAccepts (pt : AggStatePerTrans D) (t : Tuple D) : Bool :=
  passesFilter pt t && decide (0 < pt.numSortCols) &&
    !(pt.transfn.fnStrict && (transArgs pt t).any (·.isnull))

/-- The tuple a DISTINCT / ORDER BY transition sorts: its `numInputs` columns. -/
def sortInput (pt : AggStatePerTrans D) (t : Tuple D) : Tuple D :=
  (pt.evalArgs t).take pt.numInputs

/-- The hashed part of `advance_aggregates`: the states of entry `es[k]` of
table `k`, for every hashed set `k`. -/
def advanceEntries (f : List (AggStatePerGroup D) → List (AggStatePerGroup D)) :
    List (TupleHashTable D) → List Nat → List (TupleHashTable D)
  | ht :: hts, i :: es => ht.modifyAdditional i f :: advanceEntries f hts es
  | hts, _ => hts

/-- `advance_aggregates` for one input tuple.  The C code loops over the
transitions and, inside, over the grouping sets and the hashed sets; every
state it touches is touched once, by a function of that state and the tuple,
so the loops are written here cell by cell.  A DISTINCT / ORDER BY transition
appends its input to the sorter of every grouping set of the phase; any other
advances the sorted path's states of every set (when `sorted`, that is when
`pergroup` is passed) and the state in every hash entry given. -/
def advanceAggregates (cfg : AggConfig D) (s : AggState D) (t : Tuple D) (sorted : Bool)
    (hashEntries : Option (List Nat)) : AggState D :=
  let nsets := cfg.numGroupingSets s.currentPhase
  { s with
    sortstates := s.sortstates.mapIdx <| cfg.withTrans fun pt sts =>
      if sortAccepts pt t then
        sts.mapIdx fun setno st => if setno < nsets then st.map (· ++ [sortInput pt t]) else st
      else sts
    pergroup := if sorted then
        s.pergroup.mapIdx fun setno pgs => if setno < nsets then advanceGroupStates cfg t pgs else pgs
      else s.pergroup
    hashtables := match hashEntries with
      | none => s.hashtables
      | some es => advanceEntries (advanceGroupStates cfg t) s.hashtables es }

/-- The input `combine_aggregates` passes on for one transition: the partial
state in the transition's first input column, deserialized when the node must
deserialize (a strict deserialization function is not called on NULL). -/
def combineInput (pt : AggStatePerTrans D) (t : Tuple D) : NullableDatum D :=
  let v := (pt.evalArgs t).headD nullDatum
  match pt.deserialfn with
  | none => v
  | some df => if df.fnStrict && v.isnull then v else df.fnAddr [v, ⟨default, false⟩]

/-- `combine_aggregates`: `advance_combine_function` on each transition of one
array of per-group states (no FILTER, no sorting, one grouping set). -/
def combineAggregates (cfg : AggConfig D) (t : Tuple D) (pgs : List (AggStatePerGroup D)) :
    List (AggStatePerGroup D) :=
  pgs.mapIdx <| cfg.withTrans fun pt pg => advanceCombineFunction pt (combineInput pt t) pg

/-- The representative tuple an empty slot turns into: all NULL. -/
def allNullTuple (n : Nat) : Tuple D := List.replicate n nullDatum

/-- `prepare_projection_slot`: in a phase with grouping sets, an empty slot
becomes all NULL, and every grouped column outside the current set is set
NULL.  The result is what the slot then holds. -/
def prepareProjectionSlot (cfg : AggConfig D) (ph : AggStatePerPhase D) (slot : Option (Tuple D))
    (currentSet : Nat) : Option (Tuple D) :=
  match ph.groupedCols, slot with
  | none, slot => slot
  | some _, none => some (allNullTuple cfg.natts)
  | some gcs, some t =>
    let grouped := gcs.getD currentSet []
    some (cfg.allGroupedCols.foldl (fun t attnum =>
      if attnum ∈ grouped then t else t.set (attnum - 1) nullDatum) t)

/-- The first loop of `finalize_aggregates`: each DISTINCT / ORDER BY
transition runs over its sorter for the current set. -/
def finalizeOrdered (cfg : AggConfig D) (sortstates : List (List (Option (List (Tuple D)))))
    (setno : Nat) (pgs : List (AggStatePerGroup D)) : List (AggStatePerGroup D) :=
  pgs.mapIdx fun transno => cfg.withTrans (fun pt pg =>
    if pt.numSortCols > 0 then
      processOrderedAggregate pt (((sortstates.getD transno []).getD setno none).getD []) pg
    else pg) transno

/-- The second loop of `finalize_aggregates`: every aggregate's final (or, in
SKIPFINAL mode, partial) value from its transition's state. -/
def aggValues (cfg : AggConfig D) (rep : Tuple D) (pgs : List (AggStatePerGroup D)) :
    List (NullableDatum D) :=
  cfg.peragg.map fun pa =>
    let pt := cfg.pertrans.getD pa.transno default
    let pg := pgs.getD pa.transno ⟨default, true, true⟩
    if cfg.aggsplit.skipfinal then finalizePartialaggregate pt pg
    else finalizeAggregate pt pa rep pg

/-- `finalize_aggregates` for set `setno`: the states after the ordered
transitions ran, the sorters (the current set's ended), and the values. -/
def finalizeAggregates (cfg : AggConfig D) (sortstates : List (List (Option (List (Tuple D)))))
    (setno : Nat) (rep : Tuple D) (pgs : List (AggStatePerGroup D)) :
    List (AggStatePerGroup D) × List (List (Option (List (Tuple D)))) × List (NullableDatum D) :=
  let pgs := finalizeOrdered cfg sortstates setno pgs
  let sortstates := sortstates.mapIdx <| cfg.withTrans fun pt sts =>
    if pt.numSortCols > 0 then sts.set setno none else sts
  (pgs, sortstates, aggValues cfg rep pgs)

/-- `project_aggregates`: the row, unless the HAVING clause rejects it. -/
def projectAggregates (cfg : AggConfig D) (o : AggOutput D) : Option (AggOutput D) :=
  if cfg.qual o then some o else none

end

end NodeAgg

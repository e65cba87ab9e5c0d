import NodeAgg.State

/-!
# The executor loops

`ExecAgg` and the three loops it dispatches to: `agg_fill_hash_table`, which
reads the whole input into the hash tables; `agg_retrieve_hash_table`, which
scans the tables (reloading spilled batches in hybrid mode); and
`agg_retrieve_direct`, the sorted and plain path, which walks the input group
by group, emits the rows of coarser grouping sets as their runs end
(`projected_set`), switches phases and, in an AGG_MIXED node, finally hands
over to the hash scan.  `ExecReScanAgg` restarts the node.

Each `while` loop is one step function (`retrieveHashStep`, `directBody`)
returning a `RetrieveStep`, driven by a loop with fuel: one unit per pass.  The
input loops (`fillHashTableLoop`, `advanceGroup`) consume one tuple per pass
and are given the input's length plus one, which is always enough.  Errors
raised by `elog(ERROR)` are `Except.error` with the message of the source.
-/

namespace NodeAgg

/-- The outcome of one pass of a retrieval loop: go round again, return NULL,
return a row, or (sorted path of AGG_MIXED) continue with the hash scan. -/
inductive RetrieveStep (D : Type) where
  | next (s : AggState D)
  | done (s : AggState D)
  | emit (o : AggOutput D) (s : AggState D)
  | hashed (s : AggState D)

section

variable {D : Type} [Inhabited D]

/-! ## Hash lookups -/

/-- The compacted tuple `lookup_hash_entry` builds in `hashslot`: the input's
columns `hashGrpColIdxInput`, in that order. -/
def hashKeyOf (ph : AggStatePerHash D) (t : Tuple D) : Tuple D :=
  ph.hashGrpColIdxInput.map (slotGetattr t)

/-- `lookup_hash_entry` for one hashed set: find or create the entry of the
tuple's key.  A full hybrid table is dumped and the lookup retried; a new
entry's states are initialised.  Returns the entry's position. -/
def lookupHashEntry (cfg : AggConfig D) (ph : AggStatePerHash D) (t : Tuple D)
    (ht : TupleHashTable D) : Except String (Nat × TupleHashTable D) := do
  let key := hashKeyOf ph t
  let (i, isnew, ht) ← match lookupTupleHashEntry ph ht key with
    | (some (i, isnew), ht) => pure (i, isnew, ht)
    | (none, ht) =>
      if ht.hybrid then do
        let ht ← dumpHybridHashtable cfg.pertrans ht
        match lookupTupleHashEntry ph ht key with
        | (some (i, isnew), ht) => pure (i, isnew, ht)
        | (none, _) => throw "could not find entry in hybrid-hashtable"
      else throw "could not find entry in hashtable"
  pure (i, if isnew then ht.setAdditional i (initializeEntry cfg) else ht)

/-- `lookup_hash_entries`: the entry of the tuple in every hashed set. -/
def lookupHashEntries (cfg : AggConfig D) (t : Tuple D) (tables : List (TupleHashTable D)) :
    Except String (List Nat × List (TupleHashTable D)) := do
  let rs ← (cfg.perhash.zip tables).mapM fun (ph, ht) => lookupHashEntry cfg ph t ht
  pure (rs.map (·.1), rs.map (·.2))

/-- `combine_aggregates(aggstate, pergroups[0])` on the hashed path: combine
into entry `i` of the first table. -/
def combineHashed (cfg : AggConfig D) (t : Tuple D) (tables : List (TupleHashTable D)) (i : Nat) :
    List (TupleHashTable D) :=
  tables.modify (·.modifyAdditional i (combineAggregates cfg t)) 0

/-- `dump_hashtable_if_spilled`: every table that has spilled is dumped once
more and its first batch loaded; a load restarts the set's iterator. -/
def dumpHashtableIfSpilled (cfg : AggConfig D) (s : AggState D) : Except String (AggState D) := do
  let rs ← ((cfg.perhash.zip s.hashtables).zip s.hashiters).mapM fun ((ph, ht), it) =>
    if ht.spilled then do
      let ht ← dumpHybridHashtable cfg.pertrans ht
      let (ht, reinit) ← loadHybridHashtable cfg.pertrans ph (ht.sets.length + 1) ht
      pure (ht, if reinit then 0 else it)
    else pure (ht, it)
  pure { s with hashtables := rs.map (·.1), hashiters := rs.map (·.2) }

/-! ## Filling and scanning the hash tables -/

/-- The loop of `agg_fill_hash_table`, one input tuple per pass; at the end of
input the spilled tables are dumped and reloaded when `g_hybrid_hash_agg` is
on. -/
def fillHashTableLoop (cfg : AggConfig D) : Nat → AggState D → Except String (AggState D)
  | 0, _ => throw "agg_fill_hash_table: input longer than the fuel"
  | fuel + 1, s =>
    match fetchInputTuple s with
    | (none, s) => if cfg.hybridHashAgg then dumpHashtableIfSpilled cfg s else pure s
    | (some t, s) => do
      let (es, tables) ← lookupHashEntries cfg t s.hashtables
      let s := { s with tmpOuterTuple := some t, hashtables := tables }
      let s := if cfg.aggsplit.combine then
          { s with hashtables := combineHashed cfg t s.hashtables (es.headD 0) }
        else advanceAggregates cfg s t false (some es)
      fillHashTableLoop cfg fuel s

/-- `agg_fill_hash_table`: read the input, mark the table filled, and start the
scan of the first set unless its table spilled (the load did that). -/
def aggFillHashTable (cfg : AggConfig D) (s : AggState D) : Except String (AggState D) := do
  let s ← fillHashTableLoop cfg (s.inputRemaining.length + 1) s
  let s := { s with tableFilled := true, currentSet := 0 }
  pure (if (s.hashtables.getD 0 .empty).spilled then s
    else { s with hashiters := s.hashiters.set 0 0 })

/-- The representative tuple `agg_retrieve_hash_table` rebuilds from an entry's
key: all NULL but the grouping columns, put back at their input positions. -/
def expandHashKey (cfg : AggConfig D) (ph : AggStatePerHash D) (key : Tuple D) : Tuple D :=
  (ph.hashGrpColIdxInput.zip key).foldl (fun t (col, v) => t.set (col - 1) v)
    (allNullTuple cfg.natts)

/-- The tail shared by both retrieval loops for one group of set `setno`:
`prepare_projection_slot` on the representative slot, `finalize_aggregates` on
the group's states and `project_aggregates`.  Returns the state (slot and
sorters updated), the finalised states and the row if the qual passes. -/
def projectGroup (cfg : AggConfig D) (s : AggState D) (setno : Nat) (slot : Option (Tuple D))
    (pgs : List (AggStatePerGroup D)) :
    AggState D × List (AggStatePerGroup D) × Option (AggOutput D) :=
  let slot := prepareProjectionSlot cfg (cfg.phase s.currentPhase) slot setno
  let rep := slot.getD (allNullTuple cfg.natts)
  let (pgs, sortstates, vals) := finalizeAggregates cfg s.sortstates setno rep pgs
  ({ s with firstSlot := slot, sortstates := sortstates }, pgs,
    projectAggregates cfg ⟨s.currentPhase, setno, rep, pgs, vals⟩)

/-- One pass of the `while` loop of `agg_retrieve_hash_table`: the next entry
of the current set, or, at the end of its table, the next batch of a hybrid
table, the next set, or the end. -/
def retrieveHashStep (cfg : AggConfig D) (s : AggState D) : Except String (RetrieveStep D) := do
  let setno := s.currentSet
  let ph := cfg.perhash.getD setno default
  let ht := s.hashtables.getD setno .empty
  let it := s.hashiters.getD setno 0
  match ht.entries.get? it with
  | some e =>
    let s := { s with hashiters := s.hashiters.set setno (it + 1) }
    let (s, pgs, out) := projectGroup cfg s setno (some (expandHashKey cfg ph e.firstTuple)) e.additional
    let s := { s with hashtables := s.hashtables.modify (·.setAdditional it pgs) setno }
    pure (match out with
      | some o => .emit o s
      | none => .next s)
  | none =>
    let (loaded, ht) := if ht.hybrid then hybridHashtableLoadDone ht else (true, ht)
    if !loaded then do
      let (ht, reinit) ← loadHybridHashtable cfg.pertrans ph (ht.sets.length + 1) ht
      pure (.next { s with hashtables := s.hashtables.set setno ht,
                           hashiters := if reinit then s.hashiters.set setno 0 else s.hashiters })
    else if setno + 1 < cfg.perhash.length then
      pure (.next { s with currentSet := setno + 1, hashiters := s.hashiters.set (setno + 1) 0 })
    else pure (.done { s with aggDone := true })

/-- `agg_retrieve_hash_table`: passes until a row is returned or the scan ends;
`fuel` bounds the passes. -/
def aggRetrieveHashTable (cfg : AggConfig D) :
    Nat → AggState D → Except String (Option (AggOutput D) × AggState D)
  | 0, _ => throw "agg_retrieve_hash_table: more passes than the fuel"
  | fuel + 1, s =>
    if s.aggDone then pure (none, s)
    else do
      match ← retrieveHashStep cfg s with
      | .next s => aggRetrieveHashTable cfg fuel s
      | .emit o s => pure (some o, s)
      | .done s | .hashed s => pure (none, s)

/-! ## The sorted and plain path -/

/-- The first grouping set of length zero, or the number of sets: where the
`while (gset_lengths[projected_set] > 0)` loop stops on empty input. -/
def firstEmptySet (gsetLengths : List Nat) (nsets : Nat) : Nat :=
  (gsetLengths.take nsets).findIdx (· == 0)

/-- The head of the `while` body of `agg_retrieve_direct`: how many sets to
reset, and at the end of a phase's input with every set projected, the switch
to the next phase, to the hash scan (AGG_MIXED), or the end. -/
def directTop (cfg : AggConfig D) (s : AggState D) : RetrieveStep D ⊕ (AggState D × Nat) :=
  let nsets := cfg.numGroupingSets s.currentPhase
  let numReset := if 0 ≤ s.projectedSet ∧ s.projectedSet < nsets
    then (s.projectedSet + 1).toNat else nsets
  if s.inputDone ∧ (nsets : Int) - 1 ≤ s.projectedSet then
    if s.currentPhase + 1 < cfg.numphases then
      let s := { initializePhase cfg s (s.currentPhase + 1) with inputDone := false, projectedSet := -1 }
      .inr (s, cfg.numGroupingSets s.currentPhase)
    else if cfg.aggstrategy = .mixed then
      .inl (.hashed { initializePhase cfg s 0 with
        tableFilled := true, currentSet := 0, hashiters := s.hashiters.set 0 0 })
    else .inl (.done { s with aggDone := true })
  else .inr (s, numReset)

/-- The first tuple of a new group: the one kept from the previous group, or
the next input tuple.  On empty input a node with grouping sets moves to the
first empty set (and starts the loop over when there is none); one without
ends, returning NULL unless it is AGG_PLAIN, which still emits its row. -/
def directFirstTuple (cfg : AggConfig D) (hasGroupingSets : Bool) (s : AggState D) :
    RetrieveStep D ⊕ AggState D :=
  match s.grpFirstTuple with
  | some _ => .inr s
  | none =>
    match fetchInputTuple s with
    | (some t, s) => .inr { s with grpFirstTuple := some t }
    | (none, s) =>
      if hasGroupingSets then
        let nsets := cfg.numGroupingSets s.currentPhase
        let ps := firstEmptySet (cfg.phase s.currentPhase).gsetLengths nsets
        let s := { s with inputDone := true, projectedSet := ps }
        if nsets ≤ ps then .inl (.next s) else .inr s
      else
        let s := { s with aggDone := true }
        if (cfg.phase s.currentPhase).aggstrategy ≠ .plain then .inl (.done s) else .inr s

/-- One tuple of the inner loop: in phase 1 of an AGG_MIXED node the hashed
sets' entries are looked up first; then the transitions advance (or combine). -/
def advanceRow (cfg : AggConfig D) (s : AggState D) (t : Tuple D) : Except String (AggState D) := do
  let (hashEntries, s) ← if cfg.aggstrategy = .mixed ∧ s.currentPhase = 1 then do
      let (es, tables) ← lookupHashEntries cfg t s.hashtables
      pure (some es, { s with hashtables := tables })
    else pure (none, s)
  pure (if cfg.aggsplit.combine
    then { s with pergroup := s.pergroup.modify (combineAggregates cfg t) 0 }
    else advanceAggregates cfg s t true hashEntries)

/-- The inner `for (;;)` of `agg_retrieve_direct`: advance by the current
tuple, fetch the next, and stop at the end of input (after the hybrid dump) or
at a tuple that differs from the group's first on the grouping columns. -/
def advanceGroup (cfg : AggConfig D) (hasGroupingSets : Bool) :
    Nat → AggState D → Except String (AggState D)
  | 0, _ => throw "agg_retrieve_direct: input longer than the fuel"
  | fuel + 1, s => do
    let s ← advanceRow cfg s (s.tmpOuterTuple.getD [])
    match fetchInputTuple s with
    | (none, s) =>
      let s ← if cfg.hybridHashAgg then dumpHashtableIfSpilled cfg s else pure s
      pure (if hasGroupingSets then { s with inputDone := true } else { s with aggDone := true })
    | (some t, s) =>
      let s := { s with tmpOuterTuple := some t }
      let ph := cfg.phase s.currentPhase
      if ph.aggstrategy ≠ .plain &&
          !execTuplesMatch ph.eqfunctions ph.grpColIdx ph.numCols (s.firstSlot.getD []) t
      then pure { s with grpFirstTuple := some t }
      else advanceGroup cfg hasGroupingSets fuel s

/-- The `else` branch of `agg_retrieve_direct`: start a new group of the first
set, re-initialise the states of the sets being reset, and aggregate the group. -/
def directNewGroup (cfg : AggConfig D) (hasGroupingSets : Bool) (s : AggState D) (numReset : Nat) :
    Except String (RetrieveStep D ⊕ AggState D) :=
  match directFirstTuple cfg hasGroupingSets s with
  | .inl step => pure (.inl step)
  | .inr s =>
    let s := initializeAggregates cfg s numReset
    match s.grpFirstTuple with
    | none => pure (.inr s)
    | some t => do
      let s ← advanceGroup cfg hasGroupingSets (s.inputRemaining.length + 1)
        { s with firstSlot := some t, grpFirstTuple := none, tmpOuterTuple := some t }
      pure (.inr s)

/-- The end of the `while` body: finalise and project set `projected_set`. -/
def directProject (cfg : AggConfig D) (s : AggState D) : RetrieveStep D :=
  let setno := s.projectedSet.toNat
  let (s, pgs, out) := projectGroup cfg s setno s.firstSlot (s.pergroup.getD setno [])
  let s := { s with pergroup := s.pergroup.set setno pgs, currentSet := setno }
  match out with
  | some o => .emit o s
  | none => .next s

/-- Start a new group and project its first set: `projected_set = 0`, then
the new group's first set, unless the input proves to be empty. -/
def directGroupStart (cfg : AggConfig D) (hasGroupingSets : Bool) (s : AggState D) (numReset : Nat) :
    Except String (RetrieveStep D) := do
  match ← directNewGroup cfg hasGroupingSets { s with projectedSet := 0 } numReset with
  | .inl step => pure step
  | .inr s => pure (directProject cfg s)

/-- Whether the run of the set after `projected_set` ended too: the input is
out with sets left to project, or the pending tuple differs from the group's on
that set's columns (a zero-length set only ends with the input). -/
def directNextSetEnds (cfg : AggConfig D) (s : AggState D) : Bool :=
  let nsets := cfg.numGroupingSets s.currentPhase
  let ph := cfg.phase s.currentPhase
  let nextSetSize := if 0 ≤ s.projectedSet ∧ s.projectedSet < (nsets : Int) - 1
    then ph.gsetLengths.getD (s.projectedSet + 1).toNat 0 else 0
  s.inputDone || (ph.aggstrategy ≠ .plain && s.projectedSet ≠ -1 &&
    decide (s.projectedSet < (nsets : Int) - 1) && 0 < nextSetSize &&
    !execTuplesMatch ph.eqfunctions ph.grpColIdx nextSetSize
      (s.firstSlot.getD []) (s.tmpOuterTuple.getD []))

/-- The rest of a pass of the `while` loop of `agg_retrieve_direct`: project
the next coarser set if its run ended too, or start a new group. -/
def directProjectNext (cfg : AggConfig D) (hasGroupingSets : Bool) (s : AggState D) (numReset : Nat) :
    Except String (RetrieveStep D) :=
  if directNextSetEnds cfg s
  then pure (directProject cfg { s with projectedSet := s.projectedSet + 1 })
  else directGroupStart cfg hasGroupingSets s numReset

/-- One pass of the `while` loop of `agg_retrieve_direct`. -/
def directBody (cfg : AggConfig D) (hasGroupingSets : Bool) (s : AggState D) :
    Except String (RetrieveStep D) :=
  match directTop cfg s with
  | .inl step => pure step
  | .inr (s, numReset) => directProjectNext cfg hasGroupingSets s numReset

/-- The loop of `agg_retrieve_direct`, `hasGroupingSets` being fixed on entry;
an AGG_MIXED node continues with `agg_retrieve_hash_table`. -/
def directLoop (cfg : AggConfig D) (hasGroupingSets : Bool) :
    Nat → AggState D → Except String (Option (AggOutput D) × AggState D)
  | 0, _ => throw "agg_retrieve_direct: more passes than the fuel"
  | fuel + 1, s =>
    if s.aggDone then pure (none, s)
    else do
      match ← directBody cfg hasGroupingSets s with
      | .next s => directLoop cfg hasGroupingSets fuel s
      | .emit o s => pure (some o, s)
      | .done s => pure (none, s)
      | .hashed s => aggRetrieveHashTable cfg fuel s

def aggRetrieveDirect (cfg : AggConfig D) (fuel : Nat) (s : AggState D) :
    Except String (Option (AggOutput D) × AggState D) :=
  directLoop cfg (decide (0 < (cfg.phase s.currentPhase).numsets)) fuel s

/-! ## The node -/

/-- `ExecAgg`: one output row, or NULL, dispatching on the current phase's
strategy. -/
def execAgg (cfg : AggConfig D) (fuel : Nat) (s : AggState D) :
    Except String (Option (AggOutput D) × AggState D) :=
  if s.aggDone then pure (none, s)
  else match (cfg.phase s.currentPhase).aggstrategy with
    | .hashed => do
      let s ← if s.tableFilled then pure s else aggFillHashTable cfg s
      aggRetrieveHashTable cfg fuel s
    | .mixed => aggRetrieveHashTable cfg fuel s
    | .plain | .sorted => aggRetrieveDirect cfg fuel s

/-- `ExecAgg` called until it returns NULL, at most `calls` times: the rows of
one scan and the state after it. -/
def execAggScan (cfg : AggConfig D) (fuel : Nat) :
    Nat → AggState D → Except String (List (AggOutput D) × AggState D)
  | 0, _ => throw "ExecAgg: more rows than the fuel"
  | calls + 1, s => do
    match ← execAgg cfg fuel s with
    | (none, s) => pure ([], s)
    | (some o, s) => do
      let (os, s) ← execAggScan cfg fuel calls s
      pure (o :: os, s)

end

end NodeAgg

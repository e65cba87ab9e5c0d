import NodeAgg.Retrieve

/-!
# The node's life: `ExecInitAgg`, `ExecReScanAgg` and the states they reach

`ExecInitAgg` builds the hash tables (`build_hash_table`, which sizes every
table whose Agg node was planned hybrid with `OptimizeHybridHashtableSize`) and
then, per transition, sets up what the hybrid engine needs: the combine
function `combfn`, and for an INTERNAL state the serialization functions.  When
`g_hybrid_hash_agg` is on and a transition lacks one of them, hybrid mode is
switched off on every table.  `ExecReScanAgg` either restarts the scan of a
filled table or rebuilds the tables with `build_hash_table`.

`Reachable` collects the states a node can be in: the state `ExecInitAgg`
leaves, and any state `ExecAgg` or `ExecReScanAgg` leads to from a reachable
one.

Neither way of `ExecReScanAgg` is aware of the hybrid engine.  Keeping the
table keeps what the reload left in it: after a spill that is the last batch
loaded, the earlier batches' files being read and closed, and the spill set
pointer past the top set, so the second scan returns only the last batch's
groups.  Rebuilding runs `OptimizeHybridHashtableSize` again for every table
planned hybrid, which turns hybrid mode back on where `ExecInitAgg` had
switched it off because a transition has no combine function (or no
serialization functions for its INTERNAL state).  `hybridReady` is the
condition `ExecInitAgg` establishes: a hybrid table only exists when every
transition has what merging and spilling need.
-/

namespace NodeAgg

/-- What the catalog gives `ExecInitAgg` for one transition: the aggregate's
OID (for messages), its combine function and, for an INTERNAL state, its
serialization and deserialization functions, each if valid. -/
structure AggTransCatalog (D : Type) where
  aggfnoid : Nat
  combfn : Option (FmgrInfo D)
  serialFunc : Option (FmgrInfo D)
  deserialFunc : Option (FmgrInfo D)

section

variable {D : Type} [Inhabited D]

/-- `build_hash_table`: a fresh table per hashed set, sized for hybrid mode
when the set's Agg node was planned hybrid. -/
def buildHashTable (cfg : AggConfig D) : List (TupleHashTable D) :=
  cfg.perhash.map fun ph =>
    if ph.hybrid then
      optimizeHybridHashtableSize .empty ph.entrySize cfg.workMem cfg.defaultHashaggNbatches
    else .empty

/-- `hashtable->hybrid = false` and `tuplehash_set_hybrid(..., false)` on every
table. -/
def disableHybrid (tables : List (TupleHashTable D)) : List (TupleHashTable D) :=
  tables.map fun t => { t with hybrid := false }

/-- The hybrid set-up `ExecInitAgg` does for one new transition.  The fields
start zeroed (`palloc0`); with `g_hybrid_hash_agg` on, a valid combine function
is installed (a strict one over INTERNAL states is refused) and a missing one
switches hybrid off; an INTERNAL state gets its serialization functions, or
switches hybrid off when one is missing. -/
def initTransHybrid (hybridHashAgg useHashing : Bool) (pt : AggStatePerTrans D)
    (cat : AggTransCatalog D) (tables : List (TupleHashTable D)) :
    Except String (AggStatePerTrans D × List (TupleHashTable D)) := do
  let pt := { pt with combfn := none, serialFunc := none, deserialFunc := none }
  if !hybridHashAgg then return (pt, tables)
  let off := if useHashing then disableHybrid tables else tables
  let (pt, tables) ← match cat.combfn with
    | some f =>
      if f.fnStrict && pt.transtypeInternal then
        let oid := cat.aggfnoid
        throw s!"combine function for aggregate {oid} must be declared as STRICT"
      else pure ({ pt with combfn := some f }, tables)
    | none => pure (pt, off)
  if pt.transtypeInternal then
    match cat.serialFunc, cat.deserialFunc with
    | some sf, some df => pure ({ pt with serialFunc := some sf, deserialFunc := some df }, tables)
    | _, _ => pure (pt, if useHashing then disableHybrid tables else tables)
  else pure (pt, tables)

namespace AggConfig

/-- `numGroupingSets` of `ExecInitAgg`, the size of the per-set arrays. -/
def maxsets (cfg : AggConfig D) : Nat := (cfg.phases.map (·.numsets)).foldr max 1

/-- Whether the node has hash tables (`use_hashing`). -/
def useHashing (cfg : AggConfig D) : Bool := cfg.aggstrategy = .hashed || cfg.aggstrategy = .mixed

end AggConfig

/-- The all-zero per-group state `palloc0` and `MemSet(..., 0, ...)` leave. -/
def zeroPergroup : AggStatePerGroup D := ⟨default, false, false⟩

/-- The state `ExecInitAgg` leaves: phase 0 for AGG_HASHED, phase 1 otherwise,
no group started, zeroed sorted-path states (not allocated for AGG_HASHED), no
sorter open, the given tables. -/
def AggState.initial (cfg : AggConfig D) (outer : List (Tuple D)) (tables : List (TupleHashTable D)) :
    AggState D :=
  let s : AggState D :=
    { currentPhase := 0, currentSet := 0, projectedSet := -1, inputDone := false,
      aggDone := false, tableFilled := false, grpFirstTuple := none, firstSlot := none,
      tmpOuterTuple := none,
      pergroup := if cfg.aggstrategy = .hashed then []
        else List.replicate cfg.maxsets (List.replicate cfg.numtrans zeroPergroup),
      sortstates := List.replicate cfg.numtrans (List.replicate cfg.maxsets none),
      outer := outer, sortIn := none, sortOut := none,
      hashtables := tables, hashiters := tables.map fun _ => 0 }
  initializePhase cfg s (if cfg.aggstrategy = .hashed then 0 else 1)

@[simp] theorem AggState.initial_hashtables (cfg : AggConfig D) (outer : List (Tuple D))
    (tables : List (TupleHashTable D)) : (AggState.initial cfg outer tables).hashtables = tables := rfl

/-- `ExecInitAgg`: build the tables, set up every transition against its
catalog entry, and start in the initial state. -/
def execInitAgg (cfg : AggConfig D) (cats : List (AggTransCatalog D)) (outer : List (Tuple D)) :
    Except String (AggConfig D × AggState D) := do
  let tables := if cfg.useHashing then buildHashTable cfg else []
  let (pts, tables) ← (cfg.pertrans.zip cats).foldlM (fun (pts, tables) (pt, cat) => do
      let (pt, tables) ← initTransHybrid cfg.hybridHashAgg cfg.useHashing pt cat tables
      pure (pts ++ [pt], tables)) ([], tables)
  let cfg := { cfg with pertrans := pts }
  pure (cfg, AggState.initial cfg outer tables)

/-- `ExecReScanAgg`.  `paramsChanged` is whether the outer plan's or the
aggregated inputs' parameters changed; `outer` is what the outer plan produces
when it is scanned again.  A filled AGG_HASHED table with no parameter change
is only scanned again; otherwise the sorters are closed, the first tuple
dropped, the tables rebuilt (AGG_HASHED, AGG_MIXED), the sorted path's states
zeroed and phase 1 re-entered (all but AGG_HASHED). -/
def execReScanAgg (cfg : AggConfig D) (paramsChanged : Bool) (outer : List (Tuple D))
    (s : AggState D) : AggState D :=
  let s := { s with aggDone := false }
  if cfg.aggstrategy = .hashed ∧ !s.tableFilled then
    if paramsChanged then { s with outer := outer } else s
  else if cfg.aggstrategy = .hashed ∧ !paramsChanged then
    { s with hashiters := s.hashiters.set 0 0, currentSet := 0 }
  else
    let s := { s with sortstates := s.sortstates.map (·.map fun _ => none),
                      grpFirstTuple := none, firstSlot := none }
    let s := if cfg.useHashing then { s with hashtables := buildHashTable cfg, tableFilled := false }
      else s
    let s := if cfg.aggstrategy ≠ .hashed then
        { initializePhase cfg { s with pergroup := s.pergroup.map (·.map fun _ => zeroPergroup) } 1 with
          inputDone := false, projectedSet := -1 }
      else s
    { s with outer := outer }

/-- The states of a node configured by `cfg` that started in `s0`. -/
inductive Reachable (cfg : AggConfig D) (s0 : AggState D) : AggState D → Prop
  | init : Reachable cfg s0 s0
  | execAgg {s s' : AggState D} {o : Option (AggOutput D)} (fuel : Nat) :
      Reachable cfg s0 s → execAgg cfg fuel s = .ok (o, s') → Reachable cfg s0 s'
  | rescan {s : AggState D} (paramsChanged : Bool) (outer : List (Tuple D)) :
      Reachable cfg s0 s → Reachable cfg s0 (execReScanAgg cfg paramsChanged outer s)

/-- Whether the hybrid engine has what it needs: if any table is hybrid, every
transition has a combine function, and every INTERNAL one its serialization
and deserialization functions. -/
def hybridReady (cfg : AggConfig D) (s : AggState D) : Bool :=
  !(s.hashtables.any (·.hybrid)) ||
    cfg.pertrans.all fun pt =>
      pt.combfn.isSome && (!pt.transtypeInternal || (pt.serialFunc.isSome && pt.deserialFunc.isSome))

omit [Inhabited D] in
/-- The set-up of one transition with `g_hybrid_hash_agg` on: the tables are
kept and the transition gets what the hybrid engine needs, or no table is left
hybrid (and a node without hash tables keeps its none). -/
theorem initTransHybrid_ready {useHashing : Bool} {pt pt' : AggStatePerTrans D} {cat : AggTransCatalog D}
    {tables tables' : List (TupleHashTable D)} (huse : useHashing = false → tables = [])
    (h : initTransHybrid true useHashing pt cat tables = .ok (pt', tables')) :
    (tables' = tables ∧
      (pt'.combfn.isSome && (!pt'.transtypeInternal || (pt'.serialFunc.isSome && pt'.deserialFunc.isSome))) = true) ∨
      (tables'.any (·.hybrid) = false ∧ (useHashing = false → tables' = tables)) := by
  have hoff : ∀ ts : List (TupleHashTable D), (useHashing = false → ts = []) →
      (if useHashing then disableHybrid ts else ts).any (·.hybrid) = false := fun ts hts => by
    cases useHashing <;> simp [disableHybrid, hts]
  unfold initTransHybrid at h
  simp only [Bool.not_true, Bool.false_eq_true, if_false] at h
  rw [pure_bind] at h
  split at h
  · -- a combine function: refused, or installed
    split at h
    · cases h
    · rw [pure_bind] at h
      dsimp only at h
      split at h
      · split at h
        · cases h
          exact .inl ⟨rfl, by simp_all⟩
        · cases h
          exact .inr ⟨hoff tables huse, fun hu => by simp [hu]⟩
      · cases h
        exact .inl ⟨rfl, by simp_all⟩
  · -- none: hybrid off
    rw [pure_bind] at h
    dsimp only at h
    split at h
    · split at h
      · cases h
        exact .inr ⟨hoff tables huse, fun hu => by simp [hu]⟩
      · cases h
        exact .inr ⟨hoff _ fun hu => by simp [hu, huse hu], fun hu => by simp [hu]⟩
    · cases h
      exact .inr ⟨hoff tables huse, fun hu => by simp [hu]⟩
/-- `ExecInitAgg` with `g_hybrid_hash_agg` on establishes `hybridReady`: a
transition without a combine function, or an INTERNAL one without its
serialization functions, switches hybrid mode off on every table, and no later
transition switches it back on. -/
theorem execInitAgg_hybridReady {cfg cfg' : AggConfig D} {cats : List (AggTransCatalog D)}
    {outer : List (Tuple D)} {s : AggState D} (hh : cfg.hybridHashAgg = true)
    (h : execInitAgg cfg cats outer = .ok (cfg', s)) : hybridReady cfg' s = true := by
  unfold execInitAgg at h
  obtain ⟨⟨pts, tables⟩, hfold, h⟩ := except_bind_eq_ok h
  cases h
  refine (foldlM_ok_of_step (fun acc : List (AggStatePerTrans D) × List (TupleHashTable D) =>
    (cfg.useHashing = false → acc.2 = []) ∧ hybridReady { cfg with pertrans := acc.1 } (AggState.initial cfg outer acc.2) = true)
    ?_ _ hfold ⟨fun hu => by simp [hu], by simp [hybridReady]⟩).2
  rintro ⟨pts, tables⟩ ⟨pt, cat⟩ ⟨pts', tables'⟩ hstep ⟨huse, hready⟩
  obtain ⟨⟨pt', t'⟩, hinit, hstep⟩ := except_bind_eq_ok hstep
  cases hstep
  rw [hh] at hinit
  rcases initTransHybrid_ready huse hinit with ⟨rfl, hpt⟩ | ⟨hoff, hsame⟩
  · refine ⟨huse, ?_⟩
    simp only [hybridReady, AggState.initial_hashtables, Bool.or_eq_true, Bool.not_eq_true'] at hready ⊢
    simpa [List.all_append, hpt] using hready
  · exact ⟨fun hu => (hsame hu).trans (huse hu), by simp [hybridReady, hoff]⟩

end

/-! ## A hashed count that spills -/

/-- `int8inc`, the transition function of `count(*)`. -/
def int8inc : FmgrInfo Nat := ⟨true, fun args => ⟨(args.headD nullDatum).value + 1, false⟩⟩

/-- `int8pl`, the combine function of `count(*)`. -/
def int8pl : FmgrInfo Nat :=
  ⟨true, fun args => ⟨(args.headD nullDatum).value + (args.getD 1 nullDatum).value, false⟩⟩

/-- `count(*)`: no arguments, initial value 0. -/
def countStarTrans : AggStatePerTrans Nat :=
  { (default : AggStatePerTrans Nat) with
    numInputs := 0, numTransInputs := 0, evalArgs := fun _ => [],
    transfn := int8inc, initValue := 0, initValueIsNull := false }

/-- A hashed set keyed on the first column, hashing a key to its value, planned
hybrid with entries of 1 kB. -/
def firstColumnHash (hybrid : Bool) : AggStatePerHash Nat :=
  ⟨1, [1], [1], [fun a b => a == b], fun key => (key.headD nullDatum).value.toUInt32, hybrid, 1024, 10⟩

/-- `SELECT a, count(*) FROM t GROUP BY a` by hashing, one-entry hybrid tables
(`work_mem` of 1 kB) over two batch files. -/
def countByFirstColumn (hybrid : Bool) : AggConfig Nat :=
  { aggstrategy := .hashed, aggsplit := ⟨false, false, false, false⟩,
    phases := [⟨.hashed, 1, [1], some [[1]], [], 0, [], id⟩],
    pertrans := [countStarTrans], peragg := [⟨0, none, 0⟩], perhash := [firstColumnHash hybrid],
    allGroupedCols := [1], natts := 1, qual := fun _ => true,
    hybridHashAgg := true, workMem := 1, defaultHashaggNbatches := 2 }

def countStarCatalog : List (AggTransCatalog Nat) := [⟨2803, some int8pl, none, none⟩]

theorem execReScanAgg_keeps_last_batch_only :
    ((do
      let (cfg, s0) ← execInitAgg (countByFirstColumn true) countStarCatalog
        [[⟨1, false⟩], [⟨2, false⟩], [⟨1, false⟩]]
      let (first, s1) ← execAggScan cfg 20 10 s0
      let (second, _) ← execAggScan cfg 20 10 (execReScanAgg cfg false [] s1)
      pure (first.map fun o => (o.rep, o.aggvalues), second.map fun o => (o.rep, o.aggvalues))) :
      Except String _) =
    .ok ([([⟨2, false⟩], [⟨1, false⟩]), ([⟨1, false⟩], [⟨2, false⟩])],
         [([⟨1, false⟩], [⟨2, false⟩])]) := rfl

/-! ## A transition without a combine function -/

/-- The same count, but the catalog knows no combine function for it. -/
def countStarCatalogNoCombine : List (AggTransCatalog Nat) := [⟨2803, none, none, none⟩]

theorem execReScanAgg_rebuild_turns_hybrid_back_on :
    ∃ cfg s0 s, execInitAgg (countByFirstColumn true) countStarCatalogNoCombine [] = .ok (cfg, s0) ∧
      hybridReady cfg s0 = true ∧ Reachable cfg s0 s ∧ hybridReady cfg s = false :=
  ⟨_, _, _, rfl, rfl, .rescan true [] (.execAgg 5 .init rfl), rfl⟩

/-- `ExecInitAgg` over the count whose catalog has no combine function: hybrid
mode is switched off, and the engine's condition holds. -/
theorem countStarNoCombine_hybridReady :
    ∃ cfg s, execInitAgg (countByFirstColumn true) countStarCatalogNoCombine [] = .ok (cfg, s) ∧
      (countByFirstColumn true).hybridHashAgg = true ∧ hybridReady cfg s = true :=
  let ⟨p, h⟩ : ∃ p, execInitAgg (countByFirstColumn true) countStarCatalogNoCombine [] = .ok p := ⟨_, rfl⟩
  ⟨p.1, p.2, h, rfl, execInitAgg_hybridReady rfl h⟩

end NodeAgg

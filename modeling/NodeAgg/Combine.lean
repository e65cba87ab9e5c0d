import NodeAgg.Node

/-!
# Merging partial transition states

Two places of `nodeAgg.c` merge a partial transition state into a group's
state.  `advance_combine_function` does it in a COMBINE node, the upper half of
a two-stage (partial) aggregation; `combine_transition` does it when the hybrid
hash reload meets a key already in the table.  Both follow the same rules for
a strict combine function on the incoming side: a NULL incoming state is
skipped.  They differ on the current side.  `advance_combine_function` lets
the incoming state seed a state still marked `noTransValue`;
`combine_transition` has that branch compiled out and calls the combine
function on the current state as it is, NULL or not
(`combineTransition_eq_call`).  Where the current state is past its first
value the two agree (`combineTransition_eq_advanceCombineFunction`).

The second half of the file is the two-stage pipeline itself: partial nodes
in SKIPFINAL mode over chunks of the input, and one COMBINE node over their
partial values.  Neither merge guards a current state that a strict combine
function has turned NULL, so the NULL reaches the combine function.

The empty current state is met on a whole run of the hybrid engine: a group's
early rows are all NULL for a strict aggregate, so the state dumped with the
group is still empty (`noTransValue`); on reload a later partial state of the
group meets it, and `combine_transition` calls the strict combine function on
the empty state's datum, where the same table with unlimited capacity folds
the later rows into the empty state as their first value.
-/

namespace NodeAgg

section

variable {D : Type}

/-- Past a NULL incoming state that a strict function skips,
`combine_transition` calls the combine function on the current state as it is
and leaves `noTransValue` alone. -/
theorem combineTransition_eq_call {pt : AggStatePerTrans D} {f : FmgrInfo D}
    (hf : pt.combfn = some f) {input : NullableDatum D}
    (hin : f.fnStrict = true → input.isnull = false) (pg : AggStatePerGroup D) :
    combineTransition pt input pg = .ok (pg.setResult (f.fnAddr [pg.toArg, input])) := by
  cases hs : f.fnStrict <;> simp_all [combineTransition]

/-- With the transition's own function as combine function, the two merges
agree unless the function is strict and the current state still waits for its
first value. -/
theorem combineTransition_eq_advanceCombineFunction {pt : AggStatePerTrans D}
    (hf : pt.combfn = some pt.transfn)
    (h : pt.transfn.fnStrict = false ∨ pg.noTransValue = false) (input : NullableDatum D) :
    combineTransition pt input pg = .ok (advanceCombineFunction pt input pg) := by
  unfold combineTransition advanceCombineFunction
  rw [hf]
  cases hs : pt.transfn.fnStrict <;> cases hi : input.isnull <;> simp_all

variable [Inhabited D]

/-! ## The two-stage pipeline -/

/-- A node run to completion: `ExecInitAgg` over the given input, then
`ExecAgg` until it returns NULL. -/
def runNode (cfg : AggConfig D) (cats : List (AggTransCatalog D)) (rows : List (Tuple D))
    (fuel : Nat) : Except String (List (AggOutput D)) := do
  let (cfg, s0) ← execInitAgg cfg cats rows
  let (os, _) ← execAggScan cfg fuel fuel s0
  pure os

/-- Partial aggregation: a partial node per chunk, whose output rows (the
partial values) a Gather passes to one finalising node. -/
def twoStageAggregate (partialCfg finalCfg : AggConfig D) (cats : List (AggTransCatalog D))
    (chunks : List (List (Tuple D))) (fuel : Nat) : Except String (List (AggOutput D)) := do
  let parts ← chunks.mapM fun c => runNode partialCfg cats c fuel
  runNode finalCfg cats (parts.flatMap fun os => os.map (·.aggvalues)) fuel

end

/-! ## A strict combine function meeting an empty state -/

/-- `int4larger`: strict, and computing on the datums as they are. -/
def int4larger : FmgrInfo Int :=
  ⟨true, fun args => ⟨max (args.headD nullDatum).value (args.getD 1 nullDatum).value, false⟩⟩

/-- `max(int4)` in one node: strict `int4larger` for both transition and
combine function, no initial value. -/
def int4MaxTrans : AggStatePerTrans Int :=
  { (default : AggStatePerTrans Int) with
    numInputs := 1, numTransInputs := 1, evalArgs := fun t => [t.getD 1 nullDatum],
    transfn := int4larger, combfn := some int4larger, initValue := 0, initValueIsNull := true }

theorem combineTransition_strict_combfn_on_empty_state :
    combineTransition int4MaxTrans ⟨-5, false⟩ (initializeAggregate int4MaxTrans) =
      .ok ⟨0, false, true⟩ ∧
    advanceCombineFunction int4MaxTrans ⟨-5, false⟩ (initializeAggregate int4MaxTrans) =
      ⟨-5, false, false⟩ := ⟨rfl, rfl⟩

/-- `SELECT a, max(b) FROM t GROUP BY a` by hashing; with `hybrid` the table
holds one entry (`work_mem` of 1 kB) and spills into one batch file. -/
def maxByFirstColumn (hybrid : Bool) : AggConfig Int :=
  { aggstrategy := .hashed, aggsplit := ⟨false, false, false, false⟩,
    phases := [⟨.hashed, 1, [1], some [[1]], [], 0, [], id⟩],
    pertrans := [int4MaxTrans], peragg := [⟨0, none, 0⟩],
    perhash := [⟨1, [1], [1], [fun a b => a == b],
      fun key => (key.headD nullDatum).value.toNat.toUInt32, hybrid, 1024, 10⟩],
    allGroupedCols := [1], natts := 2, qual := fun _ => true,
    hybridHashAgg := true, workMem := 1, defaultHashaggNbatches := 1 }

def int4MaxCatalog : List (AggTransCatalog Int) := [⟨2116, some int4larger, none, none⟩]

/-- Group 1 sees a NULL, then group 2 evicts it, then group 1 sees `-5`. -/
def nullThenNegative : List (Tuple Int) :=
  [[⟨1, false⟩, ⟨0, true⟩], [⟨2, false⟩, ⟨7, false⟩], [⟨1, false⟩, ⟨-5, false⟩]]

theorem hybrid_max_differs_from_unlimited :
    ((runNode (maxByFirstColumn true) int4MaxCatalog nullThenNegative 20).map
        fun os => os.map fun o => (o.rep, o.aggvalues)) =
      .ok [([⟨1, false⟩, ⟨0, true⟩], [⟨0, false⟩]), ([⟨2, false⟩, ⟨0, true⟩], [⟨7, false⟩])] ∧
    ((runNode (maxByFirstColumn false) int4MaxCatalog nullThenNegative 20).map
        fun os => os.map fun o => (o.rep, o.aggvalues)) =
      .ok [([⟨1, false⟩, ⟨0, true⟩], [⟨-5, false⟩]), ([⟨2, false⟩, ⟨0, true⟩], [⟨7, false⟩])] :=
  ⟨rfl, rfl⟩

/-! ## A strict combine function meeting a NULL state -/

/-- The product of two signs, NULL standing for `+1` (the identity, which is
also the state before any input). -/
def signProduct (a b : NullableDatum Int) : NullableDatum Int :=
  if a.value * b.value = 1 then ⟨0, true⟩ else ⟨a.value * b.value, false⟩

/-- The transition function of the sign aggregate: not strict, reading a NULL
state as `+1`. -/
def signTransfn : FmgrInfo Int :=
  ⟨false, fun args =>
    let s := args.headD nullDatum
    signProduct (if s.isnull then ⟨1, false⟩ else s) (args.getD 1 nullDatum)⟩

/-- The combine function of the sign aggregate: strict, so by the convention for
strict combine functions a NULL state on either side stands for "no input" and
the other state is the result; on two non-NULL states it is the sign product. -/
def signCombinefn : FmgrInfo Int :=
  ⟨true, fun args => signProduct (args.headD nullDatum) (args.getD 1 nullDatum)⟩

/-- The sign aggregate's transition in a node using `fn`. -/
def signTrans (fn : FmgrInfo Int) : AggStatePerTrans Int :=
  { (default : AggStatePerTrans Int) with
    numInputs := 1, numTransInputs := 1, evalArgs := fun t => [t.headD nullDatum],
    transfn := fn, initValue := 0, initValueIsNull := true }

/-- A plain aggregation node computing the sign aggregate with `fn`. -/
def signNode (split : AggSplit) (fn : FmgrInfo Int) : AggConfig Int :=
  { aggstrategy := .plain, aggsplit := split,
    phases := [.dummy, ⟨.plain, 0, [], none, [], 0, [], id⟩],
    pertrans := [signTrans fn], peragg := [⟨0, none, 0⟩], perhash := [],
    allGroupedCols := [], natts := 1, qual := fun _ => true,
    hybridHashAgg := false, workMem := 0, defaultHashaggNbatches := 0 }

def signCatalog : List (AggTransCatalog Int) := [⟨1, some signCombinefn, none, none⟩]

theorem twoStageAggregate_sign_of_three_negatives :
    ((runNode (signNode ⟨false, false, false, false⟩ signTransfn) signCatalog
        [[⟨-1, false⟩], [⟨-1, false⟩], [⟨-1, false⟩]] 10).map fun os => os.map (·.aggvalues)) =
      .ok [[⟨-1, false⟩]] ∧
    ((twoStageAggregate (signNode ⟨false, true, false, false⟩ signTransfn)
        (signNode ⟨true, false, false, false⟩ signCombinefn) signCatalog
        [[[⟨-1, false⟩]], [[⟨-1, false⟩]], [[⟨-1, false⟩]]] 10).map fun os => os.map (·.aggvalues)) =
      .ok [[⟨0, false⟩]] := ⟨rfl, rfl⟩

end NodeAgg

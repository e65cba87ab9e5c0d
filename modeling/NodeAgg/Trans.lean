import NodeAgg.Datum

/-!
# Transition states: initialise, advance, combine, finalise

The per-aggregate machinery of `nodeAgg.c` at the level of values.  A
transition state (`AggStatePerGroupData`) is a datum, its null flag and the
`noTransValue` flag that marks a strict transition function's state still
waiting for its first non-NULL input.  The functions here are the source's
`initialize_aggregate`, `advance_transition_function`,
`advance_combine_function`, `combine_transition` (the hybrid reload's merge),
`process_ordered_aggregate_single` / `_multi`, `finalize_aggregate` and
`finalize_partialaggregate`.

Memory management is left out: `datumCopy` into the group's context, `pfree`
of the old value and the expanded-object adoption rule all preserve the value a
state denotes, and the value is what this layer is about.  The byte-level
spill records, where memory does matter, are modelled in `NodeAgg.RecordBytes`.

A caller of a strict function is responsible for not passing it NULLs.  The
model calls `fnAddr` exactly where the C code calls `FunctionCallInvoke`, so a
call with a NULL argument shows up as such.
-/

namespace NodeAgg

/-- `AggStatePerGroupData`: the working state of one transition in one group. -/
structure AggStatePerGroup (D : Type) where
  transValue : D
  transValueIsNull : Bool
  noTransValue : Bool
  deriving DecidableEq, Repr

/-- `AggStatePerTransData`, the fields the executor reads.  An `Oid` paired with
its fmgr data is one `Option`: `none` is `InvalidOid`. -/
structure AggStatePerTrans (D : Type) where
  numInputs : Nat
  /-- Inputs passed to the transition function (ORDER BY columns excluded for
  plain aggregates). -/
  numTransInputs : Nat
  /-- Columns `inputoff ..` of `evalslot`: the aggregated arguments of this
  transition, ORDER BY columns included, evaluated on an input tuple. -/
  evalArgs : Tuple D → Tuple D
  /-- The transition function, or the combine function in combine mode. -/
  transfn : FmgrInfo D
  /-- `serialfn_oid`: set when a SERIALIZE node must serialize an INTERNAL state. -/
  serialfn : Option (FmgrInfo D)
  /-- `deserialfn_oid`: set when a DESERIALIZE node must deserialize its input. -/
  deserialfn : Option (FmgrInfo D)
  /-- `aggtranstype == INTERNALOID`. -/
  transtypeInternal : Bool
  transtypeByVal : Bool
  /-- `combfn` and `combfn_fcinfo`, set up by ExecInitAgg for hybrid hashing. -/
  combfn : Option (FmgrInfo D)
  /-- `serial_func_id` / `serial_func`, for spilling INTERNAL states. -/
  serialFunc : Option (FmgrInfo D)
  /-- `deserial_func_id` / `deserial_func`, for reloading INTERNAL states. -/
  deserialFunc : Option (FmgrInfo D)
  /-- The FILTER clause: `none` for no clause, else its value on a tuple
  (`none` for a NULL result). -/
  aggfilter : Option (Tuple D → Option Bool)
  aggdirectargs : List (Tuple D → NullableDatum D)
  numSortCols : Nat
  /-- Zero or `numSortCols`. -/
  numDistinctCols : Nat
  sortColIdx : List Nat
  equalfns : List (D → D → Bool)
  /-- The tuplesort of this transition's DISTINCT / ORDER BY input: the tuples put
  in, read back in sort order with their abbreviated keys (`(Datum) 0` when the
  sort does not abbreviate). -/
  tuplesort : List (Tuple D) → List (Tuple D × UInt64)
  initValue : D
  initValueIsNull : Bool

/-- `AggStatePerAggData`: what the final function needs. -/
structure AggStatePerAgg (D : Type) where
  transno : Nat
  /-- `finalfn_oid` and its fmgr data (never set in SKIPFINAL mode). -/
  finalfn : Option (FmgrInfo D)
  numFinalArgs : Nat

section

variable {D : Type}

namespace AggStatePerGroup

/-- `fcinfo->arg[0]` / `argnull[0]` as loaded from a state. -/
def toArg (pg : AggStatePerGroup D) : NullableDatum D := ⟨pg.transValue, pg.transValueIsNull⟩

/-- The state after a function call returned `r`: `transValue = newVal;
transValueIsNull = fcinfo->isnull`. -/
def setResult (pg : AggStatePerGroup D) (r : NullableDatum D) : AggStatePerGroup D :=
  { pg with transValue := r.value, transValueIsNull := r.isnull }

/-- A state seeded from a datum: both flags cleared at once. -/
def seeded (v : D) : AggStatePerGroup D := ⟨v, false, false⟩

@[simp] theorem toArg_setResult (pg : AggStatePerGroup D) (r : NullableDatum D) :
    (pg.setResult r).toArg = r := rfl

@[simp] theorem setResult_noTransValue (pg : AggStatePerGroup D) (r : NullableDatum D) :
    (pg.setResult r).noTransValue = pg.noTransValue := rfl

@[simp] theorem toArg_seeded (v : D) : (seeded v).toArg = ⟨v, false⟩ := rfl

end AggStatePerGroup

open AggStatePerGroup

/-- `initialize_aggregate`, the state part: the initial value, with
`noTransValue` set exactly when that value is NULL. -/
def initializeAggregate (pt : AggStatePerTrans D) : AggStatePerGroup D :=
  ⟨pt.initValue, pt.initValueIsNull, pt.initValueIsNull⟩

/-- `initialize_aggregate`, the sorter part: a fresh, empty tuplesort for a
DISTINCT / ORDER BY transition, none otherwise. -/
def initializeSort (pt : AggStatePerTrans D) : Option (List (Tuple D)) :=
  if pt.numSortCols > 0 then some [] else none

/-- `advance_transition_function`, with the `numTransInputs` arguments
`fcinfo->arg[1..]` already loaded.  A strict transition function skips a row
with a NULL input; the first non-NULL row of a NULL-initialised state becomes
the state (`datumCopy(fcinfo->arg[1])`); a state that a strict function has
turned NULL stays NULL. -/
def advanceTransitionFunction [Inhabited D] (pt : AggStatePerTrans D) (args : Tuple D)
    (pg : AggStatePerGroup D) : AggStatePerGroup D :=
  if pt.transfn.fnStrict then
    if args.any (·.isnull) then pg
    else if pg.noTransValue then seeded (args.headD nullDatum).value
    else if pg.transValueIsNull then pg
    else pg.setResult (pt.transfn.fnAddr (pg.toArg :: args))
  else pg.setResult (pt.transfn.fnAddr (pg.toArg :: args))

/-- `advance_combine_function`, with the incoming state in `fcinfo->arg[1]`.
In combine mode `transfn` is the aggregate's combine function.  A strict one
ignores a NULL incoming state and lets it seed a state still marked
`noTransValue`; a NULL current state is not otherwise checked. -/
def advanceCombineFunction (pt : AggStatePerTrans D) (input : NullableDatum D)
    (pg : AggStatePerGroup D) : AggStatePerGroup D :=
  if pt.transfn.fnStrict then
    if input.isnull then pg
    else if pg.noTransValue then seeded input.value
    else pg.setResult (pt.transfn.fnAddr [pg.toArg, input])
  else pg.setResult (pt.transfn.fnAddr [pg.toArg, input])

/-- `combine_transition`: the hybrid reload's merge of a re-read partial state
into an entry's state, through `combfn`.  Its `noTransValue` branch is compiled
out (`#if 0`), so a strict `combfn` is called whenever the incoming state is
non-NULL, whatever the current state.  `combfn` is only valid when ExecInitAgg
set it up; reaching here without it is the error this returns. -/
def combineTransition (pt : AggStatePerTrans D) (input : NullableDatum D)
    (pg : AggStatePerGroup D) : Except String (AggStatePerGroup D) :=
  match pt.combfn with
  | none => .error "combine_transition: combfn_fcinfo was never initialised"
  | some combfn =>
    if combfn.fnStrict && input.isnull then .ok pg
    else .ok (pg.setResult (combfn.fnAddr [pg.toArg, input]))

/-- Once `noTransValue` goes false it stays false under the combine step. -/
theorem noTransValue_of_advanceCombineFunction {pt : AggStatePerTrans D} {input : NullableDatum D}
    {pg : AggStatePerGroup D} (h : (advanceCombineFunction pt input pg).noTransValue = true) :
    pg.noTransValue = true := by
  unfold advanceCombineFunction at h
  split_ifs at h <;> simp_all [seeded]

variable [Inhabited D]

/-- A transition with no inputs and no functions, standing for an
out-of-range `pertrans[transno]`. -/
instance : Inhabited (AggStatePerTrans D) :=
  ⟨⟨0, 0, fun _ => [], ⟨false, fun _ => nullDatum⟩, none, none, false, true, none, none, none,
    none, [], 0, 0, [], [], fun _ => [], default, true⟩⟩

/-- `process_ordered_aggregate_single`: feed the sorted datums of one
DISTINCT / ORDER BY transition to the transition function.  The datum lands in
`fcinfo->arg[1]`, of which the transition reads its `numTransInputs` arguments
(none for an aggregate whose one input is an ORDER BY column, such as
`count(*) ORDER BY x`).  Under DISTINCT a datum equal to the last accepted one
is skipped: two NULLs are equal, and two non-NULLs are equal when their
abbreviated keys agree and `equalfns[0]` says so. -/
def processOrderedAggregateSingle (pt : AggStatePerTrans D) :
    List (Tuple D × UInt64) → (old : Option (NullableDatum D × UInt64)) →
    AggStatePerGroup D → AggStatePerGroup D
  | [], _, pg => pg
  | (t, key) :: rest, old, pg =>
    let v := t.headD nullDatum
    let dup : Bool := match old with
      | some (o, okey) =>
        pt.numDistinctCols > 0 &&
          ((o.isnull && v.isnull) ||
            (!o.isnull && !v.isnull && okey == key &&
              (pt.equalfns.headD (fun _ _ => false)) o.value v.value))
      | none => false
    if dup then processOrderedAggregateSingle pt rest old pg
    else processOrderedAggregateSingle pt rest (some (v, key))
      (advanceTransitionFunction pt ([v].take pt.numTransInputs) pg)

/-- `process_ordered_aggregate_multi`: the same over whole sorted tuples, the
first `numTransInputs` columns passed to the transition function.  Under
DISTINCT a tuple is skipped when its abbreviated key equals the last accepted
tuple's and `execTuplesMatch` finds them equal on the `numDistinctCols` sort
columns. -/
def processOrderedAggregateMulti (pt : AggStatePerTrans D) :
    List (Tuple D × UInt64) → (old : Option (Tuple D × UInt64)) →
    AggStatePerGroup D → AggStatePerGroup D
  | [], _, pg => pg
  | (t, key) :: rest, old, pg =>
    let dup : Bool := match old with
      | some (o, okey) =>
        pt.numDistinctCols != 0 && okey == key &&
          execTuplesMatch pt.equalfns pt.sortColIdx pt.numDistinctCols t o
      | none => false
    if dup then processOrderedAggregateMulti pt rest old pg
    else
      let pg' := advanceTransitionFunction pt (t.take pt.numTransInputs) pg
      processOrderedAggregateMulti pt rest
        (if pt.numDistinctCols > 0 then some (t, key) else old) pg'

/-- The DISTINCT / ORDER BY transition run at finalize time on the tuples its
sorter collected: sort, then the single-datum path for one input, the tuple
path otherwise. -/
def processOrderedAggregate (pt : AggStatePerTrans D) (sorted : List (Tuple D))
    (pg : AggStatePerGroup D) : AggStatePerGroup D :=
  if pt.numInputs = 1 then processOrderedAggregateSingle pt (pt.tuplesort sorted) none pg
  else processOrderedAggregateMulti pt (pt.tuplesort sorted) none pg

/-- `finalize_aggregate`: the final function over the state, the direct
arguments evaluated on the representative tuple, and NULLs for the remaining
`numFinalArgs` positions; a strict final function with any NULL argument gives
NULL without being called.  Without a final function the state is the result. -/
def finalizeAggregate (pt : AggStatePerTrans D) (pa : AggStatePerAgg D) (rep : Tuple D)
    (pg : AggStatePerGroup D) : NullableDatum D :=
  let direct := pt.aggdirectargs.map (· rep)
  match pa.finalfn with
  | none => pg.toArg
  | some finalfn =>
    let args := pg.toArg :: direct ++ List.replicate (pa.numFinalArgs - 1 - direct.length) nullDatum
    if finalfn.fnStrict && args.any (·.isnull) then nullDatum else finalfn.fnAddr args

/-- `finalize_partialaggregate`: the state itself, serialized when the node
must serialize (a strict serialization function is not called on NULL). -/
def finalizePartialaggregate (pt : AggStatePerTrans D) (pg : AggStatePerGroup D) :
    NullableDatum D :=
  match pt.serialfn with
  | none => pg.toArg
  | some serialfn =>
    if serialfn.fnStrict && pg.transValueIsNull then nullDatum else serialfn.fnAddr [pg.toArg]

/-! ## The `noTransValue` flag -/

/-- Once `noTransValue` goes false it stays false under the transition. -/
theorem noTransValue_of_advanceTransitionFunction {pt : AggStatePerTrans D} {args : Tuple D}
    {pg : AggStatePerGroup D} (h : (advanceTransitionFunction pt args pg).noTransValue = true) :
    pg.noTransValue = true := by
  unfold advanceTransitionFunction at h
  split_ifs at h <;> simp_all [seeded]

end

end NodeAgg

import Mathlib.Algebra.BigOperators.Group.Finset
import Mathlib.Data.Multiset.OrderedMonoid
import Mathlib.Tactic.Abel
import NodeAgg.RecordBytes

/-!
# Parallel workers redistributing their rows

Under a parallel hash aggregate every worker runs `agg_fill_hash_table` on its
share of the child's rows and passes each row to `ReDistributeData`, which sends
it to the worker `ReDistributeHash` picks from the redistribution column (worker
0 for a NULL) unless that is the worker itself.  A row goes into the ring
`buf[self*N+dest]` when `ReDistributeBufferFreeSize` leaves room for it and its
length word, else it is appended to the temp file for `dest`; after a send the
worker takes one row from the first peer's ring that is over a quarter full.
When its child is exhausted a worker publishes its files and sets
`ReDistribute_ProduceDone` (`ReDistributeShareBufFile`), waits for every peer's
`ProduceDone` while it merges their files for it (`GetReDistributeBufFile`),
drains its rings, then the merged file (`GetReDistributeData`), sets
`ReDistribute_ConsumeDone` and waits for every peer's, and last checks that its
own rings are empty (`ReDistributeBufferCheck`).

## The model

* A worker's state is its remaining input, its phase (which loop of the code it
  is in, with that loop's locals) and the rows it has fed to
  `lookup_hash_entries` and `advance_aggregates` so far, each as the data type
  and bytes `ReDistributeData` sends for it.  Its `ReDistributeStatus` is a
  function of its phase: the code sets it exactly where the phase changes.
* The shared state is one `ReDistributeChannel` per ordered pair of workers:
  the ring, its data type, the data type of the temp file's `ReDistributeBufFile`
  and the temp file's bytes.
* `workerStep` is one step of one worker: one call of `ReDistributeData` with
  the row it is passed, one turn of a wait loop, or one call of
  `GetReDistributeData`.  A run is any interleaving of such steps
  (`ExchangeReachable`).  Each step is atomic: the rings are single-producer
  single-consumer, and only the owner of a ring's end moves it.
* An error stops the worker with `ReDistribute_Error` (`ReDistributeEreport`);
  what it changed in shared memory before raising stays changed.

## The properties

`NodeAgg.ParallelSafety` states the invariant of the exchange and proves that
every step keeps it; `NodeAgg.ParallelRuns` reads off it, over every
interleaving, that no row is lost, duplicated or misrouted and that the checks
on the exchange's bookkeeping never fail.
-/

namespace NodeAgg

/-! ## Rows and routing -/

/-- `ReDistributeStatus`, in the order the code's comparisons need:
`ReDistribute_Error` below `Init`, `ProduceDone` and `ConsumeDone` above it.
Modelled from the spec: the header that declares it is not in the source. -/
inductive ReDistributeStatus where
  | none
  | error
  | init
  | produceDone
  | consumeDone
  deriving DecidableEq, Repr

/-- The enumerator's value, for the comparisons. -/
def ReDistributeStatus.toNat : ReDistributeStatus → Nat
  | .none => 0
  | .error => 1
  | .init => 2
  | .produceDone => 3
  | .consumeDone => 4

/-- A slot's `HeapTuple`: the `HEAPTUPLESIZE` bytes at `tts_tuple` (a
`HeapTupleData`, `t_len` its first word) and the `t_len` bytes at `t_data`. -/
structure HeapTupleBytes (heapTupleSize : Nat) where
  header : List UInt8
  tData : List UInt8
  header_length : header.length = heapTupleSize
  four_le : 4 ≤ header.length
  tLen_eq : tLen header = tData.length

/-- A child's row as its slot holds it: a data row from a remote node, a
minimal tuple, a heap tuple, or none of these, whose message
`ExecCopySlotDatarow` forms. -/
inductive ReDistributeSlot (heapTupleSize : Nat) where
  | dataRow (msg : List UInt8)
  | minimalTup (tuple : MinimalTupleData)
  | heapTup (tuple : HeapTupleBytes heapTupleSize)
  | virtual (msg : List UInt8)

/-- The data type and the `dataLen` bytes `ReDistributeData` sends for a slot. -/
def ReDistributeSlot.message {hts : Nat} : ReDistributeSlot hts → ReDistributeDataType × List UInt8
  | .dataRow msg => (.dataRow, msg)
  | .minimalTup t => (.minimalTup, t.bytes)
  | .heapTup t => (.heapTup, t.header ++ t.tData)
  | .virtual msg => (.dataRow, msg)

/-- A row of a worker's child: its slot and the value of the redistribution
column, `slot_getattr(slot, varattno)`.  `dataLen` is an `int`. -/
structure ChildRow (D : Type) (heapTupleSize : Nat) where
  slot : ReDistributeSlot heapTupleSize
  groupCol : NullableDatum D
  length_lt : slot.message.2.length < 2 ^ 31

/-- What the workers share and `nodeAgg.c` reads without computing it:
`numLaunchedParallelWorkers`, `ReDistributeBufferSize`, and the hash function
of the redistribution column's type. -/
structure ReDistributeSetup (D : Type) where
  numWorkers : Nat
  bufferSize : Nat
  hashfunc : D → UInt32

/-- `ReDistributeHash`.  No case of its `switch` ends in `break`, so every type
falls through to `default`: the column's hash value mod `1 << numWorkers`, mod
`numWorkers`.  The shift overflows an `int` from 31 workers on. -/
def reDistributeHash (numWorkers : Nat) (hashvalue : UInt32) : Except String Nat :=
  if 31 ≤ numWorkers then throw "ReDistributeHash: 1 << numWorkers overflows int"
  else return hashvalue.toNat % 2 ^ numWorkers % numWorkers

section Routing

variable {D : Type} {hts : Nat} (rd : ReDistributeSetup D)

/-- `indexSendWorker` in `ReDistributeData`: worker 0 for a NULL. -/
def indexSendWorker (r : ChildRow D hts) : Except String Nat :=
  if r.groupCol.isnull then return 0 else reDistributeHash rd.numWorkers (rd.hashfunc r.groupCol.value)

/-- Whether a row routes to worker `w`. -/
def routesTo (w : Nat) (r : ChildRow D hts) : Bool :=
  match indexSendWorker rd r with
  | .ok dest => dest == w
  | .error _ => false

/-- The messages of the rows of `rows` that route to `w`. -/
def routedTo (w : Nat) (rows : List (ChildRow D hts)) : List (ReDistributeDataType × List UInt8) :=
  (rows.filter (routesTo rd w)).map (·.slot.message)

end Routing

/-! ## Workers and channels -/

/-- What the workers share for one ordered pair (sender, receiver): the ring
`buf[i*N+j]` and its `dataType`, the `dataType` of `ReDistributeData[i*N+j]`'s
`ReDistributeBufFile` (`none` while the pointer is invalid), and the bytes of
the sender's temp file for the receiver. -/
structure ReDistributeChannel where
  buf : ReDistributeBuffer
  bufType : ReDistributeDataType
  bufFile : Option ReDistributeDataType
  file : List UInt8

/-- Which loop of the code a worker is in, with its locals: the child loop of
`agg_fill_hash_table`; `GetReDistributeBufFile`'s, at peer `i` with `nMerged`
files merged, `merged[]`, the data type so far and the merged file (`NULL`:
none); the calls of `GetReDistributeData` at ring `index`; its wait for every
`ConsumeDone`, `nDone` counted; finished; stopped by an error. -/
inductive WorkerPhase where
  | producing
  | merging (i nMerged : Nat) (merged : List Bool) (dataType : ReDistributeDataType) (file : Option (List UInt8))
  | draining (index : Nat) (dataType : ReDistributeDataType) (file : Option (List UInt8))
  | consumeWait (nDone : Nat)
  | done
  | failed (msg : String)

/-- `state->status[w]`: `Init` from `ReDistributeInitializeWorker`,
`ProduceDone` from the end of `ReDistributeShareBufFile`, `ConsumeDone` once
the data is read, `Error` from `ReDistributeEreport`. -/
def WorkerPhase.status : WorkerPhase → ReDistributeStatus
  | .producing => .init
  | .merging .. | .draining .. => .produceDone
  | .consumeWait _ | .done => .consumeDone
  | .failed _ => .error

/-- One parallel worker: the rows its child has yet to return, its phase, and
the messages of the rows it has passed to `lookup_hash_entries`, in order. -/
structure ParallelWorker (D : Type) (heapTupleSize : Nat) where
  input : List (ChildRow D heapTupleSize)
  phase : WorkerPhase
  fed : List (ReDistributeDataType × List UInt8)

/-- All workers and all channels.  Functions rather than arrays: a step
updates one or two entries, and pointwise updates keep the frame lemmas
immediate. -/
structure ParallelAgg (D : Type) (heapTupleSize : Nat) where
  chan : Nat → Nat → ReDistributeChannel
  workers : Nat → ParallelWorker D heapTupleSize

namespace ParallelAgg

variable {D : Type} {hts : Nat}

/-- Store channel `(i, j)`. -/
def setChan (s : ParallelAgg D hts) (i j : Nat) (c : ReDistributeChannel) : ParallelAgg D hts :=
  { s with chan := fun a b => if a = i ∧ b = j then c else s.chan a b }

/-- Store worker `w`. -/
def setWorker (s : ParallelAgg D hts) (w : Nat) (p : ParallelWorker D hts) : ParallelAgg D hts :=
  { s with workers := Function.update s.workers w p }

/-- Worker `w` moves to phase `p`. -/
def setPhase (s : ParallelAgg D hts) (w : Nat) (p : WorkerPhase) : ParallelAgg D hts :=
  s.setWorker w { s.workers w with phase := p }

/-- Worker `w` stops on an error. -/
def fail (s : ParallelAgg D hts) (w : Nat) (msg : String) : ParallelAgg D hts := s.setPhase w (.failed msg)

/-- Worker `w`'s child has returned its next row. -/
def setInput (s : ParallelAgg D hts) (w : Nat) (rest : List (ChildRow D hts)) : ParallelAgg D hts :=
  s.setWorker w { s.workers w with input := rest }

/-- Worker `w` passes a row to `lookup_hash_entries` and `advance_aggregates`. -/
def feed (s : ParallelAgg D hts) (w : Nat) (m : ReDistributeDataType × List UInt8) : ParallelAgg D hts :=
  s.setWorker w { s.workers w with fed := (s.workers w).fed ++ [m] }

variable (s : ParallelAgg D hts) {i j w a b : Nat} (c : ReDistributeChannel)

@[simp] theorem setChan_chan : (s.setChan i j c).chan a b = if a = i ∧ b = j then c else s.chan a b := rfl

@[simp] theorem setChan_workers : (s.setChan i j c).workers = s.workers := rfl

@[simp] theorem setWorker_chan (p : ParallelWorker D hts) : (s.setWorker w p).chan = s.chan := rfl

@[simp] theorem setWorker_workers (p : ParallelWorker D hts) :
    (s.setWorker w p).workers a = if a = w then p else s.workers a := Function.update_apply ..

variable (m : ReDistributeDataType × List UInt8)

@[simp] theorem feed_chan : (s.feed w m).chan = s.chan := rfl

@[simp] theorem feed_phase : ((s.feed w m).workers a).phase = (s.workers a).phase := by
  simp only [feed, setWorker_workers]
  split <;> simp_all

@[simp] theorem feed_input : ((s.feed w m).workers a).input = (s.workers a).input := by
  simp only [feed, setWorker_workers]
  split <;> simp_all

@[simp] theorem feed_fed :
    ((s.feed w m).workers a).fed = if a = w then (s.workers w).fed ++ [m] else (s.workers a).fed := by
  simp only [feed, setWorker_workers]
  split <;> rfl

@[simp] theorem setWorker_setWorker (p p' : ParallelWorker D hts) :
    (s.setWorker w p).setWorker w p' = s.setWorker w p' := by
  simp [setWorker, Function.update_idem]

variable (rest : List (ChildRow D hts))

@[simp] theorem setInput_chan : (s.setInput w rest).chan = s.chan := rfl

@[simp] theorem setInput_phase : ((s.setInput w rest).workers a).phase = (s.workers a).phase := by
  simp only [setInput, setWorker_workers]
  split <;> simp_all

@[simp] theorem setInput_fed : ((s.setInput w rest).workers a).fed = (s.workers a).fed := by
  simp only [setInput, setWorker_workers]
  split <;> simp_all

@[simp] theorem setInput_input :
    ((s.setInput w rest).workers a).input = if a = w then rest else (s.workers a).input := by
  simp only [setInput, setWorker_workers]
  split <;> rfl

theorem setPhase_feed (p : WorkerPhase) :
    (s.setPhase w p).feed w m = s.setWorker w { s.workers w with phase := p, fed := (s.workers w).fed ++ [m] } := by
  simp [feed, setPhase]

end ParallelAgg

/-! ## The steps -/

/-- The send half of `ReDistributeData`: into the ring when
`ReDistributeBufferFreeSize` is at least `dataLen + sizeof(int)`, else onto the
temp file as its length and bytes.  The ring and the file each take the data
type of their first row and refuse another. -/
def reDistributeSend (c : ReDistributeChannel) (dataType : ReDistributeDataType) (data : List UInt8) :
    Except String ReDistributeChannel :=
  if (data.length : Int) + 4 ≤ reDistributeBufferFreeSize c.buf then
    if c.bufType = .none then return { c with bufType := dataType, buf := reDistributeBufferPutData c.buf data }
    else if c.bufType ≠ dataType then throw "mismatch data type in same buffer."
    else return { c with buf := reDistributeBufferPutData c.buf data }
  else
    match c.bufFile with
    | none => return { c with bufFile := some dataType, file := c.file ++ frame data }
    | some t =>
      if t ≠ dataType then throw "mismatch data type in same bufFile."
      else return { c with file := c.file ++ frame data }

/-- The `switch` that stores a row read from a ring into the slot: a minimal
or a heap tuple must be as long as the length read with it. -/
def reDistributeStore (hts : Nat) (dataType : ReDistributeDataType) (dataLen : Nat) (data : List UInt8) :
    Except String Unit :=
  match dataType with
  | .minimalTup =>
    if ownLength .minimalTup hts data ≠ dataLen then
      throw "data len mismatch between minimal tup and length read from bufFile."
    else pure ()
  | .heapTup =>
    if ownLength .heapTup hts data ≠ dataLen then
      throw "data len mismatch between heap tup and length read from bufFile."
    else pure ()
  | .dataRow => pure ()
  | .none => throw "wrong data type while getting ReDistributeData."

/-- The peer after `j` in `ReDistributeData`'s look round the rings, skipping
the worker itself. -/
def nextPeer (numWorkers self j : Nat) : Nat :=
  if (j + 1) % numWorkers = self then ((j + 1) % numWorkers + 1) % numWorkers else (j + 1) % numWorkers

/-- The `k` peers `ReDistributeData` looks at from `j` on. -/
def peerRound (numWorkers self : Nat) : Nat → Nat → List Nat
  | 0, _ => []
  | k + 1, j => j :: peerRound numWorkers self k (nextPeer numWorkers self j)

/-- The message that worker `self` takes from the ring `buf[j*N+self]` with
`ReDistributeBufferGetData`, typed by the ring, or the error the `switch`
after it raises. -/
def ringRow (hts : Nat) (c : ReDistributeChannel) : Except String (ReDistributeDataType × List UInt8) :=
  let r := reDistributeBufferGetData c.buf
  (reDistributeStore hts c.bufType r.1 r.2.1).map fun _ => (c.bufType, r.2.1)

/-- The channel once a message is taken from its ring. -/
def ReDistributeChannel.taken (c : ReDistributeChannel) : ReDistributeChannel :=
  { c with buf := (reDistributeBufferGetData c.buf).2.2 }

/-- The error a waiting worker raises on a peer's `ReDistribute_Error`. -/
def peerErrorMessage : String :=
  "some other workers exit with errors, and we need to exit because of data corrupted."

section Steps

variable {D : Type} {hts : Nat} (rd : ReDistributeSetup D)

/-- `ReDistributeData` on a row `r` of worker `self`'s child, then what
`agg_fill_hash_table` does with its answer: a row kept, or taken from a peer's
ring, is fed; after a send with nothing taken the loop goes on.  A worker that
fails before sending keeps its input: it reads no more of it. -/
def reDistributeData (s : ParallelAgg D hts) (self : Nat) (r : ChildRow D hts) (rest : List (ChildRow D hts)) :
    ParallelAgg D hts :=
  match indexSendWorker rd r with
  | .error e => s.fail self e
  | .ok dest =>
    if dest = self then (s.setInput self rest).feed self r.slot.message
    else
      match reDistributeSend (s.chan self dest) r.slot.message.1 r.slot.message.2 with
      | .error e => s.fail self e
      | .ok c =>
        let s := (s.setChan self dest c).setInput self rest
        let quarterFull := fun j => decide (reDistributeBufferFreeSize (s.chan j self).buf < (rd.bufferSize / 4 * 3 : Nat))
        match (peerRound rd.numWorkers self (rd.numWorkers - 1) dest).find? quarterFull with
        | none => s
        | some j =>
          let s' := s.setChan j self (s.chan j self).taken
          match ringRow hts (s.chan j self) with
          | .error e => s'.fail self e
          | .ok m => s'.feed self m

/-- One turn of `GetReDistributeBufFile`'s loop at peer `i`: a peer past
`ProduceDone` and not yet merged has its file for `self` added to the merged
file, whose data type all the files must share. -/
def getReDistributeBufFileStep (s : ParallelAgg D hts) (self i nMerged : Nat) (merged : List Bool)
    (dataType : ReDistributeDataType) (file : Option (List UInt8)) : ParallelAgg D hts :=
  let N := rd.numWorkers
  if nMerged < N then
    let next := (i + 1) % N
    if i ≠ self then
      let st := (s.workers i).phase.status
      if ReDistributeStatus.produceDone.toNat ≤ st.toNat ∧ merged.getD i false = false then
        let merged := merged.set i true
        match (s.chan i self).bufFile with
        | none => s.setPhase self (.merging next (nMerged + 1) merged dataType file)
        | some t =>
          if dataType ≠ .none ∧ dataType ≠ t then s.fail self "data type mismatch between workers."
          else s.setPhase self (.merging next (nMerged + 1) merged t (some (file.getD [] ++ (s.chan i self).file)))
      else if st = .error then s.fail self peerErrorMessage
      else s.setPhase self (.merging next nMerged merged dataType file)
    else s.setPhase self (.merging next nMerged merged dataType file)
  else s.setPhase self (.draining 0 dataType file)

/-- One call of `GetReDistributeData` at ring `index`: a row from the first
non-empty ring from `index` on, else the next record of the merged file, else
`ConsumeDone` and the wait for the peers. -/
def getReDistributeData (s : ParallelAgg D hts) (self index : Nat) (dataType : ReDistributeDataType)
    (file : Option (List UInt8)) : ParallelAgg D hts :=
  let N := rd.numWorkers
  let nonEmpty := fun j => decide (j ≠ self ∧ (s.chan j self).buf.head ≠ (s.chan j self).buf.tail)
  match (List.range' index (N - index)).find? nonEmpty with
  | some j =>
    let s' := s.setChan j self (s.chan j self).taken
    match ringRow hts (s.chan j self) with
    | .error e => s'.fail self e
    | .ok m => (s'.feed self m).setPhase self (.draining j dataType file)
  | none =>
    match file with
    | none => s.setPhase self (.consumeWait 0)
    | some f =>
      match getReDistributeFileData dataType hts f with
      | .error e => s.fail self e
      | .ok (none, _) => s.setPhase self (.consumeWait 0)
      | .ok (some data, f') => (s.setPhase self (.draining N dataType (some f'))).feed self (dataType, data)

/-- One turn of `GetReDistributeData`'s wait for every `ConsumeDone`; once all
are counted the temp files are closed and `ReDistributeBufferCheck` runs on
the worker's own rings. -/
def consumeWaitStep (s : ParallelAgg D hts) (self nDone : Nat) : ParallelAgg D hts :=
  let N := rd.numWorkers
  if nDone < N then
    let st := (s.workers nDone).phase.status
    if st.toNat < ReDistributeStatus.consumeDone.toNat ∧ ReDistributeStatus.error.toNat < st.toNat then s
    else if st = .error then s.fail self peerErrorMessage
    else s.setPhase self (.consumeWait (nDone + 1))
  else
    match (List.range N).find? (fun j => decide ((s.chan self j).buf.head ≠ (s.chan self j).buf.tail)) with
    | some j => s.fail self s!"data left in ReDistributeBuffer, worker {self}, buffer {self * N + j}."
    | none => s.setPhase self .done

/-- One step of worker `self`. -/
def workerStep (s : ParallelAgg D hts) (self : Nat) : ParallelAgg D hts :=
  match (s.workers self).phase with
  | .producing =>
    match (s.workers self).input with
    | [] => s.setPhase self (.merging 0 1 ((List.replicate rd.numWorkers false).set self true) .none none)
    | r :: rest => reDistributeData rd s self r rest
  | .merging i nMerged merged dataType file => getReDistributeBufFileStep rd s self i nMerged merged dataType file
  | .draining index dataType file => getReDistributeData rd s self index dataType file
  | .consumeWait nDone => consumeWaitStep rd s self nDone
  | .done | .failed _ => s

/-- Every worker producing from its child's rows, every ring empty, no file
written; `mem` is what the rings' bytes start as. -/
def ParallelAgg.initial (inputs : Nat → List (ChildRow D hts)) (mem : Nat → Nat → Nat → UInt8) :
    ParallelAgg D hts :=
  ⟨fun i j => ⟨⟨rd.bufferSize, 0, 0, mem i j⟩, .none, none, []⟩, fun w => ⟨inputs w, .producing, []⟩⟩

/-- The states an interleaving of the workers' steps reaches. -/
inductive ExchangeReachable (s0 : ParallelAgg D hts) : ParallelAgg D hts → Prop
  | initial : ExchangeReachable s0 s0
  | step {s : ParallelAgg D hts} (w : Nat) : w < rd.numWorkers → ExchangeReachable s0 s →
      ExchangeReachable s0 (workerStep rd s w)

/-- The first `j` from `s` on that `find?` returns: every one before it fails. -/
theorem range'_find?_some {p : Nat → Bool} : ∀ {s n j : Nat}, (List.range' s n).find? p = some j →
    s ≤ j ∧ j < s + n ∧ p j = true ∧ ∀ k, s ≤ k → k < j → p k = false
  | s, 0, j, h => by simp at h
  | s, n + 1, j, h => by
    rw [List.range'_succ, List.find?_cons] at h
    split at h
    · cases h
      exact ⟨le_rfl, by omega, ‹_›, fun k hk hkj => by omega⟩
    · obtain ⟨h1, h2, h3, h4⟩ := range'_find?_some h
      refine ⟨by omega, by omega, h3, fun k hk hkj => ?_⟩
      by_cases hks : k = s
      · subst hks
        assumption
      · exact h4 k (by omega) hkj

theorem range'_find?_none {p : Nat → Bool} {s n : Nat} (h : (List.range' s n).find? p = none) :
    ∀ k, s ≤ k → k < s + n → p k = false := fun k h1 h2 => by
  simpa using List.find?_eq_none.1 h k (List.mem_range'_1.2 ⟨h1, h2⟩)

/-- The steps of a schedule, one worker after another. -/
def runSchedule (s : ParallelAgg D hts) (sched : List Nat) : ParallelAgg D hts :=
  sched.foldl (workerStep rd) s

/-- A schedule of workers below `numWorkers` is an interleaving. -/
theorem ExchangeReachable.run {s0 s : ParallelAgg D hts} (hs : ExchangeReachable rd s0 s) {sched : List Nat}
    (hsched : ∀ w ∈ sched, w < rd.numWorkers) : ExchangeReachable rd s0 (runSchedule rd s sched) := by
  induction sched generalizing s with
  | nil => exact hs
  | cons w ws ih =>
    exact ih (.step w (hsched w (List.mem_cons_self _ _)) hs) fun v hv => hsched v (List.mem_cons_of_mem _ hv)

end Steps

end NodeAgg

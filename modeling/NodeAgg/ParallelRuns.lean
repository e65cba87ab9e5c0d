import NodeAgg.ParallelSafety

/-!
# Every interleaving of the redistribution

`ParallelSafety` shows that each step of a worker keeps `ExchangeInv`.  Here
the steps are put together: the invariant holds in every state that an
interleaving of the workers reaches (`exchangeInv_of_reachable`), whatever the
order in which the workers run, and what a maintainer relies on is read off it:

* at any time a worker has fed only rows of its children's inputs that hash to
  it, none more often than the children hold it (`fed_le_routed`), and once it
  is done it has fed exactly those rows (`fed_eq_routed_of_done`): no row is
  lost, duplicated or delivered to the wrong worker, through rings or files;
* a worker is done only once every peer has read all the data meant for it
  (`peers_finished_of_done`);
* the checks on the exchange's own bookkeeping, the `switch` after a read and
  `ReDistributeBufferCheck`, never fail (`bookkeeping_never_fails`).
-/

namespace NodeAgg

open Finset

section Runs

variable {D : Type} {hts : Nat} {rd : ReDistributeSetup D} {inputs0 : Nat → List (ChildRow D hts)}
  {s : ParallelAgg D hts} {V : ExchangeViews}

/-- Every step of a worker keeps the invariant, one phase at a time. -/
theorem ExchangeInv.workerStep (h : ExchangeInv rd inputs0 s V) {self : Nat} (hself : self < rd.numWorkers) :
    ∃ V', ExchangeInv rd inputs0 (workerStep rd s self) V' := by
  unfold NodeAgg.workerStep
  split
  · rename_i hp
    split
    · exact ⟨_, h.produceDone hself hp ‹_›⟩
    · exact h.reDistributeData hself hp ‹_›
  · exact h.getReDistributeBufFileStep (by omega) ‹_›
  · exact h.getReDistributeData ‹_›
  · exact h.consumeWaitStep hself ‹_›
  · exact ⟨V, h⟩
  · exact ⟨V, h⟩

/-- The invariant holds in every state an interleaving of the workers reaches. -/
theorem exchangeInv_of_reachable (hpos : 0 < rd.bufferSize) (hlt : rd.bufferSize < 2 ^ 31)
    {inputs : Nat → List (ChildRow D hts)} {mem : Nat → Nat → Nat → UInt8}
    (hs : ExchangeReachable rd (ParallelAgg.initial rd inputs mem) s) : ∃ V, ExchangeInv rd inputs s V := by
  induction hs with
  | initial => exact ⟨_, exchangeInv_initial rd inputs mem hpos hlt⟩
  | step w hw _ ih =>
    obtain ⟨V, h⟩ := ih
    exact h.workerStep hw

/-- A finished worker is owed nothing but what it has fed: the rings to it are
drained, every file to it merged and read, every child past its input. -/
theorem ExchangeInv.owed_done (h : ExchangeInv rd inputs0 s V) {w : Nat} (hdone : (s.workers w).phase = .done) :
    owed rd s V w = (s.workers w).fed := by
  have hring : ∀ j ∈ range rd.numWorkers, (s.chan j w).ringMsgs (V.ring j w) = 0 := fun j hj => by
    by_cases hjw : j = w
    · simp [hjw, h.self_ring, ReDistributeChannel.ringMsgs]
    · simp [h.drained w j hjw (by simpa [hdone, WorkerPhase.drainedPast] using hj),
        ReDistributeChannel.ringMsgs]
  have hfile : ∀ j ∈ range rd.numWorkers, (if (s.workers w).phase.merges rd.numWorkers j then 0 else
      (s.chan j w).fileMsgs (V.file j w)) = 0 := fun j hj => by
    simp [hdone, WorkerPhase.merges, mem_range.1 hj]
  have hmerged : V.merged w = [] :=
    flatten_frames_eq_nil.1 (by rw [← (h.worker w).merged, hdone]; rfl)
  have hinput : ∀ i ∈ range rd.numWorkers, ((routedTo rd w (s.workers i).input : List Message) :
      Multiset Message) = 0 := fun i hi => by
    suffices (s.workers i).input = [] by simp [this, routedTo]
    by_cases hiw : i = w
    · subst hiw
      exact (h.worker i).input_nil (by simp [hdone]) (by simp [hdone, WorkerPhase.isFailed])
    · exact (h.past w i (mem_range.1 hi) hiw (by simpa [hdone, WorkerPhase.merges] using hi)).2
  simp [owed, sum_eq_zero hring, sum_eq_zero hfile, hmerged, sum_eq_zero hinput]

end Runs

/-! ## Two workers run to the end -/

/-- Two workers with rings of 16 bytes, the column value as its own hash. -/
def twoWorkers : ReDistributeSetup Nat := ⟨2, 16, UInt32.ofNat⟩

/-- Two children's data rows; the third row of the first child no longer fits
in the ring to worker 1 and goes to the temp file. -/
def twoChildren : Nat → List (ChildRow Nat 24)
  | 0 => [⟨.dataRow [1, 1, 1], ⟨1, false⟩, by decide⟩, ⟨.dataRow [2], ⟨0, false⟩, by decide⟩,
      ⟨.dataRow [3, 3, 3, 3, 3, 3, 3, 3], ⟨1, false⟩, by decide⟩]
  | 1 => [⟨.dataRow [4, 4], ⟨0, false⟩, by decide⟩, ⟨.dataRow [5], ⟨1, false⟩, by decide⟩]
  | _ => []

/-- An interleaving that runs both workers to the end. -/
def twoWorkersRun : ParallelAgg Nat 24 :=
  runSchedule twoWorkers (ParallelAgg.initial twoWorkers twoChildren fun _ _ _ => 0)
    [0, 0, 0, 0, 1, 1, 1, 0, 0, 0, 0, 0, 1, 1, 1, 1, 1, 1, 1, 1, 1, 0, 0, 0, 0, 0, 0, 0, 0, 0, 0]

theorem twoWorkersRun_reachable :
    ExchangeReachable twoWorkers (ParallelAgg.initial twoWorkers twoChildren fun _ _ _ => 0) twoWorkersRun :=
  ExchangeReachable.initial.run twoWorkers (by decide)

/-- Thirty-one workers: `1 << numWorkers` overflows an `int`. -/
def thirtyOneWorkers : ReDistributeSetup Nat := ⟨31, 16, UInt32.ofNat⟩

/-- Every child holds one row with a non-NULL key. -/
def oneKeyedRow : Nat → List (ChildRow Nat 24) := fun _ => [⟨.dataRow [1], ⟨1, false⟩, by decide⟩]

/-- Worker 0's first step: `ReDistributeHash` fails. -/
def hashOverflow : ParallelAgg Nat 24 :=
  workerStep thirtyOneWorkers (ParallelAgg.initial thirtyOneWorkers oneKeyedRow fun _ _ _ => 0) 0

section Properties

variable {D : Type} {hts : Nat} {rd : ReDistributeSetup D} {s : ParallelAgg D hts}
  {inputs : Nat → List (ChildRow D hts)} {mem : Nat → Nat → Nat → UInt8}

/-- At any time a worker still running has fed only rows of the children that
hash to it, each at most as often as the children hold it. -/
theorem fed_le_routed (hpos : 0 < rd.bufferSize) (hlt : rd.bufferSize < 2 ^ 31)
    (hs : ExchangeReachable rd (ParallelAgg.initial rd inputs mem) s) {w : Nat} (hw : w < rd.numWorkers)
    (hf : (s.workers w).phase.isFailed = false) :
    ((s.workers w).fed : Multiset Message) ≤
      ∑ i in range rd.numWorkers, ((routedTo rd w (inputs i) : List Message) : Multiset Message) := by
  obtain ⟨V, h⟩ := exchangeInv_of_reachable hpos hlt hs
  rw [← h.conserve w hw hf, owed]
  simp only [add_assoc]
  exact Multiset.le_add_right _ _

theorem twoWorkersRun_fed_le :
    0 < twoWorkers.bufferSize ∧ twoWorkers.bufferSize < 2 ^ 31 ∧ 0 < twoWorkers.numWorkers ∧
      (twoWorkersRun.workers 0).phase.isFailed = false ∧
      ((twoWorkersRun.workers 0).fed : Multiset Message) ≤ ∑ i in range twoWorkers.numWorkers,
        ((routedTo twoWorkers 0 (twoChildren i) : List Message) : Multiset Message) :=
  ⟨by decide, by decide, by decide, rfl, fed_le_routed (by decide) (by decide) twoWorkersRun_reachable (by decide) rfl⟩

/-- A worker that is done has fed exactly the rows of every child that hash to
it: none lost on the way through the rings and temp files, none twice. -/
theorem fed_eq_routed_of_done (hpos : 0 < rd.bufferSize) (hlt : rd.bufferSize < 2 ^ 31)
    (hs : ExchangeReachable rd (ParallelAgg.initial rd inputs mem) s) {w : Nat} (hw : w < rd.numWorkers)
    (hdone : (s.workers w).phase = .done) :
    ((s.workers w).fed : Multiset Message) =
      ∑ i in range rd.numWorkers, ((routedTo rd w (inputs i) : List Message) : Multiset Message) := by
  obtain ⟨V, h⟩ := exchangeInv_of_reachable hpos hlt hs
  rw [← h.owed_done hdone, h.conserve w hw (by rw [hdone]; rfl)]

theorem twoWorkersRun_fed :
    0 < twoWorkers.bufferSize ∧ twoWorkers.bufferSize < 2 ^ 31 ∧ 1 < twoWorkers.numWorkers ∧
      (twoWorkersRun.workers 1).phase = .done ∧
      ((twoWorkersRun.workers 1).fed : Multiset Message) = ∑ i in range twoWorkers.numWorkers,
        ((routedTo twoWorkers 1 (twoChildren i) : List Message) : Multiset Message) :=
  ⟨by decide, by decide, by decide, rfl,
    fed_eq_routed_of_done (by decide) (by decide) twoWorkersRun_reachable (by decide) rfl⟩

/-- A worker is done only once every peer has read all the data meant for it
(or stopped on an error). -/
theorem peers_finished_of_done (hpos : 0 < rd.bufferSize) (hlt : rd.bufferSize < 2 ^ 31)
    (hs : ExchangeReachable rd (ParallelAgg.initial rd inputs mem) s) {w j : Nat}
    (hdone : (s.workers w).phase = .done) (hj : j < rd.numWorkers) :
    (s.workers j).phase.finishedReading = true := by
  obtain ⟨V, h⟩ := exchangeInv_of_reachable hpos hlt hs
  exact (h.counted w j (by simp [hdone, WorkerPhase.counted, hj])).1

theorem twoWorkersRun_peers_finished :
    0 < twoWorkers.bufferSize ∧ twoWorkers.bufferSize < 2 ^ 31 ∧ (twoWorkersRun.workers 0).phase = .done ∧
      1 < twoWorkers.numWorkers ∧ (twoWorkersRun.workers 1).phase.finishedReading = true :=
  ⟨by decide, by decide, rfl, by decide,
    peers_finished_of_done (by decide) (by decide) twoWorkersRun_reachable
      (show (twoWorkersRun.workers 0).phase = .done from rfl) (by decide)⟩

/-- No worker ever stops on a check of the exchange's bookkeeping: a row read
back always has the length and the data type it was sent with, and every ring a
worker wrote to is empty when it checks. -/
theorem bookkeeping_never_fails (hpos : 0 < rd.bufferSize) (hlt : rd.bufferSize < 2 ^ 31)
    (hs : ExchangeReachable rd (ParallelAgg.initial rd inputs mem) s) {w : Nat} {msg : String}
    (hf : (s.workers w).phase = .failed msg) : bookkeepingError msg = false := by
  obtain ⟨V, h⟩ := exchangeInv_of_reachable hpos hlt hs
  exact h.failed_ok w msg hf

theorem hashOverflow_not_bookkeeping :
    0 < thirtyOneWorkers.bufferSize ∧ thirtyOneWorkers.bufferSize < 2 ^ 31 ∧
      (hashOverflow.workers 0).phase = .failed "ReDistributeHash: 1 << numWorkers overflows int" ∧
      bookkeepingError "ReDistributeHash: 1 << numWorkers overflows int" = false :=
  ⟨by decide, by decide, rfl, bookkeeping_never_fails (by decide) (by decide)
    (show ExchangeReachable thirtyOneWorkers (ParallelAgg.initial thirtyOneWorkers oneKeyedRow fun _ _ _ => 0)
      hashOverflow from .step 0 (by decide) .initial)
    (show (hashOverflow.workers 0).phase = .failed "ReDistributeHash: 1 << numWorkers overflows int" from rfl)⟩

end Properties

end NodeAgg

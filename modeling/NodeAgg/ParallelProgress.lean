import Mathlib.Algebra.Order.BigOperators.Group.Finset
import NodeAgg.ParallelRuns

/-!
# Every fair schedule ends the redistribution

`ParallelRuns` shows what holds in every interleaving; here the workers are
shown to finish.  No worker finishes on its own: `GetReDistributeBufFile`
waits for every peer's `ProduceDone`, and `GetReDistributeData` for every
`ConsumeDone`.  A schedule is taken in rounds, each of which lets every worker
take a step, in any order and any number of times (`FairRounds`).

A worker's phase only moves forward (`rank_le_workerStep`), and a peer's step
leaves the worker's record alone and, once the peer has stopped producing, the
rings to it too (`workerStep_workers_of_ne`, `workerStep_chan_of_ne`).  A run
is cut in four stages, each ended by a potential that the worker's own step
lowers and no peer's step raises (`Stage.advance`):

* the rows its child has yet to return (`producingLeft`);
* once no worker produces, the turns of `GetReDistributeBufFile`'s loop to each
  peer whose file is not merged yet (`mergeLeft`): a peer at `ProduceDone` or
  later is merged when the loop comes to it, so every turn gets closer;
* once every file is merged, the bytes in the rings to the worker and in its
  merged file (`drainLeft`), at most the bytes of the children's rows by the
  conservation in `ExchangeInv` (`ExchangeInv.drainLeft_le`);
* once every worker has read its data, the peers its wait has still to count
  (`waitLeft`).

`fairRounds_stop` puts them together: after `totalRows + N * N + totalLoad +
N + 4` fair rounds every worker is done or stopped on an error.
-/

namespace NodeAgg

namespace WorkerPhase

/-- How far a worker has got through the redistribution: producing, merging
the files, draining, waiting for `ConsumeDone`, stopped. -/
def rank : WorkerPhase → Nat
  | .producing => 0
  | .merging .. => 1
  | .draining .. => 2
  | .consumeWait _ => 3
  | .done | .failed _ => 4

end WorkerPhase

section Frame

variable {D : Type} {hts : Nat} (rd : ReDistributeSetup D) {s : ParallelAgg D hts} {v w : Nat}

theorem reDistributeData_workers_of_ne (hw : w ≠ v) (r : ChildRow D hts) (rest : List (ChildRow D hts)) :
    (reDistributeData rd s v r rest).workers w = s.workers w := by
  unfold reDistributeData
  split
  · simp [ParallelAgg.fail, ParallelAgg.setPhase, hw]
  · split_ifs
    · simp [ParallelAgg.feed, ParallelAgg.setInput, hw]
    · split
      · simp [ParallelAgg.fail, ParallelAgg.setPhase, hw]
      · dsimp only
        split
        · simp [ParallelAgg.setInput, hw]
        · split <;> simp [ParallelAgg.fail, ParallelAgg.setPhase, ParallelAgg.feed, ParallelAgg.setInput, hw]

/-- A turn of `GetReDistributeBufFile`'s loop changes the worker's phase and
nothing else, to one past producing. -/
theorem getReDistributeBufFileStep_eq (i nMerged : Nat) (merged : List Bool) (dt : ReDistributeDataType)
    (file : Option (List UInt8)) :
    ∃ p : WorkerPhase, 1 ≤ p.rank ∧ getReDistributeBufFileStep rd s v i nMerged merged dt file = s.setPhase v p := by
  unfold getReDistributeBufFileStep
  dsimp only
  split_ifs <;> (try split) <;> (try split_ifs) <;> exact ⟨_, by simp [WorkerPhase.rank], rfl⟩

theorem getReDistributeBufFileStep_workers_of_ne (hw : w ≠ v) (i nMerged : Nat) (merged : List Bool)
    (dt : ReDistributeDataType) (file : Option (List UInt8)) :
    (getReDistributeBufFileStep rd s v i nMerged merged dt file).workers w = s.workers w := by
  obtain ⟨p, -, he⟩ := getReDistributeBufFileStep_eq rd (s := s) (v := v) i nMerged merged dt file
  simp [he, ParallelAgg.setPhase, hw]

theorem getReDistributeData_workers_of_ne (hw : w ≠ v) (index : Nat) (dt : ReDistributeDataType)
    (file : Option (List UInt8)) : (getReDistributeData rd s v index dt file).workers w = s.workers w := by
  unfold getReDistributeData
  dsimp only
  split
  · split <;> simp [ParallelAgg.fail, ParallelAgg.setPhase, ParallelAgg.feed, hw]
  · split
    · simp [ParallelAgg.setPhase, hw]
    · split <;> simp [ParallelAgg.fail, ParallelAgg.setPhase, ParallelAgg.feed, hw]

theorem ParallelAgg.setPhase_self {p : WorkerPhase} (hp : (s.workers v).phase = p) : s.setPhase v p = s := by
  simp [ParallelAgg.setPhase, ParallelAgg.setWorker, ← hp]

/-- A turn of the wait for every `ConsumeDone`, and its end, change the
worker's phase and nothing else, to one past the reads. -/
theorem consumeWaitStep_eq {nDone : Nat} (hp : (s.workers v).phase = .consumeWait nDone) :
    ∃ p : WorkerPhase, 3 ≤ p.rank ∧ consumeWaitStep rd s v nDone = s.setPhase v p := by
  unfold consumeWaitStep
  dsimp only
  split_ifs <;> (try split) <;>
    first | exact ⟨_, by simp [WorkerPhase.rank], rfl⟩ | exact ⟨_, by simp [WorkerPhase.rank], (ParallelAgg.setPhase_self hp).symm⟩

theorem consumeWaitStep_workers_of_ne (hw : w ≠ v) {nDone : Nat} (hp : (s.workers v).phase = .consumeWait nDone) :
    (consumeWaitStep rd s v nDone).workers w = s.workers w := by
  obtain ⟨p, -, he⟩ := consumeWaitStep_eq rd hp
  simp [he, ParallelAgg.setPhase, hw]

/-- A step of one worker leaves every other worker's state alone. -/
theorem workerStep_workers_of_ne (hw : w ≠ v) : (workerStep rd s v).workers w = s.workers w := by
  unfold workerStep
  split
  · split
    · simp [ParallelAgg.setPhase, hw]
    · exact reDistributeData_workers_of_ne rd hw _ _
  · exact getReDistributeBufFileStep_workers_of_ne rd hw ..
  · exact getReDistributeData_workers_of_ne rd hw ..
  · exact consumeWaitStep_workers_of_ne rd hw ‹_›
  · rfl
  · rfl

/-- A worker that is not producing sends nothing: its step leaves the rings to
every other worker alone. -/
theorem workerStep_chan_of_ne (hv : (s.workers v).phase ≠ .producing) (hw : w ≠ v) (j : Nat) :
    (workerStep rd s v).chan j w = s.chan j w := by
  unfold workerStep
  split
  · contradiction
  · obtain ⟨p, -, he⟩ := getReDistributeBufFileStep_eq rd (s := s) (v := v) ..
    rw [he]
    rfl
  · unfold getReDistributeData
    dsimp only
    split
    · split <;> simp [ParallelAgg.fail, ParallelAgg.setPhase, ParallelAgg.feed, hw]
    · split
      · rfl
      · split <;> rfl
  · obtain ⟨p, -, he⟩ := consumeWaitStep_eq rd ‹_›
    rw [he]
    rfl
  · rfl
  · rfl

end Frame

section Rank

variable {D : Type} {hts : Nat} (rd : ReDistributeSetup D) {s : ParallelAgg D hts} {v w : Nat}

theorem getReDistributeBufFileStep_rank (i nMerged : Nat) (merged : List Bool) (dt : ReDistributeDataType)
    (file : Option (List UInt8)) : 1 ≤ ((getReDistributeBufFileStep rd s v i nMerged merged dt file).workers v).phase.rank := by
  obtain ⟨p, hp, he⟩ := getReDistributeBufFileStep_eq rd (s := s) (v := v) i nMerged merged dt file
  simpa [he, ParallelAgg.setPhase] using hp

theorem getReDistributeData_rank (index : Nat) (dt : ReDistributeDataType) (file : Option (List UInt8)) :
    2 ≤ ((getReDistributeData rd s v index dt file).workers v).phase.rank := by
  unfold getReDistributeData
  dsimp only
  split
  · split <;> simp [ParallelAgg.fail, ParallelAgg.setPhase, WorkerPhase.rank]
  · split
    · simp [ParallelAgg.setPhase, WorkerPhase.rank]
    · split <;> simp [ParallelAgg.fail, ParallelAgg.setPhase, WorkerPhase.rank]

theorem consumeWaitStep_rank {nDone : Nat} (hp : (s.workers v).phase = .consumeWait nDone) :
    3 ≤ ((consumeWaitStep rd s v nDone).workers v).phase.rank := by
  obtain ⟨p, hp3, he⟩ := consumeWaitStep_eq rd hp
  simpa [he, ParallelAgg.setPhase] using hp3

/-- No step sends a worker back: its rank only grows. -/
theorem rank_le_workerStep (w : Nat) : (s.workers w).phase.rank ≤ ((workerStep rd s v).workers w).phase.rank := by
  by_cases hw : w = v
  · subst hw
    unfold workerStep
    split <;> rename_i hp <;> rw [hp]
    · exact Nat.zero_le _
    · exact getReDistributeBufFileStep_rank rd ..
    · exact getReDistributeData_rank rd ..
    · exact consumeWaitStep_rank rd hp
  · rw [workerStep_workers_of_ne rd hw]

end Rank

/-! ## Fair schedules -/

/-- A schedule in rounds, each of which lets every worker take a step. -/
def FairRounds (numWorkers : Nat) (rounds : List (List Nat)) : Prop :=
  ∀ r ∈ rounds, (∀ w < numWorkers, w ∈ r) ∧ ∀ w ∈ r, w < numWorkers

instance (numWorkers : Nat) (rounds : List (List Nat)) : Decidable (FairRounds numWorkers rounds) :=
  inferInstanceAs (Decidable (∀ r ∈ rounds, (∀ w < numWorkers, w ∈ r) ∧ ∀ w ∈ r, w < numWorkers))

section Rounds

variable {D : Type} {hts : Nat} (rd : ReDistributeSetup D) {Good : ParallelAgg D hts → Prop}
  {μ : ParallelAgg D hts → Nat}

theorem runSchedule_append (s : ParallelAgg D hts) (a b : List Nat) :
    runSchedule rd s (a ++ b) = runSchedule rd (runSchedule rd s a) b :=
  List.foldl_append ..

variable (hgood : ∀ s v, v < rd.numWorkers → Good s → Good (workerStep rd s v))

include hgood in
theorem runSchedule_good : ∀ (sched : List Nat) {s : ParallelAgg D hts}, (∀ v ∈ sched, v < rd.numWorkers) →
    Good s → Good (runSchedule rd s sched)
  | [], _, _, hs => hs
  | v :: vs, _, hsched, hs =>
    runSchedule_good vs (fun u hu => hsched u (List.mem_cons_of_mem _ hu))
      (hgood _ v (hsched v (List.mem_cons_self _ _)) hs)

variable {w : Nat} (hown : ∀ s, Good s → μ (workerStep rd s w) ≤ μ s - 1)
  (hother : ∀ s v, v < rd.numWorkers → v ≠ w → Good s → μ (workerStep rd s v) ≤ μ s)

include hown hother in
theorem workerStep_le {s : ParallelAgg D hts} {v : Nat} (hv : v < rd.numWorkers) (hs : Good s) :
    μ (workerStep rd s v) ≤ μ s := by
  by_cases hvw : v = w
  · subst hvw
    exact (hown s hs).trans (Nat.sub_le _ _)
  · exact hother s v hv hvw hs

include hgood hown hother in
/-- A potential that no step raises is not raised by a run. -/
theorem runSchedule_le : ∀ (sched : List Nat) {s : ParallelAgg D hts}, (∀ v ∈ sched, v < rd.numWorkers) →
    Good s → μ (runSchedule rd s sched) ≤ μ s
  | [], _, _, _ => le_rfl
  | v :: vs, s, hsched, hs =>
    have hv := hsched v (List.mem_cons_self _ _)
    (runSchedule_le vs (fun u hu => hsched u (List.mem_cons_of_mem _ hu)) (hgood s v hv hs)).trans
      (workerStep_le rd hown hother hv hs)

include hgood hown hother in
/-- A run in which `w` takes a step lowers a potential that `w`'s own step
lowers. -/
theorem runSchedule_lt : ∀ (sched : List Nat) {s : ParallelAgg D hts}, (∀ v ∈ sched, v < rd.numWorkers) →
    w ∈ sched → Good s → μ (runSchedule rd s sched) ≤ μ s - 1
  | [], _, _, hw, _ => absurd hw (List.not_mem_nil _)
  | v :: vs, s, hsched, hw, hs => by
    have hv := hsched v (List.mem_cons_self _ _)
    have hvs : ∀ u ∈ vs, u < rd.numWorkers := fun u hu => hsched u (List.mem_cons_of_mem _ hu)
    by_cases hvw : v = w
    · subst hvw
      exact (runSchedule_le rd hgood hown hother vs hvs (hgood s v hv hs)).trans (hown s hs)
    · have hws : w ∈ vs := (List.mem_cons.1 hw).resolve_left (Ne.symm hvw)
      exact (runSchedule_lt vs hvs hws (hgood s v hv hs)).trans
        (Nat.sub_le_sub_right (hother s v hv hvw hs) 1)

include hgood hown hother in
/-- Every fair round lowers the potential by one. -/
theorem runRounds_le (hw : w < rd.numWorkers) : ∀ (rounds : List (List Nat)) {s : ParallelAgg D hts},
    FairRounds rd.numWorkers rounds → Good s → μ (runSchedule rd s rounds.flatten) ≤ μ s - rounds.length
  | [], _, _, _ => le_rfl
  | r :: rs, s, hfair, hs => by
    have hr := hfair r (List.mem_cons_self _ _)
    have hrs : FairRounds rd.numWorkers rs := fun r' hr' => hfair r' (List.mem_cons_of_mem _ hr')
    rw [List.flatten_cons, runSchedule_append]
    have h1 := runSchedule_lt rd hgood hown hother r hr.2 (hr.1 w hw) hs
    have h2 := runRounds_le hw rs hrs (runSchedule_good rd hgood r hr.2 hs)
    simp only [List.length_cons]
    omega

end Rounds

/-! ## Stages -/

section Stages

variable {D : Type} {hts : Nat} (rd : ReDistributeSetup D) (s0 : ParallelAgg D hts)

/-- A state reached from `s0` in which every worker has got at least to rank `r`. -/
def Stage (r : Nat) (s : ParallelAgg D hts) : Prop :=
  ExchangeReachable rd s0 s ∧ ∀ v < rd.numWorkers, r ≤ (s.workers v).phase.rank

theorem stage_initial : Stage rd s0 0 s0 := ⟨.initial, fun _ _ => Nat.zero_le _⟩

variable {rd s0} {r : Nat} {s : ParallelAgg D hts}

theorem Stage.step (h : Stage rd s0 r s) {v : Nat} (hv : v < rd.numWorkers) : Stage rd s0 r (workerStep rd s v) :=
  ⟨.step v hv h.1, fun u hu => (h.2 u hu).trans (rank_le_workerStep rd u)⟩

theorem Stage.run (h : Stage rd s0 r s) {rounds : List (List Nat)} (hfair : FairRounds rd.numWorkers rounds) :
    Stage rd s0 r (runSchedule rd s rounds.flatten) :=
  runSchedule_good rd (fun _ _ hv hs => hs.step hv) _ (fun v hv => by
    obtain ⟨r', hr', hvr⟩ := List.mem_flatten.1 hv
    exact (hfair r' hr').2 v hvr) h

/-- The next stage is reached once every worker has run down a potential that
its own step lowers, that no peer's step raises, and that is zero only past
the stage. -/
theorem Stage.advance (μ : Nat → ParallelAgg D hts → Nat)
    (hown : ∀ w < rd.numWorkers, ∀ s, Stage rd s0 r s → μ w (workerStep rd s w) ≤ μ w s - 1)
    (hother : ∀ w < rd.numWorkers, ∀ s v, v < rd.numWorkers → v ≠ w → Stage rd s0 r s →
      μ w (workerStep rd s v) ≤ μ w s)
    (hzero : ∀ w < rd.numWorkers, ∀ s, Stage rd s0 r s → μ w s = 0 → r + 1 ≤ (s.workers w).phase.rank)
    (h : Stage rd s0 r s) {rounds : List (List Nat)} (hfair : FairRounds rd.numWorkers rounds)
    (hlen : ∀ w < rd.numWorkers, μ w s ≤ rounds.length) : Stage rd s0 (r + 1) (runSchedule rd s rounds.flatten) := by
  refine ⟨(h.run hfair).1, fun w hw => hzero w hw _ (h.run hfair) ?_⟩
  have := runRounds_le rd (fun _ _ hv hs => Stage.step hs hv) (hown w hw) (hother w hw) hw rounds hfair h
  have := hlen w hw
  omega

end Stages

/-! ## Producing -/

section Producing

variable {D : Type} {hts : Nat} (rd : ReDistributeSetup D) {s : ParallelAgg D hts} {v w : Nat}

/-- `ReDistributeData` leaves its worker producing with the rest of the input,
or stops it. -/
theorem reDistributeData_self (r : ChildRow D hts) (rest : List (ChildRow D hts)) :
    ((reDistributeData rd s v r rest).workers v).phase.isFailed = true ∨
      ((reDistributeData rd s v r rest).workers v).phase = (s.workers v).phase ∧
      ((reDistributeData rd s v r rest).workers v).input = rest := by
  unfold reDistributeData
  split
  · simp [ParallelAgg.fail, ParallelAgg.setPhase, WorkerPhase.isFailed]
  · split_ifs
    · simp
    · split
      · simp [ParallelAgg.fail, ParallelAgg.setPhase, WorkerPhase.isFailed]
      · dsimp only
        split
        · simp
        · split <;> simp [ParallelAgg.fail, ParallelAgg.setPhase, WorkerPhase.isFailed]

/-- The rows a worker has yet to send, and one more for the end of its input. -/
def producingLeft (p : ParallelWorker D hts) : Nat :=
  match p.phase with
  | .producing => p.input.length + 1
  | _ => 0

theorem producingLeft_eq_zero {p : ParallelWorker D hts} (h : 1 ≤ p.phase.rank) : producingLeft p = 0 := by
  unfold producingLeft
  split <;> simp_all [WorkerPhase.rank]

theorem producingLeft_workerStep (w : Nat) :
    producingLeft ((workerStep rd s w).workers w) ≤ producingLeft (s.workers w) - 1 := by
  cases hp : (s.workers w).phase with
  | producing =>
    unfold workerStep
    rw [hp]
    cases hin : (s.workers w).input with
    | nil => simp [producingLeft, ParallelAgg.setPhase]
    | cons r rest =>
      rcases reDistributeData_self rd r rest with hf | ⟨hp', hin'⟩
      · rw [producingLeft_eq_zero (by revert hf; cases ((reDistributeData rd s w r rest).workers w).phase <;>
          simp [WorkerPhase.isFailed, WorkerPhase.rank])]
        exact Nat.zero_le _
      · simp [producingLeft, hp', hin', hp, hin]
  | _ =>
    rw [producingLeft_eq_zero (le_trans (by simp [hp, WorkerPhase.rank]) (rank_le_workerStep rd w))]
    exact Nat.zero_le _

end Producing

/-! ## Merging -/

section Merging

open Finset

/-- How far `GetReDistributeBufFile`'s loop, at peer `i`, has to go round to
peer `j`'s file, if it is not merged yet. -/
def mergeDist (N i : Nat) (merged : List Bool) (j : Nat) : Nat :=
  if merged.getD j false then 0 else (j + N - i) % N + 1

/-- The turns `GetReDistributeBufFile`'s loop has left at most: one per peer
still to merge and the way round to it, and one for the end of the loop. -/
def mergeLeft (N : Nat) : WorkerPhase → Nat
  | .merging i _ merged _ _ => 1 + ∑ j in range N, mergeDist N i merged j
  | _ => 0

variable {N i : Nat} {merged merged' : List Bool}

/-- Moving on to the next peer brings every other peer one turn closer. -/
theorem dist_next (hi : i < N) {j : Nat} (hj : j < N) (hji : j ≠ i) :
    (j + N - (i + 1) % N) % N + 1 = (j + N - i) % N := by
  rw [mod_eq_ite (a := i + 1) (by omega)]
  split_ifs <;> rw [mod_eq_ite (by omega), mod_eq_ite (by omega)] <;> split_ifs <;> omega

/-- A turn of the loop that marks peer `i` (or finds it marked) and moves on
brings every peer still to merge closer, and the loop's end with them. -/
theorem mergeDist_next (hi : i < N) (hagree : ∀ j < N, j ≠ i → merged'.getD j false = merged.getD j false)
    (hi' : merged'.getD i false = true) {j : Nat} (hj : j < N) :
    mergeDist N ((i + 1) % N) merged' j ≤ mergeDist N i merged j ∧
      (merged.getD j false = false → mergeDist N ((i + 1) % N) merged' j < mergeDist N i merged j) := by
  by_cases hji : j = i
  · subst hji
    rw [mergeDist, mergeDist, hi', if_pos rfl]
    cases merged.getD j false <;> simp
  · unfold mergeDist
    rw [hagree j hj hji]
    cases merged.getD j false <;> simp [dist_next hi hj hji]

theorem sum_mergeDist_next (hi : i < N) (hagree : ∀ j < N, j ≠ i → merged'.getD j false = merged.getD j false)
    (hi' : merged'.getD i false = true) (hlt : ∃ j < N, merged.getD j false = false) :
    ∑ j in range N, mergeDist N ((i + 1) % N) merged' j < ∑ j in range N, mergeDist N i merged j := by
  obtain ⟨k, hk, hkf⟩ := hlt
  exact sum_lt_sum (fun j hj => (mergeDist_next hi hagree hi' (mem_range.1 hj)).1)
    ⟨k, mem_range.2 hk, (mergeDist_next hi hagree hi' hk).2 hkf⟩

theorem exists_getD_false {l : List Bool} (h : l.count true < l.length) : ∃ j < l.length, l.getD j false = false := by
  by_contra hne
  push_neg at hne
  refine absurd (List.count_eq_length.2 fun b hb => ?_) (Nat.ne_of_lt h)
  obtain ⟨j, hj, rfl⟩ := List.getElem_of_mem hb
  simpa [List.getD_eq_getElem?_getD, List.getElem?_eq_getElem hj] using hne j hj

theorem mergeLeft_le (p : WorkerPhase) : mergeLeft N p ≤ 1 + N * N := by
  cases p with
  | merging i _ merged _ _ =>
    have hle : ∑ j in range N, mergeDist N i merged j ≤ ∑ _j in range N, N := sum_le_sum fun j hj => by
      have := Nat.mod_lt (j + N - i) (Nat.zero_lt_of_lt (mem_range.1 hj))
      unfold mergeDist
      split <;> omega
    simp only [mergeLeft, sum_const, card_range, Nat.nsmul_eq_mul] at hle ⊢
    omega
  | _ => exact Nat.zero_le _

theorem mergeLeft_eq_zero {p : WorkerPhase} (h : 2 ≤ p.rank) : mergeLeft N p = 0 := by
  cases p <;> simp_all [mergeLeft, WorkerPhase.rank]

/-- A worker past `Init` has set `ProduceDone` or later, unless it failed. -/
theorem WorkerPhase.produceDone_le {p : WorkerPhase} (h : 1 ≤ p.rank) (herr : p.status ≠ .error) :
    ReDistributeStatus.produceDone.toNat ≤ p.status.toNat := by
  cases p <;> simp_all [WorkerPhase.rank, WorkerPhase.status, ReDistributeStatus.toNat]

variable {D : Type} {hts : Nat} (rd : ReDistributeSetup D) {s : ParallelAgg D hts} {w : Nat}

/-- Once no worker produces, every turn of `GetReDistributeBufFile`'s loop
gets closer to its end: it merges a file, or skips a peer already merged on
the way to one that is not. -/
theorem mergeLeft_workerStep (hw : w < rd.numWorkers) (hok : (s.workers w).phase.Ok rd.numWorkers w)
    (hpeers : ∀ v < rd.numWorkers, 1 ≤ (s.workers v).phase.rank) :
    mergeLeft rd.numWorkers ((workerStep rd s w).workers w).phase ≤
      mergeLeft rd.numWorkers (s.workers w).phase - 1 := by
  cases hp : (s.workers w).phase with
  | producing => simpa [hp, WorkerPhase.rank] using hpeers w hw
  | merging i nMerged merged dt file =>
    rw [hp] at hok
    obtain ⟨hi, hlen, hself, hcount⟩ := hok
    have hmerge : ∀ merged' : List Bool, (∀ j < rd.numWorkers, j ≠ i → merged'.getD j false = merged.getD j false) →
        merged'.getD i false = true → nMerged < rd.numWorkers →
        1 + ∑ j in range rd.numWorkers, mergeDist rd.numWorkers ((i + 1) % rd.numWorkers) merged' j ≤
          mergeLeft rd.numWorkers (.merging i nMerged merged dt file) - 1 := fun merged' hagree hi' hn => by
      have := sum_mergeDist_next hi hagree hi' (by
        obtain ⟨j, hj, hjf⟩ := exists_getD_false (hcount ▸ hlen ▸ hn : merged.count true < merged.length)
        exact ⟨j, hlen ▸ hj, hjf⟩)
      simp only [mergeLeft]
      omega
    have hset : ∀ j < rd.numWorkers, j ≠ i → (merged.set i true).getD j false = merged.getD j false :=
      fun j _ hji => by simp [List.getD_eq_getElem?_getD, List.getElem?_set_ne (Ne.symm hji)]
    have hseti : (merged.set i true).getD i false = true := by
      simp [List.getD_eq_getElem?_getD, List.getElem?_set, hlen, hi]
    unfold workerStep getReDistributeBufFileStep
    rw [hp]
    dsimp only
    split_ifs with hn hiw hst herr
    · split
      · simpa [mergeLeft, ParallelAgg.setPhase] using hmerge _ hset hseti hn
      · split_ifs
        · simp [mergeLeft, ParallelAgg.fail, ParallelAgg.setPhase]
        · simpa [mergeLeft, ParallelAgg.setPhase] using hmerge _ hset hseti hn
    · simp [mergeLeft, ParallelAgg.fail, ParallelAgg.setPhase]
    · -- a peer past `ProduceDone` that is skipped is merged already
      have hmi : merged.getD i false = true := by
        have := WorkerPhase.produceDone_le (hpeers i hi) herr
        simpa [this] using hst
      simpa [mergeLeft, ParallelAgg.setPhase] using hmerge merged (fun _ _ _ => rfl) hmi hn
    · obtain rfl : i = w := by simpa using hiw
      simpa [mergeLeft, ParallelAgg.setPhase] using hmerge merged (fun _ _ _ => rfl) hself hn
    · simp [mergeLeft, ParallelAgg.setPhase]
  | _ =>
    rw [mergeLeft_eq_zero (le_trans (by simp [hp, WorkerPhase.rank]) (rank_le_workerStep rd w))]
    exact Nat.zero_le _

end Merging

/-! ## Draining -/

section Draining

open Finset

/-- The bytes a message takes in a ring or a temp file: its length word and
its data. -/
def msgLoad (m : Message) : Nat := m.2.length + 4

/-- The bytes of a multiset of messages. -/
def load (X : Multiset Message) : Nat := (X.map msgLoad).sum

/-- The bytes of every row the children hold, framed as the exchange sends them. -/
def totalLoad {D : Type} {hts : Nat} (rd : ReDistributeSetup D) (inputs : Nat → List (ChildRow D hts)) : Nat :=
  ∑ i in range rd.numWorkers, ((inputs i).map fun r => msgLoad r.slot.message).sum

@[simp] theorem load_add (X Y : Multiset Message) : load (X + Y) = load X + load Y := by
  simp [load]

@[simp] theorem load_coe (l : List Message) : load (l : Multiset Message) = (l.map msgLoad).sum := by
  simp [load]

theorem load_sum (f : Nat → Multiset Message) (N : Nat) : load (∑ j in range N, f j) = ∑ j in range N, load (f j) := by
  induction N with
  | zero => simp [load]
  | succ N ih => rw [sum_range_succ, sum_range_succ, load_add, ih]

theorem load_ringMsgs (c : ReDistributeChannel) (q : List (List UInt8)) : load (c.ringMsgs q) = inFlight q := by
  simp [ReDistributeChannel.ringMsgs, inFlight, msgLoad, Function.comp_def]

theorem load_frames (t : ReDistributeDataType) (M : List (List UInt8)) :
    load ((M.map (t, ·) : List Message) : Multiset Message) = ((M.map frame).flatten).length := by
  simp [List.length_flatten, msgLoad, Function.comp_def]

/-- The rows that route to a worker are among all the rows. -/
theorem load_routedTo_le {D : Type} {hts : Nat} (rd : ReDistributeSetup D) (w : Nat) (rows : List (ChildRow D hts)) :
    load (routedTo rd w rows) ≤ (rows.map fun r => msgLoad r.slot.message).sum := by
  rw [load_coe, routedTo, List.map_map]
  exact ((List.filter_sublist rows).map _).sum_le_sum fun _ _ => Nat.zero_le _

/-- The bytes in flight in a ring, read off its `head` and `tail`. -/
def ringLoad (buf : ReDistributeBuffer) : Nat := (buf.head + buf.length - buf.tail) % buf.length

theorem RingHolds.ringLoad_eq {buf : ReDistributeBuffer} {q : List (List UInt8)} (h : RingHolds buf q) :
    ringLoad buf = inFlight q := by
  have := h.tail_lt
  have := h.inFlight_lt
  have hhead := h.head_eq
  rw [mod_eq_ite (by omega)] at hhead
  unfold ringLoad
  rw [mod_eq_ite (by split at hhead <;> omega)]
  split_ifs at hhead ⊢ <;> omega

variable {D : Type} {hts : Nat} (rd : ReDistributeSetup D) {inputs0 : Nat → List (ChildRow D hts)}
  {s : ParallelAgg D hts} {V : ExchangeViews} {v w : Nat}

/-- The calls of `GetReDistributeData` a worker has left at most: a byte or
more goes with each, from a ring to it or from its merged file, and one call
finds none. -/
def drainLeft (s : ParallelAgg D hts) (w : Nat) : Nat :=
  match (s.workers w).phase with
  | .draining _ _ file => 1 + ∑ j in range rd.numWorkers, ringLoad (s.chan j w).buf + (file.getD []).length
  | _ => 0

theorem drainLeft_eq_zero (h : 3 ≤ (s.workers w).phase.rank) : drainLeft rd s w = 0 := by
  unfold drainLeft
  split <;> simp_all [WorkerPhase.rank]

/-- A peer that no longer produces leaves a worker's drain alone. -/
theorem drainLeft_of_ne (hv : (s.workers v).phase ≠ .producing) (hw : w ≠ v) :
    drainLeft rd (workerStep rd s v) w = drainLeft rd s w := by
  simp only [drainLeft, workerStep_workers_of_ne rd hw, workerStep_chan_of_ne rd hv hw]

/-- A read of a message from ring `j` takes its bytes out of the ring. -/
theorem sum_ringLoad_taken {j : Nat} (hj : j < rd.numWorkers) {m : List UInt8} {q : List (List UInt8)}
    (hq : RingHolds (s.chan j w).buf (m :: q)) :
    ∑ k in range rd.numWorkers, ringLoad ((s.setChan j w (s.chan j w).taken).chan k w).buf <
      ∑ k in range rd.numWorkers, ringLoad (s.chan k w).buf := by
  have hlt : ringLoad (s.chan j w).taken.buf < ringLoad (s.chan j w).buf := by
    rw [hq.ringLoad_eq, ReDistributeChannel.taken, hq.getData.2.2.ringLoad_eq, inFlight_cons]
    omega
  refine sum_lt_sum (fun k _ => ?_) ⟨j, mem_range.2 hj, by simpa using hlt⟩
  by_cases hk : k = j
  · subst hk
    simpa using hlt.le
  · simp [hk]

/-- A record read from the merged file takes its bytes off the file. -/
theorem getReDistributeFileData_frames_length {dt : ReDistributeDataType} {M : List (List UInt8)}
    (hM : ∀ m ∈ M, m.length < 2 ^ 32) {data f' : List UInt8}
    (h : getReDistributeFileData dt hts (M.map frame).flatten = .ok (some data, f')) :
    f'.length < ((M.map frame).flatten).length := by
  cases M with
  | nil => simp [getReDistributeFileData_nil] at h
  | cons m M =>
    rw [List.map_cons, List.flatten_cons] at h ⊢
    cases getReDistributeFileData_frame (hM m (List.mem_cons_self _ _)) h
    simp

/-- Once no worker produces, every call of `GetReDistributeData` moves a
message out of a ring or the merged file, or ends the reads. -/
theorem drainLeft_workerStep (h : ExchangeInv rd inputs0 s V) (hrank : 2 ≤ (s.workers w).phase.rank) :
    drainLeft rd (workerStep rd s w) w ≤ drainLeft rd s w - 1 := by
  cases hp : (s.workers w).phase with
  | producing => simp [hp, WorkerPhase.rank] at hrank
  | merging => simp [hp, WorkerPhase.rank] at hrank
  | draining index dt file =>
    have hfile : file.getD [] = ((V.merged w).map frame).flatten := by
      have := (h.worker w).merged
      rwa [hp] at this
    have hok : ∀ m ∈ V.merged w, m.length < 2 ^ 31 ∧ StoreOk hts dt m := by
      have := (h.worker w).merged_ok
      rwa [hp] at this
    unfold workerStep getReDistributeData
    rw [hp]
    dsimp only
    split
    · -- a message from the first ring with one
      rename_i j hfind
      obtain ⟨hij, hjN, hpj, -⟩ := range'_find?_some hfind
      simp only [decide_eq_true_eq] at hpj
      obtain ⟨m, q, hq⟩ := List.exists_cons_of_ne_nil ((h.chan j w).ne_nil_of_head_ne hpj.2)
      have hring := (h.chan j w).ring
      rw [hq] at hring
      have := sum_ringLoad_taken rd (by omega) hring
      split
      · simp [drainLeft, ParallelAgg.fail, ParallelAgg.setPhase]
      · simp only [drainLeft, ParallelAgg.setPhase, ParallelAgg.setWorker_workers, if_true,
          ParallelAgg.setWorker_chan, ParallelAgg.feed_chan, hp]
        omega
    · split
      · simp [drainLeft, ParallelAgg.setPhase]
      · rename_i f
        split
        · simp [drainLeft, ParallelAgg.fail, ParallelAgg.setPhase]
        · simp [drainLeft, ParallelAgg.setPhase]
        · rename_i data f' heq
          rw [Option.getD_some] at hfile
          have := getReDistributeFileData_frames_length (fun m hm => by have := (hok m hm).1; omega)
            (hfile ▸ heq)
          simp only [drainLeft, ParallelAgg.setPhase, ParallelAgg.feed_phase, ParallelAgg.feed_chan,
            ParallelAgg.setWorker_workers, if_true, ParallelAgg.setWorker_chan, Option.getD_some, hp, hfile]
          omega
  | _ =>
    rw [drainLeft_eq_zero rd (le_trans (by simp [hp, WorkerPhase.rank]) (rank_le_workerStep rd w))]
    exact Nat.zero_le _

/-- What a worker has left to drain is owed to it: at most the bytes of the
children's rows. -/
theorem ExchangeInv.drainLeft_le (h : ExchangeInv rd inputs0 s V) (hw : w < rd.numWorkers) :
    drainLeft rd s w ≤ 1 + totalLoad rd inputs0 := by
  unfold drainLeft
  split
  · rename_i index dt file hp
    have hfile : file.getD [] = ((V.merged w).map frame).flatten := by
      have := (h.worker w).merged
      rwa [hp] at this
    have hcons := congrArg load (h.conserve w hw (by rw [hp]; rfl))
    simp only [owed, load_add, load_sum, load_ringMsgs, hp, WorkerPhase.dataType, load_frames] at hcons
    have hroute : ∑ i in range rd.numWorkers, load (routedTo rd w (inputs0 i)) ≤ totalLoad rd inputs0 :=
      sum_le_sum fun i _ => load_routedTo_le rd w (inputs0 i)
    have hring : ∑ j in range rd.numWorkers, ringLoad (s.chan j w).buf =
        ∑ j in range rd.numWorkers, inFlight (V.ring j w) :=
      sum_congr rfl fun j _ => (h.chan j w).ring.ringLoad_eq
    rw [hring, hfile]
    omega
  · exact Nat.zero_le _

end Draining

/-! ## Waiting -/

section Waiting

/-- The turns of the wait for every `ConsumeDone` a worker has left: the
peers still to count, and one for the end. -/
def waitLeft (N : Nat) : WorkerPhase → Nat
  | .consumeWait nDone => N - nDone + 1
  | _ => 0

/-- A peer at `ConsumeDone` or stopped is not waited for. -/
theorem WorkerPhase.not_wait {p : WorkerPhase} (h : 3 ≤ p.rank) :
    ¬(p.status.toNat < ReDistributeStatus.consumeDone.toNat ∧ ReDistributeStatus.error.toNat < p.status.toNat) := by
  cases p <;> simp_all [WorkerPhase.rank, WorkerPhase.status, ReDistributeStatus.toNat]

variable {D : Type} {hts : Nat} (rd : ReDistributeSetup D) {s : ParallelAgg D hts} {w : Nat}

/-- Once every worker has read its data, every turn of the wait counts a peer
or ends the wait. -/
theorem waitLeft_workerStep (hw : w < rd.numWorkers) (hpeers : ∀ v < rd.numWorkers, 3 ≤ (s.workers v).phase.rank) :
    waitLeft rd.numWorkers ((workerStep rd s w).workers w).phase ≤ waitLeft rd.numWorkers (s.workers w).phase - 1 := by
  cases hp : (s.workers w).phase with
  | consumeWait nDone =>
    unfold workerStep consumeWaitStep
    rw [hp]
    dsimp only
    split_ifs with hn hwait
    · exact absurd hwait (WorkerPhase.not_wait (hpeers nDone hn))
    · simp [waitLeft, ParallelAgg.fail, ParallelAgg.setPhase]
    · simp only [waitLeft, ParallelAgg.setPhase, ParallelAgg.setWorker_workers, if_true]
      omega
    · split <;> simp [waitLeft, ParallelAgg.fail, ParallelAgg.setPhase]
  | done => simp [workerStep, hp, waitLeft]
  | failed => simp [workerStep, hp, waitLeft]
  | _ => simpa [hp, WorkerPhase.rank] using hpeers w hw

end Waiting

/-! ## Every fair schedule ends the exchange -/

section Finish

open Finset

variable {D : Type} {hts : Nat} {rd : ReDistributeSetup D}

theorem one_le_rank_of_producingLeft {p : ParallelWorker D hts} (h : producingLeft p = 0) : 1 ≤ p.phase.rank := by
  cases hp : p.phase <;> simp_all [producingLeft, WorkerPhase.rank]

theorem two_le_rank_of_mergeLeft {N : Nat} {p : WorkerPhase} (h1 : 1 ≤ p.rank) (h : mergeLeft N p = 0) : 2 ≤ p.rank := by
  cases p <;> simp_all [mergeLeft, WorkerPhase.rank]

theorem three_le_rank_of_drainLeft {s : ParallelAgg D hts} {w : Nat} (h2 : 2 ≤ (s.workers w).phase.rank)
    (h : drainLeft rd s w = 0) : 3 ≤ (s.workers w).phase.rank := by
  unfold drainLeft at h
  cases hp : (s.workers w).phase <;> simp_all [WorkerPhase.rank]

theorem four_le_rank_of_waitLeft {N : Nat} {p : WorkerPhase} (h3 : 3 ≤ p.rank) (h : waitLeft N p = 0) : 4 ≤ p.rank := by
  cases p <;> simp_all [waitLeft, WorkerPhase.rank]

theorem waitLeft_le (N : Nat) (p : WorkerPhase) : waitLeft N p ≤ N + 1 := by
  cases p <;> simp [waitLeft]

theorem FairRounds.left {N : Nat} {A B : List (List Nat)} (h : FairRounds N (A ++ B)) : FairRounds N A :=
  fun r hr => h r (List.mem_append_left _ hr)

theorem FairRounds.right {N : Nat} {A B : List (List Nat)} (h : FairRounds N (A ++ B)) : FairRounds N B :=
  fun r hr => h r (List.mem_append_right _ hr)

theorem FairRounds.replicate {N : Nat} {r : List Nat} (h : FairRounds N [r]) (k : Nat) :
    FairRounds N (List.replicate k r) :=
  fun _ hr => List.eq_of_mem_replicate hr ▸ h r (List.mem_singleton_self _)

/-- The rows of every child. -/
def totalRows (rd : ReDistributeSetup D) (inputs : Nat → List (ChildRow D hts)) : Nat :=
  ∑ i in range rd.numWorkers, (inputs i).length

variable {inputs : Nat → List (ChildRow D hts)} {mem : Nat → Nat → Nat → UInt8} {s : ParallelAgg D hts}
  {rounds : List (List Nat)}

/-- Every child's rows are sent within as many fair rounds. -/
theorem Stage.producing_ends (h : Stage rd (ParallelAgg.initial rd inputs mem) 0 s)
    (hfair : FairRounds rd.numWorkers rounds) (hlen : ∀ w < rd.numWorkers, producingLeft (s.workers w) ≤ rounds.length) :
    Stage rd (ParallelAgg.initial rd inputs mem) 1 (runSchedule rd s rounds.flatten) :=
  h.advance (fun w s => producingLeft (s.workers w)) (fun w _ _ _ => producingLeft_workerStep rd w)
    (fun _ _ _ _ _ hvw _ => le_of_eq (congrArg producingLeft (workerStep_workers_of_ne rd (Ne.symm hvw))))
    (fun _ _ _ _ h0 => one_le_rank_of_producingLeft h0) hfair hlen

variable (hpos : 0 < rd.bufferSize) (hlt : rd.bufferSize < 2 ^ 31)

include hpos hlt in
/-- Once no worker produces, every temp file is merged within `N * N + 1`
fair rounds. -/
theorem Stage.merging_ends (h : Stage rd (ParallelAgg.initial rd inputs mem) 1 s)
    (hfair : FairRounds rd.numWorkers rounds) (hlen : 1 + rd.numWorkers * rd.numWorkers ≤ rounds.length) :
    Stage rd (ParallelAgg.initial rd inputs mem) 2 (runSchedule rd s rounds.flatten) :=
  h.advance (fun w s => mergeLeft rd.numWorkers (s.workers w).phase)
    (fun w hw _ hs => by
      obtain ⟨V, hV⟩ := exchangeInv_of_reachable hpos hlt hs.1
      exact mergeLeft_workerStep rd hw (hV.worker w).phase_ok hs.2)
    (fun _ _ _ _ _ hvw _ => le_of_eq (congrArg (fun p : ParallelWorker D hts => mergeLeft rd.numWorkers p.phase)
      (workerStep_workers_of_ne rd (Ne.symm hvw))))
    (fun w hw _ hs h0 => two_le_rank_of_mergeLeft (hs.2 w hw) h0) hfair fun _ _ => (mergeLeft_le _).trans hlen

include hpos hlt in
/-- Once every file is merged, every worker has read all its data within
`totalLoad + 1` fair rounds. -/
theorem Stage.draining_ends (h : Stage rd (ParallelAgg.initial rd inputs mem) 2 s)
    (hfair : FairRounds rd.numWorkers rounds) (hlen : 1 + totalLoad rd inputs ≤ rounds.length) :
    Stage rd (ParallelAgg.initial rd inputs mem) 3 (runSchedule rd s rounds.flatten) :=
  h.advance (fun w s => drainLeft rd s w)
    (fun w _ _ hs => by
      obtain ⟨V, hV⟩ := exchangeInv_of_reachable hpos hlt hs.1
      exact drainLeft_workerStep rd hV (hs.2 w ‹_›))
    (fun _ _ _ v hv hvw hs => le_of_eq (drainLeft_of_ne rd (fun hp => by simpa [hp, WorkerPhase.rank] using hs.2 v hv)
      (Ne.symm hvw)))
    (fun w hw _ hs h0 => three_le_rank_of_drainLeft (hs.2 w hw) h0) hfair fun w hw => by
      obtain ⟨V, hV⟩ := exchangeInv_of_reachable hpos hlt h.1
      exact (hV.drainLeft_le rd hw).trans hlen

/-- Once every worker has read its data, every worker is done or stopped
within `N + 1` fair rounds. -/
theorem Stage.waiting_ends (h : Stage rd (ParallelAgg.initial rd inputs mem) 3 s)
    (hfair : FairRounds rd.numWorkers rounds) (hlen : rd.numWorkers + 1 ≤ rounds.length) :
    Stage rd (ParallelAgg.initial rd inputs mem) 4 (runSchedule rd s rounds.flatten) :=
  h.advance (fun w s => waitLeft rd.numWorkers (s.workers w).phase)
    (fun _ hw _ hs => waitLeft_workerStep rd hw hs.2)
    (fun _ _ _ _ _ hvw _ => le_of_eq (congrArg (fun p : ParallelWorker D hts => waitLeft rd.numWorkers p.phase)
      (workerStep_workers_of_ne rd (Ne.symm hvw))))
    (fun w hw _ hs h0 => four_le_rank_of_waitLeft (hs.2 w hw) h0) hfair fun _ _ => (waitLeft_le _ _).trans hlen

/-- Split a list of rounds after its first `k`. -/
theorem exists_append_of_le (rounds : List (List Nat)) {k : Nat} (h : k ≤ rounds.length) :
    ∃ A B, rounds = A ++ B ∧ A.length = k ∧ B.length = rounds.length - k :=
  ⟨_, _, (List.take_append_drop k rounds).symm, List.length_take_of_le h, List.length_drop _ _⟩

include hpos hlt in
/-- Enough fair rounds take every worker through all four stages. -/
theorem fairRounds_stage (hfair : FairRounds rd.numWorkers rounds)
    (hlen : totalRows rd inputs + rd.numWorkers * rd.numWorkers + totalLoad rd inputs + rd.numWorkers + 4 ≤
      rounds.length) :
    Stage rd (ParallelAgg.initial rd inputs mem) 4 (runSchedule rd (ParallelAgg.initial rd inputs mem) rounds.flatten) := by
  obtain ⟨R1, rest, rfl, h1, hrest⟩ := exists_append_of_le rounds (k := totalRows rd inputs + 1) (by omega)
  obtain ⟨R2, rest, rfl, h2, hrest'⟩ := exists_append_of_le rest (k := 1 + rd.numWorkers * rd.numWorkers) (by omega)
  obtain ⟨R3, R4, rfl, h3, h4⟩ := exists_append_of_le rest (k := 1 + totalLoad rd inputs) (by omega)
  have hs1 := (stage_initial rd (ParallelAgg.initial rd inputs mem)).producing_ends hfair.left
    fun v hv => by
      simp only [ParallelAgg.initial, producingLeft, h1]
      exact Nat.succ_le_succ (single_le_sum (fun i _ => Nat.zero_le (inputs i).length) (mem_range.2 hv))
  have hs2 := hs1.merging_ends hpos hlt hfair.right.left (by omega)
  have hs3 := hs2.draining_ends hpos hlt hfair.right.right.left (by omega)
  have hs4 := hs3.waiting_ends hfair.right.right.right (by simp only [List.length_append] at *; omega)
  simpa only [List.flatten_append, runSchedule_append] using hs4

include hpos hlt in
/-- Whatever the order in which the workers run, as long as every worker gets
a turn in every round, every worker is done or stopped on an error after
enough rounds: the rows, `N * N` turns of merging, the bytes of the rows and
`N` turns of waiting, and four more. -/
theorem fairRounds_stop (hfair : FairRounds rd.numWorkers rounds)
    (hlen : totalRows rd inputs + rd.numWorkers * rd.numWorkers + totalLoad rd inputs + rd.numWorkers + 4 ≤
      rounds.length) {w : Nat} (hw : w < rd.numWorkers) :
    ((runSchedule rd (ParallelAgg.initial rd inputs mem) rounds.flatten).workers w).phase = .done ∨
      ((runSchedule rd (ParallelAgg.initial rd inputs mem) rounds.flatten).workers w).phase.isFailed = true := by
  have h4 : 4 ≤ ((runSchedule rd (ParallelAgg.initial rd inputs mem) rounds.flatten).workers w).phase.rank :=
    (fairRounds_stage hpos hlt hfair hlen).2 w hw
  revert h4
  cases ((runSchedule rd _ _).workers w).phase <;> simp [WorkerPhase.rank, WorkerPhase.isFailed]

/-- Fifty rounds in which both workers take a step. -/
def twoWorkersRounds : List (List Nat) := List.replicate 50 [0, 1]

theorem twoWorkersRounds_stop :
    0 < twoWorkers.bufferSize ∧ twoWorkers.bufferSize < 2 ^ 31 ∧ FairRounds twoWorkers.numWorkers twoWorkersRounds ∧
      totalRows twoWorkers twoChildren + twoWorkers.numWorkers * twoWorkers.numWorkers +
        totalLoad twoWorkers twoChildren + twoWorkers.numWorkers + 4 ≤ twoWorkersRounds.length ∧
      1 < twoWorkers.numWorkers ∧
      (((runSchedule twoWorkers (ParallelAgg.initial twoWorkers twoChildren fun _ _ _ => 0)
        twoWorkersRounds.flatten).workers 1).phase = .done ∨
      ((runSchedule twoWorkers (ParallelAgg.initial twoWorkers twoChildren fun _ _ _ => 0)
        twoWorkersRounds.flatten).workers 1).phase.isFailed = true) :=
  have hlen : totalRows twoWorkers twoChildren + twoWorkers.numWorkers * twoWorkers.numWorkers +
      totalLoad twoWorkers twoChildren + twoWorkers.numWorkers + 4 ≤ twoWorkersRounds.length := by
    rw [twoWorkersRounds, List.length_replicate]
    decide
  have hfair : FairRounds twoWorkers.numWorkers twoWorkersRounds := FairRounds.replicate (by decide) 50
  ⟨by decide, by decide, hfair, hlen, by decide, fairRounds_stop (by decide) (by decide) hfair hlen (by decide)⟩

end Finish

end NodeAgg

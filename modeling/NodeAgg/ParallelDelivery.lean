import NodeAgg.ParallelProgress

/-!
# Clean inputs: every worker done, every row delivered

`ParallelRuns` shows that no row is lost or duplicated, and `ParallelProgress`
that every worker stops; a worker may still stop on an error.  Here the
errors are shown not to happen for inputs the exchange is made for
(`CleanInputs`): fewer than 31 workers, so that `ReDistributeHash`'s
`1 << numWorkers` fits an `int`, and rows that go as data rows with data.

The invariant `CleanState` is about the state alone: every ring and temp file
typed for data rows or not typed yet, and every worker running on a suffix of
its child's rows, not failed, with a merged file of data rows if any.  Each
error branch of a step is ruled out by it, by `ExchangeInv` (a ring a worker
reads from holds a message) or by the conservation in `ExchangeInv` (every
record of a merged file is a row's message, so it has data).

* `no_failure_of_clean`: in every state an interleaving reaches, no worker has
  failed;
* `fairRounds_deliver`: after enough fair rounds every worker is done and has
  fed exactly the rows of every child that hash to it;
* `fairRounds_deliver_all`: the workers together have then fed every row of
  every child exactly once.
-/

namespace NodeAgg

open Finset

/-- Inputs the exchange carries without an error: fewer than 31 workers, and
every row sent as a data row with data. -/
structure CleanInputs {D : Type} {hts : Nat} (rd : ReDistributeSetup D) (inputs : Nat → List (ChildRow D hts)) :
    Prop where
  workers_lt : rd.numWorkers < 31
  dataRow : ∀ i < rd.numWorkers, ∀ r ∈ inputs i, r.slot.message.1 = .dataRow
  data_ne_nil : ∀ i < rd.numWorkers, ∀ r ∈ inputs i, r.slot.message.2 ≠ []

/-- A channel typed for data rows, or not typed yet. -/
def ChanClean (c : ReDistributeChannel) : Prop :=
  (c.bufType = .none ∨ c.bufType = .dataRow) ∧ (c.bufFile = none ∨ c.bufFile = some .dataRow)

theorem ChanClean.taken {c : ReDistributeChannel} (h : ChanClean c) : ChanClean c.taken := h

/-- A worker running on a suffix of its child's rows, not failed, whose merged
file, if any, is of data rows. -/
def WorkerClean {D : Type} {hts : Nat} (rows : List (ChildRow D hts)) (p : ParallelWorker D hts) : Prop :=
  p.input <:+ rows ∧ p.phase.isFailed = false ∧
    (p.phase.dataType = .none ∧ p.phase.mergedFile = none ∨ p.phase.dataType = .dataRow)

/-- Every channel and every worker clean. -/
def CleanState {D : Type} {hts : Nat} (inputs0 : Nat → List (ChildRow D hts)) (s : ParallelAgg D hts) : Prop :=
  (∀ j w, ChanClean (s.chan j w)) ∧ ∀ w, WorkerClean (inputs0 w) (s.workers w)

theorem WorkerPhase.isFailed_of_status {p : WorkerPhase} (h : p.status = .error) : p.isFailed = true := by
  cases p <;> simp_all [WorkerPhase.status, WorkerPhase.isFailed]

/-- `ReDistributeHash` fails only from 31 workers on. -/
theorem indexSendWorker_ok {D : Type} {hts : Nat} {rd : ReDistributeSetup D} (hN : rd.numWorkers < 31)
    (r : ChildRow D hts) : ∃ d, indexSendWorker rd r = .ok d := by
  unfold indexSendWorker reDistributeHash
  split
  · exact ⟨0, rfl⟩
  · exact ⟨_, if_neg (by omega)⟩

/-- A data row goes into a clean channel without an error, and leaves it clean. -/
theorem reDistributeSend_clean {c : ReDistributeChannel} (hc : ChanClean c) (data : List UInt8) :
    ∃ c', reDistributeSend c .dataRow data = .ok c' ∧ ChanClean c' := by
  obtain ⟨ht | ht, hf | hf⟩ := hc <;> unfold reDistributeSend <;> split_ifs <;>
    simp_all [ChanClean, pure, Except.pure]

/-- A message of the children's rows that is owed to a worker is the message
of one of the rows. -/
theorem mem_sum_routedTo {D : Type} {hts : Nat} {rd : ReDistributeSetup D} {inputs : Nat → List (ChildRow D hts)}
    {w : Nat} {x : Message}
    (h : x ∈ ∑ i in range rd.numWorkers, ((routedTo rd w (inputs i) : List Message) : Multiset Message)) :
    ∃ i < rd.numWorkers, ∃ r ∈ inputs i, r.slot.message = x := by
  obtain ⟨i, hi, hx⟩ := Multiset.mem_sum.1 h
  simp only [Multiset.mem_coe, routedTo, List.mem_map, List.mem_filter] at hx
  obtain ⟨r, ⟨hr, -⟩, rfl⟩ := hx
  exact ⟨i, mem_range.1 hi, r, hr, rfl⟩

section Clean

variable {D : Type} {hts : Nat} {rd : ReDistributeSetup D} {inputs0 : Nat → List (ChildRow D hts)}
  {s : ParallelAgg D hts} {V : ExchangeViews} {self : Nat}

theorem CleanState.setWorker (h : CleanState inputs0 s) {w : Nat} {p : ParallelWorker D hts}
    (hp : WorkerClean (inputs0 w) p) : CleanState inputs0 (s.setWorker w p) := by
  refine ⟨h.1, fun v => ?_⟩
  rw [ParallelAgg.setWorker_workers]
  split
  · subst v
    exact hp
  · exact h.2 v

theorem CleanState.setChan (h : CleanState inputs0 s) {i j : Nat} {c : ReDistributeChannel} (hc : ChanClean c) :
    CleanState inputs0 (s.setChan i j c) := by
  refine ⟨fun a b => ?_, h.2⟩
  rw [ParallelAgg.setChan_chan]
  split
  · exact hc
  · exact h.1 a b

theorem CleanState.feed (h : CleanState inputs0 s) (w : Nat) (m : Message) : CleanState inputs0 (s.feed w m) :=
  h.setWorker (h.2 w)

theorem CleanState.setInput (h : CleanState inputs0 s) {w : Nat} {rest : List (ChildRow D hts)}
    (hrest : rest <:+ inputs0 w) : CleanState inputs0 (s.setInput w rest) :=
  h.setWorker ⟨hrest, (h.2 w).2⟩

theorem CleanState.setPhase (h : CleanState inputs0 s) {w : Nat} {p : WorkerPhase} (hf : p.isFailed = false)
    (ht : p.dataType = .none ∧ p.mergedFile = none ∨ p.dataType = .dataRow) :
    CleanState inputs0 (s.setPhase w p) :=
  h.setWorker ⟨(h.2 w).1, hf, ht⟩

/-- `ReDistributeData` on a clean state sends the row, and takes a message
from a peer's ring, without an error. -/
theorem CleanState.reDistributeData (hc : CleanInputs rd inputs0) (h : CleanState inputs0 s)
    (hinv : ExchangeInv rd inputs0 s V) (hself : self < rd.numWorkers) (hp : (s.workers self).phase = .producing)
    {r : ChildRow D hts} {rest : List (ChildRow D hts)} (hin : (s.workers self).input = r :: rest) :
    CleanState inputs0 (reDistributeData rd s self r rest) := by
  have hsuf := (h.2 self).1
  rw [hin] at hsuf
  have hr : r ∈ inputs0 self := hsuf.subset (List.mem_cons_self r rest)
  have hrest : rest <:+ inputs0 self := (List.suffix_cons r rest).trans hsuf
  obtain ⟨dest, hd⟩ := indexSendWorker_ok hc.workers_lt r
  unfold NodeAgg.reDistributeData
  rw [hd]
  dsimp only
  split_ifs with hds
  · exact (h.setInput hrest).feed _ _
  obtain ⟨c, hs, hcc⟩ := reDistributeSend_clean (h.1 self dest) r.slot.message.2
  rw [← hc.dataRow self hself r hr] at hs
  rw [hs]
  dsimp only
  have hcl := (h.setChan (i := self) (j := dest) hcc).setInput hrest
  split
  · exact hcl
  · -- the ring `ReDistributeData` takes from holds a message
    rename_i j hj
    obtain ⟨V1, h1⟩ := hinv.send hself hp hin hd hds hs
    have hdN := indexSendWorker_lt hd (by omega)
    obtain ⟨hjN, hjs⟩ := mem_peerRound (by omega) hself hdN hds (List.mem_of_find?_eq_some hj)
    obtain ⟨m, q, hq⟩ := List.exists_cons_of_ne_nil ((h1.chan j self).ne_nil_of_quarterFull
      (by simpa using List.find?_some hj))
    rw [(h1.take hjN hjs hq).1]
    dsimp only
    exact (hcl.setChan (hcl.1 j self).taken).feed self _

/-- A turn of `GetReDistributeBufFile`'s loop on a clean state finds every
file of data rows and no peer failed. -/
theorem CleanState.getReDistributeBufFileStep (h : CleanState inputs0 s) {i nMerged : Nat} {merged : List Bool}
    {dt : ReDistributeDataType} {file : Option (List UInt8)}
    (hp : (s.workers self).phase = .merging i nMerged merged dt file) :
    CleanState inputs0 (getReDistributeBufFileStep rd s self i nMerged merged dt file) := by
  have hw := (h.2 self).2.2
  simp only [hp, WorkerPhase.dataType, WorkerPhase.mergedFile] at hw
  unfold NodeAgg.getReDistributeBufFileStep
  dsimp only
  split_ifs with hn hi hst herr
  · split
    · exact h.setPhase rfl hw
    · rename_i t ht
      have htd : t = .dataRow := by simpa [ht] using (h.1 i self).2
      split_ifs with hmis
      · exact absurd hmis (by rcases hw with ⟨rfl, -⟩ | rfl <;> simp [htd])
      · exact h.setPhase rfl (.inr htd)
  · exact absurd (h.2 i).2.1 (by simp [WorkerPhase.isFailed_of_status herr])
  · exact h.setPhase rfl hw
  · exact h.setPhase rfl hw
  · exact h.setPhase rfl hw

/-- A call of `GetReDistributeData` on a clean state reads a message from a
ring or a record of the merged file without an error: the record is a data
row's message, so it has data. -/
theorem CleanState.getReDistributeData (hc : CleanInputs rd inputs0) (h : CleanState inputs0 s)
    (hinv : ExchangeInv rd inputs0 s V) (hself : self < rd.numWorkers) {index : Nat} {dt : ReDistributeDataType}
    {file : Option (List UInt8)} (hp : (s.workers self).phase = .draining index dt file) :
    CleanState inputs0 (getReDistributeData rd s self index dt file) := by
  have hw := (h.2 self).2.2
  simp only [hp, WorkerPhase.dataType, WorkerPhase.mergedFile] at hw
  unfold NodeAgg.getReDistributeData
  dsimp only
  split
  · rename_i j hfind
    obtain ⟨hij, hjN, hpj, -⟩ := range'_find?_some hfind
    simp only [decide_eq_true_eq] at hpj
    obtain ⟨m, q, hq⟩ := List.exists_cons_of_ne_nil ((hinv.chan j self).ne_nil_of_head_ne hpj.2)
    rw [(hinv.take (by omega) hpj.1 hq).1]
    dsimp only
    refine CleanState.setPhase ?_ rfl hw
    exact (h.setChan (h.1 j self).taken).feed self _
  · split
    · exact h.setPhase rfl (.inl ⟨rfl, rfl⟩)
    · rename_i f
      have hdt : dt = .dataRow := by simpa using hw
      have hfile : f = ((V.merged self).map frame).flatten := by
        simpa [hp, WorkerPhase.mergedFile] using (hinv.worker self).merged
      cases hM : V.merged self with
      | nil =>
        rw [hfile, hM, List.map_nil, List.flatten_nil, getReDistributeFileData_nil]
        exact h.setPhase rfl (.inl ⟨rfl, rfl⟩)
      | cons m M =>
        -- the record is owed to the worker, so it is a row's message
        have hmem : ((dt, m) : Message) ∈ owed rd s V self := by simp [owed, hM, hp, WorkerPhase.dataType]
        rw [hinv.conserve self hself (by simp [hp, WorkerPhase.isFailed])] at hmem
        obtain ⟨i, hi, r, hr, hrm⟩ := mem_sum_routedTo hmem
        have hm : m ≠ [] := by simpa [hrm] using hc.data_ne_nil i hi r hr
        have hlen : m.length < 2 ^ 32 := by
          have := ((hinv.worker self).merged_ok m (by simp [hM])).1
          omega
        rw [hfile, hM, List.map_cons, List.flatten_cons, hdt,
          getReDistributeFileData_dataRow hts _ (List.length_pos.2 hm) hlen]
        dsimp only
        refine CleanState.feed ?_ self _
        exact h.setPhase rfl (.inr rfl)

/-- A turn of the wait on a clean state finds no peer failed, and
`ReDistributeBufferCheck` passes. -/
theorem CleanState.consumeWaitStep (h : CleanState inputs0 s) (hinv : ExchangeInv rd inputs0 s V)
    (hself : self < rd.numWorkers) {nDone : Nat} (hp : (s.workers self).phase = .consumeWait nDone) :
    CleanState inputs0 (consumeWaitStep rd s self nDone) := by
  unfold NodeAgg.consumeWaitStep
  dsimp only
  split_ifs with hn hwait herr
  · exact h
  · exact absurd (h.2 nDone).2.1 (by simp [WorkerPhase.isFailed_of_status herr])
  · exact h.setPhase rfl (.inl ⟨rfl, rfl⟩)
  · rw [hinv.bufferCheck hself hp hn]
    exact h.setPhase rfl (.inl ⟨rfl, rfl⟩)

theorem CleanState.workerStep (hc : CleanInputs rd inputs0) (h : CleanState inputs0 s)
    (hinv : ExchangeInv rd inputs0 s V) (hself : self < rd.numWorkers) :
    CleanState inputs0 (workerStep rd s self) := by
  unfold NodeAgg.workerStep
  split
  · split
    · exact h.setPhase rfl (.inl ⟨rfl, rfl⟩)
    · exact h.reDistributeData hc hinv hself ‹_› ‹_›
  · exact h.getReDistributeBufFileStep ‹_›
  · exact h.getReDistributeData hc hinv hself ‹_›
  · exact h.consumeWaitStep hinv hself ‹_›
  · exact h
  · exact h

variable {inputs : Nat → List (ChildRow D hts)} {mem : Nat → Nat → Nat → UInt8}

/-- Every state an interleaving reaches from clean inputs is clean. -/
theorem cleanState_of_reachable (hpos : 0 < rd.bufferSize) (hlt : rd.bufferSize < 2 ^ 31)
    (hc : CleanInputs rd inputs) (hs : ExchangeReachable rd (ParallelAgg.initial rd inputs mem) s) :
    CleanState inputs s := by
  induction hs with
  | initial =>
    exact ⟨fun _ _ => ⟨.inl rfl, .inl rfl⟩, fun w => ⟨List.suffix_refl _, rfl, .inl ⟨rfl, rfl⟩⟩⟩
  | step w hw hs ih =>
    obtain ⟨V, hV⟩ := exchangeInv_of_reachable hpos hlt hs
    exact ih.workerStep hc hV hw

end Clean

/-! ## What the workers end with -/

section Routing

variable {D : Type} {hts : Nat} {rd : ReDistributeSetup D}

/-- Rows that each route to one worker below `N` are routed, all together, to
the workers once each. -/
theorem sum_routedTo {rows : List (ChildRow D hts)}
    (hrows : ∀ r ∈ rows, ∃ d < rd.numWorkers, indexSendWorker rd r = .ok d) :
    ∑ w in range rd.numWorkers, ((routedTo rd w rows : List Message) : Multiset Message) =
      ((rows.map (·.slot.message) : List Message) : Multiset Message) := by
  induction rows with
  | nil => simp [routedTo]
  | cons r rows ih =>
    obtain ⟨d, hd, hr⟩ := hrows r (List.mem_cons_self _ _)
    simp only [routedTo_cons rd _ r rows, routedTo_single rd hr, sum_add_distrib,
      ih fun r' h' => hrows r' (List.mem_cons_of_mem _ h')]
    simp [apply_ite (fun l : List Message => (l : Multiset Message)), hd]

end Routing

section Delivery

variable {D : Type} {hts : Nat} {rd : ReDistributeSetup D} {inputs : Nat → List (ChildRow D hts)}
  {mem : Nat → Nat → Nat → UInt8} {s : ParallelAgg D hts}

/-- On clean inputs no interleaving stops a worker on an error: not the
exchange's own checks, not the types of the rings and files, not a peer's
error. -/
theorem no_failure_of_clean (hpos : 0 < rd.bufferSize) (hlt : rd.bufferSize < 2 ^ 31) (hc : CleanInputs rd inputs)
    (hs : ExchangeReachable rd (ParallelAgg.initial rd inputs mem) s) (w : Nat) :
    (s.workers w).phase.isFailed = false :=
  ((cleanState_of_reachable hpos hlt hc hs).2 w).2.1

theorem twoChildren_clean : CleanInputs twoWorkers twoChildren := ⟨by decide, by decide, by decide⟩

theorem twoWorkersRun_not_failed :
    0 < twoWorkers.bufferSize ∧ twoWorkers.bufferSize < 2 ^ 31 ∧ CleanInputs twoWorkers twoChildren ∧
      (twoWorkersRun.workers 0).phase.isFailed = false :=
  ⟨by decide, by decide, twoChildren_clean,
    no_failure_of_clean (by decide) (by decide) twoChildren_clean twoWorkersRun_reachable 0⟩

variable (hpos : 0 < rd.bufferSize) (hlt : rd.bufferSize < 2 ^ 31) (hc : CleanInputs rd inputs)
  {rounds : List (List Nat)} (hfair : FairRounds rd.numWorkers rounds)
  (hlen : totalRows rd inputs + rd.numWorkers * rd.numWorkers + totalLoad rd inputs + rd.numWorkers + 4 ≤
    rounds.length)

include hpos hlt hc hfair hlen in
/-- After enough fair rounds on clean inputs a worker is done, having fed
what it is owed. -/
theorem done_fed_of_fairRounds {w : Nat} (hw : w < rd.numWorkers) :
    ((runSchedule rd (ParallelAgg.initial rd inputs mem) rounds.flatten).workers w).phase = .done ∧
      (((runSchedule rd (ParallelAgg.initial rd inputs mem) rounds.flatten).workers w).fed : Multiset Message) =
        ∑ i in range rd.numWorkers, ((routedTo rd w (inputs i) : List Message) : Multiset Message) := by
  have hst : Stage rd (ParallelAgg.initial rd inputs mem) 4
      (runSchedule rd (ParallelAgg.initial rd inputs mem) rounds.flatten) := fairRounds_stage hpos hlt hfair hlen
  have hf := ((cleanState_of_reachable hpos hlt hc hst.1).2 w).2.1
  have hdone : ((runSchedule rd (ParallelAgg.initial rd inputs mem) rounds.flatten).workers w).phase = .done := by
    have h4 := hst.2 w hw
    revert h4 hf
    cases ((runSchedule rd _ _).workers w).phase <;> simp [WorkerPhase.rank, WorkerPhase.isFailed]
  obtain ⟨V, hV⟩ := exchangeInv_of_reachable hpos hlt hst.1
  exact ⟨hdone, by rw [← hV.owed_done hdone, hV.conserve w hw (by rw [hdone]; rfl)]⟩

include hpos hlt hc hfair hlen in
/-- On clean inputs, whatever the order in which the workers run, as long as
every worker gets a turn in every round: after enough rounds every worker is
done and has fed exactly the rows of every child that hash to it. -/
theorem fairRounds_deliver {w : Nat} (hw : w < rd.numWorkers) :
    ((runSchedule rd (ParallelAgg.initial rd inputs mem) rounds.flatten).workers w).phase = .done ∧
      (((runSchedule rd (ParallelAgg.initial rd inputs mem) rounds.flatten).workers w).fed : Multiset Message) =
        ∑ i in range rd.numWorkers, ((routedTo rd w (inputs i) : List Message) : Multiset Message) :=
  done_fed_of_fairRounds hpos hlt hc hfair hlen hw

include hpos hlt hc hfair hlen in
/-- On clean inputs, after enough fair rounds the workers together have fed
every row of every child exactly once. -/
theorem fairRounds_deliver_all :
    ∑ w in range rd.numWorkers,
      (((runSchedule rd (ParallelAgg.initial rd inputs mem) rounds.flatten).workers w).fed : Multiset Message) =
      ∑ i in range rd.numWorkers, (((inputs i).map (·.slot.message) : List Message) : Multiset Message) :=
  calc _ = ∑ w in range rd.numWorkers, ∑ i in range rd.numWorkers,
        ((routedTo rd w (inputs i) : List Message) : Multiset Message) :=
      sum_congr rfl fun w hw => (done_fed_of_fairRounds hpos hlt hc hfair hlen (mem_range.1 hw)).2
    _ = ∑ i in range rd.numWorkers, ∑ w in range rd.numWorkers,
        ((routedTo rd w (inputs i) : List Message) : Multiset Message) := sum_comm
    _ = _ := sum_congr rfl fun i hi => sum_routedTo fun r _ => by
      obtain ⟨d, hd⟩ := indexSendWorker_ok hc.workers_lt r
      exact ⟨d, indexSendWorker_lt hd (Nat.zero_lt_of_lt (mem_range.1 hi)), hd⟩

theorem twoWorkersRounds_deliver :
    0 < twoWorkers.bufferSize ∧ twoWorkers.bufferSize < 2 ^ 31 ∧ CleanInputs twoWorkers twoChildren ∧
      FairRounds twoWorkers.numWorkers twoWorkersRounds ∧
      totalRows twoWorkers twoChildren + twoWorkers.numWorkers * twoWorkers.numWorkers +
        totalLoad twoWorkers twoChildren + twoWorkers.numWorkers + 4 ≤ twoWorkersRounds.length ∧
      1 < twoWorkers.numWorkers ∧
      ((runSchedule twoWorkers (ParallelAgg.initial twoWorkers twoChildren fun _ _ _ => 0)
        twoWorkersRounds.flatten).workers 1).phase = .done ∧
      (((runSchedule twoWorkers (ParallelAgg.initial twoWorkers twoChildren fun _ _ _ => 0)
        twoWorkersRounds.flatten).workers 1).fed : Multiset Message) =
        ∑ i in range twoWorkers.numWorkers, ((routedTo twoWorkers 1 (twoChildren i) : List Message) :
          Multiset Message) := by
  have hlen : totalRows twoWorkers twoChildren + twoWorkers.numWorkers * twoWorkers.numWorkers +
      totalLoad twoWorkers twoChildren + twoWorkers.numWorkers + 4 ≤ twoWorkersRounds.length := by
    rw [twoWorkersRounds, List.length_replicate]
    decide
  have hfair : FairRounds twoWorkers.numWorkers twoWorkersRounds := FairRounds.replicate (by decide) 50
  exact ⟨by decide, by decide, twoChildren_clean, hfair, hlen, by decide,
    fairRounds_deliver (by decide) (by decide) twoChildren_clean hfair hlen (by decide)⟩

theorem twoWorkersRounds_deliver_all :
    0 < twoWorkers.bufferSize ∧ twoWorkers.bufferSize < 2 ^ 31 ∧ CleanInputs twoWorkers twoChildren ∧
      FairRounds twoWorkers.numWorkers twoWorkersRounds ∧
      totalRows twoWorkers twoChildren + twoWorkers.numWorkers * twoWorkers.numWorkers +
        totalLoad twoWorkers twoChildren + twoWorkers.numWorkers + 4 ≤ twoWorkersRounds.length ∧
      ∑ w in range twoWorkers.numWorkers, (((runSchedule twoWorkers
        (ParallelAgg.initial twoWorkers twoChildren fun _ _ _ => 0) twoWorkersRounds.flatten).workers w).fed :
          Multiset Message) =
        ∑ i in range twoWorkers.numWorkers,
          (((twoChildren i).map (·.slot.message) : List Message) : Multiset Message) := by
  have hlen : totalRows twoWorkers twoChildren + twoWorkers.numWorkers * twoWorkers.numWorkers +
      totalLoad twoWorkers twoChildren + twoWorkers.numWorkers + 4 ≤ twoWorkersRounds.length := by
    rw [twoWorkersRounds, List.length_replicate]
    decide
  have hfair : FairRounds twoWorkers.numWorkers twoWorkersRounds := FairRounds.replicate (by decide) 50
  exact ⟨by decide, by decide, twoChildren_clean, hfair, hlen,
    fairRounds_deliver_all (by decide) (by decide) twoChildren_clean hfair hlen⟩

end Delivery

end NodeAgg

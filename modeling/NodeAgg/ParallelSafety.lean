import NodeAgg.Parallel

/-!
# What the redistribution keeps, step by step

`ExchangeInv` relates a state of the workers to *views*: the queue of messages
each ring holds, the records of each temp file, the records left in each
worker's merged file.  The views are not fields of the state; the code keeps
no such lists, only the bytes they decode from.

The invariant has five parts.  Each channel holds its queue and its records,
each of a type its reader's `switch` accepts (`ChanHolds`); each worker's
merged file holds its records and its loop locals are consistent
(`WorkerHolds`); a worker only counts on what its peers can no longer change
(a merged peer has stopped producing, a drained ring stays empty, a counted
peer has read everything); for every worker that has not failed, the multiset
of rows it has fed, plus those in transit to it, plus those its peers'
children have yet to return that route to it, is the multiset of all rows
routed to it (`owed`); and no worker has stopped on a check of the exchange's
bookkeeping (`bookkeepingError`).

Every step keeps it: one lemma per piece of the code's loops (`keep`, `send`
and `take` in `ReDistributeData`, `mergePeer` in `GetReDistributeBufFile`,
`readRecord` in `GetReDistributeData`, ...) and one per call
(`ExchangeInv.reDistributeData`, `ExchangeInv.getReDistributeBufFileStep`,
`ExchangeInv.getReDistributeData`, `ExchangeInv.consumeWaitStep`).  A step
that would raise a bookkeeping error is shown not to happen: the `switch`
accepts every message a ring or a file holds, and `ReDistributeBufferCheck`
finds the rings empty.  `ParallelRuns` puts the steps together over every
interleaving.
-/

namespace NodeAgg

open Finset

/-- The message type every row carries. -/
abbrev Message := ReDistributeDataType × List UInt8

/-! ## Sums over the workers -/

section Sums

variable {α : Type}

/-- Changing a sum over the workers at one worker `j0`. -/
theorem sum_range_add_eq {N j0 : Nat} (hj : j0 < N) {f g : Nat → Multiset α} (h : ∀ j, j ≠ j0 → f j = g j) :
    ∑ j in range N, f j + g j0 = ∑ j in range N, g j + f j0 := by
  rw [← add_sum_erase _ _ (mem_range.2 hj), ← add_sum_erase _ g (mem_range.2 hj),
    sum_congr rfl fun j hj' => h j (ne_of_mem_erase hj')]
  abel

theorem sum_range_congr_of_ne {N : Nat} {f g : Nat → Multiset α} (j0 : Nat) (h : ∀ j, j ≠ j0 → f j = g j)
    (hj : N ≤ j0) : ∑ j in range N, f j = ∑ j in range N, g j :=
  sum_congr rfl fun j hj' => h j (by simp at hj'; omega)

/-- Worker `a`'s field read through an update at `b` that changes no field read. -/
@[simp] theorem ite_self_apply {β : Type} (f : Nat → β) (a b : Nat) : (if a = b then f b else f a) = f a := by
  split <;> simp_all

@[simp] theorem coe_append_singleton (l : List α) (a : α) : ((l ++ [a] : List α) : Multiset α) = ↑l + {a} := by
  rw [← Multiset.coe_add, Multiset.coe_singleton]

end Sums

/-! ## Views and the phase's facts -/

/-- What the bytes in shared memory and in the files stand for: the messages
in each ring (`ring i j` for `buf[i*N+j]`), the records of each temp file, and
the records left in each worker's merged file. -/
structure ExchangeViews where
  ring : Nat → Nat → List (List UInt8)
  file : Nat → Nat → List (List UInt8)
  merged : Nat → List (List UInt8)

namespace ExchangeViews

/-- Nothing in transit. -/
def empty : ExchangeViews := ⟨fun _ _ => [], fun _ _ => [], fun _ => []⟩

def setRing (V : ExchangeViews) (i j : Nat) (q : List (List UInt8)) : ExchangeViews :=
  { V with ring := fun a b => if a = i ∧ b = j then q else V.ring a b }

def setFile (V : ExchangeViews) (i j : Nat) (f : List (List UInt8)) : ExchangeViews :=
  { V with file := fun a b => if a = i ∧ b = j then f else V.file a b }

def setMerged (V : ExchangeViews) (w : Nat) (M : List (List UInt8)) : ExchangeViews :=
  { V with merged := Function.update V.merged w M }

variable (V : ExchangeViews) {i j a b w : Nat} (q : List (List UInt8))

@[simp] theorem setRing_ring : (V.setRing i j q).ring a b = if a = i ∧ b = j then q else V.ring a b := rfl
@[simp] theorem setRing_file : (V.setRing i j q).file = V.file := rfl
@[simp] theorem setRing_merged : (V.setRing i j q).merged = V.merged := rfl
@[simp] theorem setFile_file : (V.setFile i j q).file a b = if a = i ∧ b = j then q else V.file a b := rfl
@[simp] theorem setFile_ring : (V.setFile i j q).ring = V.ring := rfl
@[simp] theorem setFile_merged : (V.setFile i j q).merged = V.merged := rfl
@[simp] theorem setMerged_merged : (V.setMerged w q).merged a = if a = w then q else V.merged a :=
  Function.update_apply ..
@[simp] theorem setMerged_self : V.setMerged w (V.merged w) = V := by
  simp [setMerged, Function.update_eq_self]
@[simp] theorem setMerged_ring : (V.setMerged w q).ring = V.ring := rfl
@[simp] theorem setMerged_file : (V.setMerged w q).file = V.file := rfl

end ExchangeViews

namespace WorkerPhase

/-- Whether the worker has taken peer `j`'s temp file into its merged file:
none before `GetReDistributeBufFile`, those marked in `merged[]` during it,
all after it. -/
def merges (N : Nat) : WorkerPhase → Nat → Bool
  | .producing, _ | .failed _, _ => false
  | .merging _ _ merged _ _, j => merged.getD j false
  | .draining .., j | .consumeWait _, j | .done, j => decide (j < N)

/-- The merged file, `NULL` outside `GetReDistributeBufFile` and the reads. -/
def mergedFile : WorkerPhase → Option (List UInt8)
  | .merging _ _ _ _ file | .draining _ _ file => file
  | _ => none

/-- The data type `GetReDistributeBufFile` found for the merged file. -/
def dataType : WorkerPhase → ReDistributeDataType
  | .merging _ _ _ t _ | .draining _ t _ => t
  | _ => .none

/-- Whether the worker has passed peer `j`'s ring for good. -/
def drainedPast (N : Nat) : WorkerPhase → Nat → Bool
  | .draining index _ _, j => decide (j < index)
  | .consumeWait _, j | .done, j => decide (j < N)
  | _, _ => false

/-- Whether the worker's wait for every `ConsumeDone` has counted peer `j`. -/
def counted (N : Nat) : WorkerPhase → Nat → Bool
  | .consumeWait nDone, j => decide (j < nDone)
  | .done, j => decide (j < N)
  | _, _ => false

/-- Whether the worker has read all the data meant for it (or stopped). -/
def finishedReading : WorkerPhase → Bool
  | .consumeWait _ | .done | .failed _ => true
  | _ => false

def isFailed : WorkerPhase → Bool
  | .failed _ => true
  | _ => false

/-- The loop locals are in range: `GetReDistributeBufFile` looks at a worker
below `N`, `merged[]` has one flag per worker, its own set, and `nMerged`
counts the flags; `GetReDistributeData`'s `index` is at most `N`. -/
def Ok (N self : Nat) : WorkerPhase → Prop
  | .merging i nMerged merged _ _ =>
    i < N ∧ merged.length = N ∧ merged.getD self false = true ∧ nMerged = merged.count true
  | .draining index _ _ => index ≤ N
  | _ => True

end WorkerPhase

namespace WorkerPhase

theorem merges_of_drainedPast {p : WorkerPhase} {N j k : Nat} (h : p.drainedPast N k = true) (hj : j < N) :
    p.merges N j = true := by
  cases p <;> simp_all [drainedPast, merges]

/-- A worker whose status is `ProduceDone` or later has stopped producing and
has not failed. -/
theorem of_produceDone_le {p : WorkerPhase} (h : ReDistributeStatus.produceDone.toNat ≤ p.status.toNat) :
    p ≠ .producing ∧ p.isFailed = false := by
  cases p <;> simp_all [status, ReDistributeStatus.toNat, isFailed]

/-- A peer that `GetReDistributeData`'s wait counts, neither waiting nor
failed, has set `ConsumeDone`: it has drained every ring to it. -/
theorem of_consumeDone {p : WorkerPhase} {N : Nat}
    (hwait : ¬(p.status.toNat < ReDistributeStatus.consumeDone.toNat ∧
      ReDistributeStatus.error.toNat < p.status.toNat)) (herr : p.status ≠ .error) :
    (∀ k < N, p.drainedPast N k = true) ∧ p.finishedReading = true := by
  cases p <;> simp_all [status, ReDistributeStatus.toNat, drainedPast, finishedReading]

theorem merges_of_counted {p : WorkerPhase} {N j k : Nat} (h : p.counted N k = true) (hj : j < N) :
    p.merges N j = true := by
  cases p <;> simp_all [counted, merges]

end WorkerPhase

theorem flatten_frames_eq_nil {M : List (List UInt8)} : (M.map frame).flatten = [] ↔ M = [] := by
  cases M <;> simp [frame, intBytes]

/-! ## The invariant -/

/-- The `switch` after a read accepts a message of this type. -/
def StoreOk (hts : Nat) (t : ReDistributeDataType) (m : List UInt8) : Prop :=
  reDistributeStore hts t m.length m = .ok ()

/-- The errors of the checks on the exchange's own bookkeeping: the `switch`
that stores a row read back (`reDistributeStore`), and
`ReDistributeBufferCheck`. -/
def bookkeepingError (msg : String) : Bool :=
  msg == "data len mismatch between minimal tup and length read from bufFile." ||
  msg == "data len mismatch between heap tup and length read from bufFile." ||
  msg == "wrong data type while getting ReDistributeData." ||
  "data left in ReDistributeBuffer".toList.isPrefixOf msg.toList

/-- A channel holds its views: the ring holds the queue, every message in it of
the ring's type; the file is the records' frames, every record of the file's
type and of an `int` length. -/
structure ChanHolds (hts L : Nat) (c : ReDistributeChannel) (q f : List (List UInt8)) : Prop where
  ring : RingHolds c.buf q
  length_eq : c.buf.length = L
  ring_ok : ∀ m ∈ q, StoreOk hts c.bufType m
  file : c.file = (f.map frame).flatten
  file_ok : ∀ m ∈ f, m.length < 2 ^ 31 ∧ ∃ t, c.bufFile = some t ∧ StoreOk hts t m

/-- A worker's merged file holds the records left, each of the merged type, and
its loop locals are in range; past its child it has no input left. -/
structure WorkerHolds {D : Type} (hts N w : Nat) (p : ParallelWorker D hts) (M : List (List UInt8)) :
    Prop where
  merged : p.phase.mergedFile.getD [] = (M.map frame).flatten
  merged_ok : ∀ m ∈ M, m.length < 2 ^ 31 ∧ StoreOk hts p.phase.dataType m
  phase_ok : p.phase.Ok N w
  input_nil : p.phase ≠ .producing → p.phase.isFailed = false → p.input = []

namespace ReDistributeChannel

/-- The messages of a ring's queue, typed by the ring. -/
def ringMsgs (c : ReDistributeChannel) (q : List (List UInt8)) : Multiset Message :=
  ((q.map (c.bufType, ·) : List Message) : Multiset Message)

/-- The records of a temp file, typed by its `ReDistributeBufFile`. -/
def fileMsgs (c : ReDistributeChannel) (f : List (List UInt8)) : Multiset Message :=
  ((f.map (c.bufFile.getD .none, ·) : List Message) : Multiset Message)

end ReDistributeChannel

section ChanHolds

open ReDistributeChannel

variable {hts L : Nat} {c c' : ReDistributeChannel} {q f : List (List UInt8)}

/-- A send puts the message into the ring or onto the file, typed by the row. -/
theorem ChanHolds.send (h : ChanHolds hts L c q f) {t : ReDistributeDataType} {data : List UInt8}
    (hs : reDistributeSend c t data = .ok c') (hok : StoreOk hts t data) (hlen : data.length < 2 ^ 31) :
    (ChanHolds hts L c' (q ++ [data]) f ∧ c'.ringMsgs (q ++ [data]) = c.ringMsgs q + {(t, data)} ∧
        c'.fileMsgs f = c.fileMsgs f) ∨
      (ChanHolds hts L c' q (f ++ [data]) ∧ c'.ringMsgs q = c.ringMsgs q ∧
        c'.fileMsgs (f ++ [data]) = c.fileMsgs f + {(t, data)}) := by
  unfold reDistributeSend at hs
  split at hs
  · refine .inl ?_
    have hput := h.ring.putData ‹_›
    have hq : c.bufType = .none → q = [] := fun ht => List.eq_nil_iff_forall_not_mem.2 fun m hm => by
      have := h.ring_ok m hm
      rw [ht] at this
      cases this
    split at hs
    · cases hs
      rw [hq ‹_›] at hput ⊢
      exact ⟨⟨hput, h.length_eq, by simpa using hok, h.file, h.file_ok⟩, by simp [ringMsgs], rfl⟩
    · split at hs
      · cases hs
      · cases hs
        obtain rfl : c.bufType = t := by simpa using ‹¬c.bufType ≠ t›
        refine ⟨⟨hput, h.length_eq, fun m hm => ?_, h.file, h.file_ok⟩, by simp [ringMsgs], rfl⟩
        rcases List.mem_append.1 hm with hm | hm
        · exact h.ring_ok m hm
        · simpa [List.mem_singleton.1 hm] using hok
  · refine .inr ?_
    have hc : (c.bufFile = none ∨ c.bufFile = some t) ∧
        c' = { c with bufFile := some t, file := c.file ++ frame data } := by
      split at hs
      · cases hs
        exact ⟨.inl ‹_›, rfl⟩
      · split at hs
        · cases hs
        · cases hs
          obtain rfl : _ = t := by simpa using ‹¬_ ≠ t›
          exact ⟨.inr ‹_›, by rw [‹c.bufFile = some _›]⟩
    obtain ⟨hb, rfl⟩ := hc
    -- every record already in the file has the row's type
    have hold : ∀ m ∈ f, c.bufFile = some t := fun m hm => by
      obtain ⟨_, t', ht', _⟩ := h.file_ok m hm
      rcases hb with hb | hb <;> rw [hb] at ht' ⊢
      · cases ht'
    refine ⟨⟨h.ring, h.length_eq, h.ring_ok, by simp [h.file, frame], fun m hm => ?_⟩, rfl, ?_⟩
    · rcases List.mem_append.1 hm with hm | hm
      · exact ⟨(h.file_ok m hm).1, t, rfl, by simpa [hold m hm] using (h.file_ok m hm).2⟩
      · rw [List.mem_singleton.1 hm]
        exact ⟨hlen, t, rfl, hok⟩
    · simp only [fileMsgs, Option.getD_some, List.map_append, List.map_cons, List.map_nil, coe_append_singleton]
      congr 2
      exact List.map_congr_left fun m hm => by simp [hold m hm]

theorem coe_cons_eq_add {α : Type} (a : α) (l : List α) : ((a :: l : List α) : Multiset α) = ↑l + {a} := by
  rw [← Multiset.cons_coe, ← Multiset.singleton_add, add_comm]

/-- A take from a ring holding a message returns the oldest one, which the
`switch` accepts, and leaves the rest. -/
theorem ChanHolds.take {m : List UInt8} (h : ChanHolds hts L c (m :: q) f) :
    ringRow hts c = .ok (c.bufType, m) ∧ ChanHolds hts L c.taken q f ∧
      c.ringMsgs (m :: q) = c.taken.ringMsgs q + {(c.bufType, m)} ∧ c.taken.fileMsgs f = c.fileMsgs f := by
  obtain ⟨h1, h2, h3⟩ := h.ring.getData
  refine ⟨?_, ⟨h3, h.length_eq, fun m' hm' => h.ring_ok m' (List.mem_cons_of_mem _ hm'), h.file, h.file_ok⟩,
    by simp [ringMsgs, taken, coe_cons_eq_add], rfl⟩
  have hok : reDistributeStore hts c.bufType m.length m = .ok () := h.ring_ok m (List.mem_cons_self _ _)
  simp only [ringRow, h1, h2, hok]
  rfl

/-- A ring over a quarter full has a message in it. -/
theorem ChanHolds.ne_nil_of_quarterFull (h : ChanHolds hts L c q f)
    (hq : reDistributeBufferFreeSize c.buf < ((L / 4 * 3 : Nat) : Int)) : q ≠ [] := by
  rintro rfl
  have hfree := h.ring.freeSize
  have hpos := h.ring.length_pos
  rw [h.length_eq] at hfree hpos
  simp only [inFlight_nil, Nat.cast_zero, sub_zero] at hfree
  omega

theorem ChanHolds.ne_nil_of_head_ne (h : ChanHolds hts L c q f) (hne : c.buf.head ≠ c.buf.tail) : q ≠ [] :=
  fun hq => hne (h.ring.head_eq_tail.2 hq)

end ChanHolds

/-- The `switch` accepts every message `ReDistributeData` makes of a slot: a
minimal tuple's `t_len` is its length, a heap tuple's `t_len` is its data's. -/
theorem ChildRow.storeOk {D : Type} {hts : Nat} (r : ChildRow D hts) :
    StoreOk hts r.slot.message.1 r.slot.message.2 := by
  unfold StoreOk reDistributeStore
  rcases r with ⟨_ | t | t | _, _, _⟩
  · rfl
  · have h := t.tLen_eq
    simp only [ReDistributeSlot.message, ownLength, tLen] at h ⊢
    simp [h]
    rfl
  · have h := t.tLen_eq
    have h4 := t.four_le
    simp only [ReDistributeSlot.message, ownLength, tLen] at h ⊢
    simp [List.take_append_of_le_length h4, h, t.header_length, Nat.add_comm]
    rfl
  · rfl

/-- `ReDistributeHash` picks a worker. -/
theorem indexSendWorker_lt {D : Type} {hts : Nat} {rd : ReDistributeSetup D} {r : ChildRow D hts} {d : Nat}
    (h : indexSendWorker rd r = .ok d) (hN : 0 < rd.numWorkers) : d < rd.numWorkers := by
  unfold indexSendWorker reDistributeHash at h
  split at h
  · cases h
    exact hN
  · split at h
    · cases h
    · cases h
      exact Nat.mod_lt _ hN

/-- Whether a worker's state holds its views depends on its phase and input only. -/
theorem WorkerHolds.congr {D : Type} {hts N w : Nat} {p p' : ParallelWorker D hts} {M : List (List UInt8)}
    (h : WorkerHolds hts N w p M) (hp : p'.phase = p.phase) (hi : p'.input = p.input) : WorkerHolds hts N w p' M :=
  ⟨hp ▸ h.merged, hp ▸ h.merged_ok, hp ▸ h.phase_ok, hp ▸ hi ▸ h.input_nil⟩

/-- `ReDistributeData` looks round the other workers only. -/
theorem nextPeer_lt {N self : Nat} (hN : 0 < N) (j : Nat) : nextPeer N self j < N := by
  unfold nextPeer
  split <;> exact Nat.mod_lt _ hN

theorem nextPeer_ne {N self : Nat} (hN : 2 ≤ N) (hself : self < N) (j : Nat) : nextPeer N self j ≠ self := by
  unfold nextPeer
  split
  · rename_i h
    rw [h]
    by_cases hs : self + 1 < N
    · rw [Nat.mod_eq_of_lt hs]
      omega
    · rw [show self + 1 = N by omega, Nat.mod_self]
      omega
  · assumption

theorem mem_peerRound {N self : Nat} (hN : 2 ≤ N) (hself : self < N) :
    ∀ {k d j : Nat}, d < N → d ≠ self → j ∈ peerRound N self k d → j < N ∧ j ≠ self
  | 0, _, _, _, _, hj => by simp [peerRound] at hj
  | k + 1, d, j, hd, hds, hj => by
    rcases List.mem_cons.1 hj with rfl | hj
    · exact ⟨hd, hds⟩
    · exact mem_peerRound hN hself (nextPeer_lt (by omega) d) (nextPeer_ne hN hself d) hj

/-! ## What can go wrong -/

/-- `ReDistributeHash` fails only when `1 << numWorkers` overflows. -/
theorem indexSendWorker_error {D : Type} {hts : Nat} {rd : ReDistributeSetup D} {r : ChildRow D hts} {e : String}
    (h : indexSendWorker rd r = .error e) : e = "ReDistributeHash: 1 << numWorkers overflows int" := by
  unfold indexSendWorker reDistributeHash at h
  split at h
  · cases h
  · split at h
    · cases h
      rfl
    · cases h

/-- A send fails only on a data type that differs from the ring's or the file's. -/
theorem reDistributeSend_error {c : ReDistributeChannel} {t : ReDistributeDataType} {data : List UInt8}
    {e : String} (h : reDistributeSend c t data = .error e) :
    e = "mismatch data type in same buffer." ∨ e = "mismatch data type in same bufFile." := by
  unfold reDistributeSend at h
  split at h <;> (try split at h) <;> (try split at h) <;> cases h
  · exact .inl rfl
  · exact .inr rfl

/-- Reading back a record the exchange wrote: the check of the `palloc0(nread)`
buffer, the check for an empty record, then the same `switch` as after a ring
read. -/
theorem getReDistributeFileData_frame_eq {hts : Nat} {dt : ReDistributeDataType} {m rest : List UInt8}
    (hlen : m.length < 2 ^ 32) :
    getReDistributeFileData dt hts (frame m ++ rest) =
      if dt ≠ .dataRow ∧ 4 < m.length then
        .error "BufFileRead writes dataLen bytes into a buffer of palloc0(nread) bytes."
      else if m = [] then
        .error (if rest = [] then "no data in bufFile while reading data."
          else "GetReDistributeData: goto READ_DATA reads 0 bytes forever.")
      else (reDistributeStore hts dt m.length m).map fun _ => (some m, rest) := by
  simp only [getReDistributeFileData, bufFileRead_frame, bytesInt_intBytes hlen, bufFileRead_append,
    length_intBytes, OfNat.ofNat_ne_zero, if_false, ne_eq, not_true_eq_false, List.length_eq_zero]
  by_cases hm : m = [] <;> by_cases h4 : 4 < m.length <;> cases dt <;>
    simp [hm, h4, reDistributeStore] <;> (try split) <;> rfl

/-- A record that reads back at all reads back as itself, the file left at the
next record. -/
theorem getReDistributeFileData_frame {hts : Nat} {dt : ReDistributeDataType} {m rest : List UInt8}
    (hlen : m.length < 2 ^ 32) {r : Option (List UInt8) × List UInt8}
    (h : getReDistributeFileData dt hts (frame m ++ rest) = .ok r) : r = (some m, rest) := by
  rw [getReDistributeFileData_frame_eq hlen] at h
  split_ifs at h
  cases hs : reDistributeStore hts dt m.length m <;> rw [hs] at h <;> cases h
  rfl

/-- A record the exchange wrote passes the `switch` when read back: what can go
wrong is the read, never the bookkeeping. -/
theorem getReDistributeFileData_frame_error {hts : Nat} {dt : ReDistributeDataType} {m rest : List UInt8}
    {e : String} (hok : StoreOk hts dt m) (hlen : m.length < 2 ^ 32)
    (h : getReDistributeFileData dt hts (frame m ++ rest) = .error e) : bookkeepingError e = false := by
  rw [getReDistributeFileData_frame_eq hlen, hok] at h
  split_ifs at h <;> cases h <;> simp [bookkeepingError, List.isPrefixOf]

section Inv

variable {D : Type} {hts : Nat} (rd : ReDistributeSetup D)

theorem routedTo_cons (w : Nat) (r : ChildRow D hts) (rest : List (ChildRow D hts)) :
    ((routedTo rd w (r :: rest) : List Message) : Multiset Message) =
      ↑(routedTo rd w [r] : List Message) + ↑(routedTo rd w rest : List Message) := by
  rw [Multiset.coe_add]
  congr 1
  simp only [routedTo, List.filter_cons, List.filter_nil]
  split <;> rfl

theorem routedTo_single {w d : Nat} {r : ChildRow D hts} (hr : indexSendWorker rd r = .ok d) :
    routedTo rd w [r] = if d = w then [r.slot.message] else [] := by
  simp only [routedTo, routesTo, List.filter_cons, List.filter_nil, hr]
  by_cases hd : d = w <;> simp [hd]

/-- What is owed to worker `w`: the rows it has fed, the messages in the rings
to it, the records of the files to it it has not merged yet, the records left
in its merged file, and the rows still in every child that route to it. -/
def owed (s : ParallelAgg D hts) (V : ExchangeViews) (w : Nat) : Multiset Message :=
  ((s.workers w).fed : Multiset Message)
  + ∑ j in range rd.numWorkers, (s.chan j w).ringMsgs (V.ring j w)
  + ∑ j in range rd.numWorkers,
      (if (s.workers w).phase.merges rd.numWorkers j then 0 else (s.chan j w).fileMsgs (V.file j w))
  + (((V.merged w).map ((s.workers w).phase.dataType, ·) : List Message) : Multiset Message)
  + ∑ i in range rd.numWorkers, ((routedTo rd w (s.workers i).input : List Message) : Multiset Message)

/-- The invariant of the redistribution, for the children's rows `inputs0`. -/
structure ExchangeInv (inputs0 : Nat → List (ChildRow D hts)) (s : ParallelAgg D hts) (V : ExchangeViews) :
    Prop where
  chan : ∀ j w, ChanHolds hts rd.bufferSize (s.chan j w) (V.ring j w) (V.file j w)
  self_ring : ∀ w, V.ring w w = []
  self_file : ∀ w, V.file w w = []
  worker : ∀ w, WorkerHolds hts rd.numWorkers w (s.workers w) (V.merged w)
  past : ∀ w j, j < rd.numWorkers → j ≠ w → (s.workers w).phase.merges rd.numWorkers j = true →
    (s.workers j).phase ≠ .producing ∧ (s.workers j).input = []
  drained : ∀ w j, j ≠ w → (s.workers w).phase.drainedPast rd.numWorkers j = true → V.ring j w = []
  counted : ∀ w j, (s.workers w).phase.counted rd.numWorkers j = true →
    (s.workers j).phase.finishedReading = true ∧ ∀ k < rd.numWorkers, V.ring k j = []
  conserve : ∀ w < rd.numWorkers, (s.workers w).phase.isFailed = false →
    owed rd s V w = ∑ i in range rd.numWorkers, ((routedTo rd w (inputs0 i) : List Message) : Multiset Message)
  failed_ok : ∀ w msg, (s.workers w).phase = .failed msg → bookkeepingError msg = false

theorem exchangeInv_initial (inputs : Nat → List (ChildRow D hts)) (mem : Nat → Nat → Nat → UInt8)
    (hpos : 0 < rd.bufferSize) (hlt : rd.bufferSize < 2 ^ 31) :
    ExchangeInv rd inputs (ParallelAgg.initial rd inputs mem) .empty where
  chan _ _ := ⟨show RingHolds ⟨_, 0, 0, _⟩ [] from ⟨hlt, hpos, by simpa, by simp, rfl⟩, rfl,
    by simp [ExchangeViews.empty], rfl, by simp [ExchangeViews.empty]⟩
  self_ring _ := rfl
  self_file _ := rfl
  worker _ := ⟨rfl, by simp [ExchangeViews.empty], trivial, fun h => absurd rfl h⟩
  past _ _ _ _ h := by simp [ParallelAgg.initial, WorkerPhase.merges] at h
  drained _ _ _ h := by simp [ParallelAgg.initial, WorkerPhase.drainedPast] at h
  counted _ _ h := by simp [ParallelAgg.initial, WorkerPhase.counted] at h
  conserve _ _ _ := by
    simp [owed, ParallelAgg.initial, ExchangeViews.empty, ReDistributeChannel.ringMsgs,
      ReDistributeChannel.fileMsgs]
  failed_ok _ _ h := by cases h

end Inv

/-! ## A step of one worker's own state -/

section Step

variable {D : Type} {hts : Nat} {rd : ReDistributeSetup D} {inputs0 : Nat → List (ChildRow D hts)}
  {s : ParallelAgg D hts} {V : ExchangeViews} {self : Nat}

omit rd in
/-- A worker update that leaves the input alone leaves every other worker's input alone. -/
theorem setWorker_input {p : ParallelWorker D hts} (hinput : p.input = (s.workers self).input) (i : Nat) :
    (if i = self then p else s.workers i).input = (s.workers i).input := by
  split <;> simp_all

/-- A worker update that leaves the input alone owes every other worker the same. -/
theorem owed_setWorker_of_ne {p : ParallelWorker D hts} (M : List (List UInt8))
    (hinput : p.input = (s.workers self).input) {w : Nat} (hw : w ≠ self) :
    owed rd (s.setWorker self p) (V.setMerged self M) w = owed rd s V w := by
  simp only [owed, ParallelAgg.setWorker_workers, setWorker_input hinput, ParallelAgg.setWorker_chan,
    ExchangeViews.setMerged_ring, ExchangeViews.setMerged_file, ExchangeViews.setMerged_merged, if_neg hw]

/-- An update of worker `self`'s own state (phase, fed rows, merged records)
keeps the invariant when the new state is consistent on its own, counts only
on what the old invariant gives, and does not go back on what its peers count
on. -/
theorem ExchangeInv.setWorker (h : ExchangeInv rd inputs0 s V) (p : ParallelWorker D hts) (M : List (List UInt8))
    (hinput : p.input = (s.workers self).input) (hw : WorkerHolds hts rd.numWorkers self p M)
    (hpast : ∀ j < rd.numWorkers, j ≠ self → p.phase.merges rd.numWorkers j = true →
      (s.workers j).phase ≠ .producing ∧ (s.workers j).input = [])
    (hprod : (s.workers self).phase ≠ .producing → p.phase ≠ .producing)
    (hdrained : ∀ j, j ≠ self → p.phase.drainedPast rd.numWorkers j = true → V.ring j self = [])
    (hcounted : ∀ j, p.phase.counted rd.numWorkers j = true →
      (if j = self then p else s.workers j).phase.finishedReading = true ∧
        ∀ k < rd.numWorkers, V.ring k j = [])
    (hfin : (s.workers self).phase.finishedReading = true → p.phase.finishedReading = true)
    (hconserve : p.phase.isFailed = false → (s.workers self).phase.isFailed = false ∧
      owed rd (s.setWorker self p) (V.setMerged self M) self = owed rd s V self)
    (hmsg : ∀ msg, p.phase = .failed msg → bookkeepingError msg = false) :
    ExchangeInv rd inputs0 (s.setWorker self p) (V.setMerged self M) where
  chan j w := by simpa using h.chan j w
  self_ring := h.self_ring
  self_file := h.self_file
  worker w := by
    by_cases hw' : w = self
    · subst hw'
      simpa using hw
    · simpa [hw'] using h.worker w
  past w j hj hjw hm := by
    by_cases hw' : w = self
    · subst hw'
      simp only [ParallelAgg.setWorker_workers, if_neg hjw, if_true] at hm ⊢
      exact hpast j hj hjw hm
    · simp only [ParallelAgg.setWorker_workers, if_neg hw'] at hm ⊢
      obtain ⟨h1, h2⟩ := h.past w j hj hjw hm
      split
      · subst j
        exact ⟨hprod h1, hinput ▸ h2⟩
      · exact ⟨h1, h2⟩
  drained w j hjw hd := by
    by_cases hw' : w = self
    · subst hw'
      simp only [ParallelAgg.setWorker_workers, if_true] at hd
      simpa using hdrained j hjw hd
    · simp only [ParallelAgg.setWorker_workers, if_neg hw'] at hd
      simpa using h.drained w j hjw hd
  counted w j hc := by
    by_cases hw' : w = self
    · subst hw'
      simp only [ParallelAgg.setWorker_workers, if_true] at hc ⊢
      simpa using hcounted j hc
    · simp only [ParallelAgg.setWorker_workers, if_neg hw'] at hc ⊢
      obtain ⟨h1, h2⟩ := h.counted w j hc
      refine ⟨?_, by simpa using h2⟩
      split
      · subst j
        exact hfin h1
      · exact h1
  conserve w hw' hf := by
    by_cases hws : w = self
    · subst hws
      simp only [ParallelAgg.setWorker_workers, if_true] at hf
      obtain ⟨hf', heq⟩ := hconserve hf
      rw [heq, h.conserve w hw' hf']
    · simp only [ParallelAgg.setWorker_workers, if_neg hws] at hf
      rw [owed_setWorker_of_ne M hinput hws, h.conserve w hw' hf]
  failed_ok w msg hf := by
    by_cases hws : w = self
    · subst hws
      simp only [ParallelAgg.setWorker_workers, if_true] at hf
      exact hmsg msg hf
    · simp only [ParallelAgg.setWorker_workers, if_neg hws] at hf
      exact h.failed_ok w msg hf

/-- A worker that raises an error other than a bookkeeping one keeps the
invariant: nothing is owed to it any more, and its peers count on nothing it
held. -/
theorem ExchangeInv.fail (h : ExchangeInv rd inputs0 s V) {e : String} (he : bookkeepingError e = false) :
    ExchangeInv rd inputs0 (s.fail self e) (V.setMerged self []) :=
  h.setWorker _ [] rfl ⟨rfl, by simp, trivial, fun _ hf => by cases hf⟩
    (fun _ _ _ hm => by cases hm) (fun _ => by simp) (fun _ _ hd => by cases hd) (fun _ hc => by cases hc)
    (fun _ => rfl) (fun hf => by cases hf) fun _ hm => by cases hm; exact he

/-- `ReDistributeShareBufFile` and the start of `GetReDistributeBufFile`:
`ProduceDone`, with only the worker's own flag in `merged[]`. -/
theorem ExchangeInv.produceDone (h : ExchangeInv rd inputs0 s V) (hself : self < rd.numWorkers)
    (hp : (s.workers self).phase = .producing) (hin : (s.workers self).input = []) :
    ExchangeInv rd inputs0 (s.setPhase self (.merging 0 1 ((List.replicate rd.numWorkers false).set self true)
      .none none)) (V.setMerged self (V.merged self)) := by
  have hM : V.merged self = [] := flatten_frames_eq_nil.1 (by rw [← (h.worker self).merged, hp]; rfl)
  -- `merged[]` marks the worker itself only
  have hmerged : ∀ j, ((List.replicate rd.numWorkers false).set self true).getD j false = decide (j = self) := by
    intro j
    rw [List.getD_eq_getElem?_getD, List.getElem?_set]
    by_cases hj : self = j
    · subst hj
      simp [hself]
    · simp [hj, List.getElem?_replicate, Ne.symm hj]
      split <;> simp
  refine h.setWorker _ _ rfl ⟨by simp [WorkerPhase.mergedFile, hM], by simp [hM], ?_, fun _ _ => hin⟩
    (fun j _ hj hm => absurd (by simpa only [WorkerPhase.merges, hmerged, decide_eq_true_eq] using hm) hj)
    (fun h' => absurd hp h')
    (fun _ _ hd => by cases hd) (fun _ hc => by cases hc) (fun hf => by simp [hp, WorkerPhase.finishedReading] at hf)
    (fun _ => ⟨by simp [hp, WorkerPhase.isFailed], ?_⟩) fun _ hm => by cases hm
  · refine ⟨by omega, by simp, by simpa using hmerged self, ?_⟩
    rw [List.count_set _ _ _ _ (by simpa), List.count_replicate]
    simp
  · -- only the worker's own file, which is empty, counts as merged
    have hfile : ∀ j, (if ((List.replicate rd.numWorkers false).set self true).getD j false = true then 0
        else (s.chan j self).fileMsgs (V.file j self)) = (s.chan j self).fileMsgs (V.file j self) := by
      intro j
      simp only [hmerged]
      by_cases hj : j = self
      · subst hj
        simp [h.self_file, ReDistributeChannel.fileMsgs]
      · simp [hj]
    simp only [owed, ParallelAgg.setWorker_workers, if_true, ParallelAgg.setWorker_chan, setWorker_input,
      WorkerPhase.merges, hfile, ExchangeViews.setMerged_ring, ExchangeViews.setMerged_file, ExchangeViews.setMerged_merged, hp,
      WorkerPhase.dataType, Bool.false_eq_true, if_false]

/-- A change of phase that merges the same files, reads the same merged file
and counts on no more than the invariant gives keeps the invariant. -/
theorem ExchangeInv.setPhase_of_merges_eq (h : ExchangeInv rd inputs0 s V) {p : WorkerPhase}
    (hok : p.Ok rd.numWorkers self) (hmerges : ∀ j, p.merges rd.numWorkers j = (s.workers self).phase.merges rd.numWorkers j)
    (hfile : p.mergedFile = (s.workers self).phase.mergedFile) (hdt : p.dataType = (s.workers self).phase.dataType)
    (hprod : p ≠ .producing) (hold : (s.workers self).phase ≠ .producing)
    (hfailed' : (s.workers self).phase.isFailed = false)
    (hdrained : ∀ j, j ≠ self → p.drainedPast rd.numWorkers j = true → V.ring j self = [])
    (hcounted : ∀ j, p.counted rd.numWorkers j = true →
      (if j = self then p else (s.workers j).phase).finishedReading = true ∧ ∀ k < rd.numWorkers, V.ring k j = [])
    (hfin : (s.workers self).phase.finishedReading = true → p.finishedReading = true)
    (hnf : p.isFailed = false) :
    ExchangeInv rd inputs0 (s.setPhase self p) V := by
  have hw := h.worker self
  have h' := h.setWorker { s.workers self with phase := p } (V.merged self) rfl
    ⟨by simpa [hfile] using hw.merged, by simpa [hdt] using hw.merged_ok, hok,
      fun _ _ => hw.input_nil hold hfailed'⟩
    (fun j hj hjs hm => h.past self j hj hjs (by rwa [← hmerges])) (fun _ => hprod) hdrained
    (fun j hc => by simpa [apply_ite] using hcounted j hc) hfin (fun _ => ⟨hfailed', ?_⟩)
    fun msg hm => by simp only at hm; simp [hm, WorkerPhase.isFailed] at hnf
  · simpa using h'
  · simp only [owed, ParallelAgg.setWorker_workers, if_true, ParallelAgg.setWorker_chan, setWorker_input, hmerges,
      hdt, ExchangeViews.setMerged_self]

/-- `GetReDistributeBufFile` moves on to the next peer without merging. -/
theorem ExchangeInv.mergeSkip (h : ExchangeInv rd inputs0 s V) (hN : 0 < rd.numWorkers) {i nMerged : Nat}
    {merged : List Bool} {dt : ReDistributeDataType} {file : Option (List UInt8)}
    (hp : (s.workers self).phase = .merging i nMerged merged dt file) :
    ExchangeInv rd inputs0 (s.setPhase self (.merging ((i + 1) % rd.numWorkers) nMerged merged dt file)) V := by
  have hok := (h.worker self).phase_ok
  rw [hp] at hok
  exact h.setPhase_of_merges_eq ⟨Nat.mod_lt _ hN, hok.2⟩ (fun j => by rw [hp]; rfl) (by rw [hp]; rfl)
    (by rw [hp]; rfl) (by simp) (by simp [hp]) (by simp [hp, WorkerPhase.isFailed]) (fun _ _ hd => by cases hd)
    (fun _ hc => by cases hc) (fun hf => by simp [hp, WorkerPhase.finishedReading] at hf) rfl

/-- `GetReDistributeBufFile` merges peer `i`'s file for the worker, if the peer
wrote one: the records move from the peer's file into the merged one. -/
theorem ExchangeInv.mergePeer (h : ExchangeInv rd inputs0 s V) (hN : 0 < rd.numWorkers) {i nMerged : Nat}
    {merged : List Bool} {dt dt' : ReDistributeDataType} {file file' : Option (List UInt8)}
    (hp : (s.workers self).phase = .merging i nMerged merged dt file) (hi : i ≠ self)
    (hdone : ReDistributeStatus.produceDone.toNat ≤ (s.workers i).phase.status.toNat)
    (hm : merged.getD i false = false)
    (hcases : ((s.chan i self).bufFile = none ∧ dt' = dt ∧ file' = file) ∨
      (∃ t, (s.chan i self).bufFile = some t ∧ (dt = .none ∨ dt = t) ∧ dt' = t ∧
        file' = some (file.getD [] ++ (s.chan i self).file))) :
    ExchangeInv rd inputs0
      (s.setPhase self (.merging ((i + 1) % rd.numWorkers) (nMerged + 1) (merged.set i true) dt' file'))
      (V.setMerged self (V.merged self ++ V.file i self)) := by
  have hw := h.worker self
  have hc := h.chan i self
  obtain ⟨hiN, hlen, hmself, hcount⟩ : i < rd.numWorkers ∧ merged.length = rd.numWorkers ∧
      merged.getD self false = true ∧ nMerged = merged.count true := by
    have := hw.phase_ok
    rwa [hp] at this
  have hwm : file.getD [] = (V.merged self |>.map frame).flatten := by
    have := hw.merged
    rwa [hp] at this
  have hwok : ∀ m ∈ V.merged self, m.length < 2 ^ 31 ∧ StoreOk hts dt m := by
    have := hw.merged_ok
    rwa [hp] at this
  have hiL : i < merged.length := hlen ▸ hiN
  have hmi : merged[i] = false := by
    simpa [List.getD_eq_getElem?_getD, List.getElem?_eq_getElem hiL] using hm
  have hset : ∀ j, j ≠ i → (merged.set i true).getD j false = merged.getD j false := fun j hj => by
    simp [List.getD_eq_getElem?_getD, List.getElem?_set, Ne.symm hj]
  have hcount : (merged.set i true).count true = nMerged + 1 := by
    rw [List.count_set _ _ _ _ (hlen ▸ hiN), hmi, hcount]
    rfl
  -- the records already merged have the new data type, and so have the peer's
  obtain ⟨hFmsgs, hMmsgs, hfile', hFok, hMok⟩ : (s.chan i self).fileMsgs (V.file i self) =
        (((V.file i self).map (dt', ·) : List Message) : Multiset Message) ∧
      (((V.merged self).map (dt, ·) : List Message) : Multiset Message) =
        (((V.merged self).map (dt', ·) : List Message) : Multiset Message) ∧
      file'.getD [] = ((V.merged self ++ V.file i self).map frame).flatten ∧
      (∀ m ∈ V.file i self, m.length < 2 ^ 31 ∧ StoreOk hts dt' m) ∧
      (∀ m ∈ V.merged self, m.length < 2 ^ 31 ∧ StoreOk hts dt' m) := by
    rcases hcases with ⟨hb, rfl, rfl⟩ | ⟨t, hb, hdt, rfl, rfl⟩
    · have hF : V.file i self = [] := List.eq_nil_iff_forall_not_mem.2 fun m hm' => by
        obtain ⟨_, _, hb', _⟩ := hc.file_ok m hm'
        rw [hb] at hb'
        cases hb'
      exact ⟨by simp [hF, ReDistributeChannel.fileMsgs], rfl, by simp [hF, hwm], by simp [hF], hwok⟩
    · have hMdt : ∀ m ∈ V.merged self, dt = dt' := fun m hm' => hdt.resolve_left fun h0 => by
        have := (hwok m hm').2
        rw [h0] at this
        cases this
      refine ⟨by simp [ReDistributeChannel.fileMsgs, hb], by
          congr 1
          exact List.map_congr_left fun m hm' => by rw [hMdt m hm'], by simp [hwm, hc.file], fun m hm' => ?_,
        fun m hm' => by simpa [← hMdt m hm'] using hwok m hm'⟩
      obtain ⟨hl, t', hb', hok⟩ := hc.file_ok m hm'
      rw [hb] at hb'
      cases hb'
      exact ⟨hl, hok⟩
  refine h.setWorker _ _ rfl ⟨hfile', fun m hm' => ?_, ⟨Nat.mod_lt _ hN, by simp [hlen], by
      rw [hset self (Ne.symm hi)]; exact hmself, hcount.symm⟩, fun _ _ => (h.worker self).input_nil (by simp [hp])
      (by simp [hp, WorkerPhase.isFailed])⟩
    (fun j hj hjs hmj => ?_) (fun _ => by simp) (fun _ _ hd => by cases hd) (fun _ hc' => by cases hc')
    (fun hf => by simp [hp, WorkerPhase.finishedReading] at hf)
    (fun _ => ⟨by simp [hp, WorkerPhase.isFailed], ?_⟩) fun _ hm => by cases hm
  · rcases List.mem_append.1 hm' with hm' | hm'
    · exact hMok m hm'
    · exact hFok m hm'
  · by_cases hji : j = i
    · subst hji
      have := WorkerPhase.of_produceDone_le hdone
      exact ⟨this.1, (h.worker j).input_nil this.1 this.2⟩
    · simp only [WorkerPhase.merges, hset j hji] at hmj
      exact h.past self j hj hjs (by rw [hp]; exact hmj)
  · -- the peer's records leave the unmerged files and join the merged file
    have hsum := sum_range_add_eq (f := fun j => if (merged.set i true).getD j false = true then 0
        else (s.chan j self).fileMsgs (V.file j self))
      (g := fun j => if merged.getD j false = true then 0 else (s.chan j self).fileMsgs (V.file j self)) hiN
      fun j hj => by simp only [hset j hj]
    simp only [hm, List.getD_eq_getElem?_getD, List.getElem?_set_self (hlen ▸ hiN), Option.getD_some, if_true,
      Bool.false_eq_true, if_false, add_zero] at hsum
    simp only [owed, ParallelAgg.setWorker_workers, if_true, ParallelAgg.setWorker_chan, setWorker_input,
      ExchangeViews.setMerged_ring, ExchangeViews.setMerged_file, ExchangeViews.setMerged_merged, hp,
      WorkerPhase.merges, WorkerPhase.dataType, List.map_append, ← Multiset.coe_add, hMmsgs, ← hFmsgs]
    simp only [List.getD_eq_getElem?_getD] at hsum ⊢
    rw [← hsum]
    abel

/-- Once `nMerged` reaches `N`, every peer's file is merged, and
`GetReDistributeBufFile` returns the merged file. -/
theorem ExchangeInv.mergeDone (h : ExchangeInv rd inputs0 s V) {i nMerged : Nat} {merged : List Bool}
    {dt : ReDistributeDataType} {file : Option (List UInt8)}
    (hp : (s.workers self).phase = .merging i nMerged merged dt file) (hn : ¬ nMerged < rd.numWorkers) :
    ExchangeInv rd inputs0 (s.setPhase self (.draining 0 dt file)) V := by
  obtain ⟨-, hlen, -, hcount⟩ : i < rd.numWorkers ∧ merged.length = rd.numWorkers ∧
      merged.getD self false = true ∧ nMerged = merged.count true := by
    have := (h.worker self).phase_ok
    rwa [hp] at this
  -- `nMerged` flags set among `N`: all of them
  have hall : ∀ b ∈ merged, true = b :=
    List.count_eq_length.1 (Nat.le_antisymm (List.count_le_length _ _) (by omega))
  refine h.setPhase_of_merges_eq (Nat.zero_le _) (fun j => ?_) (by rw [hp]; rfl) (by rw [hp]; rfl) (by simp)
    (by simp [hp]) (by simp [hp, WorkerPhase.isFailed]) (fun _ _ hd => by simp [WorkerPhase.drainedPast] at hd)
    (fun _ hc => by cases hc) (fun hf => by simp [hp, WorkerPhase.finishedReading] at hf) rfl
  rw [hp]
  simp only [WorkerPhase.merges, List.getD_eq_getElem?_getD]
  by_cases hj : j < rd.numWorkers
  · rw [List.getElem?_eq_getElem (hlen ▸ hj), Option.getD_some, ← hall _ (List.getElem_mem _)]
    simp [hj]
  · rw [List.getElem?_eq_none (by omega)]
    simp [hj]

/-- One turn of `GetReDistributeBufFile`'s loop keeps the invariant. -/
theorem ExchangeInv.getReDistributeBufFileStep (h : ExchangeInv rd inputs0 s V) (hN : 0 < rd.numWorkers)
    {i nMerged : Nat} {merged : List Bool} {dt : ReDistributeDataType} {file : Option (List UInt8)}
    (hp : (s.workers self).phase = .merging i nMerged merged dt file) :
    ∃ V', ExchangeInv rd inputs0 (getReDistributeBufFileStep rd s self i nMerged merged dt file) V' := by
  unfold NodeAgg.getReDistributeBufFileStep
  dsimp only
  split_ifs with hn hi hst
  · split
    · exact ⟨_, h.mergePeer hN hp hi hst.1 hst.2 (.inl ⟨‹_›, rfl, rfl⟩)⟩
    · rename_i t _
      split_ifs with hdt
      · exact ⟨_, h.fail (by simp [bookkeepingError, List.isPrefixOf])⟩
      · refine ⟨_, h.mergePeer hN hp hi hst.1 hst.2 (.inr ⟨t, ‹_›, ?_, rfl, rfl⟩)⟩
        by_cases h0 : dt = .none
        · exact .inl h0
        · exact .inr (by simpa [h0] using hdt)
  · exact ⟨_, h.fail (by simp [peerErrorMessage, bookkeepingError, List.isPrefixOf])⟩
  · exact ⟨_, h.mergeSkip hN hp⟩
  · exact ⟨_, h.mergeSkip hN hp⟩
  · exact ⟨_, h.mergeDone hp hn⟩

/-- Taking the oldest message from a ring to the worker and feeding it: the
`switch` accepts it, and it moves from the ring to the rows fed. -/
theorem ExchangeInv.take (h : ExchangeInv rd inputs0 s V) {j : Nat} (hj : j < rd.numWorkers) (hjs : j ≠ self)
    {m : List UInt8} {q : List (List UInt8)} (hq : V.ring j self = m :: q) :
    ringRow hts (s.chan j self) = .ok ((s.chan j self).bufType, m) ∧
      ExchangeInv rd inputs0 ((s.setChan j self (s.chan j self).taken).feed self ((s.chan j self).bufType, m))
        (V.setRing j self q) := by
  have hc := h.chan j self
  rw [hq] at hc
  obtain ⟨hrow, hch, hring, hfile⟩ := hc.take
  -- nobody had passed the ring or counted on it: it was not empty
  have hnd : (s.workers self).phase.drainedPast rd.numWorkers j = false := by
    by_contra hd
    simpa [hq] using h.drained self j hjs (by simpa using hd)
  refine ⟨hrow, ⟨fun a b => ?_, fun a => ?_, h.self_file, fun w => ?_, fun w k hk hkw hm => ?_,
    fun w k hkw hd => ?_, fun w k hck => ?_, fun w hw hf => ?_,
    fun w msg hf => h.failed_ok w msg (by simpa using hf)⟩⟩
  · by_cases hab : a = j ∧ b = self
    · obtain ⟨rfl, rfl⟩ := hab
      simpa [ParallelAgg.feed] using hch
    · simpa [ParallelAgg.feed, hab] using h.chan a b
  · have : ¬(a = j ∧ a = self) := fun ⟨h1, h2⟩ => hjs (h1 ▸ h2)
    simp [this, h.self_ring a]
  · exact (h.worker w).congr (by simp) (by simp)
  · simpa using h.past w k hk hkw (by simpa using hm)
  · simp only [ParallelAgg.feed_phase, ParallelAgg.setChan_workers] at hd
    simp only [ExchangeViews.setRing_ring]
    split
    · obtain ⟨rfl, rfl⟩ := ‹k = j ∧ w = self›
      simp [hnd] at hd
    · exact h.drained w k hkw hd
  · simp only [ParallelAgg.feed_phase, ParallelAgg.setChan_workers] at hck ⊢
    obtain ⟨h1, h2⟩ := h.counted w k hck
    refine ⟨h1, fun k' hk' => ?_⟩
    simp only [ExchangeViews.setRing_ring]
    split
    · obtain ⟨rfl, rfl⟩ := ‹k' = j ∧ k = self›
      simp [h2 k' hk'] at hq
    · exact h2 k' hk'
  · simp only [ParallelAgg.feed, ParallelAgg.setWorker_workers, ParallelAgg.setChan_workers] at hf
    by_cases hws : w = self
    · subst hws
      simp only [if_true] at hf
      rw [← h.conserve w hw hf]
      -- the message leaves ring `j` for the rows fed
      have hsum := sum_range_add_eq (f := fun k => ((s.setChan j w (s.chan j w).taken).chan k w).ringMsgs
          ((V.setRing j w q).ring k w)) (g := fun k => (s.chan k w).ringMsgs (V.ring k w)) hj
        fun k hk => by simp [hk]
      have hfj : ((s.setChan j w (s.chan j w).taken).chan j w).ringMsgs ((V.setRing j w q).ring j w) =
          (s.chan j w).taken.ringMsgs q := by simp
      simp only [hfj, hq, hring] at hsum
      have hsum' : ∑ k in range rd.numWorkers, ((s.setChan j w (s.chan j w).taken).chan k w).ringMsgs
          ((V.setRing j w q).ring k w) + {((s.chan j w).bufType, m)} =
          ∑ k in range rd.numWorkers, (s.chan k w).ringMsgs (V.ring k w) :=
        add_right_cancel (b := (s.chan j w).taken.ringMsgs q) (by rw [← hsum]; abel)
      have hfiles : ∀ k, (if (s.workers w).phase.merges rd.numWorkers k = true then 0 else
          ((s.setChan j w (s.chan j w).taken).chan k w).fileMsgs ((V.setRing j w q).file k w)) =
          (if (s.workers w).phase.merges rd.numWorkers k = true then 0 else (s.chan k w).fileMsgs (V.file k w)) := by
        intro k
        by_cases hk : k = j
        · subst hk
          simp [hfile]
        · simp [hk]
      simp only [owed, ParallelAgg.feed, ParallelAgg.setWorker_workers, ParallelAgg.setChan_workers, if_true,
        ParallelAgg.setWorker_chan, setWorker_input, hfiles, ExchangeViews.setRing_merged, coe_append_singleton]
      rw [← hsum']
      abel
    · simp only [if_neg hws] at hf
      rw [← h.conserve w hw hf]
      simp [owed, hws]

/-- Past its rings, a draining worker has every ring to it empty. -/
theorem ExchangeInv.rings_empty (h : ExchangeInv rd inputs0 s V) {index : Nat} {dt : ReDistributeDataType}
    {file : Option (List UInt8)} (hp : (s.workers self).phase = .draining index dt file) {j : Nat}
    (hafter : ∀ k, index ≤ k → k < j → k ≠ self → (s.chan k self).buf.head = (s.chan k self).buf.tail) :
    ∀ k, k < j → k ≠ self → V.ring k self = [] := fun k hk hks => by
  by_cases hki : k < index
  · exact h.drained self k hks (by simp [hp, WorkerPhase.drainedPast, hki])
  · exact (h.chan k self).ring.head_eq_tail.1 (hafter k (by omega) hk hks)

/-- `GetReDistributeData` moves past its rings, to the merged file or to the
wait for `ConsumeDone`, once the rings before `j` are empty. -/
theorem ExchangeInv.drainTo (h : ExchangeInv rd inputs0 s V) {index j : Nat} {dt : ReDistributeDataType}
    {file : Option (List UInt8)} (hp : (s.workers self).phase = .draining index dt file) (hj : j ≤ rd.numWorkers)
    (hempty : ∀ k, k < j → k ≠ self → V.ring k self = []) :
    ExchangeInv rd inputs0 (s.setPhase self (.draining j dt file)) V :=
  h.setPhase_of_merges_eq hj (fun _ => by rw [hp]; rfl) (by rw [hp]; rfl) (by rw [hp]; rfl) (by simp) (by simp [hp])
    (by simp [hp, WorkerPhase.isFailed]) (fun k hks hd => hempty k (by simpa [WorkerPhase.drainedPast] using hd) hks)
    (fun _ hc => by cases hc) (fun hf => by simp [hp, WorkerPhase.finishedReading] at hf) rfl

/-- With the rings and the merged file empty, `GetReDistributeData` sets
`ConsumeDone` and starts waiting. -/
theorem ExchangeInv.consumeDone (h : ExchangeInv rd inputs0 s V) {index : Nat} {dt : ReDistributeDataType}
    {file : Option (List UInt8)} (hp : (s.workers self).phase = .draining index dt file)
    (hempty : ∀ k, k < rd.numWorkers → k ≠ self → V.ring k self = []) (hM : V.merged self = []) :
    ExchangeInv rd inputs0 (s.setPhase self (.consumeWait 0)) (V.setMerged self []) := by
  have hw := h.worker self
  refine h.setWorker _ [] rfl ⟨rfl, by simp, trivial, fun _ _ => hw.input_nil (by simp [hp])
      (by simp [hp, WorkerPhase.isFailed])⟩
    (fun j hj hjs hm => h.past self j hj hjs (by simpa [hp, WorkerPhase.merges] using hm)) (fun _ => by simp)
    (fun k hks hd => hempty k (by simpa [WorkerPhase.drainedPast] using hd) hks)
    (fun _ hc => by simp [WorkerPhase.counted] at hc) (fun _ => rfl)
    (fun _ => ⟨by simp [hp, WorkerPhase.isFailed], ?_⟩) fun _ hm => by cases hm
  simp only [owed, ParallelAgg.setWorker_workers, if_true, ParallelAgg.setWorker_chan, setWorker_input,
    ExchangeViews.setMerged_ring, ExchangeViews.setMerged_file, ExchangeViews.setMerged_merged, hp, hM,
    WorkerPhase.merges, List.map_nil]

/-- `GetReDistributeData` reads the next record of the merged file and feeds it. -/
theorem ExchangeInv.readRecord (h : ExchangeInv rd inputs0 s V) {index : Nat} {dt : ReDistributeDataType}
    {file : Option (List UInt8)} (hp : (s.workers self).phase = .draining index dt file)
    (hempty : ∀ k, k < rd.numWorkers → k ≠ self → V.ring k self = []) {m : List UInt8} {M : List (List UInt8)}
    (hM : V.merged self = m :: M) :
    ExchangeInv rd inputs0 ((s.setPhase self (.draining rd.numWorkers dt (some (M.map frame).flatten))).feed self
      (dt, m)) (V.setMerged self M) := by
  have hw := h.worker self
  have hok : ∀ m' ∈ V.merged self, m'.length < 2 ^ 31 ∧ StoreOk hts dt m' := by
    have := hw.merged_ok
    rwa [hp] at this
  rw [hM] at hok
  rw [ParallelAgg.setPhase_feed]
  refine h.setWorker _ M rfl ⟨rfl, fun m' hm' => hok m' (List.mem_cons_of_mem _ hm'), le_rfl,
      fun _ _ => hw.input_nil (by simp [hp]) (by simp [hp, WorkerPhase.isFailed])⟩
    (fun j hj hjs hm => h.past self j hj hjs (by simpa [hp, WorkerPhase.merges] using hm)) (fun _ => by simp)
    (fun k hks hd => hempty k (by simpa [WorkerPhase.drainedPast] using hd) hks)
    (fun _ hc => by cases hc) (fun hf => by simp [hp, WorkerPhase.finishedReading] at hf)
    (fun _ => ⟨by simp [hp, WorkerPhase.isFailed], ?_⟩) fun _ hm => by cases hm
  simp only [owed, ParallelAgg.setWorker_workers, if_true, ParallelAgg.setWorker_chan, setWorker_input,
    ExchangeViews.setMerged_ring, ExchangeViews.setMerged_file, ExchangeViews.setMerged_merged, hp, hM,
    WorkerPhase.merges, WorkerPhase.dataType, List.map_cons, coe_cons_eq_add, coe_append_singleton]
  abel

/-- One call of `GetReDistributeData` keeps the invariant. -/
theorem ExchangeInv.getReDistributeData (h : ExchangeInv rd inputs0 s V) {index : Nat}
    {dt : ReDistributeDataType} {file : Option (List UInt8)} (hp : (s.workers self).phase = .draining index dt file) :
    ∃ V', ExchangeInv rd inputs0 (getReDistributeData rd s self index dt file) V' := by
  have hw := h.worker self
  have hidx : index ≤ rd.numWorkers := by
    have := hw.phase_ok
    rwa [hp] at this
  have hfile : file.getD [] = (V.merged self |>.map frame).flatten := by
    have := hw.merged
    rwa [hp] at this
  have hok : ∀ m ∈ V.merged self, m.length < 2 ^ 31 ∧ StoreOk hts dt m := by
    have := hw.merged_ok
    rwa [hp] at this
  unfold NodeAgg.getReDistributeData
  dsimp only
  split
  · -- the first ring from `index` on with a row in it
    rename_i j hfind
    obtain ⟨hij, hjN, hpj, hbefore⟩ := range'_find?_some hfind
    simp only [decide_eq_true_eq] at hpj
    obtain ⟨m, q, hq⟩ := List.exists_cons_of_ne_nil ((h.chan j self).ne_nil_of_head_ne hpj.2)
    obtain ⟨hrow, h'⟩ := h.take (by omega) hpj.1 hq
    rw [hrow]
    refine ⟨_, h'.drainTo (by simp [hp] : _ = WorkerPhase.draining index dt file) (by omega) fun k hk hks => ?_⟩
    have hkj : k ≠ j := by omega
    simpa [hkj] using h.rings_empty hp (fun k h1 h2 h3 => by simpa [h3] using hbefore k h1 h2) k hk hks
  · -- every ring empty: the merged file
    rename_i hfind
    have hempty := h.rings_empty hp (j := rd.numWorkers) fun k h1 h2 h3 => by
      simpa [h3] using range'_find?_none hfind k h1 (by omega)
    split
    · exact ⟨_, h.consumeDone hp hempty (flatten_frames_eq_nil.1 (by simp [← hfile]))⟩
    · rename_i f
      simp only [Option.getD_some] at hfile
      -- the merged file is the frames of the records left
      have hread : ∀ {r}, getReDistributeFileData dt hts f = r → (∃ m M, V.merged self = m :: M ∧
          getReDistributeFileData dt hts (frame m ++ (M.map frame).flatten) = r ∧ m.length < 2 ^ 32 ∧
          StoreOk hts dt m) ∨ V.merged self = [] ∧ r = .ok (none, []) := by
        intro r heq
        rw [hfile] at heq
        cases hM : V.merged self with
        | nil => exact .inr ⟨rfl, by simpa [hM, getReDistributeFileData_nil] using heq.symm⟩
        | cons m M =>
          have := hok m (by simp [hM])
          exact .inl ⟨m, M, rfl, by simpa [hM] using heq, by omega, this.2⟩
      split
      · rename_i e heq
        rcases hread heq with ⟨m, M, -, heq', hlen, hst⟩ | ⟨-, he⟩
        · exact ⟨_, h.fail (getReDistributeFileData_frame_error hst hlen heq')⟩
        · cases he
      · rename_i heq
        rcases hread heq with ⟨m, M, -, heq', hlen, -⟩ | ⟨hM, -⟩
        · cases getReDistributeFileData_frame hlen heq'
        · exact ⟨_, h.consumeDone hp hempty hM⟩
      · rename_i data f' heq
        rcases hread heq with ⟨m, M, hM, heq', hlen, -⟩ | ⟨-, he⟩
        · cases getReDistributeFileData_frame hlen heq'
          exact ⟨_, h.readRecord hp hempty hM⟩
        · cases he

/-- `ReDistributeBufferCheck` finds every ring from the worker empty once its
wait has counted every peer: each has drained the ring from the worker. -/
theorem ExchangeInv.bufferCheck (h : ExchangeInv rd inputs0 s V) (hself : self < rd.numWorkers) {nDone : Nat}
    (hp : (s.workers self).phase = .consumeWait nDone) (hn : ¬nDone < rd.numWorkers) :
    (List.range rd.numWorkers).find? (fun j => decide ((s.chan self j).buf.head ≠ (s.chan self j).buf.tail)) =
      none := by
  refine List.find?_eq_none.2 fun j hj hne => (h.chan self j).ne_nil_of_head_ne (by simpa using hne) ?_
  have hjN := List.mem_range.1 hj
  exact (h.counted self j (by simp [hp, WorkerPhase.counted]; omega)).2 self hself

/-- One turn of the wait for every `ConsumeDone`, and the end of
`GetReDistributeData` with `ReDistributeBufferCheck`, keep the invariant. -/
theorem ExchangeInv.consumeWaitStep (h : ExchangeInv rd inputs0 s V) (hself : self < rd.numWorkers) {nDone : Nat}
    (hp : (s.workers self).phase = .consumeWait nDone) :
    ∃ V', ExchangeInv rd inputs0 (consumeWaitStep rd s self nDone) V' := by
  -- a counted peer has drained every ring to it
  have hrings : ∀ j, (∀ k < rd.numWorkers, (s.workers j).phase.drainedPast rd.numWorkers k = true) →
      ∀ k < rd.numWorkers, V.ring k j = [] := fun j hd k hk => by
    by_cases hkj : k = j
    · subst hkj
      exact h.self_ring k
    · exact h.drained j k hkj (hd k hk)
  have hcnt : ∀ j, (WorkerPhase.consumeWait nDone).counted rd.numWorkers j = true →
      (s.workers j).phase.finishedReading = true ∧ ∀ k < rd.numWorkers, V.ring k j = [] := fun j hc =>
    h.counted self j (by rwa [hp])
  unfold NodeAgg.consumeWaitStep
  dsimp only
  split_ifs with hn hwait herr
  · exact ⟨V, h⟩
  · exact ⟨_, h.fail (by simp [peerErrorMessage, bookkeepingError, List.isPrefixOf])⟩
  · obtain ⟨hd, hfin⟩ := WorkerPhase.of_consumeDone (N := rd.numWorkers) hwait herr
    refine ⟨_, h.setPhase_of_merges_eq trivial (fun _ => by rw [hp]; rfl) (by rw [hp]; rfl) (by rw [hp]; rfl)
      (by simp) (by simp [hp]) (by simp [hp, WorkerPhase.isFailed]) (fun k hks hd' => h.drained self k hks
        (by simpa [hp, WorkerPhase.drainedPast] using hd')) (fun j hc => ?_) (fun _ => rfl) rfl⟩
    simp only [WorkerPhase.counted, decide_eq_true_eq] at hc
    by_cases hjn : j < nDone
    · obtain ⟨h1, h2⟩ := hcnt j (by simpa [WorkerPhase.counted] using hjn)
      exact ⟨by split <;> first | rfl | exact h1, h2⟩
    · obtain rfl : j = nDone := by omega
      exact ⟨by split <;> first | rfl | exact hfin, hrings _ hd⟩
  · -- `ReDistributeBufferCheck` passes
    rw [h.bufferCheck hself hp hn]
    refine ⟨_, h.setPhase_of_merges_eq trivial (fun _ => by rw [hp]; rfl) (by rw [hp]; rfl) (by rw [hp]; rfl)
      (by simp) (by simp [hp]) (by simp [hp, WorkerPhase.isFailed]) (fun k hks hd' => h.drained self k hks
        (by simpa [hp, WorkerPhase.drainedPast] using hd')) (fun j hc => ?_) (fun _ => rfl) rfl⟩
    obtain ⟨h1, h2⟩ := hcnt j (by simp [WorkerPhase.counted] at hc ⊢; omega)
    exact ⟨by split <;> first | rfl | exact h1, h2⟩

/-- Popping a row off a child's input takes it out of what is still owed. -/
theorem sum_routed_pop (hself : self < rd.numWorkers) {r : ChildRow D hts} {rest : List (ChildRow D hts)}
    (hin : (s.workers self).input = r :: rest) (w : Nat) :
    ∑ i in range rd.numWorkers, ((routedTo rd w (if i = self then rest else (s.workers i).input) : List Message) :
      Multiset Message) + ↑(routedTo rd w [r] : List Message) =
    ∑ i in range rd.numWorkers, ((routedTo rd w (s.workers i).input : List Message) : Multiset Message) := by
  have hsum := sum_range_add_eq (f := fun i => ((routedTo rd w (if i = self then rest else (s.workers i).input) :
      List Message) : Multiset Message)) (g := fun i => ((routedTo rd w (s.workers i).input : List Message) :
      Multiset Message)) hself fun i hi => by simp [hi]
  simp only [if_true, hin] at hsum
  rw [routedTo_cons] at hsum
  exact add_right_cancel (b := ↑(routedTo rd w rest : List Message)) (by rw [← hsum]; abel)

theorem owed_setInput (hself : self < rd.numWorkers) {r : ChildRow D hts} {rest : List (ChildRow D hts)}
    (hin : (s.workers self).input = r :: rest) (w : Nat) :
    owed rd (s.setInput self rest) V w + ↑(routedTo rd w [r] : List Message) = owed rd s V w := by
  simp only [owed, ParallelAgg.setInput_fed, ParallelAgg.setInput_chan, ParallelAgg.setInput_phase,
    ParallelAgg.setInput_input]
  rw [add_assoc, sum_routed_pop hself hin w]

theorem owed_feed (m : Message) (w : Nat) :
    owed rd (s.feed self m) V w = owed rd s V w + if w = self then {m} else 0 := by
  by_cases hw : w = self
  · subst hw
    simp only [owed, ParallelAgg.feed_fed, if_true, ParallelAgg.feed_chan, ParallelAgg.feed_phase,
      ParallelAgg.feed_input, coe_append_singleton]
    abel
  · simp [owed, hw]

/-- New contents of a channel `(i, w)` that worker `w` has not merged change
what is owed to `w` by the channel's messages. -/
theorem owed_setChan {i w : Nat} (hi : i < rd.numWorkers) (hm : (s.workers w).phase.merges rd.numWorkers i = false)
    (c : ReDistributeChannel) (q f : List (List UInt8)) :
    owed rd (s.setChan i w c) ((V.setRing i w q).setFile i w f) w +
        ((s.chan i w).ringMsgs (V.ring i w) + (s.chan i w).fileMsgs (V.file i w)) =
      owed rd s V w + (c.ringMsgs q + c.fileMsgs f) := by
  have hr := sum_range_add_eq (f := fun k => ((s.setChan i w c).chan k w).ringMsgs
    (((V.setRing i w q).setFile i w f).ring k w)) (g := fun k => (s.chan k w).ringMsgs (V.ring k w)) hi
    fun k hk => by simp [hk]
  have hf := sum_range_add_eq (f := fun k => if (s.workers w).phase.merges rd.numWorkers k then 0 else
    ((s.setChan i w c).chan k w).fileMsgs (((V.setRing i w q).setFile i w f).file k w))
    (g := fun k => if (s.workers w).phase.merges rd.numWorkers k then 0 else (s.chan k w).fileMsgs (V.file k w)) hi
    fun k hk => by simp [hk]
  simp only [hm, ParallelAgg.setChan_chan, ExchangeViews.setFile_ring, ExchangeViews.setRing_ring,
    ExchangeViews.setFile_file, ExchangeViews.setRing_file, and_true, if_true, Bool.false_eq_true, if_false] at hr hf
  have hregroup : ∀ a b d e g : Multiset Message, a + b + d + e + g +
      ((s.chan i w).ringMsgs (V.ring i w) + (s.chan i w).fileMsgs (V.file i w)) =
      a + (b + (s.chan i w).ringMsgs (V.ring i w)) + (d + (s.chan i w).fileMsgs (V.file i w)) + e + g :=
    fun _ _ _ _ _ => by abel
  simp only [owed, ParallelAgg.setChan_workers, ExchangeViews.setFile_merged, ExchangeViews.setRing_merged,
    ParallelAgg.setChan_chan, ExchangeViews.setFile_ring, ExchangeViews.setRing_ring, ExchangeViews.setFile_file,
    ExchangeViews.setRing_file, and_true]
  rw [hregroup, hr, hf]
  abel

/-- No worker has merged the file of a worker still producing, so none has
drained a ring or counted a peer. -/
theorem ExchangeInv.merges_producing (h : ExchangeInv rd inputs0 s V) (hself : self < rd.numWorkers)
    (hp : (s.workers self).phase = .producing) (w : Nat) :
    (s.workers w).phase.merges rd.numWorkers self = false := by
  by_cases hw : w = self
  · subst hw
    rw [hp]
    rfl
  · by_contra hm
    exact (h.past w self hself (Ne.symm hw) (by simpa using hm)).1 hp

/-- A row that routes to its own worker is fed at once (`ReDistributeData`
returns `false`). -/
theorem ExchangeInv.keep (h : ExchangeInv rd inputs0 s V) (hself : self < rd.numWorkers)
    (hp : (s.workers self).phase = .producing) {r : ChildRow D hts} {rest : List (ChildRow D hts)}
    (hin : (s.workers self).input = r :: rest) (hr : indexSendWorker rd r = .ok self) :
    ExchangeInv rd inputs0 ((s.setInput self rest).feed self r.slot.message) V := by
  have hnot := h.merges_producing hself hp
  refine ⟨by simpa using h.chan, h.self_ring, h.self_file, fun w => ?_, fun w j hj hjw hm => ?_,
    fun w j hjw hd => by simpa using h.drained w j hjw (by simpa using hd),
    fun w j hc => by simpa using h.counted w j (by simpa using hc), fun w hw hf => ?_,
    fun w msg hf => h.failed_ok w msg (by simpa using hf)⟩
  · have hw := h.worker w
    exact ⟨by simpa using hw.merged, by simpa using hw.merged_ok, by simpa using hw.phase_ok, fun h1 h2 => by
      have := hw.input_nil (by simpa using h1) (by simpa using h2)
      simp only [ParallelAgg.feed_input, ParallelAgg.setInput_input]
      split <;> simp_all⟩
  · simp only [ParallelAgg.feed_phase, ParallelAgg.setInput_phase, ParallelAgg.feed_input,
      ParallelAgg.setInput_input] at hm ⊢
    by_cases hjs : j = self
    · subst hjs
      simp [hnot w] at hm
    · simpa [hjs] using h.past w j hj hjw hm
  · simp only [ParallelAgg.feed_phase, ParallelAgg.setInput_phase] at hf
    have hpop := owed_setInput (V := V) hself hin w
    rw [routedTo_single rd hr] at hpop
    rw [owed_feed, ← h.conserve w hw hf, ← hpop]
    by_cases hws : w = self
    · subst hws
      simp
    · simp [hws, Ne.symm hws]

/-- A row for another worker goes into the ring or the file of the channel
`(self, dest)`: it moves from the child's input to the channel. -/
theorem ExchangeInv.sendRow (h : ExchangeInv rd inputs0 s V) (hself : self < rd.numWorkers)
    (hp : (s.workers self).phase = .producing) {r : ChildRow D hts} {rest : List (ChildRow D hts)}
    (hin : (s.workers self).input = r :: rest) {dest : Nat} (hr : indexSendWorker rd r = .ok dest)
    (hds : dest ≠ self) {c : ReDistributeChannel} {q f : List (List UInt8)}
    (hc : ChanHolds hts rd.bufferSize c q f)
    (hmsgs : c.ringMsgs q + c.fileMsgs f = (s.chan self dest).ringMsgs (V.ring self dest) +
      (s.chan self dest).fileMsgs (V.file self dest) + {r.slot.message}) :
    ExchangeInv rd inputs0 ((s.setChan self dest c).setInput self rest)
      ((V.setRing self dest q).setFile self dest f) := by
  have hnot := h.merges_producing hself hp
  have hsd : ∀ a, ¬(a = self ∧ a = dest) := fun a ⟨h1, h2⟩ => hds (h2 ▸ h1)
  refine ⟨fun a b => ?_, fun a => by simp [hsd, h.self_ring], fun a => by simp [hsd, h.self_file], fun w => ?_,
    fun w j hj hjw hm => ?_, fun w j hjw hd => ?_, fun w j hc => ?_, fun w hw hf => ?_,
    fun w msg hf => h.failed_ok w msg (by simpa using hf)⟩
  · by_cases hab : a = self ∧ b = dest
    · obtain ⟨rfl, rfl⟩ := hab
      simpa using hc
    · simpa [hab] using h.chan a b
  · have hw := h.worker w
    exact ⟨by simpa using hw.merged, by simpa using hw.merged_ok, by simpa using hw.phase_ok, fun h1 h2 => by
      have := hw.input_nil (by simpa using h1) (by simpa using h2)
      simp only [ParallelAgg.setInput_input]
      split <;> simp_all⟩
  · simp only [ParallelAgg.setInput_phase, ParallelAgg.setChan_workers, ParallelAgg.setInput_input] at hm ⊢
    by_cases hjs : j = self
    · subst hjs
      simp [hnot w] at hm
    · simpa [hjs] using h.past w j hj hjw hm
  · simp only [ParallelAgg.setInput_phase, ParallelAgg.setChan_workers] at hd
    simpa [hnot w] using WorkerPhase.merges_of_drainedPast hd hself
  · simp only [ParallelAgg.setInput_phase, ParallelAgg.setChan_workers] at hc
    simpa [hnot w] using WorkerPhase.merges_of_counted hc hself
  · simp only [ParallelAgg.setInput_phase, ParallelAgg.setChan_workers] at hf
    have hpop := owed_setInput (s := s.setChan self dest c) (V := (V.setRing self dest q).setFile self dest f)
      hself hin w
    rw [routedTo_single rd hr] at hpop
    rw [← h.conserve w hw hf]
    by_cases hwd : w = dest
    · subst hwd
      have hch := owed_setChan (V := V) hself (hnot w) c q f
      simp only [if_true, hmsgs] at hpop hch
      refine add_right_cancel (b := (s.chan self w).ringMsgs (V.ring self w) +
        (s.chan self w).fileMsgs (V.file self w) + {r.slot.message}) ?_
      rw [← add_assoc, ← hch, ← hpop]
      abel
    · simp only [Ne.symm hwd, if_false, Multiset.coe_nil, add_zero] at hpop
      rw [hpop]
      simp [owed, hwd]

/-- `ReDistributeData`'s send: the row goes into the ring if it fits, into the
file otherwise. -/
theorem ExchangeInv.send (h : ExchangeInv rd inputs0 s V) (hself : self < rd.numWorkers)
    (hp : (s.workers self).phase = .producing) {r : ChildRow D hts} {rest : List (ChildRow D hts)}
    (hin : (s.workers self).input = r :: rest) {dest : Nat} (hr : indexSendWorker rd r = .ok dest)
    (hds : dest ≠ self) {c : ReDistributeChannel}
    (hs : reDistributeSend (s.chan self dest) r.slot.message.1 r.slot.message.2 = .ok c) :
    ∃ V', ExchangeInv rd inputs0 ((s.setChan self dest c).setInput self rest) V' := by
  rcases (h.chan self dest).send hs r.storeOk r.length_lt with ⟨hc, hring, hfile⟩ | ⟨hc, hring, hfile⟩
  · refine ⟨_, h.sendRow hself hp hin hr hds hc (f := V.file self dest) ?_⟩
    rw [hring, hfile]
    abel
  · refine ⟨_, h.sendRow hself hp hin hr hds hc (q := V.ring self dest) ?_⟩
    rw [hring, hfile]
    abel

/-- The step of a worker with a row from its child: route it, keep it or send
it, and take a message from a peer's ring if one is over a quarter full. -/
theorem ExchangeInv.reDistributeData (h : ExchangeInv rd inputs0 s V) (hself : self < rd.numWorkers)
    (hp : (s.workers self).phase = .producing) {r : ChildRow D hts} {rest : List (ChildRow D hts)}
    (hin : (s.workers self).input = r :: rest) :
    ∃ V', ExchangeInv rd inputs0 (reDistributeData rd s self r rest) V' := by
  unfold NodeAgg.reDistributeData
  split
  · rename_i e he
    rw [indexSendWorker_error he]
    exact ⟨_, h.fail (by simp [bookkeepingError, List.isPrefixOf])⟩
  · rename_i dest hr
    split_ifs with hds
    · subst hds
      exact ⟨V, h.keep hself hp hin hr⟩
    split
    · rename_i e he
      rcases reDistributeSend_error he with rfl | rfl <;>
        exact ⟨_, h.fail (by simp [bookkeepingError, List.isPrefixOf])⟩
    rename_i c hs
    obtain ⟨V1, h1⟩ := h.send hself hp hin hr hds hs
    dsimp only
    split
    · exact ⟨V1, h1⟩
    rename_i j hj
    have hdN := indexSendWorker_lt hr (by omega)
    obtain ⟨hjN, hjs⟩ := mem_peerRound (by omega) hself hdN hds (List.mem_of_find?_eq_some hj)
    obtain ⟨m, q, hq⟩ := List.exists_cons_of_ne_nil ((h1.chan j self).ne_nil_of_quarterFull
      (by simpa using List.find?_some hj))
    obtain ⟨hrow, h2⟩ := h1.take hjN hjs hq
    rw [hrow]
    exact ⟨_, h2⟩

end Step

end NodeAgg

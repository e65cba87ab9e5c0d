import Mathlib.Algebra.Order.Ring.Nat

/-!
# The redistribution ring buffer

Between two parallel workers a `ReDistributeBuffer` is a byte ring in shared
memory.  The sender appends a message at `head` with
`ReDistributeBufferPutData`: a 4-byte length word, then the bytes.  The
receiver takes the oldest one at `tail` with `ReDistributeBufferGetData`.
Either may wrap round the end of the ring, the length word as well as the
bytes; each copy is split in two where it wraps (`ringCopy`, `ringFetch`).

`RingHolds buf q` relates a ring to the queue of messages it holds: the bytes
from `tail` on, as many as are in flight, are the messages' frames in order.
Each call keeps it (`RingHolds.putData`, `RingHolds.getData`).  Over any
sequence of calls made as the workers make them, the ring answers as a FIFO
queue does (`ringCalls_fifo`).
-/

namespace NodeAgg

/-! ## Memory -/

/-- `memcpy(mem + off, src, n)`, `src` being the `n` bytes copied. -/
def memcpy (mem : Nat → UInt8) (off : Nat) (src : List UInt8) : Nat → UInt8 :=
  fun j => if off ≤ j ∧ j < off + src.length then src.getD (j - off) 0 else mem j

/-- The `n` bytes at `mem + off`, as `memcpy(dst, mem + off, n)` reads them. -/
def memread (mem : Nat → UInt8) (off n : Nat) : List UInt8 :=
  (List.range n).map fun i => mem (off + i)

/-- The four bytes of an `int` in memory, least significant first. -/
def intBytes (n : Nat) : List UInt8 :=
  (List.range 4).map fun i => UInt8.ofNat (n / 256 ^ i)

/-- The `int` that four bytes of memory hold. -/
def bytesInt (b : List UInt8) : Nat :=
  b.foldr (fun x acc => x.toNat + 256 * acc) 0

@[simp] theorem length_memread (mem : Nat → UInt8) (off n : Nat) : (memread mem off n).length = n := by
  simp [memread]

@[simp] theorem length_intBytes (n : Nat) : (intBytes n).length = 4 := rfl

theorem bytesInt_intBytes {n : Nat} (h : n < 2 ^ 32) : bytesInt (intBytes n) = n := by
  simp [bytesInt, intBytes, List.range_succ, UInt8.toNat, UInt8.ofNat]
  omega

theorem getD_take (xs : List UInt8) (n i : Nat) : (xs.take n).getD i 0 = if i < n then xs.getD i 0 else 0 := by
  simp only [List.getD_eq_getElem?_getD, List.getElem?_take]
  split <;> rfl

theorem getD_drop (xs : List UInt8) (n i : Nat) : (xs.drop n).getD i 0 = xs.getD (n + i) 0 := by
  simp only [List.getD_eq_getElem?_getD, List.getElem?_drop]

/-- A sum below twice the modulus wraps at most once. -/
theorem mod_eq_ite {a L : Nat} (h : a < 2 * L) : a % L = if a < L then a else a - L := by
  split
  · exact Nat.mod_eq_of_lt ‹_›
  · rw [Nat.mod_eq_sub_mod (by omega), Nat.mod_eq_of_lt (by omega)]

/-! ## The ring -/

/-- `ReDistributeBuffer`: its length, the write position `head`, the read
position `tail`, and its bytes (`nTuples` and the counters are statistics). -/
structure ReDistributeBuffer where
  length : Nat
  head : Nat
  tail : Nat
  buffer : Nat → UInt8

/-- `ReDistributeBufferFreeSize`, an `int`: `tail - 1` is `-1` when `tail` is 0. -/
def reDistributeBufferFreeSize (buf : ReDistributeBuffer) : Int :=
  if buf.head ≥ buf.tail then ((buf.length : Int) - buf.head) + ((buf.tail : Int) - 1)
  else (buf.tail : Int) - buf.head - 1

/-- A `memcpy` of `xs` into a ring of length `L` at `p`, in two pieces when it
does not fit before the end: how `ReDistributeBufferPutData` writes the length
word, and then the data. -/
def ringCopy (L : Nat) (mem : Nat → UInt8) (p : Nat) (xs : List UInt8) : Nat → UInt8 :=
  if L - p ≥ xs.length then memcpy mem p xs
  else memcpy (memcpy mem p (xs.take (L - p))) 0 (xs.drop (L - p))

/-- The `n` bytes of a ring of length `L` at `p`, read in two pieces when they
wrap: how `ReDistributeBufferGetData` reads the length word, and then the data. -/
def ringFetch (L : Nat) (mem : Nat → UInt8) (p n : Nat) : List UInt8 :=
  if L - p ≥ n then memread mem p n
  else memread mem p (L - p) ++ memread mem 0 (n - (L - p))

/-- `ReDistributeBufferPutData(buf, dataLen, data)`, `data` being the
`dataLen` bytes. -/
def reDistributeBufferPutData (buf : ReDistributeBuffer) (data : List UInt8) : ReDistributeBuffer :=
  let mem := ringCopy buf.length buf.buffer buf.head (intBytes data.length)
  let posi := (buf.head + 4) % buf.length
  { buf with
    buffer := ringCopy buf.length mem posi data
    head := (buf.head + data.length + 4) % buf.length }

/-- `ReDistributeBufferGetData(buf, &dataLen, &data, &datarow)`: `*dataLen`,
the bytes it copies out (into `data`, or into `datarow->msg` for data rows),
and the ring. -/
def reDistributeBufferGetData (buf : ReDistributeBuffer) : Nat × List UInt8 × ReDistributeBuffer :=
  let dataLen := bytesInt (ringFetch buf.length buf.buffer buf.tail 4)
  let offset := (buf.tail + 4) % buf.length
  (dataLen, ringFetch buf.length buf.buffer offset dataLen,
    { buf with tail := (buf.tail + dataLen + 4) % buf.length })

@[simp] theorem reDistributeBufferPutData_length (buf : ReDistributeBuffer) (data : List UInt8) :
    (reDistributeBufferPutData buf data).length = buf.length := rfl

@[simp] theorem reDistributeBufferPutData_tail (buf : ReDistributeBuffer) (data : List UInt8) :
    (reDistributeBufferPutData buf data).tail = buf.tail := rfl

@[simp] theorem reDistributeBufferPutData_head (buf : ReDistributeBuffer) (data : List UInt8) :
    (reDistributeBufferPutData buf data).head = (buf.head + data.length + 4) % buf.length := rfl

@[simp] theorem reDistributeBufferGetData_length (buf : ReDistributeBuffer) :
    (reDistributeBufferGetData buf).2.2.length = buf.length := rfl

@[simp] theorem reDistributeBufferGetData_head (buf : ReDistributeBuffer) :
    (reDistributeBufferGetData buf).2.2.head = buf.head := rfl

@[simp] theorem reDistributeBufferGetData_buffer (buf : ReDistributeBuffer) :
    (reDistributeBufferGetData buf).2.2.buffer = buf.buffer := rfl

section Copy

variable {L p : Nat} {mem : Nat → UInt8}

/-- A wrapped copy puts byte `j` of `xs` at `(p + j) % L` and leaves the rest
of the ring alone. -/
theorem ringCopy_add_mod {xs : List UInt8} (hp : p < L) (hx : xs.length ≤ L) {j : Nat} (hj : j < L) :
    ringCopy L mem p xs ((p + j) % L) = if j < xs.length then xs.getD j 0 else mem ((p + j) % L) := by
  unfold ringCopy
  by_cases hw : p + j < L
  · rw [Nat.mod_eq_of_lt hw]
    split
    · simp only [memcpy, Nat.add_sub_cancel_left, Nat.le_add_right, true_and, Nat.add_lt_add_iff_left]
    · simp only [memcpy, List.length_take, List.length_drop, getD_take, Nat.add_sub_cancel_left]
      rw [if_neg (by omega), if_pos (by omega), if_pos (by omega), if_pos (by omega)]
  · rw [mod_eq_ite (by omega), if_neg hw]
    split
    · simp only [memcpy]
      rw [if_neg (by omega), if_neg (by omega)]
    · simp only [memcpy, List.length_take, List.length_drop, getD_take, getD_drop]
      by_cases hjx : j < xs.length
      · rw [if_pos (by omega), if_pos hjx]
        congr 1
        omega
      · rw [if_neg (by omega), if_neg (by omega), if_neg hjx]

/-- Read through the wrap, the `n` bytes at `p` are those at `(p + i) % L`. -/
theorem ringFetch_eq {n : Nat} (hp : p < L) (hn : n ≤ L) :
    ringFetch L mem p n = (List.range n).map fun i => mem ((p + i) % L) := by
  unfold ringFetch memread
  split
  · exact List.map_congr_left fun i hi => by
      rw [Nat.mod_eq_of_lt (by simp at hi; omega)]
  · rw [show n = (L - p) + (n - (L - p)) by omega, List.range_add, List.map_append, List.map_map,
      Nat.add_sub_cancel_left]
    congr 1
    · exact List.map_congr_left fun i hi => by
        rw [Nat.mod_eq_of_lt (by simp at hi; omega)]
    · exact List.map_congr_left fun i hi => by
        simp only [Function.comp, List.mem_range] at hi ⊢
        rw [show p + (L - p + i) = i + L by omega, Nat.add_mod_right, Nat.mod_eq_of_lt (by omega), Nat.zero_add]

end Copy

/-! ## The queue it holds -/

/-- A message as it sits in the ring: its length word, then its bytes. -/
def frame (m : List UInt8) : List UInt8 := intBytes m.length ++ m

/-- The bytes in flight for a queue of messages. -/
def inFlight (q : List (List UInt8)) : Nat := (q.map fun m => m.length + 4).sum

/-- The `n` bytes of the ring from position `p` on, wrapping round its end. -/
def ringBytes (buf : ReDistributeBuffer) (p n : Nat) : List UInt8 :=
  (List.range n).map fun i => buf.buffer ((p + i) % buf.length)

/-- The ring holds the queue `q`, oldest message first: `head` is `tail` plus
the bytes in flight, and those bytes are the messages' frames.  Its length is
an `int`. -/
structure RingHolds (buf : ReDistributeBuffer) (q : List (List UInt8)) : Prop where
  length_lt : buf.length < 2 ^ 31
  tail_lt : buf.tail < buf.length
  inFlight_lt : inFlight q < buf.length
  head_eq : buf.head = (buf.tail + inFlight q) % buf.length
  bytes : ringBytes buf buf.tail (inFlight q) = (q.map frame).flatten

@[simp] theorem inFlight_nil : inFlight [] = 0 := rfl

@[simp] theorem inFlight_cons (m : List UInt8) (q : List (List UInt8)) :
    inFlight (m :: q) = m.length + 4 + inFlight q := by
  simp [inFlight]

@[simp] theorem inFlight_append (q q' : List (List UInt8)) : inFlight (q ++ q') = inFlight q + inFlight q' := by
  induction q with
  | nil => simp
  | cons m q ih => simp [ih, Nat.add_assoc]

@[simp] theorem length_frame (m : List UInt8) : (frame m).length = m.length + 4 := by
  simp [frame, Nat.add_comm]

theorem getD_frame (m : List UInt8) (j : Nat) :
    (frame m).getD j 0 = if j < 4 then (intBytes m.length).getD j 0 else m.getD (j - 4) 0 := by
  simp only [frame, List.getD_eq_getElem?_getD]
  split
  · rw [List.getElem?_append_left (by simpa)]
  · rw [List.getElem?_append_right (by simp; omega), length_intBytes]

@[simp] theorem length_ringBytes (buf : ReDistributeBuffer) (p n : Nat) : (ringBytes buf p n).length = n := by
  simp [ringBytes]

/-- The bytes from `p` split where the first `a` end. -/
theorem ringBytes_add (buf : ReDistributeBuffer) (p a b : Nat) :
    ringBytes buf p (a + b) = ringBytes buf p a ++ ringBytes buf ((p + a) % buf.length) b := by
  simp only [ringBytes, List.range_add, List.map_append, List.map_map]
  congr 1
  exact List.map_congr_left fun i _ => by simp only [Function.comp, Nat.mod_add_mod, Nat.add_assoc]

/-- Bytes read back from the positions they were written at. -/
theorem map_range_getD (xs : List UInt8) {n : Nat} (hn : n = xs.length) :
    (List.range n).map (fun j => xs.getD j 0) = xs :=
  List.ext_getElem (by simp [hn]) fun j h1 h2 => by simp [List.getD_eq_getElem?_getD, List.getElem?_eq_getElem h2]

/-- What `ReDistributeBufferPutData` leaves at `head + j`: the message's frame
for its first `dataLen + 4` bytes, the old bytes after it, provided the frame
leaves a byte free. -/
theorem putData_buffer {buf : ReDistributeBuffer} {data : List UInt8} (hhead : buf.head < buf.length)
    (hfit : data.length + 5 ≤ buf.length) {j : Nat} (hj : j < buf.length) :
    (reDistributeBufferPutData buf data).buffer ((buf.head + j) % buf.length) =
      if j < data.length + 4 then (frame data).getD j 0 else buf.buffer ((buf.head + j) % buf.length) := by
  have hposi : (buf.head + 4) % buf.length < buf.length := Nat.mod_lt _ (by omega)
  have hpos : ((buf.head + 4) % buf.length + (j + buf.length - 4) % buf.length) % buf.length =
      (buf.head + j) % buf.length := by
    rw [← Nat.add_mod, show buf.head + 4 + (j + buf.length - 4) = buf.head + j + buf.length by omega,
      Nat.add_mod_right]
  show ringCopy buf.length (ringCopy buf.length buf.buffer buf.head (intBytes data.length))
    ((buf.head + 4) % buf.length) data _ = _
  rw [← hpos, ringCopy_add_mod hposi (by omega) (Nat.mod_lt _ (by omega)), hpos,
    ringCopy_add_mod hhead (by simp; omega) hj, getD_frame, length_intBytes]
  by_cases h4 : j < 4
  · rw [Nat.mod_eq_of_lt (by omega), if_neg (by omega), if_pos h4, if_pos h4, if_pos (by omega)]
  · rw [show j + buf.length - 4 = (j - 4) + buf.length by omega, Nat.add_mod_right, Nat.mod_eq_of_lt (by omega),
      if_neg h4, if_neg h4]
    by_cases hd : j - 4 < data.length
    · rw [if_pos hd, if_pos (by omega)]
    · rw [if_neg hd, if_neg (by omega)]

section Holds

variable {buf : ReDistributeBuffer} {q : List (List UInt8)}

theorem RingHolds.length_pos (h : RingHolds buf q) : 0 < buf.length := by
  have := h.tail_lt
  omega

/-- `ReDistributeBufferFreeSize` is the ring's length, less one, less the
bytes in flight. -/
theorem RingHolds.freeSize (h : RingHolds buf q) :
    reDistributeBufferFreeSize buf = (buf.length : Int) - 1 - inFlight q := by
  have := h.tail_lt
  have := h.inFlight_lt
  have hhead := h.head_eq
  rw [mod_eq_ite (by omega)] at hhead
  unfold reDistributeBufferFreeSize
  split <;> split at hhead <;> omega

theorem inFlight_eq_zero {q : List (List UInt8)} : inFlight q = 0 ↔ q = [] := by
  cases q with
  | nil => simp
  | cons m q => simp

/-- `head == tail` exactly when no message is in flight. -/
theorem RingHolds.head_eq_tail (h : RingHolds buf q) : buf.head = buf.tail ↔ q = [] := by
  have := h.tail_lt
  have := h.inFlight_lt
  have hhead := h.head_eq
  rw [mod_eq_ite (by omega)] at hhead
  rw [← inFlight_eq_zero]
  split at hhead <;> omega

/-- A put made when `ReDistributeBufferFreeSize` leaves room for the data and
its length word appends the message to the queue. -/
theorem RingHolds.putData (h : RingHolds buf q) {data : List UInt8}
    (hfree : (data.length : Int) + 4 ≤ reDistributeBufferFreeSize buf) :
    RingHolds (reDistributeBufferPutData buf data) (q ++ [data]) := by
  rw [h.freeSize] at hfree
  have hfit : inFlight q + data.length + 5 ≤ buf.length := by omega
  have hL := h.length_pos
  have ht := h.tail_lt
  have hhead : buf.head < buf.length := h.head_eq ▸ Nat.mod_lt _ hL
  -- the bytes in flight sit before `head`, where the put does not write
  have hkeep : ringBytes (reDistributeBufferPutData buf data) buf.tail (inFlight q) =
      ringBytes buf buf.tail (inFlight q) := by
    refine List.map_congr_left fun i hi => ?_
    simp only [List.mem_range] at hi
    have hpos : (buf.head + (i + buf.length - inFlight q)) % buf.length = (buf.tail + i) % buf.length := by
      rw [h.head_eq, Nat.mod_add_mod, show buf.tail + inFlight q + (i + buf.length - inFlight q) =
        buf.tail + i + buf.length by omega, Nat.add_mod_right]
    rw [reDistributeBufferPutData_length, ← hpos, putData_buffer hhead (by omega) (by omega), if_neg (by omega)]
  -- the new message's frame starts at `head`
  have hnew : ringBytes (reDistributeBufferPutData buf data) buf.head (data.length + 4) = frame data := by
    refine (List.map_congr_left fun j hj => ?_).trans (map_range_getD (frame data) (by simp))
    simp only [List.mem_range] at hj
    rw [reDistributeBufferPutData_length]
    exact (putData_buffer hhead (by omega) (by omega)).trans (if_pos hj)
  refine ⟨h.length_lt, ht, by simp; omega, ?_, ?_⟩
  · simp only [reDistributeBufferPutData_head, reDistributeBufferPutData_tail, reDistributeBufferPutData_length,
      inFlight_append, inFlight_cons, inFlight_nil]
    rw [h.head_eq, Nat.add_assoc, Nat.mod_add_mod]
    congr 1
    omega
  · simp only [reDistributeBufferPutData_tail, inFlight_append, inFlight_cons, inFlight_nil]
    rw [Nat.add_zero, ringBytes_add, hkeep, h.bytes, reDistributeBufferPutData_length, ← h.head_eq, hnew]
    simp

/-- A get made when `head != tail` returns the oldest message and its length,
and leaves the rest of the queue. -/
theorem RingHolds.getData {m : List UInt8} (h : RingHolds buf (m :: q)) :
    (reDistributeBufferGetData buf).1 = m.length ∧ (reDistributeBufferGetData buf).2.1 = m ∧
      RingHolds (reDistributeBufferGetData buf).2.2 q := by
  have hflight := h.inFlight_lt
  have ht := h.tail_lt
  simp only [inFlight_cons] at hflight
  -- the frame of `m`, then the rest, from `tail` on
  have hsplit := h.bytes
  rw [inFlight_cons, show m.length + 4 + inFlight q = 4 + m.length + inFlight q by omega, ringBytes_add,
    ringBytes_add, List.map_cons, List.flatten_cons, frame] at hsplit
  simp only [List.append_assoc] at hsplit
  obtain ⟨hlen, hrest⟩ := List.append_inj hsplit (by simp)
  obtain ⟨hbody, hrest⟩ := List.append_inj hrest (by simp)
  have hword : ringFetch buf.length buf.buffer buf.tail 4 = intBytes m.length := by
    rw [ringFetch_eq ht (by omega)]
    exact hlen
  have hdataLen : bytesInt (ringFetch buf.length buf.buffer buf.tail 4) = m.length := by
    rw [hword, bytesInt_intBytes (by have := h.length_lt; omega)]
  have hoff : (buf.tail + 4) % buf.length < buf.length := Nat.mod_lt _ (by omega)
  have hget : reDistributeBufferGetData buf =
      (m.length, m, { buf with tail := (buf.tail + m.length + 4) % buf.length }) := by
    show (bytesInt (ringFetch buf.length buf.buffer buf.tail 4), ringFetch buf.length buf.buffer
      ((buf.tail + 4) % buf.length) (bytesInt (ringFetch buf.length buf.buffer buf.tail 4)), _) = _
    rw [hdataLen, ringFetch_eq hoff (by omega)]
    exact congrArg (fun b => (m.length, b, _)) hbody
  rw [hget]
  refine ⟨rfl, rfl, h.length_lt, Nat.mod_lt _ (by omega), by simp only; omega, ?_, ?_⟩
  · show buf.head = ((buf.tail + m.length + 4) % buf.length + inFlight q) % buf.length
    rw [Nat.mod_add_mod, h.head_eq, inFlight_cons]
    congr 1
    omega
  · show ringBytes buf ((buf.tail + m.length + 4) % buf.length) (inFlight q) = _
    rw [show buf.tail + m.length + 4 = buf.tail + (4 + m.length) by omega]
    exact hrest

end Holds

/-! ## Calls as the workers make them -/

/-- A call on one ring: the sender's put of a message, or the receiver's get. -/
inductive RingCall where
  | put (data : List UInt8)
  | get
  deriving DecidableEq, Repr

/-- One call, made as the workers make it: `ReDistributeData` puts only when
`ReDistributeBufferFreeSize` is at least `dataLen + sizeof(int)`, and
`GetReDistributeData` gets only when `head != tail`; a call its guard refuses
is not made (`none`).  A get answers `*dataLen` and the bytes. -/
def ringCall (buf : ReDistributeBuffer) : RingCall → Option (ReDistributeBuffer × Option (Nat × List UInt8))
  | .put data =>
    if (data.length : Int) + 4 ≤ reDistributeBufferFreeSize buf then some (reDistributeBufferPutData buf data, none)
    else none
  | .get =>
    if buf.head ≠ buf.tail then
      let r := reDistributeBufferGetData buf
      some (r.2.2, some (r.1, r.2.1))
    else none

/-- A sequence of calls on one ring, with what the gets answered. -/
def ringCalls (buf : ReDistributeBuffer) : List RingCall → Option (ReDistributeBuffer × List (Nat × List UInt8))
  | [] => some (buf, [])
  | c :: cs =>
    (ringCall buf c).bind fun r => (ringCalls r.1 cs).map fun r' => (r'.1, r.2.toList ++ r'.2)

/-- The same call on a FIFO queue of messages that holds at most `cap` bytes
with their length words: a get answers the oldest message and its length. -/
def fifoCall (cap : Nat) (q : List (List UInt8)) : RingCall → Option (List (List UInt8) × Option (Nat × List UInt8))
  | .put data => if inFlight q + data.length + 4 ≤ cap then some (q ++ [data], none) else none
  | .get =>
    match q with
    | [] => none
    | m :: q => some (q, some (m.length, m))

def fifoCalls (cap : Nat) (q : List (List UInt8)) :
    List RingCall → Option (List (List UInt8) × List (Nat × List UInt8))
  | [] => some (q, [])
  | c :: cs =>
    (fifoCall cap q c).bind fun r => (fifoCalls cap r.1 cs).map fun r' => (r'.1, r.2.toList ++ r'.2)

section Rel

variable {α β γ δ : Type} {R : α → β → Prop} {S : γ → δ → Prop}

theorem optionRel_bind {x : Option α} {y : Option β} {f : α → Option γ} {g : β → Option δ}
    (hxy : Option.Rel R x y) (hfg : ∀ a b, R a b → Option.Rel S (f a) (g b)) :
    Option.Rel S (x.bind f) (y.bind g) := by
  cases hxy with
  | none => exact .none
  | some h => exact hfg _ _ h

theorem optionRel_mono {x : Option α} {y : Option β} {R' : α → β → Prop} (hxy : Option.Rel R x y)
    (hR : ∀ a b, R a b → R' a b) : Option.Rel R' x y := by
  cases hxy with
  | none => exact .none
  | some h => exact .some (hR _ _ h)

theorem optionRel_map {x : Option α} {y : Option β} {f : α → γ} {g : β → δ}
    (hxy : Option.Rel R x y) (hfg : ∀ a b, R a b → S (f a) (g b)) : Option.Rel S (x.map f) (y.map g) := by
  cases hxy with
  | none => exact .none
  | some h => exact .some (hfg _ _ h)

end Rel

section Holds

variable {buf : ReDistributeBuffer} {q : List (List UInt8)}

/-- One call: the ring makes it exactly when the queue can, answers the same,
and still holds the queue. -/
theorem RingHolds.call (h : RingHolds buf q) (c : RingCall) :
    Option.Rel (fun r a => r.2 = a.2 ∧ RingHolds r.1 a.1 ∧ r.1.length = buf.length)
      (ringCall buf c) (fifoCall (buf.length - 1) q c) := by
  cases c with
  | put data =>
    simp only [ringCall, fifoCall]
    by_cases hfit : inFlight q + data.length + 4 ≤ buf.length - 1
    · have hfree : (data.length : Int) + 4 ≤ reDistributeBufferFreeSize buf := by rw [h.freeSize]; omega
      rw [if_pos hfree, if_pos hfit]
      exact .some ⟨rfl, h.putData hfree, rfl⟩
    · rw [if_neg (by rw [h.freeSize]; omega), if_neg hfit]
      exact .none
  | get =>
    cases q with
    | nil =>
      simp only [ringCall, fifoCall, h.head_eq_tail.2 rfl, ne_eq, not_true_eq_false, if_false]
      exact .none
    | cons m q =>
      obtain ⟨h1, h2, h3⟩ := h.getData
      have hne : buf.head ≠ buf.tail := fun he => List.cons_ne_nil _ _ (h.head_eq_tail.1 he)
      simp only [ringCall, fifoCall, if_pos hne, h1, h2]
      exact .some ⟨rfl, h3, rfl⟩

/-- Every sequence of calls: the ring makes each call exactly when the queue
can, and answers every get as the queue does. -/
theorem RingHolds.calls (h : RingHolds buf q) (cs : List RingCall) :
    Option.Rel (fun r a => r.2 = a.2 ∧ RingHolds r.1 a.1 ∧ r.1.length = buf.length)
      (ringCalls buf cs) (fifoCalls (buf.length - 1) q cs) := by
  induction cs generalizing buf q with
  | nil => exact .some ⟨rfl, h, rfl⟩
  | cons c cs ih =>
    refine optionRel_bind (h.call c) ?_
    rintro r a ⟨hout, h', hlen⟩
    rw [← hlen]
    refine optionRel_map (ih h') ?_
    rintro r' a' ⟨hout', h'', hlen'⟩
    exact ⟨by rw [hout, hout'], h'', hlen'⟩

end Holds

/-- What a run of calls on a ring of length `L` answers, beside the queue's
run: the same answers, `ReDistributeBufferFreeSize` is `L - 1` less the bytes
in flight, and `head == tail` exactly when no message is in flight. -/
def RingAnswers (L : Nat) (r : ReDistributeBuffer × List (Nat × List UInt8))
    (a : List (List UInt8) × List (Nat × List UInt8)) : Prop :=
  r.2 = a.2 ∧ reDistributeBufferFreeSize r.1 = (L : Int) - 1 - inFlight a.1 ∧ (r.1.head = r.1.tail ↔ a.1 = [])

/-- From the empty ring `ExecAggInitializeDSM` sets up (`head = tail = 0`), every
sequence of calls made as the workers make them answers as a FIFO queue does,
messages whose length word or bytes wrap round the end included. -/
theorem ringCalls_fifo {L : Nat} (hL : 0 < L) (hL' : L < 2 ^ 31) (mem : Nat → UInt8) (cs : List RingCall) :
    Option.Rel (RingAnswers L) (ringCalls ⟨L, 0, 0, mem⟩ cs) (fifoCalls (L - 1) [] cs) := by
  have h0 : RingHolds ⟨L, 0, 0, mem⟩ [] := ⟨hL', hL, by simpa, by simp, rfl⟩
  refine optionRel_mono (h0.calls cs) ?_
  rintro r a ⟨hout, h, hlen⟩
  exact ⟨hout, by rw [h.freeSize, hlen], h.head_eq_tail⟩

/-- Four messages through a ring of eight bytes: the second's length word and
the fourth's bytes wrap round its end. -/
def wrapCalls : List RingCall :=
  [.put [1, 2], .get, .put [3, 4, 5], .get, .put [6, 7], .get, .put [8, 9], .get]

theorem wrapCalls_fifo :
    Option.Rel (RingAnswers 8) (ringCalls ⟨8, 0, 0, fun _ => 0⟩ wrapCalls) (fifoCalls (8 - 1) [] wrapCalls) :=
  ringCalls_fifo (by decide) (by decide) _ _

example : (ringCalls ⟨8, 0, 0, fun _ => 0⟩ wrapCalls).map (·.2) = some [(2, [1, 2]), (3, [3, 4, 5]), (2, [6, 7]), (2, [8, 9])] := by
  rfl

end NodeAgg

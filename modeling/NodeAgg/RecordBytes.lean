import Mathlib.Data.List.GetD
import NodeAgg.Redistribute
import NodeAgg.HashTable

/-!
# Spill records, byte by byte

`DumpHybridHashtable` writes each entry of a full hybrid table as one record of
a batch file, and `LoadHybridHashtable` parses it back:

    uint32 hash | Size total_size | MinimalTuple | AggStatePerGroupData[numtrans] | payloads

A payload follows the per-group array for each non-NULL state that is not held
in its datum word: the `datumGetSize` bytes at the pointer of a
pass-by-reference state, the varlena `serial_func` makes of an `INTERNAL` one.
The reader allocates `total_size` bytes in `hybridcxt`, reads the record into
them, and rebuilds the states in place: a pass-by-reference state points at its
payload in the buffer, an `INTERNAL` one is what `deserial_func` makes of its
payload.

Memory matters here, so it is modelled: `palloc` chunks and expanded objects,
each freed when a context it belongs to is reset.  `datumGetSize` is not in
`nodeAgg.c`; it is a parameter, read off the bytes at a pointer, and
`VARSIZE_ANY` is its varlena case.  What a pass-by-reference datum stands for
(`refValue`) is the bytes at its pointer, or, when those bytes are a pointer to
an expanded object, that object's flat value; `expandedHeader` recognises such
pointers.

The round trip (`dumpRecord_reload`): the record holds `total_size` bytes after
its header, the read consumes exactly them, and the hash, the tuple, the flags,
the by-value datums and the bytes behind every pass-by-reference state come
back, each `INTERNAL` state as `deserialize (serialize state)`.  A datum equal
in bytes is equal in value unless it is an expanded-object pointer: the bytes
of such a pointer come back, but the object they point at was freed with the
old arena (`dumpRecord_reload_expanded`).
-/

namespace NodeAgg

/-! ## Words -/

/-- The `w` bytes of a little-endian word holding `n`. -/
def wordBytes : Nat → Nat → List UInt8
  | 0, _ => []
  | w + 1, n => UInt8.ofNat n :: wordBytes w (n / 256)

@[simp] theorem length_wordBytes (w n : Nat) : (wordBytes w n).length = w := by
  induction w generalizing n with
  | zero => rfl
  | succ w ih => simp [wordBytes, ih]

theorem bytesInt_wordBytes (w n : Nat) : bytesInt (wordBytes w n) = n % 256 ^ w := by
  induction w generalizing n with
  | zero => simp [wordBytes, bytesInt, Nat.mod_one]
  | succ w ih =>
    have h := ih (n / 256)
    have h8 : (UInt8.ofNat n).toNat = n % 256 := rfl
    simp only [bytesInt] at h ⊢
    rw [wordBytes, List.foldr_cons, h, h8, pow_succ', Nat.mod_mul]

theorem ofNat_toNat_uint64 (v : UInt64) : UInt64.ofNat v.toNat = v :=
  UInt64.toNat.inj (UInt64.toNat_ofNat_of_lt v.toNat_lt_size)

theorem ofNat_toNat_uint32 (v : UInt32) : UInt32.ofNat v.toNat = v :=
  UInt32.toNat.inj (UInt32.toNat_ofNat_of_lt v.toNat_lt_size)

/-- A word written and read back. -/
theorem bytesInt_wordBytes_of_lt {w n : Nat} (h : n < 256 ^ w) : bytesInt (wordBytes w n) = n := by
  rw [bytesInt_wordBytes, Nat.mod_eq_of_lt h]

/-! ## Per-group states and tuples -/

/-- `sizeof(AggStatePerGroupData)`: the datum word, the two flags, padding. -/
def perGroupSize : Nat := 16

/-- A C `bool` as a byte. -/
def boolByte (b : Bool) : UInt8 := if b then 1 else 0

/-- The bytes of an `AggStatePerGroupData` as `BufFileWrite` copies them (the
padding, which nothing reads, as zeros). -/
def perGroupBytes (pg : AggStatePerGroup UInt64) : List UInt8 :=
  wordBytes 8 pg.transValue.toNat ++ boolByte pg.transValueIsNull :: boolByte pg.noTransValue :: List.replicate 6 0

/-- The `AggStatePerGroupData` a pointer into a buffer sees. -/
def perGroupAt (b : List UInt8) : AggStatePerGroup UInt64 :=
  ⟨UInt64.ofNat (bytesInt (b.take 8)), b.getD 8 0 != 0, b.getD 9 0 != 0⟩

/-- The `n` states of an `AggStatePerGroup` array at the start of `b`. -/
def perGroupArray : Nat → List UInt8 → List (AggStatePerGroup UInt64)
  | 0, _ => []
  | n + 1, b => perGroupAt b :: perGroupArray n (b.drop perGroupSize)

@[simp] theorem length_perGroupBytes (pg : AggStatePerGroup UInt64) : (perGroupBytes pg).length = perGroupSize := by
  simp [perGroupBytes, perGroupSize]

theorem perGroupAt_perGroupBytes (pg : AggStatePerGroup UInt64) (rest : List UInt8) :
    perGroupAt (perGroupBytes pg ++ rest) = pg := by
  obtain ⟨v, n, t⟩ := pg
  simp only [perGroupAt, perGroupBytes, List.append_assoc, List.cons_append]
  rw [List.take_left' (length_wordBytes 8 _), bytesInt_wordBytes_of_lt v.toNat_lt_size, ofNat_toNat_uint64,
    List.getD_append_right _ _ _ _ (by simp), List.getD_append_right _ _ _ _ (by simp)]
  cases n <;> cases t <;> simp [boolByte]

theorem perGroupArray_flatMap (pgs : List (AggStatePerGroup UInt64)) (rest : List UInt8) :
    perGroupArray pgs.length (pgs.flatMap perGroupBytes ++ rest) = pgs := by
  induction pgs with
  | nil => rfl
  | cons pg pgs ih =>
    rw [List.length_cons, perGroupArray, List.flatMap_cons, List.append_assoc, perGroupAt_perGroupBytes,
      List.drop_left' (length_perGroupBytes pg), ih]

@[simp] theorem length_flatMap_perGroupBytes (pgs : List (AggStatePerGroup UInt64)) :
    (pgs.flatMap perGroupBytes).length = perGroupSize * pgs.length := by
  induction pgs with
  | nil => rfl
  | cons pg pgs ih =>
    rw [List.flatMap_cons, List.length_append, ih, length_perGroupBytes, List.length_cons, Nat.mul_succ]
    omega

/-- `t_len` of a `MinimalTuple`: its first word. -/
def tLen (tuple : List UInt8) : Nat := bytesInt (tuple.take 4)

/-- A `MinimalTuple` as the hash table holds it: `t_len` is its length. -/
structure MinimalTupleData where
  bytes : List UInt8
  four_le : 4 ≤ bytes.length
  tLen_eq : tLen bytes = bytes.length

/-! ## Memory -/

/-- A `palloc` chunk: its address, the context it was allocated in followed by
that context's ancestors (resetting any of them frees it), and its bytes. -/
structure Chunk where
  addr : Nat
  contexts : List Nat
  bytes : List UInt8
  deriving DecidableEq, Repr

/-- An expanded object: the address of its header's `eoh_rw_ptr`, its context
and that context's ancestors, and the flat value its `flatten_into` method
writes. -/
structure ExpandedObject where
  header : Nat
  contexts : List Nat
  flat : List UInt8
  deriving DecidableEq, Repr

/-- The chunks and expanded objects alive, and where the next chunk goes. -/
structure Memory where
  chunks : List Chunk
  objects : List ExpandedObject
  next : Nat
  deriving DecidableEq, Repr

namespace Memory

/-- The bytes from address `p` to the end of the chunk it lies in (none at a
pointer one past the end). -/
def bytesAt (m : Memory) (p : Nat) : Option (List UInt8) :=
  (m.chunks.find? fun c => c.addr ≤ p && p ≤ c.addr + c.bytes.length).map fun c => c.bytes.drop (p - c.addr)

/-- `MemoryContextReset`: the context's chunks are freed and its descendants
deleted. -/
def reset (m : Memory) (cxt : Nat) : Memory :=
  { m with chunks := m.chunks.filter fun c => !c.contexts.contains cxt,
           objects := m.objects.filter fun o => !o.contexts.contains cxt }

/-- `MemoryContextAlloc` of a chunk, then filled with `bytes`. -/
def alloc (m : Memory) (contexts : List Nat) (bytes : List UInt8) : Nat × Memory :=
  (m.next, { m with chunks := ⟨m.next, contexts, bytes⟩ :: m.chunks, next := m.next + bytes.length })

end Memory

/-! ## Transitions -/

/-- What the record code reads of `AggStatePerTransData`: the state type's
`typbyval` and `typlen` and whether it is `INTERNAL`, and the serialization
functions, as the varlena `serial_func` returns for a state and the state
`deserial_func` builds from the varlena it is passed (`none`: an invalid
`serial_func_id` / `deserial_func_id`). -/
structure TransLayout where
  transtypeByVal : Bool
  transtypeLen : Int
  transtypeInternal : Bool
  serialFunc : Option (UInt64 → List UInt8)
  deserialFunc : Option (List UInt8 → UInt64)

section

/- `datumGetSize(value, false, typlen)` as it reads the bytes at the pointer;
`VARSIZE_ANY` is `datumGetSize (-1)`. -/
variable (datumGetSize : Int → List UInt8 → Nat)

/-- The `datumGetSize` bytes at the start of `b`, if `b` holds that many. -/
def datumBytes (len : Int) (b : List UInt8) : Option (List UInt8) :=
  if b.length < datumGetSize len b then none else some (b.take (datumGetSize len b))

/-- The bytes a pass-by-reference datum spans in memory. -/
def refBytes (m : Memory) (len : Int) (w : UInt64) : Option (List UInt8) :=
  (m.bytesAt w.toNat).bind (datumBytes datumGetSize len)

/-! ## The record writer -/

/-- What `DumpHybridHashtable` appends after the per-group array for one state:
nothing for a NULL or by-value state, the bytes a pass-by-reference state spans,
`VARSIZE_ANY` bytes of the varlena `serial_func` makes of an `INTERNAL` state.
Reading past a chunk is undefined; it is an error here. -/
def dumpPayload (m : Memory) (pt : TransLayout) (pg : AggStatePerGroup UInt64) : Except String (List UInt8) :=
  if pg.transValueIsNull then .ok []
  else if !pt.transtypeByVal then
    match refBytes datumGetSize m pt.transtypeLen pg.transValue with
    | none => .error "BufFileWrite reads transValue past its chunk"
    | some d => .ok d
  else if pt.transtypeInternal then
    match pt.serialFunc with
    | none => .error "could not serialize the transition value"
    | some sf =>
      match datumBytes datumGetSize (-1) (sf pg.transValue) with
      | none => .error "BufFileWrite reads the serialized state past its varlena"
      | some d => .ok d
  else .ok []

/-- The record `DumpHybridHashtable` writes for an entry with hash `hash`, key
`tuple` and per-group array `pgs` (`numtrans` states, one per element of `pts`).
The C code walks the states twice, summing `total_size` and then writing; the
second walk sees the memory the first saw and reuses its serializations, so one
walk gives both. -/
def dumpRecord (m : Memory) (pts : List TransLayout) (hash : UInt32) (tuple : MinimalTupleData)
    (pgs : List (AggStatePerGroup UInt64)) : Except String (List UInt8) := do
  if pgs.length < pts.length then throw "BufFileWrite reads past entry->additional"
  let payloads ← (pts.zip pgs).mapM fun (pt, pg) => dumpPayload datumGetSize m pt pg
  let totalSize := tuple.bytes.length + perGroupSize * pts.length + (payloads.map List.length).sum
  let body := tuple.bytes ++ (pgs.take pts.length).flatMap perGroupBytes ++ payloads.flatten
  if body.length ≠ totalSize then
    throw s!"DumpHybridHashtable: write_len {body.length} does not match total_size {totalSize}"
  pure (wordBytes 4 hash.toNat ++ wordBytes 8 totalSize ++ body)

/-! ## The record reader -/

/-- The head of `LoadHybridHashtable`'s read loop: `none` at the end of the
file, else the hash key, `total_size`, the `total_size` bytes read into the
buffer, and the rest of the file. -/
def readRecord (file : List UInt8) : Except String (Option (UInt32 × Nat × List UInt8 × List UInt8)) :=
  let (hk, file) := bufFileRead file 4
  if hk.length = 0 then .ok none
  else if hk.length ≠ 4 then .error "LoadHybridHashtable:could not read hash key from bufFile temporary file"
  else
    let (ts, file) := bufFileRead file 8
    if ts.length ≠ 8 then .error "LoadHybridHashtable:could not read total size from bufFile temporary file"
    else
      let (buffer, file) := bufFileRead file (bytesInt ts)
      if buffer.length ≠ bytesInt ts then
        .error "LoadHybridHashtable:could not read PerGroupData from bufFile temporary file"
      else .ok (some (UInt32.ofNat (bytesInt hk), bytesInt ts, buffer, file))

/-- One turn of the read paths' loop over the per-group array: state `pg`, its
payload at offset `cur` of the buffer at address `base`.  A pass-by-reference
state is pointed at its payload, an `INTERNAL` one is deserialized from it;
returns the state and how far the loop moves. -/
def loadState (base : Nat) (buffer : List UInt8) (cur : Nat) (pt : TransLayout) (pg : AggStatePerGroup UInt64) :
    Except String (AggStatePerGroup UInt64 × Nat) :=
  if pg.transValueIsNull then .ok (pg, 0)
  else if !pt.transtypeByVal then
    .ok ({ pg with transValue := UInt64.ofNat (base + cur) }, datumGetSize pt.transtypeLen (buffer.drop cur))
  else if pt.transtypeInternal then
    match pt.deserialFunc with
    | none => .error "could not deserial transition value"
    | some df =>
      let size := datumGetSize (-1) (buffer.drop cur)
      .ok ({ pg with transValue := df ((buffer.drop cur).take size) }, size)
  else .ok (pg, 0)

/-- The read paths' loop over the states, in transition order, from offset
`cur`: the states rebuilt and the offset after the last payload. -/
def loadStates (base : Nat) (buffer : List UInt8) :
    Nat → List TransLayout → List (AggStatePerGroup UInt64) →
      Except String (List (AggStatePerGroup UInt64) × Nat)
  | cur, pt :: pts, pg :: pgs => do
    let (pg', size) ← loadState datumGetSize base buffer cur pt pg
    let (pgs', cur') ← loadStates base buffer (cur + size) pts pgs
    pure (pg' :: pgs', cur')
  | cur, _, _ => pure ([], cur)

/-- A record's buffer read by `LoadHybridHashtable`: allocated in `hybridcxt`
(`cxts` is that context and its ancestors), the `MinimalTuple` at its start,
the per-group array after it, each state rebuilt by `loadStates`.  The new-entry
path makes these the entry's tuple and states; the merge path runs the same
loop over the incoming states and merges each with `combine_transition`.
Returns the tuple and states, the offset the loop stopped at, and the memory. -/
def loadBuffer (cxts : List Nat) (m : Memory) (pts : List TransLayout) (buffer : List UInt8) :
    Except String ((List UInt8 × List (AggStatePerGroup UInt64)) × Nat × Memory) := do
  let (base, m) := m.alloc cxts buffer
  let t := tLen buffer
  let (pgs, cur) ← loadStates datumGetSize base buffer (t + perGroupSize * pts.length) pts
    (perGroupArray pts.length (buffer.drop t))
  pure ((buffer.take t, pgs), cur, m)

/-- The re-spill path: the record as read, appended to a file of the child
set. -/
def respillRecordBytes (hashkey : UInt32) (totalSize : Nat) (buffer : List UInt8) : List UInt8 :=
  wordBytes 4 hashkey.toNat ++ wordBytes 8 totalSize ++ buffer

/-! ## What a state stands for -/

/- `DatumGetEOHP`, on the bytes a varlena datum spans when they are a pointer to
an expanded object (`VARATT_IS_EXTERNAL_EXPANDED`): its header. -/
variable (expandedHeader : List UInt8 → Option Nat)

/-- The value a pass-by-reference datum stands for: the bytes it spans, or, when
they point at an expanded object, that object's flat value; `none` when it
stands for nothing (a dangling pointer). -/
def refValue (m : Memory) (len : Int) (w : UInt64) : Option (List UInt8) :=
  (refBytes datumGetSize m len w).bind fun d =>
    match expandedHeader d with
    | some h => (m.objects.find? fun o => o.header == h).map (·.flat)
    | none => some d

/-- A `datumGetSize` that reads no further than the size it finds: a varlena's
length word, a cstring's terminator, a fixed length. -/
def SelfDelimiting : Prop :=
  ∀ len b rest, datumGetSize len b ≤ b.length →
    datumGetSize len (b.take (datumGetSize len b) ++ rest) = datumGetSize len b

/-- What reading a state back gives, the state written from memory `m` and
read into memory `m'`: the flags; the word of a NULL or by-value state; for a
pass-by-reference state a pointer spanning the same bytes; for an `INTERNAL`
state what `deserial_func` makes of what `serial_func` made. -/
structure StateReloaded (m m' : Memory) (pt : TransLayout) (pg pg' : AggStatePerGroup UInt64) : Prop where
  isNull : pg'.transValueIsNull = pg.transValueIsNull
  noTrans : pg'.noTransValue = pg.noTransValue
  word : pg.transValueIsNull = true ∨ (pt.transtypeByVal = true ∧ pt.transtypeInternal = false) →
    pg'.transValue = pg.transValue
  byRef : pg.transValueIsNull = false → pt.transtypeByVal = false →
    refBytes datumGetSize m' pt.transtypeLen pg'.transValue = refBytes datumGetSize m pt.transtypeLen pg.transValue
  internal : pg.transValueIsNull = false → pt.transtypeByVal = true → pt.transtypeInternal = true →
    ∃ sf df d, pt.serialFunc = some sf ∧ pt.deserialFunc = some df ∧
      datumBytes datumGetSize (-1) (sf pg.transValue) = some d ∧ pg'.transValue = df d

end

/-! ## Reading a written record back -/

section

variable {datumGetSize : Int → List UInt8 → Nat}

/-- The bytes a datum spans, with anything after them, span the same bytes. -/
theorem datumBytes_append (hsd : SelfDelimiting datumGetSize) {len : Int} {b d : List UInt8}
    (h : datumBytes datumGetSize len b = some d) (rest : List UInt8) :
    datumGetSize len (d ++ rest) = d.length ∧ datumBytes datumGetSize len (d ++ rest) = some d := by
  unfold datumBytes at h ⊢
  split at h
  · cases h
  · rename_i hle
    cases h
    have hl := List.length_take_of_le (Nat.le_of_not_lt hle)
    have hn := hsd len b rest (Nat.le_of_not_lt hle)
    refine ⟨hn.trans hl.symm, ?_⟩
    rw [hn, if_neg (by simp only [List.length_append]; omega), List.take_left' hl]

theorem Memory.bytesAt_alloc (m : Memory) (cxts : List Nat) (bytes : List UInt8) {c : Nat}
    (hc : c ≤ bytes.length) :
    (m.alloc cxts bytes).2.bytesAt ((m.alloc cxts bytes).1 + c) = some (bytes.drop c) := by
  simp [Memory.alloc, Memory.bytesAt, hc]

/-- One state read back from the payload the writer made of it. -/
theorem loadState_dump (hsd : SelfDelimiting datumGetSize) {m m' : Memory} {base cur : Nat}
    {buffer rest p : List UInt8} {pt : TransLayout} {pg : AggStatePerGroup UInt64}
    (hp : dumpPayload datumGetSize m pt pg = .ok p) (hdrop : buffer.drop cur = p ++ rest)
    (hat : m'.bytesAt (base + cur) = some (buffer.drop cur)) (hfit : base + cur < 2 ^ 64)
    (hds : pt.transtypeByVal = true → pt.transtypeInternal = true → pt.deserialFunc.isSome) :
    ∃ pg', loadState datumGetSize base buffer cur pt pg = .ok (pg', p.length) ∧
      StateReloaded datumGetSize m m' pt pg pg' := by
  obtain ⟨w, n, t⟩ := pg
  cases n with
  | true =>
    simp only [dumpPayload, if_true] at hp
    cases hp
    exact ⟨⟨w, true, t⟩, rfl, ⟨rfl, rfl, fun _ => rfl, nofun, nofun⟩⟩
  | false =>
    cases hbv : pt.transtypeByVal with
    | false =>
      -- by reference: the payload is the bytes the datum spans
      simp only [dumpPayload, hbv, Bool.false_eq_true, if_false, Bool.not_false, if_true] at hp
      split at hp
      · cases hp
      · rename_i d hd
        cases hp
        obtain ⟨b, -, hb⟩ := Option.bind_eq_some.1 hd
        obtain ⟨hsz, hdb⟩ := datumBytes_append hsd hb rest
        refine ⟨⟨UInt64.ofNat (base + cur), false, t⟩, ?_, ⟨rfl, rfl, ?_, fun _ _ => ?_, ?_⟩⟩
        · simp [loadState, hbv, hdrop, hsz]
        · rintro (h | ⟨h, -⟩) <;> simp_all
        · show refBytes datumGetSize m' _ (UInt64.ofNat (base + cur)) = refBytes datumGetSize m _ w
          rw [hd, refBytes, UInt64.toNat_ofNat_of_lt hfit, hat, hdrop, Option.some_bind, hdb]
        · intro _ h; simp_all
    | true =>
      cases hin : pt.transtypeInternal with
      | false =>
        simp only [dumpPayload, hbv, hin, Bool.false_eq_true, if_false, Bool.not_true] at hp
        cases hp
        exact ⟨⟨w, false, t⟩, by simp [loadState, hbv, hin], ⟨rfl, rfl, fun _ => rfl, fun _ h => by simp_all,
          fun _ _ h => by simp_all⟩⟩
      | true =>
        -- INTERNAL: the payload is the serialized varlena
        simp only [dumpPayload, hbv, hin, Bool.false_eq_true, if_false, Bool.not_true, if_true] at hp
        obtain ⟨df, hdf⟩ := Option.isSome_iff_exists.1 (hds hbv hin)
        split at hp
        · cases hp
        · rename_i sf hsf
          split at hp
          · cases hp
          · rename_i d hd
            cases hp
            obtain ⟨hsz, -⟩ := datumBytes_append hsd hd rest
            refine ⟨⟨df p, false, t⟩, ?_, ⟨rfl, rfl, fun h => by simp_all, fun _ h => by simp_all,
              fun _ _ _ => ⟨sf, df, p, hsf, hdf, hd, rfl⟩⟩⟩
            simp [loadState, hbv, hin, hdf, hdrop, hsz]

/-- The loop over the states reads back each payload the writer made, moving
over exactly those bytes. -/
theorem loadStates_dump (hsd : SelfDelimiting datumGetSize) {m m' : Memory} {base : Nat} {buffer : List UInt8}
    (hat : ∀ c ≤ buffer.length, m'.bytesAt (base + c) = some (buffer.drop c))
    (hfit : base + buffer.length < 2 ^ 64) :
    ∀ (pts : List TransLayout) (pgs : List (AggStatePerGroup UInt64)) (ps : List (List UInt8)) (cur : Nat),
      (pts.zip pgs).mapM (fun (pt, pg) => dumpPayload datumGetSize m pt pg) = .ok ps →
      pgs.length = pts.length → buffer.drop cur = ps.flatten → cur ≤ buffer.length →
      (∀ pt ∈ pts, pt.transtypeByVal = true → pt.transtypeInternal = true → pt.deserialFunc.isSome) →
      ∃ pgs', loadStates datumGetSize base buffer cur pts pgs = .ok (pgs', cur + ps.flatten.length) ∧
        List.Forall₂ (fun x pg' => StateReloaded datumGetSize m m' x.1 x.2 pg') (pts.zip pgs) pgs'
  | [], [], ps, cur, hps, _, _, _, _ => by
    cases hps
    exact ⟨[], rfl, List.Forall₂.nil⟩
  | pt :: pts, pg :: pgs, ps, cur, hps, hlen, hdrop, hcur, hds => by
    rw [List.zip_cons_cons, List.mapM_cons] at hps
    obtain ⟨p, hp, hps⟩ := except_bind_eq_ok hps
    obtain ⟨ps', hps', hps⟩ := except_bind_eq_ok hps
    cases hps
    rw [List.flatten_cons] at hdrop
    obtain ⟨pg', hpg', hrel⟩ :=
      loadState_dump hsd hp hdrop (hat cur hcur) (by omega) (hds pt (List.mem_cons_self _ _))
    have hlen' := congrArg List.length hdrop
    rw [List.length_drop, List.length_append] at hlen'
    have hdrop' : buffer.drop (cur + p.length) = ps'.flatten := by
      rw [← List.drop_drop, hdrop, List.drop_left]
    obtain ⟨pgs', hpgs', hrels⟩ := loadStates_dump hsd hat hfit pts pgs ps' (cur + p.length) hps'
      (by simpa using hlen) hdrop' (by omega) fun pt' h => hds pt' (List.mem_cons_of_mem _ h)
    refine ⟨pg' :: pgs', ?_, List.Forall₂.cons hrel hrels⟩
    simp only [loadStates, hpg', hpgs', bind, Except.bind, List.flatten_cons, List.length_append, Nat.add_assoc]
    rfl
  | [], _ :: _, _, _, _, hlen, _, _, _ => absurd hlen (by simp)
  | _ :: _, [], _, _, _, hlen, _, _, _ => absurd hlen (by simp)

/-- A record as the re-spill path writes it reads back as it was. -/
theorem readRecord_respillRecordBytes (hash : UInt32) (body rest : List UInt8) (hb : body.length < 2 ^ 64) :
    readRecord (respillRecordBytes hash body.length body ++ rest) = .ok (some (hash, body.length, body, rest)) := by
  have h4 : bytesInt (wordBytes 4 hash.toNat) = hash.toNat := bytesInt_wordBytes_of_lt hash.toNat_lt_size
  have h8 : bytesInt (wordBytes 8 body.length) = body.length := bytesInt_wordBytes_of_lt hb
  simp [readRecord, respillRecordBytes, bufFileRead, h4, h8, ofNat_toNat_uint32]

/-- A record `DumpHybridHashtable` wrote, read back by `LoadHybridHashtable`
into whatever memory there is then: the record is its hash and `total_size`
words and then `total_size` bytes, as the re-spill path writes it out again;
the read consumes exactly them, the loop over the states stops at their end,
and the tuple comes back byte for byte and every state as `StateReloaded`
says. -/
theorem dumpRecord_reload (hsd : SelfDelimiting datumGetSize) {m m₀ : Memory} {pts : List TransLayout}
    {hash : UInt32} {tuple : MinimalTupleData} {pgs : List (AggStatePerGroup UInt64)} {rec : List UInt8}
    (hrec : dumpRecord datumGetSize m pts hash tuple pgs = .ok rec) (hlen : pgs.length = pts.length)
    (hds : ∀ pt ∈ pts, pt.transtypeByVal = true → pt.transtypeInternal = true → pt.deserialFunc.isSome)
    (cxts : List Nat) (hfit : m₀.next + rec.length < 2 ^ 64) (rest : List UInt8) :
    ∃ body pgs' m', rec = respillRecordBytes hash body.length body ∧
      readRecord (rec ++ rest) = .ok (some (hash, body.length, body, rest)) ∧
      loadBuffer datumGetSize cxts m₀ pts body = .ok ((tuple.bytes, pgs'), body.length, m') ∧
      List.Forall₂ (fun x pg' => StateReloaded datumGetSize m m' x.1 x.2 pg') (pts.zip pgs) pgs' := by
  unfold dumpRecord at hrec
  simp only [show ¬ pgs.length < pts.length by omega, if_false, pure_bind] at hrec
  obtain ⟨ps, hps, hrec⟩ := except_bind_eq_ok hrec
  rw [List.take_of_length_le (by omega)] at hrec
  have harrlen : (pgs.flatMap perGroupBytes).length = perGroupSize * pts.length := by
    rw [length_flatMap_perGroupBytes, hlen]
  have hblen : (tuple.bytes ++ pgs.flatMap perGroupBytes ++ ps.flatten).length =
      tuple.bytes.length + perGroupSize * pts.length + (ps.map List.length).sum := by
    rw [List.length_append, List.length_append, harrlen, List.length_flatten]
  simp only [hblen, ne_eq, not_true_eq_false, if_false] at hrec
  obtain rfl := (Except.ok.inj hrec).symm
  rw [← hblen]
  simp only [List.length_append, length_wordBytes, harrlen] at hfit
  generalize hbody : tuple.bytes ++ pgs.flatMap perGroupBytes ++ ps.flatten = body
  -- the buffer: the tuple, the array, the payloads
  have htlen : tLen body = tuple.bytes.length := by
    rw [tLen, ← hbody, List.append_assoc, List.take_append_of_le_length tuple.four_le]
    exact tuple.tLen_eq
  have hdropt : body.drop tuple.bytes.length = pgs.flatMap perGroupBytes ++ ps.flatten := by
    rw [← hbody, List.append_assoc, List.drop_left]
  have hdropc : body.drop (tuple.bytes.length + perGroupSize * pts.length) = ps.flatten := by
    rw [← List.drop_drop, hdropt, ← harrlen, List.drop_left]
  have hend : tuple.bytes.length + perGroupSize * pts.length + ps.flatten.length = body.length := by
    rw [← hbody, List.length_append, List.length_append, harrlen]
  have harr : perGroupArray pts.length (body.drop tuple.bytes.length) = pgs := by
    rw [hdropt, ← hlen, perGroupArray_flatMap]
  obtain ⟨pgs', hload, hrel⟩ := loadStates_dump hsd (fun c hc => Memory.bytesAt_alloc m₀ cxts body hc)
    (by simp only [Memory.alloc]; omega) pts pgs ps _ hps hlen hdropc (by omega) hds
  refine ⟨body, pgs', (m₀.alloc cxts body).2, rfl,
    readRecord_respillRecordBytes hash body rest (by omega), ?_, hrel⟩
  simp only [loadBuffer, htlen, harr, hload, hend, bind, Except.bind]
  rw [← hbody, List.append_assoc, List.take_left]
  rfl

end

/-- A `datumGetSize` for types ten bytes wide. -/
def tenBytes : Int → List UInt8 → Nat := fun _ _ => 10

theorem selfDelimiting_tenBytes : SelfDelimiting tenBytes := fun _ _ _ _ => rfl

/-- A `MinimalTuple` of eight bytes. -/
def eightByteTuple : MinimalTupleData := ⟨wordBytes 4 8 ++ [0, 0, 0, 0], by decide, by decide⟩

/-- A varlena state at address 100, in `hybridcxt` (5, under `tablecxt`, 1). -/
def varlenaMemory : Memory := ⟨[⟨100, [5, 1], [40, 0, 0, 0, 104, 105, 0, 0, 0, 0]⟩], [], 200⟩

/-- A varlena transition and an `INTERNAL` one whose serial form is its word in ten bytes. -/
def varlenaAndInternal : List TransLayout :=
  [⟨false, -1, false, none, none⟩,
   ⟨true, 8, true, some fun w => wordBytes 10 w.toNat, some fun d => UInt64.ofNat (bytesInt d)⟩]

theorem varlenaAndInternal_reload :
    ∃ rec, dumpRecord tenBytes varlenaMemory varlenaAndInternal 7 eightByteTuple
        [⟨100, false, false⟩, ⟨42, false, true⟩] = .ok rec ∧
      ∃ body pgs' m', rec = respillRecordBytes 7 body.length body ∧
        readRecord (rec ++ []) = .ok (some (7, body.length, body, [])) ∧
        loadBuffer tenBytes [5, 1] varlenaMemory varlenaAndInternal body =
          .ok ((eightByteTuple.bytes, pgs'), body.length, m') ∧
        List.Forall₂ (fun x pg' => StateReloaded tenBytes varlenaMemory m' x.1 x.2 pg')
          (varlenaAndInternal.zip [⟨100, false, false⟩, ⟨42, false, true⟩]) pgs' := by
  refine ⟨_, rfl, dumpRecord_reload selfDelimiting_tenBytes ?_ ?_ ?_ [5, 1] ?_ []⟩
  all_goals first | rfl | decide

section

variable {datumGetSize : Int → List UInt8 → Nat}

theorem forall₂_getElem? {α β : Type} {R : α → β → Prop} {l₁ : List α} {l₂ : List β}
    (h : List.Forall₂ R l₁ l₂) : ∀ {i : Nat} {a : α}, l₁[i]? = some a → ∃ b, l₂[i]? = some b ∧ R a b := by
  induction h with
  | nil => intro i a ha; simp at ha
  | cons hab _ ih =>
    intro i a ha
    cases i with
    | zero =>
      rw [List.getElem?_cons_zero, Option.some_inj] at ha
      exact ⟨_, List.getElem?_cons_zero, ha ▸ hab⟩
    | succ i =>
      rw [List.getElem?_cons_succ] at ha ⊢
      exact ih ha

/-- The read leaves the expanded objects as they were. -/
theorem loadBuffer_objects {cxts : List Nat} {m₀ m' : Memory} {pts : List TransLayout} {buffer : List UInt8}
    {x : List UInt8 × List (AggStatePerGroup UInt64)} {c : Nat}
    (h : loadBuffer datumGetSize cxts m₀ pts buffer = .ok (x, c, m')) : m'.objects = m₀.objects := by
  unfold loadBuffer at h
  obtain ⟨⟨pgs, cur⟩, -, h⟩ := except_bind_eq_ok h
  rw [← (Prod.mk.inj (Prod.mk.inj (Except.ok.inj h)).2).2]

/-- A pass-by-reference state whose bytes point at an expanded object is
written and read back as that pointer, not as the object.  The written state
stood for the object's value; once the reset of a context holding the object
has freed it, the state read back stands for nothing. -/
theorem dumpRecord_reload_expanded (hsd : SelfDelimiting datumGetSize) (expandedHeader : List UInt8 → Option Nat)
    {m : Memory} {pts : List TransLayout} {hash : UInt32} {tuple : MinimalTupleData}
    {pgs : List (AggStatePerGroup UInt64)} {rec : List UInt8}
    (hrec : dumpRecord datumGetSize m pts hash tuple pgs = .ok rec) (hlen : pgs.length = pts.length)
    (hds : ∀ pt ∈ pts, pt.transtypeByVal = true → pt.transtypeInternal = true → pt.deserialFunc.isSome)
    (cxt : Nat) (cxts : List Nat) (hfit : (m.reset cxt).next + rec.length < 2 ^ 64)
    {i : Nat} {pt : TransLayout} {pg : AggStatePerGroup UInt64} (hpt : pts[i]? = some pt) (hpg : pgs[i]? = some pg)
    (hnn : pg.transValueIsNull = false) (hbr : pt.transtypeByVal = false)
    {d : List UInt8} {h : Nat} (hd : refBytes datumGetSize m pt.transtypeLen pg.transValue = some d)
    (hh : expandedHeader d = some h) (hobj : ∃ o ∈ m.objects, o.header = h)
    (hfreed : ∀ o ∈ m.objects, o.header = h → cxt ∈ o.contexts) :
    (refValue datumGetSize expandedHeader m pt.transtypeLen pg.transValue).isSome ∧
    ∃ body tup pgs' m', readRecord rec = .ok (some (hash, body.length, body, [])) ∧
      loadBuffer datumGetSize cxts (m.reset cxt) pts body = .ok ((tup, pgs'), body.length, m') ∧
      ∃ pg', pgs'[i]? = some pg' ∧ refValue datumGetSize expandedHeader m' pt.transtypeLen pg'.transValue = none := by
  obtain ⟨o, ho, hoh⟩ := hobj
  refine ⟨?_, ?_⟩
  · simp only [refValue, hd, Option.some_bind, hh]
    rw [Option.isSome_map', List.find?_isSome]
    exact ⟨o, ho, by simp [hoh]⟩
  obtain ⟨body, pgs', m', -, hread, hload, hrel⟩ := dumpRecord_reload hsd hrec hlen hds cxts hfit []
  rw [List.append_nil] at hread
  obtain ⟨pg', hpg', hr⟩ := forall₂_getElem? hrel ((List.getElem?_zip_eq_some (z := (pt, pg))).2 ⟨hpt, hpg⟩)
  refine ⟨body, tuple.bytes, pgs', m', hread, hload, pg', hpg', ?_⟩
  have hobjs : m'.objects = (m.reset cxt).objects := loadBuffer_objects hload
  simp only [refValue, hr.byRef hnn hbr, hd, Option.some_bind, hh, hobjs, Memory.reset, Option.map_eq_none',
    List.find?_eq_none, List.mem_filter, beq_iff_eq]
  rintro o' ⟨ho', hc⟩ rfl
  simp [hfreed o' ho' rfl] at hc

end

/-- `VARATT_IS_EXTERNAL_EXPANDED` and `DatumGetEOHP` on ten bytes: the 1-byte
external header, `VARTAG_EXPANDED_RW` or `_RO`, then the header's address. -/
def expandedAt (d : List UInt8) : Option Nat :=
  if d.take 2 = [1, 3] ∨ d.take 2 = [1, 2] then some (bytesInt (d.drop 2)) else none

/-- An array state kept as an expanded object, as `advance_transition_function`
keeps one whose context (8) is a child of `hybridcxt` (5): the state points at
`eoh_rw_ptr` in the object's header, at address 100. -/
def expandedArrayMemory : Memory :=
  ⟨[⟨100, [8, 5, 1], [1, 3] ++ wordBytes 8 100 ++ [1, 2] ++ wordBytes 8 100⟩],
   [⟨100, [8, 5, 1], [32, 0, 0, 0, 1, 0, 0, 0]⟩], 200⟩

/-- An `anyarray` transition (`typlen` -1, by reference). -/
def arrayTrans : TransLayout := ⟨false, -1, false, none, none⟩

/-- Its non-NULL state, pointing at the expanded array. -/
def arrayState : AggStatePerGroup UInt64 := ⟨100, false, false⟩

theorem expandedArrayState_dangles :
    ∃ rec, dumpRecord tenBytes expandedArrayMemory [arrayTrans] 7 eightByteTuple [arrayState] = .ok rec ∧
      (refValue tenBytes expandedAt expandedArrayMemory arrayTrans.transtypeLen arrayState.transValue).isSome ∧
      ∃ body tup pgs' m', readRecord rec = .ok (some (7, body.length, body, [])) ∧
        loadBuffer tenBytes [5, 1] (expandedArrayMemory.reset 5) [arrayTrans] body =
          .ok ((tup, pgs'), body.length, m') ∧
        ∃ pg', pgs'[0]? = some pg' ∧ refValue tenBytes expandedAt m' arrayTrans.transtypeLen pg'.transValue = none := by
  refine ⟨_, rfl, dumpRecord_reload_expanded selfDelimiting_tenBytes expandedAt
    (show dumpRecord tenBytes expandedArrayMemory [arrayTrans] 7 eightByteTuple [arrayState] = .ok _ from rfl)
    ?_ ?_ 5 [5, 1] ?_ ?_ ?_ ?_ ?_ (d := [1, 3] ++ wordBytes 8 100) ?_ ?_ ⟨_, List.mem_singleton_self _, rfl⟩ ?_⟩
  all_goals first | rfl | decide

end NodeAgg

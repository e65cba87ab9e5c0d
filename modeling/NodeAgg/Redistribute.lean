import NodeAgg.RingBuffer

/-!
# Redistribution through temp files

When the ring to a peer is full, `ReDistributeData` appends the row to that
peer's temp file instead: its length as an `int`, then its bytes (the ring's
`frame`).  Once the rings to it are drained, `GetReDistributeData` reads the
merged files back one record at a time.

The reader allocates the buffer for a record's bytes after reading its
length: the length itself for a data row, but `palloc0(nread)` for a minimal or
a heap tuple, `nread` being the 4 bytes of the length word just read.
`BufFileRead(file, data, dataLen)` then writes the whole record into those 4
bytes, so no minimal or heap tuple read back from a file stays within its
buffer (`getReDistributeFileData_overruns`).  Data rows come back intact and in
file order (`getReDistributeFileRows_dataRow`).
-/

namespace NodeAgg

/-- `ReDistributeDataType`: what the slots carried through a ring or a file
hold. -/
inductive ReDistributeDataType where
  | none
  | dataRow
  | minimalTup
  | heapTup
  deriving DecidableEq, Repr

/-- `BufFileRead(file, buf, n)` on the merged files: the bytes read, at most
`n`, and the bytes left.  It reads through the boundaries between the merged
files, so it comes back short only at the end. -/
def bufFileRead (file : List UInt8) (n : Nat) : List UInt8 × List UInt8 := (file.take n, file.drop n)

/-- The length a tuple's own header gives: `t_len` for a minimal tuple, and
`t_len + HEAPTUPLESIZE` for a heap tuple sent with its `HeapTupleData`. -/
def ownLength (dataType : ReDistributeDataType) (heapTupleSize : Nat) (data : List UInt8) : Nat :=
  if dataType = .heapTup then bytesInt (data.take 4) + heapTupleSize else bytesInt (data.take 4)

/-- The file part of `GetReDistributeData` (`READ_LENGTH`, `READ_DATA` and the
checks after them): one record of the merged file, or `none` at its end.
Writing past the end of the record's buffer is undefined; it is an error here. -/
def getReDistributeFileData (dataType : ReDistributeDataType) (heapTupleSize : Nat) (file : List UInt8) :
    Except String (Option (List UInt8) × List UInt8) := do
  let (word, file) := bufFileRead file 4
  let nread := word.length
  if nread = 0 then return (none, file)
  if nread ≠ 4 then throw "could not read dataLen in ReDistribute bufFile."
  let dataLen := bytesInt word
  -- `palloc(sizeof(RemoteDataRowData) + dataLen)`, or `palloc0(nread)`
  let capacity := if dataType = .dataRow then dataLen else nread
  let (data, file) := bufFileRead file dataLen
  if capacity < data.length then throw "BufFileRead writes dataLen bytes into a buffer of palloc0(nread) bytes."
  if data.length = 0 then
    if file = [] then throw "no data in bufFile while reading data."
    else throw "GetReDistributeData: goto READ_DATA reads 0 bytes forever."
  if data.length ≠ dataLen then throw "could not read data in ReDistribute bufFile."
  match dataType with
  | .minimalTup =>
    if ownLength dataType heapTupleSize data ≠ dataLen then
      throw "data len mismatch between minimal tup and length read from bufFile."
    return (some data, file)
  | .heapTup =>
    if ownLength dataType heapTupleSize data ≠ dataLen then
      throw "data len mismatch between heap tup and length read from bufFile."
    return (some data, file)
  | .dataRow => return (some data, file)
  | .none => throw "wrong data type while getting ReDistributeData."

/-- The calls of `GetReDistributeData` that read the file, until it reports the
end of the data; `fuel` bounds the records. -/
def getReDistributeFileRows (dataType : ReDistributeDataType) (heapTupleSize : Nat) :
    Nat → List UInt8 → Except String (List (List UInt8))
  | 0, _ => throw "GetReDistributeData: more records than the fuel"
  | fuel + 1, file => do
    match ← getReDistributeFileData dataType heapTupleSize file with
    | (none, _) => return []
    | (some data, file) => return data :: (← getReDistributeFileRows dataType heapTupleSize fuel file)

theorem bufFileRead_frame (data rest : List UInt8) :
    bufFileRead (frame data ++ rest) 4 = (intBytes data.length, data ++ rest) := by
  simp [bufFileRead, frame, List.take_append_of_le_length, List.drop_append_of_le_length]

theorem bufFileRead_append (data rest : List UInt8) :
    bufFileRead (data ++ rest) data.length = (data, rest) := by
  simp [bufFileRead]

/-- The end of the merged file is the end of the data. -/
theorem getReDistributeFileData_nil (dataType : ReDistributeDataType) (heapTupleSize : Nat) :
    getReDistributeFileData dataType heapTupleSize [] = .ok (none, []) := rfl

/-- A data row's record comes back whole, the file left at the next record. -/
theorem getReDistributeFileData_dataRow (heapTupleSize : Nat) {data : List UInt8} (rest : List UInt8)
    (hpos : 0 < data.length) (hlen : data.length < 2 ^ 32) :
    getReDistributeFileData .dataRow heapTupleSize (frame data ++ rest) = .ok (some data, rest) := by
  simp only [getReDistributeFileData, bufFileRead_frame, bytesInt_intBytes hlen, bufFileRead_append,
    length_intBytes, if_pos rfl]
  simp [Nat.pos_iff_ne_zero.1 hpos]
  rfl

/-- Every record of a minimal or a heap tuple longer than the 4 bytes of its
length word overruns the `palloc0(nread)` buffer it is read into. -/
theorem getReDistributeFileData_overruns {dataType : ReDistributeDataType} (heapTupleSize : Nat)
    (htype : dataType = .minimalTup ∨ dataType = .heapTup) {data : List UInt8} (rest : List UInt8)
    (hlong : 4 < data.length) (hlen : data.length < 2 ^ 32) :
    getReDistributeFileData dataType heapTupleSize (frame data ++ rest) =
      .error "BufFileRead writes dataLen bytes into a buffer of palloc0(nread) bytes." := by
  have hrow : dataType ≠ .dataRow := by rcases htype with rfl | rfl <;> decide
  simp only [getReDistributeFileData, bufFileRead_frame, bytesInt_intBytes hlen, bufFileRead_append,
    length_intBytes, if_neg hrow]
  simp [hlong]
  rfl

/-- A minimal tuple of 16 bytes, its `t_len` first. -/
def sixteenByteTuple : List UInt8 := intBytes 16 ++ List.replicate 12 0

theorem sixteenByteTuple_overruns :
    sixteenByteTuple.length < 2 ^ 32 ∧
      getReDistributeFileData .minimalTup 24 (frame sixteenByteTuple) =
        .error "BufFileRead writes dataLen bytes into a buffer of palloc0(nread) bytes." :=
  ⟨by decide, by
    simpa using @getReDistributeFileData_overruns _ 24 (.inl rfl) sixteenByteTuple [] (by decide) (by decide)⟩

/-- A call that reads a record adds it before the rows of the later calls. -/
theorem getReDistributeFileRows_some {dataType : ReDistributeDataType} {heapTupleSize fuel : Nat}
    {file file' data : List UInt8} (h : getReDistributeFileData dataType heapTupleSize file = .ok (some data, file')) :
    getReDistributeFileRows dataType heapTupleSize (fuel + 1) file =
      (getReDistributeFileRows dataType heapTupleSize fuel file').map (data :: ·) := by
  rw [getReDistributeFileRows, h]
  simp only [bind, Except.bind]
  cases getReDistributeFileRows dataType heapTupleSize fuel file' <;> rfl

/-- Data rows written to a file come back in file order, then the end of the
data. -/
theorem getReDistributeFileRows_dataRow (heapTupleSize : Nat) :
    ∀ (rows : List (List UInt8)), (∀ r ∈ rows, 0 < r.length ∧ r.length < 2 ^ 32) →
      getReDistributeFileRows .dataRow heapTupleSize (rows.length + 1) (rows.map frame).flatten = .ok rows
  | [], _ => rfl
  | r :: rows, h => by
    have hr := h r (List.mem_cons_self _ _)
    have ih := getReDistributeFileRows_dataRow heapTupleSize rows fun r' hr' => h r' (List.mem_cons_of_mem _ hr')
    rw [List.length_cons, List.map_cons, List.flatten_cons,
      getReDistributeFileRows_some (getReDistributeFileData_dataRow heapTupleSize _ hr.1 hr.2), ih]
    rfl

theorem twoDataRows_readBack :
    (∀ r ∈ [[1], [2, 3]], 0 < r.length ∧ r.length < 2 ^ 32) ∧
      getReDistributeFileRows .dataRow 24 3 ([[1], [2, 3]].map frame).flatten = .ok [[1], [2, 3]] :=
  ⟨by decide, getReDistributeFileRows_dataRow 24 [[1], [2, 3]] (by decide)⟩

end NodeAgg

import Mathlib.Algebra.Order.Ring.Nat
import NodeAgg.Trans

/-!
# Hash tables and the hybrid spill engine

A hashed grouping set keeps a `TupleHashTable`: one entry per group, holding the
group's compacted key tuple (`firstTuple`), its hash and its per-transition
states (`additional`).  The entries are a list in iteration order; lookup goes
by hash and the set's key equality, and a new key is appended.

In hybrid mode the table admits at most `nentries` entries.  When a new key
finds it full, `DumpHybridHashtable` writes every entry to a batch file of the
current spill set (file `hash % nbatches`) and empties the table.  At the end
of input the tables are dumped once more and reloaded batch by batch:
`LoadHybridHashtable` reads one file, merging records of a key already in the
table with `combine_transition`, inserting new keys while there is room, and
re-spilling the records of keys that find the table full into a child spill
set of `num_files + 1` files; it descends into that child set once the file is
read, and climbs back to the parent set when a set is exhausted.

Spill sets and spill files point at each other (`child_spill_set`,
`parent_spill_set`, `spill_file[]`), and `hashtable->spill_set` points at the
set being drained.  They are kept as in the C code, as two arrays with indices
for pointers.  A record is modelled by its content: hash, key tuple and the
per-group array with each non-NULL INTERNAL state replaced by its serialized
form; `NodeAgg.RecordBytes` models its bytes.

The simplehash internals are not in `nodeAgg.c`.  `LookupTupleHashEntry` and
`tuplehash_insert_with_key` follow §4.4 of the spec: a hybrid table that is at
capacity returns no entry for a new key.
-/

namespace NodeAgg

/-- `TupleHashEntryData`. -/
structure TupleHashEntry (D : Type) where
  firstTuple : Tuple D
  additional : List (AggStatePerGroup D)
  hash : UInt32
  deriving DecidableEq, Repr

/-- The content of one spilled record: `hash`, the `MinimalTuple`, and the
`AggStatePerGroupData` array whose non-NULL INTERNAL states are in serialized
form (the payload the C code appends after the array). -/
structure SpillRecord (D : Type) where
  hash : UInt32
  tuple : Tuple D
  pergroup : List (AggStatePerGroup D)
  deriving DecidableEq, Repr

/-- `SpillFile`: a temporary file of records with its counters, and the child
spill set its reload overflowed into. -/
structure SpillFile (D : Type) where
  ntupsRead : Nat
  ntupsWrite : Nat
  spilled : Bool
  childSpillSet : Option Nat
  /-- The records written to the `BufFile`, in write order. -/
  file : List (SpillRecord D)
  /-- `BufFileClose` has been called. -/
  closed : Bool
  deriving DecidableEq, Repr

/-- `SpillSet`: `num_files` batch-file slots, the next one to load, and the
parent set (none at the top level). -/
structure SpillSet where
  level : Nat
  numFiles : Nat
  parentIndex : Int
  parentSpillSet : Option Nat
  currentFile : Nat
  spillFile : List (Option Nat)
  deriving DecidableEq, Repr

/-- `TupleHashTableData`, with the hybrid extension and the spill sets and
files it allocated (`sets[i]` and `files[i]` are what pointer `i` refers to). -/
structure TupleHashTable (D : Type) where
  entries : List (TupleHashEntry D)
  hybrid : Bool
  nentries : Nat
  nbatches : Nat
  spilled : Bool
  spillSet : Option Nat
  sets : List SpillSet
  files : List (SpillFile D)
  deriving DecidableEq, Repr

/-- The per-hashed-set constants `AggStatePerHashData` holds.  `hashfunc` is
`TupleHashTableHash` with the set's hash functions over the key columns of a
compacted tuple. -/
structure AggStatePerHash (D : Type) where
  numCols : Nat
  hashGrpColIdxInput : List Nat
  hashGrpColIdxHash : List Nat
  eqfunctions : List (D → D → Bool)
  hashfunc : Tuple D → UInt32
  /-- `aggnode->hybrid`, `entrySize`, `numGroups` of the set's Agg node. -/
  hybrid : Bool
  entrySize : Nat
  numGroups : Nat

/-! ## Computations that may fail -/

/-- A computation in `Except` that succeeded: so did its first step, and the
rest on that step's result. -/
theorem except_bind_eq_ok {ε α β : Type} {x : Except ε α} {f : α → Except ε β} {b : β}
    (h : x >>= f = .ok b) : ∃ a, x = .ok a ∧ f a = .ok b := by
  cases x with
  | error e => cases h
  | ok a => exact ⟨a, rfl, h⟩

/-- A property every successful step of a `foldlM` keeps holds of its result. -/
theorem foldlM_ok_of_step {ε α β : Type} (P : β → Prop) {f : β → α → Except ε β}
    (hf : ∀ b a b', f b a = .ok b' → P b → P b') :
    ∀ (l : List α) {b b' : β}, l.foldlM f b = .ok b' → P b → P b'
  | [], _, _, h, hb => by cases h; exact hb
  | a :: l, b, b', h, hb => by
    rw [List.foldlM_cons] at h
    obtain ⟨b1, h1, h2⟩ := except_bind_eq_ok h
    exact foldlM_ok_of_step P hf l h2 (hf b a b1 h1 hb)

section

variable {D : Type}

instance : Inhabited (AggStatePerHash D) := ⟨⟨0, [], [], [], fun _ => 0, false, 0, 0⟩⟩

namespace TupleHashTable

/-- An empty table, as `BuildTupleHashTable` makes it. -/
def empty : TupleHashTable D :=
  ⟨[], false, 0, 0, false, none, [], []⟩

/-- `tuplehash_reset` together with the reset of the hybrid context: the
entries are gone, the spill state stays. -/
def reset (t : TupleHashTable D) : TupleHashTable D := { t with entries := [] }

@[simp] theorem reset_entries (t : TupleHashTable D) : t.reset.entries = [] := rfl

end TupleHashTable

variable [Inhabited D]

namespace TupleHashTable

/-- Whether a hybrid table has no room for another entry. -/
def full (t : TupleHashTable D) : Bool := t.hybrid && t.nentries ≤ t.entries.length

/-- Replace entry `i`'s per-group states. -/
def setAdditional (t : TupleHashTable D) (i : Nat) (pgs : List (AggStatePerGroup D)) :
    TupleHashTable D :=
  { t with entries := t.entries.modify (fun e => { e with additional := pgs }) i }

/-- Apply `f` to entry `i`'s per-group states. -/
def modifyAdditional (t : TupleHashTable D) (i : Nat)
    (f : List (AggStatePerGroup D) → List (AggStatePerGroup D)) : TupleHashTable D :=
  { t with entries := t.entries.modify (fun e => { e with additional := f e.additional }) i }

end TupleHashTable

/-- `TupleHashTableMatch`: two compacted tuples agree on the key columns. -/
def AggStatePerHash.keysMatch (ph : AggStatePerHash D) (a b : Tuple D) : Bool :=
  execTuplesMatch ph.eqfunctions ph.hashGrpColIdxHash ph.numCols a b

/-- The entry a probe with this hash and key finds, if any. -/
def findEntry (ph : AggStatePerHash D) (entries : List (TupleHashEntry D)) (hash : UInt32)
    (key : Tuple D) : Option Nat :=
  entries.findIdx? fun e => e.hash == hash && ph.keysMatch e.firstTuple key

/-- `tuplehash_insert_with_key`: the entry for `key` under the given hash,
whether it was found, or no entry when a full hybrid table has no room for a
new key.  A new entry starts with no per-group states. -/
def insertWithKey (ph : AggStatePerHash D) (t : TupleHashTable D) (key : Tuple D)
    (hash : UInt32) : Option (Nat × Bool) × TupleHashTable D :=
  match findEntry ph t.entries hash key with
  | some i => (some (i, true), t)
  | none =>
    if t.full then (none, t)
    else (some (t.entries.length, false),
      { t with entries := t.entries ++ [⟨key, [], hash⟩] })

/-- `LookupTupleHashEntry`: insert with the hash computed from the key; the
flag is `isnew`. -/
def lookupTupleHashEntry (ph : AggStatePerHash D) (t : TupleHashTable D) (key : Tuple D) :
    Option (Nat × Bool) × TupleHashTable D :=
  match insertWithKey ph t key (ph.hashfunc key) with
  | (r, t') => (r.map fun p => (p.1, !p.2), t')

/-! ## Spill sets and files -/

namespace TupleHashTable

/-- The spill set `hashtable->spill_set` points at. -/
def curSet? (t : TupleHashTable D) : Option (Nat × SpillSet) :=
  t.spillSet.bind fun i => (t.sets.get? i).map fun s => (i, s)

def setSet (t : TupleHashTable D) (i : Nat) (s : SpillSet) : TupleHashTable D :=
  { t with sets := t.sets.set i s }

def modifyFile (t : TupleHashTable D) (i : Nat) (f : SpillFile D → SpillFile D) :
    TupleHashTable D :=
  { t with files := t.files.modify f i }

/-- `palloc` of a new spill set: its pointer and the table owning it. -/
def newSet (t : TupleHashTable D) (s : SpillSet) : Nat × TupleHashTable D :=
  (t.sets.length, { t with sets := t.sets ++ [s] })

/-- `palloc` and `BufFileCreateTemp` of a new, empty spill file. -/
def newFile (t : TupleHashTable D) : Nat × TupleHashTable D :=
  (t.files.length, { t with files := t.files ++ [⟨0, 0, false, none, [], false⟩] })

/-- The file in slot `k` of set `si`, created on first use. -/
def fileInSlot (t : TupleHashTable D) (si : Nat) (s : SpillSet) (k : Nat) :
    Except String (Nat × TupleHashTable D) :=
  match s.spillFile.get? k with
  | none => .error "spill file index out of range"
  | some (some fi) => .ok (fi, t)
  | some none =>
    let (fi, t') := t.newFile
    .ok (fi, t'.setSet si { s with spillFile := s.spillFile.set k (some fi) })

/-- `BufFileWrite` of one record, counted in `ntups_write`. -/
def appendRecord (t : TupleHashTable D) (fi : Nat) (r : SpillRecord D) : TupleHashTable D :=
  t.modifyFile fi fun f => { f with file := f.file ++ [r], ntupsWrite := f.ntupsWrite + 1 }

end TupleHashTable

/-- The record `DumpHybridHashtable` writes for one entry: each non-NULL
INTERNAL state goes through `serial_func`, which must exist. -/
def spillRecordOf (pts : List (AggStatePerTrans D)) (e : TupleHashEntry D) :
    Except String (SpillRecord D) := do
  let pgs ← (pts.zip e.additional).mapM fun (pt, pg) =>
    if !pg.transValueIsNull && pt.transtypeByVal && pt.transtypeInternal then
      match pt.serialFunc with
      | none => .error "could not serialize the transition value"
      | some sf => .ok { pg with transValue := (sf.fnAddr [pg.toArg]).value }
    else .ok pg
  .ok ⟨e.hash, e.firstTuple, pgs⟩

/-- The first-time preparation of `DumpHybridHashtable`: a top-level spill set
of `nbatches` empty slots. -/
def prepareSpillSet (t : TupleHashTable D) : TupleHashTable D :=
  if t.spilled then t
  else
    let (i, t') := t.newSet ⟨0, t.nbatches, -1, none, 0, List.replicate t.nbatches none⟩
    { t' with spilled := true, spillSet := some i }

/-- One iteration of the dump loop: the entry's record goes to file
`hash % nbatches` of the current spill set. -/
def dumpEntry (pts : List (AggStatePerTrans D)) (t : TupleHashTable D) (e : TupleHashEntry D) :
    Except String (TupleHashTable D) := do
  let (si, s) ← match t.curSet? with
    | none => Except.error "DumpHybridHashtable: hashtable->spill_set is NULL"
    | some p => Except.ok p
  let (fi, t) ← t.fileInSlot si s (e.hash.toNat % t.nbatches)
  let r ← spillRecordOf pts e
  .ok (t.appendRecord fi r)

/-- `DumpHybridHashtable`: write every entry out, then empty the table. -/
def dumpHybridHashtable (pts : List (AggStatePerTrans D)) (t : TupleHashTable D) :
    Except String (TupleHashTable D) := do
  let t := prepareSpillSet t
  let t ← t.entries.foldlM (dumpEntry pts) t
  .ok t.reset

/-- The per-group states a reloaded record yields: a non-NULL INTERNAL state is
deserialized through `deserial_func`, which must exist; the rest are as read. -/
def reloadPergroup (pts : List (AggStatePerTrans D)) (pgs : List (AggStatePerGroup D)) :
    Except String (List (AggStatePerGroup D)) :=
  (pts.zip pgs).mapM fun (pt, pg) =>
    if !pg.transValueIsNull && pt.transtypeByVal && pt.transtypeInternal then
      match pt.deserialFunc with
      | none => .error "could not deserial transition value"
      | some df => .ok { pg with transValue := (df.fnAddr [⟨pg.transValue, false⟩, ⟨default, false⟩]).value }
    else .ok pg

/-- The merge path of `LoadHybridHashtable`: each re-read state is combined
into the entry's state by `combine_transition`. -/
def mergePergroup (pts : List (AggStatePerTrans D)) (cur incoming : List (AggStatePerGroup D)) :
    Except String (List (AggStatePerGroup D)) :=
  ((pts.zip cur).zip incoming).mapM fun ((pt, pg), m) => combineTransition pt m.toArg pg

/-- The re-spill path of `LoadHybridHashtable`: a record whose key found the
table full goes verbatim to file `hash % num_files` of the child set of the
file being read, the child set being created (one file more than the current
set, one level deeper) on first use. -/
def respillRecord (t : TupleHashTable D) (si : Nat) (s : SpillSet) (fi : Nat) (r : SpillRecord D) :
    Except String (TupleHashTable D) := do
  let f ← match t.files.get? fi with
    | none => Except.error "spill file pointer out of range"
    | some f => Except.ok f
  let (ci, t) ←
    if f.spilled then
      match f.childSpillSet with
      | none => Except.error "spill file has no child spill set"
      | some ci => Except.ok (ci, t)
    else
      let (ci, t) := t.newSet ⟨s.level + 1, s.numFiles + 1, s.currentFile, some si, 0,
        List.replicate (s.numFiles + 1) none⟩
      Except.ok (ci, t.modifyFile fi fun f => { f with spilled := true, childSpillSet := some ci })
  let cs ← match t.sets.get? ci with
    | none => Except.error "spill set pointer out of range"
    | some cs => Except.ok cs
  let (cfi, t) ← t.fileInSlot ci cs (r.hash.toNat % cs.numFiles)
  .ok (t.appendRecord cfi r)

/-- One record of the read loop of `LoadHybridHashtable`, reading file `fi` of
set `si`: merge into an existing entry, respill when the table is full, or
create a new entry from the record. -/
def loadRecord (pts : List (AggStatePerTrans D)) (ph : AggStatePerHash D) (si : Nat) (s : SpillSet)
    (fi : Nat) (t : TupleHashTable D) (r : SpillRecord D) : Except String (TupleHashTable D) := do
  let t := t.modifyFile fi fun f => { f with ntupsRead := f.ntupsRead + 1 }
  match insertWithKey ph t r.tuple r.hash with
  | (some (i, true), t) =>
    let incoming ← reloadPergroup pts r.pergroup
    let merged ← mergePergroup pts ((t.entries.getD i ⟨[], [], 0⟩).additional) incoming
    .ok (t.setAdditional i merged)
  | (none, t) => respillRecord t si s fi r
  | (some (i, false), t) =>
    let pgs ← reloadPergroup pts r.pergroup
    .ok (t.setAdditional i pgs)

/-- Read file `fi` of set `si` to its end and close it: check the counters,
and descend into the child set if the file overflowed.  (The caller restarts
the iterator: `InitTupleHashIterator`.) -/
def loadFile (pts : List (AggStatePerTrans D)) (ph : AggStatePerHash D) (si : Nat) (s : SpillSet)
    (fi : Nat) (t : TupleHashTable D) : Except String (TupleHashTable D) := do
  let f ← match t.files.get? fi with
    | none => Except.error "spill file pointer out of range"
    | some f => Except.ok f
  let t ← f.file.foldlM (loadRecord pts ph si s fi) t
  let t := t.modifyFile fi fun f => { f with closed := true }
  let f ← match t.files.get? fi with
    | none => Except.error "spill file pointer out of range"
    | some f => Except.ok f
  let r := f.ntupsRead
  let w := f.ntupsWrite
  if r ≠ w then .error s!"data corrupted in spill file, read tups {r}, write tups {w}"
  else if f.spilled then .ok { t with spillSet := f.childSpillSet }
  else .ok t

/-- The search for the next non-NULL file slot, `current_file` advancing past
each slot looked at: the file's pointer and the advanced set, or the set with
`current_file = num_files` when no slot is left. -/
def nextSpillFile (s : SpillSet) : (fuel : Nat) → Option Nat × SpillSet
  | 0 => (none, s)
  | fuel + 1 =>
    if s.currentFile < s.numFiles then
      match s.spillFile.getD s.currentFile none with
      | some fi => (some fi, { s with currentFile := s.currentFile + 1 })
      | none => nextSpillFile { s with currentFile := s.currentFile + 1 } fuel
    else (none, s)

/-- `LoadHybridHashtable`: load the next batch file of the current spill set
into the (emptied) table, climbing to the parent set (`goto RETRY`) while the
current one has no file left.  The flag says whether a file was read, which is
when the C code reinitialises the caller's iterator.  `fuel` bounds the climb:
each step up goes one level nearer the top set. -/
def loadHybridHashtable (pts : List (AggStatePerTrans D)) (ph : AggStatePerHash D) :
    (fuel : Nat) → TupleHashTable D → Except String (TupleHashTable D × Bool)
  | 0, _ => .error "LoadHybridHashtable: spill set chain deeper than the fuel"
  | fuel + 1, t =>
    if !t.spilled then .ok (t, false)
    else match t.curSet? with
      | none => .ok (t, false)
      | some (si, s) =>
        match nextSpillFile s s.numFiles with
        | (some fi, s') => do
          let t ← loadFile pts ph si s' fi (t.setSet si s')
          .ok (t, true)
        | (none, s') =>
          loadHybridHashtable pts ph fuel { t.setSet si s' with spillSet := s'.parentSpillSet }

/-- `HybridHashtableLoadDone`: whether a spilled table has nothing left to
reload (no current set, or the top set exhausted).  When something is left the
table is emptied (`ResetHybridHashtable`) for the next load. -/
def hybridHashtableLoadDone (t : TupleHashTable D) : Bool × TupleHashTable D :=
  if !t.spilled then (true, t)
  else match t.curSet? with
    | none => (true, t)
    | some (_, s) =>
      if s.numFiles ≤ s.currentFile && s.parentSpillSet.isNone then (true, t)
      else (false, t.reset)

/-- `OptimizeHybridHashtableSize`: capacity `ceil(max_mem/entrySize)`, where the
quotient is already an integer division, so `work_mem * 1024 / entrySize`, cast
to `uint32`; `g_default_hashagg_nbatches` batches whatever the estimate; no
spill yet; hybrid on.  The cast keeps the quotient modulo `2^32`: C leaves the
conversion of a larger `double` undefined, and 64-bit targets keep its low 32
bits.  An `entrySize` of 0 is a division by zero in C; Lean's `n / 0 = 0` gives
no entry there. -/
def optimizeHybridHashtableSize (t : TupleHashTable D) (entrySize workMem nbatchesGuc : Nat) :
    TupleHashTable D :=
  { t with nentries := workMem * 1024 / entrySize % 2 ^ 32, nbatches := nbatchesGuc,
           spilled := false, spillSet := none, hybrid := true }

end

end NodeAgg

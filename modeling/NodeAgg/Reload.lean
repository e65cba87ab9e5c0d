import NodeAgg.LoadFile

/-!
# The reload loop reads every batch file once

Once the input is read, `agg_retrieve_hash_table` scans the table, asks
`HybridHashtableLoadDone` at the end of each scan whether anything is left, and
if so loads the next batch with `LoadHybridHashtable`.  `reloadHybridHashtable`
is that loop on the table alone: the scan between two loads changes only the
groups' states.

The files not yet read are exactly those in the slots of the current spill set
from its `current_file` on, then of its parent from its own `current_file` on,
and so up to the top-level set (`pendingFiles`, `ReloadInv`).  A load reads the
first of them and the child set's files take its place; a step up the chain of
sets leaves the list as it is.  A load reads a file nothing of which was read
before and re-spills fewer records than it reads, so the unread records, each
weighing one more than all the records the loop started with, plus the unread
files, fall at every load (`reloadMeasure`).  Hence from the top-level spill
set, with room for one entry and enough passes, the loop ends with every file of
every spill set read exactly once, or stops on an error of a record's per-group
states (`reloadHybridHashtable_reads_every_file_once`).
-/

namespace NodeAgg

section

variable {D : Type} [Inhabited D]

/-- The loop of `agg_retrieve_hash_table` over the batches of a hybrid table
whose input is read: at the end of each batch's scan `HybridHashtableLoadDone`
says whether anything is left (emptying the table if so), and
`LoadHybridHashtable` loads the next batch.  Returns the last table and the
batches loaded; `fuel` bounds the passes. -/
def reloadHybridHashtable (pts : List (AggStatePerTrans D)) (ph : AggStatePerHash D) :
    Nat → TupleHashTable D → Except String (TupleHashTable D × List (TupleHashTable D))
  | 0, _ => throw "agg_retrieve_hash_table: more batches than the fuel"
  | fuel + 1, t =>
    match hybridHashtableLoadDone t with
    | (true, t) => pure (t, [])
    | (false, t) => do
      let (t, loaded) ← loadHybridHashtable pts ph (t.sets.length + 1) t
      let (t', batches) ← reloadHybridHashtable pts ph fuel t
      pure (t', if loaded then t :: batches else batches)

/-! ## Files read and files still to read -/

theorem length_le_length_flatMap {α β : Type} (g : α → List β) :
    ∀ {l : List α}, (∀ a ∈ l, g a ≠ []) → l.length ≤ (l.flatMap g).length
  | [], _ => Nat.le_refl _
  | a :: l, h => by
    have h1 := List.length_pos.2 (h a (List.mem_cons_self _ _))
    have h2 := length_le_length_flatMap g fun b hb => h b (List.mem_cons_of_mem _ hb)
    rw [List.flatMap_cons, List.length_append, List.length_cons]
    omega

/-- The files `BufFileClose` has not been called on, by index. -/
def openFiles (t : TupleHashTable D) : List Nat :=
  (List.range t.files.length).filter fun i => (t.files[i]?).any fun f => !f.closed

omit [Inhabited D] in
theorem mem_openFiles {t : TupleHashTable D} {i : Nat} :
    i ∈ openFiles t ↔ ∃ f, t.files[i]? = some f ∧ f.closed = false := by
  simp only [openFiles, List.mem_filter, List.mem_range]
  constructor
  · rintro ⟨hi, h⟩
    rw [List.getElem?_eq_getElem hi] at h ⊢
    exact ⟨_, rfl, by simpa using h⟩
  · rintro ⟨f, hf, hc⟩
    exact ⟨(List.getElem?_eq_some_iff.1 hf).1, by simp [hf, hc]⟩

omit [Inhabited D] in
theorem nodup_openFiles (t : TupleHashTable D) : (openFiles t).Nodup := (List.nodup_range _).filter _

/-- The records in the files not yet read. -/
def unreadRecords (t : TupleHashTable D) : List (SpillRecord D) := (openFiles t).flatMap (fileRecords t)

/-- What every load lowers: the unread records, each weighing one more than
`bound`, plus the unread files. -/
def reloadMeasure (bound : Nat) (t : TupleHashTable D) : Nat :=
  (unreadRecords t).length * (bound + 1) + (openFiles t).length

/-- The files in the slots of set `c` from its `current_file` on, then in those
of its parent from the parent's `current_file` on, and so up the chain of
parents: the files `LoadHybridHashtable` has still to read, in the order it
reads them.  `fuel` bounds the chain. -/
def pendingFrom (sets : List SpillSet) : Nat → Option Nat → List Nat
  | 0, _ => []
  | _ + 1, none => []
  | fuel + 1, some c =>
    match sets[c]? with
    | none => []
    | some s => (s.spillFile.drop s.currentFile).filterMap id ++ pendingFrom sets fuel s.parentSpillSet

/-- The files still to read, from the current spill set up. -/
def pendingFiles (t : TupleHashTable D) : List Nat := pendingFrom t.sets t.sets.length t.spillSet

/-- Every spill set's parent comes before it. -/
def ParentsBefore (sets : List SpillSet) : Prop :=
  ∀ (i : Nat) (s : SpillSet) (p : Nat), sets[i]? = some s → s.parentSpillSet = some p → p < i

theorem pendingFrom_some {sets : List SpillSet} {c : Nat} {s : SpillSet} (hs : sets[c]? = some s) (fuel : Nat) :
    pendingFrom sets (fuel + 1) (some c) =
      (s.spillFile.drop s.currentFile).filterMap id ++ pendingFrom sets fuel s.parentSpillSet := by
  simp [pendingFrom, hs]

theorem pendingFrom_none (sets : List SpillSet) (n : Nat) : pendingFrom sets n none = [] := by
  cases n <;> rfl

/-- Enough fuel for the chain above `c` is as good as more. -/
theorem pendingFrom_fuel {sets : List SpillSet} (hp : ParentsBefore sets) :
    ∀ {n m c : Nat}, c < n → c < m → pendingFrom sets n (some c) = pendingFrom sets m (some c)
  | n + 1, m + 1, c, hn, hm => by
    cases hs : sets[c]? with
    | none => simp [pendingFrom, hs]
    | some s =>
      rw [pendingFrom_some hs, pendingFrom_some hs]
      cases hpar : s.parentSpillSet with
      | none => rw [pendingFrom_none, pendingFrom_none]
      | some p =>
        have := hp c s p hs hpar
        rw [pendingFrom_fuel hp (n := n) (m := m) (by omega) (by omega)]

/-- The chain above `c` reads only the sets up to `c`. -/
theorem pendingFrom_congr {sets sets' : List SpillSet} (hp : ParentsBefore sets) :
    ∀ {n c : Nat}, (∀ j ≤ c, sets'[j]? = sets[j]?) → pendingFrom sets' n (some c) = pendingFrom sets n (some c)
  | 0, _, _ => rfl
  | n + 1, c, h => by
    cases hs : sets[c]? with
    | none => simp [pendingFrom, hs, h c (Nat.le_refl _)]
    | some s =>
      rw [pendingFrom_some hs, pendingFrom_some ((h c (Nat.le_refl _)).trans hs)]
      cases hpar : s.parentSpillSet with
      | none => rw [pendingFrom_none, pendingFrom_none]
      | some p =>
        have := hp c s p hs hpar
        rw [pendingFrom_congr hp fun j hj => h j (by omega)]

/-- The files still to read from set `c` on, with enough fuel. -/
theorem pendingFrom_of_get {sets : List SpillSet} (hp : ParentsBefore sets) {c n : Nat} {s : SpillSet}
    (hs : sets[c]? = some s) (hn : c < n) :
    pendingFrom sets n (some c) =
      (s.spillFile.drop s.currentFile).filterMap id ++ pendingFrom sets c s.parentSpillSet := by
  obtain ⟨m, rfl⟩ : ∃ m, n = m + 1 := ⟨n - 1, by omega⟩
  rw [pendingFrom_some hs]
  cases hpar : s.parentSpillSet with
  | none => rw [pendingFrom_none, pendingFrom_none]
  | some p =>
    have := hp c s p hs hpar
    rw [pendingFrom_fuel hp (by omega : p < m) (by omega : p < c)]

/-- `nextSpillFile` finding a file: it is the first file of the set's slots from
`current_file` on, and `current_file` moves past it. -/
theorem nextSpillFile_some {fi : Nat} {s' : SpillSet} :
    ∀ {fuel : Nat} {s : SpillSet}, s.spillFile.length = s.numFiles → nextSpillFile s fuel = (some fi, s') →
      (s.spillFile.drop s.currentFile).filterMap id = fi :: (s'.spillFile.drop s'.currentFile).filterMap id ∧
        s' = { s with currentFile := s'.currentFile }
  | 0, _, _, h => by cases h
  | fuel + 1, s, hlen, h => by
    unfold nextSpillFile at h
    split at h
    · rename_i hlt
      have hd : s.spillFile.drop s.currentFile = s.spillFile[s.currentFile] :: s.spillFile.drop (s.currentFile + 1) :=
        List.drop_eq_getElem_cons (by omega)
      rw [List.getD_eq_getElem?_getD, List.getElem?_eq_getElem (by omega), Option.getD_some] at h
      split at h
      · rename_i o hsome
        cases h
        rw [hd, hsome]
        exact ⟨rfl, rfl⟩
      · rename_i hnone
        obtain ⟨h1, h2⟩ := nextSpillFile_some (s := { s with currentFile := s.currentFile + 1 }) hlen h
        rw [hd, hnone, List.filterMap_cons_none rfl]
        exact ⟨h1, h2.trans (by rfl)⟩
    · cases h

/-- `nextSpillFile` finding no file: the set's slots from `current_file` on
are empty, and stay so. -/
theorem nextSpillFile_none {s' : SpillSet} :
    ∀ {fuel : Nat} {s : SpillSet}, s.spillFile.length = s.numFiles → s.numFiles - s.currentFile ≤ fuel →
      nextSpillFile s fuel = (none, s') →
      (s.spillFile.drop s.currentFile).filterMap id = [] ∧ s' = { s with currentFile := s'.currentFile } ∧
        (s'.spillFile.drop s'.currentFile).filterMap id = []
  | 0, s, hlen, hf, h => by
    cases h
    rw [List.drop_eq_nil_of_le (by omega)]
    exact ⟨rfl, rfl, rfl⟩
  | fuel + 1, s, hlen, hf, h => by
    unfold nextSpillFile at h
    split at h
    · rename_i hlt
      have hd : s.spillFile.drop s.currentFile = s.spillFile[s.currentFile] :: s.spillFile.drop (s.currentFile + 1) :=
        List.drop_eq_getElem_cons (by omega)
      rw [List.getD_eq_getElem?_getD, List.getElem?_eq_getElem (by omega), Option.getD_some] at h
      split at h
      · cases h
      · rename_i hnone
        obtain ⟨h1, h2, h3⟩ := nextSpillFile_none (s := { s with currentFile := s.currentFile + 1 }) hlen
          (by simp only; omega) h
        rw [hd, hnone, List.filterMap_cons_none rfl]
        exact ⟨h1, h2.trans (by rfl), h3⟩
    · rename_i hge
      cases h
      rw [List.drop_eq_nil_of_le (by omega)]
      exact ⟨rfl, rfl, rfl⟩

/-! ## The invariant of the reload -/

/-- What holds of the table between two loads of the reload: the spill sets form
chains up to the top-level set, the current set is one of them, and the files
not yet read are exactly the files still to read, each of them untouched. -/
structure ReloadInv (t : TupleHashTable D) : Prop where
  spilled : t.spilled = true
  current_lt : ∀ c, t.spillSet = some c → c < t.sets.length
  parents : ParentsBefore t.sets
  slots_length : ∀ s ∈ t.sets, s.spillFile.length = s.numFiles
  pending : (pendingFiles t).Perm (openFiles t)
  unread : ∀ f ∈ t.files, f.closed = false → f.Unread
  read : ∀ f ∈ t.files, f.closed = true → f.ntupsRead = f.file.length ∧ f.ntupsWrite = f.file.length

/-- A hybrid table as the last `DumpHybridHashtable` of the input leaves it:
spilled, its one spill set the top-level one, current and not started, each of
its files in one slot of it, written and not read. -/
structure TopLevelSpill (t : TupleHashTable D) : Prop where
  spilled : t.spilled = true
  top : ∃ s, t.sets = [s] ∧ t.spillSet = some 0 ∧ s.parentSpillSet = none ∧ s.currentFile = 0 ∧
    s.spillFile.length = s.numFiles ∧ (s.spillFile.filterMap id).Perm (List.range t.files.length)
  unread : ∀ f ∈ t.files, f.Unread

/-- Every file of the table read, each record of it once. -/
def AllRead (t : TupleHashTable D) : Prop :=
  ∀ f ∈ t.files, f.closed = true ∧ f.ntupsRead = f.file.length ∧ f.ntupsWrite = f.file.length

omit [Inhabited D] in
theorem TopLevelSpill.openFiles_eq {t : TupleHashTable D} (h : TopLevelSpill t) :
    openFiles t = List.range t.files.length := by
  refine List.filter_eq_self.2 fun i hi => ?_
  rw [List.getElem?_eq_getElem (List.mem_range.1 hi)]
  simp [(h.unread _ (List.getElem_mem _)).2.2.2.2]

omit [Inhabited D] in
theorem TopLevelSpill.reloadInv {t : TupleHashTable D} (h : TopLevelSpill t) : ReloadInv t := by
  obtain ⟨s, hsets, hcur, hpar, hc0, hlen, hperm⟩ := h.top
  have hpb : ParentsBefore t.sets := by
    intro i s' p hs' hp'
    rw [hsets] at hs'
    cases i <;> simp_all
  refine ⟨h.spilled, ?_, hpb, by simp [hsets, hlen], ?_, fun f hf _ => h.unread f hf, ?_⟩
  · intro c hc; simp_all
  · rw [pendingFiles, hcur, pendingFrom_of_get hpb (by simp [hsets] : t.sets[0]? = some s) (by simp [hsets]), hpar,
      hc0, pendingFrom_none, List.drop_zero, List.append_nil, h.openFiles_eq]
    exact hperm
  · intro f hf hc
    rw [(h.unread f hf).2.2.2.2] at hc
    cases hc

/-- What a load does to the files: one more read, and the weight of what is
left lower. -/
structure LoadsOne (t t' : TupleHashTable D) : Prop where
  records_le : (unreadRecords t').length ≤ (unreadRecords t).length
  measure_lt : ∀ B, (unreadRecords t).length ≤ B → reloadMeasure B t' < reloadMeasure B t
  read_succ : t'.files.length + (openFiles t).length = t.files.length + (openFiles t').length + 1

omit [Inhabited D] in
/-- A load's effect depends on the table before it only through its files. -/
theorem LoadsOne.of_files_eq {t0 t t' : TupleHashTable D} (h : LoadsOne t t') (hf : t0.files = t.files) :
    LoadsOne t0 t' := by
  have ho : openFiles t0 = openFiles t := by simp only [openFiles, hf]
  have hr : fileRecords t0 = fileRecords t := funext fun i => by simp only [fileRecords, hf]
  have hu : unreadRecords t0 = unreadRecords t := by simp only [unreadRecords, ho, hr]
  refine ⟨hu ▸ h.records_le, fun B hB => ?_, by rw [hf, ho]; exact h.read_succ⟩
  rw [reloadMeasure, reloadMeasure, hu, ho]
  exact h.measure_lt B (hu ▸ hB)

/-- The chain above a set `si`, seen from a list of sets that agrees with `sets`
below `si` and holds at `si` a set with the same parent. -/
theorem pendingFrom_after {sets sets' : List SpillSet} (hp : ParentsBefore sets) (hp' : ParentsBefore sets')
    {si n : Nat} {s s' : SpillSet} (hs : sets[si]? = some s) (hs' : sets'[si]? = some s')
    (hpar : s'.parentSpillSet = s.parentSpillSet) (hbelow : ∀ j < si, sets'[j]? = sets[j]?) (hn : si < n) :
    pendingFrom sets' n (some si) =
      (s'.spillFile.drop s'.currentFile).filterMap id ++ pendingFrom sets si s.parentSpillSet := by
  rw [pendingFrom_of_get hp' hs' hn, hpar]
  cases hq : s.parentSpillSet with
  | none => rw [pendingFrom_none, pendingFrom_none]
  | some q =>
    have := hp si s q hs hq
    rw [pendingFrom_congr hp fun j hj => hbelow j (by omega)]

namespace ReloadInv

variable {t : TupleHashTable D}

omit [Inhabited D] in
/-- Emptying the table keeps the invariant. -/
theorem reset (h : ReloadInv t) : ReloadInv t.reset :=
  ⟨h.spilled, h.current_lt, h.parents, h.slots_length, h.pending, h.unread, h.read⟩

omit [Inhabited D] in
/-- With nothing left to read, every file is read. -/
theorem allRead (h : ReloadInv t) (hp : pendingFiles t = []) : AllRead t := by
  have hopen : openFiles t = [] := List.Perm.eq_nil (hp ▸ h.pending).symm
  intro f hf
  have hc : f.closed = true := by
    cases hc : f.closed
    · obtain ⟨i, hi, rfl⟩ := List.getElem_of_mem hf
      have := mem_openFiles.2 ⟨_, List.getElem?_eq_getElem hi, hc⟩
      rw [hopen] at this
      cases this
    · rfl
  exact ⟨hc, h.read f hf hc⟩

omit [Inhabited D] in
/-- `HybridHashtableLoadDone` says done only when nothing is left to read, and
otherwise empties the table. -/
theorem loadDone (h : ReloadInv t) :
    (hybridHashtableLoadDone t = (true, t) ∧ pendingFiles t = []) ∨
      hybridHashtableLoadDone t = (false, t.reset) := by
  unfold hybridHashtableLoadDone
  rw [h.spilled]
  simp only [Bool.not_true, Bool.false_eq_true, if_false]
  cases hcur : t.spillSet with
  | none =>
    rw [show t.curSet? = none by simp [TupleHashTable.curSet?, hcur]]
    exact .inl ⟨rfl, by rw [pendingFiles, hcur, pendingFrom_none]⟩
  | some c =>
    obtain ⟨s, hs⟩ : ∃ s, t.sets[c]? = some s :=
      ⟨_, List.getElem?_eq_getElem (h.current_lt c hcur)⟩
    rw [show t.curSet? = some (c, s) by simp [TupleHashTable.curSet?, hcur, hs]]
    dsimp only
    by_cases hdone : (decide (s.numFiles ≤ s.currentFile) && s.parentSpillSet.isNone) = true
    · rw [if_pos hdone]
      simp only [Bool.and_eq_true, decide_eq_true_eq, Option.isNone_iff_eq_none] at hdone
      refine .inl ⟨rfl, ?_⟩
      rw [pendingFiles, hcur, pendingFrom_of_get h.parents hs (h.current_lt c hcur), hdone.2, pendingFrom_none,
        List.drop_eq_nil_of_le (by rw [h.slots_length s (List.mem_iff_getElem?.2 ⟨_, hs⟩)]; exact hdone.1)]
      rfl
    · exact .inr (if_neg hdone)

omit [Inhabited D] in
/-- Climbing from a set with no file left to its parent keeps the invariant. -/
theorem climb (h : ReloadInv t) {si : Nat} {s s' : SpillSet} (hcur : t.spillSet = some si)
    (hs : t.sets[si]? = some s) (hnone : (s.spillFile.drop s.currentFile).filterMap id = [])
    (hs' : s' = { s with currentFile := s'.currentFile }) :
    ReloadInv { t.setSet si s' with spillSet := s'.parentSpillSet } := by
  have hsi : si < t.sets.length := h.current_lt si hcur
  have hpar : s'.parentSpillSet = s.parentSpillSet := by rw [hs']
  have hget : ∀ j, (t.sets.set si s')[j]? = if si = j then some s' else t.sets[j]? := by
    intro j
    rw [List.getElem?_set]
    by_cases hj : si = j
    · rw [if_pos hj, if_pos hj, if_pos hsi]
    · rw [if_neg hj, if_neg hj]
  have hpb : ParentsBefore (t.sets.set si s') := by
    intro i s'' p hs'' hp''
    rw [hget] at hs''
    split at hs''
    · cases hs''; subst_vars; exact h.parents _ s p hs (hpar ▸ hp'')
    · exact h.parents i s'' p hs'' hp''
  refine ⟨h.spilled, fun c hc => ?_, hpb, fun s'' hs'' => ?_, ?_, h.unread, h.read⟩
  · rw [hpar] at hc
    have := h.parents si s c hs hc
    simp only [TupleHashTable.setSet_sets, List.length_set]
    omega
  · rcases List.mem_or_eq_of_mem_set hs'' with hs'' | rfl
    · exact h.slots_length s'' hs''
    · rw [hs']; exact h.slots_length s (List.mem_iff_getElem?.2 ⟨_, hs⟩)
  · have hp0 := h.pending
    rw [pendingFiles, hcur, pendingFrom_of_get h.parents hs hsi, hnone, List.nil_append] at hp0
    show (pendingFrom (t.sets.set si s') (t.sets.set si s').length s'.parentSpillSet).Perm (openFiles t)
    rw [hpar]
    cases hp : s.parentSpillSet with
    | none => rw [hp, pendingFrom_none] at hp0; rw [pendingFrom_none]; exact hp0
    | some p =>
      rw [hp] at hp0
      have hps := h.parents si s p hs hp
      rw [pendingFrom_fuel hpb (n := (t.sets.set si s').length) (m := si) (by simp; omega) hps,
        pendingFrom_congr h.parents fun j hj => by rw [hget]; simp [show si ≠ j by omega]]
      exact hp0

/-- Loading the next file of the current set reads that file, keeps the
invariant and lowers the measure. -/
theorem readFile (pts : List (AggStatePerTrans D)) (ph : AggStatePerHash D) (h : ReloadInv t)
    (he : t.entries = []) (hcap : 1 ≤ t.nentries) {si fi : Nat} {s s' : SpillSet} (hcur : t.spillSet = some si)
    (hs : t.sets[si]? = some s) (hnext : nextSpillFile s s.numFiles = (some fi, s')) :
    EndsWith pts (fun t' => ReloadInv t' ∧ t'.nentries = t.nentries ∧ LoadsOne t t')
      (loadFile pts ph si s' fi (t.setSet si s')) := by
  have hsi : si < t.sets.length := h.current_lt si hcur
  obtain ⟨hslots, hs'⟩ := nextSpillFile_some (h.slots_length s (List.mem_iff_getElem?.2 ⟨_, hs⟩)) hnext
  have hpar : s'.parentSpillSet = s.parentSpillSet := by rw [hs']
  -- the files still to read: `fi`, then `rest`
  have hperm := h.pending
  rw [pendingFiles, hcur, pendingFrom_of_get h.parents hs hsi, hslots, List.cons_append] at hperm
  generalize hrest : (s'.spillFile.drop s'.currentFile).filterMap id ++ pendingFrom t.sets si s.parentSpillSet =
    rest at hperm
  have hnd := hperm.nodup_iff.2 (nodup_openFiles t)
  have hrest_open : ∀ i, i ∈ rest ↔ i ∈ openFiles t ∧ i ≠ fi := fun i =>
    ⟨fun hi => ⟨hperm.subset (List.mem_cons_of_mem _ hi), fun hfi => (List.nodup_cons.1 hnd).1 (hfi ▸ hi)⟩,
     fun ⟨hi, hne⟩ => (List.mem_cons.1 (hperm.symm.subset hi)).resolve_left hne⟩
  obtain ⟨f0, hf0, hc0⟩ := mem_openFiles.1 (hperm.subset (List.mem_cons_self _ _))
  have hu : f0.Unread := h.unread f0 (List.mem_iff_getElem?.2 ⟨_, hf0⟩) hc0
  have hfi : fi < t.files.length := (List.getElem?_eq_some_iff.1 hf0).1
  refine (loadFile_shape pts ph (s := s') (show (t.setSet si s').files[fi]? = some f0 from hf0) hu hcap he).mono ?_
  rintro t' ⟨t2, sp, resp, newFiles, slots, hsh, ht'⟩
  -- the table after the load, in terms of the table before
  have hF : t'.files = t.files.set fi { readingFile f0 f0.file.length sp t.sets.length with closed := true } ++
      newFiles := by
    rw [ht', hsh.files, modify_set_append _ (by simpa using hfi)]
    simp
  have hSets : t'.sets = if sp then t.sets.set si s' ++ [childSet si s' slots] else t.sets.set si s' := by
    rw [ht', hsh.sets]; simp
  have hSpill : t'.spillSet = if sp then some t.sets.length else some si := by
    rw [ht', hsh.same.1]; simp [hcur]
  have hSpilled : t'.spilled = true := by rw [ht', hsh.same.2.1]; exact h.spilled
  have hNent : t'.nentries = t.nentries := by rw [ht', hsh.same.2.2.1]; rfl
  -- the files open after the load: those before but `fi`, and the new ones
  have hopen' : ∀ i, i ∈ openFiles t' ↔
      (i ∈ openFiles t ∧ i ≠ fi) ∨ (t.files.length ≤ i ∧ i < t.files.length + newFiles.length) := by
    intro i
    rw [mem_openFiles, mem_openFiles, hF]
    by_cases hi : i < t.files.length
    · rw [List.getElem?_append_left (by simpa using hi), List.getElem?_set]
      by_cases hfi' : fi = i
      · subst hfi'
        simp [hfi]
      · simp [hfi', Ne.symm hfi', Nat.not_le.2 hi]
    · rw [List.getElem?_append_right (by simp; omega), List.length_set]
      constructor
      · rintro ⟨f, hf, -⟩
        exact .inr ⟨by omega, by have := (List.getElem?_eq_some_iff.1 hf).1; omega⟩
      · rintro (⟨⟨f, hf, -⟩, -⟩ | ⟨-, hlt⟩)
        · exact absurd (List.getElem?_eq_some_iff.1 hf).1 hi
        · exact ⟨_, List.getElem?_eq_getElem (by omega), (hsh.newFiles_unread _ (List.getElem_mem _)).1.2.2.2.2⟩
  have hslotsF : ∀ i, i ∈ slots.filterMap id ↔ t.files.length ≤ i ∧ i < t.files.length + newFiles.length := by
    intro i
    rw [hsh.slots_perm.mem_iff, List.mem_range'_1]
    rfl
  have hndS : (slots.filterMap id ++ rest).Nodup := by
    refine List.nodup_append.2 ⟨hsh.slots_perm.nodup_iff.2 (List.nodup_range' _ _), (List.nodup_cons.1 hnd).2, ?_⟩
    intro a ha hb
    obtain ⟨f, hf, -⟩ := mem_openFiles.1 ((hrest_open a).1 hb).1
    have := (hslotsF a).1 ha
    have := (List.getElem?_eq_some_iff.1 hf).1
    omega
  have hP : (slots.filterMap id ++ rest).Perm (openFiles t') :=
    (List.perm_ext_iff_of_nodup hndS (nodup_openFiles t')).2 fun i => by
      rw [List.mem_append, hslotsF, hrest_open, hopen', or_comm]
  -- the spill sets after the load: set `si` advanced, and the child set
  have hget : ∀ j < t.sets.length, t'.sets[j]? = if si = j then some s' else t.sets[j]? := by
    intro j hj
    have : (t.sets.set si s')[j]? = if si = j then some s' else t.sets[j]? := by
      rw [List.getElem?_set]
      by_cases hsj : si = j
      · rw [if_pos hsj, if_pos hsj, if_pos hsi]
      · rw [if_neg hsj, if_neg hsj]
    rw [hSets]
    cases sp
    · exact this
    · rw [if_pos rfl, List.getElem?_append_left (by simpa using hj)]; exact this
  have hsi' : t'.sets[si]? = some s' := by rw [hget si hsi, if_pos rfl]
  have hbelow : ∀ j < si, t'.sets[j]? = t.sets[j]? := fun j hj => by
    rw [hget j (by omega), if_neg (by omega)]
  have hlen : t'.sets.length = if sp then t.sets.length + 1 else t.sets.length := by
    rw [hSets]; cases sp <;> simp
  have hchild : sp = true → t'.sets[t.sets.length]? = some (childSet si s' slots) := by
    rintro rfl
    rw [hSets, if_pos rfl, ← List.length_set t.sets si s', List.getElem?_concat_length]
  have hpb : ParentsBefore t'.sets := by
    intro i s'' p hs'' hp''
    by_cases hi : i < t.sets.length
    · rw [hget i hi] at hs''
      by_cases hsi'' : si = i
      · rw [if_pos hsi''] at hs''
        cases hs''
        subst hsi''
        exact h.parents si s p hs (hpar ▸ hp'')
      · rw [if_neg hsi''] at hs''
        exact h.parents i s'' p hs'' hp''
    · have hi' := (List.getElem?_eq_some_iff.1 hs'').1
      rw [hlen] at hi'
      cases sp
      · exact absurd hi' (by simpa using hi)
      · obtain rfl : i = t.sets.length := by simp at hi'; omega
        rw [hchild rfl] at hs''
        cases hs''
        cases hp''
        exact hsi
  have hpend : pendingFiles t' = slots.filterMap id ++ rest := by
    rw [← hrest]
    unfold pendingFiles
    rw [hSpill, hlen]
    cases sp
    · rw [if_neg (by simp), if_neg (by simp), pendingFrom_after h.parents hpb hs hsi' hpar hbelow hsi,
        (hsh.newFiles_eq_nil).2, List.filterMap_replicate_of_none rfl, List.nil_append]
    · rw [if_pos rfl, if_pos rfl, pendingFrom_of_get hpb (hchild rfl) (Nat.lt_succ_self _)]
      simp only [childSet, List.drop_zero]
      rw [pendingFrom_after h.parents hpb hs hsi' hpar hbelow hsi]
  -- every file after the load: one from before, file `fi` read, or a new one
  have hmemF : ∀ f ∈ t'.files, f ∈ t.files ∨
      f = { readingFile f0 f0.file.length sp t.sets.length with closed := true } ∨ f ∈ newFiles := by
    intro f hf
    rw [hF] at hf
    rcases List.mem_append.1 hf with hf | hf
    · rcases List.mem_or_eq_of_mem_set hf with hf | rfl
      · exact .inl hf
      · exact .inr (.inl rfl)
    · exact .inr (.inr hf)
  refine ⟨⟨hSpilled, ?_, hpb, ?_, hpend ▸ hP, ?_, ?_⟩, hNent, ?_⟩
  · intro c hc
    rw [hSpill] at hc
    rw [hlen]
    cases sp <;> simp at hc ⊢ <;> omega
  · intro s'' hs''
    rw [hSets] at hs''
    have hss : ∀ x ∈ t.sets.set si s', x.spillFile.length = x.numFiles := by
      intro x hx
      rcases List.mem_or_eq_of_mem_set hx with hx | rfl
      · exact h.slots_length x hx
      · rw [hs']; exact h.slots_length s (List.mem_iff_getElem?.2 ⟨_, hs⟩)
    cases sp
    · exact hss s'' hs''
    · rcases List.mem_append.1 hs'' with hs'' | hs''
      · exact hss s'' hs''
      · obtain rfl := List.mem_singleton.1 hs''
        exact hsh.slots_length
  · intro f hf hc
    rcases hmemF f hf with hf | rfl | hf
    · exact h.unread f hf hc
    · cases hc
    · exact (hsh.newFiles_unread f hf).1
  · intro f hf hc
    rcases hmemF f hf with hf | rfl | hf
    · exact h.read f hf hc
    · exact ⟨by simp [readingFile, hu.1], hu.2.1⟩
    · rw [(hsh.newFiles_unread f hf).1.2.2.2.2] at hc; cases hc
  -- what the load did to the measure
  have hk : (slots.filterMap id).length = newFiles.length :=
    hsh.slots_perm.length_eq.trans (List.length_range' _ _ _)
  have hO' : (openFiles t').length = newFiles.length + rest.length := by
    rw [← hP.length_eq, List.length_append, hk]
  have hO : (openFiles t).length = rest.length + 1 := hperm.length_eq.symm
  have hFlen : t'.files.length = t.files.length + newFiles.length := by rw [hF]; simp
  have hrestF : rest.flatMap (fileRecords t') = rest.flatMap (fileRecords t) := by
    refine List.flatMap_congr fun i hi => ?_
    obtain ⟨hio, hne⟩ := (hrest_open i).1 hi
    obtain ⟨f, hf, -⟩ := mem_openFiles.1 hio
    unfold fileRecords
    rw [hF, List.getElem?_append_left (by simpa using (List.getElem?_eq_some_iff.1 hf).1),
      List.getElem?_set_ne (Ne.symm hne)]
  have hU : (unreadRecords t).length = f0.file.length + (rest.flatMap (fileRecords t)).length := by
    unfold unreadRecords
    rw [← (hperm.flatMap_right _).length_eq, List.flatMap_cons, List.length_append]
    simp [fileRecords, hf0]
  have hU' : (unreadRecords t').length = resp.length + (rest.flatMap (fileRecords t)).length := by
    unfold unreadRecords
    rw [← (hP.flatMap_right _).length_eq, List.flatMap_append, List.length_append, hrestF,
      (hsh.slots_perm.flatMap_right _).length_eq]
    have hpre : (t.setSet si s').files.length =
        (t.files.set fi { readingFile f0 f0.file.length sp t.sets.length with closed := true }).length := by simp
    rw [hpre, flatMap_fileRecords_range' hF, hsh.resp_perm.length_eq]
  have hresp := hsh.resp_sublist.length_le
  have hkr : newFiles.length ≤ resp.length := by
    rw [← hsh.resp_perm.length_eq]
    exact length_le_length_flatMap _ fun f hf => (hsh.newFiles_unread f hf).2
  rw [List.length_tail] at hresp
  refine ⟨by omega, fun B hB => ?_, by omega⟩
  unfold reloadMeasure
  rw [hU] at hB
  rw [hU, hU', hO, hO', Nat.add_mul, Nat.add_mul]
  rcases Nat.eq_zero_or_pos f0.file.length with h0 | hpos
  · have hr : resp.length = 0 := by omega
    rw [h0, hr]
    omega
  · have := Nat.mul_le_mul_right (B + 1) (show resp.length + 1 ≤ f0.file.length by omega)
    rw [Nat.add_mul, Nat.one_mul] at this
    omega

/-- `LoadHybridHashtable` on a table the invariant holds of, emptied, with
room for an entry: it reads one file, or climbs to the end of the chain of sets
and reads none, the files untouched. -/
theorem loadHybrid (pts : List (AggStatePerTrans D)) (ph : AggStatePerHash D) :
    ∀ (n : Nat) {t : TupleHashTable D}, ReloadInv t → t.entries = [] → 1 ≤ t.nentries →
      (∀ c, t.spillSet = some c → c < n) →
      EndsWith pts (fun p : TupleHashTable D × Bool => ReloadInv p.1 ∧ p.1.nentries = t.nentries ∧
          (p.2 = true → LoadsOne t p.1) ∧ (p.2 = false → p.1.spillSet = none ∧ p.1.files = t.files))
        (loadHybridHashtable pts ph (n + 1) t)
  | n, t, h, he, hcap, hn => by
    rw [loadHybridHashtable, h.spilled]
    simp only [Bool.not_true, Bool.false_eq_true, if_false]
    cases hcur : t.spillSet with
    | none =>
      rw [show t.curSet? = none by simp [TupleHashTable.curSet?, hcur]]
      exact ⟨h, rfl, nofun, fun _ => ⟨hcur, rfl⟩⟩
    | some si =>
      obtain ⟨s, hs⟩ : ∃ s, t.sets[si]? = some s := ⟨_, List.getElem?_eq_getElem (h.current_lt si hcur)⟩
      rw [show t.curSet? = some (si, s) by simp [TupleHashTable.curSet?, hcur, hs]]
      dsimp only
      rcases hnext : nextSpillFile s s.numFiles with ⟨_ | fi, s'⟩
      · -- no file left in the set: climb to its parent
        obtain ⟨hnone, hs', -⟩ :=
          nextSpillFile_none (h.slots_length s (List.mem_iff_getElem?.2 ⟨_, hs⟩)) (Nat.sub_le _ _) hnext
        have hpar : s'.parentSpillSet = s.parentSpillSet := by rw [hs']
        cases n with
        | zero => exact absurd (hn si hcur) (Nat.not_lt_zero _)
        | succ n =>
          refine (loadHybrid pts ph n (h.climb hcur hs hnone hs') he hcap fun c hc => ?_).mono
            fun p ⟨h1, h2, h3, h4⟩ => ⟨h1, h2, fun hp => (h3 hp).of_files_eq rfl, fun hp => h4 hp⟩
          have := h.parents si s c hs (hpar ▸ hc)
          have := hn si hcur
          omega
      · -- the next file of the set: read it
        exact (h.readFile pts ph he hcap hcur hs hnext).bind fun t' ht' => ⟨ht'.1, ht'.2.1, fun _ => ht'.2.2, nofun⟩

end ReloadInv

omit [Inhabited D] in
/-- With no current spill set, `HybridHashtableLoadDone` says done. -/
theorem hybridHashtableLoadDone_of_spillSet_none {t : TupleHashTable D} (h : t.spillSet = none) :
    hybridHashtableLoadDone t = (true, t) := by
  unfold hybridHashtableLoadDone
  rw [show t.curSet? = none by simp [TupleHashTable.curSet?, h]]
  cases t.spilled <;> rfl

/-- The reload loop from a table the invariant holds of, with room for an entry
and more passes than the measure: it ends with every file read, having loaded
one batch for each file it read. -/
theorem reloadHybridHashtable_run (pts : List (AggStatePerTrans D)) (ph : AggStatePerHash D) {B : Nat} :
    ∀ (fuel : Nat) {t : TupleHashTable D}, ReloadInv t → 1 ≤ t.nentries → (unreadRecords t).length ≤ B →
      reloadMeasure B t + 2 ≤ fuel →
      EndsWith pts (fun p : TupleHashTable D × List (TupleHashTable D) =>
          AllRead p.1 ∧ p.2.length + t.files.length = p.1.files.length + (openFiles t).length)
        (reloadHybridHashtable pts ph fuel t)
  | 0, _, _, _, _, hf => absurd hf (by omega)
  | fuel + 1, t, h, hcap, hB, hf => by
    rcases h.loadDone with ⟨hd, hp⟩ | hd
    · rw [reloadHybridHashtable, hd]
      have hopen : openFiles t = [] := List.Perm.eq_nil (hp ▸ h.pending).symm
      exact ⟨h.allRead hp, by simp [hopen]⟩
    · rw [reloadHybridHashtable, hd]
      refine (h.reset.loadHybrid pts ph t.sets.length rfl hcap h.current_lt).bind ?_
      rintro ⟨t', loaded⟩ ⟨hi, hn, hl, hnl⟩
      cases loaded with
      | true =>
        have hl := (hl rfl).of_files_eq (show t.files = t.reset.files from rfl)
        have hlt := hl.measure_lt B hB
        refine (reloadHybridHashtable_run pts ph fuel hi (hn ▸ hcap) (hl.records_le.trans hB)
          (by omega)).bind fun p ⟨hall, hcount⟩ => ⟨hall, ?_⟩
        have := hl.read_succ
        simp only [if_true, List.length_cons]
        omega
      | false =>
        obtain ⟨hnone, hfiles⟩ : t'.spillSet = none ∧ t'.files = t.files := hnl rfl
        obtain ⟨fuel, rfl⟩ : ∃ m, fuel = m + 1 := ⟨fuel - 1, by omega⟩
        have hp : pendingFiles t' = [] := by rw [pendingFiles, hnone, pendingFrom_none]
        have hopen : openFiles t' = [] := List.Perm.eq_nil (hp ▸ hi.pending).symm
        have hdone : reloadHybridHashtable pts ph (fuel + 1) t' = .ok (t', []) := by
          rw [reloadHybridHashtable, hybridHashtableLoadDone_of_spillSet_none hnone]; rfl
        dsimp only
        rw [hdone]
        refine ⟨hi.allRead hp, ?_⟩
        have hsame : openFiles t = openFiles t' := by simp only [openFiles, hfiles]
        simp [hsame, hopen, hfiles]

/-- The reload loop terminates, having read every file once.  (i) From the
top-level spill set, whatever it holds, with room for one entry and more passes
than the measure, the loop ends with every file of every spill set read to its
end and closed, one batch loaded per file, or stops on an error of a record's
per-group states.  (ii) Why it ends even when every key has the same hash: a
load from an emptied table absorbs whole keys, none of which the child set
holds, so with lawful key equality the child set holds fewer distinct keys than
the file. -/
theorem reloadHybridHashtable_reads_every_file_once [DecidableEq D] (pts : List (AggStatePerTrans D))
    (ph : AggStatePerHash D) :
    (∀ (fuel : Nat) (t : TupleHashTable D), TopLevelSpill t → 1 ≤ t.nentries →
      reloadMeasure (unreadRecords t).length t + 2 ≤ fuel →
      EndsWith pts (fun p : TupleHashTable D × List (TupleHashTable D) =>
          AllRead p.1 ∧ p.2.length = p.1.files.length)
        (reloadHybridHashtable pts ph fuel t)) ∧
    (∀ (si fi ci : Nat) (s : SpillSet) (t t' : TupleHashTable D) (f0 : SpillFile D),
      t.files[fi]? = some f0 → f0.Unread → 1 ≤ t.nentries → t.entries = [] →
      loadFile pts ph si s fi t = .ok t' → (t'.files[fi]?).bind (·.childSpillSet) = some ci →
      (∀ r ∈ setRecords t' ci, ∀ e ∈ t'.entries, ¬ (e.hash = r.hash ∧ ph.keysMatch e.firstTuple r.tuple = true)) ∧
      (EqFunctionsLawful ph.eqfunctions → (∀ r ∈ f0.file, r.hash = ph.hashfunc r.tuple) →
        ((setRecords t' ci).map (·.tuple)).toFinset.card < (f0.file.map (·.tuple)).toFinset.card)) := by
  refine ⟨fun fuel t h hcap hf => ?_, fun si fi ci s t t' f0 hf0 hu hcap he hload hci =>
    loadFile_child_keys pts ph hf0 hu hcap he hload hci⟩
  have hopen := congrArg List.length h.openFiles_eq
  rw [List.length_range] at hopen
  exact (reloadHybridHashtable_run pts ph fuel h.reloadInv hcap (Nat.le_refl _) hf).mono
    fun p ⟨hall, hcount⟩ => ⟨hall, by omega⟩

end

/-- Two keys of one hash, one file of them, and room for one entry. -/
def collidingHash : AggStatePerHash Nat :=
  ⟨1, [0], [0], [fun a b => a == b], fun _ => 7, true, 0, 0⟩

def collidingTable : TupleHashTable Nat :=
  ⟨[], true, 1, 1, true, some 0, [⟨0, 1, -1, none, 0, [some 0]⟩],
    [⟨0, 2, false, none, [⟨7, [⟨1, false⟩], []⟩, ⟨7, [⟨2, false⟩], []⟩], false⟩]⟩

theorem reloadHybridHashtable_collidingKeys :
    TopLevelSpill collidingTable ∧ 1 ≤ collidingTable.nentries ∧
      reloadMeasure (unreadRecords collidingTable).length collidingTable + 2 ≤ 9 ∧
      EndsWith ([] : List (AggStatePerTrans Nat)) (fun p : TupleHashTable Nat × List (TupleHashTable Nat) =>
          AllRead p.1 ∧ p.2.length = p.1.files.length)
        (reloadHybridHashtable [] collidingHash 9 collidingTable) := by
  have htop : TopLevelSpill collidingTable :=
    ⟨rfl, ⟨_, rfl, rfl, rfl, rfl, rfl, by decide⟩, by simp [collidingTable, SpillFile.Unread]⟩
  have hm : reloadMeasure (unreadRecords collidingTable).length collidingTable + 2 ≤ 9 := by decide
  exact ⟨htop, Nat.le_refl 1, hm, (reloadHybridHashtable_reads_every_file_once ([] : List (AggStatePerTrans Nat)) collidingHash).1 9 _ htop
    (Nat.le_refl 1) hm⟩

end NodeAgg

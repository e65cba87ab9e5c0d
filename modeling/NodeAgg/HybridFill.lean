import NodeAgg.GroupingSets
import NodeAgg.HashAgg
import NodeAgg.HybridGroups
import NodeAgg.Sizing

/-!
# The input phase spills every group, placed by hash

While the input is read, `lookup_hash_entry` probes a hybrid table with each
row's key; a new key that finds the table full has the table dumped
(`DumpHybridHashtable`) and is retried on the emptied table.  Each dump writes
every entry as a record to file `hash % nbatches` of the one top-level spill
set, which the first dump makes (`dumpHybridHashtable_topPlaced`).  So at every
row the groups of the rows read so far are those of the table's entries and of
the records its files hold, the entries of pairwise different groups
(`InputGroups`, kept by `InputGroups.lookup`).  At the end of the input
`dump_hashtable_if_spilled` dumps a table that spilled a last time and loads
its first batch (`FillDone`).

This is what the reload starts from: the dumped table is the top-level spill
set with its files placed by hash (`TopPlaced.topLevelSpill`,
`TopPlaced.hashPlaced`), which the reload's invariants ask for.  Put together,
`aggFillHashTable_groups_each_row_once`: with lawful key equality and tables
that start empty, the batches `agg_retrieve_hash_table` goes through, the table
the input phase left and then every batch the reload loads, hold the groups of
the input rows once each.

The input phase of an AGG_MIXED node is where this fails: `agg_retrieve_direct`
calls `dump_hashtable_if_spilled` at the end of every sorted phase's input, but
only phase 1 feeds the hash tables.  At the end of phase 2 the table holds the
batch loaded at the end of phase 1; it is dumped again, into the current spill
set, whose file for that batch has already been read and closed, and the next
load moves past it (`mixed_phase_end_dumps_into_closed_file`).
-/

namespace NodeAgg

section

variable {D : Type} [Inhabited D]

/-! ## What the dumps write -/

/-- The records written to a table's batch files. -/
def spilledRecords (t : TupleHashTable D) : List (SpillRecord D) := t.files.flatMap (·.file)

/-- What the dumps of the input phase leave of a table's spill state: the one
top-level spill set, current and not started, of `nbatches` slots; each file in
one slot, each record in the file of its hash's slot, every file written and not
read. -/
structure TopPlaced (t : TupleHashTable D) : Prop where
  spilled : t.spilled = true
  top : ∃ s, t.sets = [s] ∧ t.spillSet = some 0 ∧ s.parentSpillSet = none ∧ s.currentFile = 0 ∧
    s.spillFile.length = s.numFiles ∧ s.numFiles = t.nbatches ∧
    (s.spillFile.filterMap id).Perm (List.range t.files.length) ∧ ∀ j, ∀ r ∈ fileRecords t j, InSlot s j r
  unread : ∀ f ∈ t.files, f.Unread

/-- The spill state of a table while the input is read: nothing spilled yet, or
what the dumps wrote. -/
def InputSpill (t : TupleHashTable D) : Prop :=
  (t.spilled = false ∧ t.sets = [] ∧ t.files = []) ∨ TopPlaced t

omit [Inhabited D] in
theorem TopPlaced.topLevelSpill {t : TupleHashTable D} (h : TopPlaced t) : TopLevelSpill t :=
  let ⟨s, hs, hc, hp, h0, hl, _, hperm, _⟩ := h.top
  ⟨h.spilled, ⟨s, hs, hc, hp, h0, hl, hperm⟩, h.unread⟩

omit [Inhabited D] in
theorem TopPlaced.hashPlaced {t : TupleHashTable D} (h : TopPlaced t) : HashPlaced t 0 0 := fun j _ r hr =>
  let ⟨s, hs, _, _, _, _, _, _, hin⟩ := h.top
  ⟨s, by simp [hs], hin j r hr⟩

omit [Inhabited D] in
/-- The first dump makes the top-level spill set, of `nbatches` empty slots;
later ones find it. -/
theorem prepareSpillSet_topPlaced {t : TupleHashTable D} (h : InputSpill t) : TopPlaced (prepareSpillSet t) := by
  unfold prepareSpillSet
  rcases h with ⟨hsp, hsets, hfiles⟩ | h
  · rw [if_neg (by simp [hsp])]
    refine ⟨rfl, ⟨⟨0, t.nbatches, -1, none, 0, List.replicate t.nbatches none⟩, by simp [TupleHashTable.newSet, hsets],
      by simp [TupleHashTable.newSet, hsets], rfl, rfl, by simp, rfl,
      by simp [TupleHashTable.newSet, hfiles, List.filterMap_replicate], fun j r hr => ?_⟩,
      by simp [TupleHashTable.newSet, hfiles]⟩
    simp [fileRecords, TupleHashTable.newSet, hfiles] at hr
  · rw [if_pos h.spilled]
    exact h

omit [Inhabited D] in
theorem spillRecordOf_key {pts : List (AggStatePerTrans D)} {e : TupleHashEntry D} {r : SpillRecord D}
    (h : spillRecordOf pts e = .ok r) : r.key = (e.firstTuple, e.hash) := by
  unfold spillRecordOf at h
  obtain ⟨pgs, -, h⟩ := except_bind_eq_ok h
  cases h
  rfl

omit [Inhabited D] in
/-- What `fileInSlot` returns: the file of a filled slot, the table as it was;
or, for an empty slot, a new file at the end, the slot then pointing to it. -/
theorem fileInSlot_cases {t t1 : TupleHashTable D} {si k fi : Nat} {s : SpillSet}
    (h : t.fileInSlot si s k = .ok (fi, t1)) :
    (s.spillFile[k]? = some (some fi) ∧ t = t1) ∨
    (s.spillFile[k]? = some none ∧ fi = t.files.length ∧
      t1 = t.newFile.2.setSet si { s with spillFile := s.spillFile.set k (some t.files.length) }) := by
  unfold TupleHashTable.fileInSlot at h
  rw [List.get?_eq_getElem?] at h
  split at h
  · cases h
  · rename_i hj
    cases h
    exact .inl ⟨hj, rfl⟩
  · rename_i hj
    cases h
    exact .inr ⟨hj, rfl, rfl⟩

omit [Inhabited D] in
theorem SpillFile.Unread.append {f : SpillFile D} (h : f.Unread) (r : SpillRecord D) :
    SpillFile.Unread { f with file := f.file ++ [r], ntupsWrite := f.ntupsWrite + 1 } :=
  ⟨h.1, by simp [h.2.1], h.2.2⟩

omit [Inhabited D] in
/-- A record appended to the file its hash's slot points to: the records stay
placed by hash. -/
theorem TopPlaced.appendRecord {t : TupleHashTable D} {s : SpillSet} (h : TopPlaced t) (hsets : t.sets = [s])
    {fi : Nat} {r : SpillRecord D} (hj : InSlot s fi r) :
    TopPlaced (t.appendRecord fi r) ∧ (spilledRecords (t.appendRecord fi r)).Perm (spilledRecords t ++ [r]) := by
  obtain ⟨s', hsets', hcur, hpar, hc0, hlen, hns, hperm, hin⟩ := h.top
  obtain rfl : s' = s := List.singleton_inj.1 (hsets'.symm.trans hsets)
  have hfi : fi < t.files.length :=
    List.mem_range.1 (hperm.subset (List.mem_filterMap.2 ⟨some fi, List.getElem?_mem hj, rfl⟩))
  refine ⟨⟨h.spilled, ⟨s', hsets, hcur, hpar, hc0, hlen, hns, by simpa [TupleHashTable.appendRecord] using hperm,
    fun j r' hr' => ?_⟩, fun f hf => ?_⟩, ?_⟩
  · rw [fileRecords_appendRecord hfi] at hr'
    rcases List.mem_append.1 hr' with hr' | hr'
    · exact hin j r' hr'
    · split at hr'
      · obtain rfl := List.mem_singleton.1 hr'
        subst_vars
        exact hj
      · cases hr'
  · rcases mem_modify hf with hf | ⟨f0, hf0, rfl⟩
    · exact h.unread f hf
    · exact (h.unread f0 hf0).append r
  · unfold spilledRecords
    refine flatMap_modify_perm (·.file) r (fun _ => ?_) hfi
    rfl

omit [Inhabited D] in
/-- A record written to a new file, its hash's slot empty before and pointing
to the new file after: the records stay placed by hash. -/
theorem TopPlaced.newFileRecord {t : TupleHashTable D} {s : SpillSet} (h : TopPlaced t) (hsets : t.sets = [s])
    {r : SpillRecord D} (hj : s.spillFile[r.hash.toNat % s.numFiles]? = some none) :
    TopPlaced (t.withSpill (t.files ++ [⟨0, 1, false, none, [r], false⟩])
        [{ s with spillFile := s.spillFile.set (r.hash.toNat % s.numFiles) (some t.files.length) }]) ∧
      (spilledRecords (t.withSpill (t.files ++ [⟨0, 1, false, none, [r], false⟩])
        [{ s with spillFile := s.spillFile.set (r.hash.toNat % s.numFiles) (some t.files.length) }])).Perm
        (spilledRecords t ++ [r]) := by
  obtain ⟨s', hsets', hcur, hpar, hc0, hlen, hns, hperm, hin⟩ := h.top
  obtain rfl : s' = s := List.singleton_inj.1 (hsets'.symm.trans hsets)
  refine ⟨⟨h.spilled, ⟨_, rfl, hcur, hpar, hc0, by simpa using hlen, hns, ?_, fun j r' hr' => ?_⟩,
    fun f hf => ?_⟩, by simp [spilledRecords]⟩
  · rw [TupleHashTable.withSpill_files, List.length_append, List.length_singleton, List.range_succ]
    exact (filterMap_id_set_of_none _ hj).trans ((hperm.cons _).trans (List.perm_append_singleton _ _).symm)
  · unfold InSlot
    dsimp only
    rcases Nat.lt_or_ge j t.files.length with hjl | hjl
    · -- an old file: its slot is not the one set
      have hold := hin j r' (by simpa [fileRecords, List.getElem?_append_left hjl] using hr')
      unfold InSlot at hold
      rw [List.getElem?_set_ne fun heq => by rw [← heq, hj] at hold; cases hold]
      exact hold
    · -- the new file: its one record is `r`
      simp only [fileRecords, TupleHashTable.withSpill_files, List.getElem?_append_right hjl] at hr'
      obtain rfl : j = t.files.length := by
        by_contra hne
        rw [List.getElem?_eq_none (by simp; omega)] at hr'
        cases hr'
      simp only [Nat.sub_self, List.getElem?_cons_zero, Option.map_some', Option.getD_some,
        List.mem_singleton] at hr'
      subst hr'
      exact List.getElem?_set_self (List.getElem?_eq_some_iff.1 hj).1
  · rcases List.mem_append.1 hf with hf | hf
    · exact h.unread f hf
    · obtain rfl := List.mem_singleton.1 hf
      exact ⟨rfl, rfl, rfl, rfl, rfl⟩

omit [Inhabited D] in
/-- One entry written by a dump to the file of its hash's slot: the spill state
is kept and the records gain the entry's. -/
theorem TopPlaced.of_dumpEntry {pts : List (AggStatePerTrans D)} {t t' : TupleHashTable D} {e : TupleHashEntry D}
    (h : TopPlaced t) (hd : dumpEntry pts t e = .ok t') :
    TopPlaced t' ∧ t'.entries = t.entries ∧ t'.nbatches = t.nbatches ∧
      ((spilledRecords t').map SpillRecord.key).Perm
        ((spilledRecords t).map SpillRecord.key ++ [(e.firstTuple, e.hash)]) := by
  obtain ⟨s, hsets, hcur, -, -, -, hns, -, -⟩ := h.top
  unfold dumpEntry at hd
  rw [show t.curSet? = some (0, s) by simp [TupleHashTable.curSet?, hcur, hsets]] at hd
  obtain ⟨_, ⟨⟩, hd⟩ := except_bind_eq_ok hd
  obtain ⟨⟨fi, t1⟩, hslot, hd⟩ := except_bind_eq_ok hd
  obtain ⟨r, hr, hd⟩ := except_bind_eq_ok hd
  cases hd
  have hkey := spillRecordOf_key hr
  have hk : r.hash.toNat % s.numFiles = e.hash.toNat % t.nbatches := by
    rw [show r.hash = e.hash from congrArg Prod.snd hkey, hns]
  have hkeys : ∀ {l : List (SpillRecord D)}, l.Perm (spilledRecords t ++ [r]) →
      (l.map SpillRecord.key).Perm ((spilledRecords t).map SpillRecord.key ++ [(e.firstTuple, e.hash)]) :=
    fun hl => by simpa [hkey] using hl.map SpillRecord.key
  rcases fileInSlot_cases hslot with ⟨hj, rfl⟩ | ⟨hj, rfl, rfl⟩
  · -- the slot has its file: the record is appended to it
    obtain ⟨ht', hp⟩ := h.appendRecord hsets (show InSlot s fi r by rw [InSlot, hk]; exact hj)
    exact ⟨ht', rfl, rfl, hkeys hp⟩
  · -- the slot is empty: a new file, the slot pointing to it
    have hfiles : (t.newFile.2.setSet 0
        { s with spillFile := s.spillFile.set (e.hash.toNat % t.nbatches) (some t.files.length) }).appendRecord
          t.files.length r =
        t.withSpill (t.files ++ [⟨0, 1, false, none, [r], false⟩])
          [{ s with spillFile := s.spillFile.set (r.hash.toNat % s.numFiles) (some t.files.length) }] := by
      simp only [TupleHashTable.appendRecord, TupleHashTable.modifyFile, TupleHashTable.setSet,
        TupleHashTable.newFile, TupleHashTable.withSpill, hsets, List.set_cons_zero, hk]
      rw [show t.files.length = t.files.length + 0 from rfl, modify_append_right]
      rfl
    obtain ⟨ht', hp⟩ := h.newFileRecord hsets (by rw [hk]; exact hj)
    rw [hfiles]
    exact ⟨ht', rfl, rfl, hkeys hp⟩

omit [Inhabited D] in
/-- The dump loop: every entry written, the spill state kept. -/
theorem TopPlaced.foldlM_dumpEntry {pts : List (AggStatePerTrans D)} :
    ∀ (es : List (TupleHashEntry D)) {t t' : TupleHashTable D}, TopPlaced t → es.foldlM (dumpEntry pts) t = .ok t' →
      TopPlaced t' ∧ t'.entries = t.entries ∧ t'.nbatches = t.nbatches ∧
        ((spilledRecords t').map SpillRecord.key).Perm
          ((spilledRecords t).map SpillRecord.key ++ es.map fun e => (e.firstTuple, e.hash))
  | [], _, _, h, hd => by cases hd; exact ⟨h, rfl, rfl, by simp⟩
  | e :: es, t, t', h, hd => by
    rw [List.foldlM_cons] at hd
    obtain ⟨t1, h1, hd⟩ := except_bind_eq_ok hd
    obtain ⟨ht1, he1, hn1, hp1⟩ := h.of_dumpEntry h1
    obtain ⟨ht', he', hn', hp'⟩ := TopPlaced.foldlM_dumpEntry es ht1 hd
    refine ⟨ht', he'.trans he1, hn'.trans hn1, hp'.trans ?_⟩
    rw [List.map_cons, ← List.singleton_append, ← List.append_assoc]
    exact hp1.append_right _

omit [Inhabited D] in
/-- `DumpHybridHashtable` on a table of the input phase: the table empty, its
entries written as records to the top-level spill set, placed by hash. -/
theorem dumpHybridHashtable_topPlaced {pts : List (AggStatePerTrans D)} {t t' : TupleHashTable D}
    (h : InputSpill t) (hd : dumpHybridHashtable pts t = .ok t') :
    TopPlaced t' ∧ t'.entries = [] ∧ t'.nbatches = t.nbatches ∧
      ((spilledRecords t').map SpillRecord.key).Perm ((spilledRecords t).map SpillRecord.key ++ t.entryKeys) := by
  unfold dumpHybridHashtable at hd
  obtain ⟨t1, h1, hd⟩ := except_bind_eq_ok hd
  cases hd
  have hprep : (prepareSpillSet t).files = t.files ∧ (prepareSpillSet t).entries = t.entries ∧
      (prepareSpillSet t).nbatches = t.nbatches := by
    unfold prepareSpillSet
    split <;> exact ⟨rfl, rfl, rfl⟩
  obtain ⟨ht1, -, hn1, hp1⟩ := TopPlaced.foldlM_dumpEntry _ (prepareSpillSet_topPlaced h) h1
  refine ⟨⟨ht1.spilled, ht1.top, ht1.unread⟩, rfl, hn1.trans hprep.2.2, ?_⟩
  have hs : spilledRecords (prepareSpillSet t) = spilledRecords t := by simp only [spilledRecords, hprep.1]
  rw [hs] at hp1
  simpa [TupleHashTable.entryKeys, hprep.2.1] using hp1

/-! ## The lookups of the input phase -/

/-- The key, with its hash, that `lookup_hash_entry` probes a set's table with
for a row. -/
def rowKey (ph : AggStatePerHash D) (x : Tuple D) : Tuple D × UInt32 :=
  (hashKeyOf ph x, ph.hashfunc (hashKeyOf ph x))

omit [Inhabited D] in
/-- The spill state is read off the spill fields alone. -/
theorem InputSpill.of_eq {t t' : TupleHashTable D} (h : InputSpill t) (hsp : t'.spilled = t.spilled)
    (hsets : t'.sets = t.sets) (hss : t'.spillSet = t.spillSet) (hn : t'.nbatches = t.nbatches)
    (hf : t'.files = t.files) : InputSpill t' := by
  have hr := fileRecords_of_files_eq hf
  rcases h with ⟨h1, h2, h3⟩ | ⟨h1, ⟨s, h2, h3, h4⟩, h5⟩
  · exact .inl ⟨hsp.trans h1, hsets.trans h2, hf.trans h3⟩
  · exact .inr ⟨hsp.trans h1, ⟨s, hsets.trans h2, hss.trans h3, by rwa [hn, hf, hr]⟩, hf ▸ h5⟩

/-- What the lookups of the rows `xs` made of a hybrid table: its spill state is
the input phase's, it has room for an entry still, its entries are of different
groups, and the groups of the entries and of the spilled records together are
those of the rows. -/
structure InputGroups (ph : AggStatePerHash D) (xs : List (Tuple D)) (t : TupleHashTable D) : Prop where
  spill : InputSpill t
  cap : 1 ≤ t.nentries
  distinct : t.entryKeys.Pairwise fun a b => ¬ ph.sameKey a b
  covered : ∀ x ∈ xs, ∃ k ∈ t.entryKeys ++ (spilledRecords t).map SpillRecord.key, ph.sameKey k (rowKey ph x)
  origin : ∀ k ∈ t.entryKeys ++ (spilledRecords t).map SpillRecord.key, ∃ x ∈ xs, k = rowKey ph x

namespace InputGroups

variable {ph : AggStatePerHash D} {xs : List (Tuple D)} {t t' : TupleHashTable D}

/-- Before any row: an empty table that never spilled. -/
theorem init (ph : AggStatePerHash D) (hsp : t.spilled = false) (hsets : t.sets = []) (hf : t.files = [])
    (he : t.entries = []) (hcap : 1 ≤ t.nentries) : InputGroups ph [] t where
  spill := .inl ⟨hsp, hsets, hf⟩
  cap := hcap
  distinct := by simp [TupleHashTable.entryKeys, he]
  covered := by simp
  origin := by simp [TupleHashTable.entryKeys, spilledRecords, he, hf]

/-- A new entry's states leave the groups alone. -/
theorem setAdditional (h : InputGroups ph xs t) (i : Nat) (pgs : List (AggStatePerGroup D)) :
    InputGroups ph xs (t.setAdditional i pgs) := by
  have hk := TupleHashTable.entryKeys_setAdditional t i pgs
  exact ⟨h.spill.of_eq rfl rfl rfl rfl rfl, h.cap, hk ▸ h.distinct, hk ▸ h.covered, hk ▸ h.origin⟩

/-- A row whose group has an entry. -/
theorem found (h : InputGroups ph xs t) {x : Tuple D} {k : Tuple D × UInt32} (hk : k ∈ t.entryKeys)
    (hm : ph.sameKey k (rowKey ph x)) : InputGroups ph (xs ++ [x]) t := by
  refine ⟨h.spill, h.cap, h.distinct, fun x' hx' => ?_, fun k' hk' => ?_⟩
  · rcases List.mem_append.1 hx' with hx' | hx'
    · exact h.covered x' hx'
    · obtain rfl := List.mem_singleton.1 hx'
      exact ⟨k, List.mem_append_left _ hk, hm⟩
  · obtain ⟨x', hx', rfl⟩ := h.origin k' hk'
    exact ⟨x', List.mem_append_left _ hx', rfl⟩

/-- A row of a new group gets a new entry. -/
theorem added (hl : EqFunctionsLawful ph.eqfunctions) (h : InputGroups ph xs t) {x : Tuple D}
    (hno : ∀ k ∈ t.entryKeys, ¬ ph.sameKey k (rowKey ph x)) :
    InputGroups ph (xs ++ [x]) { t with entries := t.entries ++ [⟨hashKeyOf ph x, [], ph.hashfunc (hashKeyOf ph x)⟩] } := by
  have hk : ({ t with entries := t.entries ++ [⟨hashKeyOf ph x, [], ph.hashfunc (hashKeyOf ph x)⟩] } :
      TupleHashTable D).entryKeys = t.entryKeys ++ [rowKey ph x] := TupleHashTable.entryKeys_addEntry _ _
  refine ⟨h.spill.of_eq rfl rfl rfl rfl rfl, h.cap, ?_, fun x' hx' => ?_, fun k' hk' => ?_⟩
  · rw [hk]
    exact List.pairwise_append.2 ⟨h.distinct, List.pairwise_singleton _ _,
      fun k hk' _ hb => (List.mem_singleton.1 hb) ▸ hno k hk'⟩
  · rw [hk, List.append_assoc]
    rcases List.mem_append.1 hx' with hx' | hx'
    · obtain ⟨k, hk', hm⟩ := h.covered x' hx'
      rcases List.mem_append.1 hk' with hk' | hk'
      · exact ⟨k, List.mem_append_left _ hk', hm⟩
      · exact ⟨k, List.mem_append_right _ (List.mem_append_right _ hk'), hm⟩
    · obtain rfl := List.mem_singleton.1 hx'
      exact ⟨rowKey ph x', by simp, AggStatePerHash.sameKey_refl hl _⟩
  · rw [hk, List.append_assoc] at hk'
    rcases List.mem_append.1 hk' with hk' | hk'
    · obtain ⟨x', hx', rfl⟩ := h.origin k' (List.mem_append_left _ hk')
      exact ⟨x', List.mem_append_left _ hx', rfl⟩
    · rcases List.mem_append.1 hk' with hk' | hk'
      · exact ⟨x, by simp, List.mem_singleton.1 hk'⟩
      · obtain ⟨x', hx', rfl⟩ := h.origin k' (List.mem_append_right _ hk')
        exact ⟨x', List.mem_append_left _ hx', rfl⟩

/-- A dump moves the entries' groups to the records. -/
theorem dump {pts : List (AggStatePerTrans D)} (h : InputGroups ph xs t) (hd : dumpHybridHashtable pts t = .ok t') :
    InputGroups ph xs t' := by
  obtain ⟨htop, he, -, hperm⟩ := dumpHybridHashtable_topPlaced h.spill hd
  have hk : ∀ k, k ∈ t'.entryKeys ++ (spilledRecords t').map SpillRecord.key ↔
      k ∈ t.entryKeys ++ (spilledRecords t).map SpillRecord.key := fun k => by
    simp only [TupleHashTable.entryKeys, he, List.map_nil, List.nil_append, hperm.mem_iff, List.mem_append]
    exact or_comm
  refine ⟨.inr htop, (dumpHybridHashtable_ok hd).2.1 ▸ h.cap, by simp [TupleHashTable.entryKeys, he],
    fun x hx => ?_, fun k hk' => h.origin k ((hk k).1 hk')⟩
  obtain ⟨k, hk', hm⟩ := h.covered x hx
  exact ⟨k, (hk k).2 hk', hm⟩

end InputGroups

/-- `lookup_hash_entry` on a hybrid table of the input phase, when it succeeds:
the row's group joins the table's, by an entry found, a new entry, or, when
the table is full, a dump and a new entry in the emptied table. -/
theorem InputGroups.lookup {cfg : AggConfig D} {ph : AggStatePerHash D} (hl : EqFunctionsLawful ph.eqfunctions)
    {xs : List (Tuple D)} {t t' : TupleHashTable D} (h : InputGroups ph xs t) {x : Tuple D} {i : Nat}
    (hlk : lookupHashEntry cfg ph x t = .ok (i, t')) : InputGroups ph (xs ++ [x]) t' := by
  rcases insertWithKey_groups ph t (hashKeyOf ph x) (ph.hashfunc (hashKeyOf ph x))
    with ⟨j, hins, k, hk, hkm⟩ | ⟨hno, hins | ⟨t2, hins, rfl⟩⟩ <;>
    simp only [lookupHashEntry, lookupTupleHashEntry, hins, Option.map_some', Option.map_none', Bool.not_true,
      Bool.not_false, bind, Except.bind, pure, Except.pure] at hlk
  · -- found
    cases hlk
    exact h.found hk hkm
  · -- the table is full: dump, and retry on the emptied table
    split at hlk
    · split at hlk
      · cases hlk
      · rename_i t2 hd
        have h2 := h.dump hd
        have he2 : t2.entries = [] := (dumpHybridHashtable_topPlaced h.spill hd).2.1
        rcases insertWithKey_groups ph t2 (hashKeyOf ph x) (ph.hashfunc (hashKeyOf ph x))
          with ⟨j, -, k, hk, -⟩ | ⟨hno2, hins | ⟨t3, hins, rfl⟩⟩
        · simp [TupleHashTable.entryKeys, he2] at hk
        · simp only [hins, Option.map_none'] at hlk
          cases hlk
        · simp only [hins, Option.map_some', Bool.not_false, if_true] at hlk
          cases hlk
          exact (h2.added hl hno2).setAdditional _ _
    · cases hlk
  · -- a new entry
    cases hlk
    exact (h.added hl hno).setAdditional _ _

/-! ## The input loop -/

omit [Inhabited D] in
theorem TupleHashTable.entryKeys_modifyAdditional (t : TupleHashTable D) (i : Nat)
    (f : List (AggStatePerGroup D) → List (AggStatePerGroup D)) : (t.modifyAdditional i f).entryKeys = t.entryKeys := by
  apply List.ext_getElem?
  intro j
  simp only [TupleHashTable.entryKeys, TupleHashTable.modifyAdditional, List.getElem?_map, List.getElem?_modify]
  cases t.entries[j]? <;> simp; split <;> exact ⟨rfl, rfl⟩

/-- Updating an entry's states leaves the groups alone. -/
theorem InputGroups.modifyAdditional {ph : AggStatePerHash D} {xs : List (Tuple D)} {t : TupleHashTable D}
    (h : InputGroups ph xs t) (i : Nat) (f : List (AggStatePerGroup D) → List (AggStatePerGroup D)) :
    InputGroups ph xs (t.modifyAdditional i f) := by
  have hk := TupleHashTable.entryKeys_modifyAdditional t i f
  exact ⟨h.spill.of_eq rfl rfl rfl rfl rfl, h.cap, hk ▸ h.distinct, hk ▸ h.covered, hk ▸ h.origin⟩

theorem forall₂_advanceEntries {xs : List (Tuple D)} (f : List (AggStatePerGroup D) → List (AggStatePerGroup D)) :
    ∀ {phs : List (AggStatePerHash D)} {tables : List (TupleHashTable D)} (es : List Nat),
      List.Forall₂ (fun ph ht => InputGroups ph xs ht) phs tables →
      List.Forall₂ (fun ph ht => InputGroups ph xs ht) phs (advanceEntries f tables es)
  | _, _, [], .nil => .nil
  | _, _, [], .cons h hs => .cons h hs
  | _, _, _ :: _, .nil => .nil
  | _, _, i :: es, .cons h hs => .cons (h.modifyAdditional i f) (forall₂_advanceEntries f es hs)

theorem forall₂_combineHashed {cfg : AggConfig D} {xs : List (Tuple D)} (x : Tuple D) (i : Nat) :
    ∀ {phs : List (AggStatePerHash D)} {tables : List (TupleHashTable D)},
      List.Forall₂ (fun ph ht => InputGroups ph xs ht) phs tables →
      List.Forall₂ (fun ph ht => InputGroups ph xs ht) phs (combineHashed cfg x tables i)
  | _, _, .nil => .nil
  | _, _, .cons h hs => .cons (h.modifyAdditional i _) hs

theorem mapM_forall₂ {α β ε : Type} {f : α → Except ε β} :
    ∀ {l : List α} {rs : List β}, l.mapM f = .ok rs → List.Forall₂ (fun a b => f a = .ok b) l rs
  | [], _, h => by cases h; exact .nil
  | a :: l, rs, h => by
    rw [List.mapM_cons] at h
    obtain ⟨b, hb, h⟩ := except_bind_eq_ok h
    obtain ⟨bs, hbs, h⟩ := except_bind_eq_ok h
    cases h
    exact .cons hb (mapM_forall₂ hbs)

/-- A relation between the results of a map over two lists zipped and the
first list, from one between the map's arguments and results. -/
theorem forall₂_of_zip {α β δ : Type} {R : α → β → Prop} {S : α → δ → Prop} {F : α × β → δ → Prop}
    (hF : ∀ a b d, R a b → F (a, b) d → S a d) :
    ∀ {as : List α} {bs : List β} {ds : List δ}, List.Forall₂ R as bs → List.Forall₂ F (as.zip bs) ds →
      List.Forall₂ S as ds
  | _, _, _, .nil, .nil => .nil
  | _, _, _, .cons hab hs, .cons hF' hFs => .cons (hF _ _ _ hab hF') (forall₂_of_zip hF hs hFs)

/-- `lookup_hash_entries`: every hashed set's table takes the row. -/
theorem lookupHashEntries_groups {cfg : AggConfig D} (hl : ∀ ph ∈ cfg.perhash, EqFunctionsLawful ph.eqfunctions)
    {xs : List (Tuple D)} {x : Tuple D} {tables tables' : List (TupleHashTable D)} {es : List Nat}
    (h : List.Forall₂ (fun ph ht => InputGroups ph xs ht) cfg.perhash tables)
    (hlk : lookupHashEntries cfg x tables = .ok (es, tables')) :
    List.Forall₂ (fun ph ht => InputGroups ph (xs ++ [x]) ht) cfg.perhash tables' := by
  unfold lookupHashEntries at hlk
  obtain ⟨rs, hrs, hlk⟩ := except_bind_eq_ok hlk
  cases hlk
  refine List.forall₂_map_right_iff.2
    (forall₂_of_zip ?_ ((List.forall₂_and_left _ _).2 ⟨hl, h⟩) (mapM_forall₂ hrs))
  exact fun _ _ _ ⟨hlp, hg⟩ hr => hg.lookup hlp hr

/-- What the input loop leaves of a hybrid table: never spilled, holding the
groups of the rows; or dumped a last time, to a table `t0` whose top-level
spill set holds every group of the rows, and the first batch loaded from it. -/
def FillDone (pts : List (AggStatePerTrans D)) (ph : AggStatePerHash D) (xs : List (Tuple D))
    (ht : TupleHashTable D) : Prop :=
  (ht.spilled = false ∧ InputGroups ph xs ht) ∨
    ∃ t0 b, InputGroups ph xs t0 ∧ t0.entries = [] ∧ TopPlaced t0 ∧
      loadHybridHashtable pts ph (t0.sets.length + 1) t0 = .ok (ht, b)

/-- `dump_hashtable_if_spilled` on one table of the input phase: a table that
spilled is dumped a last time and its first batch loaded; one that did not is
kept. -/
theorem FillDone.of_dumpIfSpilled {pts : List (AggStatePerTrans D)} {ph : AggStatePerHash D}
    {xs : List (Tuple D)} {ht : TupleHashTable D} {it : Nat} {r : TupleHashTable D × Nat}
    (hg : InputGroups ph xs ht)
    (hr : (if ht.spilled then do
          let ht ← dumpHybridHashtable pts ht
          let (ht, reinit) ← loadHybridHashtable pts ph (ht.sets.length + 1) ht
          pure (ht, if reinit then 0 else it)
        else pure (ht, it)) = Except.ok r) :
    FillDone pts ph xs r.1 := by
  split at hr
  · obtain ⟨t0, hd0, hr⟩ := except_bind_eq_ok hr
    obtain ⟨⟨ht', b⟩, hl0, hr⟩ := except_bind_eq_ok hr
    cases hr
    obtain ⟨htop, he0, -⟩ := dumpHybridHashtable_topPlaced hg.spill hd0
    exact .inr ⟨t0, b, hg.dump hd0, he0, htop, hl0⟩
  · rename_i hns
    cases hr
    exact .inl ⟨by simpa using hns, hg⟩

/-- A relation between the results of a map over a list zipped with two others
and the first list, from one between the map's arguments and results. -/
theorem forall₂_of_zip_zip {α β γ δ : Type} {R : α → β → Prop} {S : α → δ → Prop}
    {F : (α × β) × γ → δ → Prop} (hF : ∀ a b c d, R a b → F ((a, b), c) d → S a d) :
    ∀ {as : List α} {bs : List β} {cs : List γ} {ds : List δ}, List.Forall₂ R as bs →
      cs.length = as.length → List.Forall₂ F ((as.zip bs).zip cs) ds → List.Forall₂ S as ds
  | _, _, [], _, .nil, _, .nil => .nil
  | _, _, _ :: _, _, .cons hab hs, hlen, .cons hF' hFs =>
    .cons (hF _ _ _ _ hab hF') (forall₂_of_zip_zip hF hs (Nat.succ.inj hlen) hFs)

/-- `dump_hashtable_if_spilled` at the end of the input: each table that spilled
is dumped and its first batch loaded. -/
theorem dumpHashtableIfSpilled_groups {cfg : AggConfig D} {s s' : AggState D} {xs : List (Tuple D)}
    (h : List.Forall₂ (fun ph ht => InputGroups ph xs ht) cfg.perhash s.hashtables)
    (hit : s.hashiters.length = cfg.perhash.length) (hd : dumpHashtableIfSpilled cfg s = .ok s') :
    List.Forall₂ (FillDone cfg.pertrans · xs ·) cfg.perhash s'.hashtables := by
  unfold dumpHashtableIfSpilled at hd
  obtain ⟨rs, hrs, hd⟩ := except_bind_eq_ok hd
  cases hd
  refine List.forall₂_map_right_iff.2 (forall₂_of_zip_zip ?_ h hit (mapM_forall₂ hrs))
  exact fun _ _ _ _ hg hr => FillDone.of_dumpIfSpilled hg hr

end

/-- `GROUP BY GROUPING SETS ((a), (b), (c))` with `count(*)`: `a` hashed in a
one-entry hybrid table over two batch files, `b` and `c` in two sorted
phases. -/
def countByThreeSets : AggConfig Nat :=
  { aggstrategy := .mixed, aggsplit := ⟨false, false, false, false⟩,
    phases := [⟨.mixed, 1, [1], some [[1]], [], 0, [], id⟩, sortedOnColumn 2, sortedOnColumn 3],
    pertrans := [countStarTrans], peragg := [⟨0, none, 0⟩], perhash := [firstColumnHash true],
    allGroupedCols := [3, 2, 1], natts := 3, qual := fun _ => true,
    hybridHashAgg := true, workMem := 1, defaultHashaggNbatches := 2 }

theorem mixed_phase_end_dumps_into_closed_file :
    ((do
      let (cfg, s0) ← execInitAgg countByThreeSets countStarCatalog
        [[⟨1, false⟩, ⟨1, false⟩, ⟨1, false⟩], [⟨2, false⟩, ⟨2, false⟩, ⟨2, false⟩]]
      let (os, s) ← execAggScan cfg 30 20 s0
      pure ((os.filter (·.phase = 0)).map (·.rep),
        (s.hashtables.getD 0 .empty).files.map fun f => (f.closed, f.ntupsRead, f.ntupsWrite))) :
      Except String _) =
    .ok ([[⟨1, false⟩, ⟨0, true⟩, ⟨0, true⟩]], [(true, 1, 1), (true, 1, 2)]) := rfl

section

variable {D : Type} [Inhabited D]

/-- The loop of `agg_fill_hash_table` with hybrid tables, when it succeeds:
each table is left as `FillDone` says, for the rows read before and the rows of
the input. -/
theorem fillHashTableLoop_groups {cfg : AggConfig D} (hl : ∀ ph ∈ cfg.perhash, EqFunctionsLawful ph.eqfunctions)
    (hhy : cfg.hybridHashAgg = true) :
    ∀ (fuel : Nat) (s : AggState D) (xs : List (Tuple D)), s.sortIn = none →
      s.hashiters.length = cfg.perhash.length →
      List.Forall₂ (fun ph ht => InputGroups ph xs ht) cfg.perhash s.hashtables →
      ∀ {s' : AggState D}, fillHashTableLoop cfg fuel s = .ok s' →
        List.Forall₂ (FillDone cfg.pertrans · (xs ++ s.outer) ·) cfg.perhash s'.hashtables
  | 0, _, _, _, _, _, _, hf => by cases hf
  | fuel + 1, s, xs, hin, hit, hh, s', hf => by
    cases ho : s.outer with
    | nil =>
      rw [fillHashTableLoop, fetchInputTuple_of_outer_nil hin ho] at hf
      dsimp only at hf
      rw [if_pos hhy] at hf
      rw [List.append_nil]
      exact dumpHashtableIfSpilled_groups hh hit hf
    | cons x rest =>
      rw [fillHashTableLoop, fetchInputTuple_of_outer_cons hin ho] at hf
      dsimp only at hf
      obtain ⟨⟨es, tables⟩, hlk, hf⟩ := except_bind_eq_ok hf
      have h1 := lookupHashEntries_groups hl hh hlk
      rw [show xs ++ x :: rest = xs ++ [x] ++ rest by simp]
      split at hf
      · exact fillHashTableLoop_groups hl hhy fuel _ _ (by exact hin) (by exact hit)
          (by exact forall₂_combineHashed x _ h1) hf
      · exact fillHashTableLoop_groups hl hhy fuel _ _ (by exact hin) (by exact hit)
          (by exact forall₂_advanceEntries _ es h1) hf


/-- `agg_fill_hash_table` with hybrid tables, when it succeeds: the tables are
left as `FillDone` says for the rows of the input. -/
theorem aggFillHashTable_groups {cfg : AggConfig D} (hl : ∀ ph ∈ cfg.perhash, EqFunctionsLawful ph.eqfunctions)
    (hhy : cfg.hybridHashAgg = true) {s s' : AggState D} (hin : s.sortIn = none)
    (hit : s.hashiters.length = cfg.perhash.length)
    (hh : List.Forall₂ (fun ph ht => InputGroups ph [] ht) cfg.perhash s.hashtables)
    (hfill : aggFillHashTable cfg s = .ok s') :
    List.Forall₂ (FillDone cfg.pertrans · s.outer ·) cfg.perhash s'.hashtables := by
  obtain ⟨s1, h1, hfill⟩ := except_bind_eq_ok hfill
  have := fillHashTableLoop_groups hl hhy _ s [] hin hit hh h1
  rw [List.nil_append] at this
  cases hfill
  split <;> exact this

/-! ## The retrieve phase -/

/-- `LoadHybridHashtable` that loads no batch leaves the entries alone. -/
theorem loadHybridHashtable_entries_of_not_loaded {pts : List (AggStatePerTrans D)} {ph : AggStatePerHash D} :
    ∀ (n : Nat) {t t' : TupleHashTable D}, loadHybridHashtable pts ph n t = .ok (t', false) →
      t'.entries = t.entries
  | 0, _, _, h => by cases h
  | n + 1, t, t', h => by
    rw [loadHybridHashtable] at h
    split at h
    · cases h; rfl
    · split at h
      · cases h; rfl
      · split at h
        · obtain ⟨_, -, h⟩ := except_bind_eq_ok h
          cases h
        · exact (loadHybridHashtable_entries_of_not_loaded n h).trans rfl

/-- Keys that hold the groups of the rows `xs` once each: of pairwise different
groups, every row of the group of one of them, each the key of a row. -/
def GroupsOnce (ph : AggStatePerHash D) (xs : List (Tuple D)) (keys : List (Tuple D × UInt32)) : Prop :=
  keys.Pairwise (fun a b => ¬ ph.sameKey a b) ∧ (∀ x ∈ xs, ∃ k ∈ keys, ph.sameKey k (rowKey ph x)) ∧
    ∀ k ∈ keys, ∃ x ∈ xs, k = rowKey ph x

/-- The batches `agg_retrieve_hash_table` goes through for a table the input
loop left: the table itself, then those the reload loads after it.  Given more
passes than the reload's measure, the reload ends, or stops on an error of a
record's per-group states; and when it ends, their keys hold the groups of the
rows once each. -/
theorem FillDone.reload {pts : List (AggStatePerTrans D)} {ph : AggStatePerHash D}
    (hl : EqFunctionsLawful ph.eqfunctions) {xs : List (Tuple D)} {ht : TupleHashTable D}
    (h : FillDone pts ph xs ht) {fuel : Nat} (hfuel : reloadMeasure (unreadRecords ht).length ht + 2 ≤ fuel) :
    EndsWith pts (fun p : TupleHashTable D × List (TupleHashTable D) =>
        GroupsOnce ph xs (ht.entryKeys ++ p.2.flatMap TupleHashTable.entryKeys))
      (reloadHybridHashtable pts ph fuel ht) := by
  rcases h with ⟨hsp, hg⟩ | ⟨t0, b, hg, he0, htop, hload⟩
  · -- never spilled: the table is the one batch
    obtain ⟨fuel, rfl⟩ : ∃ f, fuel = f + 1 := ⟨fuel - 1, by omega⟩
    have hrec : spilledRecords ht = [] := by
      rcases hg.spill with ⟨-, -, hf⟩ | htp
      · simp [spilledRecords, hf]
      · rw [htp.spilled] at hsp; cases hsp
    rw [reloadHybridHashtable, show hybridHashtableLoadDone ht = (true, ht) by simp [hybridHashtableLoadDone, hsp]]
    have hcov := hg.covered
    have hor := hg.origin
    rw [hrec, List.map_nil] at hcov hor
    exact ⟨by simpa using hg.distinct, by simpa using hcov, by simpa using hor⟩
  · -- spilled: the reload from the top-level set the last dump wrote
    have hinv := htop.topLevelSpill.reloadInv
    obtain ⟨hi, hn, -⟩ := (hinv.loadHybrid pts ph t0.sets.length he0 hg.cap hinv.current_lt).of_ok hload
    have hG := loadHybrid_groups pts hl t0.sets.length hinv he0 hg.cap hinv.current_lt
      (GroupsInv.top ph htop.hashPlaced) hload
    have hkeys : (if b then [] ++ ht.entryKeys else []) = ht.entryKeys := by
      cases b
      · simp [TupleHashTable.entryKeys, loadHybridHashtable_entries_of_not_loaded _ hload, he0]
      · simp
    rw [hkeys] at hG
    have hcap : 1 ≤ ht.nentries := hn ▸ hg.cap
    refine ((reloadHybridHashtable_run pts ph fuel hi hcap (Nat.le_refl _) hfuel).and_of_ok
      fun p hok => reload_groups pts hl fuel hi hcap hG hok).mono ?_
    rintro p ⟨-, hg', hu⟩
    have hR : unreadRecords t0 = spilledRecords t0 := htop.topLevelSpill.unreadRecords_eq
    have hk0 : ∀ k, k ∈ t0.entryKeys ++ (spilledRecords t0).map SpillRecord.key ↔
        ∃ r ∈ unreadRecords t0, k = r.key := fun k => by
      simp [TupleHashTable.entryKeys, he0, hR, eq_comm]
    refine ⟨hg'.distinct, fun x hx => ?_, fun k hk => ?_⟩
    · obtain ⟨k0, hk0', hm0⟩ := hg.covered x hx
      obtain ⟨r, hr, rfl⟩ := (hk0 k0).1 hk0'
      rcases hg'.covered r hr with hr' | ⟨k, hk, hm⟩
      · rw [hu] at hr'
        cases hr'
      · exact ⟨k, hk, AggStatePerHash.sameKey_trans hl hm hm0⟩
    · obtain ⟨r, hr, rfl⟩ := hg'.origin k hk
      exact hg.origin _ ((hk0 _).2 ⟨r, hr, rfl⟩)

/-! ## Hybrid hash aggregation, from the input to the last batch -/

/-- Hybrid hash aggregation groups every row exactly once.  With lawful key
equality, `g_hybrid_hash_agg` on, the input read from the outer plan, and every
hashed set's table empty, unspilled and with room for one entry, as
`build_hash_table` leaves it: when `agg_fill_hash_table` succeeds, then for
every hashed set and enough passes, the batches `agg_retrieve_hash_table` goes
through (the table the input phase left, then each batch the reload loads) are
returned, or the reload stops on an error of a record's per-group states; and
their keys hold the groups of the input rows once each. -/
theorem aggFillHashTable_groups_each_row_once {cfg : AggConfig D}
    (hl : ∀ ph ∈ cfg.perhash, EqFunctionsLawful ph.eqfunctions) (hhy : cfg.hybridHashAgg = true)
    {s s' : AggState D} (hin : s.sortIn = none) (hit : s.hashiters.length = cfg.perhash.length)
    (hempty : List.Forall₂ (fun _ ht => ht.spilled = false ∧ ht.sets = [] ∧ ht.files = [] ∧ ht.entries = [] ∧
      1 ≤ ht.nentries) cfg.perhash s.hashtables)
    (hfill : aggFillHashTable cfg s = .ok s') :
    List.Forall₂ (fun ph ht => ∀ fuel, reloadMeasure (unreadRecords ht).length ht + 2 ≤ fuel →
        EndsWith cfg.pertrans (fun p : TupleHashTable D × List (TupleHashTable D) =>
            GroupsOnce ph s.outer (ht.entryKeys ++ p.2.flatMap TupleHashTable.entryKeys))
          (reloadHybridHashtable cfg.pertrans ph fuel ht))
      cfg.perhash s'.hashtables := by
  have hg := aggFillHashTable_groups hl hhy hin hit
    (hempty.imp fun ph _ ⟨h1, h2, h3, h4, h5⟩ => InputGroups.init ph h1 h2 h3 h4 h5) hfill
  exact ((List.forall₂_and_left _ _).2 ⟨hl, hg⟩).imp fun _ _ ⟨hlp, h⟩ _ hf => h.reload hlp hf

end

/-- `SELECT a, count(*) FROM t GROUP BY a` over the rows 1, 2, 1 with one-entry
tables: the second row finds the table full and dumps key 1 to its batch file;
the retrieve phase goes through the batch of key 2, then that of key 1. -/
theorem countByFirstColumn_groups_each_row_once :
    ∃ cfg s s', execInitAgg (countByFirstColumn true) countStarCatalog
        [[⟨1, false⟩], [⟨2, false⟩], [⟨1, false⟩]] = .ok (cfg, s) ∧
      (∀ ph ∈ cfg.perhash, EqFunctionsLawful ph.eqfunctions) ∧ cfg.hybridHashAgg = true ∧ s.sortIn = none ∧
      s.hashiters.length = cfg.perhash.length ∧
      List.Forall₂ (fun _ ht => ht.spilled = false ∧ ht.sets = [] ∧ ht.files = [] ∧ ht.entries = [] ∧
        1 ≤ ht.nentries) cfg.perhash s.hashtables ∧
      aggFillHashTable cfg s = .ok s' ∧
      List.Forall₂ (fun ph ht => ∀ fuel, reloadMeasure (unreadRecords ht).length ht + 2 ≤ fuel →
          EndsWith cfg.pertrans (fun p : TupleHashTable Nat × List (TupleHashTable Nat) =>
              GroupsOnce ph s.outer (ht.entryKeys ++ p.2.flatMap TupleHashTable.entryKeys))
            (reloadHybridHashtable cfg.pertrans ph fuel ht))
        cfg.perhash s'.hashtables := by
  have hl : ∀ ph ∈ (countByFirstColumn true).perhash, EqFunctionsLawful ph.eqfunctions := by
    simp only [countByFirstColumn, List.mem_singleton, forall_eq]
    refine ⟨by simp [firstColumnHash], ?_, by simp [firstColumnHash]⟩
    simp only [firstColumnHash, List.mem_singleton, forall_eq, beq_iff_eq]
    exact fun _ _ => Eq.symm
  refine ⟨_, _, _, rfl, hl, rfl, rfl, rfl, ?_, rfl, aggFillHashTable_groups_each_row_once ?_ ?_ ?_ ?_ ?_ ?_⟩
  all_goals first | exact hl | exact .cons ⟨rfl, rfl, rfl, rfl, by decide⟩ .nil | rfl

/-- The batches: key 2, left in the table, then key 1 with its two rows. -/
example : ((do
      let (cfg, s) ← execInitAgg (countByFirstColumn true) countStarCatalog
        [[⟨1, false⟩], [⟨2, false⟩], [⟨1, false⟩]]
      let s ← aggFillHashTable cfg s
      let ht := s.hashtables.getD 0 .empty
      let (_, batches) ← reloadHybridHashtable cfg.pertrans (firstColumnHash true) 20 ht
      pure ((ht :: batches).map fun b => b.entries.map fun e => (e.firstTuple, e.additional))) :
      Except String _) =
    .ok [[([⟨2, false⟩], [⟨1, false, false⟩])], [([⟨1, false⟩], [⟨2, false, false⟩])]] := rfl

end NodeAgg

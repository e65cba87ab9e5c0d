import NodeAgg.Combine

/-!
# Sizing a hybrid table, and the retried insert

`build_hash_table` sizes every table whose Agg node was planned hybrid with
`OptimizeHybridHashtableSize`: room for `work_mem * 1024 / entrySize` entries.
When a new key finds the table full, `lookup_hash_entry` dumps the table and
retries the insert; the comment of the spec calls the retry "now guaranteed to
succeed", and the code keeps an `elog(ERROR, "could not find entry in
hybrid-hashtable")` behind it.

The retry succeeds exactly when the table has room for one entry
(`lookupHashEntry_ok_of_room`): the dump leaves it empty.  The sizing does not
ensure that room.  An entry larger than `work_mem` gives a capacity of zero, a
dump of an empty table leaves it as it was, and every row's lookup ends in the
error (`lookupHashEntry_fails_of_entrySize_gt_workMem`).
-/

namespace NodeAgg

section

variable {D : Type} [Inhabited D]

/-! ## What sizing and dumping do to a table -/

omit [Inhabited D] in
@[simp] theorem optimizeHybridHashtableSize_nentries (t : TupleHashTable D) (entrySize workMem nbatches : Nat) :
    (optimizeHybridHashtableSize t entrySize workMem nbatches).nentries = workMem * 1024 / entrySize % 2 ^ 32 :=
  rfl

omit [Inhabited D] in
@[simp] theorem optimizeHybridHashtableSize_hybrid (t : TupleHashTable D) (entrySize workMem nbatches : Nat) :
    (optimizeHybridHashtableSize t entrySize workMem nbatches).hybrid = true := rfl

omit [Inhabited D] in
@[simp] theorem optimizeHybridHashtableSize_entries (t : TupleHashTable D) (entrySize workMem nbatches : Nat) :
    (optimizeHybridHashtableSize t entrySize workMem nbatches).entries = t.entries := rfl

/-- Whether two tables have the same capacity in hybrid mode. -/
def TupleHashTable.SameCapacity (t t' : TupleHashTable D) : Prop :=
  t'.nentries = t.nentries ∧ t'.hybrid = t.hybrid

omit [Inhabited D] in
theorem fileInSlot_sameCapacity {t : TupleHashTable D} {si k : Nat} {s : SpillSet}
    {p : Nat × TupleHashTable D} (h : t.fileInSlot si s k = .ok p) : t.SameCapacity p.2 := by
  unfold TupleHashTable.fileInSlot at h
  split at h
  · cases h
  · cases h; exact ⟨rfl, rfl⟩
  · cases h; exact ⟨rfl, rfl⟩

omit [Inhabited D] in
/-- Writing one entry to a batch file leaves the capacity alone. -/
theorem dumpEntry_sameCapacity {pts : List (AggStatePerTrans D)} {t t' : TupleHashTable D}
    {e : TupleHashEntry D} (h : dumpEntry pts t e = .ok t') : t.SameCapacity t' := by
  unfold dumpEntry at h
  split at h
  · cases h
  · simp only [bind, Except.bind] at h
    split at h
    · cases h
    · rename_i hslot
      split at h
      · cases h
      · cases h
        exact fileInSlot_sameCapacity hslot

omit [Inhabited D] in
/-- `DumpHybridHashtable` empties the table and keeps its capacity. -/
theorem dumpHybridHashtable_ok {pts : List (AggStatePerTrans D)} {t t' : TupleHashTable D}
    (h : dumpHybridHashtable pts t = .ok t') : t'.entries = [] ∧ t.SameCapacity t' := by
  unfold dumpHybridHashtable at h
  obtain ⟨t1, h1, h⟩ := except_bind_eq_ok h
  cases h
  have hprep : t.SameCapacity (prepareSpillSet t) := by
    unfold prepareSpillSet; split <;> exact ⟨rfl, rfl⟩
  refine ⟨rfl, ?_⟩
  obtain ⟨hn, hh⟩ := foldlM_ok_of_step (fun b => t.SameCapacity b)
    (fun b _ b' hs hb => ⟨(dumpEntry_sameCapacity hs).1.trans hb.1, (dumpEntry_sameCapacity hs).2.trans hb.2⟩)
    _ h1 hprep
  exact ⟨hn, hh⟩

omit [Inhabited D] in
/-- Dumping a table with no entries writes nothing. -/
theorem dumpHybridHashtable_of_entries_nil {pts : List (AggStatePerTrans D)} {t : TupleHashTable D}
    (he : t.entries = []) : dumpHybridHashtable pts t = .ok (prepareSpillSet t).reset := by
  have hprep : (prepareSpillSet t).entries = [] := by
    unfold prepareSpillSet; split
    · exact he
    · exact he
  simp only [dumpHybridHashtable, hprep, List.foldlM_nil]
  rfl

/-! ## The retried insert -/

/-- With room for one entry, the retry after a dump that succeeds finds or
creates the key's entry: `lookup_hash_entry` returns an entry. -/
theorem lookupHashEntry_ok_of_room (cfg : AggConfig D) (ph : AggStatePerHash D) (t : Tuple D)
    {ht ht' : TupleHashTable D} (hroom : 0 < ht.nentries)
    (hdump : dumpHybridHashtable cfg.pertrans ht = .ok ht') :
    ∃ r, lookupHashEntry cfg ph t ht = .ok r := by
  obtain ⟨he, hn, -⟩ := dumpHybridHashtable_ok hdump
  have hnew : ∃ p, (lookupTupleHashEntry ph ht' (hashKeyOf ph t)).1 = some p := by
    simp only [lookupTupleHashEntry, insertWithKey, findEntry, he, List.findIdx?_nil,
      TupleHashTable.full, List.length_nil, Nat.le_zero, hn]
    split <;> simp_all
  unfold lookupHashEntry
  simp only [bind, Except.bind, pure, Except.pure]
  split
  · exact ⟨_, rfl⟩
  · rename_i ht1 h1
    have hht : ht1 = ht ∧ ht.hybrid = true := by
      simp only [lookupTupleHashEntry, insertWithKey] at h1
      split at h1
      · cases h1
      · split at h1
        · rename_i hfull
          simp only [TupleHashTable.full, Bool.and_eq_true] at hfull
          simp only [Prod.mk.injEq, Option.map_none', true_and] at h1
          exact ⟨h1.symm, hfull.1⟩
        · cases h1
    obtain ⟨rfl, hhy⟩ := hht
    obtain ⟨p, hp⟩ := hnew
    simp only [hhy, if_true, hdump]
    split
    · exact ⟨_, rfl⟩
    · rename_i h2; rw [h2] at hp; cases hp

/-- A hybrid table with room for no entry and no entry in it: the lookup of any
row dumps nothing, retries, and fails. -/
theorem lookupHashEntry_of_no_room (cfg : AggConfig D) (ph : AggStatePerHash D) (t : Tuple D)
    {ht : TupleHashTable D} (hh : ht.hybrid = true) (h0 : ht.nentries = 0) (he : ht.entries = []) :
    lookupHashEntry cfg ph t ht = .error "could not find entry in hybrid-hashtable" := by
  have hfull : ∀ u : TupleHashTable D, u.entries = [] → u.hybrid = true → u.nentries = 0 →
      lookupTupleHashEntry ph u (hashKeyOf ph t) = (none, u) := by
    intro u hue huh hun
    simp [lookupTupleHashEntry, insertWithKey, findEntry, hue, TupleHashTable.full, huh, hun]
  have hprep : (prepareSpillSet ht).hybrid = true ∧ (prepareSpillSet ht).nentries = 0 := by
    unfold prepareSpillSet; split
    · exact ⟨hh, h0⟩
    · exact ⟨hh, h0⟩
  simp only [lookupHashEntry, hfull ht he hh h0, hh, if_true, dumpHybridHashtable_of_entries_nil he,
    hfull _ (TupleHashTable.reset_entries _) hprep.1 hprep.2, bind, Except.bind, pure, Except.pure]

/-- A hashed set planned hybrid whose entries are larger than `work_mem`:
`build_hash_table` gives its table room for no entry, and the lookup of the
first row fails with the error the retry after the dump was meant to rule
out. -/
theorem lookupHashEntry_fails_of_entrySize_gt_workMem {cfg : AggConfig D} {k : Nat}
    (hk : k < cfg.perhash.length) (hh : (cfg.perhash.getD k default).hybrid = true)
    (hsize : cfg.workMem * 1024 < (cfg.perhash.getD k default).entrySize) (t : Tuple D) :
    ((buildHashTable cfg).getD k .empty).nentries = 0 ∧
      lookupHashEntry cfg (cfg.perhash.getD k default) t ((buildHashTable cfg).getD k .empty) =
        .error "could not find entry in hybrid-hashtable" := by
  have hb : (buildHashTable cfg).getD k .empty =
      optimizeHybridHashtableSize .empty (cfg.perhash.getD k default).entrySize cfg.workMem
        cfg.defaultHashaggNbatches := by
    simp only [buildHashTable, List.getD_eq_getElem?_getD, List.getElem?_map, List.getElem?_eq_getElem hk,
      Option.map_some', Option.getD_some] at hh ⊢
    rw [if_pos hh]
  have h0 : ((buildHashTable cfg).getD k .empty).nentries = 0 := by
    rw [hb, optimizeHybridHashtableSize_nentries, Nat.div_eq_of_lt hsize, Nat.zero_mod]
  exact ⟨h0, lookupHashEntry_of_no_room cfg _ t (by rw [hb]; rfl) h0 (by rw [hb]; rfl)⟩

/-- `SELECT a, count(*) FROM t GROUP BY a` by hashing, planned hybrid with an
entry size of 65537 bytes under a `work_mem` of 64 kB. -/
def countWideEntries : AggConfig Nat :=
  { countByFirstColumn true with
    workMem := 64, perhash := [{ firstColumnHash true with entrySize := 65537 }] }

theorem countWideEntries_lookup_fails :
    0 < countWideEntries.perhash.length ∧ (countWideEntries.perhash.getD 0 default).hybrid = true ∧
      countWideEntries.workMem * 1024 < (countWideEntries.perhash.getD 0 default).entrySize ∧
      ((buildHashTable countWideEntries).getD 0 .empty).nentries = 0 ∧
      lookupHashEntry countWideEntries (countWideEntries.perhash.getD 0 default) [⟨1, false⟩]
          ((buildHashTable countWideEntries).getD 0 .empty) =
        .error "could not find entry in hybrid-hashtable" :=
  ⟨by decide, rfl, by decide,
    @lookupHashEntry_fails_of_entrySize_gt_workMem _ _ countWideEntries 0 (by decide) rfl (by decide) _⟩

example : runNode countWideEntries countStarCatalog [[⟨1, false⟩]] 20 =
    .error "could not find entry in hybrid-hashtable" := rfl

end

end NodeAgg

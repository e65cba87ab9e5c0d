import NodeAgg.Reload

/-!
# The reload loads every group in exactly one batch

A hybrid table that spilled is emptied and reloaded batch by batch: each load
reads one file of the current spill set (`LoadHybridHashtable`), merging its
records into the entries of their keys, inserting new keys while there is room,
and re-spilling the rest to file `hash % num_files` of the file's child set.
What a maintainer wants of this is that no group is lost and none is split:
every group of the records the input phase spilled is the key of an entry of
exactly one loaded batch, and no batch holds an entry that is not such a group
(`reloadHybridHashtable_loads_each_group_once`).

A group is a key with its hash, two of them being one group when the hashes
are equal and the keys match (`AggStatePerHash.sameKey`), which is what a probe
of `tuplehash_insert_with_key` asks of an entry.  The proof follows a load
record by record (`LoadGroups`): the entries are of different groups, each the
key of a record read; each record read is in the group of an entry or lies in a
new file, the one the slot of its hash in the child set points to.  Between
loads (`GroupsInv`) the keys loaded so far are of different groups, none of the
group of a record still unread, and the files still to read hold records of
different hashes, so that a load, which takes every group of its file, takes
no group another file holds.

Two hypotheses are needed beyond those of the reload's termination.  The key
equality must be reflexive (`EqFunctionsLawful`), or a record would not be in
the group of the entry it creates.  And the top-level files must be placed by
hash (`HashPlaced`), as `DumpHybridHashtable` writes them (file
`hash % nbatches`): records of one group in two top-level files would be
loaded in two batches.  Both hold of what the input phase leaves: the dumps of
`lookup_hash_entry` and `dump_hashtable_if_spilled` write the top-level set
placed by hash (`NodeAgg.HybridFill`, `dumpHybridHashtable_topPlaced`).
-/

namespace NodeAgg

section

variable {D : Type} [Inhabited D]

/-! ## Groups and slots -/

omit [Inhabited D] in
/-- A spilled record's key and hash, as the table's entries keep them. -/
def SpillRecord.key (r : SpillRecord D) : Tuple D × UInt32 := (r.tuple, r.hash)

/-- Two keys, each with its hash, are of one group of the set: the hashes are
equal and the keys match.  An entry `a` is what a probe with `b` finds. -/
def AggStatePerHash.sameKey (ph : AggStatePerHash D) (a b : Tuple D × UInt32) : Prop :=
  a.2 = b.2 ∧ ph.keysMatch a.1 b.1 = true

theorem AggStatePerHash.sameKey_refl {ph : AggStatePerHash D} (hl : EqFunctionsLawful ph.eqfunctions)
    (a : Tuple D × UInt32) : ph.sameKey a a :=
  ⟨rfl, execTuplesMatch_refl hl _ _ _⟩

theorem AggStatePerHash.sameKey_trans {ph : AggStatePerHash D} (hl : EqFunctionsLawful ph.eqfunctions)
    {a b c : Tuple D × UInt32} (hab : ph.sameKey a b) (hbc : ph.sameKey b c) : ph.sameKey a c :=
  ⟨hab.1.trans hbc.1, execTuplesMatch_trans hl hab.2 hbc.2⟩

omit [Inhabited D] in
/-- Record `r` lies in file `j`, which the slot of its hash in spill set `c`
points to. -/
def InSlot (c : SpillSet) (j : Nat) (r : SpillRecord D) : Prop :=
  c.spillFile[r.hash.toNat % c.numFiles]? = some (some j)

omit [Inhabited D] in
/-- Two records of one hash lie, by their slots, in one file. -/
theorem InSlot.eq {c : SpillSet} {a b : Nat} {r r' : SpillRecord D} (ha : InSlot c a r) (hb : InSlot c b r')
    (hh : r.hash = r'.hash) : a = b := by
  unfold InSlot at ha hb
  rw [hh, hb] at ha
  exact (Option.some.inj (Option.some.inj ha)).symm

/-- The records of the files from index `lo` on each lie in the file the slot of
their hash in spill set `si` points to: how `DumpHybridHashtable` writes the
top-level set (`hash % nbatches`) and a load re-spills into a child set
(`hash % num_files`). -/
def HashPlaced (t : TupleHashTable D) (si lo : Nat) : Prop :=
  ∀ j, lo ≤ j → ∀ r ∈ fileRecords t j, ∃ c ∈ t.sets[si]?, InSlot c j r

omit [Inhabited D] in
/-- Two files placed by hash hold records of different hashes. -/
theorem HashPlaced.hash_ne {t : TupleHashTable D} {si lo a b : Nat} (h : HashPlaced t si lo) (ha : lo ≤ a)
    (hb : lo ≤ b) (hab : a ≠ b) {r r' : SpillRecord D} (hr : r ∈ fileRecords t a) (hr' : r' ∈ fileRecords t b) :
    r.hash ≠ r'.hash := by
  intro hh
  obtain ⟨c, hc, hca⟩ := h a ha r hr
  obtain ⟨c', hc', hcb⟩ := h b hb r' hr'
  obtain rfl : c = c' := Option.some.inj (hc.symm.trans hc')
  exact hab (hca.eq hcb hh)

/-! ## The records of the files -/

omit [Inhabited D] in
theorem fileRecords_of_files_eq {t t' : TupleHashTable D} (h : t'.files = t.files) :
    fileRecords t' = fileRecords t := by
  funext j
  simp only [fileRecords, h]

omit [Inhabited D] in
/-- Changing a file's counters or flags keeps every file's records. -/
theorem fileRecords_modify {t t' : TupleHashTable D} {g : SpillFile D → SpillFile D} {i : Nat}
    (h : t'.files = t.files.modify g i) (hg : ∀ f, (g f).file = f.file) : fileRecords t' = fileRecords t := by
  funext j
  simp only [fileRecords, h, List.getElem?_modify]
  split <;> cases t.files[j]? <;> simp [hg]

omit [Inhabited D] in
theorem fileRecords_of_le {t : TupleHashTable D} {j : Nat} (h : t.files.length ≤ j) : fileRecords t j = [] := by
  simp [fileRecords, List.getElem?_eq_none h]

omit [Inhabited D] in
theorem fileRecords_newFile (t : TupleHashTable D) : fileRecords t.newFile.2 = fileRecords t := by
  funext j
  unfold fileRecords TupleHashTable.newFile
  rcases Nat.lt_or_ge j t.files.length with hj | hj
  · rw [List.getElem?_append_left hj]
  · rw [List.getElem?_append_right hj, List.getElem?_eq_none hj]
    cases j - t.files.length <;> rfl

omit [Inhabited D] in
theorem fileRecords_appendRecord {t : TupleHashTable D} {j : Nat} (hj : j < t.files.length) (r : SpillRecord D)
    (j' : Nat) : fileRecords (t.appendRecord j r) j' = fileRecords t j' ++ if j' = j then [r] else [] := by
  simp only [fileRecords, TupleHashTable.appendRecord, TupleHashTable.modifyFile_files, List.getElem?_modify]
  by_cases h : j = j'
  · subst h
    simp [List.getElem?_eq_getElem hj]
  · simp [h, Ne.symm h]

omit [Inhabited D] in
/-- A record of a file past `pre` is in one of the files appended to it. -/
theorem fileRecords_append_right {t : TupleHashTable D} {pre newFiles : List (SpillFile D)}
    (hfiles : t.files = pre ++ newFiles) {j : Nat} (hj : pre.length ≤ j) {r : SpillRecord D}
    (hr : r ∈ fileRecords t j) : ∃ f ∈ newFiles, t.files[j]? = some f ∧ r ∈ f.file := by
  unfold fileRecords at hr
  cases hget : t.files[j]? with
  | none => rw [hget] at hr; cases hr
  | some f =>
    rw [hget] at hr
    have hf := hget
    rw [hfiles, List.getElem?_append_right hj] at hf
    exact ⟨f, List.getElem?_mem hf, rfl, hr⟩

/-! ## One record of a load -/

/-- What `tuplehash_insert_with_key` does, by groups: it finds an entry of the
key's group, or the table has none and it appends one or (full) returns none. -/
theorem insertWithKey_groups (ph : AggStatePerHash D) (t : TupleHashTable D) (key : Tuple D) (hash : UInt32) :
    (∃ i, insertWithKey ph t key hash = (some (i, true), t) ∧ ∃ k ∈ t.entryKeys, ph.sameKey k (key, hash)) ∨
    ((∀ k ∈ t.entryKeys, ¬ ph.sameKey k (key, hash)) ∧
      (insertWithKey ph t key hash = (none, t) ∨ ∃ t', insertWithKey ph t key hash = (some (t.entries.length, false), t') ∧
        t' = { t with entries := t.entries ++ [⟨key, [], hash⟩] })) := by
  unfold insertWithKey
  cases hf : findEntry ph t.entries hash key with
  | some i =>
    refine .inl ⟨i, rfl, ?_⟩
    have hp := List.findIdx?_of_eq_some hf
    split at hp
    · rename_i e he
      exact ⟨_, TupleHashTable.mem_entryKeys t (List.getElem?_mem he), by simpa [AggStatePerHash.sameKey] using hp⟩
    · cases hp
  | none =>
    refine .inr ⟨?_, ?_⟩
    · rintro _ hk ⟨hh, hm⟩
      obtain ⟨e, he, rfl⟩ := List.mem_map.1 hk
      rw [findEntry, List.findIdx?_eq_none_iff] at hf
      simp_all
    · cases t.full
      · exact .inr ⟨_, rfl, rfl⟩
      · exact .inl rfl

omit [Inhabited D] in
/-- `fileInSlot` then `appendRecord`: the record goes to the file of slot `k`, a
new file at the end when the slot is empty; the slot then points to it, no slot
already filled changes, and no other file. -/
theorem fileInSlot_appendRecord {tc : TupleHashTable D} {ci k : Nat} {c : SpillSet}
    (hci : tc.sets[ci]? = some c) (hk : k < c.spillFile.length)
    (hval : ∀ j, c.spillFile[k]? = some (some j) → j < tc.files.length) (r : SpillRecord D) :
    ∃ t' c' j, (do
        let (cfi, t) ← tc.fileInSlot ci c k
        .ok (t.appendRecord cfi r)) = Except.ok (ε := String) t' ∧
      t'.entries = tc.entries ∧ t'.sets[ci]? = some c' ∧ c'.numFiles = c.numFiles ∧
      c'.spillFile[k]? = some (some j) ∧ (c.spillFile[k]? = some (some j) ∨ j = tc.files.length) ∧
      (∀ k' j' : Nat, c.spillFile[k']? = some (some j') → c'.spillFile[k']? = some (some j')) ∧
      ∀ j', fileRecords t' j' = fileRecords tc j' ++ if j' = j then [r] else [] := by
  obtain ⟨o, ho⟩ : ∃ o, c.spillFile[k]? = some o := ⟨_, List.getElem?_eq_getElem hk⟩
  cases o with
  | none =>
    have hci' := (List.getElem?_eq_some_iff.1 hci).1
    refine ⟨(tc.newFile.2.setSet ci { c with spillFile := c.spillFile.set k (some tc.files.length) }).appendRecord
      tc.files.length r, { c with spillFile := c.spillFile.set k (some tc.files.length) }, tc.files.length, ?_, rfl,
      ?_, rfl, List.getElem?_set_self hk, .inr rfl, ?_, fun j' => ?_⟩
    · simp only [TupleHashTable.fileInSlot, List.get?_eq_getElem?, ho]; rfl
    · simp [TupleHashTable.appendRecord, TupleHashTable.setSet, TupleHashTable.newFile, hci']
    · intro k' j' hj'
      rw [List.getElem?_set]
      split_ifs with h
      · subst h; rw [ho] at hj'; cases hj'
      · exact hj'
    · rw [fileRecords_appendRecord (by simp [TupleHashTable.setSet, TupleHashTable.newFile]),
        fileRecords_of_files_eq (TupleHashTable.setSet_files _ _ _), fileRecords_newFile]
  | some j =>
    refine ⟨tc.appendRecord j r, c, j, ?_, rfl, hci, rfl, ho, .inl ho, fun _ _ h => h,
      fileRecords_appendRecord (hval j ho) r⟩
    simp only [TupleHashTable.fileInSlot, List.get?_eq_getElem?, ho]; rfl

omit [Inhabited D] in
/-- `respillRecord` on a table the read so far has shaped: the record goes to a
new file of the child set, the one the slot of its hash points to; no slot
already filled changes, and no other file. -/
theorem respillRecord_placed {t0 t : TupleHashTable D} {si fi n : Nat} {s : SpillSet} {f0 : SpillFile D}
    {sp : Bool} {newFiles : List (SpillFile D)} {slots : List (Option Nat)} (hfi : fi < t0.files.length)
    (hfiles : t.files = t0.files.set fi (readingFile f0 n sp t0.sets.length) ++ newFiles)
    (hsets : t.sets = if sp then t0.sets ++ [childSet si s slots] else t0.sets)
    (hnil : sp = false → newFiles = [] ∧ slots = List.replicate (s.numFiles + 1) none)
    (hlen : slots.length = s.numFiles + 1)
    (hperm : (slots.filterMap id).Perm (List.range' t0.files.length newFiles.length)) (r : SpillRecord D) :
    ∃ t' c j, respillRecord t si s fi r = .ok t' ∧ t'.entries = t.entries ∧
      t'.sets[t0.sets.length]? = some c ∧ c.numFiles = s.numFiles + 1 ∧ InSlot c j r ∧ t0.files.length ≤ j ∧
      (∀ k j' : Nat, slots[k]? = some (some j') → c.spillFile[k]? = some (some j')) ∧
      ∀ j', fileRecords t' j' = fileRecords t j' ++ if j' = j then [r] else [] := by
  have hget : t.files.get? fi = some (readingFile f0 n sp t0.sets.length) := by
    rw [List.get?_eq_getElem?, hfiles, List.getElem?_append_left (by simpa using hfi),
      List.getElem?_set_self hfi]
  have hlenF : t.files.length = t0.files.length + newFiles.length := by rw [hfiles]; simp
  have hk : r.hash.toNat % (s.numFiles + 1) < slots.length := by rw [hlen]; exact Nat.mod_lt _ s.numFiles.succ_pos
  cases sp
  · obtain ⟨rfl, rfl⟩ := hnil rfl
    have hs0 : t.sets = t0.sets := by simpa using hsets
    -- the child set is made, as set `t0.sets.length`, before the record goes to it
    have hci : ((t.newSet (childSet si s (List.replicate (s.numFiles + 1) none))).2.modifyFile fi
        fun f => { f with spilled := true, childSpillSet := some t.sets.length }).sets[t.sets.length]? =
        some (childSet si s (List.replicate (s.numFiles + 1) none)) := by
      simp [TupleHashTable.newSet]
    obtain ⟨t', c, j, heq, hent, hc, hnum, hslot, hj, -, hrec⟩ := fileInSlot_appendRecord hci
      (by simpa [childSet] using hk) (fun j hj => by simp [childSet, List.getElem?_replicate] at hj) r
    refine ⟨t', c, j, ?_, hent, hs0 ▸ hc, hnum, ?_, ?_, fun k j' h => by simp [List.getElem?_replicate] at h,
      fun j' => ?_⟩
    · unfold respillRecord
      simp only [hget, bind, Except.bind, readingFile_spilled, Bool.false_eq_true, if_false,
        TupleHashTable.newSet, TupleHashTable.modifyFile_sets, List.get?_eq_getElem?, List.getElem?_concat_length]
      exact heq
    · unfold InSlot; rw [hnum]; exact hslot
    · rcases hj with h | rfl
      · simp [childSet, List.getElem?_replicate] at h
      · simp [TupleHashTable.newSet, hlenF]
    · rw [hrec j', fileRecords_modify (TupleHashTable.modifyFile_files _ _ _) fun _ => ?_] <;> rfl
  · have hci : t.sets[t0.sets.length]? = some (childSet si s slots) := by
      rw [hsets, if_pos rfl, List.getElem?_concat_length]
    obtain ⟨t', c, j, heq, hent, hc, hnum, hslot, hj, hpres, hrec⟩ := fileInSlot_appendRecord hci
      (by simpa [childSet] using hk) (fun j hj => by
        have := hperm.subset (List.mem_filterMap.2 ⟨some j, List.getElem?_mem hj, rfl⟩)
        rw [List.mem_range'_1] at this
        omega) r
    refine ⟨t', c, j, ?_, hent, hc, hnum, ?_, ?_, hpres, hrec⟩
    · unfold respillRecord
      simp only [hget, hsets, bind, Except.bind, readingFile_spilled, readingFile_childSpillSet, if_true,
        List.get?_eq_getElem?, List.getElem?_concat_length]
      exact heq
    · unfold InSlot; rw [hnum]; exact hslot
    · rcases hj with h | rfl
      · have := hperm.subset (List.mem_filterMap.2 ⟨some j, List.getElem?_mem h, rfl⟩)
        rw [List.mem_range'_1] at this
        exact this.1
      · omega

namespace EndsWith

variable {pts : List (AggStatePerTrans D)} {α : Type} {P Q : α → Prop} {x : Except String α}

theorem and (hp : EndsWith pts P x) (hq : EndsWith pts Q x) : EndsWith pts (fun a => P a ∧ Q a) x := by
  cases x with
  | error e => exact hp
  | ok a => exact ⟨hp, hq⟩

/-- A property of the results alone joins one of the computation. -/
theorem and_of_ok (hp : EndsWith pts P x) (hq : ∀ a, x = .ok a → Q a) : EndsWith pts (fun a => P a ∧ Q a) x := by
  cases x with
  | error e => exact hp
  | ok a => exact ⟨hp, hq a rfl⟩

end EndsWith

/-- What reading the records `done` of a file into the emptied table `t0` has
made of the table `t`, by groups: its entries are of different groups, each the
key of a record read; each record read is in the group of an entry or lies in a
new file; and the new files are placed by hash in the child set. -/
structure LoadGroups (ph : AggStatePerHash D) (t0 : TupleHashTable D) (done : List (SpillRecord D))
    (t : TupleHashTable D) : Prop where
  distinct : t.entryKeys.Pairwise fun a b => ¬ ph.sameKey a b
  origin : ∀ k ∈ t.entryKeys, ∃ r ∈ done, k = r.key
  absorbed : ∀ r ∈ done, (∃ k ∈ t.entryKeys, ph.sameKey k r.key) ∨ ∃ j, t0.files.length ≤ j ∧ r ∈ fileRecords t j
  placed : HashPlaced t t0.sets.length t0.files.length

namespace LoadGroups

variable {ph : AggStatePerHash D} {t0 t : TupleHashTable D} {si : Nat} {s : SpillSet} {fi : Nat}
  {f0 : SpillFile D} {done : List (SpillRecord D)} {sp : Bool} {resp : List (SpillRecord D)}
  {newFiles : List (SpillFile D)} {slots : List (Option Nat)}

/-- Before the first record the table is empty and no file is new. -/
theorem init (he : t0.entries = []) : LoadGroups ph t0 [] t0 where
  distinct := by simp [TupleHashTable.entryKeys, he]
  origin := by simp [TupleHashTable.entryKeys, he]
  absorbed := by simp
  placed j hj r hr := by rw [fileRecords_of_le hj] at hr; cases hr

/-- One record of the read keeps the invariant, the record counted in `done`. -/
theorem step (pts : List (AggStatePerTrans D)) (hl : EqFunctionsLawful ph.eqfunctions)
    (hfi : fi < t0.files.length) (hs : LoadShape ph t0 si s fi f0 done t sp resp newFiles slots)
    (h : LoadGroups ph t0 done t) (r : SpillRecord D) :
    EndsWith pts (LoadGroups ph t0 (done ++ [r])) (loadRecord pts ph si s fi t r) := by
  have hrec : fileRecords (t.modifyFile fi fun f => { f with ntupsRead := f.ntupsRead + 1 }) = fileRecords t :=
    fileRecords_modify (TupleHashTable.modifyFile_files _ _ _) fun _ => rfl
  have horigin : ∀ k ∈ t.entryKeys, ∃ r' ∈ done ++ [r], k = r'.key := fun k hk =>
    let ⟨r', hr', e⟩ := h.origin k hk
    ⟨r', List.mem_append_left _ hr', e⟩
  unfold loadRecord
  rcases insertWithKey_groups ph (t.modifyFile fi fun f => { f with ntupsRead := f.ntupsRead + 1 }) r.tuple r.hash
    with ⟨i, hins, k, hk, hkr⟩ | ⟨hno, hins | hins⟩
  · -- the record's group has an entry: merge
    simp only [hins]
    refine (endsWith_reloadPergroup pts _).bind fun _ _ => (endsWith_mergePergroup pts _ _).bind fun merged _ => ?_
    have hk' := TupleHashTable.entryKeys_setAdditional
      (t.modifyFile fi fun f => { f with ntupsRead := f.ntupsRead + 1 }) i merged
    have hr' : fileRecords ((t.modifyFile fi fun f => { f with ntupsRead := f.ntupsRead + 1 }).setAdditional i merged) =
      fileRecords t := (fileRecords_of_files_eq rfl).trans hrec
    refine ⟨hk' ▸ h.distinct, hk' ▸ horigin, fun r' hr'' => ?_, fun j hj r' hr'' => h.placed j hj r' (hr' ▸ hr'')⟩
    rw [hk', hr']
    rcases List.mem_append.1 hr'' with hr'' | hr''
    · exact h.absorbed r' hr''
    · obtain rfl := List.mem_singleton.1 hr''
      exact .inl ⟨k, hk, hkr⟩
  · -- no entry and the table full: re-spill to the child set
    simp only [hins]
    have hfiles : (t.modifyFile fi fun f => { f with ntupsRead := f.ntupsRead + 1 }).files =
        t0.files.set fi (readingFile f0 (done ++ [r]).length sp t0.sets.length) ++ newFiles := by
      rw [TupleHashTable.modifyFile_files, hs.files, modify_set_append _ hfi, List.length_append,
        List.length_singleton]
      rfl
    obtain ⟨t', c, j, heq, hent, hc, hnum, hslot, hj, hpres, hrecs⟩ := respillRecord_placed hfi hfiles hs.sets
      (fun hsp => by subst hsp; exact hs.newFiles_eq_nil) hs.slots_length hs.slots_perm r
    rw [heq]
    have hk' : t'.entryKeys = t.entryKeys := by simp only [TupleHashTable.entryKeys, hent]; rfl
    have hrecs' : ∀ j', fileRecords t' j' = fileRecords t j' ++ if j' = j then [r] else [] := by
      simpa only [hrec] using hrecs
    refine ⟨hk' ▸ h.distinct, hk' ▸ horigin, fun r' hr' => ?_, fun j' hj' r' hr' => ⟨c, hc, ?_⟩⟩
    · rw [hk']
      rcases List.mem_append.1 hr' with hr' | hr'
      · rcases h.absorbed r' hr' with hm | ⟨j', hj', hin⟩
        · exact .inl hm
        · exact .inr ⟨j', hj', by rw [hrecs']; exact List.mem_append_left _ hin⟩
      · obtain rfl := List.mem_singleton.1 hr'
        exact .inr ⟨j, hj, by simp [hrecs']⟩
    · rw [hrecs'] at hr'
      rcases List.mem_append.1 hr' with hr' | hr'
      · -- a record re-spilled before: the child set existed, its slot is kept
        obtain ⟨c0, hc0, hin⟩ := h.placed j' hj' r' hr'
        obtain rfl : c0 = childSet si s slots := by
          rw [hs.sets] at hc0
          cases sp
          · simp at hc0
          · simpa using hc0.symm
        unfold InSlot at hin ⊢
        rw [hnum]
        exact hpres _ _ hin
      · split at hr'
        · obtain rfl := List.mem_singleton.1 hr'
          subst_vars
          exact hslot
        · cases hr'
  · -- no entry and room: a new entry of the record's key
    obtain ⟨t1, hins, ht1⟩ := hins
    have hk1 : t1.entryKeys = t.entryKeys ++ [(r.tuple, r.hash)] := by
      rw [ht1]; exact TupleHashTable.entryKeys_addEntry _ _
    have hf1 := congrArg TupleHashTable.files ht1
    have hs1 := congrArg TupleHashTable.sets ht1
    simp only [hins]
    refine (endsWith_reloadPergroup pts _).bind fun pgs _ => ?_
    have hk' : ∀ i, (t1.setAdditional i pgs).entryKeys = t.entryKeys ++ [r.key] := fun i => by
      rw [TupleHashTable.entryKeys_setAdditional, hk1]; rfl
    have hr' : ∀ i, fileRecords (t1.setAdditional i pgs) = fileRecords t := fun i =>
      (fileRecords_of_files_eq hf1).trans hrec
    refine ⟨?_, fun k hk => ?_, fun r' hr'' => ?_, fun j hj r' hr'' => ?_⟩
    · rw [hk']
      exact List.pairwise_append.2 ⟨h.distinct, List.pairwise_singleton _ _,
        fun k hk _ hb => (List.mem_singleton.1 hb) ▸ hno k hk⟩
    · rw [hk'] at hk
      rcases List.mem_append.1 hk with hk | hk
      · exact horigin k hk
      · exact ⟨r, List.mem_append_right _ (List.mem_singleton_self _), List.mem_singleton.1 hk⟩
    · rw [hk', hr']
      rcases List.mem_append.1 hr'' with hr'' | hr''
      · rcases h.absorbed r' hr'' with ⟨k, hk, hm⟩ | hn
        · exact .inl ⟨k, List.mem_append_left _ hk, hm⟩
        · exact .inr hn
      · obtain rfl := List.mem_singleton.1 hr''
        exact .inl ⟨r'.key, List.mem_append_right _ (List.mem_singleton_self _), AggStatePerHash.sameKey_refl hl _⟩
    · rw [hr'] at hr''
      rw [TupleHashTable.setAdditional_sets, hs1]
      exact h.placed j hj r' hr''

end LoadGroups

/-! ## One load -/

/-- A load that succeeds: the read of the file, shaped and grouped, then the file
closed. -/
theorem loadFile_groups (pts : List (AggStatePerTrans D)) {ph : AggStatePerHash D}
    (hl : EqFunctionsLawful ph.eqfunctions) {si fi : Nat} {s : SpillSet} {t0 t' : TupleHashTable D}
    {f0 : SpillFile D} (hf0 : t0.files[fi]? = some f0) (hu : f0.Unread) (hcap : 1 ≤ t0.nentries)
    (he : t0.entries = []) (hload : loadFile pts ph si s fi t0 = .ok t') :
    ∃ t sp resp newFiles slots, LoadShape ph t0 si s fi f0 f0.file t sp resp newFiles slots ∧
      LoadGroups ph t0 f0.file t ∧ t'.files = t.files.modify (fun f => { f with closed := true }) fi ∧
      t'.entries = t.entries ∧ t'.sets = t.sets := by
  have hfi : fi < t0.files.length := (List.getElem?_eq_some_iff.1 hf0).1
  have hfold : EndsWith pts (fun t => (∃ sp resp newFiles slots,
      LoadShape ph t0 si s fi f0 ([] ++ f0.file) t sp resp newFiles slots) ∧ LoadGroups ph t0 ([] ++ f0.file) t)
      (f0.file.foldlM (loadRecord pts ph si s fi) t0) := EndsWith.foldlM
    (fun done t => (∃ sp resp newFiles slots, LoadShape ph t0 si s fi f0 done t sp resp newFiles slots) ∧
      LoadGroups ph t0 done t)
    (fun _ r _ ⟨⟨_, _, _, _, hs⟩, hg⟩ => (hs.step pts hfi hcap r).and (hg.step pts hl hfi hs r)) f0.file [] t0
    ⟨⟨_, _, _, _, LoadShape.init ph si s hf0 hu.2.2.1 hu.2.2.2.1 he⟩, LoadGroups.init he⟩
  unfold loadFile at hload
  rw [List.get?_eq_getElem?, hf0] at hload
  obtain ⟨_, ⟨⟩, hload⟩ := except_bind_eq_ok hload
  obtain ⟨t, hok, hload⟩ := except_bind_eq_ok hload
  obtain ⟨⟨sp, resp, newFiles, slots, hs⟩, hg⟩ := hfold.of_ok hok
  rw [List.nil_append] at hs hg
  refine ⟨t, sp, resp, newFiles, slots, hs, hg, ?_⟩
  dsimp only at hload
  split at hload
  · cases hload
  · obtain ⟨_, ⟨⟩, hload⟩ := except_bind_eq_ok hload
    split_ifs at hload <;> cases hload <;> exact ⟨rfl, rfl, rfl⟩

/-- What a load of file `fi` from the table `t0` made of its files and entries:
the files open before but `fi` are open still with their records, the new files
are open and hold records of `fi` that match no entry, placed by hash in the
child set; the entries are of different groups, each the key of a record of
`fi`, and each record of `fi` is in the group of an entry or in a new file. -/
structure LoadedFile (ph : AggStatePerHash D) (t0 : TupleHashTable D) (fi : Nat) (t' : TupleHashTable D) :
    Prop where
  old : ∀ i ∈ openFiles t0, i ≠ fi → i ∈ openFiles t' ∧ fileRecords t' i = fileRecords t0 i
  open_cases : ∀ i ∈ openFiles t', (i ∈ openFiles t0 ∧ i ≠ fi) ∨ t0.files.length ≤ i
  child_open : ∀ j, t0.files.length ≤ j → ∀ r ∈ fileRecords t' j, j ∈ openFiles t'
  child_sub : ∀ j, t0.files.length ≤ j → ∀ r ∈ fileRecords t' j, r ∈ fileRecords t0 fi
  child_unmatched : ∀ j, t0.files.length ≤ j → ∀ r ∈ fileRecords t' j, ∀ k ∈ t'.entryKeys, ¬ ph.sameKey k r.key
  distinct : t'.entryKeys.Pairwise fun a b => ¬ ph.sameKey a b
  origin : ∀ k ∈ t'.entryKeys, ∃ r ∈ fileRecords t0 fi, k = r.key
  absorbed : ∀ r ∈ fileRecords t0 fi,
    (∃ k ∈ t'.entryKeys, ph.sameKey k r.key) ∨ ∃ j, t0.files.length ≤ j ∧ r ∈ fileRecords t' j
  placed : HashPlaced t' t0.sets.length t0.files.length

/-- A load of an unread file into the emptied table, when it succeeds. -/
theorem loadFile_loaded (pts : List (AggStatePerTrans D)) {ph : AggStatePerHash D}
    (hl : EqFunctionsLawful ph.eqfunctions) {si fi : Nat} {s : SpillSet} {t0 t' : TupleHashTable D}
    {f0 : SpillFile D} (hf0 : t0.files[fi]? = some f0) (hu : f0.Unread) (hcap : 1 ≤ t0.nentries)
    (he : t0.entries = []) (hload : loadFile pts ph si s fi t0 = .ok t') : LoadedFile ph t0 fi t' := by
  obtain ⟨t, sp, resp, newFiles, slots, hs, hg, hF, hE, hS⟩ := loadFile_groups pts hl hf0 hu hcap he hload
  have hfi : fi < t0.files.length := (List.getElem?_eq_some_iff.1 hf0).1
  have hFile : t'.files =
      t0.files.set fi { readingFile f0 f0.file.length sp t0.sets.length with closed := true } ++ newFiles := by
    rw [hF, hs.files, modify_set_append _ hfi]
  have hrec : fileRecords t' = fileRecords t := fileRecords_modify hF fun _ => rfl
  have hkeys : t'.entryKeys = t.entryKeys := by simp only [TupleHashTable.entryKeys, hE]
  have hF0 : fileRecords t0 fi = f0.file := by simp [fileRecords, hf0]
  have hold : ∀ i, i < t0.files.length → i ≠ fi → t'.files[i]? = t0.files[i]? := fun i hi hne => by
    rw [hFile, List.getElem?_append_left (by simpa using hi), List.getElem?_set_ne (Ne.symm hne)]
  -- a record of a new file: the file is open and the record re-spilled
  have hchild : ∀ j, t0.files.length ≤ j → ∀ r ∈ fileRecords t' j, j ∈ openFiles t' ∧ r ∈ resp := by
    intro j hj r hr
    obtain ⟨f, hf, hget, hrf⟩ := fileRecords_append_right hFile (by simpa using hj) hr
    exact ⟨mem_openFiles.2 ⟨f, hget, (hs.newFiles_unread f hf).1.2.2.2.2⟩,
      hs.resp_perm.subset (List.mem_flatMap.2 ⟨f, hf, hrf⟩)⟩
  refine ⟨fun i hi hne => ?_, fun i hi => ?_, fun j hj r hr => (hchild j hj r hr).1,
    fun j hj r hr => hF0 ▸ List.mem_of_mem_tail (hs.resp_sublist.subset (hchild j hj r hr).2),
    fun j hj r hr k hk => hs.unmatched r (hchild j hj r hr).2 k (hkeys ▸ hk), hkeys ▸ hg.distinct,
    hF0 ▸ hkeys ▸ hg.origin, fun r hr => ?_, fun j hj r hr => ?_⟩
  · obtain ⟨f, hf, hc⟩ := mem_openFiles.1 hi
    have hi' := hold i (List.getElem?_eq_some_iff.1 hf).1 hne
    exact ⟨mem_openFiles.2 ⟨f, hi'.trans hf, hc⟩, by simp only [fileRecords, hi']⟩
  · by_cases hlt : i < t0.files.length
    · obtain ⟨f, hf, hc⟩ := mem_openFiles.1 hi
      by_cases hne : i = fi
      · subst hne
        rw [hFile, List.getElem?_append_left (by simpa using hlt), List.getElem?_set_self hfi] at hf
        cases hf
        cases hc
      · exact .inl ⟨mem_openFiles.2 ⟨f, (hold i hlt hne).symm.trans hf, hc⟩, hne⟩
    · exact .inr (Nat.le_of_not_lt hlt)
  · rw [hkeys, hrec]
    exact hg.absorbed r (hF0 ▸ hr)
  · rw [hS]
    exact hg.placed j hj r (hrec ▸ hr)

/-- A record of a file open after a load: in a file open before but the one
read, or, re-spilled, a record of the file read. -/
theorem LoadedFile.mem_cases {ph : AggStatePerHash D} {t0 t' : TupleHashTable D} {fi i : Nat}
    (hL : LoadedFile ph t0 fi t') (hi : i ∈ openFiles t') {r : SpillRecord D} (hr : r ∈ fileRecords t' i) :
    (i ∈ openFiles t0 ∧ i ≠ fi ∧ r ∈ fileRecords t0 i) ∨ (t0.files.length ≤ i ∧ r ∈ fileRecords t0 fi) := by
  rcases hL.open_cases i hi with ⟨hi0, hne⟩ | hle
  · exact .inl ⟨hi0, hne, (hL.old i hi0 hne).2 ▸ hr⟩
  · exact .inr ⟨hle, hL.child_sub i hle r hr⟩

/-! ## Between two loads -/

/-- What holds between two loads of the reload, of the records `R0` of the
top-level files and the keys `keys` of the batches loaded so far: the keys are of
different groups, none of the group of a record still unread, each the key of a
record; every record is still unread or in the group of a key; and two files
still to read hold records of different hashes. -/
structure GroupsInv (ph : AggStatePerHash D) (R0 : List (SpillRecord D)) (keys : List (Tuple D × UInt32))
    (t : TupleHashTable D) : Prop where
  distinct : keys.Pairwise fun a b => ¬ ph.sameKey a b
  fresh : ∀ k ∈ keys, ∀ r ∈ unreadRecords t, ¬ ph.sameKey k r.key
  covered : ∀ r ∈ R0, r ∈ unreadRecords t ∨ ∃ k ∈ keys, ph.sameKey k r.key
  origin : ∀ k ∈ keys, ∃ r ∈ R0, k = r.key
  unread_sub : ∀ r ∈ unreadRecords t, r ∈ R0
  separated : ∀ i ∈ openFiles t, ∀ j ∈ openFiles t, i ≠ j →
    ∀ r ∈ fileRecords t i, ∀ r' ∈ fileRecords t j, r.hash ≠ r'.hash

namespace GroupsInv

variable {ph : AggStatePerHash D} {R0 : List (SpillRecord D)} {keys : List (Tuple D × UInt32)}
  {t t' : TupleHashTable D}

/-- The invariant reads the files alone. -/
theorem of_files_eq (h : GroupsInv ph R0 keys t) (hf : t'.files = t.files) : GroupsInv ph R0 keys t' := by
  have ho : openFiles t' = openFiles t := by simp only [openFiles, hf]
  have hr := fileRecords_of_files_eq hf
  have hu : unreadRecords t' = unreadRecords t := by simp only [unreadRecords, ho, hr]
  exact ⟨h.distinct, hu ▸ h.fresh, hu ▸ h.covered, h.origin, hu ▸ h.unread_sub, ho ▸ hr ▸ h.separated⟩

/-- At the top level, with the files placed by hash, nothing is loaded yet. -/
theorem top (ph : AggStatePerHash D) (hp : HashPlaced t 0 0) : GroupsInv ph (unreadRecords t) [] t where
  distinct := List.Pairwise.nil
  fresh := by simp
  covered r hr := .inl hr
  origin := by simp
  unread_sub _ hr := hr
  separated i _ j _ hij _ hr _ hr' := hp.hash_ne (Nat.zero_le _) (Nat.zero_le _) hij hr hr'

/-- A load of an open file adds the batch's keys and keeps the invariant. -/
theorem load (h : GroupsInv ph R0 keys t) {fi : Nat} (hfo : fi ∈ openFiles t) (hL : LoadedFile ph t fi t') :
    GroupsInv ph R0 (keys ++ t'.entryKeys) t' := by
  have hF : ∀ r ∈ fileRecords t fi, r ∈ unreadRecords t := fun r hr => List.mem_flatMap.2 ⟨fi, hfo, hr⟩
  -- every unread record after the load was unread before
  have hsub : ∀ r ∈ unreadRecords t', r ∈ unreadRecords t := by
    intro r hr
    obtain ⟨i, hi, hri⟩ := List.mem_flatMap.1 hr
    rcases hL.mem_cases hi hri with ⟨hi0, -, hri⟩ | ⟨-, hri⟩
    · exact List.mem_flatMap.2 ⟨i, hi0, hri⟩
    · exact hF r hri
  refine ⟨List.pairwise_append.2 ⟨h.distinct, hL.distinct, fun k hk e he => ?_⟩, fun k hk r hr => ?_,
    fun r hr => ?_, fun k hk => ?_, fun r hr => h.unread_sub r (hsub r hr), fun i hi j hj hij r hr r' hr' => ?_⟩
  · obtain ⟨r0, hr0, rfl⟩ := hL.origin e he
    exact h.fresh k hk r0 (hF r0 hr0)
  · -- no key matches a record still unread
    rcases List.mem_append.1 hk with hk | hk
    · exact h.fresh k hk r (hsub r hr)
    · obtain ⟨i, hi, hri⟩ := List.mem_flatMap.1 hr
      rcases hL.mem_cases hi hri with ⟨hi0, hne, hri⟩ | ⟨hle, -⟩
      · obtain ⟨r0, hr0, rfl⟩ := hL.origin k hk
        exact fun hm => h.separated fi hfo i hi0 (Ne.symm hne) r0 hr0 r hri hm.1
      · exact hL.child_unmatched i hle r hri k hk
  · -- every record is unread or in the group of a key
    rcases h.covered r hr with hu | ⟨k, hk, hm⟩
    · obtain ⟨i, hi, hri⟩ := List.mem_flatMap.1 hu
      by_cases hne : i = fi
      · subst hne
        rcases hL.absorbed r hri with ⟨k, hk, hm⟩ | ⟨j, hj, hrj⟩
        · exact .inr ⟨k, List.mem_append_right _ hk, hm⟩
        · exact .inl (List.mem_flatMap.2 ⟨j, hL.child_open j hj r hrj, hrj⟩)
      · obtain ⟨hi', hrec⟩ := hL.old i hi hne
        exact .inl (List.mem_flatMap.2 ⟨i, hi', hrec ▸ hri⟩)
    · exact .inr ⟨k, List.mem_append_left _ hk, hm⟩
  · rcases List.mem_append.1 hk with hk | hk
    · exact h.origin k hk
    · obtain ⟨r0, hr0, rfl⟩ := hL.origin k hk
      exact ⟨r0, h.unread_sub r0 (hF r0 hr0), rfl⟩
  · -- two open files hold records of different hashes
    rcases hL.mem_cases hi hr with ⟨hi0, hne, hri⟩ | ⟨hle, hri⟩ <;>
      rcases hL.mem_cases hj hr' with ⟨hj0, hne', hrj⟩ | ⟨hle', hrj⟩
    · exact h.separated i hi0 j hj0 hij r hri r' hrj
    · exact h.separated i hi0 fi hfo hne r hri r' hrj
    · exact h.separated fi hfo j hj0 (Ne.symm hne') r hri r' hrj
    · exact hL.placed.hash_ne hle hle' hij hr hr'

end GroupsInv

/-! ## The reload -/

/-- `LoadHybridHashtable` on a table the reload's invariant holds of, emptied,
with room for an entry: when it succeeds, it loaded a batch and the keys grow by
the batch's, or it loaded none and the files are as they were. -/
theorem loadHybrid_groups (pts : List (AggStatePerTrans D)) {ph : AggStatePerHash D}
    (hl : EqFunctionsLawful ph.eqfunctions) {R0 : List (SpillRecord D)} :
    ∀ (n : Nat) {t : TupleHashTable D} {keys : List (Tuple D × UInt32)}, ReloadInv t → t.entries = [] →
      1 ≤ t.nentries → (∀ c, t.spillSet = some c → c < n) → GroupsInv ph R0 keys t →
      ∀ {p : TupleHashTable D × Bool}, loadHybridHashtable pts ph (n + 1) t = .ok p →
        GroupsInv ph R0 (if p.2 then keys ++ p.1.entryKeys else keys) p.1
  | n, t, keys, h, he, hcap, hn, hg, p, hp => by
    rw [loadHybridHashtable, h.spilled] at hp
    simp only [Bool.not_true, Bool.false_eq_true, if_false] at hp
    cases hcur : t.spillSet with
    | none =>
      rw [show t.curSet? = none by simp [TupleHashTable.curSet?, hcur]] at hp
      cases hp
      exact hg
    | some si =>
      obtain ⟨s, hs⟩ : ∃ s, t.sets[si]? = some s := ⟨_, List.getElem?_eq_getElem (h.current_lt si hcur)⟩
      rw [show t.curSet? = some (si, s) by simp [TupleHashTable.curSet?, hcur, hs]] at hp
      dsimp only at hp
      rcases hnext : nextSpillFile s s.numFiles with ⟨_ | fi, s'⟩ <;> rw [hnext] at hp
      · -- no file left in the set: climb to its parent
        obtain ⟨hnone, hs', -⟩ :=
          nextSpillFile_none (h.slots_length s (List.mem_iff_getElem?.2 ⟨_, hs⟩)) (Nat.sub_le _ _) hnext
        have hpar : s'.parentSpillSet = s.parentSpillSet := by rw [hs']
        cases n with
        | zero => exact absurd (hn si hcur) (Nat.not_lt_zero _)
        | succ n =>
          refine loadHybrid_groups pts hl n (h.climb hcur hs hnone hs') he hcap (fun c hc => ?_)
            (hg.of_files_eq rfl) hp
          have := h.parents si s c hs (hpar ▸ hc)
          have := hn si hcur
          omega
      · -- the next file of the set: load it
        obtain ⟨t', hload, hp⟩ := except_bind_eq_ok hp
        cases hp
        obtain ⟨hslots, -⟩ := nextSpillFile_some (h.slots_length s (List.mem_iff_getElem?.2 ⟨_, hs⟩)) hnext
        have hperm := h.pending
        rw [pendingFiles, hcur, pendingFrom_of_get h.parents hs (h.current_lt si hcur), hslots,
          List.cons_append] at hperm
        have hfo : fi ∈ openFiles t := hperm.subset (List.mem_cons_self _ _)
        obtain ⟨f0, hf0, hc0⟩ := mem_openFiles.1 hfo
        have hu := h.unread f0 (List.mem_iff_getElem?.2 ⟨_, hf0⟩) hc0
        exact (hg.of_files_eq (show (t.setSet si s').files = t.files from rfl)).load hfo
          (loadFile_loaded pts hl hf0 hu hcap he hload)

/-- The reload loop from a table the invariants hold of, with room for an entry:
when it succeeds, the keys grow by those of every batch it returns, and no
record is left unread. -/
theorem reload_groups (pts : List (AggStatePerTrans D)) {ph : AggStatePerHash D}
    (hl : EqFunctionsLawful ph.eqfunctions) {R0 : List (SpillRecord D)} :
    ∀ (fuel : Nat) {t : TupleHashTable D} {keys : List (Tuple D × UInt32)}, ReloadInv t → 1 ≤ t.nentries →
      GroupsInv ph R0 keys t → ∀ {p : TupleHashTable D × List (TupleHashTable D)},
        reloadHybridHashtable pts ph fuel t = .ok p →
        GroupsInv ph R0 (keys ++ p.2.flatMap TupleHashTable.entryKeys) p.1 ∧ unreadRecords p.1 = []
  | 0, _, _, _, _, _, _, hp => by cases hp
  | fuel + 1, t, keys, h, hcap, hg, p, hp => by
    rcases h.loadDone with ⟨hd, hpend⟩ | hd
    · rw [reloadHybridHashtable, hd] at hp
      cases hp
      have hopen : openFiles t = [] := List.Perm.eq_nil (hpend ▸ h.pending).symm
      exact ⟨by simpa using hg, by simp [unreadRecords, hopen]⟩
    · rw [reloadHybridHashtable, hd] at hp
      obtain ⟨⟨t1, loaded⟩, h1, hp⟩ := except_bind_eq_ok hp
      obtain ⟨⟨t2, batches⟩, h2, hp⟩ := except_bind_eq_ok hp
      cases hp
      have hi := (h.reset.loadHybrid pts ph t.sets.length rfl hcap h.current_lt).of_ok h1
      have hg1 := loadHybrid_groups pts hl t.sets.length h.reset rfl hcap h.current_lt (hg.of_files_eq rfl) h1
      obtain ⟨hg2, hu2⟩ := reload_groups pts hl fuel hi.1 (hi.2.1 ▸ hcap) hg1 h2
      refine ⟨?_, hu2⟩
      cases loaded <;> simpa using hg2

omit [Inhabited D] in
/-- At the top level every record is unread. -/
theorem TopLevelSpill.unreadRecords_eq {t : TupleHashTable D} (h : TopLevelSpill t) :
    unreadRecords t = t.files.flatMap (·.file) := by
  rw [unreadRecords, h.openFiles_eq, List.range_eq_range']
  exact flatMap_fileRecords_range' (show t.files = [] ++ t.files from rfl)

/-- The reload loads every group once.  From the top-level spill set, its files
placed by hash as `DumpHybridHashtable` writes them, with reflexive key
equality, room for one entry and more passes than the reload's measure, the
loop ends, or stops on an error of a record's per-group states; and when it
ends, the keys of the batches it loaded are of pairwise different groups, every
spilled record is of the group of one of them, and each is the key of a spilled
record. -/
theorem reloadHybridHashtable_loads_each_group_once (pts : List (AggStatePerTrans D)) {ph : AggStatePerHash D}
    (hl : EqFunctionsLawful ph.eqfunctions) {fuel : Nat} {t : TupleHashTable D} (htop : TopLevelSpill t)
    (hp : HashPlaced t 0 0) (hcap : 1 ≤ t.nentries)
    (hfuel : reloadMeasure (unreadRecords t).length t + 2 ≤ fuel) :
    EndsWith pts (fun p : TupleHashTable D × List (TupleHashTable D) =>
        (p.2.flatMap TupleHashTable.entryKeys).Pairwise (fun a b => ¬ ph.sameKey a b) ∧
        (∀ r ∈ t.files.flatMap (·.file), ∃ k ∈ p.2.flatMap TupleHashTable.entryKeys, ph.sameKey k r.key) ∧
        (∀ k ∈ p.2.flatMap TupleHashTable.entryKeys, ∃ r ∈ t.files.flatMap (·.file), k = r.key))
      (reloadHybridHashtable pts ph fuel t) := by
  refine ((reloadHybridHashtable_run pts ph fuel htop.reloadInv hcap (Nat.le_refl _) hfuel).and_of_ok
    fun p hok => reload_groups pts hl fuel htop.reloadInv hcap (GroupsInv.top ph hp) hok).mono ?_
  rintro p ⟨-, hg, hu⟩
  rw [← htop.unreadRecords_eq]
  refine ⟨by simpa using hg.distinct, fun r hr => ?_, by simpa using hg.origin⟩
  rcases hg.covered r hr with h | h
  · rw [hu] at h
    cases h
  · simpa using h

end

/-- Two top-level batch files of a table with room for one entry: file 0 holds
keys 1 and 2 under one hash, file 1 key 3 twice. -/
def twoBatchTable : TupleHashTable Nat :=
  ⟨[], true, 1, 2, true, some 0, [⟨0, 2, -1, none, 0, [some 0, some 1]⟩],
    [⟨0, 2, false, none, [⟨4, [⟨1, false⟩], []⟩, ⟨4, [⟨2, false⟩], []⟩], false⟩,
     ⟨0, 2, false, none, [⟨5, [⟨3, false⟩], []⟩, ⟨5, [⟨3, false⟩], []⟩], false⟩]⟩

theorem twoBatchTable_loads_each_group_once :
    EqFunctionsLawful collidingHash.eqfunctions ∧ TopLevelSpill twoBatchTable ∧ HashPlaced twoBatchTable 0 0 ∧
      1 ≤ twoBatchTable.nentries ∧ reloadMeasure (unreadRecords twoBatchTable).length twoBatchTable + 2 ≤ 24 ∧
      EndsWith ([] : List (AggStatePerTrans Nat)) (fun p : TupleHashTable Nat × List (TupleHashTable Nat) =>
        (p.2.flatMap TupleHashTable.entryKeys).Pairwise (fun a b => ¬ collidingHash.sameKey a b) ∧
        (∀ r ∈ twoBatchTable.files.flatMap (·.file),
          ∃ k ∈ p.2.flatMap TupleHashTable.entryKeys, collidingHash.sameKey k r.key) ∧
        (∀ k ∈ p.2.flatMap TupleHashTable.entryKeys, ∃ r ∈ twoBatchTable.files.flatMap (·.file), k = r.key))
        (reloadHybridHashtable [] collidingHash 24 twoBatchTable) := by
  have hl : EqFunctionsLawful collidingHash.eqfunctions :=
    ⟨by simp [collidingHash], by simp only [collidingHash, List.mem_singleton, forall_eq, beq_iff_eq]; exact fun _ _ => Eq.symm,
      by simp [collidingHash]⟩
  have htop : TopLevelSpill twoBatchTable :=
    ⟨rfl, ⟨_, rfl, rfl, rfl, rfl, rfl, by decide⟩, by simp [twoBatchTable, SpillFile.Unread]⟩
  have hp : HashPlaced twoBatchTable 0 0 := by
    intro j _ r hr
    rcases j with _ | _ | j
    · simp [fileRecords, twoBatchTable] at hr
      rcases hr with rfl | rfl <;> exact ⟨_, rfl, rfl⟩
    · simp [fileRecords, twoBatchTable] at hr
      obtain rfl := hr
      exact ⟨_, rfl, rfl⟩
    · simp [fileRecords, twoBatchTable] at hr
  have hm : reloadMeasure (unreadRecords twoBatchTable).length twoBatchTable + 2 ≤ 24 := by decide
  exact ⟨hl, htop, hp, Nat.le_refl 1, hm,
    reloadHybridHashtable_loads_each_group_once [] hl htop hp (Nat.le_refl 1) hm⟩

/-- The batches of the reload: key 1 (key 2 re-spilled), then key 2 from the
child set, then key 3. -/
example : (reloadHybridHashtable [] collidingHash 24 twoBatchTable).toOption.map
    (fun p => p.2.map fun b => b.entryKeys.map (·.1)) =
      some [[[⟨1, false⟩]], [[⟨2, false⟩]], [[⟨3, false⟩]]] := by decide

end NodeAgg

import Mathlib.Algebra.Order.Ring.Nat
import Mathlib.Data.Finset.Card
import NodeAgg.HashTable

/-!
# Reading one batch file back

`LoadHybridHashtable` reads a batch file into an emptied table.  Each record
merges into the entry of its key, becomes a new entry while the table has room,
or goes verbatim to the file's child spill set, which the first such record
creates (`respillRecord`).  `LoadShape` says what reading a prefix of the file
has done: the file's counters and flags, the child set and the new files its
slots point to, the records re-spilled so far, and what the table holds.
`loadFile_shape` proves it of a whole file.

Two facts the termination of the reload rests on come out of it.  The first
record of a file always finds room, so fewer records are re-spilled than the
file holds.  And no entry of the table matches a re-spilled record, so all the
records of a key go to the table or all go to the child set; with lawful
equality functions the child set then holds strictly fewer distinct keys than
the file (`loadFile_child_keys`), whatever the hashes.
-/

namespace NodeAgg

/-! ## Lists -/

theorem modify_set {α : Type} (f : α → α) {l : List α} {i : Nat} (hi : i < l.length) (x : α) :
    (l.set i x).modify f i = l.set i (f x) := by
  apply List.ext_getElem?
  intro j
  simp only [List.getElem?_modify, List.getElem?_set]
  by_cases hij : i = j
  · subst hij; simp [hi]
  · simp [hij]

theorem modify_append_left {α : Type} (f : α → α) {l : List α} {i : Nat} (hi : i < l.length) (l' : List α) :
    (l ++ l').modify f i = l.modify f i ++ l' := by
  apply List.ext_getElem?
  intro j
  simp only [List.getElem?_modify, List.getElem?_append, List.length_modify]
  by_cases hj : j < l.length
  · simp [hj]
  · simp [hj, show i ≠ j by omega]

theorem modify_set_append {α : Type} (f : α → α) {l : List α} {i : Nat} (hi : i < l.length) (x : α)
    (l' : List α) : (l.set i x ++ l').modify f i = l.set i (f x) ++ l' := by
  rw [modify_append_left f (by simpa using hi), modify_set f hi]

theorem modify_append_right {α : Type} (f : α → α) (l l' : List α) (j : Nat) :
    (l ++ l').modify f (l.length + j) = l ++ l'.modify f j := by
  apply List.ext_getElem?
  intro k
  simp only [List.getElem?_modify, List.getElem?_append, List.length_modify]
  by_cases hk : k < l.length
  · simp [hk, show l.length + j ≠ k by omega]
  · simp only [hk, if_false]
    by_cases hjk : j = k - l.length
    · subst hjk; simp [show l.length + (k - l.length) = k by omega]
    · simp [hjk, show l.length + j ≠ k by omega]

/-- A list of options with no `some` is all `none`. -/
theorem eq_replicate_of_filterMap_id_eq_nil {α : Type} :
    ∀ {l : List (Option α)}, l.filterMap id = [] → l = List.replicate l.length none
  | [], _ => rfl
  | none :: l, h => by
    rw [List.filterMap_cons_none rfl] at h
    rw [List.length_cons, List.replicate_succ, ← eq_replicate_of_filterMap_id_eq_nil h]
  | some _ :: _, h => by simp at h

/-- Filling an empty slot adds its value to the values. -/
theorem filterMap_id_set_of_none {α : Type} (x : α) :
    ∀ {l : List (Option α)} {k : Nat}, l[k]? = some none →
      ((l.set k (some x)).filterMap id).Perm (x :: l.filterMap id)
  | [], _, h => by simp at h
  | o :: l, 0, h => by
    obtain rfl : o = none := by simpa using h
    simp
  | o :: l, k + 1, h => by
    rw [List.getElem?_cons_succ] at h
    cases o with
    | none => simpa using filterMap_id_set_of_none x h
    | some y =>
      simp only [List.set_cons_succ, List.filterMap_cons_some, id]
      exact ((filterMap_id_set_of_none x h).cons y).trans (List.Perm.swap x y _)

/-- Indices in a range of a list's tail read off the tail. -/
theorem flatMap_range'_append {α β : Type} (g : α → List β) :
    ∀ l l' : List α, (List.range' l.length l'.length).flatMap (fun i => (((l ++ l')[i]?).map g).getD []) =
      l'.flatMap g
  | _, [] => rfl
  | l, a :: l' => by
    have ih := flatMap_range'_append g (l ++ [a]) l'
    rw [List.append_assoc, List.singleton_append, List.length_append, List.length_singleton] at ih
    rw [List.length_cons, List.range'_succ, List.flatMap_cons, ih, List.flatMap_cons,
      List.getElem?_append_right (Nat.le_refl _), Nat.sub_self, List.getElem?_cons_zero]
    rfl

theorem mem_modify {α : Type} {g : α → α} {x : α} :
    ∀ {l : List α} {j : Nat}, x ∈ l.modify g j → x ∈ l ∨ ∃ y ∈ l, x = g y
  | [], _, h => by simp at h
  | a :: l, 0, h => by
    rcases List.mem_cons.1 h with rfl | h
    · exact .inr ⟨a, List.mem_cons_self _ _, rfl⟩
    · exact .inl (List.mem_cons_of_mem _ h)
  | a :: l, j + 1, h => by
    rcases List.mem_cons.1 h with rfl | h
    · exact .inl (List.mem_cons_self _ _)
    · rcases mem_modify h with h | ⟨y, hy, rfl⟩
      · exact .inl (List.mem_cons_of_mem _ h)
      · exact .inr ⟨y, List.mem_cons_of_mem _ hy, rfl⟩

/-- Appending to one element's part appends to the whole, up to order. -/
theorem flatMap_modify_perm {α β : Type} (h : α → List β) {g : α → α} (b : β) (hg : ∀ a, h (g a) = h a ++ [b]) :
    ∀ {l : List α} {j : Nat}, j < l.length → ((l.modify g j).flatMap h).Perm (l.flatMap h ++ [b])
  | [], _, hj => absurd hj (Nat.not_lt_zero _)
  | a :: l, 0, _ => by
    simp only [List.modify_zero_cons, List.flatMap_cons, hg, List.append_assoc]
    exact List.Perm.append_left _ List.perm_append_comm
  | a :: l, j + 1, hj => by
    simp only [List.modify_succ_cons, List.flatMap_cons, List.append_assoc]
    exact List.Perm.append_left _ (flatMap_modify_perm h b hg (Nat.lt_of_succ_lt_succ hj))

section

variable {D : Type}

/-! ## The table operations, field by field -/

namespace TupleHashTable

variable (t : TupleHashTable D)

@[simp] theorem modifyFile_files (i : Nat) (f : SpillFile D → SpillFile D) :
    (t.modifyFile i f).files = t.files.modify f i := rfl
@[simp] theorem modifyFile_sets (i : Nat) (f : SpillFile D → SpillFile D) : (t.modifyFile i f).sets = t.sets := rfl
@[simp] theorem modifyFile_entries (i : Nat) (f : SpillFile D → SpillFile D) :
    (t.modifyFile i f).entries = t.entries := rfl
@[simp] theorem modifyFile_spillSet (i : Nat) (f : SpillFile D → SpillFile D) :
    (t.modifyFile i f).spillSet = t.spillSet := rfl
@[simp] theorem modifyFile_spilled (i : Nat) (f : SpillFile D → SpillFile D) :
    (t.modifyFile i f).spilled = t.spilled := rfl
@[simp] theorem modifyFile_nentries (i : Nat) (f : SpillFile D → SpillFile D) :
    (t.modifyFile i f).nentries = t.nentries := rfl
@[simp] theorem modifyFile_hybrid (i : Nat) (f : SpillFile D → SpillFile D) :
    (t.modifyFile i f).hybrid = t.hybrid := rfl
@[simp] theorem setSet_sets (i : Nat) (s : SpillSet) : (t.setSet i s).sets = t.sets.set i s := rfl
@[simp] theorem setSet_files (i : Nat) (s : SpillSet) : (t.setSet i s).files = t.files := rfl
@[simp] theorem setSet_entries (i : Nat) (s : SpillSet) : (t.setSet i s).entries = t.entries := rfl
@[simp] theorem setSet_spillSet (i : Nat) (s : SpillSet) : (t.setSet i s).spillSet = t.spillSet := rfl
@[simp] theorem setSet_spilled (i : Nat) (s : SpillSet) : (t.setSet i s).spilled = t.spilled := rfl
@[simp] theorem setSet_nentries (i : Nat) (s : SpillSet) : (t.setSet i s).nentries = t.nentries := rfl

/-- The table with new spill files and spill sets, everything else kept. -/
def withSpill (files : List (SpillFile D)) (sets : List SpillSet) : TupleHashTable D :=
  { t with files := files, sets := sets }

@[simp] theorem withSpill_files (files : List (SpillFile D)) (sets : List SpillSet) :
    (t.withSpill files sets).files = files := rfl
@[simp] theorem withSpill_sets (files : List (SpillFile D)) (sets : List SpillSet) :
    (t.withSpill files sets).sets = sets := rfl
@[simp] theorem withSpill_entries (files : List (SpillFile D)) (sets : List SpillSet) :
    (t.withSpill files sets).entries = t.entries := rfl
@[simp] theorem withSpill_spillSet (files : List (SpillFile D)) (sets : List SpillSet) :
    (t.withSpill files sets).spillSet = t.spillSet := rfl
@[simp] theorem withSpill_spilled (files : List (SpillFile D)) (sets : List SpillSet) :
    (t.withSpill files sets).spilled = t.spilled := rfl
@[simp] theorem withSpill_nentries (files : List (SpillFile D)) (sets : List SpillSet) :
    (t.withSpill files sets).nentries = t.nentries := rfl
@[simp] theorem withSpill_hybrid (files : List (SpillFile D)) (sets : List SpillSet) :
    (t.withSpill files sets).hybrid = t.hybrid := rfl

/-- The identity and place of an entry: its key and hash. -/
def entryKeys : List (Tuple D × UInt32) := t.entries.map fun e => (e.firstTuple, e.hash)

end TupleHashTable

namespace TupleHashTable

variable (t : TupleHashTable D) (i : Nat) (pgs : List (AggStatePerGroup D))

@[simp] theorem setAdditional_files : (t.setAdditional i pgs).files = t.files := rfl
@[simp] theorem setAdditional_sets : (t.setAdditional i pgs).sets = t.sets := rfl
@[simp] theorem setAdditional_spillSet : (t.setAdditional i pgs).spillSet = t.spillSet := rfl
@[simp] theorem setAdditional_spilled : (t.setAdditional i pgs).spilled = t.spilled := rfl
@[simp] theorem setAdditional_nentries : (t.setAdditional i pgs).nentries = t.nentries := rfl
@[simp] theorem setAdditional_hybrid : (t.setAdditional i pgs).hybrid = t.hybrid := rfl

theorem full_setAdditional : (t.setAdditional i pgs).full = t.full := by
  simp [full, setAdditional]

@[simp] theorem full_modifyFile (f : SpillFile D → SpillFile D) : (t.modifyFile i f).full = t.full := rfl
@[simp] theorem full_withSpill (files : List (SpillFile D)) (sets : List SpillSet) :
    (t.withSpill files sets).full = t.full := rfl
@[simp] theorem entryKeys_modifyFile (f : SpillFile D → SpillFile D) :
    (t.modifyFile i f).entryKeys = t.entryKeys := rfl
theorem entryKeys_addEntry (e : TupleHashEntry D) :
    ({ t with entries := t.entries ++ [e] }).entryKeys = t.entryKeys ++ [(e.firstTuple, e.hash)] :=
  List.map_append _ _ _
@[simp] theorem entryKeys_withSpill (files : List (SpillFile D)) (sets : List SpillSet) :
    (t.withSpill files sets).entryKeys = t.entryKeys := rfl

theorem mem_entryKeys {e : TupleHashEntry D} (he : e ∈ t.entries) : (e.firstTuple, e.hash) ∈ t.entryKeys :=
  List.mem_map_of_mem _ he

end TupleHashTable

theorem TupleHashTable.entryKeys_setAdditional (t : TupleHashTable D) (i : Nat) (pgs : List (AggStatePerGroup D)) :
    (t.setAdditional i pgs).entryKeys = t.entryKeys := by
  apply List.ext_getElem?
  intro j
  simp only [TupleHashTable.entryKeys, TupleHashTable.setAdditional, List.getElem?_map, List.getElem?_modify]
  cases t.entries[j]? <;> simp; split <;> exact ⟨rfl, rfl⟩

variable [Inhabited D]

/-! ## Errors of a record's per-group states -/

/-- An error raised by the per-group part of a reloaded record: a state that
cannot be deserialized, or a merge `combine_transition` refuses. -/
def PerGroupError (pts : List (AggStatePerTrans D)) (e : String) : Prop :=
  (∃ pgs, reloadPergroup pts pgs = .error e) ∨ ∃ cur inc, mergePergroup pts cur inc = .error e

/-- A computation of the reload ends in a result with property `P`, or in an
error of a record's per-group states. -/
def EndsWith (pts : List (AggStatePerTrans D)) {α : Type} (P : α → Prop) : Except String α → Prop
  | .ok a => P a
  | .error e => PerGroupError pts e

namespace EndsWith

variable {pts : List (AggStatePerTrans D)} {α β : Type} {P : α → Prop} {Q : β → Prop}

theorem bind {x : Except String α} {f : α → Except String β} (hx : EndsWith pts P x)
    (hf : ∀ a, P a → EndsWith pts Q (f a)) : EndsWith pts Q (x >>= f) := by
  cases x with
  | error e => exact hx
  | ok a => exact hf a hx

theorem mono {x : Except String α} {P' : α → Prop} (hx : EndsWith pts P x) (h : ∀ a, P a → P' a) :
    EndsWith pts P' x := by
  cases x with
  | error e => exact hx
  | ok a => exact h a hx

theorem of_ok {x : Except String α} {a : α} (hx : EndsWith pts P x) (h : x = .ok a) : P a := by
  subst h; exact hx

/-- A fold whose every step keeps an invariant of the processed prefix keeps it
over the whole list. -/
theorem foldlM {γ : Type} {f : β → γ → Except String β} (I : List γ → β → Prop)
    (hf : ∀ done a b, I done b → EndsWith pts (I (done ++ [a])) (f b a)) :
    ∀ (l done : List γ) (b : β), I done b → EndsWith pts (I (done ++ l)) (l.foldlM f b)
  | [], done, b, h => by rw [List.append_nil]; exact h
  | a :: l, done, b, h => by
    rw [List.foldlM_cons]
    refine (hf done a b h).bind fun b' h' => ?_
    rw [← List.singleton_append, ← List.append_assoc]
    exact foldlM I hf l (done ++ [a]) b' h'

end EndsWith

theorem endsWith_reloadPergroup (pts : List (AggStatePerTrans D)) (pgs : List (AggStatePerGroup D)) :
    EndsWith pts (fun _ => True) (reloadPergroup pts pgs) := by
  cases h : reloadPergroup pts pgs with
  | error e => exact .inl ⟨pgs, h⟩
  | ok _ => trivial

theorem endsWith_mergePergroup (pts : List (AggStatePerTrans D)) (cur inc : List (AggStatePerGroup D)) :
    EndsWith pts (fun _ => True) (mergePergroup pts cur inc) := by
  cases h : mergePergroup pts cur inc with
  | error e => exact .inr ⟨cur, inc, h⟩
  | ok _ => trivial

/-- What `tuplehash_insert_with_key` can do: find an entry of the key, find no
entry and the table full, or find no entry and append one. -/
theorem insertWithKey_cases (ph : AggStatePerHash D) (t : TupleHashTable D) (key : Tuple D) (hash : UInt32) :
    (∃ i, insertWithKey ph t key hash = (some (i, true), t) ∧ t.entries ≠ []) ∨
    ((∀ e ∈ t.entries, ¬ (e.hash = hash ∧ ph.keysMatch e.firstTuple key = true)) ∧ t.full = true ∧
      insertWithKey ph t key hash = (none, t)) ∨
    (t.full = false ∧ insertWithKey ph t key hash =
      (some (t.entries.length, false), { t with entries := t.entries ++ [⟨key, [], hash⟩] })) := by
  unfold insertWithKey
  cases hf : findEntry ph t.entries hash key with
  | some i =>
    refine .inl ⟨i, rfl, fun h => ?_⟩
    rw [findEntry, h] at hf
    cases hf
  | none =>
    rw [findEntry, List.findIdx?_eq_none_iff] at hf
    cases hfull : t.full
    · exact .inr (.inr ⟨rfl, by simp⟩)
    · refine .inr (.inl ⟨fun e he ⟨hh, hm⟩ => ?_, rfl, by simp⟩)
      simpa [hh, hm] using hf e he

/-! ## Reading a file, record by record -/

/-- The spill set `LoadHybridHashtable` opens for the overflow of a file of set
`si`, `s` being that set advanced past the file: one level deeper, one file
more. -/
def childSet (si : Nat) (s : SpillSet) (slots : List (Option Nat)) : SpillSet :=
  ⟨s.level + 1, s.numFiles + 1, s.currentFile, some si, 0, slots⟩

/-- A spill file written and not yet read: `ntups_read` zero, every record
counted in `ntups_write`, no child set, open. -/
def SpillFile.Unread (f : SpillFile D) : Prop :=
  f.ntupsRead = 0 ∧ f.ntupsWrite = f.file.length ∧ f.spilled = false ∧ f.childSpillSet = none ∧
    f.closed = false

/-- File `f0` after `n` of its records are read: counted, and pointing at its
child set, set `c` of the table, once a record went there. -/
def readingFile (f0 : SpillFile D) (n : Nat) (sp : Bool) (c : Nat) : SpillFile D :=
  { f0 with ntupsRead := f0.ntupsRead + n, spilled := sp, childSpillSet := if sp then some c else none }

omit [Inhabited D] in
@[simp] theorem readingFile_spilled (f0 : SpillFile D) (n : Nat) (sp : Bool) (c : Nat) :
    (readingFile f0 n sp c).spilled = sp := rfl
omit [Inhabited D] in
@[simp] theorem readingFile_childSpillSet (f0 : SpillFile D) (n : Nat) (sp : Bool) (c : Nat) :
    (readingFile f0 n sp c).childSpillSet = if sp then some c else none := rfl

/-- What reading the records `done` of file `fi` (which was `f0`) of set `si`
(advanced to `s`) has made of the table `t0` the read started from: `t`.  The
read re-spilled the records `resp`, into the new files `newFiles` of the child
set, whose slots are `slots`; `sp` says whether the child set exists. -/
structure LoadShape (ph : AggStatePerHash D) (t0 : TupleHashTable D) (si : Nat) (s : SpillSet)
    (fi : Nat) (f0 : SpillFile D) (done : List (SpillRecord D)) (t : TupleHashTable D) (sp : Bool)
    (resp : List (SpillRecord D)) (newFiles : List (SpillFile D)) (slots : List (Option Nat)) : Prop where
  files : t.files = t0.files.set fi (readingFile f0 done.length sp t0.sets.length) ++ newFiles
  sets : t.sets = if sp then t0.sets ++ [childSet si s slots] else t0.sets
  same : t.spillSet = t0.spillSet ∧ t.spilled = t0.spilled ∧ t.nentries = t0.nentries ∧ t.hybrid = t0.hybrid
  sp_iff : sp = true ↔ resp ≠ []
  slots_length : slots.length = s.numFiles + 1
  slots_perm : (slots.filterMap id).Perm (List.range' t0.files.length newFiles.length)
  newFiles_unread : ∀ f ∈ newFiles, f.Unread ∧ f.file ≠ []
  resp_perm : (newFiles.flatMap (·.file)).Perm resp
  resp_sublist : resp.Sublist done.tail
  unmatched : ∀ r ∈ resp, ∀ kh ∈ t.entryKeys, ¬ (kh.2 = r.hash ∧ ph.keysMatch kh.1 r.tuple = true)
  full : resp ≠ [] → t.full = true
  first : ∀ r0 ∈ done.head?, (r0.tuple, r0.hash) ∈ t.entryKeys.head?
  empty : done = [] → t.entries = []

omit [Inhabited D] in
/-- The slot of the child set a re-spilled record goes to, its file created if
the slot is empty, and the record appended to that file. -/
theorem fileInSlot_append {tc : TupleHashTable D} {pre newFiles : List (SpillFile D)} {sets0 : List SpillSet}
    {si : Nat} {s : SpillSet} {slots : List (Option Nat)}
    (hfiles : tc.files = pre ++ newFiles) (hsets : tc.sets = sets0 ++ [childSet si s slots])
    (hlen : slots.length = s.numFiles + 1)
    (hperm : (slots.filterMap id).Perm (List.range' pre.length newFiles.length))
    (hunread : ∀ f ∈ newFiles, f.Unread ∧ f.file ≠ []) (r : SpillRecord D) :
    ∃ newFiles' slots',
      (do
        let (cfi, t) ← tc.fileInSlot sets0.length (childSet si s slots) (r.hash.toNat % (s.numFiles + 1))
        .ok (t.appendRecord cfi r)) =
        Except.ok (ε := String) (tc.withSpill (pre ++ newFiles') (sets0 ++ [childSet si s slots'])) ∧
      slots'.length = s.numFiles + 1 ∧ (slots'.filterMap id).Perm (List.range' pre.length newFiles'.length) ∧
      (∀ f ∈ newFiles', f.Unread ∧ f.file ≠ []) ∧
      (newFiles'.flatMap (·.file)).Perm (newFiles.flatMap (·.file) ++ [r]) := by
  have hk : r.hash.toNat % (s.numFiles + 1) < slots.length := by
    rw [hlen]; exact Nat.mod_lt _ s.numFiles.succ_pos
  obtain ⟨o, ho⟩ : ∃ o, slots[r.hash.toNat % (s.numFiles + 1)]? = some o := ⟨_, List.getElem?_eq_getElem hk⟩
  cases o with
  | none =>
    refine ⟨newFiles ++ [⟨0, 1, false, none, [r], false⟩],
      slots.set (r.hash.toNat % (s.numFiles + 1)) (some (pre.length + newFiles.length)), ?_, by simpa using hlen,
      ?_, ?_, by simp⟩
    · simp only [TupleHashTable.fileInSlot, childSet, List.get?_eq_getElem?, ho, TupleHashTable.appendRecord,
        bind, Except.bind, TupleHashTable.newFile, TupleHashTable.withSpill, TupleHashTable.setSet, TupleHashTable.modifyFile, hfiles,
        hsets, List.length_append, List.set_append_right _ _ (Nat.le_refl _), Nat.sub_self, ← List.append_assoc]
      rw [show pre.length + newFiles.length = (pre ++ newFiles).length + 0 by simp, modify_append_right]
      rfl
    · rw [List.length_append, List.length_singleton, List.range'_1_concat]
      exact (filterMap_id_set_of_none _ ho).trans ((hperm.cons _).trans (List.perm_append_singleton _ _).symm)
    · intro f hf
      rcases List.mem_append.1 hf with hf | hf
      · exact hunread f hf
      · obtain rfl := List.mem_singleton.1 hf
        exact ⟨⟨rfl, rfl, rfl, rfl, rfl⟩, List.cons_ne_nil _ _⟩
  | some cfi =>
    have hcfi : cfi ∈ List.range' pre.length newFiles.length :=
      hperm.subset (List.mem_filterMap.2 ⟨some cfi, List.mem_iff_getElem?.2 ⟨_, ho⟩, rfl⟩)
    obtain ⟨j, hj, rfl⟩ : ∃ j, j < newFiles.length ∧ cfi = pre.length + j := by
      rw [List.mem_range'_1] at hcfi; exact ⟨cfi - pre.length, by omega, by omega⟩
    refine ⟨newFiles.modify (fun f => { f with file := f.file ++ [r], ntupsWrite := f.ntupsWrite + 1 }) j,
      slots, ?_, hlen, by simpa using hperm, ?_, flatMap_modify_perm _ r (fun _ => rfl) hj⟩
    · simp only [TupleHashTable.fileInSlot, childSet, List.get?_eq_getElem?, ho, TupleHashTable.appendRecord,
        bind, Except.bind, TupleHashTable.modifyFile, TupleHashTable.withSpill, hfiles, hsets, modify_append_right]
    · intro f hf
      rcases mem_modify hf with hf | ⟨f0, hf0, rfl⟩
      · exact hunread f hf
      · obtain ⟨⟨h1, h2, h3, h4, h5⟩, -⟩ := hunread f0 hf0
        exact ⟨⟨h1, by simp [h2], h3, h4, h5⟩, by simp⟩

theorem tail_sublist_tail_append {α : Type} (l : List α) (a : α) : l.tail.Sublist (l ++ [a]).tail := by
  cases l with
  | nil => exact List.nil_sublist _
  | cons b l => exact List.sublist_append_left _ _

omit [Inhabited D] in
/-- `respillRecord` on a table the read so far has shaped: the child set is
found, or made as set `t0.sets.length` with file `fi` marked, and the record
goes to the file of its slot. -/
theorem respillRecord_shape {t0 t : TupleHashTable D} {si fi n : Nat} {s : SpillSet} {f0 : SpillFile D}
    {sp : Bool} {newFiles : List (SpillFile D)} {slots : List (Option Nat)} (hfi : fi < t0.files.length)
    (hfiles : t.files = t0.files.set fi (readingFile f0 n sp t0.sets.length) ++ newFiles)
    (hsets : t.sets = if sp then t0.sets ++ [childSet si s slots] else t0.sets)
    (hnil : sp = false → newFiles = [] ∧ slots = List.replicate (s.numFiles + 1) none)
    (hlen : slots.length = s.numFiles + 1)
    (hperm : (slots.filterMap id).Perm (List.range' t0.files.length newFiles.length))
    (hunread : ∀ f ∈ newFiles, f.Unread ∧ f.file ≠ []) (r : SpillRecord D) :
    ∃ newFiles' slots', respillRecord t si s fi r =
        .ok (t.withSpill (t0.files.set fi (readingFile f0 n true t0.sets.length) ++ newFiles')
          (t0.sets ++ [childSet si s slots'])) ∧
      slots'.length = s.numFiles + 1 ∧
      (slots'.filterMap id).Perm (List.range' t0.files.length newFiles'.length) ∧
      (∀ f ∈ newFiles', f.Unread ∧ f.file ≠ []) ∧
      (newFiles'.flatMap (·.file)).Perm (newFiles.flatMap (·.file) ++ [r]) := by
  have hget : t.files.get? fi = some (readingFile f0 n sp t0.sets.length) := by
    rw [List.get?_eq_getElem?, hfiles, List.getElem?_append_left (by simpa using hfi),
      List.getElem?_set_self hfi]
  have hpre : (t0.files.set fi (readingFile f0 n true t0.sets.length)).length = t0.files.length :=
    List.length_set ..
  cases sp
  · obtain ⟨rfl, rfl⟩ := hnil rfl
    obtain ⟨nf', sl', heq, rest⟩ := fileInSlot_append
      (show (t.withSpill (t.files.modify (fun f => { f with spilled := true, childSpillSet := some t0.sets.length }) fi)
          (t0.sets ++ [childSet si s (List.replicate (s.numFiles + 1) none)])).files =
        t0.files.set fi (readingFile f0 n true t0.sets.length) ++ [] by simp [hfiles, modify_set _ hfi]; rfl)
      rfl hlen (hpre ▸ hperm) hunread r
    refine ⟨nf', sl', ?_, rest.1, hpre ▸ rest.2.1, rest.2.2⟩
    unfold respillRecord
    simp only [hget, hsets, bind, Except.bind, readingFile_spilled, readingFile_childSpillSet, Bool.false_eq_true,
      if_false, TupleHashTable.newSet, TupleHashTable.modifyFile_sets, List.get?_eq_getElem?,
      List.getElem?_concat_length]
    exact heq
  · obtain ⟨nf', sl', heq, rest⟩ := fileInSlot_append hfiles
      (show t.sets = t0.sets ++ [childSet si s slots] by simpa using hsets) hlen (hpre ▸ hperm) hunread r
    refine ⟨nf', sl', ?_, rest.1, hpre ▸ rest.2.1, rest.2.2⟩
    unfold respillRecord
    simp only [hget, hsets, bind, Except.bind, readingFile_spilled, readingFile_childSpillSet, if_true,
      List.get?_eq_getElem?, List.getElem?_concat_length]
    exact heq

namespace LoadShape

variable {ph : AggStatePerHash D} {t0 t : TupleHashTable D} {si : Nat} {s : SpillSet} {fi : Nat}
  {f0 : SpillFile D} {done : List (SpillRecord D)} {sp : Bool} {resp : List (SpillRecord D)}
  {newFiles : List (SpillFile D)} {slots : List (Option Nat)}

/-- Before the first record nothing has changed. -/
theorem init (ph : AggStatePerHash D) (si : Nat) (s : SpillSet) (hf0 : t0.files[fi]? = some f0)
    (hsp : f0.spilled = false) (hch : f0.childSpillSet = none) (he : t0.entries = []) :
    LoadShape ph t0 si s fi f0 [] t0 false [] [] (List.replicate (s.numFiles + 1) none) where
  files := by
    have hrf : readingFile f0 0 false t0.sets.length = f0 := by
      cases f0; simp_all [readingFile]
    rw [List.length_nil, hrf, List.append_nil]
    have hfi : fi < t0.files.length := (List.getElem?_eq_some_iff.1 hf0).1
    apply List.ext_getElem?
    intro j
    rw [List.getElem?_set]
    split
    · subst_vars; simp [hfi, hf0]
    · rfl
  sets := rfl
  same := ⟨rfl, rfl, rfl, rfl⟩
  sp_iff := by simp
  slots_length := List.length_replicate _ _
  slots_perm := by simp [List.filterMap_replicate]
  newFiles_unread := by simp
  resp_perm := by simp
  resp_sublist := List.nil_sublist _
  unmatched := by simp
  full := by simp
  first := by simp
  empty := fun _ => he

/-- Without a child set no file was made. -/
theorem newFiles_eq_nil (h : LoadShape ph t0 si s fi f0 done t false resp newFiles slots) :
    newFiles = [] ∧ slots = List.replicate (s.numFiles + 1) none := by
  have hresp : resp = [] := by simpa using mt h.sp_iff.2
  have hflat : newFiles.flatMap (·.file) = [] := List.Perm.eq_nil (hresp ▸ h.resp_perm)
  have hnf : newFiles = [] := by
    cases newFiles with
    | nil => rfl
    | cons f fs =>
      have hf := (List.append_eq_nil.1 (List.flatMap_cons _ _ _ ▸ hflat)).1
      exact absurd hf (h.newFiles_unread f (List.mem_cons_self _ _)).2
  refine ⟨hnf, ?_⟩
  have hsl := eq_replicate_of_filterMap_id_eq_nil (List.Perm.eq_nil (hnf ▸ h.slots_perm))
  rwa [h.slots_length] at hsl

/-- One record of the read keeps the shape, the record counted in `done`. -/
theorem step (pts : List (AggStatePerTrans D)) (hfi : fi < t0.files.length) (hcap : 1 ≤ t0.nentries)
    (h : LoadShape ph t0 si s fi f0 done t sp resp newFiles slots) (r : SpillRecord D) :
    EndsWith pts (fun t' => ∃ sp' resp' newFiles' slots',
        LoadShape ph t0 si s fi f0 (done ++ [r]) t' sp' resp' newFiles' slots')
      (loadRecord pts ph si s fi t r) := by
  obtain ⟨hss, hsd, hne, hhy⟩ := h.same
  have hfiles : (t.modifyFile fi fun f => { f with ntupsRead := f.ntupsRead + 1 }).files =
      t0.files.set fi (readingFile f0 (done ++ [r]).length sp t0.sets.length) ++ newFiles := by
    rw [TupleHashTable.modifyFile_files, h.files, modify_set_append _ hfi, List.length_append, List.length_singleton]
    rfl
  have hsub := h.resp_sublist.trans (tail_sublist_tail_append done r)
  have hdone : t.entries ≠ [] → done ≠ [] := fun he hd => he (h.empty hd)
  unfold loadRecord
  rcases insertWithKey_cases ph (t.modifyFile fi fun f => { f with ntupsRead := f.ntupsRead + 1 }) r.tuple r.hash
    with ⟨i, hins, hent⟩ | ⟨hunm, hfull, hins⟩ | ⟨hfull, hins⟩
  · -- the key has an entry: merge
    simp only [hins]
    refine (endsWith_reloadPergroup pts _).bind fun _ _ => (endsWith_mergePergroup pts _ _).bind fun merged _ => ?_
    have hd := hdone hent
    refine ⟨sp, resp, newFiles, slots, hfiles, h.sets, ⟨hss, hsd, hne, hhy⟩, h.sp_iff, h.slots_length,
      h.slots_perm, h.newFiles_unread, h.resp_perm, hsub, ?_, ?_, ?_, fun hd' => absurd hd' (by simp)⟩
    · simpa [TupleHashTable.entryKeys_setAdditional] using h.unmatched
    · simpa [TupleHashTable.full_setAdditional] using h.full
    · simpa [TupleHashTable.entryKeys_setAdditional, List.head?_append_of_ne_nil _ hd] using h.first
  · -- the table is full: respill
    simp only [hins]
    have hd : done ≠ [] := hdone fun he => by
      rw [TupleHashTable.full_modifyFile] at hfull
      simp only [TupleHashTable.full, he, List.length_nil, Bool.and_eq_true, decide_eq_true_eq] at hfull
      omega
    obtain ⟨nf', sl', heq, hlen', hperm', hunr', hflat'⟩ := respillRecord_shape hfi hfiles
      (by rw [TupleHashTable.modifyFile_sets]; exact h.sets) (fun hsp => by subst hsp; exact h.newFiles_eq_nil)
      h.slots_length h.slots_perm h.newFiles_unread r
    rw [heq]
    refine ⟨true, resp ++ [r], nf', sl', by simp, by simp, ⟨hss, hsd, hne, hhy⟩, by simp, hlen', hperm', hunr',
      hflat'.trans (h.resp_perm.append_right _), ?_, ?_, by simpa using hfull, ?_, fun hd' => absurd hd' (by simp)⟩
    · rw [List.tail_append_of_ne_nil hd]
      exact h.resp_sublist.append_right _
    · intro r' hr' kh hkh
      rw [TupleHashTable.entryKeys_withSpill, TupleHashTable.entryKeys_modifyFile] at hkh
      rcases List.mem_append.1 hr' with hr' | hr'
      · exact h.unmatched r' hr' kh hkh
      · obtain rfl := List.mem_singleton.1 hr'
        obtain ⟨e, he, rfl⟩ := List.mem_map.1 hkh
        exact hunm e he
    · simpa [List.head?_append_of_ne_nil _ hd] using h.first
  · -- a new entry
    simp only [hins]
    refine (endsWith_reloadPergroup pts _).bind fun pgs _ => ?_
    have hresp : resp = [] := by
      by_contra hr
      have := h.full hr
      simp_all
    refine ⟨sp, resp, newFiles, slots, hfiles, h.sets, ⟨hss, hsd, hne, hhy⟩, h.sp_iff, h.slots_length,
      h.slots_perm, h.newFiles_unread, h.resp_perm, hsub, by simp [hresp], fun hr => absurd hresp hr, ?_,
      fun hd' => absurd hd' (by simp)⟩
    simp only [TupleHashTable.entryKeys_setAdditional]
    by_cases hd : done = []
    · subst hd
      simp [TupleHashTable.entryKeys, h.empty rfl]
    · obtain ⟨d0, ds, rfl⟩ := List.exists_cons_of_ne_nil hd
      intro r0 hr0
      obtain rfl : d0 = r0 := Option.some.inj hr0
      have h1 := h.first d0 rfl
      obtain ⟨kh, rest, hk⟩ : ∃ kh rest, t.entryKeys = kh :: rest := by
        cases hk : t.entryKeys with
        | nil => rw [hk] at h1; cases h1
        | cons kh rest => exact ⟨kh, rest, rfl⟩
      rw [TupleHashTable.entryKeys_addEntry, TupleHashTable.entryKeys_modifyFile, hk]
      rw [hk] at h1
      exact h1

end LoadShape

/-- The records of file `i`. -/
def fileRecords (t : TupleHashTable D) (i : Nat) : List (SpillRecord D) := ((t.files[i]?).map (·.file)).getD []

omit [Inhabited D] in
/-- The files of indices `pre.length ..` are `newFiles`. -/
theorem flatMap_fileRecords_range' {t : TupleHashTable D} {pre newFiles : List (SpillFile D)}
    (hfiles : t.files = pre ++ newFiles) :
    (List.range' pre.length newFiles.length).flatMap (fileRecords t) = newFiles.flatMap (·.file) := by
  unfold fileRecords
  rw [hfiles]
  exact flatMap_range'_append _ _ _

/-- The records held by the files of spill set `i`, slot by slot. -/
def setRecords (t : TupleHashTable D) (i : Nat) : List (SpillRecord D) :=
  ((((t.sets[i]?).map (·.spillFile)).getD []).filterMap id).flatMap (fileRecords t)

/-- Reading file `fi` of set `si` to its end, from an emptied table: the shape of
the whole read, then the file closed, its counters found equal, and the table
moved to the child set if there is one. -/
theorem loadFile_shape (pts : List (AggStatePerTrans D)) (ph : AggStatePerHash D) {si fi : Nat} {s : SpillSet}
    {t0 : TupleHashTable D} {f0 : SpillFile D} (hf0 : t0.files[fi]? = some f0) (hu : f0.Unread)
    (hcap : 1 ≤ t0.nentries) (he : t0.entries = []) :
    EndsWith pts (fun t' => ∃ t sp resp newFiles slots, LoadShape ph t0 si s fi f0 f0.file t sp resp newFiles slots ∧
        t' = { t with files := t.files.modify (fun f => { f with closed := true }) fi,
                      spillSet := if sp then some t0.sets.length else t.spillSet })
      (loadFile pts ph si s fi t0) := by
  obtain ⟨hr0, hw0, hsp0, hch0, -⟩ := hu
  have hfi : fi < t0.files.length := (List.getElem?_eq_some_iff.1 hf0).1
  have hfold : EndsWith pts (fun t => ∃ sp resp newFiles slots,
      LoadShape ph t0 si s fi f0 ([] ++ f0.file) t sp resp newFiles slots)
      (f0.file.foldlM (loadRecord pts ph si s fi) t0) := EndsWith.foldlM
    (fun done t => ∃ sp resp newFiles slots, LoadShape ph t0 si s fi f0 done t sp resp newFiles slots)
    (fun _ r _ ⟨_, _, _, _, h⟩ => h.step pts hfi hcap r) f0.file [] t0
    ⟨_, _, _, _, LoadShape.init ph si s hf0 hsp0 hch0 he⟩
  unfold loadFile
  rw [List.get?_eq_getElem?, hf0]
  refine hfold.bind fun t ⟨sp, resp, newFiles, slots, h⟩ => ?_
  rw [List.nil_append] at h
  have hget : ((t.modifyFile fi fun f => { f with closed := true }).files.get? fi) =
      some { readingFile f0 f0.file.length sp t0.sets.length with closed := true } := by
    rw [TupleHashTable.modifyFile_files, h.files, modify_set_append _ hfi, List.get?_eq_getElem?,
      List.getElem?_append_left (by simpa using hfi), List.getElem?_set_self hfi]
  simp only [hget, bind, Except.bind, readingFile, hr0, hw0, Nat.zero_add, ne_eq, not_true_eq_false, if_false]
  cases sp
  · exact ⟨t, false, resp, newFiles, slots, h, rfl⟩
  · exact ⟨t, true, resp, newFiles, slots, h, rfl⟩

/-- A read from an emptied table re-spills whole keys.  No entry the table ends
with matches a record of the file's child set, so every record of a key went to
the table or every one to the child set; and with lawful equality functions,
each record's hash being its key's, the child set holds strictly fewer distinct
keys than the file. -/
theorem loadFile_child_keys [DecidableEq D] (pts : List (AggStatePerTrans D)) (ph : AggStatePerHash D)
    {si fi ci : Nat} {s : SpillSet} {t t' : TupleHashTable D} {f0 : SpillFile D}
    (hf0 : t.files[fi]? = some f0) (hu : f0.Unread) (hcap : 1 ≤ t.nentries) (he : t.entries = [])
    (hload : loadFile pts ph si s fi t = .ok t') (hci : (t'.files[fi]?).bind (·.childSpillSet) = some ci) :
    (∀ r ∈ setRecords t' ci, ∀ e ∈ t'.entries, ¬ (e.hash = r.hash ∧ ph.keysMatch e.firstTuple r.tuple = true)) ∧
    (EqFunctionsLawful ph.eqfunctions → (∀ r ∈ f0.file, r.hash = ph.hashfunc r.tuple) →
      ((setRecords t' ci).map (·.tuple)).toFinset.card < (f0.file.map (·.tuple)).toFinset.card) := by
  obtain ⟨t1, sp, resp, newFiles, slots, h, ht'⟩ := (loadFile_shape pts ph hf0 hu hcap he).of_ok hload
  have hfi : fi < t.files.length := (List.getElem?_eq_some_iff.1 hf0).1
  have hfiles : t'.files =
      t.files.set fi { readingFile f0 f0.file.length sp t.sets.length with closed := true } ++ newFiles := by
    rw [ht', h.files, modify_set_append _ hfi]
  have hentries : t'.entries = t1.entries := by rw [ht']
  simp only [hfiles, List.getElem?_append_left (show fi < (t.files.set fi _).length by simpa using hfi),
    List.getElem?_set_self hfi, Option.bind_some, readingFile] at hci
  obtain ⟨rfl, rfl⟩ : sp = true ∧ t.sets.length = ci := by cases sp <;> simp_all
  have hsets : t'.sets = t.sets ++ [childSet si s slots] := by rw [ht', h.sets, if_pos rfl]
  -- the child set's records are the re-spilled ones
  have hrec : (setRecords t' t.sets.length).Perm resp := by
    simp only [setRecords, hsets, List.getElem?_concat_length, Option.map_some', Option.getD_some, childSet]
    refine (h.slots_perm.flatMap_right _).trans ?_
    rw [← List.length_set t.files fi, flatMap_fileRecords_range' hfiles]
    exact h.resp_perm
  have hsub : ∀ r ∈ resp, r ∈ f0.file := fun r hr => List.mem_of_mem_tail (h.resp_sublist.subset hr)
  refine ⟨fun r hr e he' ⟨hh, hm⟩ => h.unmatched r (hrec.subset hr) _
    (TupleHashTable.mem_entryKeys _ (hentries ▸ he')) ⟨hh, hm⟩,
    fun hlaw hhash => Finset.card_lt_card ?_⟩
  obtain ⟨r0, rs, hrs⟩ : ∃ r0 rs, f0.file = r0 :: rs := by
    cases hf : f0.file with
    | nil =>
      have hs := h.resp_sublist
      rw [hf] at hs
      exact absurd (List.eq_nil_of_sublist_nil hs) (h.sp_iff.1 rfl)
    | cons r0 rs => exact ⟨r0, rs, rfl⟩
  rw [Finset.ssubset_iff_of_subset]
  · refine ⟨r0.tuple, by simp [hrs], fun hr0 => ?_⟩
    obtain ⟨r, hr, hrt⟩ := List.mem_map.1 (List.mem_toFinset.1 hr0)
    have hfirst := h.first r0 (by simp [hrs])
    refine h.unmatched r (hrec.subset hr) _ (List.mem_of_mem_head? hfirst) ⟨?_, ?_⟩
    · rw [hhash r0 (by simp [hrs]), hhash r (hsub r (hrec.subset hr)), hrt]
    · rw [← hrt]; exact execTuplesMatch_refl hlaw _ _ _
  · intro k hk
    obtain ⟨r, hr, rfl⟩ := List.mem_map.1 (List.mem_toFinset.1 hk)
    exact List.mem_toFinset.2 (List.mem_map_of_mem _ (hsub r (hrec.subset hr)))

end

end NodeAgg

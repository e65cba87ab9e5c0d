import Mathlib.Data.Finset.Card
import Mathlib.Data.Finset.Lattice.Fold
import Mathlib.Data.Nat.Lattice
import NodeAgg.Combine

/-!
# The columns of a hashed set's table

`find_hash_columns` decides, once per hashed grouping set, which input columns
the set's hash table stores: the columns the targetlist and qual read, less the
grouped columns of other sets that `prepare_projection_slot` nulls, plus the
set's own grouping columns.  It builds them as a bitmapset `colnos`, allocates
`hashGrpColIdxInput` with `bms_num_members(colnos)` entries, stores the grouping
columns first (hash-table columns `1..numCols`), deleting each from `colnos`, and
then the rest of `colnos` in ascending order.  `lookup_hash_entry` compacts an
input tuple to these columns (`hashKeyOf`) and `agg_retrieve_hash_table`
expands an entry's key back into a representative slot (`expandHashKey`).

When the grouping columns are distinct the stores fill the allocation exactly
(`findHashColumns_eq`), the grouping columns come first, and the representative
slot agrees with the tuple that made the entry on every stored column.  A
repeated grouping column makes `colnos` smaller than the number of stores: the
first loop stores `numCols` entries whatever the size of `colnos`, and the
stores run past the allocation.  A store past the end is an `Except.error` here;
in the code it writes over whatever follows the array.
-/

namespace NodeAgg

/-! ## Stores into an allocated array -/

/-- `arr[i] = v` into an array of `arr.length` entries; a store past the end is
the overflow. -/
def arrayStore (arr : List Nat) (i v : Nat) : Except String (List Nat) :=
  if i < arr.length then .ok (arr.set i v) else .error "store past the end of the allocated array"

/-- The array `l` with `xs` stored from position `n` on. -/
def overwrite (l : List Nat) (n : Nat) (xs : List Nat) : List Nat :=
  l.take n ++ xs ++ l.drop (n + xs.length)

theorem overwrite_nil {l : List Nat} {n : Nat} : overwrite l n [] = l := by
  simp [overwrite]

theorem overwrite_set_cons {l : List Nat} {n c : Nat} (cs : List Nat) (h : n < l.length) :
    overwrite (l.set n c) (n + 1) cs = overwrite l n (c :: cs) := by
  simp only [overwrite, List.set_eq_take_append_cons_drop, if_pos h, List.length_cons]
  rw [List.take_append_eq_append_take, List.drop_append_eq_append_drop]
  simp [Nat.min_eq_left h.le, List.take_of_length_le, h.le,
    show n + 1 + cs.length - n = cs.length + 1 by omega]
  rw [List.drop_eq_nil_of_le (by simp; omega), List.nil_append, Nat.add_right_comm, Nat.add_assoc]

@[simp] theorem length_overwrite {l : List Nat} {n : Nat} {xs : List Nat} (h : n + xs.length ≤ l.length) :
    (overwrite l n xs).length = l.length := by
  simp [overwrite]; omega

/-- Two runs of stores that together fill an array leave exactly what they stored. -/
theorem overwrite_overwrite_of_length {l xs : List Nat} (ys : List Nat)
    (h : l.length = xs.length + ys.length) :
    overwrite (overwrite l 0 xs) xs.length ys = xs ++ ys := by
  simp [overwrite]; omega

/-! ## Bitmapsets -/

/-- The members of a bitmapset in the order repeated `bms_first_member` calls
hand them out: ascending. -/
def bmsMembers (s : Finset Nat) : List Nat :=
  (List.range (s.sup id + 1)).filter (· ∈ s)

@[simp] theorem mem_bmsMembers {s : Finset Nat} {a : Nat} : a ∈ bmsMembers s ↔ a ∈ s := by
  simp only [bmsMembers, List.mem_filter, List.mem_range, decide_eq_true_eq, and_iff_right_iff_imp]
  exact fun h => Nat.lt_succ_of_le (Finset.le_sup (f := id) h)

theorem nodup_bmsMembers (s : Finset Nat) : (bmsMembers s).Nodup :=
  (List.nodup_range _).filter _

theorem length_bmsMembers (s : Finset Nat) : (bmsMembers s).length = s.card := by
  rw [← List.toFinset_card_of_nodup (nodup_bmsMembers s)]
  congr 1
  ext a
  simp

example : bmsMembers {5, 1, 3} = [1, 3, 5] := by decide

/-! ## `find_hash_columns` -/

/-- The first loop: grouping column `i` is stored at `hashGrpColIdxInput[i]`,
compared at column `i + 1` of the hash tuple (`hashGrpColIdxHash[i]`), and
deleted from `colnos`.  `numhashGrpCols` counts the stores. -/
def mapGroupingColumns : List Nat → List Nat → List Nat → Nat → Finset Nat →
    Except String (List Nat × List Nat × Nat × Finset Nat)
  | [], input, hash, n, colnos => .ok (input, hash, n, colnos)
  | c :: cs, input, hash, n, colnos => do
    let input ← arrayStore input n c
    let hash ← arrayStore hash n (n + 1)
    mapGroupingColumns cs input hash (n + 1) (colnos.erase c)

/-- The second loop: every column left in `colnos` is stored at
`hashGrpColIdxInput[numhashGrpCols++]`. -/
def mapRemainingColumns : List Nat → List Nat → Nat → Except String (List Nat × Nat)
  | [], input, n => .ok (input, n)
  | c :: cs, input, n => do
    let input ← arrayStore input n c
    mapRemainingColumns cs input (n + 1)

/-- The columns `find_hash_columns` collects in `colnos` before the loops: the
unaggregated columns `base` of the targetlist and qual, less the grouped columns
outside the set when the node has grouping sets (`grouped`, the set's entry of
`phases[0].grouped_cols`), plus the grouping columns. -/
def hashColnos (base : Finset Nat) (grouped : Option (List Nat)) (allGroupedCols grpCols : List Nat) :
    Finset Nat :=
  let colnos := match grouped with
    | none => base
    | some g => allGroupedCols.foldl (fun c attnum => if attnum ∈ g then c else c.erase attnum) base
  grpCols.foldl (fun c a => insert a c) colnos

/-- `find_hash_columns` for one hashed set with `numCols` grouping columns
`grpColIdx`: `hashGrpColIdxInput` and `hashGrpColIdxHash`. -/
def findHashColumns (base : Finset Nat) (grouped : Option (List Nat)) (allGroupedCols grpColIdx : List Nat)
    (numCols : Nat) : Except String (List Nat × List Nat) := do
  let grpCols := grpColIdx.take numCols
  let colnos := hashColnos base grouped allGroupedCols grpCols
  let (input, hash, n, colnos) ←
    mapGroupingColumns grpCols (List.replicate colnos.card 0) (List.replicate numCols 0) 0 colnos
  let (input, _) ← mapRemainingColumns (bmsMembers colnos) input n
  pure (input, hash)

/-! ## What the loops store -/

/-- The second loop stores the columns one after another, and fails when they
run past the array. -/
theorem mapRemainingColumns_eq (cs : List Nat) :
    ∀ {input : List Nat} {n : Nat}, n ≤ input.length →
      mapRemainingColumns cs input n =
        if n + cs.length ≤ input.length then .ok (overwrite input n cs, n + cs.length)
        else .error "store past the end of the allocated array" := by
  induction cs with
  | nil => intro input n hn; simp [mapRemainingColumns, overwrite_nil, hn]
  | cons c cs ih =>
    intro input n hn
    simp only [mapRemainingColumns, arrayStore, List.length_cons]
    by_cases h1 : n < input.length
    · simp only [if_pos h1, bind, Except.bind]
      rw [ih (by simp; omega), List.length_set, overwrite_set_cons _ h1]
      simp only [Nat.add_right_comm, Nat.add_assoc]
    · simp only [if_neg h1, bind, Except.bind]
      rw [if_neg (by omega)]

theorem foldl_erase_eq_sdiff (cs : List Nat) :
    ∀ s : Finset Nat, cs.foldl (fun c a => c.erase a) s = s \ cs.toFinset := by
  induction cs with
  | nil => intro s; simp
  | cons c cs ih =>
    intro s
    rw [List.foldl_cons, ih, List.toFinset_cons, Finset.sdiff_insert, Finset.erase_sdiff_comm]

/-- The first loop stores the grouping columns and their hash-tuple columns one
after another, and deletes them from `colnos`. -/
theorem mapGroupingColumns_eq (cs : List Nat) :
    ∀ {input hash : List Nat} {n : Nat} (colnos : Finset Nat), n ≤ input.length → n ≤ hash.length →
      mapGroupingColumns cs input hash n colnos =
        if n + cs.length ≤ input.length ∧ n + cs.length ≤ hash.length then
          .ok (overwrite input n cs, overwrite hash n (List.range' (n + 1) cs.length), n + cs.length,
            colnos \ cs.toFinset)
        else .error "store past the end of the allocated array" := by
  induction cs with
  | nil => intro input hash n colnos hi hh; simp [mapGroupingColumns, overwrite_nil, hi, hh]
  | cons c cs ih =>
    intro input hash n colnos hi hh
    simp only [mapGroupingColumns, arrayStore, List.length_cons]
    by_cases h1 : n < input.length
    · by_cases h2 : n < hash.length
      · simp only [if_pos h1, if_pos h2, bind, Except.bind]
        rw [ih _ (by simp; omega) (by simp; omega), List.length_set, List.length_set,
          overwrite_set_cons _ h1, overwrite_set_cons _ h2, List.range'_succ,
          ← foldl_erase_eq_sdiff, ← foldl_erase_eq_sdiff, List.foldl_cons]
        simp only [Nat.add_right_comm, Nat.add_assoc]
      · simp only [if_pos h1, if_neg h2, bind, Except.bind]
        rw [if_neg (by omega)]
    · simp only [if_neg h1, bind, Except.bind]
      rw [if_neg (by omega)]

/-! ## The columns collected -/

theorem foldl_insert_eq_union (cs : List Nat) :
    ∀ s : Finset Nat, cs.foldl (fun c a => insert a c) s = s ∪ cs.toFinset := by
  induction cs with
  | nil => intro s; simp
  | cons c cs ih =>
    intro s
    rw [List.foldl_cons, ih, List.toFinset_cons, Finset.union_insert, Finset.insert_union]

theorem mem_foldl_eraseUngrouped {g : List Nat} (cols : List Nat) :
    ∀ {s : Finset Nat} {a : Nat},
      a ∈ cols.foldl (fun c attnum => if attnum ∈ g then c else c.erase attnum) s ↔
        a ∈ s ∧ (a ∈ cols → a ∈ g) := by
  induction cols with
  | nil => simp
  | cons c cols ih =>
    intro s a
    rw [List.foldl_cons, ih]
    by_cases hc : c ∈ g
    · simp only [hc, if_true, List.mem_cons]
      constructor
      · rintro ⟨hs, h⟩; exact ⟨hs, fun | .inl rfl => hc | .inr ha => h ha⟩
      · rintro ⟨hs, h⟩; exact ⟨hs, fun ha => h (.inr ha)⟩
    · simp only [hc, if_false, Finset.mem_erase, List.mem_cons]
      constructor
      · rintro ⟨⟨hne, hs⟩, h⟩; exact ⟨hs, fun | .inl rfl => absurd rfl hne | .inr ha => h ha⟩
      · rintro ⟨hs, h⟩
        exact ⟨⟨fun he => hc (he ▸ h (.inl he)), hs⟩, fun ha => h (.inr ha)⟩

/-- A column is collected when it is a grouping column, or read by the
targetlist or qual and not nulled by `prepare_projection_slot` for the set. -/
theorem mem_hashColnos {base : Finset Nat} {grouped : Option (List Nat)} {allGroupedCols grpCols : List Nat}
    {a : Nat} :
    a ∈ hashColnos base grouped allGroupedCols grpCols ↔
      a ∈ grpCols ∨ (a ∈ base ∧ ∀ g, grouped = some g → a ∈ allGroupedCols → a ∈ g) := by
  unfold hashColnos
  rw [foldl_insert_eq_union, Finset.mem_union, List.mem_toFinset, or_comm]
  cases grouped with
  | none => simp
  | some g => simp [mem_foldl_eraseUngrouped]

theorem toFinset_subset_hashColnos (base : Finset Nat) (grouped : Option (List Nat))
    (allGroupedCols grpCols : List Nat) :
    grpCols.toFinset ⊆ hashColnos base grouped allGroupedCols grpCols := fun _ ha =>
  mem_hashColnos.2 (.inl (List.mem_toFinset.1 ha))

/-! ## The layout -/

/-- With distinct grouping columns `find_hash_columns` fills `hashGrpColIdxInput`
exactly: the grouping columns, then the other collected columns in ascending
order; the grouping columns are hash-tuple columns `1..numCols`.  A repeated
grouping column sends a store past the end. -/
theorem findHashColumns_eq {base : Finset Nat} {grouped : Option (List Nat)}
    {allGroupedCols grpColIdx : List Nat} {numCols : Nat} (hlen : grpColIdx.length = numCols) :
    findHashColumns base grouped allGroupedCols grpColIdx numCols =
      if grpColIdx.Nodup then
        .ok (grpColIdx ++ bmsMembers (hashColnos base grouped allGroupedCols grpColIdx \ grpColIdx.toFinset),
          (List.range numCols).map (· + 1))
      else .error "store past the end of the allocated array" := by
  subst hlen
  have hcard := Finset.card_sdiff_add_card_eq_card
    (toFinset_subset_hashColnos base grouped allGroupedCols grpColIdx)
  have hle : grpColIdx.toFinset.card ≤ grpColIdx.length := List.toFinset_card_le _
  simp only [findHashColumns, List.take_length]
  rw [mapGroupingColumns_eq _ _ (Nat.zero_le _) (Nat.zero_le _)]
  simp only [Nat.zero_add, List.length_replicate, le_refl, and_true]
  by_cases hnd : grpColIdx.Nodup
  · have hn := List.toFinset_card_of_nodup hnd
    rw [if_pos (by omega), if_pos hnd]
    simp only [bind, Except.bind]
    rw [mapRemainingColumns_eq _ (by rw [length_overwrite (by simp; omega)]; simp; omega)]
    rw [if_pos (by rw [length_overwrite (by simp; omega), length_bmsMembers]; simp; omega),
      overwrite_overwrite_of_length _ (by simp [length_bmsMembers]; omega)]
    simp [overwrite, List.range'_eq_map_range, Nat.add_comm, pure, Except.pure]
  · have hlt : grpColIdx.toFinset.card < grpColIdx.length :=
      lt_of_le_of_ne hle fun h => hnd (Multiset.toFinset_card_eq_card_iff_nodup (m := (grpColIdx : Multiset Nat)).1 h)
    rw [if_neg hnd]
    by_cases h1 : grpColIdx.length ≤ (hashColnos base grouped allGroupedCols grpColIdx).card
    · simp only [if_pos h1, bind, Except.bind]
      rw [mapRemainingColumns_eq _ (by rw [length_overwrite (by simp; omega)]; simp; omega),
        if_neg (by rw [length_overwrite (by simp; omega), length_bmsMembers]; simp; omega)]
    · simp only [if_neg h1, bind, Except.bind]

/-- `GROUPING SETS ((a), (b))` hashed, reading `a` and `b`: the set `(a)` does
not store `b`, which `prepare_projection_slot` nulls for it. -/
example : findHashColumns {1, 2} (some [1]) [1, 2] [1] 1 = .ok ([1], [1]) := rfl

/-- `find_hash_columns` stores past the end of `hashGrpColIdxInput` exactly when
the set's grouping columns repeat one. -/
theorem findHashColumns_overflows_iff_repeated {base : Finset Nat} {grouped : Option (List Nat)}
    {allGroupedCols grpColIdx : List Nat} {numCols : Nat} (hlen : grpColIdx.length = numCols) :
    (∃ e, findHashColumns base grouped allGroupedCols grpColIdx numCols = .error e) ↔ ¬grpColIdx.Nodup := by
  rw [findHashColumns_eq hlen]
  split
  · rename_i hnd; simp [hnd]
  · rename_i hnd; simp [hnd]

/-- A hashed `GROUP BY a, a`: one collected column, two stores. -/
theorem groupByRepeatedColumn_overflows :
    [1, 1].length = 2 ∧ ∃ e, findHashColumns {1} none [] [1, 1] 2 = .error e :=
  ⟨rfl, (findHashColumns_overflows_iff_repeated rfl).2 (by decide)⟩

/-! ## The representative slot -/

section Expand

variable {D : Type} [Inhabited D]

/-- Storing each listed column of `t` at its position changes exactly the
positions of the listed columns, to `t`'s values. -/
theorem getElem?_foldl_storeColumns (t : Tuple D) {cols : List Nat} (hcols : ∀ a ∈ cols, 0 < a) :
    ∀ (u : Tuple D) (i : Nat),
      ((cols.zip (cols.map (slotGetattr t))).foldl (fun u p => u.set (p.1 - 1) p.2) u)[i]? =
        if i + 1 ∈ cols then u[i]?.map fun _ => slotGetattr t (i + 1) else u[i]? := by
  induction cols with
  | nil => simp
  | cons a cols ih =>
    intro u i
    rw [List.map_cons, List.zip_cons_cons, List.foldl_cons, ih (fun b hb => hcols b (.tail _ hb))]
    have ha := hcols a (.head _)
    by_cases hi : a - 1 = i
    · obtain rfl : a = i + 1 := by omega
      by_cases hm : i + 1 ∈ cols
      · simp [hm, List.getElem?_set', Option.map_map, Function.comp_def]
      · simp [hm, List.getElem?_set']; rfl
    · have hne : i + 1 ≠ a := by omega
      simp [hi, hne, List.getElem?_set']

/-- The slot `agg_retrieve_hash_table` rebuilds from a tuple's compacted key
holds the tuple's value in every column the key stores. -/
theorem slotGetattr_expandHashKey (cfg : AggConfig D) (ph : AggStatePerHash D) (t : Tuple D) {c : Nat}
    (hcols : ∀ a ∈ ph.hashGrpColIdxInput, 0 < a) (hc : c ∈ ph.hashGrpColIdxInput) (hn : c ≤ cfg.natts) :
    slotGetattr (expandHashKey cfg ph (hashKeyOf ph t)) c = slotGetattr t c := by
  have hpos := hcols c hc
  have h := getElem?_foldl_storeColumns t hcols (allNullTuple cfg.natts) (c - 1)
  rw [Nat.sub_add_cancel hpos, if_pos hc] at h
  simp only [allNullTuple, List.getElem?_replicate, if_pos (show c - 1 < cfg.natts by omega),
    Option.map_some'] at h
  show (expandHashKey cfg ph (hashKeyOf ph t)).getD (c - 1) nullDatum = slotGetattr t c
  rw [List.getD_eq_getElem?_getD]
  exact (congrArg (Option.getD · nullDatum) h :)

/-- The columns `find_hash_columns` stores are the collected ones. -/
theorem mem_findHashColumns {base : Finset Nat} {grouped : Option (List Nat)}
    {allGroupedCols grpColIdx input hash : List Nat} {numCols : Nat} (hlen : grpColIdx.length = numCols)
    (h : findHashColumns base grouped allGroupedCols grpColIdx numCols = .ok (input, hash)) {c : Nat} :
    c ∈ input ↔ c ∈ hashColnos base grouped allGroupedCols grpColIdx := by
  rw [findHashColumns_eq hlen] at h
  split at h
  · cases h
    have hsub := toFinset_subset_hashColnos base grouped allGroupedCols grpColIdx
    simp only [List.mem_append, mem_bmsMembers, Finset.mem_sdiff, List.mem_toFinset]
    by_cases hc : c ∈ grpColIdx
    · simp [hc, hsub (List.mem_toFinset.2 hc)]
    · simp [hc]
  · cases h

/-- A hashed set whose columns `find_hash_columns` laid out: the grouping
columns come first in `hashGrpColIdxInput` and are hash-tuple columns
`1..numCols`, and the representative slot `agg_retrieve_hash_table` rebuilds
from the key `lookup_hash_entry` stored for a group's first tuple agrees with
that tuple on every grouping column and on every column the targetlist or qual
reads that `prepare_projection_slot` keeps for the set. -/
theorem findHashColumns_representative {cfg : AggConfig D} {ph : AggStatePerHash D} {base : Finset Nat}
    {grouped : Option (List Nat)} {grpColIdx : List Nat}
    (hbase : ∀ a ∈ base, 0 < a ∧ a ≤ cfg.natts) (hgrp : ∀ a ∈ grpColIdx, 0 < a ∧ a ≤ cfg.natts)
    (hlen : grpColIdx.length = ph.numCols)
    (hph : findHashColumns base grouped cfg.allGroupedCols grpColIdx ph.numCols =
      .ok (ph.hashGrpColIdxInput, ph.hashGrpColIdxHash))
    (t : Tuple D) :
    ph.hashGrpColIdxInput.take ph.numCols = grpColIdx ∧
      ph.hashGrpColIdxHash = (List.range ph.numCols).map (· + 1) ∧
      ∀ c, c ∈ grpColIdx ∨ (c ∈ base ∧ ∀ g, grouped = some g → c ∈ cfg.allGroupedCols → c ∈ g) →
        slotGetattr (expandHashKey cfg ph (hashKeyOf ph t)) c = slotGetattr t c := by
  have hmem := fun c => mem_findHashColumns (c := c) hlen hph
  have hatt : ∀ a ∈ ph.hashGrpColIdxInput, 0 < a ∧ a ≤ cfg.natts := fun a ha => by
    rcases mem_hashColnos.1 ((hmem a).1 ha) with hg | ⟨hb, -⟩
    exacts [hgrp a hg, hbase a hb]
  rw [findHashColumns_eq hlen] at hph
  split at hph
  · obtain ⟨hin, hh⟩ := Prod.mk.inj (Except.ok.inj hph)
    refine ⟨by rw [← hin, List.take_left' hlen], hh.symm, fun c hc => ?_⟩
    have hc' := (hmem c).2 (mem_hashColnos.2 hc)
    exact slotGetattr_expandHashKey cfg ph t (fun a ha => (hatt a ha).1) hc' (hatt c hc').2
  · cases hph

/-- `SELECT a, count(*) FROM t GROUP BY a` by hashing: the set's columns are
those `find_hash_columns` lays out, and a row's representative slot gives back
its grouping column. -/
theorem firstColumnHash_representative :
    (∀ a ∈ ({1} : Finset Nat), 0 < a ∧ a ≤ (countByFirstColumn false).natts) ∧
      (∀ a ∈ [1], 0 < a ∧ a ≤ (countByFirstColumn false).natts) ∧
      [1].length = (firstColumnHash false).numCols ∧
      findHashColumns {1} (some [1]) (countByFirstColumn false).allGroupedCols [1]
          (firstColumnHash false).numCols =
        .ok ((firstColumnHash false).hashGrpColIdxInput, (firstColumnHash false).hashGrpColIdxHash) ∧
      slotGetattr (expandHashKey (countByFirstColumn false) (firstColumnHash false)
        (hashKeyOf (firstColumnHash false) [⟨7, false⟩])) 1 = ⟨7, false⟩ :=
  have hph : findHashColumns {1} (some [1]) (countByFirstColumn false).allGroupedCols [1]
      (firstColumnHash false).numCols =
      .ok ((firstColumnHash false).hashGrpColIdxInput, (firstColumnHash false).hashGrpColIdxHash) :=
    rfl
  ⟨by decide, by decide, rfl, hph,
    (findHashColumns_representative (by decide) (by decide) rfl hph [⟨7, false⟩]).2.2 1 (.inl (.head _))⟩

end Expand


end NodeAgg

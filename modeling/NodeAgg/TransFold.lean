import NodeAgg.GroupingSets

/-!
# Transition folds: strict transitions and DISTINCT / ORDER BY

What one group's transition state is after `advance_transition_function` has
seen a sequence of argument tuples, and after `process_ordered_aggregate_single`
or `process_ordered_aggregate_multi` has replayed a DISTINCT / ORDER BY
transition's sorter.

For a strict transition function the C code fuses three rules into one loop:
skip a tuple with a NULL argument, let the first other tuple seed a state that
has no initial value, never call the function on a NULL state.  `strictFold`
applies them one after the other: drop the tuples with a NULL argument, seed,
fold.  `foldl_advanceTransitionFunction_strict` says the loop computes it.

For an ordered transition the loop interleaves duplicate elimination with the
transition.  `orderedInputs` does the elimination alone, and the state is the
fold of the transition over what it keeps (`processOrderedAggregate_eq_fold`).
That rests on what `build_pertrans_for_aggref` sets up (`OrderedSetup`) and on
the tuplesort's contract (`TuplesortContract`): its output is a permutation of
its input, equal tuples come out together, and equal tuples carry equal
abbreviated keys.  Then the tuples kept are one per class of equal tuples, in
sort order, and the one-datum path and the tuple path agree on one-column
input.
-/

namespace NodeAgg

section

variable {D : Type} [Inhabited D]

open AggStatePerGroup

/-! ## Strict transition functions -/

/-- Whether one of the arguments is NULL: a strict transition function skips
such a tuple. -/
def hasNullArg (args : Tuple D) : Bool := args.any (·.isnull)

/-- One step of a strict transition on a seeded state: a NULL state stays NULL,
otherwise the function's result becomes the state. -/
def strictStep (pt : AggStatePerTrans D) (pg : AggStatePerGroup D) (args : Tuple D) :
    AggStatePerGroup D :=
  if pg.transValueIsNull then pg else pg.setResult (pt.transfn.fnAddr (pg.toArg :: args))

/-- A strict transition over one group's argument tuples, rule by rule: drop
every tuple with a NULL argument; without an initial value the first tuple left
seeds the state with its first argument (the state stays NULL when none is
left) and the transition is folded over the rest; with one it is folded over
all of them from the initial value. -/
def strictFold (pt : AggStatePerTrans D) (argss : List (Tuple D)) : AggStatePerGroup D :=
  match pt.initValueIsNull, argss.filter (!hasNullArg ·) with
  | true, [] => initializeAggregate pt
  | true, first :: rest => rest.foldl (strictStep pt) (seeded (first.headD nullDatum).value)
  | false, kept => kept.foldl (strictStep pt) (initializeAggregate pt)

omit [Inhabited D] in
@[simp] theorem strictStep_noTransValue (pt : AggStatePerTrans D) (pg : AggStatePerGroup D)
    (args : Tuple D) : (strictStep pt pg args).noTransValue = pg.noTransValue := by
  unfold strictStep; split <;> rfl

omit [Inhabited D] in
theorem foldl_strictStep_noTransValue (pt : AggStatePerTrans D) :
    ∀ (argss : List (Tuple D)) (pg : AggStatePerGroup D),
      (argss.foldl (strictStep pt) pg).noTransValue = pg.noTransValue
  | [], _ => rfl
  | args :: rest, pg => by
    rw [List.foldl_cons, foldl_strictStep_noTransValue pt rest, strictStep_noTransValue]

section Strict

variable {pt : AggStatePerTrans D} (hs : pt.transfn.fnStrict = true)
include hs

theorem advanceTransitionFunction_of_hasNullArg {args : Tuple D} (h : hasNullArg args = true)
    (pg : AggStatePerGroup D) : advanceTransitionFunction pt args pg = pg := by
  unfold hasNullArg at h
  simp [advanceTransitionFunction, hs, h]

theorem advanceTransitionFunction_of_seeded {args : Tuple D} (h : hasNullArg args = false)
    {pg : AggStatePerGroup D} (hn : pg.noTransValue = false) :
    advanceTransitionFunction pt args pg = strictStep pt pg args := by
  unfold hasNullArg at h
  simp [advanceTransitionFunction, strictStep, hs, h, hn]

theorem advanceTransitionFunction_of_unseeded {args : Tuple D} (h : hasNullArg args = false)
    {pg : AggStatePerGroup D} (hn : pg.noTransValue = true) :
    advanceTransitionFunction pt args pg = seeded (args.headD nullDatum).value := by
  unfold hasNullArg at h
  simp [advanceTransitionFunction, hs, h, hn]

/-- Once seeded, the C loop is the fold of `strictStep` over the tuples without
a NULL argument. -/
theorem foldl_advanceTransitionFunction_of_seeded :
    ∀ (argss : List (Tuple D)) {pg : AggStatePerGroup D}, pg.noTransValue = false →
      argss.foldl (fun pg args => advanceTransitionFunction pt args pg) pg =
        (argss.filter (!hasNullArg ·)).foldl (strictStep pt) pg
  | [], _, _ => rfl
  | args :: rest, pg, hn => by
    cases h : hasNullArg args
    · rw [List.foldl_cons, advanceTransitionFunction_of_seeded hs h hn,
        List.filter_cons_of_pos (by simp [h]), List.foldl_cons]
      exact foldl_advanceTransitionFunction_of_seeded rest (by rw [strictStep_noTransValue, hn])
    · rw [List.foldl_cons, advanceTransitionFunction_of_hasNullArg hs h,
        List.filter_cons_of_neg (by simp [h])]
      exact foldl_advanceTransitionFunction_of_seeded rest hn

/-- Before its first tuple without a NULL argument a state marked
`noTransValue` is left alone; that tuple seeds it. -/
theorem foldl_advanceTransitionFunction_of_unseeded :
    ∀ (argss : List (Tuple D)) {pg : AggStatePerGroup D}, pg.noTransValue = true →
      argss.foldl (fun pg args => advanceTransitionFunction pt args pg) pg =
        match argss.filter (!hasNullArg ·) with
        | [] => pg
        | first :: rest => rest.foldl (strictStep pt) (seeded (first.headD nullDatum).value)
  | [], _, _ => rfl
  | args :: rest, pg, hn => by
    cases h : hasNullArg args
    · rw [List.foldl_cons, advanceTransitionFunction_of_unseeded hs h hn,
        List.filter_cons_of_pos (by simp [h])]
      exact foldl_advanceTransitionFunction_of_seeded hs rest rfl
    · rw [List.foldl_cons, advanceTransitionFunction_of_hasNullArg hs h,
        List.filter_cons_of_neg (by simp [h])]
      exact foldl_advanceTransitionFunction_of_unseeded rest hn

/-- A strict transition from `initialize_aggregate` over any sequence of
argument tuples: the state is `strictFold`, and `noTransValue` is still set
exactly when there is no initial value and every tuple so far had a NULL
argument. -/
theorem foldl_advanceTransitionFunction_strict (argss : List (Tuple D)) :
    argss.foldl (fun pg args => advanceTransitionFunction pt args pg) (initializeAggregate pt) =
        strictFold pt argss ∧
      (argss.foldl (fun pg args => advanceTransitionFunction pt args pg)
          (initializeAggregate pt)).noTransValue = (pt.initValueIsNull && argss.all hasNullArg) := by
  have hall : argss.all hasNullArg = true ↔ argss.filter (!hasNullArg ·) = [] := by
    simp [List.filter_eq_nil_iff]
  cases hi : pt.initValueIsNull
  · have hn : (initializeAggregate pt).noTransValue = false := hi
    rw [foldl_advanceTransitionFunction_of_seeded hs argss hn, foldl_strictStep_noTransValue, hn]
    simp only [strictFold, hi, Bool.false_and, and_true]
  · have hn : (initializeAggregate pt).noTransValue = true := hi
    rw [foldl_advanceTransitionFunction_of_unseeded hs argss hn]
    unfold strictFold
    rw [hi]
    cases hf : argss.filter (!hasNullArg ·) with
    | nil => exact ⟨rfl, by simpa [hn] using hall.mpr hf⟩
    | cons first rest =>
      refine ⟨rfl, ?_⟩
      rw [foldl_strictStep_noTransValue, Bool.true_and]
      exact (Bool.eq_false_iff.mpr fun h => List.cons_ne_nil _ _ (hf ▸ hall.mp h)).symm

end Strict

/-- `max(int4)` over NULL, 3, NULL, 5: the NULL rows are skipped and 3 seeds the
state. -/
theorem int4Max_strictFold :
    int4MaxTrans.transfn.fnStrict = true ∧
      ([[nullDatum], [⟨3, false⟩], [nullDatum], [⟨5, false⟩]] : List (Tuple Int)).foldl
          (fun pg args => advanceTransitionFunction int4MaxTrans args pg) (initializeAggregate int4MaxTrans) =
        strictFold int4MaxTrans [[nullDatum], [⟨3, false⟩], [nullDatum], [⟨5, false⟩]] ∧
      (([[nullDatum], [⟨3, false⟩], [nullDatum], [⟨5, false⟩]] : List (Tuple Int)).foldl
          (fun pg args => advanceTransitionFunction int4MaxTrans args pg)
          (initializeAggregate int4MaxTrans)).noTransValue =
        (int4MaxTrans.initValueIsNull && ([[nullDatum], [⟨3, false⟩], [nullDatum], [⟨5, false⟩]] :
          List (Tuple Int)).all hasNullArg) :=
  ⟨rfl, foldl_advanceTransitionFunction_strict rfl _⟩

example : strictFold int4MaxTrans [[nullDatum], [⟨3, false⟩], [nullDatum], [⟨5, false⟩]] =
    ⟨5, false, false⟩ := rfl

/-! ## DISTINCT and ORDER BY -/

/-- Whether two sorted tuples of a DISTINCT transition are the same value:
equal on the `numDistinctCols` sort columns, two NULLs being equal. -/
def AggStatePerTrans.sameDistinct (pt : AggStatePerTrans D) (t u : Tuple D) : Bool :=
  execTuplesMatch pt.equalfns pt.sortColIdx pt.numDistinctCols t u

/-- DISTINCT over the sorter's output: a tuple with the same abbreviated key as
the last tuple kept, and equal to it, is dropped. -/
def dropDuplicates (pt : AggStatePerTrans D) :
    List (Tuple D × UInt64) → Option (Tuple D × UInt64) → List (Tuple D)
  | [], _ => []
  | (t, key) :: rest, some (o, okey) =>
    if okey == key && pt.sameDistinct t o then dropDuplicates pt rest (some (o, okey))
    else t :: dropDuplicates pt rest (some (t, key))
  | (t, key) :: rest, none => t :: dropDuplicates pt rest (some (t, key))

/-- The tuples a DISTINCT / ORDER BY transition is folded over: the sorted
tuples, without the duplicates under DISTINCT. -/
def orderedInputs (pt : AggStatePerTrans D) (sorted : List (Tuple D × UInt64)) : List (Tuple D) :=
  if 0 < pt.numDistinctCols then dropDuplicates pt sorted none else sorted.map (·.1)

/-- The transition of an ordered aggregate on one sorted tuple: its first
`numTransInputs` columns are the arguments. -/
def orderedStep (pt : AggStatePerTrans D) (pg : AggStatePerGroup D) (t : Tuple D) :
    AggStatePerGroup D :=
  advanceTransitionFunction pt (t.take pt.numTransInputs) pg

/-- Whether equal elements come together: after each element, the later ones
equal to it form a prefix of the rest. -/
def contiguous {α : Type} (r : α → α → Bool) : List α → Bool
  | [] => true
  | a :: l => (l.dropWhile (r a)).all (fun x => !r a x) && contiguous r l

/-- What `build_pertrans_for_aggref` sets up for an ordered transition: DISTINCT
compares all sort columns, with one lawful equality function per column, and a
one-input aggregate sorts on its one column. -/
structure OrderedSetup (pt : AggStatePerTrans D) : Prop where
  distinct : pt.numDistinctCols = 0 ∨ pt.numDistinctCols = pt.numSortCols
  sortCols : pt.sortColIdx.length = pt.numSortCols
  equalfns : pt.numDistinctCols ≤ pt.equalfns.length
  lawful : EqFunctionsLawful pt.equalfns
  single : pt.numInputs = 1 → pt.sortColIdx = [1]

/-- What an ordered transition relies on from its tuplesort on input `ts`: the
output is a permutation of the input, equal tuples come out together, and equal
tuples carry equal abbreviated keys. -/
structure TuplesortContract (pt : AggStatePerTrans D) (ts : List (Tuple D)) : Prop where
  perm : ((pt.tuplesort ts).map (·.1)).Perm ts
  adjacent : contiguous pt.sameDistinct ((pt.tuplesort ts).map (·.1)) = true
  abbrevKeys : ∀ a ∈ pt.tuplesort ts, ∀ b ∈ pt.tuplesort ts, pt.sameDistinct a.1 b.1 = true → a.2 = b.2

/-! ### The tuple path -/

theorem processOrderedAggregateMulti_of_not_distinct {pt : AggStatePerTrans D}
    (h : pt.numDistinctCols = 0) :
    ∀ (L : List (Tuple D × UInt64)) (old : Option (Tuple D × UInt64)) (pg : AggStatePerGroup D),
      processOrderedAggregateMulti pt L old pg = (L.map (·.1)).foldl (orderedStep pt) pg
  | [], _, _ => rfl
  | (t, key) :: rest, old, pg => by
    simp only [processOrderedAggregateMulti]
    split
    · rename_i hdup; cases old <;> simp [h] at hdup
    · simp only [h, lt_irrefl, if_false]
      exact processOrderedAggregateMulti_of_not_distinct h rest old _

theorem processOrderedAggregateMulti_of_distinct {pt : AggStatePerTrans D}
    (h : 0 < pt.numDistinctCols) :
    ∀ (L : List (Tuple D × UInt64)) (old : Option (Tuple D × UInt64)) (pg : AggStatePerGroup D),
      processOrderedAggregateMulti pt L old pg = (dropDuplicates pt L old).foldl (orderedStep pt) pg
  | [], _, _ => rfl
  | (t, key) :: rest, none, pg => by
    simp only [processOrderedAggregateMulti, Bool.false_eq_true, if_false, h, if_true]
    exact processOrderedAggregateMulti_of_distinct h rest _ _
  | (t, key) :: rest, some (o, okey), pg => by
    have hne : (pt.numDistinctCols != 0) = true := by simpa using Nat.pos_iff_ne_zero.mp h
    simp only [processOrderedAggregateMulti, dropDuplicates, hne, Bool.true_and,
      AggStatePerTrans.sameDistinct]
    by_cases hc : (okey == key && execTuplesMatch pt.equalfns pt.sortColIdx pt.numDistinctCols t o) = true
    · rw [if_pos hc, if_pos hc]
      exact processOrderedAggregateMulti_of_distinct h rest _ _
    · rw [if_neg hc, if_neg hc, if_pos h]
      exact processOrderedAggregateMulti_of_distinct h rest _ _

/-- The tuple path is the fold of the transition over `orderedInputs`. -/
theorem processOrderedAggregateMulti_eq_fold (pt : AggStatePerTrans D) (L : List (Tuple D × UInt64))
    (pg : AggStatePerGroup D) :
    processOrderedAggregateMulti pt L none pg = (orderedInputs pt L).foldl (orderedStep pt) pg := by
  unfold orderedInputs
  split
  · exact processOrderedAggregateMulti_of_distinct ‹_› L none pg
  · exact processOrderedAggregateMulti_of_not_distinct (by omega) L none pg

/-! ### The one-datum path -/

theorem singleton_headD {t : Tuple D} (h : t.length = 1) : [t.headD nullDatum] = t := by
  match t, h with
  | [v], _ => rfl

section Single

variable {pt : AggStatePerTrans D} {full : List (Tuple D × UInt64)}

/-- Without DISTINCT the one-datum path folds over every sorted datum. -/
theorem processOrderedAggregateSingle_of_not_distinct (h : pt.numDistinctCols = 0) :
    ∀ (L : List (Tuple D × UInt64)), (∀ x ∈ L, x.1.length = 1) →
      ∀ (old : Option (NullableDatum D × UInt64)) (pg : AggStatePerGroup D),
        processOrderedAggregateSingle pt L old pg = (L.map (·.1)).foldl (orderedStep pt) pg
  | [], _, _, _ => rfl
  | (t, key) :: rest, hone, old, pg => by
    simp only [processOrderedAggregateSingle]
    split
    · rename_i hdup; cases old <;> simp [h] at hdup
    · simp only [List.map_cons, List.foldl_cons, orderedStep, singleton_headD (hone _ (List.mem_cons_self _ _))]
      exact processOrderedAggregateSingle_of_not_distinct h rest
        (fun x hx => hone x (List.mem_cons_of_mem _ hx)) _ _

/-- On one-column tuples with equal abbreviated keys for equal tuples, the
one-datum path's test for a duplicate is the tuple path's. -/
theorem singleDup_eq (hset : OrderedSetup pt) (h1 : pt.numInputs = 1) (hd : 0 < pt.numDistinctCols)
    {v o : NullableDatum D} {key okey : UInt64}
    (hkey : pt.sameDistinct [v] [o] = true → okey = key) :
    (decide (pt.numDistinctCols > 0) &&
        ((o.isnull && v.isnull) ||
          (!o.isnull && !v.isnull && okey == key && (pt.equalfns.headD (fun _ _ => false)) o.value v.value))) =
      (okey == key && pt.sameDistinct [v] [o]) := by
  have hcols := hset.single h1
  have hn : pt.numDistinctCols = 1 := by
    rcases hset.distinct with h0 | h0
    · omega
    · have := hset.sortCols; rw [hcols] at this; simp at this; omega
  obtain ⟨eq, eqs, heqs⟩ : ∃ eq eqs, pt.equalfns = eq :: eqs := by
    cases h : pt.equalfns with
    | nil => have := hset.equalfns; rw [h] at this; simp at this; omega
    | cons eq eqs => exact ⟨eq, eqs, rfl⟩
  have hsymm : eq o.value v.value = eq v.value o.value :=
    Bool.eq_iff_iff.mpr ⟨hset.lawful.symm eq (by simp [heqs]) _ _, hset.lawful.symm eq (by simp [heqs]) _ _⟩
  have hsame : pt.sameDistinct [v] [o] = columnsMatch eq v o := by
    simp [AggStatePerTrans.sameDistinct, execTuplesMatch, hcols, heqs, hn, slotGetattr]
  have hdec : decide (pt.numDistinctCols > 0) = true := decide_eq_true hd
  rw [hsame] at hkey ⊢
  simp only [heqs, List.headD_cons, hsymm, hdec, Bool.true_and, columnsMatch]
  cases hv : v.isnull <;> cases ho : o.isnull
  · simp
  · simp
  · simp
  · simp only [hv, ho, columnsMatch, if_true] at hkey
    simp [hkey trivial]

/-- With DISTINCT, on one-column tuples with equal abbreviated keys for equal
tuples, the one-datum path folds over what `dropDuplicates` keeps. -/
theorem processOrderedAggregateSingle_of_distinct (hset : OrderedSetup pt) (h1 : pt.numInputs = 1)
    (hd : 0 < pt.numDistinctCols) (hone : ∀ x ∈ full, x.1.length = 1)
    (hkeys : ∀ a ∈ full, ∀ b ∈ full, pt.sameDistinct a.1 b.1 = true → a.2 = b.2) :
    ∀ (L : List (Tuple D × UInt64)), (∀ x ∈ L, x ∈ full) →
      ∀ (old : Option (Tuple D × UInt64)), (∀ o, old = some o → o ∈ full) → ∀ (pg : AggStatePerGroup D),
        processOrderedAggregateSingle pt L (old.map fun o => (o.1.headD nullDatum, o.2)) pg =
          (dropDuplicates pt L old).foldl (orderedStep pt) pg
  | [], _, _, _, _ => rfl
  | (t, key) :: rest, hL, none, _, pg => by
    have ht := hL _ (List.mem_cons_self _ _)
    simp only [processOrderedAggregateSingle, Option.map_none, Bool.false_eq_true, if_false,
      dropDuplicates, List.foldl_cons, orderedStep, singleton_headD (hone _ ht)]
    exact processOrderedAggregateSingle_of_distinct hset h1 hd hone hkeys rest
      (fun x hx => hL x (List.mem_cons_of_mem _ hx)) (some (t, key)) (by simp [ht]) _
  | (t, key) :: rest, hL, some (o, okey), hold, pg => by
    have ht := hL _ (List.mem_cons_self _ _)
    have ho := hold _ rfl
    have hdup := singleDup_eq hset h1 hd
      (show pt.sameDistinct [t.headD nullDatum] [o.headD nullDatum] = true → okey = key by
        rw [singleton_headD (hone _ ht), singleton_headD (hone _ ho)]
        exact fun h => (hkeys _ ht _ ho h).symm)
    rw [singleton_headD (hone _ ht), singleton_headD (hone _ ho)] at hdup
    simp only [processOrderedAggregateSingle, Option.map_some', hdup, dropDuplicates]
    split
    · exact processOrderedAggregateSingle_of_distinct hset h1 hd hone hkeys rest
        (fun x hx => hL x (List.mem_cons_of_mem _ hx)) (some (o, okey)) hold pg
    · simp only [List.foldl_cons, orderedStep, singleton_headD (hone _ ht)]
      exact processOrderedAggregateSingle_of_distinct hset h1 hd hone hkeys rest
        (fun x hx => hL x (List.mem_cons_of_mem _ hx)) (some (t, key)) (by simp [ht]) _

/-- The one-datum path is the fold of the transition over `orderedInputs`. -/
theorem processOrderedAggregateSingle_eq_fold (hset : OrderedSetup pt) (h1 : pt.numInputs = 1)
    (hone : ∀ x ∈ full, x.1.length = 1)
    (hkeys : ∀ a ∈ full, ∀ b ∈ full, pt.sameDistinct a.1 b.1 = true → a.2 = b.2) (pg : AggStatePerGroup D) :
    processOrderedAggregateSingle pt full none pg = (orderedInputs pt full).foldl (orderedStep pt) pg := by
  unfold orderedInputs
  split
  · exact processOrderedAggregateSingle_of_distinct hset h1 ‹_› hone hkeys full (fun _ h => h) none
      (fun _ h => nomatch h) pg
  · exact processOrderedAggregateSingle_of_not_distinct (by omega) full hone none pg

end Single

/-! ### What DISTINCT keeps -/

theorem dropDuplicates_sublist (pt : AggStatePerTrans D) :
    ∀ (L : List (Tuple D × UInt64)) (old : Option (Tuple D × UInt64)),
      (dropDuplicates pt L old).Sublist (L.map (·.1))
  | [], _ => List.Sublist.slnil
  | (t, key) :: rest, none => (dropDuplicates_sublist pt rest _).cons₂ t
  | (t, key) :: rest, some (o, okey) => by
    unfold dropDuplicates
    split
    · exact (dropDuplicates_sublist pt rest _).cons t
    · exact (dropDuplicates_sublist pt rest _).cons₂ t

/-- Every sorted tuple equals the last tuple kept before it or is kept itself. -/
theorem exists_kept (pt : AggStatePerTrans D) (hl : EqFunctionsLawful pt.equalfns) :
    ∀ (L : List (Tuple D × UInt64)) (old : Option (Tuple D × UInt64)), ∀ x ∈ L,
      ∃ u ∈ (old.map (·.1)).toList ++ dropDuplicates pt L old, pt.sameDistinct x.1 u = true
  | [], _, _, hx => absurd hx (List.not_mem_nil _)
  | (t, key) :: rest, none, x, hx => by
    rcases List.mem_cons.mp hx with rfl | hx
    · exact ⟨t, by simp [dropDuplicates], execTuplesMatch_refl hl _ _ _⟩
    · obtain ⟨u, hu, hxu⟩ := exists_kept pt hl rest (some (t, key)) x hx
      exact ⟨u, by simpa [dropDuplicates] using hu, hxu⟩
  | (t, key) :: rest, some (o, okey), x, hx => by
    rw [dropDuplicates]
    split
    · rename_i h
      rcases List.mem_cons.mp hx with rfl | hx
      · exact ⟨o, by simp, (Bool.and_eq_true_iff.mp h).2⟩
      · exact exists_kept pt hl rest _ x hx
    · rcases List.mem_cons.mp hx with rfl | hx
      · exact ⟨t, by simp, execTuplesMatch_refl hl _ _ _⟩
      · obtain ⟨u, hu, hxu⟩ := exists_kept pt hl rest (some (t, key)) x hx
        exact ⟨u, by simp only [Option.map_some', Option.toList_some, List.singleton_append] at hu ⊢
                     exact List.mem_cons_of_mem _ hu, hxu⟩

/-- Under contiguous classes and keys that agree on equal tuples, no two tuples
DISTINCT keeps are equal. -/
theorem pairwise_dropDuplicates (pt : AggStatePerTrans D) (hl : EqFunctionsLawful pt.equalfns) :
    ∀ (o : Tuple D × UInt64) (L : List (Tuple D × UInt64)),
      contiguous pt.sameDistinct (o.1 :: L.map (·.1)) = true →
      (∀ a ∈ o :: L, ∀ b ∈ o :: L, pt.sameDistinct a.1 b.1 = true → a.2 = b.2) →
      (o.1 :: dropDuplicates pt L (some o)).Pairwise (fun t u => pt.sameDistinct t u = false)
  | o, [], _, _ => List.pairwise_singleton _ _
  | (o, okey), (t, key) :: rest, hc, hk => by
    rw [List.map_cons, contiguous.eq_2, Bool.and_eq_true] at hc
    obtain ⟨hpre, hc'⟩ := hc
    rw [dropDuplicates]
    split
    · rename_i h
      have hot : pt.sameDistinct o t = true := execTuplesMatch_symm hl (Bool.and_eq_true_iff.mp h).2
      refine pairwise_dropDuplicates pt hl (o, okey) rest ?_
        (fun a ha b hb => hk a (by simp at ha ⊢; tauto) b (by simp at hb ⊢; tauto))
      rw [contiguous.eq_2, Bool.and_eq_true]
      rw [List.dropWhile_cons_of_pos (p := pt.sameDistinct o) hot] at hpre
      exact ⟨hpre, by rw [contiguous.eq_2, Bool.and_eq_true] at hc'; exact hc'.2⟩
    · rename_i h
      have hto : pt.sameDistinct t o = false := by
        cases hs : pt.sameDistinct t o
        · rfl
        · have hkey : key = okey := hk (t, key) (by simp) (o, okey) (by simp) hs
          simp [hkey, hs] at h
      have hot : pt.sameDistinct o t = false := by
        cases hs : pt.sameDistinct o t
        · rfl
        · have h2 : pt.sameDistinct t o = true := execTuplesMatch_symm hl hs
          exact absurd (hto.symm.trans h2) Bool.false_ne_true
      rw [List.dropWhile_cons_of_neg (p := pt.sameDistinct o) (by simp [hot])] at hpre
      refine List.Pairwise.cons (fun u hu => ?_) (pairwise_dropDuplicates pt hl (t, key) rest hc'
        (fun a ha b hb => hk a (List.mem_cons_of_mem _ ha) b (List.mem_cons_of_mem _ hb)))
      have hu' : u ∈ t :: rest.map (·.1) :=
        ((dropDuplicates_sublist pt rest _).cons₂ t).subset hu
      simpa using List.all_eq_true.mp hpre u hu'

/-! ### The ordered transition -/

/-- An ordered transition over what its sorter collected, under the set-up of
`build_pertrans_for_aggref` and the tuplesort's contract: the state is the fold
of the transition over `orderedInputs`, which are sorted tuples in sort order;
under DISTINCT they are one tuple per class of equal input tuples; and for a
one-input aggregate the one-datum path and the tuple path give the same
state. -/
theorem processOrderedAggregate_eq_fold {pt : AggStatePerTrans D} {ts : List (Tuple D)}
    (hset : OrderedSetup pt) (hsort : TuplesortContract pt ts)
    (hlen : ∀ t ∈ ts, t.length = pt.numInputs) (pg : AggStatePerGroup D) :
    processOrderedAggregate pt ts pg = (orderedInputs pt (pt.tuplesort ts)).foldl (orderedStep pt) pg ∧
      (orderedInputs pt (pt.tuplesort ts)).Sublist ((pt.tuplesort ts).map (·.1)) ∧
      (0 < pt.numDistinctCols →
        (orderedInputs pt (pt.tuplesort ts)).Pairwise (fun t u => pt.sameDistinct t u = false) ∧
        ∀ t ∈ ts, ∃ u ∈ orderedInputs pt (pt.tuplesort ts), pt.sameDistinct t u = true) ∧
      (pt.numInputs = 1 →
        processOrderedAggregateSingle pt (pt.tuplesort ts) none pg =
          processOrderedAggregateMulti pt (pt.tuplesort ts) none pg) := by
  have hmem : ∀ x ∈ pt.tuplesort ts, x.1 ∈ ts := fun x hx =>
    hsort.perm.subset (List.mem_map_of_mem _ hx)
  have hsingle : pt.numInputs = 1 →
      processOrderedAggregateSingle pt (pt.tuplesort ts) none pg =
        (orderedInputs pt (pt.tuplesort ts)).foldl (orderedStep pt) pg := fun h1 =>
    processOrderedAggregateSingle_eq_fold hset h1 (fun x hx => (hlen _ (hmem x hx)).trans h1)
      hsort.abbrevKeys pg
  refine ⟨?_, ?_, fun hd => ?_, fun h1 => (hsingle h1).trans
    (processOrderedAggregateMulti_eq_fold pt _ pg).symm⟩
  · unfold processOrderedAggregate
    split
    · exact hsingle ‹_›
    · exact processOrderedAggregateMulti_eq_fold pt _ pg
  · unfold orderedInputs
    split
    · exact dropDuplicates_sublist pt _ none
    · exact List.Sublist.refl _
  · rw [orderedInputs, if_pos hd]
    have hcover : ∀ t ∈ ts, ∃ u ∈ dropDuplicates pt (pt.tuplesort ts) none, pt.sameDistinct t u = true := by
      intro t ht
      obtain ⟨x, hx, rfl⟩ := List.mem_map.mp (hsort.perm.symm.subset ht)
      simpa using exists_kept pt hset.lawful _ none x hx
    have hadj := hsort.adjacent
    have hkeys := hsort.abbrevKeys
    refine ⟨?_, hcover⟩
    revert hadj hkeys
    cases pt.tuplesort ts with
    | nil => exact fun _ _ => List.Pairwise.nil
    | cons x L => exact pairwise_dropDuplicates pt hset.lawful x L

/-- The sorted input of `count(DISTINCT a)` over the rows 1, 1, 2. -/
def oneOneTwo : List (Tuple Nat) := [[⟨1, false⟩], [⟨1, false⟩], [⟨2, false⟩]]

theorem countDistinctTrans_orderedSetup : OrderedSetup countDistinctTrans where
  distinct := .inr rfl
  sortCols := rfl
  equalfns := le_rfl
  lawful := ⟨fun eq h a => by simp only [countDistinctTrans, List.mem_singleton] at h; simp [h],
    fun eq h a b hab => by simp only [countDistinctTrans, List.mem_singleton] at h; subst h; simp_all,
    fun eq h a b c hab hbc => by simp only [countDistinctTrans, List.mem_singleton] at h; subst h; simp_all⟩
  single := fun _ => rfl

/-- `count(DISTINCT a)` over 1, 1, 2: the transition runs over 1 and 2. -/
theorem countDistinct_processOrderedAggregate :
    OrderedSetup countDistinctTrans ∧ TuplesortContract countDistinctTrans oneOneTwo ∧
      (∀ t ∈ oneOneTwo, t.length = countDistinctTrans.numInputs) ∧
      (processOrderedAggregate countDistinctTrans oneOneTwo (initializeAggregate countDistinctTrans) =
          (orderedInputs countDistinctTrans (countDistinctTrans.tuplesort oneOneTwo)).foldl
            (orderedStep countDistinctTrans) (initializeAggregate countDistinctTrans) ∧
        (orderedInputs countDistinctTrans (countDistinctTrans.tuplesort oneOneTwo)).Sublist
          ((countDistinctTrans.tuplesort oneOneTwo).map (·.1)) ∧
        (0 < countDistinctTrans.numDistinctCols →
          (orderedInputs countDistinctTrans (countDistinctTrans.tuplesort oneOneTwo)).Pairwise
              (fun t u => countDistinctTrans.sameDistinct t u = false) ∧
            ∀ t ∈ oneOneTwo, ∃ u ∈ orderedInputs countDistinctTrans (countDistinctTrans.tuplesort oneOneTwo),
              countDistinctTrans.sameDistinct t u = true) ∧
        (countDistinctTrans.numInputs = 1 →
          processOrderedAggregateSingle countDistinctTrans (countDistinctTrans.tuplesort oneOneTwo) none
              (initializeAggregate countDistinctTrans) =
            processOrderedAggregateMulti countDistinctTrans (countDistinctTrans.tuplesort oneOneTwo) none
              (initializeAggregate countDistinctTrans))) :=
  have hsort : TuplesortContract countDistinctTrans oneOneTwo := ⟨by decide, by decide, by decide⟩
  ⟨countDistinctTrans_orderedSetup, hsort, by decide,
    processOrderedAggregate_eq_fold countDistinctTrans_orderedSetup hsort (by decide) _⟩

example : orderedInputs countDistinctTrans (countDistinctTrans.tuplesort oneOneTwo) =
    [[⟨1, false⟩], [⟨2, false⟩]] := by decide

end

end NodeAgg

import Mathlib.Data.List.Forall2
import NodeAgg.Classes
import NodeAgg.Group
import NodeAgg.Node
import NodeAgg.Scan

/-!
# The hash path computes one row per class of equal keys

A hashed grouping set's table, filled by `lookup_hash_entries` and
`advance_aggregates` (or `combine_aggregates`), holds one entry per class of
the rows read so far under the set's key equality (`AggStatePerHash.sameGroup`),
in the order the classes appeared, and each entry's states are the left fold of
the transition over the class's rows (`groupStates`).  Scanning the tables with
`agg_retrieve_hash_table` then returns one row per class and set, unless the
HAVING clause drops it.

The hypotheses are what the planner and the operator classes promise: the key
equality is an equivalence (`EqFunctionsLawful`), equal keys hash alike
(`AggStatePerHash.HashConsistent`), hashed aggregation has no DISTINCT / ORDER BY
transition, and COMBINE mode has one grouping set.  Tables are not hybrid.
-/

namespace NodeAgg

section

variable {D : Type} [Inhabited D]

/-! ## Groups of a hashed set -/

/-- Whether two input rows fall into one group of hashed set `ph`: their
compacted keys match (`TupleHashTableMatch`). -/
def AggStatePerHash.sameGroup (ph : AggStatePerHash D) (t1 t2 : Tuple D) : Bool :=
  ph.keysMatch (hashKeyOf ph t1) (hashKeyOf ph t2)

/-- Under the layout `find_hash_columns` builds (the compacted key starts with
the set's grouping columns `grpColIdx`, at positions `1 .. numCols`), two rows
fall into one group exactly when they are equal on the grouping columns under
the set's equality functions. -/
theorem AggStatePerHash.sameGroup_eq_execTuplesMatch {ph : AggStatePerHash D}
    (hhash : ph.hashGrpColIdxHash = (List.range ph.numCols).map (· + 1))
    (hin : ph.numCols ≤ ph.hashGrpColIdxInput.length) (t1 t2 : Tuple D) :
    ph.sameGroup t1 t2 = execTuplesMatch ph.eqfunctions (ph.hashGrpColIdxInput.take ph.numCols) ph.numCols t1 t2 := by
  unfold AggStatePerHash.sameGroup AggStatePerHash.keysMatch
  rw [execTuplesMatch_eq_all_range, execTuplesMatch_eq_all_range, hhash, List.length_map, List.length_range,
    List.length_take, min_eq_left hin]
  refine Bool.eq_iff_iff.mpr ?_
  simp only [List.all_eq_true]
  refine forall_congr' fun i => imp_congr_right fun hi => ?_
  have hi' : i < ph.numCols := lt_of_lt_of_le (List.mem_range.mp hi) (min_le_left _ _)
  have hiL : i < ph.hashGrpColIdxInput.length := lt_of_lt_of_le hi' hin
  simp [slotGetattr, hashKeyOf, List.getD_eq_getElem?_getD, hi', hiL]

/-- The contract of a hash operator class: keys that match hash alike. -/
def AggStatePerHash.HashConsistent (ph : AggStatePerHash D) : Prop :=
  ∀ k1 k2, ph.keysMatch k1 k2 = true → ph.hashfunc k1 = ph.hashfunc k2

theorem boolEquiv_sameGroup {ph : AggStatePerHash D} (hl : EqFunctionsLawful ph.eqfunctions) :
    BoolEquiv ph.sameGroup :=
  ⟨fun _ => execTuplesMatch_refl hl _ _ _, fun _ _ h => execTuplesMatch_symm hl h,
    fun _ _ _ h1 h2 => execTuplesMatch_trans hl h1 h2⟩

/-! ## The entries of a table -/

theorem findIdx?_congr {α : Type} {p q : α → Bool} :
    ∀ {l : List α}, (∀ x ∈ l, p x = q x) → l.findIdx? p = l.findIdx? q
  | [], _ => rfl
  | x :: l, h => by
    simp only [List.findIdx?_cons, List.findIdx?_start_succ, h x (.head _),
      findIdx?_congr fun y hy => h y (.tail _ hy)]

theorem map_modify {α β : Type} {g : α → β} {f : α → α} {h : β → β} :
    ∀ {l : List α} {i : Nat}, (∀ x ∈ l, h (g x) = g (f x)) → (l.map g).modify h i = (l.modify f i).map g
  | [], _, _ => by simp
  | x :: l, 0, hx => by simp [hx x (.head _)]
  | x :: l, i + 1, hx => by simp [map_modify fun y hy => hx y (.tail _ hy)]

theorem modify_length_append {α : Type} (f : α → α) (l : List α) (a : α) :
    (l ++ [a]).modify f l.length = l ++ [f a] := by
  induction l with
  | nil => rfl
  | cons b l ih => simp [ih]

/-- The entry a table holds for a class: the key of the class's first row, its
hash, and the class's states. -/
def classEntry (cfg : AggConfig D) (ph : AggStatePerHash D) (c : List (Tuple D)) : TupleHashEntry D :=
  ⟨hashKeyOf ph (c.headD []), groupStates cfg c, ph.hashfunc (hashKeyOf ph (c.headD []))⟩

/-- Probing a table of class entries finds the class the row belongs to. -/
theorem findEntry_classEntries (cfg : AggConfig D) {ph : AggStatePerHash D} (hcons : ph.HashConsistent)
    {cs : List (List (Tuple D))} (hne : ∀ c ∈ cs, c ≠ []) (t : Tuple D) :
    findEntry ph (cs.map (classEntry cfg ph)) (ph.hashfunc (hashKeyOf ph t)) (hashKeyOf ph t) =
      cs.findIdx? (inClass ph.sameGroup · t) := by
  rw [findEntry, List.findIdx?_map]
  refine findIdx?_congr fun c hc => ?_
  obtain ⟨h, rest, rfl⟩ := List.exists_cons_of_ne_nil (hne c hc)
  simp only [Function.comp, classEntry, List.headD_cons, inClass, List.head?_cons, Option.any_some,
    AggStatePerHash.sameGroup]
  cases hm : ph.keysMatch (hashKeyOf ph h) (hashKeyOf ph t)
  · simp
  · simp [hcons _ _ hm]

/-- `lookup_hash_entry` followed by the row's update of the entry found: on a
table of class entries, the table of the classes with the row added. -/
theorem lookupHashEntry_rowStep {cfg : AggConfig D} {ph : AggStatePerHash D} {ht : TupleHashTable D}
    {cs : List (List (Tuple D))} (hyb : ht.hybrid = false) (hcons : ph.HashConsistent)
    (hent : ht.entries = cs.map (classEntry cfg ph)) (hne : ∀ c ∈ cs, c ≠ []) (t : Tuple D) :
    ∃ i ht', lookupHashEntry cfg ph t ht = .ok (i, ht') ∧
      ht'.modifyAdditional i (rowStep cfg t) =
        { ht with entries := (classInsert ph.sameGroup t cs).map (classEntry cfg ph) } := by
  have hfind := findEntry_classEntries cfg hcons hne t
  rw [← hent] at hfind
  rw [classInsert_eq_findIdx]
  cases hfi : cs.findIdx? (inClass ph.sameGroup · t) with
  | none =>
    refine ⟨_, _, by simp [lookupHashEntry, lookupTupleHashEntry, insertWithKey, hfind, hfi,
      TupleHashTable.full, hyb]; rfl, ?_⟩
    simp only [TupleHashTable.modifyAdditional, TupleHashTable.setAdditional, hent,
      List.modify_modify_eq]
    rw [modify_length_append]
    have hnew : classEntry cfg ph [t] =
        ⟨hashKeyOf ph t, rowStep cfg t (initializeEntry cfg), ph.hashfunc (hashKeyOf ph t)⟩ := by
      have h1 := rowStep_groupStates cfg t []
      rw [List.nil_append] at h1
      simp only [classEntry, List.headD_cons, ← h1]; rfl
    simp [hnew, hyb]
  | some i =>
    refine ⟨i, ht, by simp [lookupHashEntry, lookupTupleHashEntry, insertWithKey, hfind, hfi]; rfl, ?_⟩
    simp only [TupleHashTable.modifyAdditional, hent]
    rw [map_modify (f := (· ++ [t]))]
    intro c hc
    obtain ⟨h, rest, rfl⟩ := List.exists_cons_of_ne_nil (hne c hc)
    simp [classEntry, rowStep_groupStates]

/-! ## Filling the tables -/

/-- What the planner and the operator classes promise of a hashed set: its key
equality is an equivalence and its hash agrees with it. -/
structure HashSetLawful (ph : AggStatePerHash D) : Prop where
  eqfunctions : EqFunctionsLawful ph.eqfunctions
  hash : ph.HashConsistent

/-- A non-hybrid, unspilled table holding the class entries of the rows read. -/
def HoldsClasses (cfg : AggConfig D) (xs : List (Tuple D)) (ph : AggStatePerHash D)
    (ht : TupleHashTable D) : Prop :=
  ht.hybrid = false ∧ ht.spilled = false ∧ ht.entries = (classesOf ph.sameGroup xs).map (classEntry cfg ph)

omit [Inhabited D] in
theorem classesOf_append_singleton (r : Tuple D → Tuple D → Bool) (xs : List (Tuple D)) (t : Tuple D) :
    classesOf r (xs ++ [t]) = classInsert r t (classesOf r xs) := by
  simp [classesOf, List.foldl_append]

theorem holdsClasses_step {cfg : AggConfig D} {xs : List (Tuple D)} {ph : AggStatePerHash D}
    {ht : TupleHashTable D} (hl : HashSetLawful ph) (h : HoldsClasses cfg xs ph ht) (t : Tuple D) :
    ∃ i ht', lookupHashEntry cfg ph t ht = .ok (i, ht') ∧
      HoldsClasses cfg (xs ++ [t]) ph (ht'.modifyAdditional i (rowStep cfg t)) := by
  obtain ⟨hyb, hsp, hent⟩ := h
  have hinv := classesInv_classesOf (boolEquiv_sameGroup hl.eqfunctions) xs
  have hne : ∀ c ∈ classesOf ph.sameGroup xs, c ≠ [] := by
    intro c hc hnil
    obtain ⟨h, hh, -⟩ := hinv.filter_eq c hc
    simp [hnil] at hh
  obtain ⟨i, ht', hlook, hmod⟩ := lookupHashEntry_rowStep hyb hl.hash hent hne t
  refine ⟨i, ht', hlook, ?_⟩
  rw [hmod]
  exact ⟨hyb, hsp, by rw [classesOf_append_singleton]⟩

theorem mapM_lookupHashEntry_rowStep {cfg : AggConfig D} {xs : List (Tuple D)} (t : Tuple D) :
    ∀ {phs : List (AggStatePerHash D)} {tables : List (TupleHashTable D)},
      (∀ ph ∈ phs, HashSetLawful ph) → List.Forall₂ (HoldsClasses cfg xs) phs tables →
      ∃ rs, (phs.zip tables).mapM (fun p => lookupHashEntry cfg p.1 t p.2) = .ok rs ∧
        List.Forall₂ (HoldsClasses cfg (xs ++ [t])) phs
          (advanceEntries (rowStep cfg t) (rs.map (·.2)) (rs.map (·.1)))
  | [], [], _, .nil => ⟨[], rfl, .nil⟩
  | ph :: phs, ht :: tables, hl, .cons h hrest => by
    obtain ⟨i, ht', hlook, hholds⟩ := holdsClasses_step (hl ph (.head _)) h t
    obtain ⟨rs, hrs, hall⟩ := mapM_lookupHashEntry_rowStep t (fun p hp => hl p (.tail _ hp)) hrest
    exact ⟨(i, ht') :: rs, by rw [List.zip_cons_cons, List.mapM_cons, hlook, hrs]; rfl,
      .cons hholds hall⟩

theorem mapM_ok_map {α β ε : Type} {f : α → Except ε β} {g : α → β} :
    ∀ {l : List α}, (∀ x ∈ l, f x = .ok (g x)) → l.mapM f = .ok (l.map g)
  | [], _ => rfl
  | x :: l, h => by
    rw [List.mapM_cons, h x (.head _), mapM_ok_map fun y hy => h y (.tail _ hy)]; rfl

/-- With no table spilled, `dump_hashtable_if_spilled` does nothing. -/
theorem dumpHashtableIfSpilled_of_unspilled {cfg : AggConfig D} {s : AggState D}
    (hsp : ∀ ht ∈ s.hashtables, ht.spilled = false) (hlen : s.hashtables.length = cfg.perhash.length)
    (hlen' : s.hashiters.length = cfg.perhash.length) : dumpHashtableIfSpilled cfg s = .ok s := by
  unfold dumpHashtableIfSpilled
  rw [mapM_ok_map (g := fun p => (p.1.2, p.2))]
  · have hA : ((cfg.perhash.zip s.hashtables).zip s.hashiters).map (fun p => p.1.2) = s.hashtables := by
      rw [show (fun p : (AggStatePerHash D × TupleHashTable D) × Nat => p.1.2) = Prod.snd ∘ Prod.fst
        from rfl, ← List.map_map, List.map_fst_zip _ _ (by simp [hlen, hlen']),
        List.map_snd_zip _ _ (by simp [hlen])]
    have hB : ((cfg.perhash.zip s.hashtables).zip s.hashiters).map (fun p => p.2) = s.hashiters :=
      List.map_snd_zip _ _ (by simp [hlen, hlen'])
    dsimp only [bind, Except.bind, pure, Except.pure]
    simp only [List.map_map, Function.comp_def, hA, hB]
  · rintro ⟨⟨ph, ht⟩, it⟩ hx
    simp [hsp ht (List.of_mem_zip (List.of_mem_zip hx).1).2]
    rfl

/-- `lookup_hash_entries` on tables of classes: the entries found, whose update
by the row gives the tables of the classes with the row added. -/
theorem lookupHashEntries_classes {cfg : AggConfig D} {xs : List (Tuple D)}
    {tables : List (TupleHashTable D)} (hl : ∀ ph ∈ cfg.perhash, HashSetLawful ph)
    (h : List.Forall₂ (HoldsClasses cfg xs) cfg.perhash tables) (t : Tuple D) :
    ∃ es tables', lookupHashEntries cfg t tables = .ok (es, tables') ∧ es.length = tables'.length ∧
      List.Forall₂ (HoldsClasses cfg (xs ++ [t])) cfg.perhash (advanceEntries (rowStep cfg t) tables' es) := by
  obtain ⟨rs, hrs, hall⟩ := mapM_lookupHashEntry_rowStep t hl h
  refine ⟨rs.map (·.1), rs.map (·.2), ?_, by simp, hall⟩
  rw [lookupHashEntries, hrs]; rfl

omit [Inhabited D] in
theorem length_advanceEntries (f : List (AggStatePerGroup D) → List (AggStatePerGroup D)) :
    ∀ (tables : List (TupleHashTable D)) (es : List Nat), (advanceEntries f tables es).length = tables.length
  | _ :: tables, _ :: es => by simp [advanceEntries, length_advanceEntries f tables es]
  | [], _ | _ :: _, [] => rfl

/-- With one grouping set, COMBINE mode updates the one entry found. -/
theorem combineHashed_eq_advanceEntries (cfg : AggConfig D) (t : Tuple D) :
    ∀ {tables : List (TupleHashTable D)} {es : List Nat}, tables.length ≤ 1 → es.length = tables.length →
      combineHashed cfg t tables (es.headD 0) = advanceEntries (combineAggregates cfg t) tables es
  | [], [], _, _ => rfl
  | [_], [_], _, _ => rfl
  | _ :: _ :: _, _, h, _ => absurd h (by simp)

/-- `advance_aggregates` on the hashed path with no DISTINCT / ORDER BY
transition: only the entries found change. -/
theorem advanceAggregates_hashed {cfg : AggConfig D} (hsort : ∀ pt ∈ cfg.pertrans, pt.numSortCols = 0)
    (s : AggState D) (t : Tuple D) (es : List Nat) :
    advanceAggregates cfg s t false (some es) =
      { s with hashtables := advanceEntries (advanceGroupStates cfg t) s.hashtables es } := by
  rw [advanceAggregates, mapIdx_withTrans_id]
  · rfl
  · intro _ pt hpt sts
    simp [sortAccepts, hsort pt hpt]

/-! ## Filling the tables -/

omit [Inhabited D] in
theorem fetchInputTuple_of_outer_nil {s : AggState D} (hin : s.sortIn = none) (h : s.outer = []) :
    fetchInputTuple s = (none, s) := by
  simp [fetchInputTuple, hin, h]

omit [Inhabited D] in
theorem fetchInputTuple_of_outer_cons {s : AggState D} {t : Tuple D} {rest : List (Tuple D)}
    (hin : s.sortIn = none) (h : s.outer = t :: rest) :
    fetchInputTuple s = (some t, { s with outer := rest }.putSortOut t) := by
  simp [fetchInputTuple, hin, h]

omit [Inhabited D] in
theorem putSortOut_of_none {s : AggState D} (h : s.sortOut = none) (t : Tuple D) : s.putSortOut t = s := by
  cases s
  simp only [AggState.putSortOut] at h ⊢
  subst h
  rfl

theorem holdsClasses_unspilled {xs : List (Tuple D)} :
    ∀ {phs : List (AggStatePerHash D)} {tables : List (TupleHashTable D)},
      List.Forall₂ (HoldsClasses cfg xs) phs tables → ∀ ht ∈ tables, ht.spilled = false
  | _, _, .nil => by simp
  | _, _, .cons h hrest => by
    intro ht hht
    rcases List.mem_cons.mp hht with rfl | hht
    · exact h.2.1
    · exact holdsClasses_unspilled hrest ht hht

section Fill

variable {cfg : AggConfig D} (hl : ∀ ph ∈ cfg.perhash, HashSetLawful ph)
  (hsort : ∀ pt ∈ cfg.pertrans, pt.numSortCols = 0)
  (hcomb : cfg.aggsplit.combine = true → cfg.perhash.length ≤ 1)
include hl hsort hcomb

/-- One pass of the fill loop over a row: the tables hold the classes with the
row added. -/
theorem fillHashTableLoop_step {s : AggState D} {xs : List (Tuple D)} {t : Tuple D}
    {rest : List (Tuple D)} (hin : s.sortIn = none) (hout : s.sortOut = none) (h : s.outer = t :: rest)
    (hh : List.Forall₂ (HoldsClasses cfg xs) cfg.perhash s.hashtables) (fuel : Nat) :
    ∃ tables, fillHashTableLoop cfg (fuel + 1) s =
        fillHashTableLoop cfg fuel { s with outer := rest, tmpOuterTuple := some t, hashtables := tables } ∧
      List.Forall₂ (HoldsClasses cfg (xs ++ [t])) cfg.perhash tables := by
  obtain ⟨es, tables', hlook, hlen, hall⟩ := lookupHashEntries_classes hl hh t
  refine ⟨_, ?_, hall⟩
  rw [fillHashTableLoop, fetchInputTuple_of_outer_cons hin h, putSortOut_of_none (s := { s with outer := rest }) hout]
  simp only [hlook, bind, Except.bind]
  congr 1
  cases hc : cfg.aggsplit.combine
  · simp only [Bool.false_eq_true, if_false, advanceAggregates_hashed hsort, rowStep_of_not_combine hc]
  · have hle : tables'.length ≤ 1 := by
      rw [← length_advanceEntries (rowStep cfg t) tables' es, ← hall.length_eq]; exact hcomb hc
    simp only [if_true, combineHashed_eq_advanceEntries cfg t hle hlen, rowStep_of_combine hc]

/-- The fill loop reads the whole input: the tables then hold the classes of
all of it. -/
theorem fillHashTableLoop_classes :
    ∀ (fuel : Nat) (s : AggState D) (xs : List (Tuple D)), s.sortIn = none → s.sortOut = none →
      s.outer.length < fuel → s.hashiters.length = cfg.perhash.length →
      List.Forall₂ (HoldsClasses cfg xs) cfg.perhash s.hashtables →
      ∃ tables tmp, fillHashTableLoop cfg fuel s =
          .ok { s with outer := [], tmpOuterTuple := tmp, hashtables := tables } ∧
        List.Forall₂ (HoldsClasses cfg (xs ++ s.outer)) cfg.perhash tables
  | 0, _, _, _, _, hf, _, _ => absurd hf (Nat.not_lt_zero _)
  | fuel + 1, s, xs, hin, hout, hf, hit, hh => by
    cases ho : s.outer with
    | nil =>
      refine ⟨s.hashtables, s.tmpOuterTuple, ?_, by simpa using hh⟩
      have hdump := dumpHashtableIfSpilled_of_unspilled (holdsClasses_unspilled hh)
        hh.length_eq.symm hit
      rw [fillHashTableLoop, fetchInputTuple_of_outer_nil hin ho, ← ho]
      dsimp only
      split
      · exact hdump
      · rfl
    | cons t rest =>
      obtain ⟨tables, heq, hall⟩ := fillHashTableLoop_step hl hsort hcomb hin hout ho hh fuel
      obtain ⟨T, tmp, hrun, hT⟩ := fillHashTableLoop_classes fuel
        { s with outer := rest, tmpOuterTuple := some t, hashtables := tables } (xs ++ [t]) hin hout
        (by simp only [ho, List.length_cons] at hf; show rest.length < fuel; omega) hit hall
      exact ⟨T, tmp, heq.trans hrun, by simpa using hT⟩

/-- `agg_fill_hash_table` from empty tables: the tables hold the classes of the
whole input, the scan starts at the first set. -/
theorem aggFillHashTable_classes {s : AggState D} (hin : s.sortIn = none) (hout : s.sortOut = none)
    (hit : s.hashiters.length = cfg.perhash.length)
    (hh : List.Forall₂ (HoldsClasses cfg []) cfg.perhash s.hashtables) :
    ∃ tables tmp, aggFillHashTable cfg s =
        .ok { s with outer := [], tmpOuterTuple := tmp, hashtables := tables, tableFilled := true,
                     currentSet := 0, hashiters := s.hashiters.set 0 0 } ∧
      List.Forall₂ (HoldsClasses cfg s.outer) cfg.perhash tables := by
  obtain ⟨T, tmp, hrun, hT⟩ := fillHashTableLoop_classes hl hsort hcomb
    (s.inputRemaining.length + 1) s [] hin hout (by simp [AggState.inputRemaining, hin]) hit hh
  refine ⟨T, tmp, ?_, by simpa using hT⟩
  have h0 : (T.getD 0 .empty).spilled = false := by
    cases T with
    | nil => rfl
    | cons ht T => exact holdsClasses_unspilled hT ht (.head _)
  rw [aggFillHashTable, hrun]
  simp only [bind, Except.bind, pure, Except.pure, h0]
  rfl

end Fill

/-! ## Reading the tables back -/

/-- The row `agg_retrieve_hash_table` returns for a class of set `setno`,
unless HAVING drops it: the key put back at its input columns, the class's
states, and the aggregates' values. -/
def hashGroupRow (cfg : AggConfig D) (setno : Nat) (ph : AggStatePerHash D) (c : List (Tuple D)) :
    AggOutput D :=
  let rep := (prepareProjectionSlot cfg (cfg.phase 0)
    (some (expandHashKey cfg ph (hashKeyOf ph (c.headD [])))) setno).getD (allNullTuple cfg.natts)
  let pgs := cfg.pertrans.map (transFold cfg · c)
  ⟨0, setno, rep, pgs, aggValues cfg rep pgs⟩

/-- The rows of hashed set `setno` over the input `xs`: one per class of equal
keys, in the order the classes appeared, unless HAVING drops it. -/
def hashSetRows (cfg : AggConfig D) (xs : List (Tuple D)) (setno : Nat) : List (AggOutput D) :=
  let ph := cfg.perhash.getD setno default
  (classesOf ph.sameGroup xs).filterMap fun c => projectAggregates cfg (hashGroupRow cfg setno ph c)

/-- The rows of all hashed sets, set by set. -/
def hashedRows (cfg : AggConfig D) (xs : List (Tuple D)) : List (AggOutput D) :=
  (List.range cfg.perhash.length).flatMap (hashSetRows cfg xs)

theorem forall₂_getD {α β : Type} {R : α → β → Prop} {a : α} {b : β} {l1 : List α} {l2 : List β}
    (h : List.Forall₂ R l1 l2) : ∀ {k : Nat}, k < l1.length → R (l1.getD k a) (l2.getD k b) := by
  induction h with
  | nil => intro k hk; simp at hk
  | cons hab _ ih =>
    intro k hk
    cases k with
    | zero => exact hab
    | succ k => exact ih (by simpa using hk)

theorem modify_of_fixed {α : Type} {f : α → α} {l : List α} :
    ∀ {i : Nat}, (∀ x, l.get? i = some x → f x = x) → l.modify f i = l := by
  induction l with
  | nil => intro i _; exact List.modify_nil f _
  | cons x l ih =>
    intro i h
    cases i with
    | zero => simp [h x rfl]
    | succ i => simp [ih fun y hy => h y hy]

omit [Inhabited D] in
theorem setAdditional_of_get? {t : TupleHashTable D} {i : Nat} {e : TupleHashEntry D}
    (he : t.entries.get? i = some e) : t.setAdditional i e.additional = t := by
  unfold TupleHashTable.setAdditional
  rw [modify_of_fixed fun x hx => by rw [he] at hx; cases hx; rfl]

theorem finalizeOrdered_of_unsorted {cfg : AggConfig D} (hsort : ∀ pt ∈ cfg.pertrans, pt.numSortCols = 0)
    (ss : List (List (Option (List (Tuple D))))) (setno : Nat) (pgs : List (AggStatePerGroup D)) :
    finalizeOrdered cfg ss setno pgs = pgs := by
  unfold finalizeOrdered
  refine mapIdx_withTrans_id cfg (fun _ pt hpt pg => ?_) pgs
  simp [hsort pt hpt]

/-- `finalize_aggregates` with no DISTINCT / ORDER BY transition: the states as
they are, the sorters untouched. -/
theorem finalizeAggregates_of_unsorted {cfg : AggConfig D} (hsort : ∀ pt ∈ cfg.pertrans, pt.numSortCols = 0)
    (ss : List (List (Option (List (Tuple D))))) (setno : Nat) (rep : Tuple D)
    (pgs : List (AggStatePerGroup D)) :
    finalizeAggregates cfg ss setno rep pgs = (pgs, ss, aggValues cfg rep pgs) := by
  simp only [finalizeAggregates, finalizeOrdered_of_unsorted hsort]
  rw [mapIdx_withTrans_id cfg (fun _ pt hpt sts => ?_)]
  simp [hsort pt hpt]

/-- Where the scan of the tables is: set `k`, entry `it`, on tables holding the
classes of `xs`, in phase 0. -/
structure HashScanAt (cfg : AggConfig D) (xs : List (Tuple D)) (s : AggState D) (k it : Nat) : Prop where
  call : HashCall cfg s
  notDone : s.aggDone = false
  phase : s.currentPhase = 0
  set : s.currentSet = k
  set_lt : k < cfg.perhash.length
  iters : s.hashiters.length = cfg.perhash.length
  iter : s.hashiters.getD k 0 = it
  tables : List.Forall₂ (HoldsClasses cfg xs) cfg.perhash s.hashtables

section Scan

variable {cfg : AggConfig D} {xs : List (Tuple D)}

/-- A pass of `agg_retrieve_hash_table` at an entry: the class's row (or none
when HAVING drops it), the iterator one further. -/
theorem retrieveHashStep_entry (hsort : ∀ pt ∈ cfg.pertrans, pt.numSortCols = 0) {s : AggState D}
    {k it : Nat} (h : HashScanAt cfg xs s k it) {c : List (Tuple D)}
    (hc : (classesOf (cfg.perhash.getD k default).sameGroup xs)[it]? = some c) :
    let ph := cfg.perhash.getD k default
    let s' := { s with hashiters := s.hashiters.set k (it + 1),
                       firstSlot := prepareProjectionSlot cfg (cfg.phase 0)
                         (some (expandHashKey cfg ph (hashKeyOf ph (c.headD [])))) k }
    retrieveHashStep cfg s =
      .ok (match projectAggregates cfg (hashGroupRow cfg k ph c) with
        | some o => .emit o s'
        | none => .next s') := by
  obtain ⟨-, -, hent⟩ := forall₂_getD (a := default) (b := .empty) h.tables h.set_lt
  have he : (s.hashtables.getD k .empty).entries.get? it = some (classEntry cfg (cfg.perhash.getD k default) c) := by
    rw [hent, List.get?_eq_getElem?, List.getElem?_map, hc]; rfl
  have hmod : s.hashtables.modify
      (fun x => x.setAdditional it (classEntry cfg (cfg.perhash.getD k default) c).additional) k =
      s.hashtables := by
    refine modify_of_fixed fun x hx => setAdditional_of_get? ?_
    rw [List.getD_eq_getElem?_getD, ← List.get?_eq_getElem?, hx] at he
    exact he
  unfold retrieveHashStep
  simp only [h.set, h.iter, he, projectGroup, finalizeAggregates_of_unsorted hsort, h.phase, hmod]
  simp only [classEntry, hashGroupRow, groupStates_eq_transFold hsort]
  rfl

/-- A pass of `agg_retrieve_hash_table` past the last entry of a non-hybrid
table: the next set, or the end. -/
theorem retrieveHashStep_end {s : AggState D} {k it : Nat} (h : HashScanAt cfg xs s k it)
    (hit : (classesOf (cfg.perhash.getD k default).sameGroup xs).length ≤ it) :
    retrieveHashStep cfg s =
      .ok (if k + 1 < cfg.perhash.length
        then .next { s with currentSet := k + 1, hashiters := s.hashiters.set (k + 1) 0 }
        else .done { s with aggDone := true }) := by
  obtain ⟨hyb, -, hent⟩ := forall₂_getD (a := default) (b := .empty) h.tables h.set_lt
  have he : (s.hashtables.getD k .empty).entries.get? it = none := by
    rw [hent, List.get?_eq_getElem?, List.getElem?_map, List.getElem?_eq_none hit]; rfl
  unfold retrieveHashStep
  simp only [h.set, h.iter, he, hyb, Bool.false_eq_true, if_false, Bool.not_true]
  split <;> rfl

/-- What is left of the scan of the tables from set `k`, entry `it`. -/
def hashRowsFrom (cfg : AggConfig D) (xs : List (Tuple D)) (k it : Nat) : List (AggOutput D) :=
  let ph := cfg.perhash.getD k default
  ((classesOf ph.sameGroup xs).drop it).filterMap (fun c => projectAggregates cfg (hashGroupRow cfg k ph c)) ++
    (List.range' (k + 1) (cfg.perhash.length - (k + 1))).flatMap (hashSetRows cfg xs)

theorem hashRowsFrom_zero (k : Nat) (hk : k + 1 < cfg.perhash.length) :
    hashRowsFrom cfg xs (k + 1) 0 =
      (List.range' (k + 1) (cfg.perhash.length - (k + 1))).flatMap (hashSetRows cfg xs) := by
  rw [hashRowsFrom]
  obtain ⟨m, hm⟩ := Nat.exists_eq_add_of_lt hk
  rw [hm, show k + 1 + m + 1 - (k + 1) = m + 1 by omega, show k + 1 + m + 1 - (k + 1 + 1) = m by omega,
    List.range'_succ, List.flatMap_cons, List.drop_zero]
  rfl

/-- The rows left from entry `it` of set `k`: that entry's row, then the rest. -/
theorem hashRowsFrom_succ {k it : Nat} {c : List (Tuple D)}
    (hc : (classesOf (cfg.perhash.getD k default).sameGroup xs)[it]? = some c) :
    hashRowsFrom cfg xs k it =
      (projectAggregates cfg (hashGroupRow cfg k (cfg.perhash.getD k default) c)).toList ++
        hashRowsFrom cfg xs k (it + 1) := by
  obtain ⟨hlt, rfl⟩ := List.getElem?_eq_some_iff.mp hc
  rw [hashRowsFrom, hashRowsFrom, List.drop_eq_getElem_cons hlt, List.filterMap_cons]
  cases projectAggregates cfg _ <;> rfl

/-- The scan of the tables from set `k`, entry `it` returns the rest of the
entries of set `k`, then the rows of the later sets. -/
theorem scanTo_hashRowsFrom (hsort : ∀ pt ∈ cfg.pertrans, pt.numSortCols = 0) :
    ∀ (d k it : Nat) (s : AggState D), cfg.perhash.length - k = d → HashScanAt cfg xs s k it →
      ∃ sf, ScanTo cfg s (hashRowsFrom cfg xs k it) sf := by
  intro d
  induction d with
  | zero => intro k it s hd h; exact absurd h.set_lt (by omega)
  | succ d ihd =>
    intro k it s hd h
    -- the entries of set `k` from `it` on
    suffices ∀ m it (s : AggState D), (classesOf (cfg.perhash.getD k default).sameGroup xs).length - it = m →
        HashScanAt cfg xs s k it → ∃ sf, ScanTo cfg s (hashRowsFrom cfg xs k it) sf from this _ it s rfl h
    intro m
    induction m with
    | zero =>
      intro it s hm h
      have hend := retrieveHashStep_end h (by omega)
      have hdrop : (classesOf (cfg.perhash.getD k default).sameGroup xs).drop it = [] :=
        List.drop_eq_nil_of_le (by omega)
      by_cases hk : k + 1 < cfg.perhash.length
      · rw [if_pos hk] at hend
        have h' : HashScanAt cfg xs
            { s with currentSet := k + 1, hashiters := s.hashiters.set (k + 1) 0 } (k + 1) 0 :=
          ⟨by rcases h.call with hc | hc | hc <;> simp_all [HashCall], h.notDone, h.phase, rfl, hk,
            by simp [h.iters], by simp [List.getD_eq_getElem?_getD, h.iters, hk], h.tables⟩
        obtain ⟨sf, hsf⟩ := ihd (k + 1) 0 _ (by omega) h'
        refine ⟨sf, scanTo_hash_next h.call h'.call h.notDone hend ?_⟩
        rw [hashRowsFrom, hdrop, List.filterMap_nil, List.nil_append, ← hashRowsFrom_zero k hk]
        exact hsf
      · rw [if_neg hk] at hend
        refine ⟨{ s with aggDone := true }, ?_⟩
        rw [hashRowsFrom, hdrop, show cfg.perhash.length - (k + 1) = 0 by omega]
        exact scanTo_hash_done h.call h.notDone hend
    | succ m ihm =>
      intro it s hm h
      obtain ⟨c, hc⟩ : ∃ c, (classesOf (cfg.perhash.getD k default).sameGroup xs)[it]? = some c :=
        ⟨_, List.getElem?_eq_getElem (by omega)⟩
      have hstep := retrieveHashStep_entry hsort h hc
      dsimp only at hstep
      have h' : HashScanAt cfg xs
          { s with hashiters := s.hashiters.set k (it + 1),
                   firstSlot := prepareProjectionSlot cfg (cfg.phase 0)
                     (some (expandHashKey cfg (cfg.perhash.getD k default)
                       (hashKeyOf (cfg.perhash.getD k default) (c.headD [])))) k } k (it + 1) :=
        ⟨by rcases h.call with hc | hc | hc <;> simp_all [HashCall], h.notDone, h.phase, h.set, h.set_lt,
          by simp [h.iters], by simp [List.getD_eq_getElem?_getD, h.iters, h.set_lt], h.tables⟩
      obtain ⟨sf, hsf⟩ := ihm (it + 1) _ (by omega) h'
      refine ⟨sf, ?_⟩
      rw [hashRowsFrom_succ hc]
      cases ho : projectAggregates cfg (hashGroupRow cfg k (cfg.perhash.getD k default) c) with
      | none =>
        rw [ho] at hstep
        exact scanTo_hash_next h.call h'.call h.notDone hstep hsf
      | some o =>
        rw [ho] at hstep
        exact scanTo_hash_emit h.call h.notDone hstep hsf



theorem hashRowsFrom_zero_zero (hn : 0 < cfg.perhash.length) : hashRowsFrom cfg xs 0 0 = hashedRows cfg xs := by
  obtain ⟨m, hm⟩ := Nat.exists_eq_add_of_lt hn
  rw [hashRowsFrom, hashedRows, hm, List.range_eq_range', List.range'_succ, List.flatMap_cons,
    List.drop_zero, show 0 + m + 1 - (0 + 1) = m by omega]
  simp only [Nat.zero_add]
  rfl

/-- An AGG_HASHED node on non-hybrid tables returns, set by set, one row per
class of equal keys of its input, each with the states of the class's rows. -/
theorem scanTo_hashed {cfg : AggConfig D} {outer : List (Tuple D)} {tables : List (TupleHashTable D)}
    (hstrat : cfg.aggstrategy = .hashed) (hphase : (cfg.phase 0).aggstrategy = .hashed)
    (hn : 0 < cfg.perhash.length) (hl : ∀ ph ∈ cfg.perhash, HashSetLawful ph)
    (hsort : ∀ pt ∈ cfg.pertrans, pt.numSortCols = 0)
    (hcomb : cfg.aggsplit.combine = true → cfg.perhash.length ≤ 1)
    (htab : List.Forall₂ (HoldsClasses cfg []) cfg.perhash tables) :
    ∃ sf, ScanTo cfg (AggState.initial cfg outer tables) (hashedRows cfg outer) sf := by
  set s0 := AggState.initial cfg outer tables with hs0
  have hin : s0.sortIn = none := by simp [hs0, AggState.initial, initializePhase, hstrat]
  have hout : s0.sortOut = none := by simp [hs0, AggState.initial, initializePhase, hstrat]
  have hit : s0.hashiters.length = cfg.perhash.length := by
    simp [hs0, AggState.initial, initializePhase, htab.length_eq]
  obtain ⟨T, tmp, hfill, hT⟩ := aggFillHashTable_classes hl hsort hcomb hin hout hit (by simpa [hs0,
    AggState.initial, initializePhase] using htab)
  have hph0 : s0.currentPhase = 0 := by simp [hs0, AggState.initial, initializePhase, hstrat]
  have h1 : HashScanAt cfg outer
      { s0 with outer := [], tmpOuterTuple := tmp, hashtables := T, tableFilled := true,
                currentSet := 0, hashiters := s0.hashiters.set 0 0 } 0 0 :=
    ⟨.inr (.inr ⟨by simp [hph0, hphase], rfl⟩), by simp [hs0, AggState.initial, initializePhase],
      hph0, rfl, hn, by simp [hit], by simp [List.getD_eq_getElem?_getD, hit, hn],
      by simpa [hs0, AggState.initial, initializePhase] using hT⟩
  obtain ⟨sf, hsf⟩ := scanTo_hashRowsFrom hsort _ 0 0 _ rfl h1
  refine ⟨sf, scanTo_of_execAgg_eq_succ (fun f => ?_) (hashRowsFrom_zero_zero hn ▸ hsf)⟩
  have hd0 : s0.aggDone = false := rfl
  have hf0 : s0.tableFilled = false := rfl
  rw [execAgg_of_hashCall h1.call, execAgg, if_neg (by simp [hd0]), hph0, hphase]
  simp only [hf0, Bool.false_eq_true, if_false, hfill, bind, Except.bind]
  rw [hph0]
end Scan

end

end NodeAgg

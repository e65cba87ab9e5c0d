import NodeAgg.HashAgg
import NodeAgg.Rollup

/-!
# The sorted path computes the rollup of each phase

`agg_retrieve_direct` against `phaseGroups`: over each sorted phase the node
returns the rows of `rollup`, phase after phase, and an AGG_MIXED node then
returns the rows of its hash tables, which phase 1 filled.

The proof follows the loop.  One pass of the `while` loop either starts a new
group (it reads the group's rows through `advance_aggregates` and returns the
finest set's row) or returns the row of a coarser set whose run ended with the
group.  `run_rollup` is the induction on the set: the passes over a run of set
`k` return `rollup k` of the run, from any state where the next pass starts a
group with the sets up to `k` to be reset.  The states of the sets the run sits
in grow by its rows meanwhile (`SetsHold`).

What a row's aggregation does is said once, in `advanceRow_spec`; the other
lemmas never unfold it.
-/

namespace NodeAgg

section

variable {D : Type} [Inhabited D]

/-! ## Reading the input -/

namespace AggState

/-- The state after `fetch_input_tuple` took the next tuple of the input sorter
or of the outer plan. -/
def consume (s : AggState D) : AggState D :=
  { s with sortIn := s.sortIn.map List.tail,
           outer := if s.sortIn.isSome then s.outer else s.outer.tail }

/-- The input tuples not yet aggregated: the first tuple of the next group,
already read, then the input. -/
def pending (s : AggState D) : List (Tuple D) := s.grpFirstTuple.toList ++ s.inputRemaining

end AggState

omit [Inhabited D] in
theorem inputRemaining_consume (s : AggState D) : s.consume.inputRemaining = s.inputRemaining.tail := by
  cases h : s.sortIn <;> simp [AggState.consume, AggState.inputRemaining, h]

omit [Inhabited D] in
theorem fetchInputTuple_eq (s : AggState D) :
    fetchInputTuple s = match s.inputRemaining with
      | [] => (none, s)
      | t :: _ => (some t, s.consume.putSortOut t) := by
  unfold fetchInputTuple AggState.inputRemaining AggState.consume
  rcases h : s.sortIn with _ | ⟨_ | ⟨t, rest⟩⟩
  · rcases ho : s.outer with _ | ⟨t, rest⟩ <;> simp [h, ho]
  · rfl
  · rfl

omit [Inhabited D] in
theorem fetchInputTuple_nil {s : AggState D} (h : s.inputRemaining = []) : fetchInputTuple s = (none, s) := by
  rw [fetchInputTuple_eq, h]

omit [Inhabited D] in
theorem fetchInputTuple_cons {s : AggState D} {t : Tuple D} {rest : List (Tuple D)}
    (h : s.inputRemaining = t :: rest) : fetchInputTuple s = (some t, s.consume.putSortOut t) := by
  rw [fetchInputTuple_eq, h]

/-- What a phase's output sorter holds after it read the rows `read`: they all
go to the next phase's sort, except in the last phase. -/
def sortOutOf (cfg : AggConfig D) (p : Nat) (read : List (Tuple D)) : Option (List (Tuple D)) :=
  if 0 < p ∧ p < cfg.numphases - 1 then some read else none

omit [Inhabited D] in
theorem sortOutOf_append (cfg : AggConfig D) (p : Nat) (read : List (Tuple D)) (t : Tuple D) :
    (sortOutOf cfg p read).map (· ++ [t]) = sortOutOf cfg p (read ++ [t]) := by
  unfold sortOutOf; split <;> rfl

/-- Whether the rows of phase `p` are fed to the hash tables: phase 1 of an
AGG_MIXED node. -/
def feeds (cfg : AggConfig D) (p : Nat) : Bool := cfg.aggstrategy = .mixed ∧ p = 1

/-- The rows the hash tables hold after phase `p` fed them `X` more. -/
def feedAfter (cfg : AggConfig D) (p : Nat) (fed X : List (Tuple D)) : List (Tuple D) :=
  if feeds cfg p then fed ++ X else fed

omit [Inhabited D] in
theorem feedAfter_append (cfg : AggConfig D) (p : Nat) (fed X Y : List (Tuple D)) :
    feedAfter cfg p (feedAfter cfg p fed X) Y = feedAfter cfg p fed (X ++ Y) := by
  unfold feedAfter; split <;> simp

omit [Inhabited D] in
theorem feedAfter_nil (cfg : AggConfig D) (p : Nat) (fed : List (Tuple D)) : feedAfter cfg p fed [] = fed := by
  unfold feedAfter; split <;> simp

/-! ## The invariant of a phase -/

/-- The per-set arrays of the node in phase `p`: one per set, one sorter per
transition and set. -/
structure PhaseShape (cfg : AggConfig D) (p : Nat) (s : AggState D) : Prop where
  phase : s.currentPhase = p
  pergroup_length : s.pergroup.length = cfg.maxsets
  sortstates_length : s.sortstates.length = cfg.numtrans
  sorters_length : ∀ l ∈ s.sortstates, l.length = cfg.maxsets

/-- What holds of the node's state throughout sorted phase `p`: the per-set
arrays keep their sizes and the hash tables hold the classes of the rows
`fed`. -/
structure InPhase (cfg : AggConfig D) (p : Nat) (fed : List (Tuple D)) (s : AggState D)
    extends PhaseShape cfg p s : Prop where
  tables : List.Forall₂ (HoldsClasses cfg fed) cfg.perhash s.hashtables
  iters : s.hashiters.length = cfg.perhash.length

theorem InPhase.update {cfg : AggConfig D} {p : Nat} {fed : List (Tuple D)} {s t : AggState D}
    (h : InPhase cfg p fed s) (hph : t.currentPhase = s.currentPhase) (hpg : t.pergroup = s.pergroup)
    (hss : t.sortstates = s.sortstates) (ht : t.hashtables = s.hashtables)
    (hi : t.hashiters = s.hashiters) : InPhase cfg p fed t :=
  ⟨⟨hph.trans h.phase, hpg ▸ h.pergroup_length, hss ▸ h.sortstates_length, hss ▸ h.sorters_length⟩,
    ht ▸ h.tables, hi ▸ h.iters⟩

theorem InPhase.congr_fed {cfg : AggConfig D} {p : Nat} {fed fed' : List (Tuple D)} {s : AggState D}
    (h : InPhase cfg p fed s) (he : fed' = fed) : InPhase cfg p fed' s := he ▸ h

/-- Phase `p` reads the rows `R`: those fetched so far went to the output
sorter, the others are still to come. -/
def ReadsFrom (cfg : AggConfig D) (p : Nat) (R : List (Tuple D)) (s : AggState D) : Prop :=
  ∃ read, read ++ s.inputRemaining = R ∧ s.sortOut = sortOutOf cfg p read

omit [Inhabited D] in
theorem ReadsFrom.update {cfg : AggConfig D} {p : Nat} {R : List (Tuple D)} {s t : AggState D}
    (h : ReadsFrom cfg p R s) (hr : t.inputRemaining = s.inputRemaining) (ho : t.sortOut = s.sortOut) :
    ReadsFrom cfg p R t := by
  obtain ⟨read, h1, h2⟩ := h
  exact ⟨read, hr ▸ h1, ho ▸ h2⟩

omit [Inhabited D] in
/-- `fetch_input_tuple` of the next row: it joins the rows read. -/
theorem ReadsFrom.fetch {cfg : AggConfig D} {p : Nat} {R : List (Tuple D)} {s : AggState D}
    {t : Tuple D} {rest : List (Tuple D)} (h : ReadsFrom cfg p R s) (hr : s.inputRemaining = t :: rest) :
    ReadsFrom cfg p R (s.consume.putSortOut t) := by
  obtain ⟨read, h1, h2⟩ := h
  refine ⟨read ++ [t], ?_, ?_⟩
  · show read ++ [t] ++ s.consume.inputRemaining = R
    rw [inputRemaining_consume, hr, List.tail_cons, List.append_assoc]
    rw [hr] at h1
    exact h1
  · show s.sortOut.map (· ++ [t]) = _
    rw [h2, sortOutOf_append]

/-- The input as the next pass finds it after a group ended before the rows
`Z`: the first of them already fetched, or the end of input flagged. -/
structure Awaits (hasGroupingSets : Bool) (Z : List (Tuple D)) (s : AggState D) : Prop where
  first : s.grpFirstTuple = Z.head?
  remaining : s.inputRemaining = Z.tail
  tmp : ∀ z ∈ Z.head?, s.tmpOuterTuple = some z
  inputDone : s.inputDone = (hasGroupingSets && Z.isEmpty)
  aggDone : s.aggDone = (!hasGroupingSets && Z.isEmpty)

/-- Sets `lo ≤ j` of phase `p` hold the states of the rows `acc j`: the
transition states, and the sorters of DISTINCT / ORDER BY transitions. -/
structure SetsHold (cfg : AggConfig D) (p : Nat) (s : AggState D) (lo : Nat)
    (acc : Nat → List (Tuple D)) : Prop where
  pergroup : ∀ j, lo ≤ j → j < cfg.numGroupingSets p → s.pergroup.getD j [] = groupStates cfg (acc j)
  sorters : ∀ j, lo ≤ j → j < cfg.numGroupingSets p → ∀ transno pt, cfg.pertrans[transno]? = some pt →
    (s.sortstates.getD transno []).getD j none = sorterOf pt (acc j)

theorem SetsHold.mono {cfg : AggConfig D} {p : Nat} {s : AggState D} {lo lo' : Nat}
    {acc : Nat → List (Tuple D)} (h : SetsHold cfg p s lo acc) (hle : lo ≤ lo') : SetsHold cfg p s lo' acc :=
  ⟨fun j hj => h.pergroup j (hle.trans hj), fun j hj => h.sorters j (hle.trans hj)⟩

theorem SetsHold.congr {cfg : AggConfig D} {p : Nat} {s : AggState D} {lo : Nat}
    {acc acc' : Nat → List (Tuple D)} (h : SetsHold cfg p s lo acc) (he : ∀ j, lo ≤ j → acc j = acc' j) :
    SetsHold cfg p s lo acc' :=
  ⟨fun j hj hn => he j hj ▸ h.pergroup j hj hn, fun j hj hn => he j hj ▸ h.sorters j hj hn⟩

theorem SetsHold.update {cfg : AggConfig D} {p : Nat} {s t : AggState D} {lo : Nat}
    {acc : Nat → List (Tuple D)} (h : SetsHold cfg p s lo acc) (hpg : t.pergroup = s.pergroup)
    (hss : t.sortstates = s.sortstates) : SetsHold cfg p t lo acc :=
  ⟨fun j hj hn => hpg ▸ h.pergroup j hj hn, fun j hj hn => hss ▸ h.sorters j hj hn⟩

/-! ## Arrays indexed by set and by transition -/

theorem getD_mapIdx {α : Type} {f : Nat → α → α} {l : List α} {j : Nat} (d : α) (h : j < l.length) :
    (l.mapIdx f).getD j d = f j (l.getD j d) := by
  simp [List.getD_eq_getElem?_getD, List.getElem?_mapIdx, h]

omit [Inhabited D] in
theorem numsets_le_maxsets {cfg : AggConfig D} {p : Nat} (hp : p < cfg.numphases) :
    cfg.numGroupingSets p ≤ cfg.maxsets := by
  unfold AggConfig.numGroupingSets AggConfig.maxsets AggConfig.phase
  have hle : ∀ l : List Nat, ∀ x ∈ l, x ≤ l.foldr max 1 := by
    intro l
    induction l with
    | nil => simp
    | cons a l ih =>
      intro x hx
      rcases List.mem_cons.mp hx with rfl | hx
      · exact le_max_left _ _
      · exact (ih x hx).trans (le_max_right _ _)
  have h1 : ∀ l : List Nat, 1 ≤ l.foldr max 1 := fun l => by
    induction l with
    | nil => simp
    | cons a l ih => exact ih.trans (le_max_right _ _)
  refine max_le (hle _ _ ?_) (h1 _)
  rw [List.getD_eq_getElem?_getD, List.getElem?_eq_getElem hp, Option.getD_some]
  exact List.mem_map_of_mem _ (List.getElem_mem _)

omit [Inhabited D] in
/-- The sorter of transition `transno` for set `j` after a loop over the
transitions that rewrites, for each, the sorters of every set. -/
theorem sorter_mapIdx_withTrans {cfg : AggConfig D} {ss : List (List (Option (List (Tuple D))))}
    (hlen : ss.length = cfg.numtrans) {g : AggStatePerTrans D → List (Option (List (Tuple D))) →
      List (Option (List (Tuple D)))} {transno : Nat} {pt : AggStatePerTrans D}
    (hpt : cfg.pertrans[transno]? = some pt) :
    (ss.mapIdx (cfg.withTrans g)).getD transno [] = g pt (ss.getD transno []) := by
  have ht : transno < ss.length := by
    rw [hlen]; exact (List.getElem?_eq_some_iff.mp hpt).1
  rw [getD_mapIdx _ ht]
  simp [AggConfig.withTrans, hpt]

omit [Inhabited D] in
theorem length_sorters_mapIdx_withTrans {cfg : AggConfig D} {ss : List (List (Option (List (Tuple D))))}
    {m : Nat} (hlen : ∀ l ∈ ss, l.length = m)
    {g : AggStatePerTrans D → List (Option (List (Tuple D))) → List (Option (List (Tuple D)))}
    (hg : ∀ pt l, (g pt l).length = l.length) : ∀ l ∈ ss.mapIdx (cfg.withTrans g), l.length = m := by
  intro l hl
  obtain ⟨i, hi, rfl⟩ := List.getElem_of_mem hl
  rw [List.getElem_mapIdx]
  unfold AggConfig.withTrans
  split
  · rw [hg]; exact hlen _ (List.getElem_mem _)
  · exact hlen _ (List.getElem_mem _)

theorem getD_mem {α : Type} {l : List α} {i : Nat} {d : α} (h : i < l.length) : l.getD i d ∈ l := by
  rw [List.getD_eq_getElem?_getD, List.getElem?_eq_getElem h, Option.getD_some]
  exact List.getElem_mem _

/-! ## A sorted phase -/

/-- What `ExecInitAgg` and the planner establish of sorted phase `p`: a plain
or sorted strategy, lawful equality functions, and grouping sets that are
prefixes of `grpColIdx` listed by non-increasing length, the first one of
length `numCols`, whose grouped columns are those prefixes; attribute numbers
are positive. -/
structure SortedPhase (cfg : AggConfig D) (p : Nat) : Prop where
  lt : p < cfg.numphases
  strategy : (cfg.phase p).aggstrategy = .plain ∨ (cfg.phase p).aggstrategy = .sorted
  lawful : EqFunctionsLawful (cfg.phase p).eqfunctions
  gsetLengths_length : (cfg.phase p).gsetLengths.length = (cfg.phase p).numsets
  gsetLengths_antitone : ∀ i j, i ≤ j → (cfg.phase p).gsetLengths.getD j 0 ≤ (cfg.phase p).gsetLengths.getD i 0
  gsetLengths_head : 0 < (cfg.phase p).numsets → (cfg.phase p).gsetLengths.getD 0 0 = (cfg.phase p).numCols
  groupedCols : (cfg.phase p).groupedCols = if 0 < (cfg.phase p).numsets
    then some ((cfg.phase p).gsetLengths.map ((cfg.phase p).grpColIdx.take ·)) else none
  grpColIdx_pos : ∀ c ∈ (cfg.phase p).grpColIdx, 0 < c
  allGroupedCols_pos : ∀ a ∈ cfg.allGroupedCols, 0 < a

section Runs

variable {cfg : AggConfig D} {p : Nat} (hw : SortedPhase cfg p)
include hw

/-- The rows of one group of a set agree with each other. -/
theorem SortedPhase.boolEquiv (n : Nat) : BoolEquiv ((cfg.phase p).sameRun n) := by
  unfold AggStatePerPhase.sameRun
  refine ⟨fun a => by simp [execTuplesMatch_refl hw.lawful], fun a b h => ?_, fun a b c h1 h2 => ?_⟩
  · simp only [Bool.or_eq_true] at h ⊢
    exact h.imp id (execTuplesMatch_symm hw.lawful)
  · simp only [Bool.or_eq_true] at h1 h2 ⊢
    rcases h1 with h1 | h1
    · exact .inl h1
    · exact h2.imp id (execTuplesMatch_trans hw.lawful h1)

omit [Inhabited D] in
theorem SortedPhase.setLength_antitone {j k : Nat} (hjk : j ≤ k) :
    (cfg.phase p).setLength k ≤ (cfg.phase p).setLength j := by
  unfold AggStatePerPhase.setLength
  split
  · exact hw.gsetLengths_antitone j k hjk
  · exact le_rfl

omit [Inhabited D] in
theorem SortedPhase.setLength_zero : (cfg.phase p).setLength 0 = (cfg.phase p).numCols := by
  unfold AggStatePerPhase.setLength
  split
  · exact hw.gsetLengths_head ‹_›
  · rfl

/-- A group of a finer set lies inside one group of every coarser set. -/
theorem SortedPhase.sameRun_of_le {j k : Nat} (hjk : j ≤ k) {a b : Tuple D}
    (h : (cfg.phase p).sameRun ((cfg.phase p).setLength j) a b = true) :
    (cfg.phase p).sameRun ((cfg.phase p).setLength k) a b = true := by
  unfold AggStatePerPhase.sameRun at h ⊢
  simp only [Bool.or_eq_true] at h ⊢
  exact h.imp id (execTuplesMatch_of_le (hw.setLength_antitone hjk))

omit hw in
/-- A set that is one group over the whole input relates any two rows. -/
theorem AggStatePerPhase.sameRun_of_wholeInput {ph : AggStatePerPhase D} {k : Nat} (h : ph.wholeInput k = true)
    (a b : Tuple D) : ph.sameRun (ph.setLength k) a b = true := by
  unfold AggStatePerPhase.wholeInput at h
  unfold AggStatePerPhase.sameRun AggStatePerPhase.setLength
  split at h
  · rename_i hpos
    simp only [beq_iff_eq] at h
    rw [if_pos hpos, h, execTuplesMatch_zero, Bool.or_true]
  · simp [h]

omit [Inhabited D] in
/-- With grouping sets, set `k` is one group over the whole input exactly from
the first zero-length set on, where the empty-input loop starts. -/
theorem SortedPhase.wholeInput_iff (hpos : 0 < (cfg.phase p).numsets) (k : Nat) :
    (cfg.phase p).wholeInput k = true ↔
      firstEmptySet (cfg.phase p).gsetLengths (cfg.numGroupingSets p) ≤ k := by
  have hn : cfg.numGroupingSets p = (cfg.phase p).gsetLengths.length := by
    rw [hw.gsetLengths_length]; unfold AggConfig.numGroupingSets; omega
  unfold AggStatePerPhase.wholeInput firstEmptySet
  rw [if_pos hpos, hn, List.take_length, beq_iff_eq]
  have hanti := hw.gsetLengths_antitone
  generalize (cfg.phase p).gsetLengths = l at hanti ⊢
  constructor
  · intro h0
    by_contra hlt
    have hlt' : k < l.findIdx (· == 0) := Nat.lt_of_not_le hlt
    have hk : k < l.length := lt_of_lt_of_le hlt' (List.findIdx_le_length _)
    have := List.not_of_lt_findIdx hlt'
    rw [List.getD_eq_getElem?_getD, List.getElem?_eq_getElem hk, Option.getD_some] at h0
    simp [h0] at this
  · intro hle
    by_cases hf : l.findIdx (· == 0) < l.length
    · have h0 : l[l.findIdx (· == 0)] = 0 := by simpa using List.findIdx_getElem (w := hf)
      have := hanti _ _ hle
      rw [List.getD_eq_getElem?_getD (n := l.findIdx _), List.getElem?_eq_getElem hf, Option.getD_some, h0] at this
      omega
    · have hk : l.length ≤ k := le_trans (Nat.le_of_not_lt hf) hle
      rw [List.getD_eq_getElem?_getD, List.getElem?_eq_none hk]
      rfl

/-- The groups a phase with grouping sets finds in empty input: one empty
group for each set from the first zero-length one on. -/
theorem SortedPhase.flatMap_rollup_nil (hpos : 0 < (cfg.phase p).numsets) :
    ∀ k, ((cfg.phase p).runs k []).flatMap ((cfg.phase p).rollup k) =
      (List.range' (firstEmptySet (cfg.phase p).gsetLengths (cfg.numGroupingSets p))
        (k + 1 - firstEmptySet (cfg.phase p).gsetLengths (cfg.numGroupingSets p))).map fun j => (j, [])
  | 0 => by
    rw [AggStatePerPhase.runs_nil]
    by_cases h : (cfg.phase p).wholeInput 0 = true
    · have := (hw.wholeInput_iff hpos 0).mp h
      simp [h, AggStatePerPhase.rollup, show firstEmptySet (cfg.phase p).gsetLengths (cfg.numGroupingSets p) = 0 by omega]
    · have := mt (hw.wholeInput_iff hpos 0).mpr h
      simp [h, show 1 - firstEmptySet (cfg.phase p).gsetLengths (cfg.numGroupingSets p) = 0 by omega]
  | k + 1 => by
    rw [AggStatePerPhase.runs_nil]
    by_cases h : (cfg.phase p).wholeInput (k + 1) = true
    · have hle := (hw.wholeInput_iff hpos (k + 1)).mp h
      simp only [h, if_true, List.flatMap_cons, List.flatMap_nil, List.append_nil, AggStatePerPhase.rollup,
        SortedPhase.flatMap_rollup_nil hpos k]
      rw [show k + 1 + 1 - firstEmptySet (cfg.phase p).gsetLengths (cfg.numGroupingSets p) =
        (k + 1 - firstEmptySet (cfg.phase p).gsetLengths (cfg.numGroupingSets p)) + 1 by omega,
        List.range'_concat, List.map_append]
      simp
      omega
    · have := mt (hw.wholeInput_iff hpos (k + 1)).mpr h
      simp [h, show k + 1 + 1 - firstEmptySet (cfg.phase p).gsetLengths (cfg.numGroupingSets p) = 0 by omega]

end Runs

section Phase

variable {cfg : AggConfig D} {p : Nat} {fed : List (Tuple D)} {s : AggState D}

omit [Inhabited D] in
/-- The sorters of transition `transno` in a state of the phase: one per set. -/
theorem PhaseShape.sorters_length_getD (h : PhaseShape cfg p s) {transno : Nat} {pt : AggStatePerTrans D}
    (hpt : cfg.pertrans[transno]? = some pt) : (s.sortstates.getD transno []).length = cfg.maxsets := by
  have ht : transno < s.sortstates.length := by
    rw [h.sortstates_length]; exact (List.getElem?_eq_some_iff.mp hpt).1
  exact h.sorters_length _ (getD_mem ht)

/-- `initialize_aggregates(aggstate, pergroup, numReset)`: sets below
`numReset` start over, the others keep their rows. -/
theorem initializeAggregates_spec (hin : InPhase cfg p fed s) (hp : p < cfg.numphases) {nr : Nat}
    {acc : Nat → List (Tuple D)} (h : SetsHold cfg p s nr acc) :
    InPhase cfg p fed (initializeAggregates cfg s nr) ∧
      SetsHold cfg p (initializeAggregates cfg s nr) 0 (fun j => if j < nr then [] else acc j) := by
  have hj : ∀ j, j < cfg.numGroupingSets p → j < cfg.maxsets := fun j hj =>
    lt_of_lt_of_le hj (numsets_le_maxsets hp)
  refine ⟨⟨⟨hin.phase, by simp [initializeAggregates, hin.pergroup_length],
    by simp [initializeAggregates, hin.sortstates_length],
    length_sorters_mapIdx_withTrans hin.sorters_length (fun _ _ => List.length_mapIdx)⟩,
    hin.tables, hin.iters⟩, ⟨fun j _ hjn => ?_, fun j _ hjn transno pt hpt => ?_⟩⟩
  · rw [initializeAggregates, getD_mapIdx _ (by rw [hin.pergroup_length]; exact hj j hjn)]
    split
    · rename_i hlt; simp [hlt, groupStates_nil, initializeEntry]
    · rename_i hge; exact h.pergroup j (Nat.le_of_not_lt hge) hjn
  · rw [initializeAggregates, sorter_mapIdx_withTrans hin.sortstates_length hpt,
      getD_mapIdx _ (by rw [hin.toPhaseShape.sorters_length_getD hpt]; exact hj j hjn)]
    split
    · rename_i hlt; simp [hlt, sorterOf_nil]
    · rename_i hge; exact h.sorters j (Nat.le_of_not_lt hge) hjn transno pt hpt

/-- `advance_aggregates` on the sorted path keeps the per-set arrays' sizes. -/
theorem advanceAggregates_shape (hin : PhaseShape cfg p s) (t : Tuple D) (sorted : Bool)
    (he : Option (List Nat)) : PhaseShape cfg p (advanceAggregates cfg s t sorted he) := by
  refine ⟨hin.phase, ?_, by simp [advanceAggregates, hin.sortstates_length],
    length_sorters_mapIdx_withTrans hin.sorters_length fun _ _ => ?_⟩
  · unfold advanceAggregates; split <;> simp [hin.pergroup_length]
  · split <;> simp

/-- `advance_aggregates` on the sorted path adds the row to every set of the
phase: to the states of the plain transitions and to the sorters of the
DISTINCT / ORDER BY ones. -/
theorem advanceAggregates_sets (hin : PhaseShape cfg p s) (hp : p < cfg.numphases)
    {acc : Nat → List (Tuple D)} (h : SetsHold cfg p s 0 acc) (hc : cfg.aggsplit.combine = false)
    (t : Tuple D) (he : Option (List Nat)) :
    SetsHold cfg p (advanceAggregates cfg s t true he) 0 (fun j => acc j ++ [t]) := by
  have hj : ∀ j, j < cfg.numGroupingSets p → j < cfg.maxsets := fun j hj =>
    lt_of_lt_of_le hj (numsets_le_maxsets hp)
  constructor
  · intro j _ hjn
    simp only [advanceAggregates, if_true, hin.phase]
    rw [getD_mapIdx _ (by rw [hin.pergroup_length]; exact hj j hjn), if_pos hjn,
      h.pergroup j (Nat.zero_le _) hjn, ← rowStep_of_not_combine hc, rowStep_groupStates]
  · intro j _ hjn transno pt hpt
    simp only [advanceAggregates, hin.phase]
    rw [sorter_mapIdx_withTrans hin.sortstates_length hpt, sorterOf_append]
    by_cases ha : sortAccepts pt t = true
    · rw [if_pos ha, if_pos ha, getD_mapIdx _ (by rw [hin.sorters_length_getD hpt]; exact hj j hjn),
        if_pos hjn, h.sorters j (Nat.zero_le _) hjn transno pt hpt]
    · rw [if_neg ha, if_neg ha]
      exact h.sorters j (Nat.zero_le _) hjn transno pt hpt

end Phase

omit [Inhabited D] in
theorem numGroupingSets_pos (cfg : AggConfig D) (p : Nat) : 0 < cfg.numGroupingSets p :=
  lt_of_lt_of_le Nat.zero_lt_one (le_max_right _ _)

omit [Inhabited D] in
theorem one_le_maxsets (cfg : AggConfig D) : 1 ≤ cfg.maxsets := by
  unfold AggConfig.maxsets
  induction cfg.phases.map (·.numsets) with
  | nil => exact le_rfl
  | cons a l ih => exact ih.trans (le_max_right _ _)

section Row

variable {cfg : AggConfig D} {p : Nat} {fed : List (Tuple D)} {s : AggState D}
  (hl : ∀ ph ∈ cfg.perhash, HashSetLawful ph)
  (hcomb : cfg.aggsplit.combine = true →
    cfg.aggstrategy ≠ .mixed ∧ cfg.numGroupingSets p = 1 ∧ ∀ pt ∈ cfg.pertrans, pt.numSortCols = 0)
include hl hcomb

/-- One row of a group: every set of the phase takes it, and in phase 1 of an
AGG_MIXED node so do the hash tables.  Nothing else of the state changes. -/
theorem advanceRow_spec (hin : InPhase cfg p fed s) (hp : p < cfg.numphases) {acc : Nat → List (Tuple D)}
    (h : SetsHold cfg p s 0 acc) (t : Tuple D) :
    ∃ pg ss T, advanceRow cfg s t = .ok { s with pergroup := pg, sortstates := ss, hashtables := T } ∧
      InPhase cfg p (feedAfter cfg p fed [t]) { s with pergroup := pg, sortstates := ss, hashtables := T } ∧
      SetsHold cfg p { s with pergroup := pg, sortstates := ss, hashtables := T } 0 (fun j => acc j ++ [t]) := by
  cases hc : cfg.aggsplit.combine
  · have hshape := advanceAggregates_shape hin.toPhaseShape t true
    have hsets := advanceAggregates_sets hin.toPhaseShape hp h hc t
    by_cases hm : cfg.aggstrategy = .mixed ∧ s.currentPhase = 1
    · -- phase 1 of AGG_MIXED: `lookup_hash_entries` first
      obtain ⟨es, tables', hlook, -, hall⟩ := lookupHashEntries_classes hl hin.tables t
      have hfeed : feedAfter cfg p fed [t] = fed ++ [t] := by
        simp [feedAfter, feeds, hm.1, ← hin.phase, hm.2]
      refine ⟨(advanceAggregates cfg s t true none).pergroup, (advanceAggregates cfg s t true none).sortstates,
        advanceEntries (advanceGroupStates cfg t) tables' es, ?_,
        ⟨⟨hin.phase, (hshape none).pergroup_length, (hshape none).sortstates_length,
          (hshape none).sorters_length⟩, ?_, hin.iters⟩, (hsets none).update rfl rfl⟩
      · simp only [advanceRow, if_pos hm, hlook, hc, bind, Except.bind, pure, Except.pure]
        rfl
      · rw [hfeed, ← rowStep_of_not_combine hc]; exact hall
    · have hfeed : feedAfter cfg p fed [t] = fed := by
        simp only [feedAfter, feeds, ← hin.phase]
        simp [hm]
      refine ⟨(advanceAggregates cfg s t true none).pergroup, (advanceAggregates cfg s t true none).sortstates,
        s.hashtables, ?_, ⟨hshape none, by rw [hfeed]; exact hin.tables, hin.iters⟩, hsets none⟩
      simp only [advanceRow, if_neg hm, hc, pure, Except.pure, bind, Except.bind]
      rfl
  · -- COMBINE: one set, no hash tables, no sorters
    obtain ⟨hnm, hone, hsort⟩ := hcomb hc
    have hne : s.pergroup ≠ [] := by
      rw [← List.length_pos, hin.pergroup_length]; exact one_le_maxsets cfg
    have hfeed : feedAfter cfg p fed [t] = fed := by simp [feedAfter, feeds, hnm]
    refine ⟨s.pergroup.modify (combineAggregates cfg t) 0, s.sortstates, s.hashtables, ?_,
      ⟨⟨hin.phase, by simp [hin.pergroup_length], hin.sortstates_length, hin.sorters_length⟩,
        by rw [hfeed]; exact hin.tables, hin.iters⟩, ⟨?_, ?_⟩⟩
    · simp only [advanceRow, hnm, false_and, if_false, if_true, hc, pure, Except.pure, bind, Except.bind]
    · intro j _ hj
      obtain rfl : j = 0 := by omega
      obtain ⟨a, l, hal⟩ := List.exists_cons_of_ne_nil hne
      rw [← rowStep_groupStates, rowStep_of_combine hc, ← h.pergroup 0 le_rfl (by omega)]
      simp [hal]
    · intro j _ hj transno pt hpt
      obtain rfl : j = 0 := by omega
      have h0 : pt.numSortCols = 0 := hsort pt (List.getElem?_mem hpt)
      rw [h.sorters 0 le_rfl (by omega) transno pt hpt]
      simp [sorterOf, h0]

/-- The inner `for (;;)` of `agg_retrieve_direct` over the rest `t0 :: G` of a
group whose first row is `g`: every row is aggregated into every set, and the
loop stops before the first row of `Z`, which differs from `g` on the grouping
columns, or at the end of input. -/
theorem advanceGroup_spec (hw : SortedPhase cfg p) {g : Tuple D} {Z R : List (Tuple D)} (hasGS : Bool) :
    ∀ (G : List (Tuple D)) (fuel : Nat) (u : AggState D) (t0 : Tuple D) (fed : List (Tuple D))
      (acc : Nat → List (Tuple D)),
      InPhase cfg p fed u → ReadsFrom cfg p R u → SetsHold cfg p u 0 acc →
      u.tmpOuterTuple = some t0 → u.grpFirstTuple = none → u.firstSlot = some g →
      u.inputDone = false → u.aggDone = false → u.inputRemaining = G ++ Z → G.length < fuel →
      (∀ x ∈ G, (cfg.phase p).sameRun (cfg.phase p).numCols g x = true) →
      (∀ z ∈ Z.head?, (cfg.phase p).sameRun (cfg.phase p).numCols g z = false) →
      ∃ u', advanceGroup cfg hasGS fuel u = .ok u' ∧ InPhase cfg p (feedAfter cfg p fed (t0 :: G)) u' ∧
        ReadsFrom cfg p R u' ∧ SetsHold cfg p u' 0 (fun j => acc j ++ t0 :: G) ∧ Awaits hasGS Z u' ∧
        u'.firstSlot = some g ∧ u'.projectedSet = u.projectedSet := by
  intro G
  induction G with
  | nil =>
    intro fuel u t0 fed acc hin hr hs htmp hfirst hslot hid had hrem hfuel _ hZ
    obtain ⟨f, rfl⟩ : ∃ f, fuel = f + 1 := ⟨fuel - 1, by simp at hfuel; omega⟩
    obtain ⟨pg, ss, T, hrow, hin1, hs1⟩ := advanceRow_spec hl hcomb hin hw.lt hs t0
    have hrem1 : ({ u with pergroup := pg, sortstates := ss, hashtables := T } : AggState D).inputRemaining = Z := by
      simpa using hrem
    rw [advanceGroup, htmp, Option.getD_some, hrow]
    dsimp only [bind, Except.bind]
    cases Z with
    | nil =>
      rw [fetchInputTuple_nil hrem1]
      dsimp only
      have hdump : dumpHashtableIfSpilled cfg { u with pergroup := pg, sortstates := ss, hashtables := T } =
          .ok { u with pergroup := pg, sortstates := ss, hashtables := T } :=
        dumpHashtableIfSpilled_of_unspilled (holdsClasses_unspilled hin1.tables) hin1.tables.length_eq.symm
          hin1.iters
      have hr1 := hr.update (t := { u with pergroup := pg, sortstates := ss, hashtables := T }) rfl rfl
      cases hh : cfg.hybridHashAgg <;> cases hasGS <;>
        simp only [hdump, if_true, if_false, Bool.false_eq_true, pure, Except.pure] <;>
        exact ⟨_, rfl, hin1.update rfl rfl rfl rfl rfl, hr1.update rfl rfl, hs1.update rfl rfl,
          ⟨by simpa using hfirst, by simpa using hrem, by simp, by simp [hid], by simp [had]⟩, hslot, rfl⟩
    | cons z Z =>
      rw [fetchInputTuple_cons hrem1]
      dsimp only [AggState.consume, AggState.putSortOut]
      have hz := hZ z rfl
      have hbreak : ((cfg.phase u.currentPhase).aggstrategy ≠ .plain &&
          !execTuplesMatch (cfg.phase u.currentPhase).eqfunctions (cfg.phase u.currentPhase).grpColIdx
            (cfg.phase u.currentPhase).numCols (u.firstSlot.getD []) z) = true := by
        unfold AggStatePerPhase.sameRun at hz
        simp only [Bool.or_eq_false_iff, beq_eq_false_iff_ne] at hz
        simp [hin.phase, hslot, hz.1, hz.2]
      rw [if_pos hbreak]
      refine ⟨_, rfl, hin1.update rfl rfl rfl rfl rfl, (hr.update (t := { u with pergroup := pg, sortstates := ss, hashtables := T }) rfl rfl).fetch hrem1 |>.update rfl rfl,
        hs1.update rfl rfl, ⟨rfl, ?_, by simp, by simp [hid], by simp [had]⟩, hslot, rfl⟩
      show (AggState.consume { u with pergroup := pg, sortstates := ss, hashtables := T }).inputRemaining = Z
      rw [inputRemaining_consume, hrem1, List.tail_cons]
  | cons t1 G ih =>
    intro fuel u t0 fed acc hin hr hs htmp hfirst hslot hid had hrem hfuel hG hZ
    obtain ⟨f, rfl⟩ : ∃ f, fuel = f + 1 := ⟨fuel - 1, by simp at hfuel; omega⟩
    obtain ⟨pg, ss, T, hrow, hin1, hs1⟩ := advanceRow_spec hl hcomb hin hw.lt hs t0
    have hrem1 : ({ u with pergroup := pg, sortstates := ss, hashtables := T } : AggState D).inputRemaining =
        t1 :: (G ++ Z) := by simpa using hrem
    rw [advanceGroup, htmp, Option.getD_some, hrow]
    dsimp only [bind, Except.bind]
    rw [fetchInputTuple_cons hrem1]
    dsimp only [AggState.consume, AggState.putSortOut]
    have hcont : ((cfg.phase u.currentPhase).aggstrategy ≠ .plain &&
        !execTuplesMatch (cfg.phase u.currentPhase).eqfunctions (cfg.phase u.currentPhase).grpColIdx
          (cfg.phase u.currentPhase).numCols (u.firstSlot.getD []) t1) = false := by
      have h1 := hG t1 (.head _)
      unfold AggStatePerPhase.sameRun at h1
      simp only [Bool.or_eq_true, beq_iff_eq] at h1
      rw [hin.phase, hslot, Option.getD_some]
      rcases h1 with h1 | h1 <;> simp [h1]
    rw [hcont, if_neg Bool.false_ne_true]
    set u2 : AggState D := { (AggState.consume { u with pergroup := pg, sortstates := ss, hashtables := T }).putSortOut t1 with
      tmpOuterTuple := some t1 }
    have hrem2 : u2.inputRemaining = G ++ Z := by
      show (AggState.consume { u with pergroup := pg, sortstates := ss, hashtables := T }).inputRemaining = _
      rw [inputRemaining_consume, hrem1, List.tail_cons]
    obtain ⟨u', hrun, hin', hr', hs', haw, hslot', hproj⟩ := ih f u2 t1 (feedAfter cfg p fed [t0])
      (fun j => acc j ++ [t0]) (hin1.update rfl rfl rfl rfl rfl)
      (((hr.update (t := { u with pergroup := pg, sortstates := ss, hashtables := T }) rfl rfl).fetch hrem1).update rfl rfl)
      (hs1.update rfl rfl) rfl hfirst hslot hid had hrem2 (by simp at hfuel; omega)
      (fun x hx => hG x (.tail _ hx)) hZ
    refine ⟨u', hrun, ?_, hr', hs'.congr fun j _ => by simp, haw, hslot', hproj⟩
    rw [feedAfter_append] at hin'
    exact hin'

end Row

/-! ## The representative tuple -/

section Rep

variable (cols : List Nat)

/-- The loop of `prepare_projection_slot`: a column is NULL afterwards exactly
when a listed attribute outside `grouped` points at it. -/
theorem getElem?_nullOutside (grouped : List Nat) : ∀ (t : Tuple D) (i : Nat),
    (cols.foldl (fun t attnum => if attnum ∈ grouped then t else t.set (attnum - 1) nullDatum) t)[i]? =
      if ∃ a ∈ cols, a ∉ grouped ∧ a - 1 = i then t[i]?.map fun _ => nullDatum else t[i]? := by
  induction cols with
  | nil => simp
  | cons a cols ih =>
    intro t i
    rw [List.foldl_cons, ih]
    by_cases ha : a ∈ grouped
    · simp [ha]
    · by_cases hi : a - 1 = i
      · simp [ha, hi, List.getElem?_set']
        rfl
      · simp [ha, hi, List.getElem?_set']

/-- Nulling the columns outside a set after those outside a larger set is
nulling those outside the smaller one. -/
theorem nullOutside_nullOutside {G1 G2 : List Nat} (hsub : ∀ c ∈ G2, c ∈ G1) (t : Tuple D) :
    cols.foldl (fun t attnum => if attnum ∈ G2 then t else t.set (attnum - 1) nullDatum)
        (cols.foldl (fun t attnum => if attnum ∈ G1 then t else t.set (attnum - 1) nullDatum) t) =
      cols.foldl (fun t attnum => if attnum ∈ G2 then t else t.set (attnum - 1) nullDatum) t := by
  refine List.ext_getElem? fun i => ?_
  simp only [getElem?_nullOutside]
  by_cases h2 : ∃ a ∈ cols, a ∉ G2 ∧ a - 1 = i
  · by_cases h1 : ∃ a ∈ cols, a ∉ G1 ∧ a - 1 = i <;> simp [h1, h2, Option.map_map, Function.comp_def]
  · have h1 : ¬∃ a ∈ cols, a ∉ G1 ∧ a - 1 = i := fun ⟨a, ha, hn, he⟩ =>
      h2 ⟨a, ha, fun hm => hn (hsub a hm), he⟩
    simp [h1, h2]

theorem nullOutside_allNull (grouped : List Nat) (n : Nat) :
    cols.foldl (fun t attnum => if attnum ∈ grouped then t else t.set (attnum - 1) nullDatum)
      (allNullTuple n : Tuple D) = allNullTuple n := by
  refine List.ext_getElem? fun i => ?_
  rw [getElem?_nullOutside]
  split <;> simp [allNullTuple, List.getElem?_replicate]

/-- A grouped column of the set keeps its value. -/
theorem slotGetattr_nullOutside {grouped : List Nat} (hcols : ∀ a ∈ cols, 0 < a) {c : Nat}
    (hc : c ∈ grouped) (hpos : 0 < c) (t : Tuple D) :
    slotGetattr (cols.foldl (fun t attnum => if attnum ∈ grouped then t else t.set (attnum - 1) nullDatum) t) c =
      slotGetattr t c := by
  unfold slotGetattr
  rw [List.getD_eq_getElem?_getD, List.getD_eq_getElem?_getD, getElem?_nullOutside, if_neg]
  rintro ⟨a, ha, hn, he⟩
  have : a = c := by have := hcols a ha; omega
  exact hn (this ▸ hc)

end Rep

theorem getD_map_take {l : List Nat} {xs : List Nat} (k : Nat) :
    (l.map (xs.take ·)).getD k [] = xs.take (l.getD k 0) := by
  simp only [List.getD_eq_getElem?_getD, List.getElem?_map]
  cases l[k]? <;> rfl

theorem mem_take_of_mem_zip_take {α β : Type} {l1 : List α} {l2 : List β} {n : Nat} {x : α × β}
    (hx : x ∈ (l1.zip l2).take n) : x.1 ∈ l1.take n := by
  rw [List.zip, List.take_zipWith] at hx
  exact (List.of_mem_zip hx).1

section RepPhase

variable {cfg : AggConfig D} {p : Nat} (hw : SortedPhase cfg p)
include hw

omit [Inhabited D] in
/-- The columns grouped by set `k`: the first `setLength k` of `grpColIdx`. -/
theorem SortedPhase.groupedCols_getD (hpos : 0 < (cfg.phase p).numsets) (k : Nat) :
    (cfg.phase p).groupedCols = some ((cfg.phase p).gsetLengths.map ((cfg.phase p).grpColIdx.take ·)) ∧
      ((cfg.phase p).gsetLengths.map ((cfg.phase p).grpColIdx.take ·)).getD k [] =
        (cfg.phase p).grpColIdx.take ((cfg.phase p).setLength k) := by
  refine ⟨by rw [hw.groupedCols, if_pos hpos], ?_⟩
  rw [getD_map_take, AggStatePerPhase.setLength, if_pos hpos]

/-- Preparing the slot for set `j`, then for a coarser set `k`, is preparing
it for `k`: the sets after the first null more and more columns. -/
theorem SortedPhase.prepareProjectionSlot_twice {j k : Nat} (hjk : j ≤ k) (slot : Option (Tuple D)) :
    prepareProjectionSlot cfg (cfg.phase p) (prepareProjectionSlot cfg (cfg.phase p) slot j) k =
      prepareProjectionSlot cfg (cfg.phase p) slot k := by
  by_cases hpos : 0 < (cfg.phase p).numsets
  · obtain ⟨hg, -⟩ := hw.groupedCols_getD hpos 0
    have hsub : ∀ c ∈ ((cfg.phase p).gsetLengths.map ((cfg.phase p).grpColIdx.take ·)).getD k [],
        c ∈ ((cfg.phase p).gsetLengths.map ((cfg.phase p).grpColIdx.take ·)).getD j [] := by
      rw [(hw.groupedCols_getD hpos k).2, (hw.groupedCols_getD hpos j).2]
      exact List.take_subset_take_left _ (hw.setLength_antitone hjk)
    cases slot <;> simp only [prepareProjectionSlot, hg, nullOutside_allNull, nullOutside_nullOutside _ hsub]
  · have hg : (cfg.phase p).groupedCols = none := by rw [hw.groupedCols, if_neg hpos]
    simp only [prepareProjectionSlot, hg]

/-- The slot prepared for set `k` still agrees with its tuple on the columns
of set `k` and of every coarser set. -/
theorem SortedPhase.execTuplesMatch_prepareProjectionSlot {k n : Nat} (hn : n ≤ (cfg.phase p).setLength k)
    (t b : Tuple D) :
    execTuplesMatch (cfg.phase p).eqfunctions (cfg.phase p).grpColIdx n
        ((prepareProjectionSlot cfg (cfg.phase p) (some t) k).getD []) b =
      execTuplesMatch (cfg.phase p).eqfunctions (cfg.phase p).grpColIdx n t b := by
  by_cases hpos : 0 < (cfg.phase p).numsets
  · obtain ⟨hg, hk⟩ := hw.groupedCols_getD hpos k
    simp only [prepareProjectionSlot, hg, Option.getD_some]
    unfold execTuplesMatch
    rw [Bool.eq_iff_iff]
    simp only [List.all_eq_true]
    refine forall₂_congr fun x hx => ?_
    have hc : x.1 ∈ (cfg.phase p).grpColIdx.take n := mem_take_of_mem_zip_take hx
    rw [slotGetattr_nullOutside _ hw.allGroupedCols_pos
      (by rw [hk]; exact List.take_subset_take_left _ hn hc)
      (hw.grpColIdx_pos _ (List.mem_of_mem_take hc))]
  · have hg : (cfg.phase p).groupedCols = none := by rw [hw.groupedCols, if_neg hpos]
    simp only [prepareProjectionSlot, hg, Option.getD_some]

end RepPhase

/-! ## Projecting a set -/

/-- What `directProject` computes: the state after projecting set
`projected_set`, and the row unless HAVING drops it. -/
def projectResult (cfg : AggConfig D) (s : AggState D) : AggState D × Option (AggOutput D) :=
  let setno := s.projectedSet.toNat
  let (s', pgs, out) := projectGroup cfg s setno s.firstSlot (s.pergroup.getD setno [])
  ({ s' with pergroup := s'.pergroup.set setno pgs, currentSet := setno }, out)

theorem directProject_eq (cfg : AggConfig D) (s : AggState D) :
    directProject cfg s = match projectResult cfg s with
      | (s', some o) => .emit o s'
      | (s', none) => .next s' := by
  unfold directProject projectResult
  dsimp only
  generalize projectGroup cfg s s.projectedSet.toNat s.firstSlot (s.pergroup.getD s.projectedSet.toNat []) = r
  rcases r with ⟨s', pgs, _ | o⟩ <;> rfl

/-- The state after a projection: the slot prepared for the set, the set's
sorters ended and its states finalised, the rest unchanged. -/
theorem projectResult_fst (cfg : AggConfig D) (s : AggState D) :
    (projectResult cfg s).1 =
      let k := s.projectedSet.toNat
      let slot := prepareProjectionSlot cfg (cfg.phase s.currentPhase) s.firstSlot k
      let fin := finalizeAggregates cfg s.sortstates k (slot.getD (allNullTuple cfg.natts)) (s.pergroup.getD k [])
      { s with firstSlot := slot, sortstates := fin.2.1, pergroup := s.pergroup.set k fin.1, currentSet := k } :=
  rfl

theorem projectResult_snd (cfg : AggConfig D) (s : AggState D) :
    (projectResult cfg s).2 =
      let k := s.projectedSet.toNat
      let rep := (prepareProjectionSlot cfg (cfg.phase s.currentPhase) s.firstSlot k).getD (allNullTuple cfg.natts)
      let fin := finalizeAggregates cfg s.sortstates k rep (s.pergroup.getD k [])
      projectAggregates cfg ⟨s.currentPhase, k, rep, fin.1, fin.2.2⟩ :=
  rfl

/-- A DISTINCT / ORDER BY transition's state is not advanced by the rows. -/
theorem foldl_transStep_of_sorted {cfg : AggConfig D} {pt : AggStatePerTrans D} (hc : cfg.aggsplit.combine = false)
    (hs : 0 < pt.numSortCols) (X : List (Tuple D)) :
    X.foldl (transStep cfg pt) (initializeAggregate pt) = initializeAggregate pt :=
  List.foldl_fixed' (fun t => by simp [transStep, hc, advanceTrans, Nat.pos_iff_ne_zero.mp hs]) X

/-- `finalize_aggregates` on a set that holds the rows `X`: each transition's
fold over `X`, or `process_ordered_aggregate` over what its sorter took. -/
theorem finalizeOrdered_groupStates {cfg : AggConfig D}
    (hsc : cfg.aggsplit.combine = true → ∀ pt ∈ cfg.pertrans, pt.numSortCols = 0)
    {ss : List (List (Option (List (Tuple D))))} {k : Nat} {X : List (Tuple D)}
    (hsort : ∀ transno pt, cfg.pertrans[transno]? = some pt → (ss.getD transno []).getD k none = sorterOf pt X) :
    finalizeOrdered cfg ss k (groupStates cfg X) = runStates cfg X := by
  refine List.mapIdx_eq_iff.mpr fun i => ?_
  cases hpt : cfg.pertrans[i]? with
  | none => simp [runStates, groupStates, hpt]
  | some pt =>
    simp only [runStates, groupStates, List.getElem?_map, hpt, Option.map_some', AggConfig.withTrans,
      List.get?_eq_getElem?]
    by_cases hs : 0 < pt.numSortCols
    · have hc : cfg.aggsplit.combine = false := by
        cases hc : cfg.aggsplit.combine
        · rfl
        · exact absurd (hsc hc pt (List.getElem?_mem hpt)) (Nat.pos_iff_ne_zero.mp hs)
      rw [if_pos hs, if_pos hs, foldl_transStep_of_sorted hc hs, hsort i pt hpt]
      simp [sorterOf, hs]
    · rw [if_neg hs, if_neg hs, foldl_transStep_eq_transFold (Nat.eq_zero_of_not_pos hs)]




section Project

variable {cfg : AggConfig D} {p : Nat} {fed : List (Tuple D)} {s : AggState D}

/-- Projecting set `k` of phase `p`, which holds the rows `acc k`: the row of
that group, and a state whose sets above `k` still hold their rows. -/
theorem projectResult_spec (hsc : cfg.aggsplit.combine = true → ∀ pt ∈ cfg.pertrans, pt.numSortCols = 0)
    (hin : InPhase cfg p fed s) {k : Nat} (hk : s.projectedSet = k)
    (hkn : k < cfg.numGroupingSets p) {acc : Nat → List (Tuple D)} (h : SetsHold cfg p s k acc)
    (hrep : (prepareProjectionSlot cfg (cfg.phase p) s.firstSlot k).getD (allNullTuple cfg.natts) =
      (prepareProjectionSlot cfg (cfg.phase p) ((cfg.phase p).repHead k (acc k)) k).getD
        (allNullTuple cfg.natts)) :
    (projectResult cfg s).2 = projectAggregates cfg (sortedRow cfg p (k, acc k)) ∧
      InPhase cfg p fed (projectResult cfg s).1 ∧ SetsHold cfg p (projectResult cfg s).1 (k + 1) acc := by
  have hk' : s.projectedSet.toNat = k := by rw [hk]; rfl
  have hfin : finalizeOrdered cfg s.sortstates k (s.pergroup.getD k []) = runStates cfg (acc k) := by
    rw [h.pergroup k le_rfl hkn]
    exact finalizeOrdered_groupStates hsc (h.sorters k le_rfl hkn)
  refine ⟨?_, ?_, ?_⟩
  · rw [projectResult_snd]
    simp only [hk', hin.phase, hrep, finalizeAggregates, hfin]
    rfl
  · rw [projectResult_fst]
    exact ⟨⟨hin.phase, by simp [hin.pergroup_length], by simp [finalizeAggregates, hin.sortstates_length],
      length_sorters_mapIdx_withTrans hin.sorters_length (fun _ _ => by split <;> simp)⟩, hin.tables, hin.iters⟩
  · rw [projectResult_fst]
    constructor
    · intro j hj hjn
      simp only [hk']
      rw [List.getD_eq_getElem?_getD, List.getElem?_set_ne (by omega), ← List.getD_eq_getElem?_getD]
      exact h.pergroup j (by omega) hjn
    · intro j hj hjn transno pt hpt
      simp only [hk', finalizeAggregates]
      rw [sorter_mapIdx_withTrans hin.sortstates_length hpt]
      split
      · rw [List.getD_eq_getElem?_getD, List.getElem?_set_ne (by omega), ← List.getD_eq_getElem?_getD]
        exact h.sorters j (by omega) hjn transno pt hpt
      · exact h.sorters j (by omega) hjn transno pt hpt

/-- A pass that ends in `directProject`: its row, if HAVING keeps it. -/
theorem leads_directProject {hasGS : Bool} {s1 : AggState D} (hc : DirectCall cfg hasGS s)
    (hd : s.aggDone = false) (hb : directBody cfg hasGS s = .ok (directProject cfg s1))
    (hc1 : DirectCall cfg hasGS s1) :
    Leads cfg s (projectResult cfg s1).2.toList (projectResult cfg s1).1 := by
  have hc2 : DirectCall cfg hasGS (projectResult cfg s1).1 := hc1.update rfl rfl
  rw [directProject_eq] at hb
  rcases hr : projectResult cfg s1 with ⟨s', _ | o⟩ <;> rw [hr] at hb hc2
  · exact leads_direct_next hc hc2 hd hb
  · exact leads_direct_emit hc hd hb

end Project

/-! ## The passes of a phase -/

/-- The next pass, from `s`, starts a new group from `s0` (`s` itself, or the
first state of the next phase), resetting the first `r` sets; the sets from `r`
on hold the rows `acc`, and the rows `P` are still to be aggregated. -/
structure StartsGroup (cfg : AggConfig D) (hasGS : Bool) (p : Nat) (R fed : List (Tuple D)) (r : Nat)
    (acc : Nat → List (Tuple D)) (P : List (Tuple D)) (s s0 : AggState D) : Prop where
  call : DirectCall cfg hasGS s
  notDone : s.aggDone = false
  pass : directBody cfg hasGS s = directGroupStart cfg hasGS s0 r
  inPhase : InPhase cfg p fed s0
  reads : ReadsFrom cfg p R s0
  sets : SetsHold cfg p s0 r acc
  pending : s0.grpFirstTuple.toList ++ s0.inputRemaining = P
  inputDone : s0.inputDone = false
  aggDone : s0.aggDone = false

/-- The state after the passes over a run `X` of set `k`, before the rows `Z`:
set `k` was just projected, the slot holds the run's representative prepared
for it, and the sets above `k` hold the rows `acc`. -/
structure AfterRun (cfg : AggConfig D) (hasGS : Bool) (p : Nat) (R fed : List (Tuple D)) (k : Nat)
    (acc : Nat → List (Tuple D)) (X Z : List (Tuple D)) (s : AggState D) : Prop where
  inPhase : InPhase cfg p fed s
  reads : ReadsFrom cfg p R s
  sets : SetsHold cfg p s (k + 1) acc
  awaits : Awaits hasGS Z s
  projected : s.projectedSet = k
  slot : s.firstSlot = prepareProjectionSlot cfg (cfg.phase p) ((cfg.phase p).repHead k X) k

omit [Inhabited D] in
theorem Awaits.update {hasGS : Bool} {Z : List (Tuple D)} {s s' : AggState D} (h : Awaits hasGS Z s)
    (h1 : s'.grpFirstTuple = s.grpFirstTuple) (h2 : s'.inputRemaining = s.inputRemaining)
    (h3 : s'.tmpOuterTuple = s.tmpOuterTuple) (h4 : s'.inputDone = s.inputDone) (h5 : s'.aggDone = s.aggDone) :
    Awaits hasGS Z s' :=
  ⟨h1 ▸ h.first, h2 ▸ h.remaining, h3 ▸ h.tmp, h4 ▸ h.inputDone, h5 ▸ h.aggDone⟩

/-- The rows of the groups `gs` of phase `p`, as the node returns them. -/
def groupRows (cfg : AggConfig D) (p : Nat) (gs : List (Nat × List (Tuple D))) : List (AggOutput D) :=
  gs.filterMap fun g => projectAggregates cfg (sortedRow cfg p g)

theorem groupRows_append (cfg : AggConfig D) (p : Nat) (gs gs' : List (Nat × List (Tuple D))) :
    groupRows cfg p (gs ++ gs') = groupRows cfg p gs ++ groupRows cfg p gs' :=
  List.filterMap_append _ _ _

theorem groupRows_singleton (cfg : AggConfig D) (p : Nat) (g : Nat × List (Tuple D)) :
    groupRows cfg p [g] = (projectAggregates cfg (sortedRow cfg p g)).toList := by
  simp only [groupRows, List.filterMap_cons, List.filterMap_nil]
  cases projectAggregates cfg (sortedRow cfg p g) <;> rfl

omit [Inhabited D] in
/-- The first tuple of a new group: kept from the previous group, or fetched. -/
theorem directFirstTuple_pending (hasGS : Bool) {p : Nat} {R : List (Tuple D)} {s : AggState D}
    {g : Tuple D} {rest : List (Tuple D)} (h : s.grpFirstTuple.toList ++ s.inputRemaining = g :: rest)
    (hr : ReadsFrom cfg p R s) :
    ∃ a b c, directFirstTuple cfg hasGS s =
        .inr { s with sortIn := a, outer := b, sortOut := c, grpFirstTuple := some g } ∧
      ({ s with sortIn := a, outer := b, sortOut := c, grpFirstTuple := some g } : AggState D).inputRemaining =
        rest ∧
      ReadsFrom cfg p R { s with sortIn := a, outer := b, sortOut := c, grpFirstTuple := some g } := by
  cases hf : s.grpFirstTuple with
  | some g' =>
    rw [hf] at h
    simp only [Option.toList_some, List.singleton_append, List.cons.injEq] at h
    obtain ⟨rfl, hrest⟩ := h
    have hs : ({ s with sortIn := s.sortIn, outer := s.outer, sortOut := s.sortOut, grpFirstTuple := some g' } :
        AggState D) = s := by
      cases s; simp only at hf; rw [hf]
    refine ⟨s.sortIn, s.outer, s.sortOut, ?_, ?_, ?_⟩ <;> rw [hs]
    · simp [directFirstTuple, hf]
    · exact hrest
    · exact hr
  | none =>
    rw [hf] at h
    simp only [Option.toList_none, List.nil_append] at h
    refine ⟨s.sortIn.map List.tail, if s.sortIn.isSome then s.outer else s.outer.tail,
      s.sortOut.map (· ++ [g]), ?_, ?_, (hr.fetch h).update rfl rfl⟩
    · simp only [directFirstTuple, hf, fetchInputTuple_cons h]; rfl
    · show s.consume.inputRemaining = rest
      rw [inputRemaining_consume, h, List.tail_cons]

theorem InPhase.directCall {cfg : AggConfig D} {p : Nat} {hasGS : Bool} {fed : List (Tuple D)}
    {s : AggState D} (h : InPhase cfg p fed s) (hw : SortedPhase cfg p)
    (hgs : decide (0 < (cfg.phase p).numsets) = hasGS) : DirectCall cfg hasGS s :=
  .inr ⟨by rw [h.phase]; exact hw.strategy, by rw [h.phase]; exact hgs⟩

/-- After the run of set `k`, unless the phase's input is out with set `k` the
coarsest, the pass stays in the phase and would reset the sets up to `k`. -/
theorem directTop_afterRun {cfg : AggConfig D} {p : Nat} {hasGS : Bool} {R fed : List (Tuple D)} {k : Nat} {acc : Nat → List (Tuple D)}
    {X Z : List (Tuple D)} {s : AggState D} (ha : AfterRun cfg hasGS p R fed k acc X Z s)
    (hk : k < cfg.numGroupingSets p) (hmore : Z ≠ [] ∨ k + 1 < cfg.numGroupingSets p) :
    directTop cfg s = .inr (s, k + 1) := by
  have hd : ¬(s.inputDone = true ∧ ((cfg.numGroupingSets p : Nat) : Int) - 1 ≤ (k : Int)) := by
    rw [ha.awaits.inputDone]
    rcases hmore with h | h
    · cases Z with
      | nil => exact absurd rfl h
      | cons => simp
    · omega
  unfold directTop
  simp only [ha.inPhase.phase, ha.projected]
  rw [if_neg hd, if_pos ⟨by omega, by omega⟩, show ((k : Int) + 1).toNat = k + 1 by omega]

omit [Inhabited D] in
/-- With more than one set the phase has grouping sets. -/
theorem hasGS_of_two {cfg : AggConfig D} {p : Nat} {hasGS : Bool}
    (hgs : decide (0 < (cfg.phase p).numsets) = hasGS) {k : Nat} (hk : k + 1 < cfg.numGroupingSets p) : hasGS = true ∧ 0 < (cfg.phase p).numsets := by
  have : 0 < (cfg.phase p).numsets := by
    unfold AggConfig.numGroupingSets at hk; omega
  exact ⟨by rw [← hgs]; simpa using this, this⟩

section Passes

variable {cfg : AggConfig D} {p : Nat} {hasGS : Bool}
  (hl : ∀ ph ∈ cfg.perhash, HashSetLawful ph)
  (hcomb : cfg.aggsplit.combine = true →
    cfg.aggstrategy ≠ .mixed ∧ cfg.numGroupingSets p = 1 ∧ ∀ pt ∈ cfg.pertrans, pt.numSortCols = 0)
  (hw : SortedPhase cfg p) (hgs : decide (0 < (cfg.phase p).numsets) = hasGS)
include hl hcomb hw hgs

/-- A pass that starts a group `G` of the finest set: it reads the group's rows
into every set and returns the finest set's row. -/
theorem groupPass {R fed : List (Tuple D)} {r : Nat} (hr : 1 ≤ r) {acc : Nat → List (Tuple D)}
    {G Z : List (Tuple D)} {s s0 : AggState D} (hs : StartsGroup cfg hasGS p R fed r acc (G ++ Z) s s0)
    (hG : G ≠ []) (hchain : G.Chain' fun a b => (cfg.phase p).sameRun ((cfg.phase p).setLength 0) a b = true)
    (hZ : ∀ z ∈ Z.head?, ∀ x ∈ G.getLast?, (cfg.phase p).sameRun ((cfg.phase p).setLength 0) x z = false) :
    ∃ s', Leads cfg s (groupRows cfg p [(0, G)]) s' ∧
      AfterRun cfg hasGS p R (feedAfter cfg p fed G) 0 (fun j => (if j < r then [] else acc j) ++ G) G Z s' := by
  rw [hw.setLength_zero] at hchain hZ
  have hequiv := hw.boolEquiv (cfg.phase p).numCols
  have hrel := chain'_related hequiv hchain
  obtain ⟨g, G', rfl⟩ := List.exists_cons_of_ne_nil hG
  -- the group's rows agree with its first, the next row does not
  have hin : ∀ x ∈ G', (cfg.phase p).sameRun (cfg.phase p).numCols g x = true :=
    fun x hx => hrel g (.head _) x (.tail _ hx)
  have hout : ∀ z ∈ Z.head?, (cfg.phase p).sameRun (cfg.phase p).numCols g z = false := by
    intro z hz
    have hyz := hZ z hz _ (List.getLast_mem_getLast? hG)
    cases h : (cfg.phase p).sameRun (cfg.phase p).numCols g z
    · rfl
    · exact absurd (hequiv.trans _ _ _ (hrel _ (List.getLast_mem hG) g (.head _)) h) (by rw [hyz]; decide)
  obtain ⟨a, b, c, hfirst, hrem, hreads⟩ := directFirstTuple_pending hasGS
    (s := { s0 with projectedSet := 0 }) (by simpa using hs.pending) (hs.reads.update rfl rfl)
  let s1 : AggState D :=
    { s0 with projectedSet := 0, sortIn := a, outer := b, sortOut := c, grpFirstTuple := some g }
  obtain ⟨hin1, hs1⟩ := initializeAggregates_spec (hs.inPhase.update (t := s1) rfl rfl rfl rfl rfl) hw.lt
    (hs.sets.update (t := s1) rfl rfl)
  let u : AggState D :=
    { initializeAggregates cfg s1 r with firstSlot := some g, grpFirstTuple := none, tmpOuterTuple := some g }
  obtain ⟨u', hrun, hin', hr', hs', haw, hslot', hproj⟩ := advanceGroup_spec hl hcomb hw hasGS G'
    ((initializeAggregates cfg s1 r).inputRemaining.length + 1) u g fed (fun j => if j < r then [] else acc j)
    (hin1.update rfl rfl rfl rfl rfl) (hreads.update rfl rfl) (hs1.update rfl rfl) rfl rfl rfl hs.inputDone
    hs.aggDone hrem (by rw [show (initializeAggregates cfg s1 r).inputRemaining = G' ++ Z from hrem,
      List.length_append]; omega) hin hout
  have hb : directBody cfg hasGS s = .ok (directProject cfg u') := by
    rw [hs.pass, directGroupStart, directNewGroup, hfirst]
    dsimp only
    rw [show (initializeAggregates cfg s1 r).grpFirstTuple = some g from rfl]
    dsimp only
    rw [hrun]
    rfl
  have hc' : DirectCall cfg hasGS u' := hin'.directCall hw hgs
  obtain ⟨hrow, hinp, hsets⟩ := projectResult_spec (fun hc => (hcomb hc).2.2) hin'
    (hproj.trans rfl) (numGroupingSets_pos cfg p) hs'
    (by rw [hslot']; simp [AggStatePerPhase.repHead, Nat.lt_of_lt_of_le Nat.zero_lt_one hr])
  refine ⟨_, ?_, ⟨hinp, hr'.update rfl rfl, hsets, haw.update rfl rfl rfl rfl rfl, hproj.trans rfl, ?_⟩⟩
  · have hl' := leads_directProject hs.call hs.notDone hb hc'
    rw [hrow] at hl'
    rw [groupRows_singleton]
    simpa [Nat.lt_of_lt_of_le Nat.zero_lt_one hr] using hl'
  · rw [projectResult_fst]
    simp [hslot', hin'.phase, hproj, AggStatePerPhase.repHead]
    rfl

omit hl hcomb in
/-- The run of set `k + 1` ended with the run `X` of set `k`: out of input, or
the next row differs from the run's on set `k + 1`. -/
theorem directNextSetEnds_of_break {R fed : List (Tuple D)} {k : Nat} {acc : Nat → List (Tuple D)}
    {X Z : List (Tuple D)} {s : AggState D} (ha : AfterRun cfg hasGS p R fed k acc X Z s)
    (hX : X ≠ [] ∨ Z = []) (hk : k + 1 < cfg.numGroupingSets p)
    (hbreak : ∀ z ∈ Z.head?, ∀ a ∈ (cfg.phase p).repHead k X,
      (cfg.phase p).sameRun ((cfg.phase p).setLength (k + 1)) a z = false) :
    directNextSetEnds cfg s = true := by
  obtain ⟨hgsT, hpos⟩ := hasGS_of_two hgs hk
  unfold directNextSetEnds
  cases Z with
  | nil => simp [ha.awaits.inputDone, hgsT]
  | cons z Z =>
    obtain ⟨a, -, hrep⟩ := (cfg.phase p).repHead_mem k (hX.resolve_right (List.cons_ne_nil _ _))
    simp only [ha.inPhase.phase, ha.projected, ha.awaits.inputDone, hgsT, ha.slot, hrep]
    have hb := hbreak z rfl a hrep
    have hlen : (cfg.phase p).setLength (k + 1) = (cfg.phase p).gsetLengths.getD (k + 1) 0 := by
      rw [AggStatePerPhase.setLength, if_pos hpos]
    unfold AggStatePerPhase.sameRun at hb
    simp only [Bool.or_eq_false_iff, beq_eq_false_iff_ne] at hb
    have hm := hw.execTuplesMatch_prepareProjectionSlot (hw.setLength_antitone (Nat.le_succ k)) a z
    rw [hlen] at hm hb
    have hsize : 0 < (cfg.phase p).gsetLengths.getD (k + 1) 0 := by
      rcases Nat.eq_zero_or_pos ((cfg.phase p).gsetLengths.getD (k + 1) 0) with h0 | h0
      · rw [h0, execTuplesMatch_zero] at hb; exact absurd hb.2 (by decide)
      · exact h0
    have hnext : ((k : Int) + 1).toNat = k + 1 := by omega
    simp only [ha.awaits.tmp z rfl, Option.getD_some, hnext, if_pos (show 0 ≤ (k : Int) ∧
      (k : Int) < ((cfg.numGroupingSets p : Nat) : Int) - 1 by omega), hm, hb.1, hb.2, hsize]
    simp only [List.isEmpty_cons, Bool.and_false, Bool.false_or, Bool.not_false, Bool.and_true,
      decide_True, Bool.and_eq_true, decide_eq_true_eq]
    exact ⟨⟨hb.1, by omega⟩, by omega⟩

omit hl hcomb in
/-- The run of set `k + 1` goes on past the run `X` of set `k` into the next
row `z`, or set `k` is the coarsest. -/
theorem directNextSetEnds_of_cont {R fed : List (Tuple D)} {k : Nat} {acc : Nat → List (Tuple D)}
    {X Z : List (Tuple D)} {z : Tuple D} {s : AggState D}
    (ha : AfterRun cfg hasGS p R fed k acc X (z :: Z) s) (hX : X ≠ [])
    (hcont : cfg.numGroupingSets p ≤ k + 1 ∨ ∀ a ∈ (cfg.phase p).repHead k X,
      (cfg.phase p).sameRun ((cfg.phase p).setLength (k + 1)) a z = true) :
    directNextSetEnds cfg s = false := by
  obtain ⟨a, -, hrep⟩ := (cfg.phase p).repHead_mem k hX
  unfold directNextSetEnds
  simp only [ha.inPhase.phase, ha.projected, ha.awaits.inputDone, ha.slot, hrep, ha.awaits.tmp z rfl,
    Option.getD_some, List.isEmpty_cons, Bool.and_false, Bool.false_or]
  rcases hcont with hle | hsame
  · have : ¬((k : Int) < ((cfg.numGroupingSets p : Nat) : Int) - 1) := by omega
    simp [this]
  · by_cases hk : k + 1 < cfg.numGroupingSets p
    · obtain ⟨-, hpos⟩ := hasGS_of_two hgs hk
      have hb := hsame a hrep
      unfold AggStatePerPhase.sameRun at hb
      rw [AggStatePerPhase.setLength, if_pos hpos] at hb
      have hm := hw.execTuplesMatch_prepareProjectionSlot (n := (cfg.phase p).gsetLengths.getD (k + 1) 0)
        (by have h := hw.setLength_antitone (Nat.le_succ k); rwa [AggStatePerPhase.setLength, if_pos hpos] at h) a z
      have hnext : ((k : Int) + 1).toNat = k + 1 := by omega
      simp only [Bool.or_eq_true, beq_iff_eq] at hb
      have hcond : 0 ≤ (k : Int) ∧ (k : Int) < ((cfg.numGroupingSets p : Nat) : Int) - 1 := by omega
      rcases hb with hplain | hmatch
      · simp [hplain]
      · simp only [hnext, if_pos hcond, hm, hmatch, Bool.not_true, Bool.and_false]
    · have : ¬((k : Int) < ((cfg.numGroupingSets p : Nat) : Int) - 1) := by omega
      simp [this]

omit hl in
/-- The pass after the last run `X` of set `k` inside the run `Y` of set
`k + 1`: it returns set `k + 1`'s row for `Y`. -/
theorem setPass {R fed : List (Tuple D)} {k : Nat} (hk : k + 1 < cfg.numGroupingSets p)
    {acc : Nat → List (Tuple D)} {X Y Z : List (Tuple D)} {s : AggState D}
    (ha : AfterRun cfg hasGS p R fed k acc X Z s) (hX : X ≠ [] ∨ Z = []) (hacc : acc (k + 1) = Y)
    (hrep : (cfg.phase p).repHead (k + 1) Y = (cfg.phase p).repHead k X)
    (hbreak : ∀ z ∈ Z.head?, ∀ a ∈ (cfg.phase p).repHead k X,
      (cfg.phase p).sameRun ((cfg.phase p).setLength (k + 1)) a z = false) :
    ∃ s', Leads cfg s (groupRows cfg p [(k + 1, Y)]) s' ∧ AfterRun cfg hasGS p R fed (k + 1) acc Y Z s' := by
  have hb : directBody cfg hasGS s = .ok (directProject cfg { s with projectedSet := s.projectedSet + 1 }) := by
    rw [directBody, directTop_afterRun ha (by omega) (.inr hk)]
    dsimp only
    rw [directProjectNext, if_pos (directNextSetEnds_of_break hw hgs ha hX hk hbreak)]
    rfl
  have hc : DirectCall cfg hasGS s := ha.inPhase.directCall hw hgs
  have hd : s.aggDone = false := by rw [ha.awaits.aggDone, (hasGS_of_two hgs hk).1]; rfl
  let s1 : AggState D := { s with projectedSet := s.projectedSet + 1 }
  have hp1 : s1.projectedSet = ((k + 1 : Nat) : Int) := by simp [s1, ha.projected]
  have hslot1 : prepareProjectionSlot cfg (cfg.phase p) s1.firstSlot (k + 1) =
      prepareProjectionSlot cfg (cfg.phase p) ((cfg.phase p).repHead (k + 1) Y) (k + 1) := by
    rw [hrep]
    show prepareProjectionSlot cfg (cfg.phase p) s.firstSlot (k + 1) = _
    rw [ha.slot, hw.prepareProjectionSlot_twice (Nat.le_succ k)]
  obtain ⟨hrow, hinp, hsets⟩ := projectResult_spec (fun hc => (hcomb hc).2.2)
    (ha.inPhase.update (t := s1) rfl rfl rfl rfl rfl) hp1 hk (ha.sets.update rfl rfl)
    (by rw [hacc, hslot1])
  refine ⟨_, ?_, ⟨hinp, ha.reads.update rfl rfl, hsets, ha.awaits.update rfl rfl rfl rfl rfl, hp1, ?_⟩⟩
  · have hl' := leads_directProject hc hd hb (hc.update rfl rfl)
    rw [hrow, hacc] at hl'
    rw [groupRows_singleton]
    exact hl'
  · rw [projectResult_fst]
    show prepareProjectionSlot cfg (cfg.phase s1.currentPhase) s1.firstSlot s1.projectedSet.toNat = _
    rw [hp1, Int.toNat_ofNat, ha.inPhase.phase]
    exact hslot1

omit hl hcomb in
/-- After the run `X` of set `k`, when the run of set `k + 1` goes on into the
next row `z` (or `k` is the coarsest set), the next pass starts a group that
resets the sets up to `k`. -/
theorem continuePass {R fed : List (Tuple D)} {k : Nat} (hk : k < cfg.numGroupingSets p)
    {acc : Nat → List (Tuple D)} {X Z : List (Tuple D)} {z : Tuple D} {s : AggState D}
    (ha : AfterRun cfg hasGS p R fed k acc X (z :: Z) s) (hX : X ≠ [])
    (hcont : cfg.numGroupingSets p ≤ k + 1 ∨ ∀ a ∈ (cfg.phase p).repHead k X,
      (cfg.phase p).sameRun ((cfg.phase p).setLength (k + 1)) a z = true) :
    StartsGroup cfg hasGS p R fed (k + 1) acc (z :: Z) s s := by
  have hd : s.aggDone = false := by rw [ha.awaits.aggDone]; simp
  refine ⟨ha.inPhase.directCall hw hgs, hd, ?_, ha.inPhase, ha.reads, ha.sets, ?_, by rw [ha.awaits.inputDone]; simp, hd⟩
  · rw [directBody, directTop_afterRun ha hk (.inl (List.cons_ne_nil _ _))]
    dsimp only
    rw [directProjectNext, if_neg (by rw [directNextSetEnds_of_cont hw hgs ha hX hcont]; decide)]
  · rw [ha.awaits.first, ha.awaits.remaining]; rfl

end Passes

/-! ## The rollup of a run -/

theorem AfterRun.congr {cfg : AggConfig D} {hasGS : Bool} {p : Nat} {R fed fed' : List (Tuple D)} {k : Nat}
    {acc acc' : Nat → List (Tuple D)} {X Z : List (Tuple D)} {s : AggState D}
    (h : AfterRun cfg hasGS p R fed k acc X Z s) (hf : fed = fed') (ha : ∀ j, k + 1 ≤ j → acc j = acc' j) :
    AfterRun cfg hasGS p R fed' k acc' X Z s :=
  ⟨hf ▸ h.inPhase, h.reads, h.sets.congr ha, h.awaits, h.projected, h.slot⟩

/-- The groups of a set over a non-empty run split it as `List.splitBy` does;
a set that is one group over its input relates any two rows. -/
theorem AggStatePerPhase.runsOf_runs (ph : AggStatePerPhase D) (k : Nat) {X : List (Tuple D)} (hX : X ≠ []) :
    RunsOf (ph.sameRun (ph.setLength k)) X (ph.runs k X) := by
  unfold AggStatePerPhase.runs
  split
  · rename_i hwhole
    exact ⟨List.flatten_singleton X, by simpa using hX,
      by simpa using (List.pairwise_of_forall fun a b => AggStatePerPhase.sameRun_of_wholeInput hwhole a b).chain',
      List.chain'_singleton _⟩
  · exact runsOf_splitBy _ X

/-- The passes over a run `X` of set `k`, from a state that starts its first
group with the sets up to `k` to be reset, return the rows of `rollup k X`;
afterwards the coarser sets hold `X` too. -/
def RunsTo (cfg : AggConfig D) (hasGS : Bool) (p k : Nat) : Prop :=
  ∀ (R fed : List (Tuple D)) (r : Nat) (acc : Nat → List (Tuple D)) (X Z : List (Tuple D))
    (s s0 : AggState D), k + 1 ≤ r → r ≤ cfg.numGroupingSets p →
    StartsGroup cfg hasGS p R fed r acc (X ++ Z) s s0 → X ≠ [] →
    X.Chain' (fun a b => (cfg.phase p).sameRun ((cfg.phase p).setLength k) a b = true) →
    (∀ z ∈ Z.head?, ∀ x ∈ X.getLast?, (cfg.phase p).sameRun ((cfg.phase p).setLength k) x z = false) →
    ∃ s', Leads cfg s (groupRows cfg p ((cfg.phase p).rollup k X)) s' ∧
      AfterRun cfg hasGS p R (feedAfter cfg p fed X) k (fun j => (if j < r then [] else acc j) ++ X) X Z s'

section Rollup

variable {cfg : AggConfig D} {p : Nat} {hasGS : Bool}
  (hl : ∀ ph ∈ cfg.perhash, HashSetLawful ph)
  (hcomb : cfg.aggsplit.combine = true →
    cfg.aggstrategy ≠ .mixed ∧ cfg.numGroupingSets p = 1 ∧ ∀ pt ∈ cfg.pertrans, pt.numSortCols = 0)
  (hw : SortedPhase cfg p) (hgs : decide (0 < (cfg.phase p).numsets) = hasGS)
include hl hcomb hw hgs

theorem runsTo_zero : RunsTo cfg hasGS p 0 := by
  intro R fed r acc X Z s s0 hr _ hs hX hchain hZ
  simpa [AggStatePerPhase.rollup] using groupPass hl hcomb hw hgs hr hs hX hchain hZ

omit hl hcomb in
/-- The passes over consecutive runs `Ys` of set `k` inside one run of set
`k + 1`: the rows of each run's rollup, one run after the other. -/
theorem leads_runs {k : Nat} (hrun : RunsTo cfg hasGS p k) :
    ∀ (Ys : List (List (Tuple D))) (R fed : List (Tuple D)) (r : Nat) (acc : Nat → List (Tuple D))
      (Z : List (Tuple D)) (s s0 : AggState D), k + 1 ≤ r → r ≤ cfg.numGroupingSets p →
      StartsGroup cfg hasGS p R fed r acc (Ys.flatten ++ Z) s s0 → Ys ≠ [] →
      RunsOf ((cfg.phase p).sameRun ((cfg.phase p).setLength k)) Ys.flatten Ys →
      Ys.Chain' (fun Y Y' => cfg.numGroupingSets p ≤ k + 1 ∨
        ∀ a ∈ Y, ∀ b ∈ Y', (cfg.phase p).sameRun ((cfg.phase p).setLength (k + 1)) a b = true) →
      (∀ z ∈ Z.head?, ∀ x ∈ Ys.flatten.getLast?,
        (cfg.phase p).sameRun ((cfg.phase p).setLength k) x z = false) →
      ∃ s' X, Ys.getLast? = some X ∧ Leads cfg s (groupRows cfg p (Ys.flatMap ((cfg.phase p).rollup k))) s' ∧
        AfterRun cfg hasGS p R (feedAfter cfg p fed Ys.flatten) k
          (fun j => (if j < r then [] else acc j) ++ Ys.flatten) X Z s'
  | [], _, _, _, _, _, _, _, _, _, _, hne, _, _, _ => absurd rfl hne
  | [Y], R, fed, r, acc, Z, s, s0, hr, hrn, hs, _, hruns, _, hZ => by
    simp only [List.flatten_cons, List.flatten_nil, List.append_nil] at hs hZ ⊢
    obtain ⟨s', hl', ha⟩ := hrun R fed r acc Y Z s s0 hr hrn hs (hruns.ne_nil Y (.head _))
      (hruns.chain Y (.head _)) hZ
    exact ⟨s', Y, rfl, by simpa using hl', ha⟩
  | Y :: Y' :: Ys, R, fed, r, acc, Z, s, s0, hr, hrn, hs, _, hruns, hcont, hZ => by
    have hY := hruns.ne_nil Y (.head _)
    have hY' := hruns.ne_nil Y' (.tail _ (.head _))
    obtain ⟨y, Y'', rfl⟩ := List.exists_cons_of_ne_nil hY'
    obtain ⟨⟨_, _, hbd⟩, hbd'⟩ := List.chain'_cons.mp hruns.boundary
    obtain ⟨hcont1, hcont'⟩ := List.chain'_cons.mp hcont
    -- the first run
    obtain ⟨s1, hl1, ha1⟩ := hrun R fed r acc Y ((y :: Y'') ++ Ys.flatten ++ Z) s s0 hr hrn
      (by simpa [List.append_assoc] using hs) hY (hruns.chain Y (.head _)) (by
        intro z hz x hx
        rw [List.getLast?_eq_getLast _ hY, Option.mem_def, Option.some.injEq] at hx
        simp only [List.cons_append, List.head?_cons, Option.mem_def, Option.some.injEq] at hz
        rw [← hx, ← hz]
        exact hbd)
    -- the next runs, from a group start that resets the sets up to `k`
    have hs1 := continuePass hw hgs (by omega) ha1 hY (by
      rcases hcont1 with h | h
      · exact .inl h
      · obtain ⟨a, haY, hrep⟩ := (cfg.phase p).repHead_mem k hY
        exact .inr fun a' ha' => by
          rw [hrep, Option.mem_def, Option.some.injEq] at ha'
          exact ha' ▸ h a haY y (.head _))
    obtain ⟨s', X, hlast, hl2, ha2⟩ := leads_runs hrun ((y :: Y'') :: Ys) R (feedAfter cfg p fed Y) (k + 1)
      (fun j => (if j < r then [] else acc j) ++ Y) Z s1 s1 le_rfl (by omega) (by simpa using hs1)
      (List.cons_ne_nil _ _)
      ⟨rfl, fun g hg => hruns.ne_nil g (.tail _ hg), fun g hg => hruns.chain g (.tail _ hg), hbd'⟩ hcont'
      (by simpa using hZ)
    refine ⟨s', X, by simpa using hlast, ?_, ha2.congr (by rw [feedAfter_append]; simp) ?_⟩
    · have := hl1.trans hl2
      simpa [groupRows_append, List.flatMap_cons] using this
    · intro j hj
      simp [show ¬j < k + 1 by omega, List.append_assoc]

omit hl in
/-- A run of set `k + 1` is the runs of set `k` inside it, then set `k + 1`'s
own row. -/
theorem runsTo_succ {k : Nat} (hrun : RunsTo cfg hasGS p k) : RunsTo cfg hasGS p (k + 1) := by
  intro R fed r acc X Z s s0 hr hrn hs hX hchain hZ
  have hk : k + 1 < cfg.numGroupingSets p := by omega
  have hruns := (cfg.phase p).runsOf_runs k hX
  obtain ⟨hne, hsub⟩ := (cfg.phase p).runs_ne_nil k hX
  have hequiv := hw.boolEquiv ((cfg.phase p).setLength (k + 1))
  have hrel := chain'_related hequiv hchain
  -- a row of `X` and the row after `X` differ on set `k + 1`
  have hafter : ∀ z ∈ Z.head?, ∀ a ∈ X,
      (cfg.phase p).sameRun ((cfg.phase p).setLength (k + 1)) a z = false := by
    intro z hz a ha
    have hx := hZ z hz _ (List.getLast_mem_getLast? hX)
    cases h : (cfg.phase p).sameRun ((cfg.phase p).setLength (k + 1)) a z
    · rfl
    · exact absurd (hequiv.trans _ _ _ (hrel _ (List.getLast_mem hX) a ha) h) (by rw [hx]; decide)
  obtain ⟨s1, Xn, hlast, hl1, ha1⟩ := leads_runs hw hgs hrun ((cfg.phase p).runs k X) R fed r acc Z
    s s0 (by omega) hrn (by rw [hruns.flatten]; exact hs) hne (by rw [hruns.flatten]; exact hruns)
    (List.pairwise_of_forall_mem_list fun Y hY Y' hY' =>
      .inr fun a ha b hb => hrel a ((hsub Y hY).2 a ha) b ((hsub Y' hY').2 b hb)).chain'
    (by
      rw [hruns.flatten]
      intro z hz x hx
      cases h : (cfg.phase p).sameRun ((cfg.phase p).setLength k) x z
      · rfl
      · exact absurd (hw.sameRun_of_le (Nat.le_succ k) h) (by rw [hZ z hz x hx]; decide))
  have hXn := (hsub Xn (List.mem_of_getLast?_eq_some hlast))
  obtain ⟨s', hl2, ha2⟩ := setPass hcomb hw hgs hk ha1 (.inl hXn.1) (Y := X)
    (by simp [hruns.flatten, show k + 1 < r by omega])
    (by simp [AggStatePerPhase.repHead, hlast])
    (fun z hz a ha => by
      obtain ⟨a', ha', hrep⟩ := (cfg.phase p).repHead_mem k hXn.1
      rw [hrep, Option.mem_def, Option.some.injEq] at ha
      exact ha ▸ hafter z hz a' (hXn.2 a' ha'))
  refine ⟨s', ?_, ha2.congr (by rw [hruns.flatten]) fun j _ => by rw [hruns.flatten]⟩
  rw [AggStatePerPhase.rollup, groupRows_append]
  exact hl1.trans hl2

theorem runsTo_all (k : Nat) : RunsTo cfg hasGS p k := by
  induction k with
  | zero => exact runsTo_zero hl hcomb hw hgs
  | succ k ih => exact runsTo_succ hcomb hw hgs ih

end Rollup

/-! ## A whole phase -/

/-- The end of phase `p`'s input with every set projected: the next pass
switches phase, hands over to the hash scan, or ends the scan. -/
structure PhaseDone (cfg : AggConfig D) (p : Nat) (R fed : List (Tuple D)) (s : AggState D) : Prop where
  inPhase : InPhase cfg p fed s
  reads : ReadsFrom cfg p R s
  remaining : s.inputRemaining = []
  first : s.grpFirstTuple = none
  inputDone : s.inputDone = true
  aggDone : s.aggDone = false
  projected : ((cfg.numGroupingSets p : Nat) : Int) - 1 ≤ s.projectedSet
  emptySlot : R = [] → s.firstSlot = none ∨ s.firstSlot = some (allNullTuple cfg.natts)

/-- The slot of an empty input, prepared for a set of a phase with grouping
sets: all NULL. -/
theorem SortedPhase.prepareProjectionSlot_empty {cfg : AggConfig D} {p : Nat} (hw : SortedPhase cfg p)
    (hpos : 0 < (cfg.phase p).numsets) {slot : Option (Tuple D)}
    (h : slot = none ∨ slot = some (allNullTuple cfg.natts)) (k : Nat) :
    prepareProjectionSlot cfg (cfg.phase p) slot k = some (allNullTuple cfg.natts) := by
  obtain ⟨hg, -⟩ := hw.groupedCols_getD hpos k
  rcases h with rfl | rfl <;> simp only [prepareProjectionSlot, hg, nullOutside_allNull]

/-- The representative of an empty input, with or without grouping sets: all
NULL. -/
theorem SortedPhase.prepareProjectionSlot_empty_getD {cfg : AggConfig D} {p : Nat} (hw : SortedPhase cfg p)
    {slot : Option (Tuple D)} (h : slot = none ∨ slot = some (allNullTuple cfg.natts)) (k : Nat) :
    (prepareProjectionSlot cfg (cfg.phase p) slot k).getD (allNullTuple cfg.natts) = allNullTuple cfg.natts := by
  by_cases hpos : 0 < (cfg.phase p).numsets
  · rw [hw.prepareProjectionSlot_empty hpos h]; rfl
  · have hg : (cfg.phase p).groupedCols = none := by rw [hw.groupedCols, if_neg hpos]
    rcases h with rfl | rfl <;> simp only [prepareProjectionSlot, hg] <;> rfl

omit [Inhabited D] in
theorem topSet_succ (cfg : AggConfig D) (p : Nat) : (cfg.phase p).topSet + 1 = cfg.numGroupingSets p := by
  unfold AggStatePerPhase.topSet AggConfig.numGroupingSets; omega

omit [Inhabited D] in
/-- The first tuple of a group on empty input, with grouping sets: the input
is done and the projection moves to the first zero-length set. -/
theorem directFirstTuple_nil_gs {cfg : AggConfig D} {p : Nat} {s : AggState D} (hph : s.currentPhase = p)
    (hf : s.grpFirstTuple = none) (hrem : s.inputRemaining = []) :
    directFirstTuple cfg true s =
      let ps := firstEmptySet (cfg.phase p).gsetLengths (cfg.numGroupingSets p)
      if cfg.numGroupingSets p ≤ ps then .inl (.next { s with inputDone := true, projectedSet := ps })
      else .inr { s with inputDone := true, projectedSet := ps } := by
  subst hph
  unfold directFirstTuple
  rw [fetchInputTuple_nil hrem]
  split
  · rename_i h; rw [hf] at h; cases h
  · rfl

omit [Inhabited D] in
/-- Without grouping sets, on empty input the scan ends; AGG_PLAIN still
projects its one group. -/
theorem directFirstTuple_nil_plain {cfg : AggConfig D} {s : AggState D} (hf : s.grpFirstTuple = none)
    (hrem : s.inputRemaining = []) :
    directFirstTuple cfg false s =
      if (cfg.phase s.currentPhase).aggstrategy ≠ .plain then .inl (.done { s with aggDone := true })
      else .inr { s with aggDone := true } := by
  unfold directFirstTuple
  rw [fetchInputTuple_nil hrem]
  split
  · rename_i h; rw [hf] at h; cases h
  · rfl

omit [Inhabited D] in
theorem pending_nil {s : AggState D} (h : s.grpFirstTuple.toList ++ s.inputRemaining = []) :
    s.grpFirstTuple = none ∧ s.inputRemaining = [] := by
  cases hf : s.grpFirstTuple <;> simp_all

theorem AfterRun.phaseDone {cfg : AggConfig D} {p : Nat} {R fed : List (Tuple D)} {k : Nat}
    {acc : Nat → List (Tuple D)} {X : List (Tuple D)} {s : AggState D} (hw : SortedPhase cfg p)
    (hpos : 0 < (cfg.phase p).numsets) (ha : AfterRun cfg true p R fed k acc X [] s)
    (hk : k + 1 = cfg.numGroupingSets p) (hR : R = [] → X = []) : PhaseDone cfg p R fed s :=
  ⟨ha.inPhase, ha.reads, ha.awaits.remaining, ha.awaits.first, ha.awaits.inputDone, ha.awaits.aggDone,
    by rw [ha.projected]; omega, fun h => .inr (by
      rw [ha.slot, hR h, AggStatePerPhase.repHead_nil]
      exact hw.prepareProjectionSlot_empty hpos (.inl rfl) k)⟩

section WholePhase

variable {cfg : AggConfig D} {p : Nat} {hasGS : Bool}
  (hl : ∀ ph ∈ cfg.perhash, HashSetLawful ph)
  (hcomb : cfg.aggsplit.combine = true →
    cfg.aggstrategy ≠ .mixed ∧ cfg.numGroupingSets p = 1 ∧ ∀ pt ∈ cfg.pertrans, pt.numSortCols = 0)
  (hw : SortedPhase cfg p) (hgs : decide (0 < (cfg.phase p).numsets) = hasGS)
include hl hcomb hw hgs

omit hl in
/-- On empty input, after projecting set `j`, the passes project the sets
after it, each over no rows. -/
theorem leads_emptySets {R fed : List (Tuple D)} {acc : Nat → List (Tuple D)}
    (hacc : ∀ j, j < cfg.numGroupingSets p → acc j = []) :
    ∀ (m j : Nat) (s : AggState D), j + 1 + m = cfg.numGroupingSets p →
      AfterRun cfg hasGS p R fed j acc [] [] s →
      ∃ s', Leads cfg s (groupRows cfg p ((List.range' (j + 1) m).map fun j => (j, []))) s' ∧
        AfterRun cfg hasGS p R fed (cfg.numGroupingSets p - 1) acc [] [] s'
  | 0, j, s, hm, ha => ⟨s, Leads.refl s, by rw [← hm]; simpa using ha⟩
  | m + 1, j, s, hm, ha => by
    obtain ⟨s1, hl1, ha1⟩ := setPass hcomb hw hgs (by omega) ha (.inr rfl) (hacc (j + 1) (by omega))
      (by rw [AggStatePerPhase.repHead_nil, AggStatePerPhase.repHead_nil]) (by simp)
    obtain ⟨s', hl2, ha2⟩ := leads_emptySets hacc m (j + 1) s1 (by omega) ha1
    refine ⟨s', ?_, ha2⟩
    rw [List.range'_succ, List.map_cons, ← List.singleton_append, groupRows_append]
    exact hl1.trans hl2

omit hl in
/-- A phase with grouping sets over empty input: one row for each set from the
first zero-length one on, then the end of the phase. -/
theorem leads_emptyPhase {fed : List (Tuple D)} {acc : Nat → List (Tuple D)} {s s0 : AggState D}
    (hgsT : hasGS = true) (hs : StartsGroup cfg hasGS p [] fed (cfg.numGroupingSets p) acc [] s s0)
    (hslot : s0.firstSlot = none ∨ s0.firstSlot = some (allNullTuple cfg.natts)) :
    ∃ s', Leads cfg s (phaseRows cfg p []) s' ∧ PhaseDone cfg p [] fed s' := by
  subst hgsT
  have hpos : 0 < (cfg.phase p).numsets := by simpa using hgs
  obtain ⟨hf, hrem⟩ := pending_nil hs.pending
  let ps := firstEmptySet (cfg.phase p).gsetLengths (cfg.numGroupingSets p)
  have hrows : phaseRows cfg p [] =
      groupRows cfg p ((List.range' ps (cfg.numGroupingSets p - ps)).map fun j => (j, [])) := by
    rw [phaseRows, AggStatePerPhase.phaseGroups, hw.flatMap_rollup_nil hpos, topSet_succ]; rfl
  let s1 : AggState D := { s0 with inputDone := true, projectedSet := (ps : Int) }
  have hin1 : InPhase cfg p fed s1 := hs.inPhase.update rfl rfl rfl rfl rfl
  have hfirst : directFirstTuple cfg true { s0 with projectedSet := 0 } =
      if cfg.numGroupingSets p ≤ ps then .inl (.next s1) else .inr s1 :=
    directFirstTuple_nil_gs hs.inPhase.phase hf hrem
  by_cases hle : cfg.numGroupingSets p ≤ ps
  · -- no zero-length set: the phase ends at once
    have hb : directBody cfg true s = .ok (.next s1) := by
      rw [hs.pass, directGroupStart, directNewGroup, hfirst, if_pos hle]; rfl
    refine ⟨s1, ?_, ⟨hin1, hs.reads.update rfl rfl, hrem, hf, rfl, hs.aggDone, ?_, fun _ => hslot⟩⟩
    · rw [hrows, show cfg.numGroupingSets p - ps = 0 by omega]
      exact leads_direct_next hs.call (hin1.directCall hw hgs) hs.notDone hb
    · show _ ≤ ((ps : Nat) : Int); omega
  · -- the first zero-length set, over no rows, then the sets after it
    have hlt : ps < cfg.numGroupingSets p := Nat.lt_of_not_le hle
    let acc' : Nat → List (Tuple D) := fun j => if j < cfg.numGroupingSets p then [] else acc j
    have hacc' : ∀ j, j < cfg.numGroupingSets p → acc' j = [] := fun j hj => if_pos hj
    let s2 := initializeAggregates cfg s1 (cfg.numGroupingSets p)
    have hb : directBody cfg true s = .ok (directProject cfg s2) := by
      rw [hs.pass, directGroupStart, directNewGroup, hfirst, if_neg hle]
      dsimp only
      rw [show s2.grpFirstTuple = none from hf]
      rfl
    obtain ⟨hin2, hs2⟩ := initializeAggregates_spec hin1 hw.lt (hs.sets.update (t := s1) rfl rfl)
    have hempty : ∀ slot, slot = none ∨ slot = some (allNullTuple cfg.natts) →
        prepareProjectionSlot cfg (cfg.phase p) slot ps =
          prepareProjectionSlot cfg (cfg.phase p) ((cfg.phase p).repHead ps []) ps := fun slot h => by
      rw [AggStatePerPhase.repHead_nil, hw.prepareProjectionSlot_empty hpos h,
        hw.prepareProjectionSlot_empty hpos (.inl rfl)]
    obtain ⟨hrow, hinp, hsets⟩ := projectResult_spec (fun hc => (hcomb hc).2.2) hin2 (k := ps) rfl
      hlt (hs2.mono (Nat.zero_le _)) (by rw [if_pos hlt, hempty s2.firstSlot hslot])
    have ha : AfterRun cfg true p [] fed ps acc' [] [] (projectResult cfg s2).1 := by
      refine ⟨hinp, (hs.reads.update rfl rfl).update rfl rfl, hsets, ?_, by rw [projectResult_fst]; rfl, ?_⟩
      · rw [projectResult_fst]; exact ⟨hf, hrem, by simp, rfl, hs.aggDone⟩
      · rw [projectResult_fst]
        show prepareProjectionSlot cfg (cfg.phase s2.currentPhase) s2.firstSlot ps = _
        rw [hin2.phase]
        exact hempty s2.firstSlot hslot
    obtain ⟨s', hl2, ha2⟩ := leads_emptySets hcomb hw hgs hacc' (cfg.numGroupingSets p - 1 - ps) ps _
      (by omega) ha
    refine ⟨s', ?_, ha2.phaseDone hw hpos (by omega) fun _ => rfl⟩
    have hl1 := leads_directProject hs.call hs.notDone hb (hin2.directCall hw hgs)
    rw [hrow, if_pos hlt] at hl1
    rw [hrows, show cfg.numGroupingSets p - ps = cfg.numGroupingSets p - 1 - ps + 1 by omega, List.range'_succ,
      List.map_cons, ← List.singleton_append, groupRows_append, groupRows_singleton]
    exact hl1.trans hl2


/-- A phase over non-empty input: the rows of its groups, up to the last run
of the coarsest set. -/
theorem leads_nonemptyPhase {R fed : List (Tuple D)} {acc : Nat → List (Tuple D)} {s s0 : AggState D}
    (hR : R ≠ []) (hs : StartsGroup cfg hasGS p R fed (cfg.numGroupingSets p) acc R s s0) :
    ∃ s' X, Leads cfg s (phaseRows cfg p R) s' ∧
      AfterRun cfg hasGS p R (feedAfter cfg p fed R) (cfg.phase p).topSet
        (fun j => (if j < cfg.numGroupingSets p then [] else acc j) ++ R) X [] s' := by
  have hT := topSet_succ cfg p
  have hruns := (cfg.phase p).runsOf_runs (cfg.phase p).topSet hR
  obtain ⟨s', X, -, hl', ha⟩ := leads_runs hw hgs (runsTo_all hl hcomb hw hgs (cfg.phase p).topSet)
    ((cfg.phase p).runs (cfg.phase p).topSet R) R fed (cfg.numGroupingSets p) acc [] s s0 (by omega) le_rfl
    (by rw [hruns.flatten, List.append_nil]; exact hs) ((cfg.phase p).runs_ne_nil _ hR).1
    (by rw [hruns.flatten]; exact hruns) (List.pairwise_of_forall fun _ _ => .inl (by omega)).chain'
    (fun z hz => by simp at hz)
  exact ⟨s', X, hl', ha.congr (by rw [hruns.flatten]) fun j _ => by rw [hruns.flatten]⟩

/-- A phase with grouping sets, from the pass that starts its first group to
the end of its input: the rows of `phaseRows`. -/
theorem leads_phase (hgsT : hasGS = true) {R fed : List (Tuple D)} {acc : Nat → List (Tuple D)}
    {s s0 : AggState D} (hs : StartsGroup cfg hasGS p R fed (cfg.numGroupingSets p) acc R s s0)
    (hslot : R = [] → s0.firstSlot = none ∨ s0.firstSlot = some (allNullTuple cfg.natts)) :
    ∃ s', Leads cfg s (phaseRows cfg p R) s' ∧ PhaseDone cfg p R (feedAfter cfg p fed R) s' := by
  rcases eq_or_ne R [] with rfl | hR
  · rw [feedAfter_nil]; exact leads_emptyPhase hcomb hw hgs hgsT hs (hslot rfl)
  · obtain ⟨s', X, hl', ha⟩ := leads_nonemptyPhase hl hcomb hw hgs hR hs
    subst hgsT
    exact ⟨s', hl', ha.phaseDone hw (by simpa using hgs) (topSet_succ cfg p) fun h => absurd h hR⟩

/-- A phase without grouping sets: the rows of `phaseRows`, and the scan ends
with them. -/
theorem scanTo_phase (hgsF : hasGS = false) {R fed : List (Tuple D)} {acc : Nat → List (Tuple D)}
    {s s0 : AggState D} (hs : StartsGroup cfg hasGS p R fed (cfg.numGroupingSets p) acc R s s0)
    (hslot : R = [] → s0.firstSlot = none ∨ s0.firstSlot = some (allNullTuple cfg.natts)) :
    ∃ sf, ScanTo cfg s (phaseRows cfg p R) sf := by
  subst hgsF
  rcases eq_or_ne R [] with rfl | hR
  · have hpos : ¬0 < (cfg.phase p).numsets := by simpa using hgs
    obtain ⟨hf, hrem⟩ := pending_nil hs.pending
    have hT : (cfg.phase p).topSet = 0 := by
      have := topSet_succ cfg p; unfold AggConfig.numGroupingSets at this; omega
    let s1 : AggState D := { s0 with projectedSet := 0, aggDone := true }
    have hfirst : directFirstTuple cfg false { s0 with projectedSet := 0 } =
        if (cfg.phase s0.currentPhase).aggstrategy ≠ .plain then .inl (.done s1) else .inr s1 :=
      directFirstTuple_nil_plain (s := { s0 with projectedSet := 0 }) hf hrem
    by_cases hplain : (cfg.phase p).aggstrategy = .plain
    · -- AGG_PLAIN: one row over no rows
      let s2 := initializeAggregates cfg s1 (cfg.numGroupingSets p)
      have hb : directBody cfg false s = .ok (directProject cfg s2) := by
        rw [hs.pass, directGroupStart, directNewGroup, hfirst, if_neg (by rw [hs.inPhase.phase]; exact not_not.mpr hplain)]
        dsimp only
        rw [show s2.grpFirstTuple = none from hf]
        rfl
      obtain ⟨hin2, hs2⟩ := initializeAggregates_spec (hs.inPhase.update (t := s1) rfl rfl rfl rfl rfl) hw.lt
        (hs.sets.update rfl rfl)
      have h0 := numGroupingSets_pos cfg p
      obtain ⟨hrow, -, -⟩ := projectResult_spec (fun hc => (hcomb hc).2.2) hin2 (k := 0) rfl h0 hs2
        (by rw [if_pos h0, AggStatePerPhase.repHead_nil, hw.prepareProjectionSlot_empty_getD (.inl rfl)]
            exact hw.prepareProjectionSlot_empty_getD (hslot rfl) 0)
      have hl1 := leads_directProject hs.call hs.notDone hb (.inl rfl)
      rw [hrow, if_pos h0] at hl1
      have hw0 : (cfg.phase p).wholeInput 0 = true := by simp [AggStatePerPhase.wholeInput, hpos, hplain]
      have hrows : phaseRows cfg p [] = groupRows cfg p [(0, [])] := by
        show groupRows cfg p ((cfg.phase p).phaseGroups []) = _
        rw [AggStatePerPhase.phaseGroups, hT, AggStatePerPhase.runs_nil, if_pos hw0]; rfl
      rw [hrows, groupRows_singleton]
      exact ⟨_, by simpa using hl1 [] _ (scanTo_of_aggDone (by rw [projectResult_fst]; rfl))⟩
    · -- otherwise NULL at once
      have hb : directBody cfg false s = .ok (.done s1) := by
        rw [hs.pass, directGroupStart, directNewGroup, hfirst, if_pos (by rw [hs.inPhase.phase]; exact hplain)]
        rfl
      refine ⟨s1, ?_⟩
      rw [show phaseRows cfg p [] = [] by
        rw [phaseRows, AggStatePerPhase.phaseGroups, hT, AggStatePerPhase.runs_nil]
        simp [AggStatePerPhase.wholeInput, hpos, hplain]]
      exact scanTo_direct_done hs.call hs.notDone hb
  · obtain ⟨s', X, hl', ha⟩ := leads_nonemptyPhase hl hcomb hw hgs hR hs
    exact ⟨s', by simpa using hl' [] s' (scanTo_of_aggDone (by rw [ha.awaits.aggDone]; rfl))⟩

end WholePhase

/-! ## Between phases -/

section Between

variable {cfg : AggConfig D} {p : Nat} {hasGS : Bool} {R fed : List (Tuple D)} {s : AggState D}

/-- A state of a phase whose sets from `lo` on are past the last set. -/
theorem SetsHold.of_ge {lo : Nat} (h : cfg.numGroupingSets p ≤ lo) (acc : Nat → List (Tuple D)) :
    SetsHold cfg p s lo acc :=
  ⟨fun _ hj hjn => absurd (lt_of_lt_of_le hjn h) (Nat.not_lt.mpr hj),
    fun _ hj hjn => absurd (lt_of_lt_of_le hjn h) (Nat.not_lt.mpr hj)⟩

/-- The head of the pass after a phase's last projection: the switch to the
next phase, the hand-over to the hash scan, or the end. -/
theorem PhaseDone.directTop (hd : PhaseDone cfg p R fed s) :
    directTop cfg s =
      if p + 1 < cfg.numphases then
        .inr ({ initializePhase cfg s (p + 1) with inputDone := false, projectedSet := -1 },
          cfg.numGroupingSets (p + 1))
      else if cfg.aggstrategy = .mixed then
        .inl (.hashed { initializePhase cfg s 0 with
          tableFilled := true, currentSet := 0, hashiters := s.hashiters.set 0 0 })
      else .inl (.done { s with aggDone := true }) := by
  have hph := hd.inPhase.phase
  subst hph
  unfold directTop
  rw [if_pos ⟨hd.inputDone, hd.projected⟩]
  rfl

/-- The first pass of the next phase starts its first group over the rows the
phase read, sorted by the next phase's Sort node. -/
theorem PhaseDone.startsGroup (hd : PhaseDone cfg p R fed s) (hp : 1 ≤ p) (hnext : p + 1 < cfg.numphases)
    (hc : DirectCall cfg hasGS s) (acc : Nat → List (Tuple D)) :
    StartsGroup cfg hasGS (p + 1) ((cfg.phase (p + 1)).sortnode R) fed (cfg.numGroupingSets (p + 1)) acc
      ((cfg.phase (p + 1)).sortnode R) s
      { initializePhase cfg s (p + 1) with inputDone := false, projectedSet := -1 } := by
  obtain ⟨read, hread, hout⟩ := hd.reads
  rw [hd.remaining, List.append_nil] at hread
  subst hread
  have hsort : s.sortOut = some read := by
    rw [hout, sortOutOf, if_pos ⟨hp, by omega⟩]
  refine ⟨hc, hd.aggDone, ?_, ⟨⟨rfl, hd.inPhase.pergroup_length, hd.inPhase.sortstates_length,
    hd.inPhase.sorters_length⟩, hd.inPhase.tables, hd.inPhase.iters⟩, ⟨[], ?_, rfl⟩, SetsHold.of_ge le_rfl acc,
    ?_, rfl, hd.aggDone⟩
  · rw [directBody, hd.directTop, if_pos hnext]
    dsimp only
    rw [directProjectNext, if_neg (by simp [directNextSetEnds])]
  · simp [AggState.inputRemaining, initializePhase, hsort, Nat.pos_iff_ne_zero.mp hp]
  · simp [hd.first, AggState.inputRemaining, initializePhase, hsort, Nat.pos_iff_ne_zero.mp hp]

/-- After the last phase of an AGG_MIXED node, the scan of the hash tables,
which hold the classes of the rows `fed`. -/
theorem PhaseDone.scanTo_hashed (hd : PhaseDone cfg p R fed s) (hlast : p + 1 = cfg.numphases)
    (hc : DirectCall cfg hasGS s) (hmixed : cfg.aggstrategy = .mixed)
    (hph0 : (cfg.phase 0).aggstrategy = .mixed) (hn : 0 < cfg.perhash.length)
    (hsort : ∀ pt ∈ cfg.pertrans, pt.numSortCols = 0) :
    ∃ sf, ScanTo cfg s (hashedRows cfg fed) sf := by
  let s1 : AggState D := { initializePhase cfg s 0 with
    tableFilled := true, currentSet := 0, hashiters := s.hashiters.set 0 0 }
  have hb : directBody cfg hasGS s = .ok (.hashed s1) := by
    rw [directBody, hd.directTop, if_neg (by omega), if_pos hmixed]; rfl
  have h1 : HashScanAt cfg fed s1 0 0 :=
    ⟨.inr (.inl hph0), hd.aggDone, rfl, rfl, hn, by simp [s1, initializePhase, hd.inPhase.iters],
      by simp [s1, initializePhase, List.getD_eq_getElem?_getD, hd.inPhase.iters, hn], hd.inPhase.tables⟩
  obtain ⟨sf, hsf⟩ := scanTo_hashRowsFrom hsort _ 0 0 s1 rfl h1
  exact ⟨sf, scanTo_direct_hashed hc hd.aggDone hb hd.aggDone hph0 (hashRowsFrom_zero_zero hn ▸ hsf)⟩

/-- After the last phase of any other node, the scan ends. -/
theorem PhaseDone.scanTo_done (hd : PhaseDone cfg p R fed s) (hlast : p + 1 = cfg.numphases)
    (hc : DirectCall cfg hasGS s) (hmixed : cfg.aggstrategy ≠ .mixed) :
    ScanTo cfg s [] { s with aggDone := true } :=
  scanTo_direct_done hc hd.aggDone (by rw [directBody, hd.directTop, if_neg (by omega), if_neg hmixed]; rfl)

end Between

end

end NodeAgg

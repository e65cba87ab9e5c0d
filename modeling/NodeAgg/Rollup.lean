import Mathlib.Data.List.SplitBy
import Mathlib.Data.List.Chain
import NodeAgg.Classes
import NodeAgg.Group

/-!
# The rows of a sorted phase

What `agg_retrieve_direct` computes over one sorted phase, stated without its
loop.  A phase reads its rows in order.  Grouping set `k` of the phase compares
the first `setLength k` grouping columns, so its groups are the maximal runs of
consecutive rows that agree on them (`runs`); a zero-length set, and AGG_PLAIN
without grouping sets, is one group over the whole input, even an empty one.

The sets of a phase are listed by non-increasing length, so every run of set
`k + 1` is cut into runs of set `k`.  The node returns a set's row as soon as
its run ends, finest set first: `rollup k X` lists the rows of a run `X` of set
`k` and of the finer runs inside it, in that order, the run of set `k` last.
`phaseGroups` is the whole phase: `rollup` over the runs of the coarsest set.

`runStates` is what a row carries: for each transition, the left fold of its
transition function over the run's rows (`transFold`), or for a DISTINCT /
ORDER BY transition, `process_ordered_aggregate` over the run's rows it
accepted.  The representative tuple is the first row of the run's last finest
group (the one `firstSlot` still holds), its columns outside the set NULL.
-/

namespace NodeAgg

section

variable {D : Type} [Inhabited D]

namespace AggStatePerPhase

/-- Whether two consecutive rows stay in one group of a set comparing `n`
grouping columns: AGG_PLAIN never starts a new group. -/
def sameRun (ph : AggStatePerPhase D) (n : Nat) (a b : Tuple D) : Bool :=
  ph.aggstrategy == .plain || execTuplesMatch ph.eqfunctions ph.grpColIdx n a b

/-- How many grouping columns set `k` compares: its length with grouping sets,
the phase's `numCols` without. -/
def setLength (ph : AggStatePerPhase D) (k : Nat) : Nat :=
  if 0 < ph.numsets then ph.gsetLengths.getD k 0 else ph.numCols

/-- Whether set `k` is one group over the whole input, even an empty input: a
zero-length grouping set, or AGG_PLAIN without grouping sets. -/
def wholeInput (ph : AggStatePerPhase D) (k : Nat) : Bool :=
  if 0 < ph.numsets then ph.gsetLengths.getD k 0 == 0 else ph.aggstrategy == .plain

/-- The groups of set `k` over the rows `R`, in order. -/
def runs (ph : AggStatePerPhase D) (k : Nat) (R : List (Tuple D)) : List (List (Tuple D)) :=
  if ph.wholeInput k then [R] else R.splitBy (ph.sameRun (ph.setLength k))

/-- The groups a run `X` of set `k` yields, in the order the node returns their
rows: the finer runs inside `X` first, `X` itself last. -/
def rollup (ph : AggStatePerPhase D) : Nat → List (Tuple D) → List (Nat × List (Tuple D))
  | 0, X => [(0, X)]
  | k + 1, X => (ph.runs k X).flatMap (ph.rollup k) ++ [(k + 1, X)]

/-- The first row of the last finest group of a run of set `k`. -/
def repHead (ph : AggStatePerPhase D) : Nat → List (Tuple D) → Option (Tuple D)
  | 0, X => X.head?
  | k + 1, X => (ph.runs k X).getLast?.bind (ph.repHead k)

/-- The index of the coarsest set, `numGroupingSets - 1`. -/
def topSet (ph : AggStatePerPhase D) : Nat := max ph.numsets 1 - 1

/-- The groups of a phase over its rows `R`, in the order the node returns
them. -/
def phaseGroups (ph : AggStatePerPhase D) (R : List (Tuple D)) : List (Nat × List (Tuple D)) :=
  (ph.runs ph.topSet R).flatMap (ph.rollup ph.topSet)

end AggStatePerPhase

/-- The states a row of a run `X` carries, per transition. -/
def runStates (cfg : AggConfig D) (X : List (Tuple D)) : List (AggStatePerGroup D) :=
  cfg.pertrans.map fun pt =>
    if 0 < pt.numSortCols then
      processOrderedAggregate pt ((X.filter (sortAccepts pt)).map (sortInput pt)) (initializeAggregate pt)
    else transFold cfg pt X

/-- The row of group `X` of set `k` in phase `p`, before the HAVING clause. -/
def sortedRow (cfg : AggConfig D) (p : Nat) (g : Nat × List (Tuple D)) : AggOutput D :=
  let ph := cfg.phase p
  let rep := (prepareProjectionSlot cfg ph (ph.repHead g.1 g.2) g.1).getD (allNullTuple cfg.natts)
  let pgs := runStates cfg g.2
  ⟨p, g.1, rep, pgs, aggValues cfg rep pgs⟩

/-- The rows phase `p` returns over its rows `R`. -/
def phaseRows (cfg : AggConfig D) (p : Nat) (R : List (Tuple D)) : List (AggOutput D) :=
  ((cfg.phase p).phaseGroups R).filterMap fun g => projectAggregates cfg (sortedRow cfg p g)

/-- The rows each sorted phase reads: phase 1 the outer plan's, phase `p + 1`
those phase `p` read, through the Sort node of phase `p + 1`. -/
def phaseInput (cfg : AggConfig D) (outer : List (Tuple D)) : Nat → List (Tuple D)
  | 0 => outer
  | 1 => outer
  | p + 2 => (cfg.phase (p + 2)).sortnode (phaseInput cfg outer (p + 1))

/-- The rows of all sorted phases, phase by phase. -/
def sortedRows (cfg : AggConfig D) (outer : List (Tuple D)) : List (AggOutput D) :=
  (List.range' 1 (cfg.numphases - 1)).flatMap fun p => phaseRows cfg p (phaseInput cfg outer p)

/-! ## Runs -/

/-- The runs of a non-empty input: non-empty pieces of it, at least one. -/
theorem AggStatePerPhase.runs_ne_nil (ph : AggStatePerPhase D) (k : Nat) {X : List (Tuple D)} (h : X ≠ []) :
    ph.runs k X ≠ [] ∧ ∀ Y ∈ ph.runs k X, Y ≠ [] ∧ ∀ a ∈ Y, a ∈ X := by
  unfold AggStatePerPhase.runs
  split
  · simp [h]
  · refine ⟨fun he => h ?_, fun Y hY => ⟨List.ne_nil_of_mem_splitBy _ hY, fun a ha => ?_⟩⟩
    · rw [← List.flatten_splitBy (ph.sameRun (ph.setLength k)) X, he, List.flatten_nil]
    · rw [← List.flatten_splitBy (ph.sameRun (ph.setLength k)) X]
      exact List.mem_flatten_of_mem hY ha

/-- The representative of a non-empty run is one of its rows. -/
theorem AggStatePerPhase.repHead_mem (ph : AggStatePerPhase D) :
    ∀ (k : Nat) {X : List (Tuple D)}, X ≠ [] → ∃ a ∈ X, ph.repHead k X = some a
  | 0, X, h => ⟨X.head h, List.head_mem h, List.head?_eq_head h⟩
  | k + 1, X, h => by
    obtain ⟨hne, hsub⟩ := ph.runs_ne_nil k h
    have hY := hsub _ (List.getLast_mem hne)
    obtain ⟨a, ha, he⟩ := ph.repHead_mem k hY.1
    exact ⟨a, hY.2 a ha, by rw [AggStatePerPhase.repHead, List.getLast?_eq_getLast _ hne, Option.some_bind, he]⟩

theorem AggStatePerPhase.runs_nil (ph : AggStatePerPhase D) (k : Nat) :
    ph.runs k [] = if ph.wholeInput k then [[]] else [] := by
  unfold AggStatePerPhase.runs
  split <;> simp [List.splitBy_nil]

/-- An empty run has no representative. -/
theorem AggStatePerPhase.repHead_nil (ph : AggStatePerPhase D) : ∀ k, ph.repHead k [] = none
  | 0 => rfl
  | k + 1 => by
    rw [AggStatePerPhase.repHead, ph.runs_nil]
    split <;> simp [ph.repHead_nil k]

/-- What `List.splitBy` produces: a partition of `R` into non-empty chains of
`r`, two consecutive groups unrelated at their meeting point. -/
structure RunsOf {α : Type} (r : α → α → Bool) (R : List α) (G : List (List α)) : Prop where
  flatten : G.flatten = R
  ne_nil : ∀ g ∈ G, g ≠ []
  chain : ∀ g ∈ G, g.Chain' fun a b => r a b = true
  boundary : G.Chain' fun a b => ∃ ha hb, r (a.getLast ha) (b.head hb) = false

theorem runsOf_splitBy {α : Type} (r : α → α → Bool) (R : List α) : RunsOf r R (R.splitBy r) :=
  ⟨List.flatten_splitBy r R, fun _ h => List.ne_nil_of_mem_splitBy r h,
    fun _ h => List.chain'_of_mem_splitBy h, List.chain'_getLast_head_splitBy r R⟩

section RunsOf

variable {α : Type} {r s : α → α → Bool}

theorem RunsOf.tail {R g : List α} {gs : List (List α)} (h : RunsOf r R (g :: gs)) : RunsOf r gs.flatten gs :=
  ⟨rfl, fun c hc => h.ne_nil c (.tail _ hc), fun c hc => h.chain c (.tail _ hc), (List.chain'_cons'.mp h.boundary).2⟩

theorem RunsOf.head? {R : List α} {G : List (List α)} (h : RunsOf r R G) :
    ∀ b ∈ G.head?, ∃ hb, R.head? = some (b.head hb) := by
  intro b hb
  obtain ⟨G', rfl⟩ : ∃ G', G = b :: G' := by
    cases G with
    | nil => simp at hb
    | cons b' G' => simp only [List.head?_cons, Option.mem_def, Option.some.injEq] at hb; exact ⟨G', hb ▸ rfl⟩
  have hne := h.ne_nil b (.head _)
  refine ⟨hne, ?_⟩
  rw [← h.flatten, List.flatten_cons, List.head?_append_of_ne_nil _ hne, List.head?_eq_head hne]

theorem RunsOf.getLast? {R : List α} {G : List (List α)} (h : RunsOf r R G) :
    ∀ a ∈ G.getLast?, ∃ ha, R.getLast? = some (a.getLast ha) := by
  intro a ha
  obtain ⟨G', rfl⟩ := List.getLast?_eq_some_iff.mp ha
  have hne := h.ne_nil a (by simp)
  refine ⟨hne, ?_⟩
  rw [← h.flatten, List.flatten_append, List.flatten_singleton, List.getLast?_append_of_ne_nil _ hne,
    List.getLast?_eq_getLast _ hne]

/-- Splits of two pieces that `r` separates put together. -/
theorem RunsOf.append {X Y : List α} {A B : List (List α)} (hA : RunsOf r X A) (hB : RunsOf r Y B)
    (hXY : ∀ x ∈ X.getLast?, ∀ y ∈ Y.head?, r x y = false) : RunsOf r (X ++ Y) (A ++ B) := by
  refine ⟨by rw [List.flatten_append, hA.flatten, hB.flatten], fun g hg => ?_, fun g hg => ?_,
    List.chain'_append.mpr ⟨hA.boundary, hB.boundary, fun a ha b hb => ?_⟩⟩
  · rcases List.mem_append.mp hg with hg | hg
    · exact hA.ne_nil g hg
    · exact hB.ne_nil g hg
  · rcases List.mem_append.mp hg with hg | hg
    · exact hA.chain g hg
    · exact hB.chain g hg
  · obtain ⟨ha', hx⟩ := hA.getLast? a ha
    obtain ⟨hb', hy⟩ := hB.head? b hb
    exact ⟨ha', hb', hXY _ hx _ hy⟩

end RunsOf

/-- In a chain of an equivalence every two elements are related. -/
theorem chain'_related {α : Type} {r : α → α → Bool} (he : BoolEquiv r) :
    ∀ {l : List α}, l.Chain' (fun a b => r a b = true) → ∀ a ∈ l, ∀ b ∈ l, r a b = true
  | [], _ => by simp
  | [x], _ => by simp [he.refl]
  | x :: y :: l, h => by
    obtain ⟨hxy, h'⟩ := List.chain'_cons.mp h
    have ih := chain'_related he h'
    have hx : ∀ b ∈ x :: y :: l, r x b = true := by
      intro b hb
      rcases List.mem_cons.mp hb with rfl | hb
      · exact he.refl _
      · exact he.trans _ _ _ hxy (ih y (.head _) b hb)
    exact fun a ha b hb => he.trans _ _ _ (he.symm _ _ (hx a ha)) (hx b hb)

end

end NodeAgg

import NodeAgg.Sorted

/-!
# `projected_set` and the sets each pass resets

At the top of each pass of `agg_retrieve_direct`'s loop, `projected_set` says
which grouping set was projected last.  The first `numReset` sets have their
memory contexts rescanned.  When a new group starts, `initialize_aggregates`
re-initialises the same first `numReset` states.

What the loop has done to one set's transition state since the phase began is
recorded here as a ghost `SetStatus`:
* `fresh`: not initialised in this phase;
* `initialized`: initialised and fed no row;
* `fed`: rows advanced since its initialisation;
* `finalized`: its group finalised since.

`ghostPass` follows the decisions of `directBody` (it calls the same
`directTop`, `directNextSetEnds` and `directFirstTuple`).  `TopReachable` is
the set of loop tops with their ghost, from the start of a scan on.  `TopInv`
holds at every one of them (`TopReachable.topInv`), from one lemma per piece of
the pass and `TopInv.step`.

From it (`TopReachable.resets_unfed_sets`), no set that has been fed a row is
rescanned or re-initialised before its group is finalised, and every
finalisation is of a set initialised since its last one.  A set's context can
still be rescanned while it is `initialized`: on empty input the sets before
the first empty grouping set are initialised, stepped over and never
finalised, and the next top rescans their contexts before it ends the phase
(`emptyRollup_resets_unfinalized`).
-/

namespace NodeAgg

/-- What the loop has done to one grouping set's transition state since the
phase began. -/
inductive SetStatus where
  | fresh
  | initialized
  | fed
  | finalized
  deriving DecidableEq, Repr

section

variable {D : Type} [Inhabited D]

/-! ## Ghost effects of one pass -/

/-- `initialize_aggregates(aggstate, pergroup, numReset)`. -/
def ghostInit (numReset : Nat) (g : List SetStatus) : List SetStatus :=
  g.mapIdx fun k st => if k < numReset then .initialized else st

/-- `advance_aggregates`: every set of the phase takes the row. -/
def ghostFeed (g : List SetStatus) : List SetStatus :=
  g.map fun _ => .fed

/-- `numReset` at the top of the loop. -/
def directNumReset (cfg : AggConfig D) (s : AggState D) : Nat :=
  if 0 ≤ s.projectedSet ∧ s.projectedSet < cfg.numGroupingSets s.currentPhase
  then (s.projectedSet + 1).toNat else cfg.numGroupingSets s.currentPhase

/-- A new group as the ghost sees it: `initialize_aggregates` on the first
`numReset` sets, `advance_aggregates` on every set when the group has a first
tuple, and the set the pass then projects. -/
def ghostGroupStart (cfg : AggConfig D) (hasGroupingSets : Bool) (s : AggState D) (numReset : Nat)
    (g : List SetStatus) : List SetStatus × Option Nat :=
  match directFirstTuple cfg hasGroupingSets { s with projectedSet := 0 } with
  | .inl _ => (g, none)
  | .inr s2 =>
    (if s2.grpFirstTuple.isSome then ghostFeed (ghostInit numReset g) else ghostInit numReset g,
      some s2.projectedSet.toNat)

/-- The statuses at the start of a pass's body: a phase switch starts the new
phase's sets fresh. -/
def ghostPhase (cfg : AggConfig D) (s s1 : AggState D) (g : List SetStatus) : List SetStatus :=
  if s1.currentPhase = s.currentPhase then g else List.replicate (cfg.numGroupingSets s1.currentPhase) .fresh

/-- One pass of the loop as the ghost sees it: the statuses just before the
pass finalises a set, and the set it finalises.  Projecting the next set
finalises `projected_set + 1`. -/
def ghostPass (cfg : AggConfig D) (hasGroupingSets : Bool) (s : AggState D) (g : List SetStatus) :
    List SetStatus × Option Nat :=
  match directTop cfg s with
  | .inl _ => (g, none)
  | .inr (s1, numReset) =>
    let g := ghostPhase cfg s s1 g
    if directNextSetEnds cfg s1 then (g, some (s1.projectedSet + 1).toNat)
    else ghostGroupStart cfg hasGroupingSets s1 numReset g

/-- The statuses after the pass's finalisation, if any. -/
def ghostFinish : List SetStatus × Option Nat → List SetStatus
  | (g, some k) => g.set k .finalized
  | (g, none) => g

/-- The statuses after one pass. -/
def ghostBody (cfg : AggConfig D) (hasGroupingSets : Bool) (s : AggState D) (g : List SetStatus) :
    List SetStatus :=
  ghostFinish (ghostPass cfg hasGroupingSets s g)

theorem length_ghostInit (numReset : Nat) (g : List SetStatus) : (ghostInit numReset g).length = g.length :=
  List.length_mapIdx

/-- Resetting at least every set initialises them all. -/
theorem ghostInit_of_length_le {numReset : Nat} {g : List SetStatus} (h : g.length ≤ numReset) :
    ghostInit numReset g = List.replicate g.length .initialized :=
  List.mapIdx_eq_replicate_iff.2 fun _ hi => if_pos (lt_of_lt_of_le hi h)

theorem ghostFeed_eq (g : List SetStatus) : ghostFeed g = List.replicate g.length .fed :=
  List.map_const' g SetStatus.fed

theorem firstEmptySet_le (l : List Nat) (n : Nat) : firstEmptySet l n ≤ n :=
  (List.findIdx_le_length _).trans (List.length_take_le _ _)

/-- The sets the empty-input loop steps over have grouping columns. -/
theorem getD_ne_zero_of_lt_firstEmptySet {l : List Nat} {n k : Nat} (h : k < firstEmptySet l n) :
    l.getD k 0 ≠ 0 := by
  have hk : k < (l.take n).length := lt_of_lt_of_le h (List.findIdx_le_length _)
  have hne := List.not_of_lt_findIdx h
  rw [List.getD_eq_getElem?_getD, ← List.getElem?_take_of_lt (lt_of_lt_of_le hk (List.length_take_le _ _)),
    List.getElem?_eq_getElem hk, Option.getD_some]
  simpa using hne

/-- A pass only starts a new group while the input lasts. -/
theorem inputDone_of_directNextSetEnds {cfg : AggConfig D} {s : AggState D} (h : directNextSetEnds cfg s = false) :
    s.inputDone = false := by
  unfold directNextSetEnds at h
  simp only [Bool.or_eq_false_iff] at h
  exact h.1

omit [Inhabited D] in
theorem directNumReset_le (cfg : AggConfig D) (s : AggState D) :
    directNumReset cfg s ≤ cfg.numGroupingSets s.currentPhase := by
  unfold directNumReset
  split <;> omega

/-- The tops of `agg_retrieve_direct`'s loop, with their ghost: a scan starts
with `projected_set = -1`, the input not done and every set fresh, and each
pass that returns a row or goes round again leads to the next top.
`hasGroupingSets` may change from one call of `agg_retrieve_direct` to the
next, so each pass may use either value. -/
inductive TopReachable (cfg : AggConfig D) : AggState D → List SetStatus → Prop
  | start {s : AggState D} : s.projectedSet = -1 → s.inputDone = false →
      TopReachable cfg s (List.replicate (cfg.numGroupingSets s.currentPhase) .fresh)
  | next {s s' : AggState D} {g : List SetStatus} (hasGroupingSets : Bool) :
      TopReachable cfg s g → s.aggDone = false →
      directBody cfg hasGroupingSets s = .ok (.next s') →
      TopReachable cfg s' (ghostBody cfg hasGroupingSets s g)
  | emit {s s' : AggState D} {g : List SetStatus} {o : AggOutput D} (hasGroupingSets : Bool) :
      TopReachable cfg s g → s.aggDone = false →
      directBody cfg hasGroupingSets s = .ok (.emit o s') →
      TopReachable cfg s' (ghostBody cfg hasGroupingSets s g)

/-! ## What the pieces of a pass leave alone -/

/-- The loop-control fields a piece of the pass does not touch. -/
def SameControl (s s' : AggState D) : Prop :=
  s'.projectedSet = s.projectedSet ∧ s'.currentPhase = s.currentPhase

omit [Inhabited D] in
theorem fetchInputTuple_control (s : AggState D) :
    (fetchInputTuple s).2.projectedSet = s.projectedSet ∧ (fetchInputTuple s).2.currentPhase = s.currentPhase ∧
      (fetchInputTuple s).2.inputDone = s.inputDone ∧ (fetchInputTuple s).2.aggDone = s.aggDone ∧
      (fetchInputTuple s).2.grpFirstTuple = s.grpFirstTuple := by
  unfold fetchInputTuple
  split
  · exact ⟨rfl, rfl, rfl, rfl, rfl⟩
  · exact ⟨rfl, rfl, rfl, rfl, rfl⟩
  · split <;> exact ⟨rfl, rfl, rfl, rfl, rfl⟩

omit [Inhabited D] in
theorem fetchInputTuple_none {s s' : AggState D} (h : fetchInputTuple s = (none, s')) : s' = s := by
  rw [fetchInputTuple_eq] at h
  split at h <;> cases h
  rfl

theorem advanceRow_control {cfg : AggConfig D} {s s' : AggState D} {t : Tuple D}
    (h : advanceRow cfg s t = .ok s') : SameControl s s' := by
  unfold advanceRow at h
  simp only [bind, Except.bind, pure, Except.pure] at h
  split at h
  · split at h
    · cases h
    · cases h
      split <;> exact ⟨rfl, rfl⟩
  · cases h
    split <;> exact ⟨rfl, rfl⟩

theorem dumpHashtableIfSpilled_control {cfg : AggConfig D} {s s' : AggState D}
    (h : dumpHashtableIfSpilled cfg s = .ok s') : SameControl s s' := by
  unfold dumpHashtableIfSpilled at h
  obtain ⟨rs, -, h⟩ := except_bind_eq_ok h
  cases h
  exact ⟨rfl, rfl⟩

/-- The inner loop keeps `projected_set` and the phase, and ends with the next
group's first tuple in hand, or with the input or the node done. -/
theorem advanceGroup_control {cfg : AggConfig D} {hasGroupingSets : Bool} :
    ∀ {fuel : Nat} {s s' : AggState D}, advanceGroup cfg hasGroupingSets fuel s = .ok s' →
      SameControl s s' ∧ (s'.grpFirstTuple.isSome ∨ s'.inputDone = true ∨ s'.aggDone = true)
  | 0, _, _, h => by cases h
  | fuel + 1, s, s', h => by
    unfold advanceGroup at h
    obtain ⟨sa, ha, h⟩ := except_bind_eq_ok h
    have hca := advanceRow_control ha
    obtain ⟨hfP, hfC, -, -, -⟩ := fetchInputTuple_control sa
    split at h
    · rename_i sb hf
      rw [hf] at hfP hfC
      simp only [bind, Except.bind, pure, Except.pure] at h
      have hfin : ∀ sc : AggState D, sc.projectedSet = s.projectedSet → sc.currentPhase = s.currentPhase →
          (if hasGroupingSets then { sc with inputDone := true } else { sc with aggDone := true }) = s' →
          SameControl s s' ∧ (s'.grpFirstTuple.isSome ∨ s'.inputDone = true ∨ s'.aggDone = true) := by
        rintro sc hP hC rfl
        cases hasGroupingSets
        · exact ⟨⟨hP, hC⟩, .inr (.inr rfl)⟩
        · exact ⟨⟨hP, hC⟩, .inr (.inl rfl)⟩
      split at h
      · split at h
        · cases h
        · rename_i sc hc
          have hcc := dumpHashtableIfSpilled_control hc
          exact hfin sc (hcc.1.trans (hfP.trans hca.1)) (hcc.2.trans (hfC.trans hca.2)) (Except.ok.inj h)
      · exact hfin sb (hfP.trans hca.1) (hfC.trans hca.2) (Except.ok.inj h)
    · rename_i t sb hf
      rw [hf] at hfP hfC
      simp only [bind, Except.bind, pure, Except.pure] at h
      split at h
      · cases h
        exact ⟨⟨hfP.trans hca.1, hfC.trans hca.2⟩, .inl rfl⟩
      · obtain ⟨hc, hend⟩ := advanceGroup_control h
        exact ⟨⟨hc.1.trans (hfP.trans hca.1), hc.2.trans (hfC.trans hca.2)⟩, hend⟩

/-- A projection keeps the loop-control fields and selects the projected set. -/
theorem directProject_control (cfg : AggConfig D) (s : AggState D) {s' : AggState D}
    (h : directProject cfg s = .next s' ∨ ∃ o, directProject cfg s = .emit o s') :
    s'.projectedSet = s.projectedSet ∧ s'.currentPhase = s.currentPhase ∧ s'.inputDone = s.inputDone ∧
      s'.aggDone = s.aggDone ∧ s'.grpFirstTuple = s.grpFirstTuple ∧ s'.currentSet = s.projectedSet.toNat := by
  obtain ⟨slot, ss, pgs, out, hpg⟩ : ∃ slot ss pgs out,
      projectGroup cfg s s.projectedSet.toNat s.firstSlot (s.pergroup.getD s.projectedSet.toNat []) =
        ({ s with firstSlot := slot, sortstates := ss }, pgs, out) := ⟨_, _, _, _, rfl⟩
  simp only [directProject, hpg] at h
  rcases out with _ | o
  · rcases h with h | ⟨_, h⟩ <;> cases h
    exact ⟨rfl, rfl, rfl, rfl, rfl, rfl⟩
  · rcases h with h | ⟨_, h⟩ <;> cases h
    exact ⟨rfl, rfl, rfl, rfl, rfl, rfl⟩

omit [Inhabited D] in
/-- The head of a pass either leaves the loop (to the hash scan or the end) or
goes on with `numReset`, after switching to the next phase when this one is
done. -/
theorem directTop_cases (cfg : AggConfig D) (s : AggState D) :
    (∃ s0, directTop cfg s = .inl (.hashed s0) ∨ directTop cfg s = .inl (.done s0)) ∨
    ∃ s1, directTop cfg s = .inr (s1, directNumReset cfg s1) ∧
      ¬(s1.inputDone = true ∧ ((cfg.numGroupingSets s1.currentPhase : Nat) : Int) - 1 ≤ s1.projectedSet) ∧
      s1.aggDone = s.aggDone ∧ s1.grpFirstTuple = s.grpFirstTuple ∧
      (s1 = s ∨ (s1.currentPhase = s.currentPhase + 1 ∧ s1.projectedSet = -1 ∧ s1.inputDone = false)) := by
  by_cases hend : s.inputDone = true ∧ ((cfg.numGroupingSets s.currentPhase : Nat) : Int) - 1 ≤ s.projectedSet
  · by_cases hph : s.currentPhase + 1 < cfg.numphases
    · refine .inr ⟨{ initializePhase cfg s (s.currentPhase + 1) with inputDone := false, projectedSet := -1 },
        ?_, by simp, rfl, rfl, .inr ⟨rfl, rfl, rfl⟩⟩
      simp only [directTop, if_pos hend, if_pos hph]
      rfl
    · by_cases hm : cfg.aggstrategy = .mixed
      · simp only [directTop, if_pos hend, if_neg hph, if_pos hm]
        exact .inl ⟨_, .inl rfl⟩
      · simp only [directTop, if_pos hend, if_neg hph, if_neg hm]
        exact .inl ⟨_, .inr rfl⟩
  · exact .inr ⟨s, by simp only [directTop, if_neg hend]; rfl, hend, rfl, rfl, .inl rfl⟩

omit [Inhabited D] in
/-- The first tuple of a new group: in hand, or, on empty input, the first empty
set (with grouping sets) or the end (without). -/
theorem directFirstTuple_cases (cfg : AggConfig D) (hasGroupingSets : Bool) (s : AggState D) :
    (∃ s2, directFirstTuple cfg hasGroupingSets s = .inr s2 ∧ s2.grpFirstTuple.isSome ∧
      s2.projectedSet = s.projectedSet ∧ s2.currentPhase = s.currentPhase ∧ s2.inputDone = s.inputDone ∧
      s2.aggDone = s.aggDone) ∨
    (s.grpFirstTuple = none ∧ hasGroupingSets = true ∧ ∃ s2,
      s2.projectedSet = ((firstEmptySet (cfg.phase s.currentPhase).gsetLengths
        (cfg.numGroupingSets s.currentPhase) : Nat) : Int) ∧
      s2.currentPhase = s.currentPhase ∧ s2.inputDone = true ∧ s2.grpFirstTuple = none ∧
      ((cfg.numGroupingSets s.currentPhase ≤
          firstEmptySet (cfg.phase s.currentPhase).gsetLengths (cfg.numGroupingSets s.currentPhase) ∧
          directFirstTuple cfg hasGroupingSets s = .inl (.next s2)) ∨
        (firstEmptySet (cfg.phase s.currentPhase).gsetLengths (cfg.numGroupingSets s.currentPhase) <
          cfg.numGroupingSets s.currentPhase ∧ directFirstTuple cfg hasGroupingSets s = .inr s2))) ∨
    (s.grpFirstTuple = none ∧ hasGroupingSets = false ∧
      ((∃ s2, directFirstTuple cfg hasGroupingSets s = .inl (.done s2)) ∨
        ∃ s2, directFirstTuple cfg hasGroupingSets s = .inr s2 ∧ s2.projectedSet = s.projectedSet ∧
          s2.currentPhase = s.currentPhase ∧ s2.aggDone = true ∧ s2.grpFirstTuple = none)) := by
  unfold directFirstTuple
  split
  · rename_i t hf
    exact .inl ⟨s, rfl, by simp [hf], rfl, rfl, rfl, rfl⟩
  · rename_i hf
    split
    · rename_i t s' heq
      obtain ⟨hP, hC, hI, hA, -⟩ := heq ▸ fetchInputTuple_control s
      exact .inl ⟨_, rfl, rfl, hP, hC, hI, hA⟩
    · rename_i s' heq
      obtain rfl : s = s' := (fetchInputTuple_none heq).symm
      cases hasGroupingSets
      · refine .inr (.inr ⟨hf, rfl, ?_⟩)
        simp only [Bool.false_eq_true, if_false]
        split
        · exact .inl ⟨_, rfl⟩
        · exact .inr ⟨_, rfl, rfl, rfl, rfl, hf⟩
      · refine .inr (.inl ⟨hf, rfl,
          { s with
            inputDone := true
            projectedSet := firstEmptySet (cfg.phase s.currentPhase).gsetLengths (cfg.numGroupingSets s.currentPhase) },
          rfl, rfl, rfl, hf, ?_⟩)
        simp only [if_true]
        split
        · exact .inl ⟨‹_›, rfl⟩
        · exact .inr ⟨Nat.lt_of_not_le ‹_›, rfl⟩

/-- A new group: the first tuple, then `initialize_aggregates`, the inner loop
when there is a tuple, and the projection. -/
theorem directGroupStart_cases {cfg : AggConfig D} {hasGroupingSets : Bool} {s : AggState D} {numReset : Nat}
    {step : RetrieveStep D} (h : directGroupStart cfg hasGroupingSets s numReset = .ok step) :
    directFirstTuple cfg hasGroupingSets { s with projectedSet := 0 } = .inl step ∨
    ∃ s2, directFirstTuple cfg hasGroupingSets { s with projectedSet := 0 } = .inr s2 ∧
      ((s2.grpFirstTuple = none ∧ step = directProject cfg (initializeAggregates cfg s2 numReset)) ∨
        ∃ t fuel u, s2.grpFirstTuple = some t ∧
          advanceGroup cfg hasGroupingSets fuel
            { initializeAggregates cfg s2 numReset with
              firstSlot := some t, grpFirstTuple := none, tmpOuterTuple := some t } = .ok u ∧ step = directProject cfg u) := by
  unfold directGroupStart at h
  obtain ⟨r, hr, h⟩ := except_bind_eq_ok h
  unfold directNewGroup at hr
  rcases hf : directFirstTuple cfg hasGroupingSets { s with projectedSet := 0 } with step0 | s2 <;>
    rw [hf] at hr
  · cases hr
    exact .inl (congrArg _ (Except.ok.inj h))
  · refine .inr ⟨s2, rfl, ?_⟩
    dsimp only at hr
    rcases hg : (initializeAggregates cfg s2 numReset).grpFirstTuple with _ | t <;> rw [hg] at hr
    · cases hr
      exact .inl ⟨hg, (Except.ok.inj h).symm⟩
    · obtain ⟨u, hu, hr⟩ := except_bind_eq_ok hr
      cases hr
      exact .inr ⟨t, _, u, hg, hu, (Except.ok.inj h).symm⟩

/-! ## The invariant at the top of the loop -/

/-- What holds at every top of the loop: `projected_set` in range and the ghost
sized to the phase; before any group, every set fresh; every set up to
`projected_set` fresh, finalised, or initialised for a non-empty set on empty
input; every later set still in its group; and a group pending unless none has
started or the input or the node is done. -/
structure TopInv (cfg : AggConfig D) (s : AggState D) (g : List SetStatus) : Prop where
  length : g.length = cfg.numGroupingSets s.currentPhase
  lower : -1 ≤ s.projectedSet
  upper : s.projectedSet ≤ cfg.numGroupingSets s.currentPhase
  start : s.projectedSet = -1 → s.inputDone = false ∧ ∀ st ∈ g, st = .fresh
  projected : ∀ (k : Nat) (st : SetStatus), g[k]? = some st → (k : Int) ≤ s.projectedSet →
    st = .fresh ∨ st = .finalized ∨
      (st = .initialized ∧ s.inputDone = true ∧ (cfg.phase s.currentPhase).gsetLengths.getD k 0 ≠ 0)
  inGroup : ∀ (k : Nat) (st : SetStatus), g[k]? = some st → 0 ≤ s.projectedSet → s.projectedSet < k →
    st = .initialized ∨ st = .fed
  pending : s.grpFirstTuple = none → s.projectedSet = -1 ∨ s.inputDone = true ∨ s.aggDone = true

/-- A pass that goes on to the next top keeps the invariant, and finalises only
a set of the phase that was initialised or fed, which it makes the current set. -/
def PassOk (cfg : AggConfig D) (s' : AggState D) (p : List SetStatus × Option Nat) : Prop :=
  TopInv cfg s' (ghostFinish p) ∧ ∀ k, p.2 = some k →
    k < cfg.numGroupingSets s'.currentPhase ∧ s'.currentSet = k ∧
      (p.1[k]? = some .initialized ∨ p.1[k]? = some .fed)

omit [Inhabited D] in
theorem topInv_start {cfg : AggConfig D} {s : AggState D} (hP : s.projectedSet = -1) (hI : s.inputDone = false) :
    TopInv cfg s (List.replicate (cfg.numGroupingSets s.currentPhase) .fresh) where
  length := List.length_replicate _ _
  lower := by omega
  upper := by rw [hP]; omega
  start _ := ⟨hI, fun _ => List.eq_of_mem_replicate⟩
  projected _ _ hk _ := .inl (List.eq_of_mem_replicate (List.getElem?_mem hk))
  inGroup _ _ _ h0 := by omega
  pending _ := .inl hP

section Step

variable {cfg : AggConfig D} {s : AggState D} {g : List SetStatus}

omit [Inhabited D] in
/-- The sets a top rescans: none of them has been fed since it was last
initialised or finalised. -/
theorem TopInv.reset (hinv : TopInv cfg s g) {k : Nat} {st : SetStatus} (hk : k < directNumReset cfg s)
    (hst : g[k]? = some st) :
    st = .fresh ∨ st = .finalized ∨
      (st = .initialized ∧ s.inputDone = true ∧ (cfg.phase s.currentPhase).gsetLengths.getD k 0 ≠ 0) := by
  unfold directNumReset at hk
  by_cases hP : s.projectedSet = -1
  · exact .inl ((hinv.start hP).2 st (List.getElem?_mem hst))
  · have hlen := hinv.length ▸ (List.getElem?_eq_some_iff.1 hst).1
    have := hinv.lower
    refine hinv.projected k st hst ?_
    split at hk <;> omega

omit [Inhabited D] in
/-- A group can only be missing at the top of a pass that starts one when no
group has started in this phase. -/
theorem TopInv.projectedSet_of_none (hinv : TopInv cfg s g) (hG : s.grpFirstTuple = none)
    (hI : s.inputDone = false) (hA : s.aggDone = false) : s.projectedSet = -1 := by
  rcases hinv.pending hG with hP | hI' | hA'
  · exact hP
  · rw [hI] at hI'; cases hI'
  · rw [hA] at hA'; cases hA'

omit [Inhabited D] in
/-- The state after a pass that ends with set `k` projected, every set of the
phase having been initialised (or fed) and `k` finalised. -/
theorem passOk_replicate {s' : AggState D} {st : SetStatus} {k : Nat}
    (hk : k < cfg.numGroupingSets s'.currentPhase) (hP : s'.projectedSet = k) (hset : s'.currentSet = k)
    (hst : st = .initialized ∨ st = .fed)
    (hbelow : ∀ j < k, st = .initialized ∧ s'.inputDone = true ∧
      (cfg.phase s'.currentPhase).gsetLengths.getD j 0 ≠ 0)
    (hpend : s'.grpFirstTuple = none → s'.inputDone = true ∨ s'.aggDone = true) :
    PassOk cfg s' (List.replicate (cfg.numGroupingSets s'.currentPhase) st, some k) := by
  have hget : ∀ j st', ((List.replicate (cfg.numGroupingSets s'.currentPhase) st).set k .finalized)[j]? = some st' →
      (j = k ∧ st' = .finalized) ∨ (j ≠ k ∧ st' = st) := by
    intro j st' hj
    rw [List.getElem?_set] at hj
    by_cases hjk : k = j
    · rw [if_pos hjk, if_pos (by simpa using hk)] at hj
      exact .inl ⟨hjk.symm, (Option.some.inj hj).symm⟩
    · rw [if_neg hjk] at hj
      exact .inr ⟨Ne.symm hjk, List.eq_of_mem_replicate (List.getElem?_mem hj)⟩
  refine ⟨⟨by simp [ghostFinish], by omega, by omega, fun h => by omega, ?_, ?_, fun h => .inr (hpend h)⟩,
    fun k' hk' => ?_⟩
  · intro j st' hj hjP
    rcases hget j st' hj with ⟨-, rfl⟩ | ⟨hjk, rfl⟩
    · exact .inr (.inl rfl)
    · obtain ⟨h1, h2, h3⟩ := hbelow j (by omega)
      exact .inr (.inr ⟨h1, h2, h3⟩)
  · intro j st' hj _ hkj
    rcases hget j st' hj with ⟨hjk, -⟩ | ⟨-, rfl⟩
    · omega
    · exact hst
  · cases hk'
    exact ⟨hk, hset, by rw [List.getElem?_replicate_of_lt hk]; rcases hst with rfl | rfl <;> simp⟩

/-- Projecting the next coarser set: `projected_set + 1` is a set of the phase
still in its group, and is finalised. -/
theorem TopInv.projectNext (hinv : TopInv cfg s g)
    (hend : ¬(s.inputDone = true ∧ ((cfg.numGroupingSets s.currentPhase : Nat) : Int) - 1 ≤ s.projectedSet))
    (hnext : directNextSetEnds cfg s = true) {s' : AggState D}
    (h : directProject cfg { s with projectedSet := s.projectedSet + 1 } = .next s' ∨
      ∃ o, directProject cfg { s with projectedSet := s.projectedSet + 1 } = .emit o s') :
    PassOk cfg s' (g, some (s.projectedSet + 1).toNat) := by
  have hlow := hinv.lower
  have hr : 0 ≤ s.projectedSet ∧ s.projectedSet + 1 < cfg.numGroupingSets s.currentPhase := by
    unfold directNextSetEnds at hnext
    simp only [Bool.or_eq_true, Bool.and_eq_true, decide_eq_true_eq] at hnext
    rcases hnext with hI | ⟨⟨⟨⟨_, hP⟩, hlt⟩, _⟩, _⟩
    · have hP : s.projectedSet ≠ -1 := fun hP => by simp [(hinv.start hP).1] at hI
      simp only [hI, true_and] at hend
      omega
    · simp only [ne_eq, decide_eq_true_eq] at hP
      omega
  obtain ⟨hP, hC, hI, hA, hG, hset⟩ := directProject_control cfg _ h
  dsimp only at hP hC hI hA hG hset
  have hk : (((s.projectedSet + 1).toNat : Nat) : Int) = s.projectedSet + 1 := Int.toNat_of_nonneg (by omega)
  have hlen := hinv.length
  refine ⟨⟨?_, by omega, by rw [hC]; omega, fun h => by omega, ?_, ?_, ?_⟩, fun k hk' => ?_⟩
  · simp [ghostFinish, hlen, hC]
  · intro j st hj hjP
    simp only [ghostFinish, List.getElem?_set] at hj
    split at hj
    · split at hj <;> cases hj
      exact .inr (.inl rfl)
    · rw [hP, hI, hC] at *
      exact hinv.projected j st hj (by omega)
  · intro j st hj _ hjP
    simp only [ghostFinish, List.getElem?_set] at hj
    split at hj
    · omega
    · exact hinv.inGroup j st hj hr.1 (by omega)
  · intro hG'
    rcases hinv.pending (hG ▸ hG') with h | h | h
    · omega
    · exact .inr (.inl (hI.trans h))
    · exact .inr (.inr (hA.trans h))
  · cases hk'
    have hkl : (s.projectedSet + 1).toNat < g.length := by omega
    obtain ⟨st, hst⟩ : ∃ st, g[(s.projectedSet + 1).toNat]? = some st := ⟨_, List.getElem?_eq_getElem hkl⟩
    refine ⟨by rw [hC]; omega, hset, ?_⟩
    rcases hinv.inGroup _ st hst hr.1 (by omega) with rfl | rfl
    · exact .inl hst
    · exact .inr hst

/-- A projection that ends a group start with every set of the phase
initialised or fed, set `k` finalised. -/
theorem passOk_project {w s' : AggState D} {p : Nat} {st : SetStatus} {k : Nat}
    (h : directProject cfg w = .next s' ∨ ∃ o, directProject cfg w = .emit o s')
    (hC : w.currentPhase = p) (hk : k < cfg.numGroupingSets p) (hP : w.projectedSet = k)
    (hst : st = .initialized ∨ st = .fed)
    (hbelow : ∀ j < k, st = .initialized ∧ w.inputDone = true ∧ (cfg.phase p).gsetLengths.getD j 0 ≠ 0)
    (hpend : w.grpFirstTuple = none → w.inputDone = true ∨ w.aggDone = true) :
    PassOk cfg s' (List.replicate (cfg.numGroupingSets p) st, some k) := by
  obtain ⟨hP', hC', hI', hA', hG', hset'⟩ := directProject_control cfg w h
  subst hC
  rw [← hC']
  refine passOk_replicate (hC' ▸ hk) (hP'.trans hP) (by rw [hset', hP]; rfl) hst
    (fun j hj => by rw [hI', hC']; exact hbelow j hj) (fun hG => ?_)
  rw [hI', hA']
  exact hpend (hG' ▸ hG)

/-- Starting a new group: with a first tuple every set is fed and set 0 is
finalised; on empty input, no group had started, so every set is initialised,
and the first empty set (with grouping sets) or set 0 (AGG_PLAIN) is
finalised, or the pass goes round with nothing touched. -/
theorem TopInv.groupStart {hasGroupingSets : Bool} {step : RetrieveStep D} {s' : AggState D}
    (hinv : TopInv cfg s g) (hI : s.inputDone = false) (hA : s.aggDone = false)
    (h : directGroupStart cfg hasGroupingSets s (directNumReset cfg s) = .ok step)
    (hstep : step = .next s' ∨ ∃ o, step = .emit o s') :
    PassOk cfg s' (ghostGroupStart cfg hasGroupingSets s (directNumReset cfg s) g) := by
  have hlen := hinv.length
  have hall : s.grpFirstTuple = none → g.length ≤ directNumReset cfg s := fun hG => by
    have hP := hinv.projectedSet_of_none hG hI hA
    unfold directNumReset
    rw [if_neg (by omega), hlen]
  unfold ghostGroupStart
  rcases directGroupStart_cases h with hf | ⟨s2, hf, ⟨hG2, rfl⟩ | ⟨t, fuel, u, hG2, hu, rfl⟩⟩ <;>
    rw [hf] <;> dsimp only
  · rcases directFirstTuple_cases cfg hasGroupingSets { s with projectedSet := 0 } with
      ⟨s2, h2, -⟩ | ⟨hG, -, s2, hP2, hC2, hI2, -, ⟨hle, h2⟩ | ⟨-, h2⟩⟩ | ⟨-, -, ⟨s2, h2⟩ | ⟨s2, h2, -⟩⟩ <;>
      rw [h2] at hf <;> cases hf
    · -- the input is empty and has no empty set: round again, nothing touched
      dsimp only at hG hP2 hC2 hle
      obtain rfl : s2 = s' := by rcases hstep with h | ⟨_, h⟩ <;> cases h; rfl
      have hfresh := (hinv.start (hinv.projectedSet_of_none hG hI hA)).2
      have hps := firstEmptySet_le (cfg.phase s.currentPhase).gsetLengths (cfg.numGroupingSets s.currentPhase)
      refine ⟨⟨hC2 ▸ hlen, by omega, by rw [hP2, hC2]; exact_mod_cast hps, fun h => by omega,
        fun k st hk _ => .inl (hfresh st (List.getElem?_mem hk)), fun k st hk _ hlt => ?_,
        fun _ => .inr (.inl hI2)⟩, fun k hk => by cases hk⟩
      have : k < g.length := (List.getElem?_eq_some_iff.1 hk).1
      rw [hP2] at hlt
      omega
    · rcases hstep with h | ⟨_, h⟩ <;> cases h
  · rcases directFirstTuple_cases cfg hasGroupingSets { s with projectedSet := 0 } with
      ⟨s3, h3, hsome, -⟩ | ⟨hG, -, s3, hP3, hC3, hI3, -, ⟨-, h3⟩ | ⟨hlt, h3⟩⟩ |
        ⟨hG, -, ⟨s3, h3⟩ | ⟨s3, h3, hP3, hC3, hA3, -⟩⟩ <;>
      rw [h3] at hf <;> cases hf
    · simp [hG2] at hsome
    · -- empty input with grouping sets: the first empty set is projected
      dsimp only at hG hP3 hC3 hlt
      rw [hG2, Option.isSome_none, if_neg Bool.false_ne_true, ghostInit_of_length_le (hall hG), hlen, hP3,
        Int.toNat_ofNat]
      exact passOk_project hstep hC3 hlt hP3 (.inl rfl)
        (fun j hj => ⟨rfl, hI3, getD_ne_zero_of_lt_firstEmptySet hj⟩) (fun _ => .inl hI3)
    · -- empty input without grouping sets: AGG_PLAIN projects its one row
      dsimp only at hG hP3 hC3
      rw [hG2, Option.isSome_none, if_neg Bool.false_ne_true, ghostInit_of_length_le (hall hG), hlen, hP3]
      exact passOk_project hstep hC3 (numGroupingSets_pos cfg _) hP3 (.inl rfl) (fun j hj => by omega)
        (fun _ => .inr hA3)
  · rcases directFirstTuple_cases cfg hasGroupingSets { s with projectedSet := 0 } with
      ⟨s3, h3, -, hP3, hC3, -, -⟩ | ⟨-, -, s3, -, -, -, hG3, ⟨-, h3⟩ | ⟨-, h3⟩⟩ |
        ⟨-, -, ⟨s3, h3⟩ | ⟨s3, h3, -, -, -, hG3⟩⟩ <;>
      rw [h3] at hf <;> cases hf
    · -- a first tuple: every set is fed, set 0 is projected
      dsimp only at hP3 hC3
      obtain ⟨⟨hPu, hCu⟩, hend⟩ := advanceGroup_control hu
      rw [hG2, Option.isSome_some, if_pos rfl, ghostFeed_eq, length_ghostInit, hlen, hP3]
      exact passOk_project hstep (hCu.trans hC3) (numGroupingSets_pos cfg _) (hPu.trans hP3) (.inr rfl)
        (fun j hj => by omega) (fun hG => by simpa [hG] using hend)
    all_goals rw [hG2] at hG3; cases hG3

/-- One pass from a top that goes on: the next top keeps the invariant. -/
theorem TopInv.step {hasGroupingSets : Bool} {step : RetrieveStep D} {s' : AggState D}
    (hinv : TopInv cfg s g) (hA : s.aggDone = false) (h : directBody cfg hasGroupingSets s = .ok step)
    (hstep : step = .next s' ∨ ∃ o, step = .emit o s') :
    PassOk cfg s' (ghostPass cfg hasGroupingSets s g) := by
  unfold directBody at h
  unfold ghostPass
  rcases directTop_cases cfg s with ⟨s0, h0 | h0⟩ | ⟨s1, h1, hend, hA1, -, hsw⟩
  · rw [h0] at h
    cases h
    rcases hstep with h | ⟨_, h⟩ <;> cases h
  · rw [h0] at h
    cases h
    rcases hstep with h | ⟨_, h⟩ <;> cases h
  · have hinv1 : TopInv cfg s1 (ghostPhase cfg s s1 g) := by
      unfold ghostPhase
      rcases hsw with rfl | ⟨hph, hP, hI⟩
      · rw [if_pos rfl]
        exact hinv
      · rw [if_neg (by omega)]
        exact topInv_start hP hI
    rw [h1] at h ⊢
    dsimp only at h ⊢
    unfold directProjectNext at h
    by_cases hnext : directNextSetEnds cfg s1 = true
    · rw [if_pos hnext] at h ⊢
      obtain rfl := Except.ok.inj h
      exact hinv1.projectNext hend hnext hstep
    · rw [if_neg hnext] at h ⊢
      exact hinv1.groupStart (inputDone_of_directNextSetEnds (Bool.eq_false_iff.2 hnext)) (hA1.trans hA) h hstep

/-- The sets `initialize_aggregates` re-initialises when a pass starts a new
group: each is fresh in the phase or finalised since it was fed. -/
theorem TopInv.initReset (hinv : TopInv cfg s g) {s1 : AggState D} {numReset : Nat}
    (h1 : directTop cfg s = .inr (s1, numReset)) (hnext : directNextSetEnds cfg s1 = false)
    {k : Nat} {st : SetStatus} (hk : k < numReset) (hst : (ghostPhase cfg s s1 g)[k]? = some st) :
    st = .fresh ∨ st = .finalized := by
  rcases directTop_cases cfg s with ⟨s0, h0 | h0⟩ | ⟨s2, h2, -, -, -, hsw⟩
  · rw [h1] at h0; cases h0
  · rw [h1] at h0; cases h0
  · rw [h1] at h2
    cases h2
    unfold ghostPhase at hst
    rcases hsw with rfl | ⟨hph, hP, hI⟩
    · rw [if_pos rfl] at hst
      rcases hinv.reset hk hst with h | h | ⟨-, h, -⟩
      · exact .inl h
      · exact .inr h
      · rw [inputDone_of_directNextSetEnds hnext] at h
        cases h
    · rw [if_neg (by omega)] at hst
      exact .inl (List.eq_of_mem_replicate (List.getElem?_mem hst))

end Step

/-- Every top reached from the start of a scan satisfies the invariant. -/
theorem TopReachable.topInv {cfg : AggConfig D} {s : AggState D} {g : List SetStatus}
    (h : TopReachable cfg s g) : TopInv cfg s g := by
  induction h with
  | start hP hI => exact topInv_start hP hI
  | next _ _ hA h ih => exact (ih.step hA h (.inl rfl)).1
  | emit _ _ hA h ih => exact (ih.step hA h (.inr ⟨_, rfl⟩)).1

/-- At every top of `agg_retrieve_direct`'s loop: `-1 ≤ projected_set ≤
numsets` and `numReset ≤ numsets`; each set whose context the top rescans is
fresh, finalised, or, only once the input is exhausted, initialised for a
non-empty set and never fed; each set `initialize_aggregates` then resets is
fresh or finalised; and a pass finalises only a set of the phase that was
initialised or fed since its last finalisation, which becomes the current set. -/
theorem TopReachable.resets_unfed_sets {cfg : AggConfig D} {s : AggState D} {g : List SetStatus}
    (h : TopReachable cfg s g) :
    -1 ≤ s.projectedSet ∧ s.projectedSet ≤ cfg.numGroupingSets s.currentPhase ∧
    directNumReset cfg s ≤ cfg.numGroupingSets s.currentPhase ∧
    (∀ k st, k < directNumReset cfg s → g[k]? = some st →
      st = .fresh ∨ st = .finalized ∨
        (st = .initialized ∧ s.inputDone = true ∧ (cfg.phase s.currentPhase).gsetLengths.getD k 0 ≠ 0)) ∧
    (∀ s1 numReset, directTop cfg s = .inr (s1, numReset) → directNextSetEnds cfg s1 = false →
      ∀ k st, k < numReset → (ghostPhase cfg s s1 g)[k]? = some st → st = .fresh ∨ st = .finalized) ∧
    (∀ hasGroupingSets step s' k, s.aggDone = false → directBody cfg hasGroupingSets s = .ok step →
      (step = .next s' ∨ ∃ o, step = .emit o s') → (ghostPass cfg hasGroupingSets s g).2 = some k →
      k < cfg.numGroupingSets s'.currentPhase ∧ s'.currentSet = k ∧
        ((ghostPass cfg hasGroupingSets s g).1[k]? = some .initialized ∨
          (ghostPass cfg hasGroupingSets s g).1[k]? = some .fed)) := by
  have hinv := h.topInv
  exact ⟨hinv.lower, hinv.upper, directNumReset_le cfg s, fun _ _ hk hst => hinv.reset hk hst,
    fun _ _ h1 hnext _ _ hk hst => hinv.initReset h1 hnext hk hst,
    fun _ _ _ k hA hb hstep hk => (hinv.step hA hb hstep).2 k hk⟩

/-- `SELECT a FROM t GROUP BY ROLLUP (a)`: one sorted phase with the sets
`(a)` and `()`. -/
def rollupNode : AggConfig Nat :=
  { aggstrategy := .sorted, aggsplit := ⟨false, false, false, false⟩,
    phases := [.dummy, ⟨.sorted, 2, [1, 0], some [[1], []], [fun a b => a == b], 1, [1], id⟩],
    pertrans := [], peragg := [], perhash := [], allGroupedCols := [1], natts := 1, qual := fun _ => true,
    hybridHashAgg := false, workMem := 1, defaultHashaggNbatches := 1 }

/-- After the first pass over an empty table, the top rescans only sets that
were never fed: the input is exhausted. -/
theorem emptyRollup_rescans_unfed :
    ∃ s g, TopReachable rollupNode s g ∧ s.inputDone = true ∧
      ∀ k st, k < directNumReset rollupNode s → g[k]? = some st →
        st = .fresh ∨ st = .finalized ∨
          (st = .initialized ∧ s.inputDone = true ∧ (rollupNode.phase s.currentPhase).gsetLengths.getD k 0 ≠ 0) := by
  have h : TopReachable rollupNode _ _ :=
    .emit true (.start (s := AggState.initial rollupNode [] []) rfl rfl) rfl rfl
  exact ⟨_, _, h, rfl, (TopReachable.resets_unfed_sets h).2.2.2.1⟩

/-- On an empty table the first pass initialises both sets, steps over `(a)`
and projects `()`; the next top rescans the context of `(a)`, initialised and
never finalised. -/
theorem emptyRollup_resets_unfinalized :
    ∃ s g, TopReachable rollupNode s g ∧ 0 < directNumReset rollupNode s ∧ g[0]? = some .initialized :=
  ⟨_, _, .emit true (.start (s := AggState.initial rollupNode [] []) rfl rfl) rfl rfl, by decide, rfl⟩

end

end NodeAgg

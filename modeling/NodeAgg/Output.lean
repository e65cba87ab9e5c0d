import NodeAgg.Sorted

/-!
# What a scan of the node returns

`WellFormed` is the set-up that the planner and `ExecInitAgg` give an Agg
node, as far as the scan depends on it: the sorted phases (1 to
`numphases - 1`) each satisfy `SortedPhase` and agree on having grouping sets
(`agg_retrieve_direct` computes `hasGroupingSets` once per call); a Sort node
only reorders; the hashed sets compare keys with lawful equality functions; a
combining node has no DISTINCT / ORDER BY and one grouping set; and the
strategies lay the phases out as `ExecInitAgg` does: AGG_HASHED is phase 0
alone, AGG_PLAIN and AGG_SORTED have sorted phases and no hash tables, and
AGG_MIXED has both, with grouping sets.

`execAgg_scan` is the whole node: the scan from the initial state, on fresh
hash tables, returns the rows of the sorted phases (`sortedRows`, each phase
over its input sorted by its Sort node) and then, for AGG_MIXED and AGG_HASHED,
the rows of the hashed sets over the outer rows (`hashedRows`).  It is put
together from the phase lemmas of `NodeAgg.Sorted`: `leads_phase` carries a
phase with grouping sets to its end, `PhaseDone.startsGroup` into the next
phase, and `PhaseDone.scanTo_hashed` into the hash scan.
-/

namespace NodeAgg

section

variable {D : Type} [Inhabited D]

/-- The set-up of an Agg node that the scan relies on. -/
structure WellFormed (cfg : AggConfig D) : Prop where
  /-- Phases `1` to `numphases - 1` are the sorted phases. -/
  sorted : ∀ p, 1 ≤ p → p < cfg.numphases → SortedPhase cfg p
  /-- The sorted phases agree on having grouping sets. -/
  groupingSets : ∀ p, 1 ≤ p → p < cfg.numphases → (0 < (cfg.phase p).numsets ↔ 0 < (cfg.phase 1).numsets)
  /-- A phase's Sort node reorders its input. -/
  sortnode_length : ∀ p R, ((cfg.phase p).sortnode R).length = R.length
  /-- The hashed sets compare keys with lawful equality functions. -/
  lawful : ∀ ph ∈ cfg.perhash, HashSetLawful ph
  /-- Combining partial states: no AGG_MIXED, one grouping set, no DISTINCT /
  ORDER BY, at most one hash table. -/
  combine : cfg.aggsplit.combine = true → cfg.aggstrategy ≠ .mixed ∧
    (∀ p, 1 ≤ p → p < cfg.numphases → cfg.numGroupingSets p = 1) ∧
    (∀ pt ∈ cfg.pertrans, pt.numSortCols = 0) ∧ cfg.perhash.length ≤ 1
  /-- AGG_PLAIN and AGG_SORTED: sorted phases and no hash tables. -/
  sortedNode : cfg.aggstrategy = .plain ∨ cfg.aggstrategy = .sorted → 2 ≤ cfg.numphases ∧ cfg.perhash = []
  /-- AGG_MIXED: hashed sets in phase 0, sorted phases with grouping sets, and
  no DISTINCT / ORDER BY. -/
  mixedNode : cfg.aggstrategy = .mixed → 2 ≤ cfg.numphases ∧ (cfg.phase 0).aggstrategy = .mixed ∧
    0 < cfg.perhash.length ∧ (∀ pt ∈ cfg.pertrans, pt.numSortCols = 0) ∧ 0 < (cfg.phase 1).numsets
  /-- AGG_HASHED: phase 0 alone, and no DISTINCT / ORDER BY. -/
  hashedNode : cfg.aggstrategy = .hashed → cfg.numphases = 1 ∧ (cfg.phase 0).aggstrategy = .hashed ∧
    0 < cfg.perhash.length ∧ ∀ pt ∈ cfg.pertrans, pt.numSortCols = 0
  /-- Without grouping sets there is one sorted phase at most. -/
  single : ¬0 < (cfg.phase 1).numsets → cfg.numphases ≤ 2
  /-- `find_hash_columns`: a hashed set's compacted key starts with its
  `numCols` grouping columns, at positions `1 .. numCols`. -/
  hashColumns : ∀ ph ∈ cfg.perhash,
    ph.hashGrpColIdxHash = (List.range ph.numCols).map (· + 1) ∧ ph.numCols ≤ ph.hashGrpColIdxInput.length

namespace WellFormed

variable {cfg : AggConfig D} (hwf : WellFormed cfg)
include hwf

theorem hcomb {p : Nat} (hp1 : 1 ≤ p) (hp : p < cfg.numphases) :
    cfg.aggsplit.combine = true →
      cfg.aggstrategy ≠ .mixed ∧ cfg.numGroupingSets p = 1 ∧ ∀ pt ∈ cfg.pertrans, pt.numSortCols = 0 :=
  fun hc => ⟨(hwf.combine hc).1, (hwf.combine hc).2.1 p hp1 hp, (hwf.combine hc).2.2.1⟩

theorem hasGS {p : Nat} (hp1 : 1 ≤ p) (hp : p < cfg.numphases) :
    decide (0 < (cfg.phase p).numsets) = decide (0 < (cfg.phase 1).numsets) :=
  decide_eq_decide.mpr (hwf.groupingSets p hp1 hp)

/-- A phase of a well-formed node with grouping sets, from its first group to
the end of its input. -/
theorem leads_phase {p : Nat} (hp1 : 1 ≤ p) (hp : p < cfg.numphases) (hgs : 0 < (cfg.phase 1).numsets)
    {R fed : List (Tuple D)} {acc : Nat → List (Tuple D)} {s s0 : AggState D}
    (hs : StartsGroup cfg true p R fed (cfg.numGroupingSets p) acc R s s0)
    (hslot : R = [] → s0.firstSlot = none ∨ s0.firstSlot = some (allNullTuple cfg.natts)) :
    ∃ s', Leads cfg s (phaseRows cfg p R) s' ∧ PhaseDone cfg p R (feedAfter cfg p fed R) s' :=
  NodeAgg.leads_phase hwf.lawful (hwf.hcomb hp1 hp) (hwf.sorted p hp1 hp)
    (by rw [hwf.hasGS hp1 hp]; simpa using hgs) rfl hs hslot

/-- The sorted phases from `p` on, with grouping sets: each returns its rows and
passes the rows it read to the next through that phase's Sort node. -/
theorem leads_phases (outer : List (Tuple D)) (hgs : 0 < (cfg.phase 1).numsets) (m : Nat) :
    ∀ (p : Nat) (fed : List (Tuple D)) (acc : Nat → List (Tuple D)) (s s0 : AggState D),
      p + m + 1 = cfg.numphases → 1 ≤ p →
      StartsGroup cfg true p (phaseInput cfg outer p) fed (cfg.numGroupingSets p) acc
        (phaseInput cfg outer p) s s0 →
      (phaseInput cfg outer p = [] → s0.firstSlot = none ∨ s0.firstSlot = some (allNullTuple cfg.natts)) →
      ∃ s', Leads cfg s ((List.range' p (m + 1)).flatMap fun q => phaseRows cfg q (phaseInput cfg outer q)) s' ∧
        PhaseDone cfg (p + m) (phaseInput cfg outer (p + m)) (feedAfter cfg p fed (phaseInput cfg outer p)) s' := by
  induction m with
  | zero =>
    intro p fed acc s s0 hm hp1 hs hslot
    obtain ⟨s1, hl1, hd1⟩ := hwf.leads_phase hp1 (by omega) hgs hs hslot
    exact ⟨s1, by simpa using hl1, hd1⟩
  | succ m ih =>
    intro p fed acc s s0 hm hp1 hs hslot
    obtain ⟨s1, hl1, hd1⟩ := hwf.leads_phase hp1 (by omega) hgs hs hslot
    have hc1 : DirectCall cfg true s1 :=
      hd1.inPhase.directCall (hwf.sorted p hp1 (by omega)) (by rw [hwf.hasGS hp1 (by omega)]; simpa using hgs)
    obtain ⟨q, rfl⟩ : ∃ q, p = q + 1 := ⟨p - 1, by omega⟩
    obtain ⟨s', hl2, hd2⟩ := ih (q + 2) _ acc s1 _ (by omega) (by omega)
      (hd1.startsGroup hp1 (by omega) hc1 acc) fun h => hd1.emptySlot (List.eq_nil_of_length_eq_zero
        (by rw [← hwf.sortnode_length (q + 2)]; exact List.length_eq_zero.mpr h))
    refine ⟨s', ?_, ?_⟩
    · rw [List.range'_succ, List.flatMap_cons]
      exact hl1.trans hl2
    · rw [show q + 1 + (m + 1) = q + 2 + m by omega]
      rwa [feedAfter, if_neg (by simp [feeds])] at hd2

/-- The initial state of a node with sorted phases: its first pass starts the
first group of phase 1 over the outer rows. -/
theorem initial_startsGroup (hst : cfg.aggstrategy ≠ .hashed) (hn : 2 ≤ cfg.numphases)
    {tables : List (TupleHashTable D)} (htab : List.Forall₂ (HoldsClasses cfg []) cfg.perhash tables)
    (outer : List (Tuple D)) (acc : Nat → List (Tuple D)) :
    StartsGroup cfg (decide (0 < (cfg.phase 1).numsets)) 1 outer [] (cfg.numGroupingSets 1) acc outer
      (AggState.initial cfg outer tables) (AggState.initial cfg outer tables) := by
  have hw1 := hwf.sorted 1 le_rfl (by omega)
  have hph : (AggState.initial cfg outer tables).currentPhase = 1 := by
    simp [AggState.initial, initializePhase, hst]
  refine ⟨.inr ⟨by rw [hph]; exact hw1.strategy, by rw [hph]⟩, rfl, ?_,
    ⟨⟨hph, by simp [AggState.initial, initializePhase, hst], by simp [AggState.initial, initializePhase],
      fun l hl => by simp_all [AggState.initial, initializePhase]⟩, by simpa [AggState.initial, initializePhase],
      by simp [AggState.initial, initializePhase, htab.length_eq]⟩,
    ⟨[], by simp [AggState.initial, initializePhase, AggState.inputRemaining, hst],
      by simp [AggState.initial, initializePhase, sortOutOf, hst]⟩, SetsHold.of_ge le_rfl acc,
    by simp [AggState.initial, initializePhase, AggState.inputRemaining, hst], rfl, rfl⟩
  unfold directBody directTop
  simp only [hph]
  rw [if_neg (by simp [AggState.initial, initializePhase])]
  dsimp only
  rw [if_neg (by simp [AggState.initial, initializePhase]), directProjectNext,
    if_neg (by simp [directNextSetEnds, AggState.initial, initializePhase])]

end WellFormed

/-- The rows of the hash tables of a node without any. -/
theorem hashedRows_of_nil {cfg : AggConfig D} (h : cfg.perhash = []) (xs : List (Tuple D)) :
    hashedRows cfg xs = [] := by
  simp [hashedRows, h]

/-- Every scan of a well-formed Agg node, from its initial state on fresh hash
tables over the outer rows `outer`, returns the rows of its sorted phases,
phase by phase, then the rows of its hashed sets. -/
theorem execAgg_scan {cfg : AggConfig D} (hwf : WellFormed cfg) {tables : List (TupleHashTable D)}
    (htab : List.Forall₂ (HoldsClasses cfg []) cfg.perhash tables) (outer : List (Tuple D)) :
    ∃ sf, ScanTo cfg (AggState.initial cfg outer tables) (sortedRows cfg outer ++ hashedRows cfg outer) sf := by
  by_cases hst : cfg.aggstrategy = .hashed
  · -- AGG_HASHED: phase 0 alone
    obtain ⟨h1, h0, hn, hsort⟩ := hwf.hashedNode hst
    have hsr : sortedRows cfg outer = [] := by simp [sortedRows, h1]
    rw [hsr, List.nil_append]
    exact scanTo_hashed hst h0 hn hwf.lawful hsort (fun hc => (hwf.combine hc).2.2.2) htab
  have hn : 2 ≤ cfg.numphases := by
    cases h : cfg.aggstrategy
    · exact (hwf.sortedNode (.inl h)).1
    · exact (hwf.sortedNode (.inr h)).1
    · exact absurd h hst
    · exact (hwf.mixedNode h).1
  have hs := hwf.initial_startsGroup hst hn htab outer fun _ => []
  have hslot : outer = [] → (AggState.initial cfg outer tables).firstSlot = none ∨
      (AggState.initial cfg outer tables).firstSlot = some (allNullTuple cfg.natts) := fun _ => by
    simp [AggState.initial, initializePhase]
  by_cases hgs : 0 < (cfg.phase 1).numsets
  · -- with grouping sets: every sorted phase, then the hash tables or the end
    rw [decide_eq_true hgs] at hs
    obtain ⟨s', hl, hd⟩ := hwf.leads_phases outer hgs (cfg.numphases - 2) 1 [] _ _ _ (by omega) le_rfl hs hslot
    have hsr : sortedRows cfg outer =
        (List.range' 1 (cfg.numphases - 2 + 1)).flatMap fun q => phaseRows cfg q (phaseInput cfg outer q) := by
      rw [sortedRows, show cfg.numphases - 2 + 1 = cfg.numphases - 1 by omega]
    have hc : DirectCall cfg true s' := hd.inPhase.directCall (hwf.sorted _ (by omega) (by omega))
      (by rw [hwf.hasGS (by omega) (by omega)]; simpa using hgs)
    have hlast : 1 + (cfg.numphases - 2) + 1 = cfg.numphases := by omega
    by_cases hmixed : cfg.aggstrategy = .mixed
    · obtain ⟨-, h0, hnh, hsort, -⟩ := hwf.mixedNode hmixed
      obtain ⟨sf, hsf⟩ := hd.scanTo_hashed hlast hc hmixed h0 hnh hsort
      rw [feedAfter, if_pos (by simp [feeds, hmixed]), List.nil_append] at hsf
      exact ⟨sf, hsr ▸ hl _ _ hsf⟩
    · have hnil : cfg.perhash = [] := (hwf.sortedNode (by cases h : cfg.aggstrategy <;> simp_all)).2
      rw [hashedRows_of_nil hnil, List.append_nil, hsr]
      exact ⟨_, by simpa using hl _ _ (hd.scanTo_done hlast hc hmixed)⟩
  · -- without grouping sets: phase 1 alone, and the scan ends with it
    rw [decide_eq_false hgs] at hs
    have h2 : cfg.numphases = 2 := le_antisymm (hwf.single hgs) hn
    have hmixed : cfg.aggstrategy ≠ .mixed := fun h => hgs (hwf.mixedNode h).2.2.2.2
    have hnil : cfg.perhash = [] := (hwf.sortedNode (by cases h : cfg.aggstrategy <;> simp_all)).2
    rw [hashedRows_of_nil hnil, List.append_nil, show sortedRows cfg outer = phaseRows cfg 1 outer by
      simp [sortedRows, h2, phaseInput]]
    exact scanTo_phase hwf.lawful (hwf.hcomb le_rfl (by omega)) (hwf.sorted 1 le_rfl (by omega))
      (by simpa using hgs) rfl hs hslot

end

end NodeAgg

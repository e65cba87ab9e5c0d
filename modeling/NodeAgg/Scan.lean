import NodeAgg.Retrieve

/-!
# What a scan returns

The loops of the executor take their fuel only as a bound: given more fuel, a
loop that returned returns the same (`directLoop_mono`, `execAggScan_mono`).
`ScanTo cfg s os s'` says that calling `ExecAgg` from `s` until it returns NULL
gives the rows `os` and leaves `s'`, for some fuel and number of calls, hence
for every larger one (`ScanTo.eventually`).

The transfer lemmas say how one pass of a retrieval loop moves a scan.  A pass
that goes round again changes nothing, a pass that returns a row puts it in
front of the rest, and a pass that ends the loop ends the scan.  A call of
`ExecAgg` started in the middle of a loop behaves as the loop going on, since
the loop keeps nothing but the node's state: that is what `DirectCall` and
`HashCall` say of a state.
-/

namespace NodeAgg

section

variable {D : Type} [Inhabited D] {cfg : AggConfig D}

/-! ## Fuel only bounds the loops -/

theorem aggRetrieveHashTable_mono {f f' : Nat} (hle : f ≤ f') {s : AggState D}
    {r : Option (AggOutput D) × AggState D} (h : aggRetrieveHashTable cfg f s = .ok r) :
    aggRetrieveHashTable cfg f' s = .ok r := by
  induction f generalizing f' s with
  | zero => rw [aggRetrieveHashTable] at h; cases h
  | succ f ih =>
    obtain ⟨f', rfl⟩ := Nat.exists_eq_add_of_lt hle
    rw [aggRetrieveHashTable] at h ⊢
    split
    · rwa [if_pos ‹_›] at h
    · rw [if_neg ‹_›] at h
      cases hst : retrieveHashStep cfg s with
      | error e => rw [hst] at h; cases h
      | ok st =>
        rw [hst] at h
        cases st with
        | next s' => exact ih (by omega) h
        | emit o s' => exact h
        | done s' => exact h
        | hashed s' => exact h

theorem directLoop_mono {hasGroupingSets : Bool} {f f' : Nat} (hle : f ≤ f') {s : AggState D}
    {r : Option (AggOutput D) × AggState D} (h : directLoop cfg hasGroupingSets f s = .ok r) :
    directLoop cfg hasGroupingSets f' s = .ok r := by
  induction f generalizing f' s with
  | zero => rw [directLoop] at h; cases h
  | succ f ih =>
    obtain ⟨f', rfl⟩ := Nat.exists_eq_add_of_lt hle
    rw [directLoop] at h ⊢
    split
    · rwa [if_pos ‹_›] at h
    · rw [if_neg ‹_›] at h
      cases hst : directBody cfg hasGroupingSets s with
      | error e => rw [hst] at h; cases h
      | ok st =>
        rw [hst] at h
        cases st with
        | next s' => exact ih (by omega) h
        | emit o s' => exact h
        | done s' => exact h
        | hashed s' => exact aggRetrieveHashTable_mono (by omega) h

theorem execAgg_mono {f f' : Nat} (hle : f ≤ f') {s : AggState D}
    {r : Option (AggOutput D) × AggState D} (h : execAgg cfg f s = .ok r) :
    execAgg cfg f' s = .ok r := by
  unfold execAgg at h ⊢
  split
  · rwa [if_pos ‹_›] at h
  · rw [if_neg ‹_›] at h
    split at h
    · simp only at h ⊢
      split at h
      · rw [if_pos ‹_›]; exact aggRetrieveHashTable_mono hle h
      · rw [if_neg ‹_›]
        cases hfill : aggFillHashTable cfg s with
        | error e => rw [hfill] at h; cases h
        | ok s' => rw [hfill] at h; exact aggRetrieveHashTable_mono hle h
    · exact aggRetrieveHashTable_mono hle h
    · exact directLoop_mono hle h
    · exact directLoop_mono hle h

theorem execAggScan_mono {f f' calls calls' : Nat} (hf : f ≤ f') (hc : calls ≤ calls')
    {s : AggState D} {r : List (AggOutput D) × AggState D} (h : execAggScan cfg f calls s = .ok r) :
    execAggScan cfg f' calls' s = .ok r := by
  induction calls generalizing calls' s r with
  | zero => rw [execAggScan] at h; cases h
  | succ calls ih =>
    obtain ⟨calls', rfl⟩ := Nat.exists_eq_add_of_lt hc
    rw [execAggScan] at h ⊢
    rcases hex : execAgg cfg f s with e | ⟨_ | o, s'⟩ <;> rw [hex] at h
    · cases h
    · rwa [execAgg_mono hf hex]
    · rw [execAgg_mono hf hex]
      rcases ht : execAggScan cfg f calls s' with e | q <;>
        simp only [ht, bind, Except.bind] at h
      · cases h
      · simpa only [ih (Nat.le_add_right calls calls') ht, bind, Except.bind] using h

/-- A call of `ExecAgg` that behaves as another (with less fuel) extends to the
whole scan. -/
theorem execAggScan_of_execAgg_eq {f f' calls : Nat} {s s1 : AggState D}
    {r : List (AggOutput D) × AggState D} (hcall : execAgg cfg f' s = execAgg cfg f s1)
    (hle : f ≤ f') (h : execAggScan cfg f calls s1 = .ok r) : execAggScan cfg f' calls s = .ok r := by
  cases calls with
  | zero => rw [execAggScan] at h; cases h
  | succ calls =>
    rw [execAggScan] at h ⊢
    rw [hcall]
    rcases hex : execAgg cfg f s1 with e | ⟨_ | o, s'⟩ <;> rw [hex] at h
    · cases h
    · exact h
    · rcases ht : execAggScan cfg f calls s' with e | q <;>
        simp only [ht, bind, Except.bind] at h
      · cases h
      · simpa only [execAggScan_mono hle le_rfl ht, bind, Except.bind] using h

/-! ## Scans -/

/-- Calling `ExecAgg` from `s` until it returns NULL gives the rows `os` and
leaves `s'`. -/
def ScanTo (cfg : AggConfig D) (s : AggState D) (os : List (AggOutput D)) (s' : AggState D) : Prop :=
  ∃ fuel calls, execAggScan cfg fuel calls s = .ok (os, s')

/-- A scan that returns with some fuel returns the same with any more. -/
theorem ScanTo.eventually {s s' : AggState D} {os : List (AggOutput D)} (h : ScanTo cfg s os s') :
    ∃ n, ∀ fuel calls, n ≤ fuel → n ≤ calls → execAggScan cfg fuel calls s = .ok (os, s') := by
  obtain ⟨f, c, h⟩ := h
  exact ⟨max f c, fun _ _ hf hc => execAggScan_mono ((le_max_left f c).trans hf) ((le_max_right f c).trans hc) h⟩

theorem scanTo_of_aggDone {s : AggState D} (hd : s.aggDone = true) : ScanTo cfg s [] s :=
  ⟨0, 1, by simp [execAggScan, execAgg, hd]; rfl⟩

/-- A call of `ExecAgg` that behaves as the scan from another state. -/
theorem scanTo_of_execAgg_eq {s s1 sf : AggState D} {os : List (AggOutput D)}
    (hcall : ∀ f, execAgg cfg (f + 1) s = execAgg cfg f s1) (h : ScanTo cfg s1 os sf) :
    ScanTo cfg s os sf := by
  obtain ⟨f, c, h⟩ := h
  exact ⟨f + 1, c, execAggScan_of_execAgg_eq (hcall f) (Nat.le_succ f) h⟩

/-- A call of `ExecAgg` that does some work first and then behaves as the call
from another state. -/
theorem scanTo_of_execAgg_eq_succ {s s1 sf : AggState D} {os : List (AggOutput D)}
    (hcall : ∀ f, execAgg cfg (f + 1) s = execAgg cfg (f + 1) s1) (h : ScanTo cfg s1 os sf) :
    ScanTo cfg s os sf := by
  obtain ⟨f, c, h⟩ := h
  exact ⟨f + 1, c, execAggScan_of_execAgg_eq (hcall f) le_rfl (execAggScan_mono (Nat.le_succ f) le_rfl h)⟩

/-- The scan after a row: the row, then the scan of the state after it. -/
theorem scanTo_cons {s s1 sf : AggState D} {o : AggOutput D} {os : List (AggOutput D)}
    (hcall : ∀ f, execAgg cfg (f + 1) s = .ok (some o, s1)) (h : ScanTo cfg s1 os sf) :
    ScanTo cfg s (o :: os) sf := by
  obtain ⟨f, c, h⟩ := h
  refine ⟨f + 1, c + 1, ?_⟩
  rw [execAggScan, hcall]
  simp only [bind, Except.bind, execAggScan_mono (Nat.le_succ f) le_rfl h]
  rfl

/-- From `s` the node returns the rows `os` on its way to `s'`: whatever the
scan returns from `s'` on, it returns after `os` from `s`. -/
def Leads (cfg : AggConfig D) (s : AggState D) (os : List (AggOutput D)) (s' : AggState D) : Prop :=
  ∀ os' sf, ScanTo cfg s' os' sf → ScanTo cfg s (os ++ os') sf

theorem Leads.refl (s : AggState D) : Leads cfg s [] s := fun _ _ h => h

theorem Leads.trans {s s1 s2 : AggState D} {os1 os2 : List (AggOutput D)} (h1 : Leads cfg s os1 s1)
    (h2 : Leads cfg s1 os2 s2) : Leads cfg s (os1 ++ os2) s2 := fun os' sf h => by
  rw [List.append_assoc]; exact h1 _ _ (h2 _ _ h)

/-! ## The sorted path -/

/-- A state from which `ExecAgg` runs `agg_retrieve_direct` with
`hasGroupingSets`, or returns NULL at once. -/
def DirectCall (cfg : AggConfig D) (hasGroupingSets : Bool) (s : AggState D) : Prop :=
  s.aggDone = true ∨
    (((cfg.phase s.currentPhase).aggstrategy = .plain ∨ (cfg.phase s.currentPhase).aggstrategy = .sorted) ∧
      decide (0 < (cfg.phase s.currentPhase).numsets) = hasGroupingSets)

variable {hasGroupingSets : Bool}

theorem execAgg_of_directCall {s : AggState D} (hc : DirectCall cfg hasGroupingSets s) (f : Nat) :
    execAgg cfg (f + 1) s = directLoop cfg hasGroupingSets (f + 1) s := by
  rcases hc with hd | ⟨hs | hs, hg⟩ <;> cases hd' : s.aggDone <;>
    simp_all [execAgg, directLoop, aggRetrieveDirect]

/-- `directLoop` after a pass that goes round again. -/
theorem directLoop_next {s s1 : AggState D} (hd : s.aggDone = false)
    (hb : directBody cfg hasGroupingSets s = .ok (.next s1)) (f : Nat) :
    directLoop cfg hasGroupingSets (f + 1) s = directLoop cfg hasGroupingSets f s1 := by
  rw [directLoop, if_neg (by simp [hd]), hb]; rfl

theorem scanTo_direct_next {s s1 sf : AggState D} {os : List (AggOutput D)}
    (hc : DirectCall cfg hasGroupingSets s) (hc1 : DirectCall cfg hasGroupingSets s1)
    (hd : s.aggDone = false) (hb : directBody cfg hasGroupingSets s = .ok (.next s1))
    (h : ScanTo cfg s1 os sf) : ScanTo cfg s os sf := by
  obtain ⟨f, c, h⟩ := h
  refine ⟨f + 2, c, execAggScan_of_execAgg_eq (f := f + 1) ?_ (Nat.le_succ _)
    (execAggScan_mono (Nat.le_succ f) le_rfl h)⟩
  rw [execAgg_of_directCall hc, execAgg_of_directCall hc1, directLoop_next hd hb]

theorem scanTo_direct_emit {s s1 sf : AggState D} {o : AggOutput D} {os : List (AggOutput D)}
    (hc : DirectCall cfg hasGroupingSets s) (hd : s.aggDone = false)
    (hb : directBody cfg hasGroupingSets s = .ok (.emit o s1)) (h : ScanTo cfg s1 os sf) :
    ScanTo cfg s (o :: os) sf :=
  scanTo_cons (fun f => by rw [execAgg_of_directCall hc, directLoop, if_neg (by simp [hd]), hb]; rfl) h

theorem scanTo_direct_done {s s1 : AggState D} (hc : DirectCall cfg hasGroupingSets s)
    (hd : s.aggDone = false) (hb : directBody cfg hasGroupingSets s = .ok (.done s1)) :
    ScanTo cfg s [] s1 :=
  ⟨1, 1, by rw [execAggScan, execAgg_of_directCall hc, directLoop, if_neg (by simp [hd]), hb]; rfl⟩

omit [Inhabited D] in
/-- The hand-over of AGG_MIXED to the hash scan. -/
theorem DirectCall.update {s s' : AggState D} (h : DirectCall cfg hasGroupingSets s)
    (hph : s'.currentPhase = s.currentPhase) (hd : s'.aggDone = s.aggDone) :
    DirectCall cfg hasGroupingSets s' := by
  unfold DirectCall; rw [hph, hd]; exact h

theorem leads_direct_next {s s1 : AggState D} (hc : DirectCall cfg hasGroupingSets s)
    (hc1 : DirectCall cfg hasGroupingSets s1) (hd : s.aggDone = false)
    (hb : directBody cfg hasGroupingSets s = .ok (.next s1)) : Leads cfg s [] s1 :=
  fun _ _ h => scanTo_direct_next hc hc1 hd hb h

theorem leads_direct_emit {s s1 : AggState D} {o : AggOutput D} (hc : DirectCall cfg hasGroupingSets s)
    (hd : s.aggDone = false) (hb : directBody cfg hasGroupingSets s = .ok (.emit o s1)) :
    Leads cfg s [o] s1 :=
  fun _ _ h => scanTo_direct_emit hc hd hb h

theorem scanTo_direct_hashed {s s1 sf : AggState D} {os : List (AggOutput D)}
    (hc : DirectCall cfg hasGroupingSets s) (hd : s.aggDone = false)
    (hb : directBody cfg hasGroupingSets s = .ok (.hashed s1)) (hd1 : s1.aggDone = false)
    (hm : (cfg.phase s1.currentPhase).aggstrategy = .mixed) (h : ScanTo cfg s1 os sf) :
    ScanTo cfg s os sf := by
  refine scanTo_of_execAgg_eq (fun f => ?_) h
  rw [execAgg_of_directCall hc, directLoop, if_neg (by simp [hd]), hb]
  simp [execAgg, hd1, hm]
  rfl

/-! ## The hash scan -/

/-- A state from which `ExecAgg` runs `agg_retrieve_hash_table` on filled
tables, or returns NULL at once. -/
def HashCall (cfg : AggConfig D) (s : AggState D) : Prop :=
  s.aggDone = true ∨ (cfg.phase s.currentPhase).aggstrategy = .mixed ∨
    ((cfg.phase s.currentPhase).aggstrategy = .hashed ∧ s.tableFilled = true)

theorem execAgg_of_hashCall {s : AggState D} (hc : HashCall cfg s) (f : Nat) :
    execAgg cfg (f + 1) s = aggRetrieveHashTable cfg (f + 1) s := by
  rcases hc with hd | hs | ⟨hs, hf⟩
  · simp [execAgg, aggRetrieveHashTable, hd]
  · cases hd : s.aggDone <;> simp [execAgg, aggRetrieveHashTable, hd, hs]
  · cases hd : s.aggDone <;> simp [execAgg, aggRetrieveHashTable, hd, hs, hf]

theorem aggRetrieveHashTable_next {s s1 : AggState D} (hd : s.aggDone = false)
    (hb : retrieveHashStep cfg s = .ok (.next s1)) (f : Nat) :
    aggRetrieveHashTable cfg (f + 1) s = aggRetrieveHashTable cfg f s1 := by
  rw [aggRetrieveHashTable, if_neg (by simp [hd]), hb]; rfl

theorem scanTo_hash_next {s s1 sf : AggState D} {os : List (AggOutput D)}
    (hc : HashCall cfg s) (hc1 : HashCall cfg s1) (hd : s.aggDone = false)
    (hb : retrieveHashStep cfg s = .ok (.next s1)) (h : ScanTo cfg s1 os sf) : ScanTo cfg s os sf := by
  obtain ⟨f, c, h⟩ := h
  refine ⟨f + 2, c, execAggScan_of_execAgg_eq (f := f + 1) ?_ (Nat.le_succ _)
    (execAggScan_mono (Nat.le_succ f) le_rfl h)⟩
  rw [execAgg_of_hashCall hc, execAgg_of_hashCall hc1, aggRetrieveHashTable_next hd hb]

theorem scanTo_hash_emit {s s1 sf : AggState D} {o : AggOutput D} {os : List (AggOutput D)}
    (hc : HashCall cfg s) (hd : s.aggDone = false)
    (hb : retrieveHashStep cfg s = .ok (.emit o s1)) (h : ScanTo cfg s1 os sf) :
    ScanTo cfg s (o :: os) sf :=
  scanTo_cons (fun f => by
    rw [execAgg_of_hashCall hc, aggRetrieveHashTable, if_neg (by simp [hd]), hb]; rfl) h

theorem scanTo_hash_done {s s1 : AggState D} (hc : HashCall cfg s) (hd : s.aggDone = false)
    (hb : retrieveHashStep cfg s = .ok (.done s1)) : ScanTo cfg s [] s1 :=
  ⟨1, 1, by rw [execAggScan, execAgg_of_hashCall hc, aggRetrieveHashTable, if_neg (by simp [hd]), hb]; rfl⟩

end

end NodeAgg

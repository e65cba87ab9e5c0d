import NodeAgg.State

/-!
# Shared per-agg and per-trans structs

`ExecInitAgg` walks the Aggrefs of the targetlist and qual once.  For each one
it asks `find_compatible_peragg` for an earlier per-agg struct with the same
inputs and the same aggregate function (`SELECT sum(x) ... HAVING sum(x) > 0`).
When there is none, it reads the catalog, builds a per-agg struct, and asks
`find_compatible_pertrans` for a per-trans struct of an earlier aggregate with
the same inputs, transition function and initial value (`SELECT sum(x), avg(x)`
over numeric).  The pass gives each Aggref an `aggno` and each per-agg struct a
`transno`.

The Aggrefs here carry the fields the pass reads.  Expressions are of any type
`E`, compared with the structural equality `equal()` implements.  `SharingInv`
is what the pass keeps true of the structs it has built, and
`assignAggrefs_inv` carries it over the whole list.  From it:
* two Aggrefs share an aggno only when they are identical and not volatile;
* they share a transno only when they have the same inputs and transition setup;
* the value of every aggregate, computed through the shared structs, is the
  value it computes alone;
* the indexes into `pergroup` stay within its allocation.
-/

namespace NodeAgg

/-- `InvalidOid`. -/
def invalidOid : Nat := 0

/-- `INTERNALOID`: the transition type of states only the aggregate's own
functions read, serialized when a partial aggregate is passed on. -/
def internalOid : Nat := 2281

/-- The fields of an `Aggref` that the sharing pass of `ExecInitAgg` reads.
`E` is the type of the argument, direct-argument and FILTER expressions. -/
structure Aggref (E : Type) where
  aggfnoid : Nat
  aggtype : Nat
  aggcollid : Nat
  inputcollid : Nat
  aggtranstype : Nat
  aggdirectargs : List E
  args : List E
  /-- The ORDER BY and DISTINCT clauses, as references to `args`. -/
  aggorder : List Nat
  aggdistinct : List Nat
  aggfilter : Option E
  aggstar : Bool
  aggvariadic : Bool
  aggkind : Char
  deriving DecidableEq

/-- The `pg_aggregate` row of an aggregate function, `agginitval` as
`GetAggInitVal` converts it (`none` for NULL). -/
structure PgAggregate (D : Type) where
  aggtransfn : Nat
  aggfinalfn : Nat
  aggcombinefn : Nat
  aggserialfn : Nat
  aggdeserialfn : Nat
  agginitval : Option D

/-- What `find_compatible_pertrans` compares of a per-trans struct: the
transition (or combine) function, the state type, the serialization functions
and the initial value (`none` for NULL). -/
structure TransSetup (D : Type) where
  transfnOid : Nat
  aggtranstype : Nat
  serialfnOid : Nat
  deserialfnOid : Nat
  initValue : Option D
  deriving DecidableEq

/-- `AggStatePerAggData` as the pass fills it: the Aggref, the per-trans struct
it reads, and its final function. -/
structure PerAgg (E : Type) where
  aggref : Aggref E
  transno : Nat
  finalfnOid : Nat

/-- `AggStatePerTransData` as the pass fills it: the Aggref
`build_pertrans_for_aggref` built it for, and its setup. -/
structure PerTrans (E D : Type) where
  aggref : Aggref E
  setup : TransSetup D

/-- The inputs of an aggregate, which the transition state depends on besides
the setup: input collation, state type, `*`, VARIADIC, kind, direct arguments,
arguments, ORDER BY, DISTINCT and FILTER. -/
abbrev AggInputs (E : Type) :=
  Nat × Nat × Bool × Bool × Char × List E × List E × List Nat × List Nat × Option E

section

variable {E D : Type} [DecidableEq E] [DecidableEq D]

namespace Aggref

def inputKey (a : Aggref E) : AggInputs E :=
  (a.inputcollid, a.aggtranstype, a.aggstar, a.aggvariadic, a.aggkind, a.aggdirectargs, a.args,
    a.aggorder, a.aggdistinct, a.aggfilter)

/-- The tests at the head of the loop of `find_compatible_peragg`: an earlier
Aggref differing in any of these fields is skipped. -/
def sameInputs (newagg existingRef : Aggref E) : Bool :=
  newagg.inputcollid == existingRef.inputcollid && newagg.aggtranstype == existingRef.aggtranstype &&
    newagg.aggstar == existingRef.aggstar && newagg.aggvariadic == existingRef.aggvariadic &&
    newagg.aggkind == existingRef.aggkind && newagg.aggdirectargs == existingRef.aggdirectargs &&
    newagg.args == existingRef.args && newagg.aggorder == existingRef.aggorder &&
    newagg.aggdistinct == existingRef.aggdistinct && newagg.aggfilter == existingRef.aggfilter

/-- The test for an exact match: the same aggregate function, result type and
collation. -/
def sameFunction (newagg existingRef : Aggref E) : Bool :=
  newagg.aggfnoid == existingRef.aggfnoid && newagg.aggtype == existingRef.aggtype &&
    newagg.aggcollid == existingRef.aggcollid

/-- `contain_volatile_functions` on an Aggref: whether its direct arguments,
arguments or FILTER call a volatile function (`volatile`, on one expression). -/
def containVolatileFunctions (volatile : E → Bool) (a : Aggref E) : Bool :=
  a.aggdirectargs.any volatile || a.args.any volatile || a.aggfilter.any volatile

theorem sameInputs_iff {a b : Aggref E} : a.sameInputs b = true ↔ a.inputKey = b.inputKey := by
  simp [sameInputs, inputKey, and_assoc]

/-- An exact match is the same Aggref. -/
theorem eq_of_sameInputs_of_sameFunction {a b : Aggref E} (hi : a.sameInputs b = true)
    (hf : a.sameFunction b = true) : a = b := by
  cases a; cases b
  simp only [sameInputs, sameFunction, Bool.and_eq_true, beq_iff_eq] at hi hf
  simp [hi, hf]

end Aggref

/-- The tests of `find_compatible_pertrans` on one per-trans struct: the same
transition function and state type, the same serialization functions, and
initial values both NULL or both not NULL and `datumIsEqual`. -/
def TransSetup.compatible (s pt : TransSetup D) : Bool :=
  s.transfnOid == pt.transfnOid && s.aggtranstype == pt.aggtranstype &&
    s.serialfnOid == pt.serialfnOid && s.deserialfnOid == pt.deserialfnOid &&
    match s.initValue, pt.initValue with
    | none, none => true
    | some v, some w => v == w
    | _, _ => false

theorem TransSetup.compatible_iff {s pt : TransSetup D} : s.compatible pt = true ↔ s = pt := by
  cases s with | mk f t sf df v =>
  cases pt with | mk f' t' sf' df' v' =>
  cases v <;> cases v' <;> simp [compatible, and_assoc]

/-! ## The pass -/

/-- The loop of `find_compatible_peragg` over the per-agg structs from `aggno`
on: the first exact match, or `none` and the transnos of the structs with the
same inputs (`same_input_transnos`). -/
def findCompatiblePeraggLoop (newagg : Aggref E) :
    List (PerAgg E) → Nat → List Nat → Option Nat × List Nat
  | [], _, sameInputTransnos => (none, sameInputTransnos)
  | peragg :: rest, aggno, sameInputTransnos =>
    if !newagg.sameInputs peragg.aggref then
      findCompatiblePeraggLoop newagg rest (aggno + 1) sameInputTransnos
    else if newagg.sameFunction peragg.aggref then (some aggno, [])
    else findCompatiblePeraggLoop newagg rest (aggno + 1) (sameInputTransnos ++ [peragg.transno])

/-- `find_compatible_peragg`: an Aggref with volatile function calls is never
shared. -/
def findCompatiblePeragg (volatile : E → Bool) (newagg : Aggref E) (peraggs : List (PerAgg E)) :
    Option Nat × List Nat :=
  if newagg.containVolatileFunctions volatile then (none, [])
  else findCompatiblePeraggLoop newagg peraggs 0 []

/-- `find_compatible_pertrans`: the first listed per-trans struct whose setup
matches. -/
def findCompatiblePertrans (setup : TransSetup D) (pertrans : List (PerTrans E D)) :
    List Nat → Option Nat
  | [] => none
  | transno :: rest =>
    match pertrans[transno]? with
    | some pt => if setup.compatible pt.setup then some transno else findCompatiblePertrans setup pertrans rest
    | none => findCompatiblePertrans setup pertrans rest

/-- What `ExecInitAgg` reads from the catalog for a new per-agg struct: the
final function (`InvalidOid` in SKIPFINAL mode) and the transition setup.  The
combine function replaces the transition function when the node combines, and
an INTERNAL state needs the serialization functions its node uses. -/
def aggSetup (aggsplit : AggSplit) (catalog : Nat → Option (PgAggregate D)) (aggref : Aggref E) :
    Except String (Nat × TransSetup D) := do
  let oid := aggref.aggfnoid
  let some aggform := catalog oid | throw s!"cache lookup failed for aggregate {oid}"
  let aggtranstype := aggref.aggtranstype
  let transfnOid ←
    if aggsplit.combine then
      if aggform.aggcombinefn == invalidOid then throw "combinefn not set for aggregate function"
      else pure aggform.aggcombinefn
    else pure aggform.aggtransfn
  let finalfnOid := if aggsplit.skipfinal then invalidOid else aggform.aggfinalfn
  let serialfnOid ←
    if aggtranstype == internalOid && aggsplit.serialize then
      if aggform.aggserialfn == invalidOid then throw "serialfunc not provided for serialization aggregation"
      else pure aggform.aggserialfn
    else pure invalidOid
  let deserialfnOid ←
    if aggtranstype == internalOid && aggsplit.deserialize then
      if aggform.aggdeserialfn == invalidOid then
        throw "deserialfunc not provided for deserialization aggregation"
      else pure aggform.aggdeserialfn
    else pure invalidOid
  pure (finalfnOid, ⟨transfnOid, aggtranstype, serialfnOid, deserialfnOid, aggform.agginitval⟩)

/-- The structs the pass has built, and the aggno of each Aggref so far
(`aggrefstate->aggno`). -/
structure SharingState (E D : Type) where
  peraggs : List (PerAgg E)
  pertrans : List (PerTrans E D)
  aggnos : List Nat

/-- One pass of the loop of `ExecInitAgg` over the Aggrefs. -/
def assignAggref (volatile : E → Bool) (aggsplit : AggSplit) (catalog : Nat → Option (PgAggregate D))
    (st : SharingState E D) (aggref : Aggref E) : Except String (SharingState E D) :=
  match findCompatiblePeragg volatile aggref st.peraggs with
  | (some existingAggno, _) => pure { st with aggnos := st.aggnos ++ [existingAggno] }
  | (none, sameInputTransnos) => do
    let aggno := st.peraggs.length
    let (finalfnOid, setup) ← aggSetup aggsplit catalog aggref
    match findCompatiblePertrans setup st.pertrans sameInputTransnos with
    | some existingTransno =>
      pure ⟨st.peraggs ++ [⟨aggref, existingTransno, finalfnOid⟩], st.pertrans, st.aggnos ++ [aggno]⟩
    | none =>
      pure ⟨st.peraggs ++ [⟨aggref, st.pertrans.length, finalfnOid⟩], st.pertrans ++ [⟨aggref, setup⟩],
        st.aggnos ++ [aggno]⟩

/-- The loop of `ExecInitAgg` over `aggstate->aggs`; `numaggs` and `numtrans`
are then the lengths of the per-agg and per-trans lists. -/
def assignAggrefs (volatile : E → Bool) (aggsplit : AggSplit) (catalog : Nat → Option (PgAggregate D))
    (aggs : List (Aggref E)) : Except String (SharingState E D) :=
  aggs.foldlM (assignAggref volatile aggsplit catalog) ⟨[], [], []⟩

/-- The transno of the per-agg struct of Aggref `i`. -/
def SharingState.transnoOf (st : SharingState E D) (i : Nat) : Option Nat := do
  let aggno ← st.aggnos[i]?
  let peragg ← st.peraggs[aggno]?
  pure peragg.transno

/-- The value of Aggref `i` as the executor computes it after the pass: the
final step of its per-agg struct over the state of the per-trans struct it
reads.  `build` is the state a transition computes from its inputs and setup,
`final` what the final step makes of a state. -/
def SharingState.sharedResult {S R : Type} (build : AggInputs E → TransSetup D → S)
    (final : Aggref E → S → R) (st : SharingState E D) (i : Nat) : Option R := do
  let aggno ← st.aggnos[i]?
  let peragg ← st.peraggs[aggno]?
  let pt ← st.pertrans[peragg.transno]?
  pure (final peragg.aggref (build pt.aggref.inputKey pt.setup))

/-- The value of an aggregate computed alone: its final step over the state its
own transition computes. -/
def ownResult {S R : Type} (build : AggInputs E → TransSetup D → S) (final : Aggref E → S → R)
    (aggsplit : AggSplit) (catalog : Nat → Option (PgAggregate D)) (aggref : Aggref E) : Except String R := do
  let (_, setup) ← aggSetup aggsplit catalog aggref
  pure (final aggref (build aggref.inputKey setup))

/-! ## What the searches return -/

/-- An exact match found from `aggno = k` on is a per-agg struct holding the
same Aggref. -/
theorem findCompatiblePeraggLoop_some {newagg : Aggref E} :
    ∀ {peraggs : List (PerAgg E)} {k : Nat} {acc l : List Nat} {a : Nat},
      findCompatiblePeraggLoop newagg peraggs k acc = (some a, l) →
        k ≤ a ∧ ∃ p, peraggs[a - k]? = some p ∧ p.aggref = newagg
  | [], _, _, _, _, h => by cases h
  | peragg :: rest, k, acc, l, a, h => by
    have skip : ∀ {acc'}, findCompatiblePeraggLoop newagg rest (k + 1) acc' = (some a, l) →
        k ≤ a ∧ ∃ p, (peragg :: rest)[a - k]? = some p ∧ p.aggref = newagg := fun h' => by
      obtain ⟨hk, p, hp, hpa⟩ := findCompatiblePeraggLoop_some h'
      refine ⟨by omega, p, ?_, hpa⟩
      rw [show a - k = a - (k + 1) + 1 by omega, List.getElem?_cons_succ]
      exact hp
    unfold findCompatiblePeraggLoop at h
    split at h
    · exact skip h
    · split at h
      · rename_i hin hfn
        cases h
        simp only [Bool.not_eq_true', Bool.not_eq_false] at hin
        exact ⟨le_refl _, peragg, by simp, (Aggref.eq_of_sameInputs_of_sameFunction hin hfn).symm⟩
      · exact skip h

/-- Each transno the search collects belongs to a per-agg struct with the same
inputs. -/
theorem findCompatiblePeraggLoop_transnos {newagg : Aggref E} :
    ∀ {peraggs : List (PerAgg E)} {k : Nat} {acc : List Nat},
      ∀ t ∈ (findCompatiblePeraggLoop newagg peraggs k acc).2,
        t ∈ acc ∨ ∃ p ∈ peraggs, p.transno = t ∧ p.aggref.inputKey = newagg.inputKey
  | [], _, _, t, ht => .inl ht
  | peragg :: rest, k, acc, t, ht => by
    unfold findCompatiblePeraggLoop at ht
    split at ht
    · rcases findCompatiblePeraggLoop_transnos t ht with h | ⟨p, hp, h⟩
      · exact .inl h
      · exact .inr ⟨p, .tail _ hp, h⟩
    · rename_i hin
      simp only [Bool.not_eq_true', Bool.not_eq_false] at hin
      split at ht
      · cases ht
      · rcases findCompatiblePeraggLoop_transnos t ht with h | ⟨p, hp, h⟩
        · rcases List.mem_append.1 h with h | h
          · exact .inl h
          · exact .inr ⟨peragg, .head _, (List.mem_singleton.1 h).symm,
              (Aggref.sameInputs_iff.1 hin).symm⟩
        · exact .inr ⟨p, .tail _ hp, h⟩

omit [DecidableEq E] in
/-- A per-trans struct `find_compatible_pertrans` returns is one of those
listed, and its setup is the new aggregate's. -/
theorem findCompatiblePertrans_some {setup : TransSetup D} {pertrans : List (PerTrans E D)} :
    ∀ {transnos : List Nat} {t : Nat}, findCompatiblePertrans setup pertrans transnos = some t →
      t ∈ transnos ∧ ∃ pt, pertrans[t]? = some pt ∧ pt.setup = setup
  | [], _, h => by cases h
  | transno :: rest, t, h => by
    unfold findCompatiblePertrans at h
    split at h
    · rename_i pt hpt
      split at h
      · rename_i hc
        cases h
        exact ⟨.head _, pt, hpt, (TransSetup.compatible_iff.1 hc).symm⟩
      · exact (findCompatiblePertrans_some h).imp (.tail _) id
    · exact (findCompatiblePertrans_some h).imp (.tail _) id

theorem findCompatiblePeragg_some {volatile : E → Bool} {newagg : Aggref E} {peraggs : List (PerAgg E)}
    {a : Nat} {l : List Nat} (h : findCompatiblePeragg volatile newagg peraggs = (some a, l)) :
    newagg.containVolatileFunctions volatile = false ∧ ∃ p, peraggs[a]? = some p ∧ p.aggref = newagg := by
  unfold findCompatiblePeragg at h
  split at h
  · cases h
  · rename_i hv
    simpa [hv] using (findCompatiblePeraggLoop_some h).2

theorem findCompatiblePeragg_transnos {volatile : E → Bool} {newagg : Aggref E} {peraggs : List (PerAgg E)} :
    ∀ t ∈ (findCompatiblePeragg volatile newagg peraggs).2,
      ∃ p ∈ peraggs, p.transno = t ∧ p.aggref.inputKey = newagg.inputKey := by
  intro t ht
  unfold findCompatiblePeragg at ht
  split at ht
  · cases ht
  · exact (findCompatiblePeraggLoop_transnos t ht).resolve_left (List.not_mem_nil t)

/-! ## What the pass keeps true -/

theorem getElem?_concat_eq_some {α : Type} {l : List α} {x y : α} {i : Nat} :
    (l ++ [x])[i]? = some y ↔ l[i]? = some y ∨ (i = l.length ∧ x = y) := by
  rcases Nat.lt_or_ge i l.length with h | h
  · rw [List.getElem?_append_left h]
    exact ⟨.inl, fun | .inl h' => h' | .inr ⟨h', _⟩ => absurd h (by omega)⟩
  · rw [List.getElem?_append_right h, List.getElem?_eq_none h]
    rcases Nat.eq_or_lt_of_le h with rfl | hlt
    · simp
    · rw [List.getElem?_eq_none (by simp; omega)]
      simp only [reduceCtorEq, false_or, false_iff, not_and]
      omega

section Inv

variable (volatile : E → Bool) (aggsplit : AggSplit) (catalog : Nat → Option (PgAggregate D))

/-- What the pass keeps true after the Aggrefs `seen`. -/
structure SharingInv (seen : List (Aggref E)) (st : SharingState E D) : Prop where
  /-- Each Aggref has an aggno, and the per-agg struct there holds that Aggref. -/
  aggno : ∀ (i : Nat) (r : Aggref E), seen[i]? = some r →
    ∃ a : Nat, ∃ p : PerAgg E, st.aggnos[i]? = some a ∧ st.peraggs[a]? = some p ∧ p.aggref = r
  aggnos_length : st.aggnos.length = seen.length
  aggno_lt : ∀ a ∈ st.aggnos, a < st.peraggs.length
  /-- An aggno given to two Aggrefs holds a non-volatile one. -/
  shared : ∀ (i j a : Nat) (r : Aggref E), i ≠ j → st.aggnos[i]? = some a → st.aggnos[j]? = some a → seen[i]? = some r →
    r.containVolatileFunctions volatile = false
  /-- Each per-agg struct reads a per-trans struct built for the same inputs,
  with the setup the catalog gives the per-agg struct's Aggref. -/
  pertrans : ∀ p ∈ st.peraggs, ∃ pt, st.pertrans[p.transno]? = some pt ∧
    pt.aggref.inputKey = p.aggref.inputKey ∧ aggSetup aggsplit catalog p.aggref = .ok (p.finalfnOid, pt.setup)
  peraggs_le : st.peraggs.length ≤ seen.length
  pertrans_le : st.pertrans.length ≤ st.peraggs.length

omit [DecidableEq E] [DecidableEq D] in
theorem sharingInv_nil : SharingInv volatile aggsplit catalog [] (⟨[], [], []⟩ : SharingState E D) where
  aggno := by simp
  aggnos_length := rfl
  aggno_lt := by simp
  shared := by simp
  pertrans := by simp
  peraggs_le := le_refl _
  pertrans_le := le_refl _

/-- Everything one pass of the loop can do: reuse an exact match, or build a
per-agg struct that reuses the per-trans struct of an earlier aggregate with the
same inputs and setup, or build both. -/
theorem assignAggref_cases {st st' : SharingState E D} {r : Aggref E}
    (h : assignAggref volatile aggsplit catalog st r = .ok st') :
    (r.containVolatileFunctions volatile = false ∧ ∃ a p, st.peraggs[a]? = some p ∧ p.aggref = r ∧
      st' = { st with aggnos := st.aggnos ++ [a] }) ∨
    ∃ fin setup, aggSetup aggsplit catalog r = .ok (fin, setup) ∧
      ((∃ t pt, st.pertrans[t]? = some pt ∧ pt.setup = setup ∧
          (∃ q ∈ st.peraggs, q.transno = t ∧ q.aggref.inputKey = r.inputKey) ∧
          st' = ⟨st.peraggs ++ [⟨r, t, fin⟩], st.pertrans, st.aggnos ++ [st.peraggs.length]⟩) ∨
        st' = ⟨st.peraggs ++ [⟨r, st.pertrans.length, fin⟩], st.pertrans ++ [⟨r, setup⟩],
          st.aggnos ++ [st.peraggs.length]⟩) := by
  unfold assignAggref at h
  split at h
  · rename_i a l hf
    cases h
    obtain ⟨hv, p, hp, hpr⟩ := findCompatiblePeragg_some hf
    exact .inl ⟨hv, a, p, hp, hpr, rfl⟩
  · rename_i l hf
    obtain ⟨⟨fin, setup⟩, hs, h⟩ := except_bind_eq_ok h
    refine .inr ⟨fin, setup, hs, ?_⟩
    dsimp only at h
    split at h
    · rename_i t ht
      cases h
      obtain ⟨htl, pt, hpt, hps⟩ := findCompatiblePertrans_some ht
      exact .inl ⟨t, pt, hpt, hps, findCompatiblePeragg_transnos t (by rw [hf]; exact htl), rfl⟩
    · cases h
      exact .inr rfl

theorem lt_length_of_getElem? {α : Type} {l : List α} {i : Nat} {x : α} (h : l[i]? = some x) :
    i < l.length :=
  (List.getElem?_eq_some_iff.1 h).1

omit [DecidableEq E] in
/-- Giving the next Aggref `r` the aggno `x` keeps `shared` when every earlier
Aggref with aggno `x` is `r` and `r` is not volatile. -/
theorem shared_concat {seen : List (Aggref E)} {aggnos : List Nat} {r : Aggref E} {x : Nat}
    (hlen : aggnos.length = seen.length)
    (hold : ∀ (i j a : Nat) (r' : Aggref E), i ≠ j → aggnos[i]? = some a → aggnos[j]? = some a →
      seen[i]? = some r' → r'.containVolatileFunctions volatile = false)
    (hx : ∀ i : Nat, aggnos[i]? = some x →
      r.containVolatileFunctions volatile = false ∧ ∀ r' : Aggref E, seen[i]? = some r' → r' = r) :
    ∀ (i j a : Nat) (r' : Aggref E), i ≠ j → (aggnos ++ [x])[i]? = some a → (aggnos ++ [x])[j]? = some a →
      (seen ++ [r])[i]? = some r' → r'.containVolatileFunctions volatile = false := by
  intro i j a r' hij hi hj hr
  rw [getElem?_concat_eq_some] at hi hj hr
  rcases hi with hi | ⟨rfl, rfl⟩
  · have hr' : seen[i]? = some r' :=
      hr.resolve_right fun h => absurd (lt_length_of_getElem? hi) (by omega)
    rcases hj with hj | ⟨-, rfl⟩
    · exact hold i j a r' hij hi hj hr'
    · obtain ⟨hv, hseen⟩ := hx i hi
      exact hseen r' hr' ▸ hv
  · have hr' : r = r' := (hr.resolve_left fun h => absurd (lt_length_of_getElem? h) (by omega)).2
    rcases hj with hj | ⟨rfl, -⟩
    · exact hr' ▸ (hx j hj).1
    · exact absurd rfl hij

/-- One pass of the loop keeps the invariant. -/
theorem SharingInv.step {seen : List (Aggref E)} {st st' : SharingState E D} {r : Aggref E}
    (hinv : SharingInv volatile aggsplit catalog seen st)
    (h : assignAggref volatile aggsplit catalog st r = .ok st') :
    SharingInv volatile aggsplit catalog (seen ++ [r]) st' := by
  have hlen := hinv.aggnos_length
  have hle := hinv.peraggs_le
  rcases assignAggref_cases volatile aggsplit catalog h with ⟨hv, a, p, hp, hpr, rfl⟩ | ⟨fin, setup, hs, hnew⟩
  · -- an exact match: only the aggnos grow
    have hsame : ∀ (i : Nat) (r' : Aggref E), seen[i]? = some r' → st.aggnos[i]? = some a → r' = r :=
        fun i r' hr hi => by
      obtain ⟨a', p', ha', hp', hpr'⟩ := hinv.aggno i r' hr
      obtain rfl : a' = a := Option.some.inj (ha'.symm.trans hi)
      obtain rfl : p' = p := Option.some.inj (hp'.symm.trans hp)
      exact hpr'.symm.trans hpr
    refine ⟨fun i r' hr => ?_, by simp [hlen], fun a' ha' => ?_,
      shared_concat volatile hlen hinv.shared fun i hi => ⟨hv, fun r' hr => hsame i r' hr hi⟩,
      hinv.pertrans, by simp; omega, hinv.pertrans_le⟩
    · rcases getElem?_concat_eq_some.1 hr with hr | ⟨rfl, rfl⟩
      · obtain ⟨a', p', ha', hp', hpr'⟩ := hinv.aggno i r' hr
        exact ⟨a', p', getElem?_concat_eq_some.2 (.inl ha'), hp', hpr'⟩
      · exact ⟨a, p, getElem?_concat_eq_some.2 (.inr ⟨hlen.symm, rfl⟩), hp, hpr⟩
    · rcases List.mem_append.1 ha' with ha' | ha'
      · exact hinv.aggno_lt a' ha'
      · obtain rfl := List.mem_singleton.1 ha'
        exact lt_length_of_getElem? hp
  · -- a new per-agg struct `np` at aggno `st.peraggs.length`
    obtain ⟨np, pertrans', hst, hnp, hpt'⟩ : ∃ np pertrans', st' = ⟨st.peraggs ++ [np], pertrans', st.aggnos ++ [st.peraggs.length]⟩ ∧
        np.aggref = r ∧ ((st.pertrans.length ≤ pertrans'.length ∧ ∀ t < st.pertrans.length, pertrans'[t]? = st.pertrans[t]?) ∧
          pertrans'.length ≤ st.pertrans.length + 1 ∧
          ∃ pt, pertrans'[np.transno]? = some pt ∧ pt.aggref.inputKey = r.inputKey ∧ aggSetup aggsplit catalog r = .ok (np.finalfnOid, pt.setup)) := by
      rcases hnew with ⟨t, pt, hpt, hps, ⟨q, hq, hqt, hqi⟩, rfl⟩ | rfl
      · obtain ⟨pt', hpt', hpti, -⟩ := hinv.pertrans q hq
        rw [hqt, hpt] at hpt'
        obtain rfl := Option.some.inj hpt'
        exact ⟨_, _, rfl, rfl, ⟨le_refl _, fun _ _ => rfl⟩, by omega, pt, hpt, hpti.trans hqi, hps ▸ hs⟩
      · refine ⟨_, _, rfl, rfl, ⟨by simp, fun t ht => List.getElem?_append_left ht⟩, by simp, _,
          List.getElem?_concat_length _ _, rfl, hs⟩
    obtain ⟨⟨hge, hpre⟩, hle', pt, hpt, hpti, hps⟩ := hpt'
    subst hst
    have hold : ∀ a ∈ st.aggnos, (st.peraggs ++ [np])[a]? = st.peraggs[a]? := fun a ha =>
      List.getElem?_append_left (hinv.aggno_lt a ha)
    refine ⟨fun i r' hr => ?_, by simp [hlen], fun a' ha' => ?_, shared_concat volatile hlen hinv.shared
      fun i hi => absurd (hinv.aggno_lt _ (List.getElem?_mem hi)) (lt_irrefl _),
      fun p' hp' => ?_, by simp; omega, by simp; have := hinv.pertrans_le; omega⟩
    · rcases getElem?_concat_eq_some.1 hr with hr | ⟨rfl, rfl⟩
      · obtain ⟨a', p', ha', hp', hpr'⟩ := hinv.aggno i r' hr
        exact ⟨a', p', getElem?_concat_eq_some.2 (.inl ha'),
          (hold a' (List.getElem?_mem ha')).trans hp', hpr'⟩
      · exact ⟨_, np, getElem?_concat_eq_some.2 (.inr ⟨hlen.symm, rfl⟩), List.getElem?_concat_length _ _, hnp⟩
    · rcases List.mem_append.1 ha' with ha' | ha'
      · have := hinv.aggno_lt a' ha'
        simp; omega
      · obtain rfl := List.mem_singleton.1 ha'
        simp
    · rcases List.mem_append.1 hp' with hp' | hp'
      · obtain ⟨pt', hpt', hpti', hps'⟩ := hinv.pertrans p' hp'
        exact ⟨pt', (hpre _ (lt_length_of_getElem? hpt')).trans hpt', hpti', hps'⟩
      · obtain rfl := List.mem_singleton.1 hp'
        exact ⟨pt, hpt, hnp ▸ hpti, hnp ▸ hps⟩

/-- The invariant holds after every run of the loop from a state where it holds. -/
theorem SharingInv.run : ∀ (aggs : List (Aggref E)) {seen : List (Aggref E)} {st st' : SharingState E D},
    SharingInv volatile aggsplit catalog seen st →
    aggs.foldlM (assignAggref volatile aggsplit catalog) st = .ok st' →
    SharingInv volatile aggsplit catalog (seen ++ aggs) st'
  | [], _, _, _, hinv, h => by cases h; simpa using hinv
  | r :: rest, seen, _, _, hinv, h => by
    rw [List.foldlM_cons] at h
    obtain ⟨st1, h1, h⟩ := except_bind_eq_ok h
    simpa using SharingInv.run rest (hinv.step volatile aggsplit catalog h1) h

theorem assignAggrefs_inv {aggs : List (Aggref E)} {st : SharingState E D}
    (h : assignAggrefs volatile aggsplit catalog aggs = .ok st) : SharingInv volatile aggsplit catalog aggs st := by
  simpa using SharingInv.run volatile aggsplit catalog aggs (sharingInv_nil volatile aggsplit catalog) h

section Consequences

variable {volatile aggsplit catalog} {seen : List (Aggref E)} {st : SharingState E D}

omit [DecidableEq E] [DecidableEq D] in
/-- Where Aggref `i` finds its structs: the per-agg struct holds the Aggref, and
the per-trans struct it reads has its inputs and the setup the catalog gives it. -/
theorem SharingInv.lookup (hinv : SharingInv volatile aggsplit catalog seen st) {i : Nat} {r : Aggref E}
    (hr : seen[i]? = some r) :
    ∃ a p pt, st.aggnos[i]? = some a ∧ st.peraggs[a]? = some p ∧ st.pertrans[p.transno]? = some pt ∧
      p.aggref = r ∧ pt.aggref.inputKey = r.inputKey ∧ aggSetup aggsplit catalog r = .ok (p.finalfnOid, pt.setup) := by
  obtain ⟨a, p, ha, hp, rfl⟩ := hinv.aggno i r hr
  obtain ⟨pt, hpt, hin, hs⟩ := hinv.pertrans p (List.getElem?_mem hp)
  exact ⟨a, p, pt, ha, hp, hpt, rfl, hin, hs⟩

omit [DecidableEq E] [DecidableEq D] in
theorem SharingInv.transnoOf_eq (hinv : SharingInv volatile aggsplit catalog seen st) {i : Nat} {r : Aggref E}
    (hr : seen[i]? = some r) :
    ∃ t pt fin, st.transnoOf i = some t ∧ st.pertrans[t]? = some pt ∧ pt.aggref.inputKey = r.inputKey ∧
      aggSetup aggsplit catalog r = .ok (fin, pt.setup) := by
  obtain ⟨a, p, pt, ha, hp, hpt, -, hin, hs⟩ := hinv.lookup hr
  exact ⟨p.transno, pt, _, by simp [SharingState.transnoOf, ha, hp], hpt, hin, hs⟩

omit [DecidableEq E] [DecidableEq D] in
/-- Two Aggrefs with one aggno are the same Aggref, and not volatile. -/
theorem SharingInv.sameAggno (hinv : SharingInv volatile aggsplit catalog seen st) {i j a : Nat}
    {r r' : Aggref E} (hij : i ≠ j) (hr : seen[i]? = some r) (hr' : seen[j]? = some r')
    (hi : st.aggnos[i]? = some a) (hj : st.aggnos[j]? = some a) :
    r = r' ∧ r.containVolatileFunctions volatile = false := by
  obtain ⟨a1, p1, _, h1, hp1, -, rfl, -, -⟩ := hinv.lookup hr
  obtain ⟨a2, p2, _, h2, hp2, -, rfl, -, -⟩ := hinv.lookup hr'
  rw [hi] at h1; rw [hj] at h2
  cases h1; cases h2
  rw [hp1] at hp2; cases hp2
  exact ⟨rfl, hinv.shared i j a _ hij hi hj hr⟩

omit [DecidableEq E] [DecidableEq D] in
/-- Two Aggrefs with one transno have the same inputs and the same transition
setup. -/
theorem SharingInv.sameTransno (hinv : SharingInv volatile aggsplit catalog seen st) {i j t : Nat}
    {r r' : Aggref E} (hr : seen[i]? = some r) (hr' : seen[j]? = some r')
    (hi : st.transnoOf i = some t) (hj : st.transnoOf j = some t) :
    r.inputKey = r'.inputKey ∧ ∃ fin fin' setup, aggSetup aggsplit catalog r = .ok (fin, setup) ∧
      aggSetup aggsplit catalog r' = .ok (fin', setup) := by
  obtain ⟨t1, pt1, fin, h1, hpt1, hin1, hs1⟩ := hinv.transnoOf_eq hr
  obtain ⟨t2, pt2, fin', h2, hpt2, hin2, hs2⟩ := hinv.transnoOf_eq hr'
  rw [hi] at h1; rw [hj] at h2
  cases h1; cases h2
  rw [hpt1] at hpt2; cases hpt2
  exact ⟨hin1.symm.trans hin2, fin, fin', _, hs1, hs2⟩

omit [DecidableEq E] [DecidableEq D] in
/-- The value of every aggregate computed through the shared structs is the
value it computes alone. -/
theorem SharingInv.sharedResult_eq (hinv : SharingInv volatile aggsplit catalog seen st) {S R : Type}
    (build : AggInputs E → TransSetup D → S) (final : Aggref E → S → R) {i : Nat} {r : Aggref E}
    (hr : seen[i]? = some r) :
    st.sharedResult build final i = (ownResult build final aggsplit catalog r).toOption := by
  obtain ⟨a, p, pt, ha, hp, hpt, rfl, hin, hs⟩ := hinv.lookup hr
  simp [SharingState.sharedResult, ownResult, ha, hp, hpt, hin, hs, bind, Except.bind, pure, Except.pure,
    Except.toOption]

omit [DecidableEq E] [DecidableEq D] in
/-- `pergroup` has `numaggs * numGroupingSets` entries, `numaggs` being the
number of Aggrefs (at least one); every index `transno + setno * numtrans` is
within it. -/
theorem SharingInv.pergroup_index_lt (hinv : SharingInv volatile aggsplit catalog seen st)
    {numGroupingSets transno setno : Nat} (ht : transno < st.pertrans.length) (hs : setno < numGroupingSets) :
    transno + setno * st.pertrans.length < max seen.length 1 * numGroupingSets := by
  have hle : st.pertrans.length ≤ max seen.length 1 :=
    (hinv.pertrans_le.trans hinv.peraggs_le).trans (le_max_left _ _)
  calc transno + setno * st.pertrans.length < (setno + 1) * st.pertrans.length := by
        rw [Nat.succ_mul]; omega
    _ ≤ numGroupingSets * max seen.length 1 := Nat.mul_le_mul hs hle
    _ = max seen.length 1 * numGroupingSets := Nat.mul_comm _ _

end Consequences

end Inv

/-! ## The pass as a whole -/

/-- The sharing `ExecInitAgg` computes over any list of Aggrefs.  Two Aggrefs
get the same aggno only if they are identical and not volatile.  They get the
same transno only if they have the same inputs (FILTER, ORDER BY, DISTINCT and
direct arguments included) and the same transition function, state type,
serialization functions and initial value.  Every aggregate's value through the
shared structs is the value it computes alone.  Every transno, and every index
`transno + setno * numtrans` into `pergroup`, is within what was allocated. -/
theorem assignAggrefs_sharing {volatile : E → Bool} {aggsplit : AggSplit}
    {catalog : Nat → Option (PgAggregate D)} {aggs : List (Aggref E)} {st : SharingState E D}
    (h : assignAggrefs volatile aggsplit catalog aggs = .ok st) :
    (∀ (i j a : Nat) (r r' : Aggref E), i ≠ j → aggs[i]? = some r → aggs[j]? = some r' →
        st.aggnos[i]? = some a → st.aggnos[j]? = some a →
        r = r' ∧ r.containVolatileFunctions volatile = false) ∧
    (∀ (i j t : Nat) (r r' : Aggref E), aggs[i]? = some r → aggs[j]? = some r' →
        st.transnoOf i = some t → st.transnoOf j = some t →
        r.inputKey = r'.inputKey ∧ ∃ fin fin' setup, aggSetup aggsplit catalog r = .ok (fin, setup) ∧
          aggSetup aggsplit catalog r' = .ok (fin', setup)) ∧
    (∀ {S R : Type} (build : AggInputs E → TransSetup D → S) (final : Aggref E → S → R) (i : Nat)
        (r : Aggref E), aggs[i]? = some r →
        st.sharedResult build final i = (ownResult build final aggsplit catalog r).toOption) ∧
    st.pertrans.length ≤ st.peraggs.length ∧ st.peraggs.length ≤ aggs.length ∧
    (∀ i t, st.transnoOf i = some t → t < st.pertrans.length) ∧
    ∀ numGroupingSets transno setno, transno < st.pertrans.length → setno < numGroupingSets →
      transno + setno * st.pertrans.length < max aggs.length 1 * numGroupingSets := by
  have hinv := assignAggrefs_inv volatile aggsplit catalog h
  refine ⟨fun i j a r r' hij hr hr' hi hj => hinv.sameAggno hij hr hr' hi hj,
    fun i j t r r' hr hr' hi hj => hinv.sameTransno hr hr' hi hj,
    fun build final i r hr => hinv.sharedResult_eq build final hr, hinv.pertrans_le, hinv.peraggs_le,
    fun i t ht => ?_, fun _ _ _ ht hs => hinv.pergroup_index_lt ht hs⟩
  obtain ⟨a, ha⟩ : ∃ a, st.aggnos[i]? = some a := by
    cases hai : st.aggnos[i]? <;> simp [SharingState.transnoOf, hai] at ht ⊢
  obtain ⟨r, hr⟩ : ∃ r, aggs[i]? = some r := by
    have := lt_length_of_getElem? ha
    rw [hinv.aggnos_length] at this
    exact ⟨_, List.getElem?_eq_getElem this⟩
  obtain ⟨t', pt, -, ht', hpt, -⟩ := hinv.transnoOf_eq hr
  rw [ht] at ht'; cases ht'
  exact lt_length_of_getElem? hpt

/-- `numeric` `sum` and `avg` in the catalog: one transition function
(`numeric_avg_accum`) with an INTERNAL state, two final functions. -/
def numericSumAvgCatalog : Nat → Option (PgAggregate Nat)
  | 2114 => some ⟨2858, 1837, 3337, 2740, 2741, none⟩
  | 2103 => some ⟨2858, 1833, 3337, 2740, 2741, none⟩
  | _ => none

/-- `sum(x)` and `avg(x)` over a numeric column. -/
def numericSum : Aggref Nat := ⟨2114, 1700, 0, 0, 2281, [], [1], [], [], none, false, false, 'n'⟩
def numericAvg : Aggref Nat := ⟨2103, 1700, 0, 0, 2281, [], [1], [], [], none, false, false, 'n'⟩

/-- `SELECT sum(x), avg(x) ... HAVING sum(x) > 0`: the two `sum(x)` share an
aggno, and `avg(x)` shares their transition state. -/
theorem sumAvgSum_sharing :
    ∃ st, assignAggrefs (fun _ => false) ⟨false, false, false, false⟩ numericSumAvgCatalog
        [numericSum, numericAvg, numericSum] = .ok st ∧ st.aggnos = [0, 1, 0] ∧ st.transnoOf 1 = some 0 ∧
      numericSum.inputKey = numericAvg.inputKey ∧ ∃ fin fin' setup,
        aggSetup ⟨false, false, false, false⟩ numericSumAvgCatalog numericSum = .ok (fin, setup) ∧
        aggSetup ⟨false, false, false, false⟩ numericSumAvgCatalog numericAvg = .ok (fin', setup) :=
  have h : assignAggrefs (fun _ => false) ⟨false, false, false, false⟩ numericSumAvgCatalog
      [numericSum, numericAvg, numericSum] =
      .ok ⟨[⟨numericSum, 0, 1837⟩, ⟨numericAvg, 0, 1833⟩], [⟨numericSum, ⟨2858, 2281, 0, 0, none⟩⟩], [0, 1, 0]⟩ :=
    rfl
  ⟨_, h, rfl, rfl, (assignAggrefs_sharing h).2.1 0 1 0 _ _ rfl rfl rfl rfl⟩

end

end NodeAgg

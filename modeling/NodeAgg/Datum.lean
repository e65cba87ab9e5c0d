import Mathlib.Data.List.Basic

/-!
# Datums, null flags and function calls

The executor carries every value as a `Datum` beside a separate null flag: in a
slot (`tts_values` / `tts_isnull`) and in a call frame (`fcinfo->arg` /
`fcinfo->argnull`).  `NullableDatum` is that pair.  The datum type `D` stays
abstract: `nodeAgg.c` never looks inside a datum except through the functions it
calls, so a model over an arbitrary `D` covers every data type.  A NULL's datum
is `(Datum) 0`, which is `default`.

A function reached through fmgr is its `fn_strict` flag and what it computes
from its argument array.  Strictness is only something a caller consults:
nothing stops a caller from invoking a strict function with a NULL argument,
and the model keeps it that way, since some of the code under study does.

Equality operators of grouping and DISTINCT columns are called through
`FunctionCall2` and read back with `DatumGetBool`; they appear here as the
boolean function on two non-null datums that this composite computes.
`execTuplesMatch` (execGrouping.c) is the column-wise comparison built on them.
-/

namespace NodeAgg

/-- A datum with its null flag, as a slot column or a call argument holds it. -/
structure NullableDatum (D : Type) where
  value : D
  isnull : Bool
  deriving DecidableEq, Repr

/-- The fmgr lookup data of one function: `fn_strict`, and the function applied
to the argument array of a `FunctionCallInfo` (`FunctionCallInvoke`). -/
structure FmgrInfo (D : Type) where
  fnStrict : Bool
  fnAddr : List (NullableDatum D) → NullableDatum D

/-- A tuple as a slot holds it: one nullable datum per attribute, attribute
number `k` at position `k - 1`. -/
abbrev Tuple (D : Type) := List (NullableDatum D)

section

variable {D : Type}

/-- One column of `execTuplesMatch`: two NULLs match, a NULL and a non-NULL do
not, two non-NULLs are compared by the column's equality function. -/
def columnsMatch (eq : D → D → Bool) (a b : NullableDatum D) : Bool :=
  if a.isnull then b.isnull else !b.isnull && eq a.value b.value

theorem columnsMatch_symm {eq : D → D → Bool} (hs : ∀ a b, eq a b = true → eq b a = true)
    {a b : NullableDatum D} (h : columnsMatch eq a b = true) : columnsMatch eq b a = true := by
  unfold columnsMatch at *
  cases ha : a.isnull <;> cases hb : b.isnull <;> simp_all

theorem columnsMatch_trans {eq : D → D → Bool}
    (ht : ∀ a b c, eq a b = true → eq b c = true → eq a c = true)
    {a b c : NullableDatum D} (h1 : columnsMatch eq a b = true) (h2 : columnsMatch eq b c = true) :
    columnsMatch eq a c = true := by
  unfold columnsMatch at *
  cases ha : a.isnull <;> cases hb : b.isnull <;> cases hc : c.isnull <;> simp_all
  exact ht _ _ _ h1 h2

theorem columnsMatch_refl {eq : D → D → Bool} (hr : ∀ a, eq a a = true) (a : NullableDatum D) :
    columnsMatch eq a a = true := by
  unfold columnsMatch
  cases a.isnull <;> simp [hr]

/-- The equality functions of a list of columns behave as equalities on
non-null datums: reflexive, symmetric and transitive.  This is the contract of
the btree and hash operator classes the planner takes grouping operators from. -/
structure EqFunctionsLawful (eqs : List (D → D → Bool)) : Prop where
  refl : ∀ eq ∈ eqs, ∀ a, eq a a = true
  symm : ∀ eq ∈ eqs, ∀ a b, eq a b = true → eq b a = true
  trans : ∀ eq ∈ eqs, ∀ a b c, eq a b = true → eq b c = true → eq a c = true

variable [Inhabited D]

/-- `(Datum) 0` with the null flag set. -/
def nullDatum : NullableDatum D := ⟨default, true⟩

/-- `slot_getattr`: attribute `attno` (1-based); a missing one reads as NULL. -/
def slotGetattr (t : Tuple D) (attno : Nat) : NullableDatum D :=
  t.getD (attno - 1) nullDatum

/-- `execTuplesMatch(slot1, slot2, numCols, matchColIdx, eqfunctions)`: whether
the two tuples agree on the first `numCols` listed columns.  The C loop runs the
columns last to first and stops at the first mismatch; the answer is the same. -/
def execTuplesMatch (eqfunctions : List (D → D → Bool)) (matchColIdx : List Nat)
    (numCols : Nat) (t1 t2 : Tuple D) : Bool :=
  ((matchColIdx.zip eqfunctions).take numCols).all fun c =>
    columnsMatch c.2 (slotGetattr t1 c.1) (slotGetattr t2 c.1)

theorem execTuplesMatch_zero (eqs : List (D → D → Bool)) (cols : List Nat) (t1 t2 : Tuple D) :
    execTuplesMatch eqs cols 0 t1 t2 = true := by
  simp [execTuplesMatch]

/-- `execTuplesMatch` column by column: the `i`-th listed column under the
`i`-th equality function, for `i` below `numCols` and both lists' lengths. -/
theorem execTuplesMatch_eq_all_range (eqs : List (D → D → Bool)) (cols : List Nat) (n : Nat)
    (t1 t2 : Tuple D) :
    execTuplesMatch eqs cols n t1 t2 = (List.range (min n (min cols.length eqs.length))).all fun i =>
      columnsMatch (eqs.getD i fun _ _ => true) (slotGetattr t1 (cols.getD i 0)) (slotGetattr t2 (cols.getD i 0)) := by
  induction cols generalizing eqs n with
  | nil => simp [execTuplesMatch]
  | cons c cs ih =>
    cases eqs with
    | nil => simp [execTuplesMatch]
    | cons e es =>
      cases n with
      | zero => simp [execTuplesMatch]
      | succ m =>
        have := ih es m
        simp only [execTuplesMatch] at this ⊢
        rw [List.zip_cons_cons, List.take_succ_cons, List.all_cons, this, List.length_cons, List.length_cons,
          show min (m + 1) (min (cs.length + 1) (es.length + 1)) = min m (min cs.length es.length) + 1 by omega,
          List.range_succ_eq_map, List.all_cons, List.all_map]
        rfl

/-- Agreement on more columns implies agreement on fewer. -/
theorem execTuplesMatch_of_le {eqs : List (D → D → Bool)} {cols : List Nat} {m n : Nat}
    (hmn : m ≤ n) {t1 t2 : Tuple D} (h : execTuplesMatch eqs cols n t1 t2 = true) :
    execTuplesMatch eqs cols m t1 t2 = true := by
  simp only [execTuplesMatch, List.all_eq_true] at h ⊢
  intro c hc
  exact h c (List.take_subset_take_left _ hmn hc)

theorem execTuplesMatch_refl {eqs : List (D → D → Bool)} (hl : EqFunctionsLawful eqs)
    (cols : List Nat) (n : Nat) (t : Tuple D) : execTuplesMatch eqs cols n t t = true := by
  simp only [execTuplesMatch, List.all_eq_true]
  intro c hc
  exact columnsMatch_refl (hl.refl c.2 (List.of_mem_zip (List.mem_of_mem_take hc)).2) _

theorem execTuplesMatch_symm {eqs : List (D → D → Bool)} (hl : EqFunctionsLawful eqs)
    {cols : List Nat} {n : Nat} {t1 t2 : Tuple D} (h : execTuplesMatch eqs cols n t1 t2 = true) :
    execTuplesMatch eqs cols n t2 t1 = true := by
  simp only [execTuplesMatch, List.all_eq_true] at h ⊢
  intro c hc
  exact columnsMatch_symm (hl.symm c.2 (List.of_mem_zip (List.mem_of_mem_take hc)).2) (h c hc)

theorem execTuplesMatch_trans {eqs : List (D → D → Bool)} (hl : EqFunctionsLawful eqs)
    {cols : List Nat} {n : Nat} {t1 t2 t3 : Tuple D}
    (h1 : execTuplesMatch eqs cols n t1 t2 = true) (h2 : execTuplesMatch eqs cols n t2 t3 = true) :
    execTuplesMatch eqs cols n t1 t3 = true := by
  simp only [execTuplesMatch, List.all_eq_true] at h1 h2 ⊢
  intro c hc
  exact columnsMatch_trans (hl.trans c.2 (List.of_mem_zip (List.mem_of_mem_take hc)).2)
    (h1 c hc) (h2 c hc)

end

end NodeAgg

import NodeAgg.Datum

/-!
# Classes of rows under an equality

The abstract meaning of hashed grouping.  A hashed grouping set sorts its input
rows into classes: two rows are in one class when their keys are equal under
the set's equality functions.  `classesOf r xs` computes the classes the way a
table does (each row joins the first class whose first row it is related to,
or opens a new class), and `classesOf_spec` says what it computes when `r` is
an equivalence: every class is exactly the input rows related to its first
row, in input order; no two classes' rows are related; and every row is in a
class.
-/

namespace NodeAgg

/-- A boolean relation that is an equivalence. -/
structure BoolEquiv {α : Type} (r : α → α → Bool) : Prop where
  refl : ∀ a, r a a = true
  symm : ∀ a b, r a b = true → r b a = true
  trans : ∀ a b c, r a b = true → r b c = true → r a c = true

section

variable {α : Type} (r : α → α → Bool)

/-- Whether a row belongs to a class: it is related to the class's first row. -/
def inClass (c : List α) (x : α) : Bool := c.head?.any (r · x)

/-- Put a row into the first class it belongs to, or open a class for it. -/
def classInsert (x : α) : List (List α) → List (List α)
  | [] => [[x]]
  | c :: cs => if inClass r c x then (c ++ [x]) :: cs else c :: classInsert x cs

/-- The classes of `xs` under `r`, in order of first occurrence. -/
def classesOf (xs : List α) : List (List α) := xs.foldl (fun cs x => classInsert r x cs) []

example : classesOf (fun a b => a % 3 == b % 3) [1, 4, 2, 7, 5] = [[1, 4, 7], [2, 5]] := by decide

/-- `classInsert` as a table does it: the first class the row belongs to
grows by the row, and a row that belongs to none opens a class at the end. -/
theorem classInsert_eq_findIdx (x : α) (cs : List (List α)) :
    classInsert r x cs = match cs.findIdx? (inClass r · x) with
      | some i => cs.modify (· ++ [x]) i
      | none => cs ++ [[x]] := by
  induction cs with
  | nil => rfl
  | cons c cs ih =>
    simp only [classInsert, List.findIdx?_cons, List.findIdx?_succ]
    by_cases h : inClass r c x = true
    · simp [h]
    · simp only [h, if_false, ih]
      cases cs.findIdx? (inClass r · x) <;> simp

/-- What `classesOf` keeps true of the classes of the rows read so far. -/
structure ClassesInv (xs : List α) (cs : List (List α)) : Prop where
  filter_eq : ∀ c ∈ cs, ∃ h, c.head? = some h ∧ c = xs.filter (r h)
  apart : cs.Pairwise fun c d => ∀ x ∈ c.head?, ∀ y ∈ d.head?, r x y = false
  covers : ∀ x ∈ xs, ∃ c ∈ cs, x ∈ c

variable {r}

theorem classesInv_nil : ClassesInv r [] [] := ⟨by simp, .nil, by simp⟩

/-- The two things `classInsert` can do: grow the first class the row belongs
to, or open a class at the end when it belongs to none. -/
theorem classInsert_cases (x : α) (cs : List (List α)) :
    (∃ pre c post, cs = pre ++ c :: post ∧ (∀ d ∈ pre, inClass r d x = false) ∧
      inClass r c x = true ∧ classInsert r x cs = pre ++ (c ++ [x]) :: post) ∨
    ((∀ d ∈ cs, inClass r d x = false) ∧ classInsert r x cs = cs ++ [[x]]) := by
  induction cs with
  | nil => exact .inr ⟨by simp, rfl⟩
  | cons c cs ih =>
    by_cases hc : inClass r c x = true
    · exact .inl ⟨[], c, cs, rfl, by simp, hc, by simp [classInsert, hc]⟩
    · simp only [Bool.not_eq_true] at hc
      rcases ih with ⟨pre, d, post, rfl, hpre, hd, heq⟩ | ⟨hall, heq⟩
      · refine .inl ⟨c :: pre, d, post, rfl, ?_, hd, ?_⟩
        · simpa [hc] using hpre
        · simp [classInsert, hc, heq]
      · exact .inr ⟨by simpa [hc] using hall, by simp [classInsert, hc, heq]⟩

theorem head?_append_singleton {c : List α} {h x : α} (hh : c.head? = some h) :
    (c ++ [x]).head? = some h := by
  cases c <;> simp_all

/-- Reading a row keeps the invariant: the row joins the class of the rows it is
related to, and no other class gains or loses a row. -/
theorem classesInv_classInsert (he : BoolEquiv r) {xs : List α} {cs : List (List α)}
    (hinv : ClassesInv r xs cs) (x : α) : ClassesInv r (xs ++ [x]) (classInsert r x cs) := by
  -- a class the row does not belong to keeps its rows
  have keep : ∀ d ∈ cs, inClass r d x = false →
      ∃ h, d.head? = some h ∧ d = (xs ++ [x]).filter (r h) := by
    intro d hd hdx
    obtain ⟨h, hh, rfl⟩ := hinv.filter_eq d hd
    refine ⟨h, hh, ?_⟩
    simp only [inClass, hh, Option.any_some] at hdx
    simp [hdx]
  rcases classInsert_cases (r := r) x cs with ⟨pre, c, post, rfl, hpre, hc, heq⟩ | ⟨hall, heq⟩
  · rw [heq]
    obtain ⟨h, hh, hcf⟩ := hinv.filter_eq c (by simp)
    have hhx : r h x = true := by simpa [inClass, hh] using hc
    -- the classes after `c` have first rows unrelated to `h`, hence to `x`
    have hpost : ∀ d ∈ post, inClass r d x = false := by
      intro d hd
      obtain ⟨k, hk, -⟩ := hinv.filter_eq d (by simp [hd])
      have hap := List.pairwise_append.mp hinv.apart
      have hhk : r h k = false := (List.pairwise_cons.mp hap.2.1).1 d hd h hh k hk
      simp only [inClass, hk, Option.any_some]
      cases hkx : r k x
      · rfl
      · exact absurd (he.trans _ _ _ hhx (he.symm _ _ hkx)) (by simp [hhk])
    refine ⟨?_, ?_, ?_⟩
    · intro d hd
      simp only [List.mem_append, List.mem_cons] at hd
      rcases hd with hd | rfl | hd
      · exact keep d (by simp [hd]) (hpre d hd)
      · exact ⟨h, head?_append_singleton hh, by simp [hcf, hhx]⟩
      · exact keep d (by simp [hd]) (hpost d hd)
    · -- the first rows are those of before
      have hheads : (pre ++ (c ++ [x]) :: post).map List.head? = (pre ++ c :: post).map List.head? := by
        simp [head?_append_singleton hh, hh]
      have hap := (List.pairwise_map (R := fun o p : Option α => ∀ a ∈ o, ∀ b ∈ p, r a b = false)).mpr
        hinv.apart
      rw [← hheads] at hap
      exact List.pairwise_map.mp hap
    · intro y hy
      rcases List.mem_append.mp hy with hy | hy
      · obtain ⟨d, hd, hyd⟩ := hinv.covers y hy
        simp only [List.mem_append, List.mem_cons] at hd
        rcases hd with hd | rfl | hd
        · exact ⟨d, by simp [hd], hyd⟩
        · exact ⟨d ++ [x], by simp, by simp [hyd]⟩
        · exact ⟨d, by simp [hd], hyd⟩
      · exact ⟨c ++ [x], by simp, by simp_all⟩
  · rw [heq]
    -- no earlier row is related to `x`
    have hxs : ∀ y ∈ xs, r x y = false := by
      intro y hy
      obtain ⟨d, hd, hyd⟩ := hinv.covers y hy
      obtain ⟨k, hk, hdf⟩ := hinv.filter_eq d hd
      have hky : r k y = true := by rw [hdf] at hyd; exact (List.mem_filter.mp hyd).2
      have hkx : r k x = false := by simpa [inClass, hk] using hall d hd
      cases hxy : r x y
      · rfl
      · exact absurd (he.trans _ _ _ hky (he.symm _ _ hxy)) (by simp [hkx])
    refine ⟨?_, ?_, ?_⟩
    · intro d hd
      rcases List.mem_append.mp hd with hd | hd
      · exact keep d hd (hall d hd)
      · obtain rfl := List.mem_singleton.mp hd
        have hnil : xs.filter (r x) = [] := List.filter_eq_nil_iff.mpr fun y hy => by simp [hxs y hy]
        exact ⟨x, rfl, by simp [hnil, he.refl]⟩
    · refine List.pairwise_append.mpr ⟨hinv.apart, by simp, ?_⟩
      intro d hd e he' a ha b hb
      obtain rfl := List.mem_singleton.mp he'
      obtain rfl : x = b := by simpa using hb
      have hda : d.head? = some a := ha
      simpa [inClass, hda] using hall d hd
    · intro y hy
      rcases List.mem_append.mp hy with hy | hy
      · obtain ⟨d, hd, hyd⟩ := hinv.covers y hy
        exact ⟨d, by simp [hd], hyd⟩
      · exact ⟨[x], by simp, by simpa using hy⟩

theorem classesInv_classesOf (he : BoolEquiv r) (xs : List α) :
    ClassesInv r xs (classesOf r xs) := by
  induction xs using List.reverseRecOn with
  | nil => exact classesInv_nil
  | append_singleton xs x ih =>
    rw [classesOf, List.foldl_append]
    exact classesInv_classInsert he ih x

end

end NodeAgg

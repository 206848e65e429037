import Mathlib.Algebra.BigOperators.Ring.List
import Mathlib.Algebra.Ring.Int.Defs
import Mathlib.Data.List.Perm.Basic
import Mathlib.Data.Set.List
import TagScript.Value.Arithmetic

set_option autoImplicit false

/-! # Arithmetic on integers

The sum and the product of integers are computed without a bound, and only the result has to fit in
64 bits; a difference looks at the sum of what is taken away as well. So the outcome of an operator,
a refusal included, is a function of the exact sum and the exact product of its operands
(`add_ints`, `multiply_ints`, `subtract_ints`), in which their order does not show. -/

namespace TagScript.Value

/-- The integers of 64 bits. -/
def int64 : Set ℤ := {n | -2 ^ 63 ≤ n ∧ n < 2 ^ 63}

instance (n : ℤ) : Decidable (n ∈ int64) :=
  inferInstanceAs (Decidable (-2 ^ 63 ≤ n ∧ n < 2 ^ 63))

theorem mem_int64 {n : ℤ} : n ∈ int64 ↔ minInteger ≤ n ∧ n ≤ maxInteger := by
  show -2 ^ 63 ≤ n ∧ n < 2 ^ 63 ↔ _
  simp only [minInteger, maxInteger]
  omega

/-- The outcome of an operation with an exact result: the result if it fits, else the refusal. -/
def exactly (op : String) (n : ℤ) : Except Halt Value :=
  if n ∈ int64 then .ok (.int n) else .error (.refused op .overflow)

theorem integer_eq_exactly (op : String) (n : ℤ) : integer op n = exactly op n := by
  simp only [integer, exactly, mem_int64]

theorem exactly_of_mem {n : ℤ} (h : n ∈ int64) (op : String) : exactly op n = .ok (.int n) :=
  if_pos h

theorem exactly_of_not_mem {n : ℤ} (h : n ∉ int64) (op : String) :
    exactly op n = .error (.refused op .overflow) :=
  if_neg h

/-! ## Folds -/

theorem sumInt_eq_sum (ns : List ℤ) : sumInt ns = ns.sum := List.sum_eq_foldl.symm

theorem productInt_eq_prod (ns : List ℤ) : productInt ns = ns.prod := List.prod_eq_foldl.symm

/-- The integers of values all of which are integers. -/
theorem allOf_ints (ns : List ℤ) : allOf int? (ns.map .int) = .ok (some ns) := by
  induction ns with
  | nil => rfl
  | cons n ns ih =>
      simp only [List.map_cons, allOf, int?, ih]
      rfl

/-- Integers in another order are integers. -/
theorem exists_ints_of_perm {vs : List Value} {ns : List ℤ} (h : vs.Perm (ns.map .int)) :
    ∃ ms : List ℤ, ms.map .int = vs ∧ ms.Perm ns := by
  have hrange : vs ∈ Set.range (List.map Value.int) := by
    rw [Set.range_list_map]
    intro v hv
    obtain ⟨n, -, hn⟩ := List.mem_map.1 (h.mem_iff.1 hv)
    exact ⟨n, hn⟩
  obtain ⟨ms, rfl⟩ := hrange
  exact ⟨ms, rfl, (List.map_perm_map_iff fun _ _ => Value.int.inj).1 h⟩

/-! ## Operators -/

theorem add_ints (ns : List ℤ) : add (ns.map .int) = exactly "add" ns.sum := by
  rw [← integer_eq_exactly, ← sumInt_eq_sum, add, allOf_ints]
  rfl

theorem multiply_ints (ns : List ℤ) : multiply (ns.map .int) = exactly "multiply" ns.prod := by
  rw [← integer_eq_exactly, ← productInt_eq_prod, multiply, allOf_ints]
  rfl

theorem subtract_ints (n : ℤ) (ns : List ℤ) :
    subtract (.int n :: ns.map .int)
      = if ns.sum ∈ int64 then exactly "subtract" (n - ns.sum)
        else .error (.refused "subtract" .overflow) := by
  have hints : allOf int? (.int n :: ns.map .int) = .ok (some (n :: ns)) := allOf_ints (n :: ns)
  have hsteps : subtract (.int n :: ns.map .int)
      = (integer "subtract" (sumInt ns) >>= fun _ => integer "subtract" (n - sumInt ns)) := by
    simp only [subtract, hints]
    rfl
  rw [hsteps, integer_eq_exactly, integer_eq_exactly, sumInt_eq_sum]
  split
  · rename_i h
    rw [exactly_of_mem h]
    rfl
  · rename_i h
    rw [exactly_of_not_mem h]
    rfl

/-! ## Main result -/

/-- The sum and the product of integers are exact whenever they fit in 64 bits, whatever the partial
    sums and products are, and refused otherwise. A difference is exact if it fits and the sum of
    what is taken away does, and refused otherwise. The order of the operands does not matter, that
    of the first one of a difference aside. -/
theorem integer_arithmetic_exact (ns : List ℤ) :
    add (ns.map .int) = exactly "add" ns.sum ∧
    multiply (ns.map .int) = exactly "multiply" ns.prod ∧
    (0 ∈ ns → multiply (ns.map .int) = .ok (.int 0)) ∧
    (∀ n, subtract (.int n :: ns.map .int)
      = if ns.sum ∈ int64 then exactly "subtract" (n - ns.sum)
        else .error (.refused "subtract" .overflow)) ∧
    ∀ vs, vs.Perm (ns.map .int) →
      add vs = add (ns.map .int) ∧
      multiply vs = multiply (ns.map .int) ∧
      ∀ n, subtract (.int n :: vs) = subtract (.int n :: ns.map .int) := by
  refine ⟨add_ints ns, multiply_ints ns, fun hzero => ?_, fun n => subtract_ints n ns,
    fun vs hperm => ?_⟩
  · have hprod : ns.prod = 0 := List.prod_eq_zero hzero
    rw [multiply_ints, hprod]
    exact exactly_of_mem (by decide) "multiply"
  · obtain ⟨ms, rfl, hms⟩ := exists_ints_of_perm hperm
    refine ⟨?_, ?_, fun n => ?_⟩
    · rw [add_ints, add_ints, hms.sum_eq]
    · rw [multiply_ints, multiply_ints, hms.prod_eq]
    · rw [subtract_ints, subtract_ints, hms.sum_eq]

/-- Partial sums and products that leave the range and come back, and a sum that stays outside. -/
theorem integer_arithmetic_exact_comesBack :
    add [.int (2 ^ 63 - 1), .int 1, .int (-1)] = .ok (.int (2 ^ 63 - 1)) ∧
    add [.int 1, .int (-1), .int (2 ^ 63 - 1)] = .ok (.int (2 ^ 63 - 1)) ∧
    multiply [.int (2 ^ 62), .int 2, .int 0] = .ok (.int 0) ∧
    subtract [.int (2 ^ 63 - 1), .int (2 ^ 63 - 1), .int 1]
      = .error (.refused "subtract" .overflow) := by
  obtain ⟨hsum, -, -, -, hperm⟩ := integer_arithmetic_exact [2 ^ 63 - 1, 1, -1]
  obtain ⟨-, -, -, hdifference, -⟩ := integer_arithmetic_exact [2 ^ 63 - 1, 1]
  have hadd : add [.int (2 ^ 63 - 1), .int 1, .int (-1)] = .ok (.int (2 ^ 63 - 1)) :=
    hsum.trans (exactly_of_mem (by decide) "add")
  have hmoved : [Value.int 1, .int (-1), .int (2 ^ 63 - 1)].Perm
      [.int (2 ^ 63 - 1), .int 1, .int (-1)] := List.perm_append_singleton _ [_, _]
  refine ⟨hadd, (hperm _ hmoved).1.trans hadd, ?_, ?_⟩
  · exact (integer_arithmetic_exact [2 ^ 62, 2, 0]).2.2.1 (by decide)
  · exact (hdifference (2 ^ 63 - 1)).trans (if_neg (by decide))

end TagScript.Value

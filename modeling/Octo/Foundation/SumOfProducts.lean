import Mathlib

/-!
# Sums of products

A sum of products is a multiset of multisets of factors. Sums add, and the product of two sums has
one term for each pair of their terms. They are the free commutative semiring on the factors: no
term is lost, merged or repeated when an expression is expanded.
-/
namespace Octo.Foundation

open Multiset

/-- Sums of products of factors. -/
structure SumOfProducts (Factor : Type*) where
  terms : Multiset (Multiset Factor)

namespace SumOfProducts

variable {Factor : Type*}

@[ext] theorem ext {first second : SumOfProducts Factor} (terms : first.terms = second.terms) :
    first = second := by
  exact congrArg mk terms

/-- The sum of a single product. -/
def product (factors : Multiset Factor) : SumOfProducts Factor :=
  ⟨{factors}⟩

instance : Zero (SumOfProducts Factor) :=
  ⟨⟨0⟩⟩

instance : One (SumOfProducts Factor) :=
  ⟨product 0⟩

instance : Add (SumOfProducts Factor) :=
  ⟨fun first second => ⟨first.terms + second.terms⟩⟩

instance : Mul (SumOfProducts Factor) :=
  ⟨fun first second =>
    ⟨first.terms.bind fun left => second.terms.map fun right => left + right⟩⟩

@[simp] theorem terms_zero : (0 : SumOfProducts Factor).terms = 0 :=
  rfl

@[simp] theorem terms_one : (1 : SumOfProducts Factor).terms = {0} :=
  rfl

@[simp] theorem terms_product (factors : Multiset Factor) : (product factors).terms = {factors} :=
  rfl

variable (first second : SumOfProducts Factor)

@[simp] theorem terms_add :
    (first + second).terms = first.terms + second.terms :=
  rfl

theorem terms_mul :
    (first * second).terms =
      first.terms.bind fun left => second.terms.map fun right => left + right :=
  rfl

theorem product_mul_product (left right : Multiset Factor) :
    product left * product right = product (left + right) := by
  ext1
  rw [terms_mul, terms_product, terms_product, terms_product, singleton_bind, map_singleton]

protected theorem mul_comm :
    first * second = second * first := by
  ext1
  rw [terms_mul, terms_mul, bind_map_comm]
  simp only [add_comm]

variable (third : SumOfProducts Factor) (sum : SumOfProducts Factor)

protected theorem add_mul :
    (first + second) * third = first * third + second * third := by
  ext1
  rw [terms_add, terms_mul, terms_mul, terms_mul, terms_add, add_bind]

protected theorem mul_assoc :
    first * second * third = first * (second * third) := by
  ext1
  simp only [terms_mul, bind_assoc, bind_map, map_bind, map_map, Function.comp_apply, add_assoc]

protected theorem one_mul : 1 * sum = sum := by
  ext1
  simp only [terms_mul, terms_one, singleton_bind, zero_add, map_id']

protected theorem zero_mul : 0 * sum = 0 := by
  ext1
  rw [terms_mul, terms_zero, zero_bind]

instance : CommSemiring (SumOfProducts Factor) where
  add_assoc first second third := ext (add_assoc first.terms second.terms third.terms)
  zero_add sum := ext (zero_add sum.terms)
  add_zero sum := ext (add_zero sum.terms)
  add_comm first second := ext (add_comm first.terms second.terms)
  nsmul := nsmulRec
  mul_assoc := SumOfProducts.mul_assoc
  one_mul := SumOfProducts.one_mul
  mul_one sum := (SumOfProducts.mul_comm sum 1).trans (SumOfProducts.one_mul sum)
  mul_comm := SumOfProducts.mul_comm
  left_distrib first second third := by
    rw [SumOfProducts.mul_comm, SumOfProducts.add_mul, SumOfProducts.mul_comm second,
      SumOfProducts.mul_comm third]
  right_distrib := SumOfProducts.add_mul
  zero_mul := SumOfProducts.zero_mul
  mul_zero sum := (SumOfProducts.mul_comm sum 0).trans (SumOfProducts.zero_mul sum)

/-- A list of products adds up to the sum that has them as its terms. -/
theorem terms_sum_map {Item : Type*} (factors : Item → Multiset Factor) (items : List Item) :
    (items.map fun item => product (factors item)).sum.terms = items.map factors := by
  induction items with
  | nil => rfl
  | cons item items ih =>
    rw [List.map_cons, List.sum_cons, terms_add, ih, terms_product, List.map_cons,
      ← cons_coe, singleton_add]

end SumOfProducts

end Octo.Foundation

import Mathlib.Data.List.Prime
import Mathlib.NumberTheory.LucasPrimality
import Mathlib.Tactic.FinCases
import Mathlib.Tactic.NormNum
import Mathlib.Tactic.NormNum.Prime
import Mathlib.Tactic.ReduceModChar
import MerkleBatch.Scalar

/-!
# The modulus is prime

The order of the field is certified prime by Lucas's test: a number of which the powers with the
exponents `modulus - 1` and `(modulus - 1) / q`, for the prime factors `q`, are and are not 1. The
great prime factors of `modulus - 1` are certified in the same way, the small ones by trial
division.

* `prime_of_factors`: the test, for a given list of prime factors.
* `modulus_prime`: what it is for.
-/

namespace MerkleBatch

/-- Lucas's test, with all prime factors of `p - 1` in a list; each divides `p - 1` at most `k`
times. -/
theorem prime_of_factors {p : ℕ} (a : ZMod p) (factors : List ℕ) (k : ℕ)
    (hprime : ∀ q ∈ factors, q.Prime) (hdvd : p - 1 ∣ factors.prod ^ k) (hone : a ^ (p - 1) = 1)
    (hne : ∀ q ∈ factors, a ^ ((p - 1) / q) ≠ 1) : p.Prime := by
  refine lucas_primality p a hone fun q hq hqp => hne q ?_
  have hprod : q ∣ factors.prod := hq.dvd_of_dvd_pow (hqp.trans hdvd)
  exact mem_list_primes_of_dvd_prod hq.prime (fun r hr => (hprime r hr).prime) hprod

/-! ## Certificates

Each lemma is named for the number of decimal digits of its prime. -/

private theorem prime_digits_10 : Nat.Prime 4129989133 := by
  refine prime_of_factors 5 [2, 3, 359, 958679] 2 (by norm_num) (by norm_num) ?_ ?_
  · norm_num1
    reduce_mod_char
  · intro q hq
    fin_cases hq <;> norm_num1 <;> reduce_mod_char <;> decide +kernel

private theorem prime_digits_9 : Nat.Prime 399082391 := by
  refine prime_of_factors 7 [2, 5, 7, 5701177] 1 (by norm_num) (by norm_num) ?_ ?_
  · norm_num1
    reduce_mod_char
  · intro q hq
    fin_cases hq <;> norm_num1 <;> reduce_mod_char <;> decide +kernel

private theorem prime_digits_13 : Nat.Prime 5247740253619 := by
  refine prime_of_factors 2 [2, 3, 17, 71, 80513981] 3 (by norm_num) (by norm_num) ?_ ?_
  · norm_num1
    reduce_mod_char
  · intro q hq
    fin_cases hq <;> norm_num1 <;> reduce_mod_char <;> decide +kernel

private theorem prime_digits_13' : Nat.Prime 5239247429827 := by
  refine prime_of_factors 2 [2, 3, 757, 12149, 31649] 2 (by norm_num) (by norm_num) ?_ ?_
  · norm_num1
    reduce_mod_char
  · intro q hq
    fin_cases hq <;> norm_num1 <;> reduce_mod_char <;> decide +kernel

private theorem prime_digits_25 : Nat.Prime 1690502597179744445941507 := by
  refine prime_of_factors 2 [2, 3, 13, 4129989133, 5247740253619] 1 ?_ (by norm_num) ?_ ?_
  · simp only [List.forall_mem_cons]
    exact ⟨by norm_num, by norm_num, by norm_num, prime_digits_10, prime_digits_13, by simp⟩
  · norm_num1
    reduce_mod_char
  · intro q hq
    fin_cases hq <;> norm_num1 <;> reduce_mod_char <;> decide +kernel

private theorem prime_digits_35 : Nat.Prime 10427374428728808478656897599072717 := by
  refine prime_of_factors 2 [2, 294793, 4229279, 399082391, 5239247429827] 2 ?_ (by norm_num) ?_ ?_
  · simp only [List.forall_mem_cons]
    exact ⟨by norm_num, by norm_num, by norm_num, prime_digits_9, prime_digits_13', by simp⟩
  · norm_num1
    reduce_mod_char
  · intro q hq
    fin_cases hq <;> norm_num1 <;> reduce_mod_char <;> decide +kernel

theorem modulus_prime : Nat.Prime modulus := by
  unfold modulus
  refine prime_of_factors 5
    [2, 3, 1709, 24859, 1690502597179744445941507, 10427374428728808478656897599072717] 32
    ?_ (by decide +kernel) ?_ ?_
  · simp only [List.forall_mem_cons]
    exact ⟨by norm_num, by norm_num, by norm_num, by norm_num, prime_digits_25, prime_digits_35,
      by simp⟩
  · norm_num1
    reduce_mod_char
  · intro q hq
    fin_cases hq <;> norm_num1 <;> reduce_mod_char <;> decide +kernel

end MerkleBatch

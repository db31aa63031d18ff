import Mathlib

/-!
# Scanners

A scanner cuts an input into lexemes from left to right. Each step looks at what is left of the
input and takes at least one letter of it. A lexeme is a token or is passed over. The tokens of an
input are determined by the steps alone, and two rules carry a fact of the single step to all
tokens: a property of every token, and a bound on what the tokens weigh together.
-/
namespace Octo.Foundation

open List

/-! ## The longest match -/

section

variable {α : Type} {accepts : α → Bool} {body rest : List α}

section

variable (inside : ∀ letter ∈ body, accepts letter)
  (stop : ∀ letter ∈ rest.head?, accepts letter = false)
include inside stop

theorem takeWhile_of_stop : (body ++ rest).takeWhile accepts = body := by
  rw [takeWhile_append_of_pos inside]
  cases rest with
  | nil => simp
  | cons next rest => simp [stop next (by simp)]

theorem dropWhile_of_stop : (body ++ rest).dropWhile accepts = rest := by
  rw [dropWhile_append_of_pos inside]
  cases rest with
  | nil => simp
  | cons next rest => simp [stop next (by simp)]

end

end

/-! ## Scanners -/

/-- One step of a scanner: nothing at the end of the input, and otherwise a lexeme and what is left
behind it. -/
structure Scanner (α τ : Type) where
  next : List α → Option (Option τ × List α)
  progress : ∀ {input lexeme rest}, next input = some (lexeme, rest) → rest.length < input.length

namespace Scanner

variable {α τ : Type} (scanner : Scanner α τ)

/-- The tokens that at most so many steps find. -/
def scan : Nat → List α → List τ
  | 0, _ => []
  | fuel + 1, input =>
    match scanner.next input with
    | none => []
    | some (lexeme, rest) => lexeme.toList ++ scan fuel rest

/-- The tokens of an input. -/
def tokens (input : List α) : List τ :=
  scanner.scan input.length input

/-- More steps than letters find nothing more. -/
theorem scan_of_length_le (fuel : Nat) (input : List α) (enough : input.length ≤ fuel) :
    scanner.scan fuel input = scanner.tokens input := by
  induction fuel using Nat.strongRecOn generalizing input with
  | ind fuel ih =>
    match fuel, input with
    | 0, [] => rfl
    | fuel + 1, input =>
      cases step : scanner.next input with
      | none =>
        cases input with
        | nil | cons => simp [tokens, scan, step]
      | some found =>
        obtain ⟨lexeme, rest⟩ := found
        have shorter := scanner.progress step
        match input with
        | letter :: letters =>
          simp only [length_cons] at shorter enough
          have inFuel := ih fuel (by omega) rest (by omega)
          have inLength := ih letters.length (by omega) rest (by omega)
          simp [tokens, scan, step, inFuel, inLength]

variable {scanner}

theorem tokens_of_next {input rest : List α} {lexeme : Option τ}
    (step : scanner.next input = some (lexeme, rest)) :
    scanner.tokens input = lexeme.toList ++ scanner.tokens rest := by
  have shorter := scanner.progress step
  match input with
  | letter :: letters =>
    simp only [length_cons] at shorter
    have same := scanner.scan_of_length_le letters.length rest (by omega)
    rw [← same]
    simp [tokens, scan, step]

theorem tokens_of_end {input : List α} (step : scanner.next input = none) :
    scanner.tokens input = [] := by
  cases input with
  | nil => rfl
  | cons letter letters => simp [tokens, scan, step]

variable (scanner) in
/-- The tokens are found step by step: the rule of induction on an input. -/
theorem tokens_induction {motive : List α → List τ → Prop}
    (atEnd : ∀ input, scanner.next input = none → motive input [])
    (step : ∀ input lexeme rest, scanner.next input = some (lexeme, rest) →
      motive rest (scanner.tokens rest) → motive input (lexeme.toList ++ scanner.tokens rest))
    (input : List α) : motive input (scanner.tokens input) := by
  induction length : input.length using Nat.strongRecOn generalizing input with
  | ind fuel ih =>
    cases found : scanner.next input with
    | none =>
      rw [tokens_of_end found]
      exact atEnd input found
    | some result =>
      obtain ⟨lexeme, rest⟩ := result
      rw [tokens_of_next found]
      exact step input lexeme rest found
        (ih rest.length (by have := scanner.progress found; omega) rest rfl)

/-- What every step finds, all tokens are. -/
theorem forall_mem_tokens {property : τ → Prop}
    (step : ∀ input token rest, scanner.next input = some (some token, rest) → property token)
    (input : List α) : ∀ token ∈ scanner.tokens input, property token := by
  induction input using scanner.tokens_induction with
  | atEnd input ended => simp
  | step input lexeme rest found ih =>
    intro token member
    rw [mem_append] at member
    obtain here | later := member
    · cases lexeme with
      | none => simp at here
      | some only =>
        rw [Option.toList_some, mem_singleton] at here
        exact here ▸ step input only rest found
    · exact ih token later

/-- The tokens weigh at most what the input weighs, when no lexeme weighs more than the letters it
takes. -/
theorem sum_weight_le {weight : τ → Nat} {size : List α → Nat}
    (step : ∀ input lexeme rest, scanner.next input = some (lexeme, rest) →
      (lexeme.toList.map weight).sum + size rest ≤ size input)
    (input : List α) : ((scanner.tokens input).map weight).sum ≤ size input := by
  induction input using scanner.tokens_induction with
  | atEnd input ended => simp
  | step input lexeme rest found ih =>
    rw [map_append, sum_append]
    exact le_trans (Nat.add_le_add_left ih _) (step input lexeme rest found)

end Scanner

end Octo.Foundation

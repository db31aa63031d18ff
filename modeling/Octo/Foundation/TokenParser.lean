import Mathlib

/-!
# Parsers of tokens

A parser reads a value from the beginning of a list of tokens and returns what it leaves. A parser
of operands and a parser of operators make a parser of chains that group to the left. A relation
between tokens and values is sound for a parser when it holds of everything that the parser reads;
a chain is sound when the relation is closed under its operators.
-/
namespace Octo.Foundation

open Option

/-- What a parser returns: a value and the tokens it leaves. -/
abbrev Parser (τ α : Type) : Type :=
  List τ → Option (α × List τ)

namespace Parser

variable {τ α β : Type}

/-- Whatever the parser reads is related to the tokens that it takes. -/
def Sound (relation : List τ → α → Prop) (parser : Parser τ α) : Prop :=
  ∀ ⦃input value rest⦄, parser input = some (value, rest) →
    ∃ used, input = used ++ rest ∧ relation used value

theorem read_inj {found value : α} {behind rest : List τ}
    (read : some (found, behind) = some (value, rest)) : found = value ∧ behind = rest :=
  Prod.mk.inj (some.inj read)

section Sound

variable {relation : List τ → α → Prop} {parser : Parser τ α} {input rest : List τ} {value : β}
  (sound : Sound relation parser)
include sound

/-- What a sound parser takes before another one goes on. -/
theorem Sound.of_bind {next : α × List τ → Option (β × List τ)}
    (read : (parser input).bind next = some (value, rest)) :
    ∃ used inner behind, input = used ++ behind ∧ relation used inner ∧
      next (inner, behind) = some (value, rest) := by
  obtain ⟨⟨inner, behind⟩, found, read⟩ := bind_eq_some_iff.1 read
  obtain ⟨used, same, related⟩ := sound found
  exact ⟨used, inner, behind, same, related, read⟩

/-- What a sound parser takes for a value that is built from its own. -/
theorem Sound.of_map {build : α → β}
    (read : (parser input).map (fun found => (build found.1, found.2)) = some (value, rest)) :
    ∃ used inner, input = used ++ rest ∧ relation used inner ∧ build inner = value := by
  obtain ⟨⟨inner, behind⟩, found, same⟩ := map_eq_some_iff.1 read
  obtain ⟨rfl, rfl⟩ := Prod.mk.inj same
  obtain ⟨used, same, related⟩ := sound found
  exact ⟨used, inner, same, related, rfl⟩

end Sound

/-- The rest of a chain behind a value: at most so many operators, each with an operand. -/
def chainRest (operand : Parser τ α) (operator : Parser τ (α → α → α)) :
    Nat → α → Parser τ α
  | 0, left, input => some (left, input)
  | fuel + 1, left, input =>
    match operator input with
    | none => some (left, input)
    | some (combine, afterOperator) =>
      (operand afterOperator).bind fun read =>
        chainRest operand operator fuel (combine left read.1) read.2

/-- A chain of operands that groups to the left. -/
def chain (operand : Parser τ α) (operator : Parser τ (α → α → α)) : Parser τ α :=
  fun input => (operand input).bind fun read =>
    chainRest operand operator read.2.length read.1 read.2

variable {operand : Parser τ α} {operator : Parser τ (α → α → α)}

/-- A chain without an operator is its operand. -/
theorem chain_of_operand {input rest : List τ} {value : α}
    (read : operand input = some (value, rest)) (noOperator : operator rest = none) :
    chain operand operator input = some (value, rest) := by
  rw [chain, read, bind_some]
  cases length : rest.length with
  | zero => rfl
  | succ fuel => simp [chainRest, noOperator]

/-- A chain of two operands. -/
theorem chain_of_operator {input afterLeft afterOperator rest : List τ} {left right : α}
    {combine : α → α → α} (readLeft : operand input = some (left, afterLeft))
    (readOperator : operator afterLeft = some (combine, afterOperator))
    (shorter : afterOperator.length < afterLeft.length)
    (readRight : operand afterOperator = some (right, rest)) (noOperator : operator rest = none) :
    chain operand operator input = some (combine left right, rest) := by
  rw [chain, readLeft, bind_some]
  cases length : afterLeft.length with
  | zero => omega
  | succ fuel =>
    simp only [chainRest, readOperator, readRight]
    cases fuel with
    | zero => rfl
    | succ fuel => simp [chainRest, noOperator]

/-- Chains are sound for a relation that the operators keep. -/
theorem Sound.chain {relation : List τ → α → Prop}
    {operatorRelation : List τ → (α → α → α) → Prop} (operands : Sound relation operand)
    (operators : Sound operatorRelation operator)
    (combines : ∀ {leftUsed operatorUsed rightUsed left right combine},
      relation leftUsed left → operatorRelation operatorUsed combine → relation rightUsed right →
      relation (leftUsed ++ (operatorUsed ++ rightUsed)) (combine left right)) :
    Sound relation (Parser.chain operand operator) := by
  -- The invariant of the loop: the value so far is related to all tokens taken so far.
  have loop : ∀ fuel left before input value rest, relation before left →
      chainRest operand operator fuel left input = some (value, rest) →
      ∃ used, input = used ++ rest ∧ relation (before ++ used) value := by
    intro fuel
    induction fuel with
    | zero =>
      intro left before input value rest related result
      obtain ⟨rfl, rfl⟩ := result
      exact ⟨[], rfl, by simpa using related⟩
    | succ fuel ih =>
      intro left before input value rest related result
      rw [chainRest] at result
      cases readOperator : operator input with
      | none =>
        simp only [readOperator] at result
        obtain ⟨rfl, rfl⟩ := result
        exact ⟨[], rfl, by simpa using related⟩
      | some found =>
        obtain ⟨combine, afterOperator⟩ := found
        simp only [readOperator] at result
        obtain ⟨operatorUsed, rfl, operatorRelated⟩ := operators readOperator
        obtain ⟨rightUsed, right, afterRight, rfl, rightRelated, result⟩ := operands.of_bind result
        obtain ⟨used, rfl, allRelated⟩ := ih _ _ _ _ _
          (combines related operatorRelated rightRelated) result
        exact ⟨operatorUsed ++ (rightUsed ++ used), by simp, by simpa using allRelated⟩
  intro input value rest result
  obtain ⟨leftUsed, left, afterLeft, rfl, leftRelated, result⟩ := operands.of_bind result
  obtain ⟨used, rfl, related⟩ := loop _ _ _ _ _ _ leftRelated result
  exact ⟨leftUsed ++ used, by simp, related⟩

end Parser

end Octo.Foundation

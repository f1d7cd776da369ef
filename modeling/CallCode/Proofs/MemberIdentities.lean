import CallCode.Identity
import Mathlib.Data.Nat.ModEq
import Mathlib.Logic.ExistsUnique

/-!
# Identities of members

The identity of a member is mixed from its owner, its name and its parameter types.  A step of
the mix can be undone for the state before it and for the type that it takes in, as the
separator is odd.  So members that differ in one place only have different identities,
whatever their names are digested to.
-/

namespace CallCode

namespace Identity

/-! ## Steps of the mix -/

/-- Multiplying by an odd word loses nothing. -/
theorem mul_right_cancel_of_odd {factor first second : UInt64}
    (odd : Nat.Coprime 2 factor.toNat) (same : first * factor = second * factor) :
    first = second := by
  have coprime : Nat.Coprime (2 ^ 64) factor.toNat := Nat.Coprime.pow_left 64 odd
  have products : first.toNat * factor.toNat ≡ second.toNat * factor.toNat [MOD 2 ^ 64] := by
    have values := congrArg UInt64.toNat same
    rwa [UInt64.toNat_mul, UInt64.toNat_mul] at values
  have factors := Nat.ModEq.cancel_right_of_coprime coprime products
  exact UInt64.toNat_inj.mp
    (factors.eq_of_lt_of_lt first.toNat_lt second.toNat_lt)

theorem mul_separator_inj {first second : UInt64} :
    first * separator = second * separator ↔ first = second :=
  ⟨mul_right_cancel_of_odd (by decide), fun same => by rw [same]⟩

/-- Parameters that are mixed into different words leave different words. -/
theorem mixParameters_inj (position : Nat) (parameters : List Identity)
    {first second : UInt64} :
    mixParameters first position parameters = mixParameters second position parameters ↔
      first = second := by
  induction parameters generalizing position first second with
  | nil => rfl
  | cons parameter parameters ih =>
      rw [mixParameters, mixParameters, ih, UInt64.add_left_inj, mul_separator_inj]

/-- Only equal types can stand in one place of a parameter list. -/
theorem mixParameters_set_inj (mixed : UInt64) (start : Nat) {parameters : List Identity}
    {position : Nat} (inside : position < parameters.length) {first second : Identity} :
    mixParameters mixed start (parameters.set position first) =
        mixParameters mixed start (parameters.set position second) ↔ first = second := by
  induction parameters generalizing mixed start position with
  | nil => exact absurd inside (Nat.not_lt_zero position)
  | cons parameter parameters ih =>
      cases position with
      | zero =>
          rw [List.set_cons_zero, List.set_cons_zero, mixParameters, mixParameters,
            mixParameters_inj, UInt64.add_right_inj, UInt64.xor_right_inj]
          exact ⟨fun same => congrArg Identity.mk same, fun same => congrArg bits same⟩
      | succ position =>
          rw [List.set_cons_succ, List.set_cons_succ, mixParameters, mixParameters]
          exact ih _ _ (Nat.lt_of_succ_lt_succ inside)

/-! ## Signatures that differ in one place -/

/-- Owners and parameter types differ in exactly one place: in the owner, or in the type of one
parameter. -/
inductive OnePlaceApart : Identity → List Identity → Identity → List Identity → Prop
  | owner {first second : Identity} (parameters : List Identity) : first ≠ second →
      OnePlaceApart first parameters second parameters
  | parameter (owner : Identity) {first second : List Identity} :
      first.length = second.length →
      (∃! position : Nat, first[position]? ≠ second[position]?) →
      OnePlaceApart owner first owner second

/-- Lists that differ at one position are one list with different items in that place. -/
theorem exists_set_of_differ {first second : List Identity}
    (length : first.length = second.length)
    (differ : ∃! position : Nat, first[position]? ≠ second[position]?) :
    ∃ position, position < first.length ∧ ∃ one other, one ≠ other ∧
      first = first.set position one ∧ second = first.set position other := by
  obtain ⟨position, different, only⟩ := differ
  have inside : position < first.length := by
    by_contra beyond
    have past := Nat.le_of_not_lt beyond
    rw [List.getElem?_eq_none past, List.getElem?_eq_none (length ▸ past)] at different
    exact different rfl
  have within : position < second.length := length ▸ inside
  refine ⟨position, inside, first[position], second[position], ?_, ?_, ?_⟩
  · rw [List.getElem?_eq_getElem inside, List.getElem?_eq_getElem within] at different
    exact fun same => different (congrArg some same)
  · rw [List.set_getElem_self]
  · refine List.ext_getElem? fun place => ?_
    by_cases here : position = place
    · subst here
      rw [List.getElem?_set_self inside, List.getElem?_eq_getElem within]
    · rw [List.getElem?_set_ne here]
      by_contra apart
      exact here (only place (Ne.symm apart)).symm

section Apart

variable {firstOwner secondOwner : Identity} {first second : List Identity}

theorem OnePlaceApart.mixParameters_ne
    (apart : OnePlaceApart firstOwner first secondOwner second) (seed : UInt64) :
    mixParameters (seed ^^^ firstOwner.bits) 0 first ≠
      mixParameters (seed ^^^ secondOwner.bits) 0 second := by
  cases apart with
  | owner parameters different =>
      rw [ne_eq, mixParameters_inj, UInt64.xor_right_inj]
      exact fun same => different (congrArg Identity.mk same)
  | parameter length differ =>
      obtain ⟨position, inside, one, other, different, left, right⟩ :=
        exists_set_of_differ length differ
      rw [right, left, List.set_set, ne_eq, mixParameters_set_inj _ _ inside]
      exact different

/-- The identity of a method, where names are digested by some function. -/
def ofMethodBy (digest : String → UInt64) (owner : Identity) (name : String)
    (parameters : List Identity) : Identity :=
  ⟨mixParameters (methodMarker ^^^ owner.bits ^^^ digest name) 0 parameters⟩

theorem ofMethod_eq : ofMethod = ofMethodBy XxHash64.ofText := rfl

theorem OnePlaceApart.ofMethodBy_ne
    (apart : OnePlaceApart firstOwner first secondOwner second) (digest : String → UInt64)
    (name : String) :
    ofMethodBy digest firstOwner name first ≠ ofMethodBy digest secondOwner name second := by
  have seeded (owner : Identity) : methodMarker ^^^ owner.bits ^^^ digest name =
      methodMarker ^^^ digest name ^^^ owner.bits := by
    rw [UInt64.xor_assoc, UInt64.xor_comm owner.bits, UInt64.xor_assoc]
  intro same
  have mixes := congrArg bits same
  simp only [ofMethodBy, seeded] at mixes
  exact apart.mixParameters_ne _ mixes

/-- Methods of one name, and constructors, that differ in exactly one place, the owner or the
type of one parameter, have different identities, for parameter lists of any length.  For
methods this does not depend on how names are digested. -/
theorem members_ne_of_onePlaceApart
    (apart : OnePlaceApart firstOwner first secondOwner second) :
    (∀ digest name, ofMethodBy digest firstOwner name first ≠
      ofMethodBy digest secondOwner name second) ∧
    (∀ name, ofMethod firstOwner name first ≠ ofMethod secondOwner name second) ∧
    ofConstructor firstOwner first ≠ ofConstructor secondOwner second := by
  refine ⟨apart.ofMethodBy_ne, fun name => ?_, fun same => ?_⟩
  · rw [ofMethod_eq]
    exact apart.ofMethodBy_ne _ name
  · exact apart.mixParameters_ne constructorMarker (congrArg bits same)

end Apart

/-- The tenth parameter, which has no marker of its own, tells two constructors apart. -/
theorem members_ne_of_tenth_parameter :
    let ints := List.replicate 9 int
    OnePlaceApart ⟨1⟩ (ints ++ [int]) ⟨1⟩ (ints ++ [string]) ∧
      ofMethod ⟨1⟩ "run" (ints ++ [int]) ≠ ofMethod ⟨1⟩ "run" (ints ++ [string]) ∧
      ofConstructor ⟨1⟩ (ints ++ [int]) ≠ ofConstructor ⟨1⟩ (ints ++ [string]) := by
  intro ints
  have apart : OnePlaceApart ⟨1⟩ (ints ++ [int]) ⟨1⟩ (ints ++ [string]) := by
    have only (position : Nat)
        (different : (ints ++ [int])[position]? ≠ (ints ++ [string])[position]?) :
        position = 9 := by
      by_contra elsewhere
      apply different
      rcases Nat.lt_or_gt_of_ne elsewhere with before | behind
      · rw [List.getElem?_append_left before, List.getElem?_append_left before]
      · rw [List.getElem?_eq_none behind, List.getElem?_eq_none behind]
    exact .parameter ⟨1⟩ rfl ⟨9, by decide, only⟩
  obtain ⟨-, methods, constructors⟩ := members_ne_of_onePlaceApart apart
  exact ⟨apart, methods "run", constructors⟩

end Identity

end CallCode

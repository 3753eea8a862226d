import Mathlib.Data.List.Basic

/-! # Owners of the set bits of a bitmap

A table with a bit for each resource, and a partial map from owners to resources.  `Owns` says that each owner's
resource is marked and that no two owners have the same one; `Exact` says that no marked resource is lost.  `Holds` is
`Owns` for owners with any number of resources.
-/

namespace Pintos.Library

open List Option

variable {Owner : Type} {owns owns' : Owner → Option Nat} {bits : List Bool} {i : Nat} {owner : Owner}

structure Owns (owns : Owner → Option Nat) (bits : List Bool) : Prop where
  marked : ∀ owner i, owns owner = some i → bits[i]? = some true
  apart : ∀ owner owner' i, owns owner = some i → owns owner' = some i → owner = owner'

/-- All that the owners have is marked, and no two have the same. -/
structure Holds (owned : Owner → List Nat) (bits : List Bool) : Prop where
  marked : ∀ {owner i}, i ∈ owned owner → bits[i]? = some true
  apart : ∀ {owner other i}, i ∈ owned owner → i ∈ owned other → owner = other

namespace Holds

section

variable {owned owned' : Owner → List Nat} {bits' : List Bool} (h : Holds owned bits)
  (elsewhere : ∀ other, other ≠ owner → owned' other = owned other)

include h

theorem mono (kept : ∀ i : Nat, bits[i]? = some true → bits'[i]? = some true) : Holds owned bits' where
  marked isOwner := kept _ (h.marked isOwner)
  apart := h.apart

include elsewhere

/-- One owner gets resources that nobody has. -/
theorem gain (kept : ∀ i : Nat, bits[i]? = some true → bits'[i]? = some true)
    (new : ∀ i ∈ owned' owner, i ∈ owned owner ∨ ∀ other, i ∉ owned other)
    (marked : ∀ i ∈ owned' owner, bits'[i]? = some true) : Holds owned' bits' := by
  have others : ∀ {other i}, i ∈ owned' other → other ≠ owner → i ∈ owned other := by
    intro other i isOwner different
    rwa [elsewhere other different] at isOwner
  have noClash : ∀ {other i}, i ∈ owned' owner → i ∈ owned' other → other = owner := by
    intro other i here there
    by_contra different
    have before := others there different
    cases new i here with
    | inl had => exact different (h.apart before had)
    | inr nobody => exact nobody other before
  refine ⟨fun {other i} isOwner => ?_, fun {first second i} isFirst isSecond => ?_⟩
  · by_cases same : other = owner
    · exact marked i (same ▸ isOwner)
    · exact kept i (h.marked (others isOwner same))
  · by_cases same : first = owner
    · exact same.trans (noClash (same ▸ isFirst) isSecond).symm
    · by_cases same' : second = owner
      · exact absurd (noClash (same' ▸ isSecond) isFirst) same
      · exact h.apart (others isFirst same) (others isSecond same')

/-- One owner gets resources that were not marked. -/
theorem take (kept : ∀ i : Nat, bits[i]? = some true → bits'[i]? = some true)
    (new : ∀ i ∈ owned' owner, i ∈ owned owner ∨ bits[i]? = some false)
    (marked : ∀ i ∈ owned' owner, bits'[i]? = some true) : Holds owned' bits' := by
  refine h.gain elsewhere kept (fun i isNew => ?_) marked
  cases new i isNew with
  | inl had => exact .inl had
  | inr clear =>
    -- What another owner has was marked before, so it is not new.
    refine .inr fun other isOwner => ?_
    cases clear.symm.trans (h.marked isOwner)

/-- One owner gives all that it has back. -/
theorem release (kept : ∀ i : Nat, i ∉ owned owner → bits'[i]? = bits[i]?)
    (here : owned' owner = []) : Holds owned' bits' := by
  have others : ∀ {other i}, i ∈ owned' other → other ≠ owner ∧ i ∈ owned other := by
    intro other i isOwner
    have different : other ≠ owner := by
      rintro rfl
      rw [here] at isOwner
      cases isOwner
    exact ⟨different, elsewhere other different ▸ isOwner⟩
  refine ⟨fun isOwner => ?_, fun isFirst isSecond => h.apart (others isFirst).2 (others isSecond).2⟩
  obtain ⟨different, had⟩ := others isOwner
  rw [kept _ fun hadHere => different (h.apart had hadHere)]
  exact h.marked had

end

end Holds

theorem owns_iff_holds : Owns owns bits ↔ Holds (fun owner => (owns owner).toList) bits := by
  constructor <;> intro h
  · exact ⟨fun isOwner => h.marked _ _ (mem_toList.mp isOwner),
      fun isOwner isOwner' => h.apart _ _ _ (mem_toList.mp isOwner) (mem_toList.mp isOwner')⟩
  · exact ⟨fun _ _ isOwner => h.marked (mem_toList.mpr isOwner),
      fun _ _ _ isOwner isOwner' => h.apart (mem_toList.mpr isOwner) (mem_toList.mpr isOwner')⟩

namespace Owns

section

variable (h : Owns owns bits)

include h

theorem unmarked (clear : bits[i]? = some false) (owner : Owner) : owns owner ≠ some i := by
  intro isOwner
  rw [h.marked owner i isOwner] at clear
  cases clear

/-- Owners may give up what they have. -/
theorem subset (fewer : ∀ owner i, owns' owner = some i → owns owner = some i) :
    Owns owns' bits where
  marked owner i isOwner := h.marked owner i (fewer owner i isOwner)
  apart owner owner' i isOwner isOwner' := h.apart owner owner' i (fewer owner i isOwner) (fewer owner' i isOwner')

theorem reserve (i : Nat) : Owns owns (bits.set i true) where
  marked owner j isOwner := by
    have before := h.marked owner j isOwner
    rw [getElem?_set]
    split
    next same =>
      have inside := (List.getElem?_eq_some_iff.mp before).1
      subst same
      simp [inside]
    next => exact before
  apart := h.apart

theorem release (nobody : ∀ owner, owns owner ≠ some i) : Owns owns (bits.set i false) where
  marked owner j isOwner := by
    have other : i ≠ j := by
      rintro rfl
      exact nobody owner isOwner
    rw [getElem?_set_ne other]
    exact h.marked owner j isOwner
  apart := h.apart

/-- One owner gets a marked resource that nobody has. -/
theorem give (marked : bits[i]? = some true) (nobody : ∀ owner, owns owner ≠ some i) (here : owns' owner = some i)
    (elsewhere : ∀ other, other ≠ owner → owns' other = owns other) : Owns owns' bits := by
  refine owns_iff_holds.mpr ((owns_iff_holds.mp h).gain
    (fun other different => congrArg toList (elsewhere other different))
    (fun _ => id) ?_ ?_)
  · simp [here, nobody]
  · simp [here, marked]

/-- One owner gives its resource back. -/
theorem giveUp (had : owns owner = some i) (here : owns' owner = none)
    (elsewhere : ∀ other, other ≠ owner → owns' other = owns other) : Owns owns' (bits.set i false) := by
  refine owns_iff_holds.mpr ((owns_iff_holds.mp h).release
    (fun other different => congrArg toList (elsewhere other different))
    (fun j other => ?_) (congrArg toList here))
  rw [had, toList_some, mem_singleton] at other
  exact getElem?_set_ne (Ne.symm other)

end

end Owns

/-- Each marked resource has an owner, except one that is being passed on. -/
def Exact (owns : Owner → Option Nat) (bits : List Bool) (spare : Option Nat) : Prop :=
  ∀ i, bits[i]? = some true → (∃ owner, owns owner = some i) ∨ spare = some i

namespace Exact

variable {spare : Option Nat}

theorem weaken (h : Exact owns bits none) (spare : Option Nat) : Exact owns bits spare := by
  intro i marked
  exact .inl ((h i marked).resolve_right (by simp))

theorem take (h : Exact owns bits none) (i : Nat) : Exact owns (bits.set i true) (some i) := by
  intro j marked
  by_cases same : i = j
  · exact .inr (congrArg some same)
  · rw [getElem?_set_ne same] at marked
    exact .inl ((h j marked).resolve_right (by simp))

theorem putBack (h : Exact owns bits (some i)) : Exact owns (bits.set i false) none := by
  intro j marked
  by_cases same : i = j
  · subst same
    simp [getElem?_set] at marked
  · rw [getElem?_set_ne same] at marked
    exact .inl ((h j marked).resolve_right (by simpa using same))

theorem give (h : Exact owns bits (some i)) (had : owns owner = none) (here : owns' owner = some i)
    (elsewhere : ∀ other, other ≠ owner → owns' other = owns other) : Exact owns' bits none := by
  intro j marked
  refine .inl ?_
  cases h j marked with
  | inl owned =>
    obtain ⟨other, isOwner⟩ := owned
    have isOther : other ≠ owner := by
      rintro rfl
      rw [had] at isOwner
      cases isOwner
    exact ⟨other, (elsewhere other isOther).trans isOwner⟩
  | inr isSpare => exact ⟨owner, here.trans isSpare⟩

theorem giveUp (h : Exact owns bits spare) (had : owns owner = some i)
    (elsewhere : ∀ other, other ≠ owner → owns' other = owns other) : Exact owns' (bits.set i false) spare := by
  intro j marked
  by_cases same : i = j
  · subst same
    simp [getElem?_set] at marked
  · rw [getElem?_set_ne same] at marked
    refine (h j marked).imp_left ?_
    rintro ⟨other, isOwner⟩
    have isOther : other ≠ owner := by
      rintro rfl
      exact same (some.inj (had.symm.trans isOwner))
    exact ⟨other, (elsewhere other isOther).trans isOwner⟩

end Exact

end Pintos.Library

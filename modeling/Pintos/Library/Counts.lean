import Mathlib.Data.List.Count

/-! # Counts that change by one

How often each value occurs, as a function; one occurrence more, one less, and what that is for lists.
-/

namespace Pintos.Library

variable {α : Type} {count count' : α → Nat} {s : α}

/-- Two counts that may differ at one value only. -/
def SameElsewhere (s : α) (count count' : α → Nat) : Prop :=
  ∀ t, t ≠ s → count' t = count t

theorem SameElsewhere.refl (s : α) (count : α → Nat) : SameElsewhere s count count :=
  fun _ _ => rfl

variable [DecidableEq α]

def oneMore (count : α → Nat) (s : α) : α → Nat :=
  Function.update count s (count s + 1)

def oneLess (count : α → Nat) (s : α) : α → Nat :=
  Function.update count s (count s - 1)

section

variable (count : α → Nat) (s : α)

theorem sameElsewhere_oneMore : SameElsewhere s count (oneMore count s) :=
  fun _ other => Function.update_of_ne other _ _

theorem sameElsewhere_oneLess : SameElsewhere s count (oneLess count s) :=
  fun _ other => Function.update_of_ne other _ _

theorem oneMore_self : oneMore count s s = count s + 1 :=
  Function.update_self _ _ _

theorem oneLess_self : oneLess count s s = count s - 1 :=
  Function.update_self _ _ _

theorem oneLess_oneMore : oneLess (oneMore count s) s = count := by
  funext t
  by_cases same : t = s
  · rw [same, oneLess_self, oneMore_self]
    rfl
  · rw [sameElsewhere_oneLess _ _ t same, sameElsewhere_oneMore _ _ t same]

end

theorem eq_oneMore (counted : ∀ t, count' t = count t + if t = s then 1 else 0) : count' = oneMore count s := by
  funext t
  rw [counted]
  by_cases same : t = s
  · rw [same, oneMore_self, if_pos rfl]
  · rw [sameElsewhere_oneMore count s t same, if_neg same, Nat.add_zero]

theorem eq_oneLess (counted : ∀ t, count t = count' t + if t = s then 1 else 0) : count' = oneLess count s := by
  rw [eq_oneMore counted, oneLess_oneMore]

theorem oneMore_oneLess (positive : 0 < count s) : oneMore (oneLess count s) s = count := by
  symm
  apply eq_oneMore
  intro t
  by_cases same : t = s
  · rw [same, oneLess_self, if_pos rfl]
    omega
  · rw [sameElsewhere_oneLess count s t same, if_neg same]
    rfl

theorem count_first (s t : α) (list : List α) : (s :: list).count t = list.count t + if t = s then 1 else 0 := by
  rw [List.count_cons]
  by_cases same : t = s
  · simp [same]
  · simp [same, Ne.symm same]

theorem count_erase {list : List α} (member : s ∈ list) (t : α) :
    list.count t = (list.erase s).count t + if t = s then 1 else 0 := by
  rw [(List.perm_cons_erase member).count_eq, count_first]

end Pintos.Library

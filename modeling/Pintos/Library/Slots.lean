import Mathlib.Data.Finmap
import Mathlib.Data.List.ReduceOption
import Mathlib.Tactic.Abel

/-! # Finite maps in tables of slots

A table of slots, each free or with a key and its value.  A new key goes to the first free slot, or to a new one at the
end where no slot is free.
-/

namespace Pintos.Library

open List

variable {Key Value : Type*}

abbrev Slots (Key Value : Type*) := List (Option (Σ _ : Key, Value))

abbrev Map (Key Value : Type*) := Finmap fun _ : Key => Value

namespace Slots

variable {slots : Slots Key Value} {m : Map Key Value} {k : Key} {v : Value} {i : Nat}

/-- The entries of the used slots. -/
def contents (slots : Slots Key Value) : Multiset (Σ _ : Key, Value) :=
  slots.reduceOption

/-- The used slots of a table are the entries of a map. -/
def Represents (slots : Slots Key Value) (m : Map Key Value) : Prop :=
  slots.contents = m.entries

@[simp] theorem contents_free : contents [(none : Option (Σ _ : Key, Value))] = 0 :=
  rfl

@[simp] theorem contents_used (entry : Σ _ : Key, Value) : contents [some entry] = {entry} :=
  rfl

theorem contents_append (slots rest : Slots Key Value) : contents (slots ++ rest) = slots.contents + rest.contents := by
  rw [contents, reduceOption_append, ← Multiset.coe_add]
  rfl

theorem contents_cons (slot : Option (Σ _ : Key, Value)) (rest : Slots Key Value) :
    contents (slot :: rest) = contents [slot] + rest.contents :=
  contents_append [slot] rest

theorem mem_contents {entry : Σ _ : Key, Value} : entry ∈ slots.contents ↔ some entry ∈ slots :=
  reduceOption_mem_iff

/-- A slot written over another. -/
theorem contents_set {old : Option (Σ _ : Key, Value)} (found : slots[i]? = some old)
    (new : Option (Σ _ : Key, Value)) :
    contents (slots.set i new) + contents [old] = slots.contents + contents [new] := by
  obtain ⟨inside, rfl⟩ := List.getElem?_eq_some_iff.mp found
  have around : contents slots = contents (slots.take i) + (contents [slots[i]] + contents (slots.drop (i + 1))) := by
    rw [← contents_cons, ← drop_eq_getElem_cons inside, ← contents_append, take_append_drop]
  rw [set_eq_take_append_cons_drop.trans (if_pos inside), contents_append, contents_cons, around]
  abel

variable [DecidableEq Key]

section

variable (represents : slots.Represents m)

include represents

/-- A used slot holds the value of its key, and each key has a used slot. -/
theorem Represents.lookup : m.lookup k = some v ↔ some ⟨k, v⟩ ∈ slots := by
  rw [← mem_contents, represents]
  exact Finmap.lookup_eq_some_iff

omit [DecidableEq Key] in
theorem Represents.nodup : (slots.reduceOption.map Sigma.fst).Nodup := by
  have keys : slots.contents.keys.Nodup := represents ▸ m.nodupKeys.nodup_keys
  exact keys

omit [DecidableEq Key] in
/-- A table without a free slot has as many slots as keys. -/
theorem Represents.length (full : none ∉ slots) : slots.length = m.keys.card := by
  have used : slots.reduceOption.length = slots.length :=
    reduceOption_length_eq_iff.mpr fun slot isSlot =>
      Option.ne_none_iff_isSome.mp fun isFree => full (isFree ▸ isSlot)
  have count : slots.contents.card = m.entries.card := congrArg Multiset.card represents
  have keys : m.keys.card = m.entries.card := Multiset.card_map _ _
  rw [keys, ← count, ← used]
  rfl

/-- A new key in a free slot. -/
theorem Represents.set (free : slots[i]? = some none) (missing : k ∉ m) :
    Represents (slots.set i (some ⟨k, v⟩)) (m.insert k v) := by
  have contents := contents_set free (some ⟨k, v⟩)
  rw [represents, contents_free, contents_used, add_zero] at contents
  rw [Represents, Finmap.entries_insert_of_notMem missing, ← Multiset.singleton_add, add_comm]
  exact contents

/-- A new key in a new slot. -/
theorem Represents.append (missing : k ∉ m) :
    Represents (slots ++ [some ⟨k, v⟩]) (m.insert k v) := by
  rw [Represents, Finmap.entries_insert_of_notMem missing, ← Multiset.singleton_add, add_comm, contents_append,
    represents]
  rfl

/-- A slot that becomes free. -/
theorem Represents.free (used : slots[i]? = some (some ⟨k, v⟩)) :
    Represents (slots.set i none) (m.erase k) := by
  have contents := contents_set used none
  rw [represents, contents_free, contents_used, add_zero, add_comm] at contents
  induction m using Finmap.induction_on with
  | H m =>
    rw [Represents, Finmap.erase_toFinmap]
    have perm : (⟨k, v⟩ :: (slots.set i none).reduceOption).Perm m.entries := Multiset.coe_eq_coe.mp contents
    have erased := List.Perm.kerase (a := k) ((perm_nodupKeys perm).mpr m.nodupKeys) perm
    rw [kerase_cons_eq (show k = (⟨k, v⟩ : Σ _ : Key, Value).1 from rfl)] at erased
    exact Multiset.coe_eq_coe.mpr erased

end

end Slots

end Pintos.Library

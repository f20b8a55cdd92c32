import Mathlib.Data.List.AList

/-! Unordered maps: association lists without repeated keys.

The order of the entries is the iteration order, which no caller may rely on.
-/

set_option autoImplicit false

namespace CoroMultiplex.Foundations

abbrev UnorderedMap (Key Value : Type) := AList fun _ : Key => Value

namespace UnorderedMap

variable {Key Value : Type}

def size (map : UnorderedMap Key Value) : Nat := map.entries.length

/-- `std::erase_if`: drop every entry that satisfies the predicate. -/
def eraseIf (map : UnorderedMap Key Value) (drop : Key → Value → Bool) : UnorderedMap Key Value where
  entries := map.entries.filter fun entry => !drop entry.1 entry.2
  nodupKeys := map.nodupKeys.sublist List.filter_sublist

/-- The keys of the entries that satisfy a predicate. -/
def keysWhere (map : UnorderedMap Key Value) (select : Key → Value → Bool) : List Key :=
  (map.entries.filter fun entry => select entry.1 entry.2).map Sigma.fst

theorem keysWhere_nodup (map : UnorderedMap Key Value) (select : Key → Value → Bool) :
    (map.keysWhere select).Nodup := by
  apply List.Nodup.sublist (List.filter_sublist.map Sigma.fst)
  exact map.keys_nodup

variable [DecidableEq Key]

theorem mem_keysWhere (map : UnorderedMap Key Value) (select : Key → Value → Bool) (key : Key) :
    key ∈ map.keysWhere select ↔ ∃ value, map.lookup key = some value ∧ select key value = true := by
  simp only [keysWhere, List.mem_map, List.mem_filter]
  constructor
  · rintro ⟨⟨found, value⟩, ⟨member, selected⟩, rfl⟩
    exact ⟨value, AList.mem_lookup_iff.mpr member, selected⟩
  · rintro ⟨value, found, selected⟩
    exact ⟨⟨key, value⟩, ⟨AList.mem_lookup_iff.mp found, selected⟩, rfl⟩

theorem lookup_eraseIf (map : UnorderedMap Key Value) (drop : Key → Value → Bool) (key : Key) :
    (map.eraseIf drop).lookup key = (map.lookup key).filter fun value => !drop key value := by
  apply Option.ext
  intro value
  change value ∈ (map.eraseIf drop).lookup key ↔ _
  rw [AList.mem_lookup_iff, eraseIf, List.mem_filter, Option.filter_eq_some_iff, ← AList.mem_lookup_iff]
  rfl

end UnorderedMap

end CoroMultiplex.Foundations

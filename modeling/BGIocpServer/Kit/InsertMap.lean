import Mathlib.Data.List.Basic

/-!
# Maps that keep their first entry

A map as a list of entries, filled by insertions that do nothing where the key has an entry
already.

## Main definitions

* `mapInsert`, `mapInsertAll`: one insertion, and one after another.

## Main results

* `lookup_mapInsertAll`: of all insertions under a key the first one counts.
-/

namespace Kit

universe u v
variable {α : Type u} {β : Type v} [BEq α]

/-- `std::map::insert`: an entry with the key stays as it is. -/
def mapInsert (map : List (α × β)) (key : α) (value : β) : List (α × β) :=
  if (map.lookup key).isSome then map else map ++ [(key, value)]

/-- Insertions one after the other. -/
def mapInsertAll (map entries : List (α × β)) : List (α × β) :=
  entries.foldl (fun map e => mapInsert map e.1 e.2) map

variable [LawfulBEq α]

theorem lookup_mapInsert (map : List (α × β)) (key : α) (value : β) (k : α) :
    (mapInsert map key value).lookup k = (map ++ [(key, value)]).lookup k := by
  rw [mapInsert]
  split
  · next h =>
      rw [List.lookup_append]
      by_cases hk : k = key
      · subst hk
        rw [Option.or_of_isSome h]
      · have hnone : List.lookup k [(key, value)] = none := by
          simpa using beq_false_of_ne hk
        rw [hnone, Option.or_none]
  · rfl

theorem lookup_mapInsertAll (map entries : List (α × β)) (k : α) :
    (mapInsertAll map entries).lookup k = (map ++ entries).lookup k := by
  induction entries generalizing map with
  | nil => rw [List.append_nil]; rfl
  | cons e entries ih =>
      rw [mapInsertAll, List.foldl_cons]
      change (mapInsertAll (mapInsert map e.1 e.2) entries).lookup k = _
      rw [ih, List.lookup_append, lookup_mapInsert, ← List.lookup_append, List.append_assoc]
      rfl

end Kit

import Mathlib.Data.List.Perm.Basic

/-! Lists from which an entry is taken by its place, or changed there. -/
namespace Maestro.Entries

variable {Entry Key : Type*} {entries : List Entry} {index : Nat} {entry : Entry}

theorem erased (found : entries[index]? = some entry) : entries.Perm (entry :: entries.eraseIdx index) := by
  obtain ⟨bound, rfl⟩ := List.getElem?_eq_some_iff.mp found
  exact (List.getElem_cons_eraseIdx_perm bound).symm

theorem anyAt (found : entries[index]? = some entry) (p : Entry → Bool) :
    entries.any p = (p entry || (entries.eraseIdx index).any p) :=
  (erased found).any_eq

theorem anySet (found : entries[index]? = some entry) (new : Entry) (p : Entry → Bool) :
    (entries.set index new).any p = (p new || (entries.eraseIdx index).any p) := by
  have there : (entries.set index new)[index]? = some new :=
    List.getElem?_set_self (List.getElem?_eq_some_iff.mp found).1
  rw [anyAt there, List.eraseIdx_set_eq]

theorem mapSet (found : entries[index]? = some entry) {new : Entry} {key : Entry → Key} (same : key new = key entry) :
    (entries.set index new).map key = entries.map key := by
  obtain ⟨bound, rfl⟩ := List.getElem?_eq_some_iff.mp found
  have bound' : index < (entries.map key).length := by rwa [List.length_map]
  have there : (entries.map key)[index] = key new := by rw [List.getElem_map, same]
  rw [List.map_set, ← there]
  exact List.set_getElem_self _

end Maestro.Entries

import MentorAllocation.Data.Dict
import MentorAllocation.Text.JsonRoundTrip

namespace Text.Json
open Data

mutual
/-- A value with the members of its objects in the order of their keys. -/
def sorted : Json → Json
  | .arr items => .arr (sortedItems items)
  | .obj members => .obj ((sortedMembers members).insertionSort fun a b => a.1 ≤ b.1)
  | v => v

def sortedItems : List Json → List Json
  | [] => []
  | v :: vs => sorted v :: sortedItems vs

def sortedMembers : List (String × Json) → List (String × Json)
  | [] => []
  | (k, v) :: rest => (k, sorted v) :: sortedMembers rest
end

def inOrder (members : List (String × Json)) : List (String × Json) :=
  (sortedMembers members).insertionSort fun a b => a.1 ≤ b.1

theorem sorted_obj (members : List (String × Json)) :
    sorted (.obj members) = .obj (inOrder members) := by
  rw [sorted, inOrder]


theorem sortedItems_eq (items : List Json) : sortedItems items = items.map sorted := by
  induction items with
  | nil => rfl
  | cons v vs ih => rw [sortedItems, ih, List.map_cons]

theorem sorted_arr (items : List Json) : sorted (.arr items) = .arr (items.map sorted) := by
  rw [sorted, sortedItems_eq]

theorem sortedMembers_eq (members : List (String × Json)) :
    sortedMembers members = members.map fun m => (m.1, sorted m.2) := by
  induction members with
  | nil => rfl
  | cons m rest ih => rw [sortedMembers, ih, List.map_cons]

mutual
/-- With `sort_keys`, a value is written as the sorted one is without. -/
theorem dumps_sortKeys (style : Style) : ∀ v, dumps { style with sortKeys := true } v =
    dumps { style with sortKeys := false } (sorted v)
  | .null => rfl
  | .bool true => rfl
  | .bool false => rfl
  | .int _ => by rw [sorted, dumps, dumps]; all_goals simp
  | .float _ => by rw [sorted, dumps, dumps]; all_goals simp
  | .str _ => by rw [sorted, dumps, dumps]; all_goals simp
  | .arr items => by
    rw [sorted, dumps, dumps, dumpsItems_sortKeys style items]
  | .obj members => by
    have hmap := List.map_insertionSort (r := fun a b : String × Json => a.1 ≤ b.1)
      (s := fun a b : String × String => a.1 ≤ b.1)
      (fun m => (m.1, dumps { style with sortKeys := false } m.2)) (sortedMembers members)
      fun _ _ _ _ => Iff.rfl
    rw [sorted, dumps, dumps, dumpsMembers_sortKeys style members, dumpsMembers_eq, dumpsMembers_eq,
      hmap]
    rfl

theorem dumpsItems_sortKeys (style : Style) : ∀ items,
    dumpsItems { style with sortKeys := true } items =
      dumpsItems { style with sortKeys := false } (sortedItems items)
  | [] => rfl
  | v :: vs => by
    rw [sortedItems, dumpsItems, dumpsItems, dumps_sortKeys style v, dumpsItems_sortKeys style vs]

theorem dumpsMembers_sortKeys (style : Style) : ∀ members,
    dumpsMembers { style with sortKeys := true } members =
      dumpsMembers { style with sortKeys := false } (sortedMembers members)
  | [] => rfl
  | (k, v) :: rest => by
    rw [sortedMembers, dumpsMembers, dumpsMembers, dumps_sortKeys style v,
      dumpsMembers_sortKeys style rest]
end

section
variable {floatRepr : String → String} {style : Style}

theorem keys_sortedMembers (members : List (String × Json)) :
    (sortedMembers members).map Prod.fst = members.map Prod.fst := by
  rw [sortedMembers_eq, List.map_map]
  rfl

mutual
theorem valid_sorted : ∀ v, Valid floatRepr v → Valid floatRepr (sorted v)
  | .null, h | .bool _, h | .int _, h | .float _, h | .str _, h => by rwa [sorted]; all_goals simp
  | .arr items, h => by
    rw [Valid] at h
    rw [sorted, Valid]
    exact validItems_sorted items h
  | .obj members, h => by
    rw [Valid] at h
    have hperm := List.perm_insertionSort (fun a b : String × Json => a.1 ≤ b.1)
      (sortedMembers members)
    have hmembers := (validMembers_iff _).mp (validMembers_sorted members h.2)
    rw [sorted, Valid, (hperm.map Prod.fst).nodup_iff, keys_sortedMembers, validMembers_iff]
    exact ⟨h.1, fun m hm => hmembers m (hperm.mem_iff.mp hm)⟩

theorem validItems_sorted : ∀ items, ValidItems floatRepr items →
    ValidItems floatRepr (sortedItems items)
  | [], h => h
  | v :: vs, h => ⟨valid_sorted v h.1, validItems_sorted vs h.2⟩

theorem validMembers_sorted : ∀ members, ValidMembers floatRepr members →
    ValidMembers floatRepr (sortedMembers members)
  | [], h => h
  | (_, v) :: rest, h => ⟨valid_sorted v h.1, validMembers_sorted rest h.2⟩
end

/-- Sorting leaves what is under a key under it. -/
theorem lookup_inOrder {members : List (String × Json)} (h : (members.map Prod.fst).Nodup)
    (key : String) : (inOrder members).lookup key = (members.lookup key).map sorted := by
  have hkeys := h
  rw [← keys_sortedMembers] at hkeys
  rw [inOrder, ← lookup_perm (List.perm_insertionSort _ _).symm hkeys, sortedMembers_eq, lookup_map]

/-- What is written with `sort_keys` is read back with its keys in order. -/
theorem loads_dumps_sortKeys (hsep : Separators style) {v : Json} (h : Valid floatRepr v) :
    loads floatRepr (dumps { style with sortKeys := true } v) = some (sorted v) := by
  have hplain : ({ style with sortKeys := false } : Style).sortKeys = false := rfl
  rw [dumps_sortKeys]
  exact loads_dumps hplain ⟨hsep.item, hsep.key⟩ (valid_sorted v h)

end

end Text.Json

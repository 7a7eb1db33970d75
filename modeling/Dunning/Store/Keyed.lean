/-!
# Keyed lists

A list whose items have keys, in the order in which the keys were first put.
Putting an item under a key that is there replaces the item and keeps its place,
so that keys never repeat.
-/
namespace Dunning.Keyed

variable {α κ : Type} [DecidableEq κ] (key : α → κ)

/-- Put an item in the place of the first item with its key, or at the end. -/
def put (item : α) : List α → List α
  | [] => [item]
  | x :: rest => if key x = key item then item :: rest else x :: put item rest

/-- The first item with a key. -/
def find? (k : κ) (items : List α) : Option α := items.find? fun x => key x == k

/-- A key that is there keeps its place; another one comes last. -/
theorem map_put (item : α) (items : List α) :
    (put key item items).map key =
      if key item ∈ items.map key then items.map key else items.map key ++ [key item] := by
  induction items with
  | nil => simp [put]
  | cons x rest ih =>
    simp only [put]
    by_cases h : key x = key item
    · simp [h]
    · have h' : ¬key item = key x := fun e => h e.symm
      by_cases hin : key item ∈ rest.map key
      · simp only [h, if_false, List.map_cons, ih, hin, if_true, List.mem_cons, or_true]
      · simp only [h, if_false, List.map_cons, ih, hin, List.mem_cons, h', or_self,
          List.cons_append]

theorem nodup_put (item : α) {items : List α} (h : (items.map key).Nodup) :
    ((put key item items).map key).Nodup := by
  rw [map_put]
  split
  · exact h
  · rename_i new
    rw [List.nodup_append]
    refine ⟨h, by simp, ?_⟩
    intro a ha b hb
    obtain rfl := List.mem_singleton.1 hb
    exact fun e => new (e ▸ ha)

/-- What was put is found under its key, and nothing else has moved. -/
theorem find?_put (item : α) (k : κ) (items : List α) :
    find? key k (put key item items) = if key item = k then some item else find? key k items := by
  induction items with
  | nil =>
    by_cases h : key item = k <;> simp [put, find?, h]
  | cons x rest ih =>
    simp only [find?] at ih ⊢
    by_cases hx : key x = key item
    · by_cases h : key item = k <;> simp [put, hx, h]
    · rw [put, if_neg hx, List.find?_cons, List.find?_cons, ih]
      by_cases hk : key x = k
      · have h : ¬key item = k := fun e => hx (hk.trans e.symm)
        simp [hk, h]
      · have hb : (key x == k) = false := by simpa using hk
        rw [hb]

theorem nodup_append_of_find?_eq_none (item : α) {items : List α} (h : (items.map key).Nodup)
    (new : find? key (key item) items = none) : ((items ++ [item]).map key).Nodup := by
  rw [List.map_append, List.map_cons, List.map_nil, List.nodup_append]
  refine ⟨h, by simp, ?_⟩
  intro a ha b hb
  obtain rfl := List.mem_singleton.1 hb
  obtain ⟨x, hx, rfl⟩ := List.mem_map.1 ha
  have := List.find?_eq_none.1 new x hx
  simpa using this

end Dunning.Keyed

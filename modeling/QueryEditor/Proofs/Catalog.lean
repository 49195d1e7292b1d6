import QueryEditor.Named

namespace QueryEditor

open HasName

variable {α β : Type} [HasName α] [HasName β]

theorem Named.find?_cons {γ : Type} (slot : Named γ) (slots : List (Named γ)) (name : String) :
    find? (slot :: slots) name = if slot.name = name then some slot.value else find? slots name := by
  unfold find?
  rw [List.find?_cons]
  by_cases called : slot.name = name
  · rw [if_pos called, beq_iff_eq.mpr called]
    rfl
  · rw [if_neg called, beq_false_of_ne called]

theorem Named.find?_eq_none {γ : Type} {slots : List (Named γ)} {name : String} :
    find? slots name = none ↔ name ∉ slots.map (·.name) := by
  unfold find?
  rw [Option.map_eq_none_iff, List.find?_eq_none]
  constructor
  · intro absent there
    obtain ⟨slot, member, called⟩ := List.mem_map.mp there
    exact absent slot member (beq_iff_eq.mpr called)
  · intro absent slot member called
    exact absent (List.mem_map.mpr ⟨slot, member, eq_of_beq called⟩)

theorem Named.find?_of_mem {γ : Type} {slots : List (Named γ)} {slot : Named γ}
    (distinct : (slots.map (·.name)).Nodup) (member : slot ∈ slots) :
    find? slots slot.name = some slot.value := by
  induction slots with
  | nil => cases member
  | cons first rest ih =>
    obtain ⟨new, distinct⟩ := List.nodup_cons.mp distinct
    rw [find?_cons]
    rcases List.mem_cons.mp member with rfl | member
    · rw [if_pos rfl]
    · have apart : first.name ≠ slot.name :=
        fun same => new (List.mem_map.mpr ⟨slot, member, same.symm⟩)
      rw [if_neg apart, ih distinct member]

theorem Named.find?_place (entry : α) (slots : List (Named α)) (name : String) :
    find? (place entry slots) name =
      if nameOf entry = name then some entry else find? slots name := by
  induction slots with
  | nil => exact find?_cons ⟨nameOf entry, entry⟩ [] name
  | cons other rest ih =>
    rw [place]
    by_cases same : other.name = nameOf entry
    · rw [if_pos same, find?_cons, find?_cons, same]
      by_cases called : nameOf entry = name
      · rw [if_pos called, if_pos called]
      · rw [if_neg called, if_neg called, if_neg called]
    · rw [if_neg same, find?_cons, find?_cons, ih]
      by_cases called : other.name = name
      · have apart : nameOf entry ≠ name := fun entryCalled => same (called.trans entryCalled.symm)
        rw [if_pos called, if_pos called, if_neg apart]
      · rw [if_neg called, if_neg called]

def Named.mapValue {γ δ : Type} (f : γ → δ) (slot : Named γ) : Named δ :=
  ⟨slot.name, f slot.value⟩

theorem Named.names_mapValue {γ δ : Type} (f : γ → δ) (slots : List (Named γ)) :
    (slots.map (mapValue f)).map Named.name = slots.map Named.name := by
  rw [List.map_map]
  rfl

theorem Named.find?_mapValue {γ δ : Type} (f : γ → δ) (slots : List (Named γ)) (name : String) :
    find? (slots.map (mapValue f)) name = (find? slots name).map f := by
  induction slots with
  | nil => rfl
  | cons slot rest ih =>
    rw [List.map_cons, find?_cons, find?_cons, ih, apply_ite (Option.map f)]
    rfl

theorem Named.place_mapValue {f : α → β} (named : ∀ a, nameOf (f a) = nameOf a) (entry : α)
    (slots : List (Named α)) :
    (place entry slots).map (mapValue f) = place (f entry) (slots.map (mapValue f)) := by
  induction slots with
  | nil => rw [place, List.map_nil, place, named]; rfl
  | cons other rest ih =>
    rw [place, List.map_cons, place, named]
    by_cases same : other.name = nameOf entry
    · rw [if_pos same, if_pos (show (mapValue f other).name = nameOf entry from same)]
      rfl
    · rw [if_neg same, if_neg (show ¬(mapValue f other).name = nameOf entry from same),
        List.map_cons, ih]

theorem Named.place_new {entry : α} {slots : List (Named α)}
    (new : nameOf entry ∉ slots.map (·.name)) :
    place entry slots = slots ++ [⟨nameOf entry, entry⟩] := by
  induction slots with
  | nil => rfl
  | cons other rest ih =>
    rw [List.map_cons, List.mem_cons, not_or] at new
    rw [place, if_neg (Ne.symm new.1), ih new.2, List.cons_append]

namespace Catalog

theorem eq_of_slots {first second : Catalog α} (same : first.slots = second.slots) :
    first = second := by
  cases first
  cases second
  cases same
  rfl

theorem find?_eq_none {catalog : Catalog α} {name : String} :
    catalog.find? name = none ↔ name ∉ catalog.names :=
  Named.find?_eq_none

theorem contains_iff {catalog : Catalog α} {name : String} :
    catalog.contains name = true ↔ name ∈ catalog.names := by
  rw [contains, Option.isSome_iff_ne_none, ne_eq, find?_eq_none, Decidable.not_not]

theorem mem_names_of_find? {catalog : Catalog α} {name : String} {entry : α}
    (found : catalog.find? name = some entry) : name ∈ catalog.names := by
  apply Decidable.byContradiction
  intro absent
  rw [find?_eq_none.mpr absent] at found
  cases found

theorem find?_of_mem_names {catalog : Catalog α} {name : String} (there : name ∈ catalog.names) :
    ∃ entry, catalog.find? name = some entry := by
  cases found : catalog.find? name with
  | none => exact absurd there (find?_eq_none.mp found)
  | some entry => exact ⟨entry, rfl⟩

theorem mem_entries_iff {catalog : Catalog α} {entry : α} :
    entry ∈ catalog.entries ↔ catalog.find? (nameOf entry) = some entry := by
  constructor
  · intro member
    obtain ⟨slot, there, rfl⟩ := List.mem_map.mp member
    rw [catalog.keyed slot there]
    exact Named.find?_of_mem catalog.distinct there
  · exact fun found => (find?_mem found).1

theorem find?_insert (catalog : Catalog α) (entry : α) (name : String) :
    (catalog.insert entry).find? name =
      if nameOf entry = name then some entry else catalog.find? name :=
  Named.find?_place entry catalog.slots name

theorem names_insert (catalog : Catalog α) (entry : α) :
    (catalog.insert entry).names =
      if nameOf entry ∈ catalog.names then catalog.names else catalog.names ++ [nameOf entry] :=
  Named.names_place entry catalog.slots

theorem entries_insert_new {catalog : Catalog α} {entry : α}
    (new : catalog.find? (nameOf entry) = none) :
    (catalog.insert entry).entries = catalog.entries ++ [entry] := by
  show (Named.place entry catalog.slots).map (·.value) = _
  rw [Named.place_new (find?_eq_none.mp new), List.map_append]
  rfl

theorem insertAll_cons (catalog : Catalog α) (entry : α) (entries : List α) :
    catalog.insertAll (entry :: entries) = (catalog.insert entry).insertAll entries :=
  rfl

theorem insertAll_append (catalog : Catalog α) (first second : List α) :
    catalog.insertAll (first ++ second) = (catalog.insertAll first).insertAll second :=
  List.foldl_append

theorem mem_insert {catalog : Catalog α} {entry other : α}
    (member : other ∈ (catalog.insert entry).entries) : other = entry ∨ other ∈ catalog.entries := by
  have found := mem_entries_iff.mp member
  rw [find?_insert] at found
  split at found
  · exact Or.inl (Option.some.inj found).symm
  · exact Or.inr (find?_mem found).1

theorem mem_insertAll {catalog : Catalog α} {entries : List α} {other : α}
    (member : other ∈ (catalog.insertAll entries).entries) :
    other ∈ entries ∨ other ∈ catalog.entries := by
  induction entries generalizing catalog with
  | nil => exact Or.inr member
  | cons entry entries ih =>
    rcases ih member with among | member
    · exact Or.inl (List.mem_cons_of_mem _ among)
    · rcases mem_insert member with rfl | member
      · exact Or.inl List.mem_cons_self
      · exact Or.inr member

theorem insertAll_all {β : Type} {property : α → Prop} {catalog : Catalog α} {f : β → α}
    {items : List β} (before : ∀ entry ∈ catalog.entries, property entry)
    (each : ∀ item ∈ items, property (f item)) :
    ∀ entry ∈ (catalog.insertAll (items.map f)).entries, property entry := by
  intro entry member
  rcases mem_insertAll member with among | member
  · obtain ⟨item, there, rfl⟩ := List.mem_map.mp among
    exact each item there
  · exact before entry member

theorem mem_ofList {entries : List α} {other : α} (member : other ∈ (ofList entries).entries) :
    other ∈ entries := by
  rcases mem_insertAll member with among | member
  · exact among
  · cases member

def lastNamed (entries : List α) (name : String) : Option α :=
  entries.findRev? (nameOf · == name)

theorem lastNamed_append (first second : List α) (name : String) :
    lastNamed (first ++ second) name = (lastNamed second name).or (lastNamed first name) := by
  unfold lastNamed
  rw [List.findRev?_eq_find?_reverse, List.findRev?_eq_find?_reverse,
    List.findRev?_eq_find?_reverse, List.reverse_append, List.find?_append]

theorem lastNamed_singleton (entry : α) (name : String) :
    lastNamed [entry] name = if nameOf entry = name then some entry else none := by
  unfold lastNamed
  by_cases called : nameOf entry = name <;> simp [called]

theorem find?_insertAll (catalog : Catalog α) (entries : List α) (name : String) :
    (catalog.insertAll entries).find? name =
      (lastNamed entries name).or (catalog.find? name) := by
  induction entries generalizing catalog with
  | nil => rfl
  | cons entry entries ih =>
    rw [insertAll_cons, ih, find?_insert, ← List.singleton_append, lastNamed_append,
      lastNamed_singleton, Option.or_assoc]
    split <;> rfl

/-- The names that are new come after those that were there, each where it comes first. -/
theorem names_insertAll (catalog : Catalog α) (entries : List α) :
    (catalog.insertAll entries).names =
      catalog.names ++ ((entries.map nameOf).removeAll catalog.names).eraseDups := by
  induction entries generalizing catalog with
  | nil => exact (List.append_nil _).symm
  | cons entry entries ih =>
    rw [insertAll_cons, ih, names_insert, List.map_cons, List.cons_removeAll]
    by_cases there : nameOf entry ∈ catalog.names
    · rw [if_pos there, if_neg (by simpa using there)]
    · have after : (entries.map nameOf).removeAll (catalog.names ++ [nameOf entry]) =
          ((entries.map nameOf).removeAll catalog.names).filter fun name => !name == nameOf entry := by
        unfold List.removeAll
        rw [List.filter_filter]
        congr 1
        funext name
        rw [List.elem_eq_contains, List.elem_eq_contains, List.contains_append,
          List.contains_cons, List.contains_nil, Bool.or_false, Bool.not_or, Bool.and_comm]
      rw [if_neg there, if_pos (by simpa using there), List.eraseDups_cons, after,
        List.append_assoc, List.singleton_append]

theorem find?_ofList (entries : List α) (name : String) :
    (ofList entries).find? name = lastNamed entries name := by
  rw [ofList, find?_insertAll]
  exact Option.or_none

theorem names_ofList (entries : List α) : (ofList entries).names = (entries.map nameOf).eraseDups := by
  have all : (entries.map nameOf).removeAll [] = entries.map nameOf :=
    List.filter_eq_self.mpr fun _ _ => rfl
  rw [ofList, names_insertAll]
  show [] ++ ((entries.map nameOf).removeAll []).eraseDups = _
  rw [all, List.nil_append]

section Map

variable (f : α → β) (named : ∀ a, nameOf (f a) = nameOf a)

def map (catalog : Catalog α) : Catalog β where
  slots := catalog.slots.map (Named.mapValue f)
  keyed := by
    intro slot member
    obtain ⟨old, there, rfl⟩ := List.mem_map.mp member
    exact (named old.value).trans (catalog.keyed old there)
  distinct := by
    rw [Named.names_mapValue]
    exact catalog.distinct

theorem find?_map (catalog : Catalog α) (name : String) :
    (catalog.map f named).find? name = (catalog.find? name).map f :=
  Named.find?_mapValue f catalog.slots name

theorem map_insert (catalog : Catalog α) (entry : α) :
    (catalog.insert entry).map f named = (catalog.map f named).insert (f entry) :=
  eq_of_slots (Named.place_mapValue named entry catalog.slots)

theorem map_insertAll (catalog : Catalog α) (entries : List α) :
    (catalog.insertAll entries).map f named =
      (catalog.map f named).insertAll (entries.map f) := by
  induction entries generalizing catalog with
  | nil => rfl
  | cons entry entries ih => rw [insertAll_cons, ih, map_insert, List.map_cons, insertAll_cons]

theorem map_ofList (entries : List α) :
    (ofList entries).map f named = ofList (entries.map f) :=
  map_insertAll f named empty entries

end Map

end Catalog

end QueryEditor

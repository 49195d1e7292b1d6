namespace QueryEditor

structure Named (α : Type) where
  name : String
  value : α
  deriving DecidableEq

def Named.find? {α : Type} (slots : List (Named α)) (name : String) : Option α :=
  (slots.find? (·.name == name)).map (·.value)

class HasName (α : Type) where
  nameOf : α → String

instance {α : Type} : HasName (Named α) := ⟨Named.name⟩

open HasName

namespace Named

variable {α : Type} [HasName α]

/-- Puts an entry under its name: where the name stands already, else at the end. -/
def place (entry : α) : List (Named α) → List (Named α)
  | [] => [⟨nameOf entry, entry⟩]
  | other :: rest =>
    if other.name = nameOf entry then ⟨nameOf entry, entry⟩ :: rest else other :: place entry rest

theorem place_keyed {slots : List (Named α)} (keyed : ∀ slot ∈ slots, nameOf slot.value = slot.name)
    (entry : α) : ∀ slot ∈ place entry slots, nameOf slot.value = slot.name := by
  induction slots with
  | nil =>
    intro slot member
    rw [place, List.mem_singleton] at member
    rw [member]
  | cons other rest ih =>
    intro slot member
    rw [place] at member
    split at member
    · rcases List.mem_cons.mp member with rfl | member
      · rfl
      · exact keyed slot (List.mem_cons_of_mem _ member)
    · rcases List.mem_cons.mp member with rfl | member
      · exact keyed slot List.mem_cons_self
      · exact ih (fun slot member => keyed slot (List.mem_cons_of_mem _ member)) slot member

theorem names_place (entry : α) (slots : List (Named α)) :
    (place entry slots).map Named.name =
      if nameOf entry ∈ slots.map Named.name then slots.map Named.name
      else slots.map Named.name ++ [nameOf entry] := by
  induction slots with
  | nil => rfl
  | cons other rest ih =>
    rw [place]
    by_cases same : other.name = nameOf entry
    · rw [if_pos same, List.map_cons, List.map_cons, same, if_pos List.mem_cons_self]
    · rw [if_neg same, List.map_cons, List.map_cons, ih]
      by_cases there : nameOf entry ∈ rest.map Named.name
      · rw [if_pos there, if_pos (List.mem_cons_of_mem _ there)]
      · have new : nameOf entry ∉ other.name :: rest.map Named.name := by
          intro member
          rcases List.mem_cons.mp member with called | member
          · exact same called.symm
          · exact there member
        rw [if_neg there, if_neg new, List.cons_append]

theorem place_distinct {slots : List (Named α)} (distinct : (slots.map Named.name).Nodup)
    (entry : α) : ((place entry slots).map Named.name).Nodup := by
  rw [names_place]
  split
  · exact distinct
  case isFalse new =>
    rw [List.nodup_append]
    refine ⟨distinct, List.pairwise_singleton _ _, ?_⟩
    intro name member other last
    rw [List.mem_singleton.mp last]
    rintro rfl
    exact new member

end Named

/-- An ordered collection of things that carry names: each stands under its own name, and a name
occurs once. -/
structure Catalog (α : Type) [HasName α] where
  slots : List (Named α)
  keyed : ∀ slot ∈ slots, nameOf slot.value = slot.name
  distinct : (slots.map Named.name).Nodup
  deriving DecidableEq

namespace Catalog

variable {α : Type} [HasName α]

def empty : Catalog α :=
  ⟨[], nofun, List.nodup_nil⟩

instance : Inhabited (Catalog α) := ⟨empty⟩

def entries (catalog : Catalog α) : List α :=
  catalog.slots.map (·.value)

def names (catalog : Catalog α) : List String :=
  catalog.slots.map (·.name)

def find? (catalog : Catalog α) (name : String) : Option α :=
  Named.find? catalog.slots name

def contains (catalog : Catalog α) (name : String) : Bool :=
  (catalog.find? name).isSome

theorem find?_mem {catalog : Catalog α} {name : String} {a : α}
    (found : catalog.find? name = some a) : a ∈ catalog.entries ∧ nameOf a = name := by
  obtain ⟨slot, there, rfl⟩ := Option.map_eq_some_iff.mp found
  have member := List.mem_of_find?_eq_some there
  have called := List.find?_some there
  exact ⟨List.mem_map_of_mem member, (catalog.keyed slot member).trans (eq_of_beq called)⟩

theorem names_eq (catalog : Catalog α) : catalog.names = catalog.entries.map nameOf := by
  rw [names, entries, List.map_map]
  exact List.map_congr_left fun slot member => (catalog.keyed slot member).symm

def insert (catalog : Catalog α) (entry : α) : Catalog α :=
  ⟨Named.place entry catalog.slots, Named.place_keyed catalog.keyed entry,
    Named.place_distinct catalog.distinct entry⟩

def insertAll (catalog : Catalog α) (entries : List α) : Catalog α :=
  entries.foldl insert catalog

def ofList (entries : List α) : Catalog α :=
  empty.insertAll entries

end Catalog

end QueryEditor

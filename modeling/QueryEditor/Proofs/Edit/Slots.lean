import QueryEditor.Edit.Slots
import QueryEditor.Proofs.Document.Check

namespace QueryEditor

theorem Edited.bind_eq_ok {α β : Type} {first : Edited α} {next : α → Edited β} {b : β} :
    first >>= next = .ok b ↔ ∃ a, first = .ok a ∧ next a = .ok b := by
  cases first with
  | error cause => exact ⟨nofun, nofun⟩
  | ok a => exact ⟨fun done => ⟨a, rfl, done⟩, fun ⟨_, same, done⟩ => by cases same; exact done⟩

theorem Edited.map_eq_ok {α β : Type} {edited : Edited α} {f : α → β} {b : β} :
    edited.map f = .ok b ↔ ∃ a, edited = .ok a ∧ f a = b := by
  cases edited with
  | error cause => exact ⟨nofun, nofun⟩
  | ok a =>
    exact ⟨fun done => ⟨a, rfl, Except.ok.inj done⟩, fun ⟨_, same, done⟩ => by
      cases same
      exact congrArg Except.ok done⟩

namespace Slots

open Value

variable {check : Check} {α : Type}

theorem update_keeps {name : String} {change : Value → Edited Value} {slots result : List Slot}
    (changed : ∀ v v', change v = .ok v' → v'.all check = true) (good : allSlots check slots = true)
    (done : update name change slots = .ok result) : allSlots check result = true := by
  induction slots generalizing result with
  | nil => cases done
  | cons slot rest ih =>
    simp only [allSlots_cons, Bool.and_eq_true] at good
    rw [update] at done
    split at done
    · obtain ⟨v, value, same⟩ := Edited.bind_eq_ok.mp done
      cases same
      simp only [allSlots_cons, Bool.and_eq_true]
      exact ⟨⟨good.1.1, changed _ v value⟩, good.2⟩
    · obtain ⟨others, further, same⟩ := Edited.bind_eq_ok.mp done
      cases same
      simp only [allSlots_cons, Bool.and_eq_true]
      exact ⟨good.1, ih good.2 further⟩

theorem replace_keeps {name : String} {value : Value} {slots result : List Slot}
    (put : value.all check = true) (good : allSlots check slots = true)
    (done : replace name value slots = .ok result) : allSlots check result = true :=
  update_keeps (fun _ _ same => by cases same; exact put) good done

theorem add_keeps {schema : Schema} {policy : Policy} {parent : Field} {input : InputTarget}
    {previous : Option Slot} {slots result : List Slot}
    (remembered : ∀ slot ∈ previous, check.slot slot.name = true ∧ slot.value.all check = true)
    (filled : ∀ slot ∈ Defaults.slot schema policy parent input,
      check.slot slot.name = true ∧ slot.value.all check = true)
    (good : allSlots check slots = true)
    (done : add schema policy parent input previous slots = .ok result) :
    allSlots check result = true := by
  unfold add at done
  split at done
  · cases done
    exact good
  split at done
  case h_1 slot some =>
    cases done
    have put : check.slot slot.name = true ∧ slot.value.all check = true := by
      cases previous with
      | some before =>
        cases some
        exact remembered slot rfl
      | none => exact filled slot some
    simp [good, allSlots_cons, put.1, put.2]
  case h_2 => cases done

theorem remove_keeps (name : String) {slots : List Slot} (good : allSlots check slots = true) :
    allSlots check (remove name slots).1 = true ∧
      ∀ slot ∈ (remove name slots).2, check.slot slot.name = true ∧ slot.value.all check = true := by
  induction slots with
  | nil => exact ⟨rfl, nofun⟩
  | cons slot rest ih =>
    simp only [allSlots_cons, Bool.and_eq_true] at good
    rw [remove]
    split
    · refine ⟨good.2, fun taken member => ?_⟩
      cases member
      exact good.1
    · have further := ih good.2
      simp only [allSlots_cons, Bool.and_eq_true]
      exact ⟨⟨good.1, further.1⟩, further.2⟩

/-- What an edit of slots keeps, with what it finds out, it keeps inside object values as well. -/
theorem updateWithin_keeps (objects : ∀ fields, check.value (.object fields) = true)
    {edit : List Slot → Edited (List Slot × α)} {found : α → Prop}
    (edited : ∀ slots result a, allSlots check slots = true → edit slots = .ok (result, a) →
      allSlots check result = true ∧ found a)
    {containers : List String} {slots result : List Slot} {a : α} (good : allSlots check slots = true)
    (done : updateWithin edit containers slots = .ok (result, a)) :
    allSlots check result = true ∧ found a := by
  induction containers generalizing slots result with
  | nil => exact edited slots result a good done
  | cons name inner ih =>
    rw [updateWithin] at done
    induction slots generalizing result with
    | nil => cases done
    | cons slot rest further =>
      simp only [allSlots_cons, Bool.and_eq_true] at good
      rw [updateWithin.inFirst] at done
      split at done
      · split at done
        case h_1 fields value =>
          obtain ⟨⟨fields', found'⟩, inside, same⟩ := Edited.bind_eq_ok.mp done
          cases same
          rw [value, all, Bool.and_eq_true] at good
          obtain ⟨kept, holds⟩ := ih good.1.2.2 inside
          simp only [allSlots_cons, all, objects, kept, good.2, good.1.1, Bool.and_self, true_and]
          exact holds
        case h_2 => cases done
      · obtain ⟨⟨rest', found'⟩, others, same⟩ := Edited.bind_eq_ok.mp done
        cases same
        obtain ⟨kept, holds⟩ := further good.2 others
        simp only [allSlots_cons, Bool.and_eq_true]
        exact ⟨⟨good.1, kept⟩, holds⟩

end Slots

end QueryEditor

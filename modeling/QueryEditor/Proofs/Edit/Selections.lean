import QueryEditor.Edit.Addressed
import QueryEditor.Proofs.Edit.Slots

namespace QueryEditor

variable {check : Check} {α : Type}

theorem Selection.all_leaf (check : Check) (name : String) :
    (leaf name).all check = check.field none name := by
  simp [leaf, all_field]

namespace Selections

open Selection

theorem removeFirst_mem {p : α → Bool} {items others : List α} {removed : α}
    (found : removeFirst p items = some (removed, others)) :
    removed ∈ items ∧ p removed = true ∧ ∀ a ∈ others, a ∈ items := by
  induction items generalizing others with
  | nil => cases found
  | cons a rest ih =>
    rw [removeFirst] at found
    split at found
    case isTrue first =>
      cases found
      exact ⟨List.mem_cons_self, first, fun b member => List.mem_cons_of_mem _ member⟩
    · obtain ⟨⟨removed', others'⟩, further, same⟩ := Option.map_eq_some_iff.mp found
      cases same
      obtain ⟨member, holds, kept⟩ := ih further
      refine ⟨List.mem_cons_of_mem _ member, holds, fun b member => ?_⟩
      rcases List.mem_cons.mp member with rfl | member
      · exact List.mem_cons_self
      · exact List.mem_cons_of_mem _ (kept b member)

theorem updateField_keeps {missing : EditError} {name : String}
    {update : FieldSelection → Edited (FieldSelection × α)} (found : α → Prop)
    (updated : ∀ node node' a, (field node).all check = true → update node = .ok (node', a) →
      (field node').all check = true ∧ found a)
    {selections result : List Selection} {a : α} (good : selections.all (all check) = true)
    (done : updateField missing name update selections = .ok (result, a)) :
    result.all (all check) = true ∧ found a := by
  induction selections generalizing result with
  | nil => cases done
  | cons s rest ih =>
    rw [List.all_cons, Bool.and_eq_true] at good
    have further : ∀ {others}, updateField missing name update rest = .ok (others, a) →
        (s :: others).all (all check) = true ∧ found a := by
      intro others done
      obtain ⟨kept, holds⟩ := ih good.2 done
      rw [List.all_cons, Bool.and_eq_true]
      exact ⟨⟨good.1, kept⟩, holds⟩
    cases s with
    | field node =>
      rw [updateField] at done
      split at done
      · obtain ⟨⟨node', found'⟩, first, same⟩ := Edited.bind_eq_ok.mp done
        cases same
        obtain ⟨kept, holds⟩ := updated node node' a good.1 first
        rw [List.all_cons, Bool.and_eq_true]
        exact ⟨⟨kept, good.2⟩, holds⟩
      · obtain ⟨_, behind, same⟩ := Edited.bind_eq_ok.mp done
        cases same
        exact further behind
    | spread node =>
      obtain ⟨_, behind, same⟩ := Edited.bind_eq_ok.mp done
      cases same
      exact further behind
    | inline node =>
      obtain ⟨_, behind, same⟩ := Edited.bind_eq_ok.mp done
      cases same
      exact further behind

theorem updateOwn_keeps {name : String} {update : FieldSelection → Edited FieldSelection}
    (updated : ∀ node node', (field node).all check = true → update node = .ok node' →
      (field node').all check = true)
    {selections result : List Selection} (good : selections.all (all check) = true)
    (done : updateOwn name update selections = .ok result) : result.all (all check) = true := by
  obtain ⟨⟨result', _⟩, done, same⟩ := Edited.bind_eq_ok.mp done
  cases same
  refine (updateField_keeps (fun _ => True) (fun node node' _ good done => ?_) good done).1
  obtain ⟨node'', first, same⟩ := Edited.bind_eq_ok.mp done
  cases same
  exact ⟨updated node node' good first, trivial⟩

theorem all_with_children {node : FieldSelection} (good : (field node).all check = true)
    {children : List Selection} (put : children.all (all check) = true) :
    (field { node with children }).all check = true := by
  simp only [all_field, Bool.and_eq_true] at good ⊢
  exact ⟨good.1, put⟩

theorem children_of_all {node : FieldSelection} (good : (field node).all check = true) :
    node.children.all (all check) = true := by
  simp only [all_field, Bool.and_eq_true] at good
  exact good.2

theorem toggleField_keeps {schema : Schema} {policy : Policy} {target : Field}
    {previous : Option FieldSelection} {selections : List Selection}
    (remembered : ∀ node ∈ previous, (field node).all check = true)
    (anew : check.field none target.name = true)
    (filled : Value.allSlots check (Defaults.arguments schema policy target) = true)
    (good : selections.all (all check) = true) :
    (toggleField schema policy target previous selections).selections.all (all check) = true ∧
      ∀ node ∈ (toggleField schema policy target previous selections).removed,
        (field node).all check = true := by
  unfold toggleField
  split
  case h_1 removed others found =>
    obtain ⟨member, _, kept⟩ := removeFirst_mem found
    rw [List.all_eq_true] at good ⊢
    refine ⟨fun s member => good s (kept s member), fun node taken => ?_⟩
    cases removed with
    | field node' =>
      cases taken
      exact good _ member
    | _ => cases taken
  case h_2 =>
    refine ⟨?_, nofun⟩
    rw [List.all_append, good, Bool.true_and, List.all_cons, List.all_nil, Bool.and_true]
    cases previous with
    | some node => exact remembered node rfl
    | none => simp [all_field, anew, filled]

theorem selectAll_keeps {schema : Schema} {policy : Policy} {target : Field} {names : List String}
    {selections : List Selection} (anew : check.field none target.name = true)
    (filled : Value.allSlots check (Defaults.arguments schema policy target) = true)
    (leaves : ∀ name ∈ names, check.field none name = true)
    (good : selections.all (all check) = true) :
    (selectAll schema policy target names selections).all (all check) = true := by
  rw [List.all_eq_true] at good
  rw [selectAll, List.all_append, Bool.and_eq_true]
  constructor
  · exact List.all_eq_true.mpr fun s member => good s (List.mem_filter.mp member).1
  · have children : (names.map leaf).all (all check) = true := by
      rw [List.all_map, List.all_eq_true]
      exact fun name member => (all_leaf check name).trans (leaves name member)
    rw [List.all_cons, List.all_nil, Bool.and_true, all_field]
    simp only [Bool.and_eq_true, List.all_nil]
    exact ⟨⟨⟨anew, filled⟩, trivial⟩, children⟩

theorem addMissing_keeps {names : List String} {selections : List Selection}
    (leaves : ∀ name ∈ names, check.field none name = true)
    (good : selections.all (all check) = true) :
    (names.foldl addMissing selections).all (all check) = true := by
  induction names generalizing selections with
  | nil => exact good
  | cons name names ih =>
    refine ih (fun other member => leaves other (List.mem_cons_of_mem name member)) ?_
    unfold addMissing
    split
    · exact good
    · simp [good, all_leaf, leaves name List.mem_cons_self]

theorem selectWithin_keeps {name : String} {names : List String} {selections result : List Selection}
    (leaves : ∀ name ∈ names, check.field none name = true)
    (good : selections.all (all check) = true)
    (done : selectWithin name names selections = .ok result) : result.all (all check) = true :=
  updateOwn_keeps (fun node _ good same => by
    cases same
    exact all_with_children good (addMissing_keeps leaves (children_of_all good))) good done

theorem setChildren_keeps {name : String} {children selections result : List Selection}
    (put : children.all (all check) = true) (good : selections.all (all check) = true)
    (done : setChildren name children selections = .ok result) : result.all (all check) = true :=
  updateOwn_keeps (fun _ _ good same => by
    cases same
    exact all_with_children good put) good done

theorem normalize_keeps {selections : List Selection}
    (alone : check.field none typenameField = true) (good : selections.all (all check) = true) :
    (normalize selections).all (all check) = true := by
  unfold normalize
  split
  · simp [all_leaf, alone]
  · rw [List.all_eq_true] at good ⊢
    exact fun s member => good s (List.mem_filter.mp member).1

theorem normalize_ne_nil (selections : List Selection) : normalize selections ≠ [] := by
  unfold normalize
  split
  · exact List.cons_ne_nil _ _
  case h_2 some => exact some

theorem toggleSpread_keeps {fragment : String} {previous : Option FragmentSpread}
    {selections : List Selection}
    (remembered : ∀ node ∈ previous, (spread node).all check = true)
    (anew : check.spread fragment = true) (good : selections.all (all check) = true) :
    (toggleSpread fragment previous selections).selections.all (all check) = true ∧
      ∀ node ∈ (toggleSpread fragment previous selections).removed,
        (spread node).all check = true := by
  unfold toggleSpread
  split
  case h_1 removed others found =>
    obtain ⟨member, _, kept⟩ := removeFirst_mem found
    rw [List.all_eq_true] at good ⊢
    refine ⟨fun s member => good s (kept s member), fun node taken => ?_⟩
    cases taken
    exact good _ member
  case h_2 removed others _ found =>
    obtain ⟨_, _, kept⟩ := removeFirst_mem found
    rw [List.all_eq_true] at good ⊢
    exact ⟨fun s member => good s (kept s member), nofun⟩
  case h_3 =>
    refine ⟨?_, nofun⟩
    rw [List.all_append, good, Bool.true_and, List.all_cons, List.all_nil, Bool.and_true]
    cases previous with
    | some node => exact remembered node rfl
    | none => simp [all_spread, anew]

structure Extracted (check : Check) (name type : String) (fragment : Fragment) : Prop where
  name : fragment.name = name
  condition : fragment.condition = type
  directives : fragment.directives = []
  nonempty : fragment.selections ≠ []
  selections : fragment.selections.all (all check) = true

theorem extract_keeps {name type : String} {taken : List String} {selections result : List Selection}
    {fragment : Fragment} (anew : check.spread (Naming.unique (type ++ "Fragment") taken) = true)
    (good : selections.all (all check) = true)
    (done : extract name type taken selections = .ok (result, fragment)) :
    result.all (all check) = true ∧
      Extracted check (Naming.unique (type ++ "Fragment") taken) type fragment := by
  refine updateField_keeps _ (fun node node' fragment good done => ?_) good done
  split at done
  · cases done
  case isFalse some =>
    cases done
    have spread' : ([.spread { fragment := Naming.unique (type ++ "Fragment") taken }] :
        List Selection).all (all check) = true := by
      simp [all_spread, anew]
    exact ⟨all_with_children good spread', rfl, rfl, rfl, by simpa using some, children_of_all good⟩

theorem updateAt_keeps {missing : EditError} {edit : List Selection → Edited (List Selection × α)}
    (found : α → Prop)
    (edited : ∀ selections result a, selections.all (all check) = true →
      edit selections = .ok (result, a) → result.all (all check) = true ∧ found a)
    {segments : List String} {selections result : List Selection} {a : α}
    (good : selections.all (all check) = true)
    (done : updateAt missing edit segments selections = .ok (result, a)) :
    result.all (all check) = true ∧ found a := by
  induction segments generalizing selections result a with
  | nil => exact edited selections result a good done
  | cons name inner ih =>
    refine updateField_keeps found (fun node node' a good done => ?_) good done
    obtain ⟨⟨children, found'⟩, beneath, same⟩ := Edited.bind_eq_ok.mp done
    cases same
    obtain ⟨kept, holds⟩ := ih (children_of_all good) beneath
    exact ⟨all_with_children good kept, holds⟩

end Selections

end QueryEditor

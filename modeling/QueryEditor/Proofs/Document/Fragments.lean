import QueryEditor.Document.Fragments

namespace QueryEditor

namespace Document

variable {doc : Document}

theorem mem_fragments {id : DefinitionId} {fragment : Fragment} :
    (id, fragment) ∈ doc.fragments ↔ doc.definition? id = some (.fragment fragment) := by
  rw [fragments, List.mem_filterMap]
  constructor
  · rintro ⟨⟨definition, position⟩, member, found⟩
    rcases Option.map_eq_some_iff.mp found with ⟨other, own, same⟩
    cases same
    cases definition with
    | operation op => cases own
    | fragment frag =>
      cases own
      exact List.mem_zipIdx_iff_getElem?.mp member
  · intro there
    exact ⟨(.fragment fragment, id), List.mem_zipIdx_iff_getElem?.mpr there, rfl⟩

theorem fragments_ordered (doc : Document) : doc.fragments.Pairwise (·.1 < ·.1) := by
  have positions : doc.definitions.zipIdx.Pairwise (·.2 < ·.2) := by
    rw [← List.pairwise_map (f := Prod.snd) (R := (· < ·)), List.zipIdx_map_snd]
    exact List.pairwise_lt_range' 1
  rw [fragments, List.pairwise_filterMap]
  refine positions.imp ?_
  intro first second earlier listed own other behind
  rcases Option.map_eq_some_iff.mp own with ⟨_, -, rfl⟩
  rcases Option.map_eq_some_iff.mp behind with ⟨_, -, rfl⟩
  exact earlier

def fragmentTypes (doc : Document) : List String :=
  doc.definitions.filterMap fun definition => definition.fragment?.map (·.condition)

theorem fragments_conditions (doc : Document) :
    doc.fragments.map (·.2.condition) = doc.fragmentTypes := by
  have whole : doc.fragmentTypes =
      (doc.definitions.zipIdx.map Prod.fst).filterMap fun definition =>
        definition.fragment?.map (·.condition) := by
    rw [List.zipIdx_map_fst]
    rfl
  rw [whole, List.filterMap_map, fragments, List.map_filterMap]
  congr 1
  funext ⟨definition, id⟩
  exact Option.map_map _ _ _

end Document

namespace FragmentIndex

section Distinct

variable {name : String} {names : List String}

theorem mem_distinct : name ∈ distinct names ↔ name ∈ names := by
  induction names with
  | nil => rfl
  | cons first rest ih =>
    rw [distinct, List.mem_cons, List.mem_cons, List.mem_filter, ih]
    by_cases same : name = first <;> simp [same]

theorem nodup_distinct (names : List String) : (distinct names).Nodup := by
  induction names with
  | nil => exact .nil
  | cons first rest ih =>
    rw [distinct, List.nodup_cons]
    exact ⟨by simp, ih.filter _⟩

theorem distinct_ordered (names : List String) :
    (distinct names).Pairwise fun a b => names.idxOf a < names.idxOf b := by
  induction names with
  | nil => exact .nil
  | cons first rest ih =>
    have behind {name : String} (member : name ∈ (distinct rest).filter (· != first)) :
        (first :: rest).idxOf name = rest.idxOf name + 1 := by
      have other : first ≠ name := by
        rintro rfl
        simp at member
      rw [List.idxOf_cons, beq_false_of_ne other, cond_false]
    rw [distinct, List.pairwise_cons]
    constructor
    · intro name member
      rw [behind member, List.idxOf_cons_self]
      exact Nat.succ_pos _
    · refine (ih.filter _).imp_of_mem ?_
      intro a b first second earlier
      rw [behind first, behind second]
      exact Nat.succ_lt_succ earlier

end Distinct

/-- A stable sort leaves elements that are equal in its order as they came. -/
theorem filter_mergeSort {α : Type} {le : α → α → Bool}
    (trans : ∀ a b c, le a b = true → le b c = true → le a c = true)
    (total : ∀ a b, (le a b || le b a) = true) {p : α → Bool}
    (equal : ∀ a b, p a = true → p b = true → le a b = true) (items : List α) :
    (items.mergeSort le).filter p = items.filter p := by
  have tied : (items.filter p).Pairwise fun a b => le a b = true := by
    rw [List.pairwise_filter]
    exact List.pairwise_of_forall fun a b first second => equal a b first second
  have inside := (List.sublist_mergeSort trans total tied List.filter_sublist).filter p
  rw [List.filter_filter] at inside
  simp only [Bool.and_self] at inside
  exact (inside.eq_of_length ((List.mergeSort_perm items le).filter p).length_eq.symm).symm

section Listed

variable {doc : Document} {type : String} {listed : List (DefinitionId × Fragment)}

theorem lex_codePoints {first second : List Char} :
    List.Lex (· < ·) (first.map Char.toNat) (second.map Char.toNat) ↔
      List.Lex (· < ·) first second := by
  induction first generalizing second with
  | nil => cases second with
    | nil => exact ⟨nofun, nofun⟩
    | cons => exact ⟨fun _ => .nil, fun _ => .nil⟩
  | cons a rest ih => cases second with
    | nil => exact ⟨nofun, nofun⟩
    | cons b others =>
      rw [List.map_cons, List.map_cons, List.cons_lex_cons_iff, List.cons_lex_cons_iff, ih,
        Char.toNat_inj]
      rfl

/-- Fragments as they are listed on a type: by the code points of their names, and those of one name as
they stand in the document. -/
def ListedBefore (first second : DefinitionId × Fragment) : Prop :=
  List.Lex (· < ·) (first.2.name.toList.map Char.toNat) (second.2.name.toList.map Char.toNat) ∨
    first.2.name = second.2.name ∧ first.1 < second.1

theorem onType_perm (type : String) (listed : List (DefinitionId × Fragment)) :
    (onType type listed).Perm (listed.filter (·.2.condition == type)) :=
  List.mergeSort_perm _ _

theorem nameOrder_trans (first second third : DefinitionId × Fragment)
    (left : decide (first.2.name ≤ second.2.name) = true)
    (right : decide (second.2.name ≤ third.2.name) = true) :
    decide (first.2.name ≤ third.2.name) = true := by
  rw [decide_eq_true_eq] at *
  exact String.le_trans left right

theorem nameOrder_total (first second : DefinitionId × Fragment) :
    (decide (first.2.name ≤ second.2.name) || decide (second.2.name ≤ first.2.name)) = true := by
  rw [Bool.or_eq_true, decide_eq_true_eq, decide_eq_true_eq]
  exact String.le_total _ _

theorem onType_sorted (type : String) (listed : List (DefinitionId × Fragment)) :
    (onType type listed).Pairwise (·.2.name ≤ ·.2.name) := by
  have sorted := List.pairwise_mergeSort nameOrder_trans nameOrder_total
    (listed.filter (·.2.condition == type))
  exact sorted.imp decide_eq_true_eq.mp

theorem onType_filter_name (type name : String) (listed : List (DefinitionId × Fragment)) :
    (onType type listed).filter (·.2.name == name) =
      (listed.filter (·.2.condition == type)).filter (·.2.name == name) := by
  refine filter_mergeSort nameOrder_trans nameOrder_total ?_ _
  intro first second own other
  rw [beq_iff_eq.mp own, beq_iff_eq.mp other]
  exact decide_eq_true (String.le_refl name)

theorem onType_listed (ordered : listed.Pairwise (·.1 < ·.1)) (type : String) :
    (onType type listed).Pairwise ListedBefore := by
  rw [List.pairwise_iff_forall_sublist]
  intro first second both
  have sorted := List.pairwise_iff_forall_sublist.mp (onType_sorted type listed) both
  by_cases same : first.2.name = second.2.name
  · have pair : [first, second].filter (·.2.name == second.2.name) = [first, second] := by simp [same]
    have own := both.filter (·.2.name == second.2.name)
    rw [pair, onType_filter_name] at own
    have earlier := List.pairwise_iff_forall_sublist.mp ((ordered.filter _).filter _) own
    exact .inr ⟨same, earlier⟩
  · have less : first.2.name < second.2.name :=
      String.not_le.mp fun back => same (String.le_antisymm sorted back)
    exact .inl (lex_codePoints.mpr less)

theorem ListedBefore.ne {first second : DefinitionId × Fragment}
    (before : ListedBefore first second) : first ≠ second := by
  rintro rfl
  rcases before with less | ⟨-, earlier⟩
  · exact String.lt_irrefl _ (lex_codePoints.mp less)
  · exact Nat.lt_irrefl _ earlier

theorem typeNames_ofDocument (doc : Document) :
    (ofDocument doc).typeNames = distinct doc.fragmentTypes := by
  rw [← Document.fragments_conditions, typeNames, ofDocument, List.map_map]
  exact List.map_id _

theorem forType_ofDocument (doc : Document) (type : String) :
    (ofDocument doc).forType type = onType type doc.fragments := by
  have looked : (ofDocument doc).forType type =
      (((distinct doc.fragmentTypes).find? (· == type)).map (onType · doc.fragments)).getD [] := by
    rw [forType, ofDocument, Document.fragments_conditions, List.find?_map, Option.map_map]
    rfl
  rw [looked]
  cases found : (distinct doc.fragmentTypes).find? (· == type) with
  | none =>
    have absent : type ∉ doc.fragmentTypes := by
      rw [← mem_distinct]
      intro there
      exact List.find?_eq_none.mp found type there (beq_self_eq_true type)
    have nothing : doc.fragments.filter (·.2.condition == type) = [] := by
      rw [List.filter_eq_nil_iff]
      intro fragment member own
      refine absent ?_
      rw [← Document.fragments_conditions, ← beq_iff_eq.mp own]
      exact List.mem_map_of_mem member
    rw [onType, nothing, List.mergeSort_nil]
    rfl
  | some own =>
    have called := List.find?_some found
    rw [beq_iff_eq.mp called]
    rfl

theorem mem_forType {id : DefinitionId} {fragment : Fragment} :
    (id, fragment) ∈ (ofDocument doc).forType type ↔
      doc.definition? id = some (.fragment fragment) ∧ fragment.condition = type := by
  rw [forType_ofDocument, (onType_perm type doc.fragments).mem_iff, List.mem_filter, beq_iff_eq,
    Document.mem_fragments]

theorem mem_typeNames :
    type ∈ (ofDocument doc).typeNames ↔ (ofDocument doc).forType type ≠ [] := by
  rw [typeNames_ofDocument, mem_distinct, ← Document.fragments_conditions, List.mem_map]
  constructor
  · rintro ⟨⟨id, fragment⟩, member, rfl⟩
    exact List.ne_nil_of_mem (mem_forType.mpr ⟨Document.mem_fragments.mp member, rfl⟩)
  · intro some
    rcases List.exists_mem_of_ne_nil _ some with ⟨⟨id, fragment⟩, member⟩
    rcases mem_forType.mp member with ⟨there, rfl⟩
    exact ⟨(id, fragment), Document.mem_fragments.mpr there, rfl⟩

theorem forType_listed (doc : Document) (type : String) :
    ((ofDocument doc).forType type).Pairwise ListedBefore := by
  rw [forType_ofDocument]
  exact onType_listed doc.fragments_ordered type

def all (index : FragmentIndex) : List (DefinitionId × Fragment) :=
  index.typeNames.flatMap index.forType

theorem mem_all {id : DefinitionId} {fragment : Fragment} :
    (id, fragment) ∈ (ofDocument doc).all ↔ doc.definition? id = some (.fragment fragment) := by
  rw [all, List.mem_flatMap]
  constructor
  · rintro ⟨type, -, member⟩
    exact (mem_forType.mp member).1
  · intro there
    have member := mem_forType.mpr ⟨there, rfl⟩
    exact ⟨fragment.condition, mem_typeNames.mpr (List.ne_nil_of_mem member), member⟩

theorem nodup_all (doc : Document) : (ofDocument doc).all.Nodup := by
  rw [all, List.Nodup, List.pairwise_flatMap]
  constructor
  · intro type _
    exact (forType_listed doc type).imp ListedBefore.ne
  · rw [typeNames_ofDocument]
    refine (nodup_distinct doc.fragmentTypes).imp ?_
    rintro first second apart ⟨id, fragment⟩ member other same rfl
    exact apart ((mem_forType.mp member).2.symm.trans (mem_forType.mp same).2)

theorem isEmpty_ofDocument : (ofDocument doc).isEmpty = true ↔
    ¬ ∃ id fragment, doc.definition? id = some (.fragment fragment) := by
  have names : (ofDocument doc).isEmpty = true ↔ (ofDocument doc).typeNames = [] := by
    rw [isEmpty, List.isEmpty_iff, typeNames, List.map_eq_nil_iff]
  rw [names, List.eq_nil_iff_forall_not_mem]
  constructor
  · rintro none ⟨id, fragment, there⟩
    rcases List.mem_flatMap.mp (mem_all.mpr there) with ⟨type, named, -⟩
    exact none type named
  · intro none type named
    rcases List.exists_mem_of_ne_nil _ (mem_typeNames.mp named) with ⟨⟨id, fragment⟩, member⟩
    exact none ⟨id, fragment, (mem_forType.mp member).1⟩

/-- The fragments on a type are exactly those of the document that apply to it, in the order of their names
and then of the document, under the positions where they stand. Type by type each fragment of the document
is there once; a type is named once, where its first fragment comes, and only if a fragment applies to it. -/
theorem ofDocument_lossless (doc : Document) :
    (∀ type,
      (∀ id fragment, (id, fragment) ∈ (ofDocument doc).forType type ↔
        doc.definition? id = some (.fragment fragment) ∧ fragment.condition = type) ∧
      ((ofDocument doc).forType type).Pairwise ListedBefore) ∧
    ((ofDocument doc).all.Nodup ∧ ∀ id fragment,
      (id, fragment) ∈ (ofDocument doc).all ↔ doc.definition? id = some (.fragment fragment)) ∧
    ((ofDocument doc).typeNames.Nodup ∧
      (ofDocument doc).typeNames.Pairwise (fun first second =>
        doc.fragmentTypes.idxOf first < doc.fragmentTypes.idxOf second) ∧
      ∀ type, type ∈ (ofDocument doc).typeNames ↔ (ofDocument doc).forType type ≠ []) ∧
    ((ofDocument doc).isEmpty = true ↔
      ¬ ∃ id fragment, doc.definition? id = some (.fragment fragment)) := by
  refine ⟨fun type => ⟨fun _ _ => mem_forType, forType_listed doc type⟩,
    ⟨nodup_all doc, fun _ _ => mem_all⟩, ⟨?_, ?_, fun _ => mem_typeNames⟩, isEmpty_ofDocument⟩
  · rw [typeNames_ofDocument]
    exact nodup_distinct doc.fragmentTypes
  · rw [typeNames_ofDocument]
    exact distinct_ordered doc.fragmentTypes

end Listed

end FragmentIndex

end QueryEditor

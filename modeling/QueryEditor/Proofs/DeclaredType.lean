import QueryEditor.Proofs.Document.WellFormed
import QueryEditor.Schema.DeclaredType

namespace QueryEditor

namespace TypeRef

theorem nullable_isRegular {type : TypeRef} (regular : type.isRegular = true) :
    type.nullable.isRegular = true := by
  cases type with
  | nonNull type =>
    rw [isRegular, Bool.and_eq_true] at regular
    exact regular.2
  | _ => exact regular

theorem nullable_innermost (type : TypeRef) : type.nullable.innermost = type.innermost := by
  cases type <;> rfl

end TypeRef

namespace DeclaredType

section Marked

theorem marked_innermost (nullable : Bool) (type : TypeRef) :
    (marked nullable type).innermost = type.innermost := by
  cases nullable <;> rfl

theorem marked_depth (nullable : Bool) (type : TypeRef) : (marked nullable type).depth = type.depth := by
  cases nullable <;> rfl

theorem marked_print (nullable : Bool) (type : TypeRef) :
    (marked nullable type).print = type.print ++ (if nullable then "" else "!") := by
  cases nullable <;> simp [marked, TypeRef.print]

theorem marked_isRegular {nullable : Bool} {type : TypeRef} :
    (marked nullable type).isRegular = true ↔
      type.isRegular = true ∧ (nullable = false → type.isNonNull = false) := by
  cases nullable <;> simp [marked, TypeRef.isRegular, and_comm]

end Marked

def depth : DeclaredType → Nat
  | named _ _ => 0
  | list item _ => item.depth + 1

section ToTypeRef

theorem toTypeRef_marked (declared : DeclaredType) :
    marked declared.nullable declared.toTypeRef.nullable = declared.toTypeRef ∧
      declared.toTypeRef.nullable.isNonNull = false := by
  cases declared with
  | named name nullable => cases nullable <;> exact ⟨rfl, rfl⟩
  | list item nullable => cases nullable <;> exact ⟨rfl, rfl⟩

theorem toTypeRef_isNonNull (declared : DeclaredType) :
    declared.toTypeRef.isNonNull = !declared.nullable := by
  cases declared with
  | named name nullable => cases nullable <;> rfl
  | list item nullable => cases nullable <;> rfl

theorem toTypeRef_isRegular (declared : DeclaredType) : declared.toTypeRef.isRegular = true := by
  induction declared with
  | named name nullable => exact marked_isRegular.mpr ⟨rfl, fun _ => rfl⟩
  | list item nullable ih => exact marked_isRegular.mpr ⟨ih, fun _ => rfl⟩

theorem toTypeRef_innermost (declared : DeclaredType) :
    declared.toTypeRef.innermost = declared.typeName := by
  induction declared with
  | named name nullable => exact marked_innermost nullable _
  | list item nullable ih => exact (marked_innermost nullable _).trans ih

theorem toTypeRef_depth (declared : DeclaredType) : declared.toTypeRef.depth = declared.depth := by
  induction declared with
  | named name nullable => exact marked_depth nullable _
  | list item nullable ih => exact (marked_depth nullable _).trans (congrArg Nat.succ ih)

theorem toTypeRef_print (declared : DeclaredType) : declared.toTypeRef.print = declared.print := by
  induction declared with
  | named name nullable => exact marked_print nullable _
  | list item nullable ih => rw [toTypeRef, marked_print, TypeRef.print, ih, print]

end ToTypeRef

/-- A type is written with a mark around each level that may not be null, and with none elsewhere. -/
inductive WrittenAs : DeclaredType → TypeRef → Prop
  | named (name : String) : WrittenAs (named name true) (.named name)
  | list {item : DeclaredType} {type : TypeRef} (inside : WrittenAs item type) :
      WrittenAs (list item true) (.list type)
  | namedNonNull (name : String) : WrittenAs (named name false) (.nonNull (.named name))
  | listNonNull {item : DeclaredType} {type : TypeRef} (inside : WrittenAs item type) :
      WrittenAs (list item false) (.nonNull (.list type))

/-- The type that may be null at the outermost level, and is the same inside. -/
def orNull : DeclaredType → DeclaredType
  | named name _ => named name true
  | list item _ => list item true

section Written

theorem writtenAs_iff {declared : DeclaredType} {type : TypeRef} :
    declared.WrittenAs type ↔ type = declared.toTypeRef := by
  constructor
  · intro written
    induction written with
    | named name => rfl
    | list inside ih => rw [ih]; rfl
    | namedNonNull name => rfl
    | listNonNull inside ih => rw [ih]; rfl
  · rintro rfl
    induction declared with
    | named name nullable =>
      cases nullable with
      | false => exact .namedNonNull name
      | true => exact .named name
    | list item nullable inside =>
      cases nullable with
      | false => exact .listNonNull inside
      | true => exact .list inside

theorem toTypeRef_orNull (declared : DeclaredType) :
    declared.orNull.toTypeRef = declared.toTypeRef.nullable := by
  cases declared with
  | named name nullable => cases nullable <;> rfl
  | list item nullable => cases nullable <;> rfl

end Written

section OfTypeRef

theorem ofTypeRef_marked (nullable : Bool) (type : TypeRef) :
    ofTypeRef true (marked nullable type) = ofTypeRef nullable type := by
  cases nullable <;> rfl

theorem ofTypeRef_toTypeRef (declared : DeclaredType) : ofTypeRef true declared.toTypeRef = declared := by
  induction declared with
  | named name nullable => exact ofTypeRef_marked nullable _
  | list item nullable ih =>
    rw [toTypeRef, ofTypeRef_marked, ofTypeRef, ih]

/-- Nothing of a type that marks no level twice is lost. -/
theorem toTypeRef_ofTypeRef {nullable : Bool} {type : TypeRef}
    (regular : (marked nullable type).isRegular = true) :
    (ofTypeRef nullable type).toTypeRef = marked nullable type := by
  induction type generalizing nullable with
  | named name => rfl
  | list item ih =>
    have inside : (marked true item).isRegular = true := (marked_isRegular.mp regular).1
    rw [ofTypeRef, toTypeRef, ih inside]
    rfl
  | nonNull type ih =>
    have outside := (marked_isRegular.mp regular).2
    cases nullable with
    | false => cases outside rfl
    | true => exact ih regular

end OfTypeRef

end DeclaredType

end QueryEditor

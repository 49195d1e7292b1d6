import QueryEditor.Named
import QueryEditor.Binary64.Basic

namespace QueryEditor

inductive Value where
  | null
  | boolean (truth : Bool)
  | int (number : Int64)
  | float (number : Binary64)
  | string (content : String)
  | enum (name : String)
  | variable (name : String)
  | list (items : List Value)
  | object (fields : List (Named Value))

abbrev Slot := Named Value

namespace Value

instance : Inhabited Value := ⟨null⟩

def isNull : Value → Bool
  | null => true
  | _ => false

def variableName? : Value → Option String
  | .variable name => some name
  | _ => none

def objectFields? : Value → Option (List Slot)
  | object fields => some fields
  | _ => none

mutual

def mentioned : Value → List String
  | .variable name => [name]
  | list items => mentionedByItems items
  | object fields => mentionedBySlots fields
  | _ => []

def mentionedByItems : List Value → List String
  | [] => []
  | item :: rest => mentioned item ++ mentionedByItems rest

def mentionedBySlots : List Slot → List String
  | [] => []
  | ⟨_, value⟩ :: rest => mentioned value ++ mentionedBySlots rest

end

mutual

/-- Puts a value in the place of each variable. What is put in is not searched again. -/
def substitute (replacement : String → Value) : Value → Value
  | .variable name => replacement name
  | list items => list (substituteItems replacement items)
  | object fields => object (substituteSlots replacement fields)
  | other => other

def substituteItems (replacement : String → Value) : List Value → List Value
  | [] => []
  | item :: rest => substitute replacement item :: substituteItems replacement rest

def substituteSlots (replacement : String → Value) : List Slot → List Slot
  | [] => []
  | ⟨name, value⟩ :: rest =>
    ⟨name, substitute replacement value⟩ :: substituteSlots replacement rest

end

mutual

def same : Value → Value → Bool
  | null, null => true
  | boolean a, boolean b => a == b
  | int a, int b => a == b
  | float a, float b => a == b
  | string a, string b => a == b
  | .enum a, .enum b => a == b
  | .variable a, .variable b => a == b
  | list a, list b => sameItems a b
  | object a, object b => sameSlots a b
  | _, _ => false

def sameItems : List Value → List Value → Bool
  | [], [] => true
  | a :: as, b :: bs => same a b && sameItems as bs
  | _, _ => false

def sameSlots : List Slot → List Slot → Bool
  | [], [] => true
  | ⟨n, a⟩ :: as, ⟨m, b⟩ :: bs => n == m && same a b && sameSlots as bs
  | _, _ => false

end

mutual

theorem same_iff (a b : Value) : same a b = true ↔ a = b := by
  cases a <;> cases b <;> simp [same]
  case list.list as bs => exact sameItems_iff as bs
  case object.object as bs => exact sameSlots_iff as bs

theorem sameItems_iff (as bs : List Value) : sameItems as bs = true ↔ as = bs := by
  match as, bs with
  | [], [] => simp [sameItems]
  | [], b :: bs => simp [sameItems]
  | a :: as, [] => simp [sameItems]
  | a :: as, b :: bs => simp [sameItems, same_iff a b, sameItems_iff as bs]

theorem sameSlots_iff (as bs : List Slot) : sameSlots as bs = true ↔ as = bs := by
  match as, bs with
  | [], [] => simp [sameSlots]
  | [], b :: bs => simp [sameSlots]
  | a :: as, [] => simp [sameSlots]
  | ⟨n, a⟩ :: as, ⟨m, b⟩ :: bs =>
    simp [sameSlots, same_iff a b, sameSlots_iff as bs]

end

instance : DecidableEq Value := fun a b => decidable_of_iff _ (same_iff a b)

end Value

end QueryEditor

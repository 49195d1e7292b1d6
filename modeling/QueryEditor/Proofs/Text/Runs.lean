import QueryEditor.Text.Name

namespace QueryEditor.Text

def startsIn (p : Char → Bool) : List Char → Bool
  | [] => false
  | c :: _ => p c

@[simp] theorem startsIn_nil (p : Char → Bool) : startsIn p [] = false := rfl

@[simp] theorem startsIn_cons (p : Char → Bool) (c : Char) (rest : List Char) :
    startsIn p (c :: rest) = p c := rfl

theorem exists_cons_of_startsIn {p : Char → Bool} {text : List Char} (starts : startsIn p text = true) :
    ∃ c rest, text = c :: rest ∧ p c = true := by
  cases text with
  | nil => cases starts
  | cons c rest => exact ⟨c, rest, rfl, starts⟩

theorem takeWhile_run {p : Char → Bool} {run rest : List Char} (inside : run.all p = true)
    (ends : startsIn p rest = false) : (run ++ rest).takeWhile p = run := by
  rw [List.takeWhile_append_of_pos (List.all_eq_true.mp inside)]
  cases rest with
  | nil => rw [List.takeWhile_nil, List.append_nil]
  | cons c rest =>
    have first : p c = false := ends
    rw [List.takeWhile_cons, if_neg (by simp [first]), List.append_nil]

theorem dropWhile_run {p : Char → Bool} {run rest : List Char} (inside : run.all p = true)
    (ends : startsIn p rest = false) : (run ++ rest).dropWhile p = rest := by
  rw [List.dropWhile_append_of_pos (List.all_eq_true.mp inside)]
  cases rest with
  | nil => rfl
  | cons c rest =>
    have first : p c = false := ends
    rw [List.dropWhile_cons, if_neg (by simp [first])]

/-- A text that does not go on in the class lengthens no run. -/
theorem takeWhile_stopped {p : Char → Bool} {stop : List Char} (stops : startsIn p stop = false)
    (text : List Char) : (text ++ stop).takeWhile p = text.takeWhile p := by
  induction text with
  | nil => exact takeWhile_run List.all_nil stops
  | cons c rest ih => rw [List.cons_append, List.takeWhile_cons, List.takeWhile_cons, ih]

theorem dropWhile_stopped {p : Char → Bool} {stop : List Char} (stops : startsIn p stop = false)
    (text : List Char) : (text ++ stop).dropWhile p = text.dropWhile p ++ stop := by
  induction text with
  | nil => exact dropWhile_run List.all_nil stops
  | cons c rest ih =>
    rw [List.cons_append, List.dropWhile_cons, List.dropWhile_cons, ih]
    split <;> rfl

theorem startsIn_mono {p q : Char → Bool} (wider : ∀ c, p c = true → q c = true) {text : List Char}
    (ends : startsIn q text = false) : startsIn p text = false := by
  cases text with
  | nil => rfl
  | cons c rest =>
    simp only [startsIn_cons] at ends ⊢
    cases first : p c with
    | false => rfl
    | true => rw [wider c first] at ends; exact ends

theorem isNamePart_of_isDigit {c : Char} (digit : isDigit c = true) : isNamePart c = true := by
  simp [isNamePart, digit]

theorem isName_iff (text : String) :
    isName text = true ↔ ∃ c rest, text.toList = c :: rest ∧ isNameStart c = true ∧
      rest.all isNamePart = true := by
  unfold isName
  cases text.toList with
  | nil => simp
  | cons c rest =>
    rw [Bool.and_eq_true]
    constructor
    · intro parts
      exact ⟨c, rest, rfl, parts⟩
    · rintro ⟨_, _, same, parts⟩
      cases same
      exact parts

theorem isName_append {text suffix : String} (name : isName text = true)
    (parts : suffix.toList.all isNamePart = true) : isName (text ++ suffix) = true := by
  obtain ⟨c, rest, whole, start, inside⟩ := (isName_iff text).mp name
  rw [isName_iff]
  refine ⟨c, rest ++ suffix.toList, ?_, start, ?_⟩
  · rw [String.toList_append, whole, List.cons_append]
  · rw [List.all_append, inside, parts, Bool.and_self]

end QueryEditor.Text

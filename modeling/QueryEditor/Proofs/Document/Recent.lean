import QueryEditor.Document.Recent
import QueryEditor.Proofs.Document.Image

namespace QueryEditor

open Text

theorem Document.standard_grammatical :
    Document.standard.all (.grammatical fun _ => true) = true := by
  decide

namespace RecentDocument

/-- The document that is kept for a text is what the text parses to. -/
def Coherent (recent : RecentDocument) : Prop :=
  ∀ text doc, recent.entry = some (text, doc) → Document.parse text = .ok doc

theorem coherent_empty : Coherent {} := nofun

theorem coherent_some {text : String} {doc : Document} (parsed : Document.parse text = .ok doc) :
    Coherent ⟨some (text, doc)⟩ := by
  intro text' doc' same
  cases same
  exact parsed

variable {recent : RecentDocument} {text : String} {doc : Document}

theorem Coherent.text?_ne (coherent : recent.Coherent)
    (unparsed : ∀ doc, Document.parse text ≠ .ok doc) : recent.text? ≠ some text := by
  intro remembered
  obtain ⟨⟨text', doc⟩, there, same⟩ := Option.map_eq_some_iff.mp remembered
  cases same
  exact unparsed doc (coherent _ doc there)

theorem Coherent.read_parsed (coherent : recent.Coherent) (parsed : Document.parse text = .ok doc) :
    recent.read text = (doc, ⟨some (text, doc)⟩) := by
  unfold read
  by_cases remembered : recent.text? = some text
  · rw [if_pos remembered]
    obtain ⟨⟨text', doc'⟩, there, same⟩ := Option.map_eq_some_iff.mp remembered
    cases same
    have same := coherent _ doc' there
    rw [parsed] at same
    cases same
    obtain ⟨entry⟩ := recent
    cases there
    rfl
  · rw [if_neg remembered, (Document.parse_ok.mp parsed).1, parsed]
    rfl

theorem Coherent.read_blank (coherent : recent.Coherent) (blank : allBlank text = true) :
    recent.read text = (.standard, recent) := by
  have unparsed : ∀ doc, Document.parse text ≠ .ok doc := fun doc parsed => by
    rw [(Document.parse_ok.mp parsed).1] at blank
    cases blank
  rw [read, if_neg (coherent.text?_ne unparsed), if_pos blank]

/-- A text that does not parse stands for the document that was last read from one that did. -/
theorem Coherent.read_unparsed (coherent : recent.Coherent) (typed : allBlank text = false)
    (unparsed : ∀ doc, Document.parse text ≠ .ok doc) :
    recent.read text = (recent.fallback, recent) := by
  rw [read, if_neg (coherent.text?_ne unparsed), if_neg (by simp [typed])]
  cases parsed : Document.parse text with
  | error cause => rfl
  | ok doc => exact absurd parsed (unparsed doc)

theorem parsed_or_not (text : String) :
    (∃ doc, Document.parse text = .ok doc) ∨ ∀ doc, Document.parse text ≠ .ok doc := by
  cases Document.parse text with
  | ok doc => exact Or.inl ⟨doc, rfl⟩
  | error cause => exact Or.inr nofun

theorem Coherent.read_cases (coherent : recent.Coherent) (text : String) :
    (∃ doc, Document.parse text = .ok doc ∧ recent.read text = (doc, ⟨some (text, doc)⟩)) ∨
    (allBlank text = true ∧ recent.read text = (.standard, recent)) ∨
    (allBlank text = false ∧ recent.read text = (recent.fallback, recent)) := by
  rcases parsed_or_not text with ⟨doc, parsed⟩ | unparsed
  · exact Or.inl ⟨doc, parsed, coherent.read_parsed parsed⟩
  · cases blank : allBlank text with
    | true => exact Or.inr (Or.inl ⟨rfl, coherent.read_blank blank⟩)
    | false => exact Or.inr (Or.inr ⟨rfl, coherent.read_unparsed blank unparsed⟩)

theorem Coherent.read (coherent : recent.Coherent) (text : String) :
    (recent.read text).2.Coherent := by
  rcases coherent.read_cases text with ⟨doc, parsed, same⟩ | ⟨_, same⟩ | ⟨_, same⟩
  · rw [same]
    exact coherent_some parsed
  · rw [same]
    exact coherent
  · rw [same]
    exact coherent

theorem read_again (recent : RecentDocument) (text : String) :
    (recent.read text).2.read text = recent.read text := by
  have settled : (recent.read text).2 = recent ∨
      ∃ doc, recent.read text = (doc, ⟨some (text, doc)⟩) := by
    unfold read
    split
    · exact Or.inl rfl
    · split
      · exact Or.inl rfl
      · split
        · exact Or.inr ⟨_, rfl⟩
        · exact Or.inl rfl
  rcases settled with same | ⟨doc, same⟩
  · rw [same]
  · rw [same]
    exact if_pos rfl

theorem Coherent.fallback_read (coherent : recent.Coherent) (typed : allBlank text = false) :
    (recent.read text).2.fallback = (recent.read text).1 := by
  rcases coherent.read_cases text with ⟨doc, _, same⟩ | ⟨blank, _⟩ | ⟨_, same⟩
  · rw [same]
    rfl
  · rw [typed] at blank
    cases blank
  · rw [same]

/-- Whichever document a text stands for, all that it can lack of being well formed is that its
floats are finite. -/
theorem Coherent.read_grammatical (coherent : recent.Coherent) (text : String) :
    (recent.read text).1.all (.grammatical fun _ => true) = true := by
  rcases coherent.read_cases text with ⟨doc, parsed, same⟩ | ⟨_, same⟩ | ⟨_, same⟩
  · rw [same]
    exact (Document.parse_grammatical parsed).2.1
  · rw [same]
    exact Document.standard_grammatical
  · rw [same, fallback]
    split
    case h_1 text' doc there => exact (Document.parse_grammatical (coherent text' doc there)).2.1
    · exact Document.standard_grammatical

end RecentDocument

end QueryEditor

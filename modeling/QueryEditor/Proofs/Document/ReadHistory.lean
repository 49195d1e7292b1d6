import Mathlib.Data.List.Induction
import QueryEditor.Proofs.Document.Recent

namespace QueryEditor

open Text

def Document.parsed? (text : String) : Option (String × Document) :=
  match parse text with
  | .ok doc => some (text, doc)
  | .error _ => none

namespace RecentDocument

inductive Request where
  | read (text : String)
  | forget
  deriving DecidableEq

def Request.text? : Request → Option String
  | read text => some text
  | forget => none

def after (recent : RecentDocument) : Request → RecentDocument
  | .read text => (recent.read text).2
  | .forget => recent.forget

def afterAll (history : List Request) : RecentDocument :=
  history.foldl after {}

def textsRead (history : List Request) : List String :=
  (history.reverse.takeWhile (·.text?.isSome)).filterMap (·.text?)

def lastParsed? (history : List Request) : Option (String × Document) :=
  (textsRead history).findSome? Document.parsed?

/-- The document that a text stands for after a history, told from the texts alone. -/
def shown (history : List Request) (text : String) : Document :=
  match Document.parse text with
  | .ok doc => doc
  | .error _ =>
    if allBlank text then .standard else ((lastParsed? history).map (·.2)).getD .standard

/-- Whether a request can matter for what is read later. -/
def Request.matters : Request → Bool
  | .read text => (Document.parsed? text).isSome
  | .forget => true

theorem lastParsed?_read (history : List Request) (text : String) :
    lastParsed? (history ++ [.read text]) = (Document.parsed? text).or (lastParsed? history) := by
  have latest : textsRead (history ++ [.read text]) = text :: textsRead history := by
    simp [textsRead, Request.text?]
  rw [lastParsed?, latest, List.findSome?_cons]
  cases Document.parsed? text <;> rfl

theorem lastParsed?_forget (history : List Request) :
    lastParsed? (history ++ [.forget]) = none := by
  have nothing : textsRead (history ++ [.forget]) = [] := by
    simp [textsRead, Request.text?]
  rw [lastParsed?, nothing]
  rfl

theorem Coherent.entry_read {recent : RecentDocument} (coherent : recent.Coherent) (text : String) :
    (recent.read text).2.entry = (Document.parsed? text).or recent.entry := by
  unfold Document.parsed?
  rcases parsed_or_not text with ⟨doc, parsed⟩ | unparsed
  · rw [coherent.read_parsed parsed, parsed]
    rfl
  · have kept : (recent.read text).2 = recent := by
      cases blank : allBlank text with
      | true => rw [coherent.read_blank blank]
      | false => rw [coherent.read_unparsed blank unparsed]
    rw [kept]
    cases parsed : Document.parse text with
    | ok doc => exact absurd parsed (unparsed doc)
    | error cause => rfl

theorem afterAll_append (history : List Request) (request : Request) :
    afterAll (history ++ [request]) = (afterAll history).after request := by
  simp [afterAll]

theorem afterAll_coherent (history : List Request) : (afterAll history).Coherent := by
  induction history using List.reverseRecOn with
  | nil => exact coherent_empty
  | append_singleton history request ih =>
    rw [afterAll_append]
    cases request with
    | read text => exact ih.read text
    | forget => exact coherent_empty

/-- What is remembered is the last text that parsed. -/
theorem entry_afterAll (history : List Request) :
    (afterAll history).entry = lastParsed? history := by
  induction history using List.reverseRecOn with
  | nil => rfl
  | append_singleton history request ih =>
    rw [afterAll_append]
    cases request with
    | read text =>
      rw [lastParsed?_read, ← ih]
      exact (afterAll_coherent history).entry_read text
    | forget =>
      rw [lastParsed?_forget]
      rfl

theorem fallback_eq (recent : RecentDocument) :
    recent.fallback = (recent.entry.map (·.2)).getD .standard := by
  unfold fallback
  cases recent.entry <;> rfl

theorem read_afterAll (history : List Request) (text : String) :
    ((afterAll history).read text).1 = shown history text := by
  have coherent := afterAll_coherent history
  unfold shown
  rcases parsed_or_not text with ⟨doc, parsed⟩ | unparsed
  · rw [coherent.read_parsed parsed, parsed]
  · cases parsed : Document.parse text with
    | ok doc => exact absurd parsed (unparsed doc)
    | error cause =>
      cases blank : allBlank text with
      | true =>
        rw [coherent.read_blank blank]
        rfl
      | false =>
        rw [coherent.read_unparsed blank unparsed]
        show (afterAll history).fallback = _
        rw [fallback_eq, entry_afterAll]
        rfl

theorem after_of_not_matters {recent : RecentDocument} (coherent : recent.Coherent)
    {request : Request} (idle : request.matters = false) : recent.after request = recent := by
  cases request with
  | forget => cases idle
  | read text =>
    have unparsed : Document.parsed? text = none := by
      simpa [Request.matters] using idle
    have kept := coherent.entry_read text
    rw [unparsed, Option.none_or] at kept
    exact congrArg RecentDocument.mk kept

theorem afterAll_filter (history : List Request) :
    afterAll (history.filter Request.matters) = afterAll history := by
  induction history using List.reverseRecOn with
  | nil => rfl
  | append_singleton history request ih =>
    rw [List.filter_append, afterAll_append]
    cases idle : request.matters with
    | true =>
      rw [List.filter_cons_of_pos idle, List.filter_nil, afterAll_append, ih]
    | false =>
      rw [List.filter_cons_of_neg (by simp [idle]), List.filter_nil, List.append_nil, ih,
        after_of_not_matters (afterAll_coherent history) idle]

/-- Whatever was read and forgotten before, a text stands for what it parses to; a blank text for the
standard document; any other text for the last document that parsed. What is remembered is the last
text that parsed, and texts that do not parse might as well not have been read. -/
theorem history_transparent (history : List Request) :
    (∀ text, ((afterAll history).read text).1 = shown history text) ∧
    (afterAll history).text? = (lastParsed? history).map (·.1) ∧
    afterAll (history.filter Request.matters) = afterAll history := by
  refine ⟨read_afterAll history, ?_, afterAll_filter history⟩
  rw [text?, entry_afterAll]

example : shown [.read "\x7b a \x7d", .read "\x7b b", .read " "] "\x7b c" =
    ⟨[.operation { kind := .query, selections := [.leaf "a"] }]⟩ := by
  decide +kernel

end RecentDocument

end QueryEditor

import Mathlib.Logic.Relation

/-!
# Backtracking searches

A search is a state with the choices it kept, the latest first. A failed state resumes the
latest choice, and a search with no choice left is over (`none`).

`Enumerates` says that a search shows a list of results, one after the other, above the choices that
were there before (`base`), and resumes those choices when its own are used up. It composes like
the lists do:

* `Enumerates.append` where one search is the latest choice of another;
* `Enumerates.bind` where every result is searched further;
* `Enumerates.reaches_first` for what a search shows first.
-/

namespace Oseo.Library

variable {σ α β : Type*} {Move : σ × List σ → Option (σ × List σ) → Prop}
variable {Shows : α → σ → Prop} {base choices : List σ} {config config' : Option (σ × List σ)}

/-- The latest choice taken up again. -/
def resume : List σ → Option (σ × List σ)
  | [] => none
  | state :: choices => some (state, choices)

/-- A search goes from one configuration to another in some moves. -/
abbrev Proceeds (Move : σ × List σ → Option (σ × List σ) → Prop) :
    Option (σ × List σ) → Option (σ × List σ) → Prop :=
  Relation.ReflTransGen fun config next => ∃ running, config = some running ∧ Move running next

lemma Proceeds.move {running : σ × List σ} (h : Move running config) :
    Proceeds Move (some running) config :=
  Relation.ReflTransGen.single ⟨running, rfl, h⟩

lemma Proceeds.mono {Move' : σ × List σ → Option (σ × List σ) → Prop}
    (h : Proceeds Move config config')
    (weaker : ∀ running next, Move running next → Move' running next) :
    Proceeds Move' config config' :=
  Relation.ReflTransGen.mono (fun _ next ⟨running, heq, move⟩ =>
    ⟨running, heq, weaker running next move⟩) _ _ h

/-- The search shows the results in order, then resumes `base`. -/
inductive Enumerates (Move : σ × List σ → Option (σ × List σ) → Prop) (Shows : α → σ → Prop)
    (base : List σ) : List α → Option (σ × List σ) → Prop
  | nil {config : Option (σ × List σ)} (proceeds : Proceeds Move config (resume base)) :
    Enumerates Move Shows base [] config
  | cons {config : Option (σ × List σ)} {result : α} {results : List α} {state : σ}
    (choices : List σ) (proceeds : Proceeds Move config (some (state, choices ++ base)))
    (shows_ : Shows result state) (rest : Enumerates Move Shows base results (resume (choices ++ base))) :
    Enumerates Move Shows base (result :: results) config

namespace Enumerates

/-- A search that is resumed and nothing else. -/
lemma exhausted : Enumerates Move Shows base [] (resume base) := .nil .refl

lemma single {result : α} {state : σ} (shows_ : Shows result state) :
    Enumerates Move Shows base [result] (some (state, base)) :=
  .cons [] .refl shows_ exhausted

lemma of_proceeds {results : List α} (h : Enumerates Move Shows base results config')
    (proceeds : Proceeds Move config config') : Enumerates Move Shows base results config := by
  cases h with
  | nil last => exact .nil (proceeds.trans last)
  | cons choices last shows_ rest => exact .cons choices (proceeds.trans last) shows_ rest

lemma of_move {results : List α} {running : σ × List σ}
    (h : Enumerates Move Shows base results config) (move : Move running config) :
    Enumerates Move Shows base results (some running) :=
  h.of_proceeds (Proceeds.move move)

/-- A search whose moves are moves of another kind as well. -/
lemma mono {Move' : σ × List σ → Option (σ × List σ) → Prop} {results : List α}
    (h : Enumerates Move Shows base results config)
    (weaker : ∀ running next, Move running next → Move' running next) :
    Enumerates Move' Shows base results config := by
  induction h with
  | nil proceeds => exact .nil (proceeds.mono weaker)
  | cons choices proceeds shows_ rest ih => exact .cons choices (proceeds.mono weaker) shows_ ih

/-- Results that show something else as well. -/
lemma weaken {Shows' : α → σ → Prop} {results : List α}
    (h : Enumerates Move Shows base results config)
    (weaker : ∀ result ∈ results, ∀ state, Shows result state → Shows' result state) :
    Enumerates Move Shows' base results config := by
  induction h with
  | nil proceeds => exact .nil proceeds
  | cons choices proceeds shows_ rest ih =>
    apply Enumerates.cons choices proceeds
    · exact weaker _ List.mem_cons_self _ shows_
    · exact ih fun result hmem => weaker result (List.mem_cons_of_mem _ hmem)

/-- A search whose choices end with another's: first its results, then those of the rest. -/
lemma continued {first second : List α} (choices : List σ)
    (h : Enumerates Move Shows (choices ++ base) first config)
    (next : Enumerates Move Shows base second (resume (choices ++ base))) :
    Enumerates Move Shows base (first ++ second) config := by
  induction h with
  | nil proceeds => exact next.of_proceeds proceeds
  | cons inner proceeds shows_ rest ih =>
    apply Enumerates.cons (inner ++ choices)
    · rw [List.append_assoc]
      exact proceeds
    · exact shows_
    · rw [List.append_assoc]
      exact ih

/-- A search above a latest choice, then that choice. -/
theorem append {first second : List α} {choice : σ}
    (h : Enumerates Move Shows (choice :: base) first config)
    (next : Enumerates Move Shows base second (some (choice, base))) :
    Enumerates Move Shows base (first ++ second) config :=
  h.continued [choice] next

/-- Every result of a search is searched further, whatever choices are left by then. -/
theorem bind {Shows' : β → σ → Prop} {results : List α} {f : α → List β}
    (h : Enumerates Move Shows base results config)
    (next : ∀ result ∈ results, ∀ state choices, Shows result state →
      Enumerates Move Shows' (choices ++ base) (f result) (some (state, choices ++ base))) :
    Enumerates Move Shows' base (results.flatMap f) config := by
  induction h with
  | nil proceeds => exact .nil proceeds
  | cons choices proceeds shows_ rest ih =>
    rw [List.flatMap_cons]
    apply continued choices
    · exact (next _ List.mem_cons_self _ _ shows_).of_proceeds proceeds
    · exact ih fun result hmem => next result (List.mem_cons_of_mem _ hmem)

/-- Every result of a search makes one more move, which keeps the choices. -/
theorem followed {Shows' : β → σ → Prop} {results : List α} {f : α → β}
    (h : Enumerates Move Shows base results config)
    (next : ∀ result ∈ results, ∀ state choices, Shows result state →
      ∃ state', Move (state, choices) (some (state', choices)) ∧ Shows' (f result) state') :
    Enumerates Move Shows' base (results.map f) config := by
  rw [List.map_eq_flatMap]
  apply h.bind
  intro result hmem state choices shows_
  obtain ⟨state', move, shows_'⟩ := next result hmem state (choices ++ base) shows_
  exact (single shows_').of_move move

/-- A search over nothing else shows its first result, or ends. -/
theorem reaches_first {results : List α} (h : Enumerates Move Shows [] results config) :
    (results = [] ∧ Proceeds Move config none) ∨
      ∃ result rest state choices, results = result :: rest ∧ Shows result state ∧
        Proceeds Move config (some (state, choices)) := by
  cases h with
  | nil proceeds => exact .inl ⟨rfl, proceeds⟩
  | cons choices proceeds shows_ rest =>
    exact .inr ⟨_, _, _, _, rfl, shows_, proceeds⟩

end Enumerates

end Oseo.Library

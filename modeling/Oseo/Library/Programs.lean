import Mathlib.Data.List.Basic

/-!
# Programs

* `Performs`: steps with an effect on a state, one after the other. The first step that ends
  abruptly is the last one that is made.
* `Ensures`: what holds of the value and of the state whenever a run that may fail ends normally,
  with one rule for each way programs are put together.
* `Dialogue`: programs that ask their surroundings for operations and go on with the answers. Two
  programs that are one dialogue ask for the same operations in the same order, whatever they are
  answered.
-/

namespace Oseo.Library

/-! ## Steps that may end abruptly -/

section

variable {World Abrupt Step Step' Value : Type*}

/-- The steps are made in order, from one state to another. -/
inductive Performs (perform : Step → World → Except Abrupt Value × World) :
    World → List Step → Except Abrupt Unit → World → Prop
  | nil (world : World) : Performs perform world [] (.ok ()) world
  | cons {step : Step} {steps : List Step} {value : Value} {world world' world'' : World}
    {outcome : Except Abrupt Unit} (made : perform step world = (.ok value, world'))
    (rest : Performs perform world' steps outcome world'') :
    Performs perform world (step :: steps) outcome world''
  | abrupt {step : Step} {reason : Abrupt} {world world' : World}
    (made : perform step world = (.error reason, world')) :
    Performs perform world [step] (.error reason) world'

namespace Performs

variable {perform : Step → World → Except Abrupt Value × World} {world world' world'' : World}
  {steps steps' : List Step} {outcome : Except Abrupt Unit}

/-- One step that ends normally. -/
lemma single {step : Step} {value : Value} (made : perform step world = (.ok value, world')) :
    Performs perform world [step] (.ok ()) world' :=
  .cons made (.nil world')

lemma append (h : Performs perform world steps (.ok ()) world')
    (h' : Performs perform world' steps' outcome world'') :
    Performs perform world (steps ++ steps') outcome world'' := by
  generalize hok : (.ok () : Except Abrupt Unit) = normal at h
  induction h with
  | nil world => exact h'
  | cons made rest ih => exact .cons made (ih h' hok)
  | abrupt made => cases hok

/-- Steps of another kind that do the same. -/
lemma map {perform' : Step' → World → Except Abrupt Unit × World} {f : Step → Step'}
    (h : Performs perform world steps outcome world')
    (same : ∀ step world, perform' (f step) world =
      ((perform step world).1.map fun _ => (), (perform step world).2)) :
    Performs perform' world (steps.map f) outcome world' := by
  induction h with
  | nil world => exact .nil world
  | cons made rest ih =>
    apply Performs.cons _ ih
    · exact ()
    · rw [same, made]
      rfl
  | abrupt made =>
    apply Performs.abrupt
    rw [same, made]
    rfl

end Performs

end

/-! ## Runs that may fail -/

section

universe u

variable {σ ε α β : Type u}

/-- Whenever the run ends normally, its value and its state are as stated. -/
structure Ensures (run : StateT σ (Except ε) α) (state : σ) (post : α → σ → Prop) : Prop where
  ends : ∀ value state', run state = .ok (value, state') → post value state'

namespace Ensures

variable {run : StateT σ (Except ε) α} {state state' : σ} {post post' : α → σ → Prop} {value : α}

lemma pure (h : post value state) :
    Ensures (Pure.pure value : StateT σ (Except ε) α) state post := by
  constructor
  intro value' state' hrun
  cases hrun
  exact h

lemma throw (error : ε) :
    Ensures (MonadExcept.throw error : StateT σ (Except ε) α) state post := by
  constructor
  intro value state' hrun
  cases hrun

/-- One program after the other. -/
lemma bind {next : α → StateT σ (Except ε) β} {last : β → σ → Prop} (h : Ensures run state post)
    (hnext : ∀ value state', post value state' → Ensures (next value) state' last) :
    Ensures (run >>= next) state last := by
  constructor
  intro value state' hrun
  change (do let (value, state) ← run state; next value state) = _ at hrun
  cases hfirst : run state with
  | error error =>
    rw [hfirst] at hrun
    cases hrun
  | ok result =>
    rw [hfirst] at hrun
    exact (hnext result.1 result.2 (h.ends result.1 result.2 hfirst)).ends value state' hrun

lemma mono (h : Ensures run state post) (himp : ∀ value state', post value state' → post' value state') :
    Ensures run state post' :=
  ⟨fun value state' hrun => himp value state' (h.ends value state' hrun)⟩

/-- The state is read first. -/
lemma get_bind {next : σ → StateT σ (Except ε) β} {last : β → σ → Prop}
    (h : Ensures (next state) state last) :
    Ensures ((MonadState.get : StateT σ (Except ε) σ) >>= next) state last :=
  ⟨h.ends⟩

/-- The state is replaced first. -/
lemma set_bind {next : PUnit → StateT σ (Except ε) β} {last : β → σ → Prop}
    (h : Ensures (next ⟨⟩) state' last) :
    Ensures ((MonadStateOf.set state' : StateT σ (Except ε) PUnit) >>= next) state last :=
  ⟨h.ends⟩

/-- The state is changed first. -/
lemma modify_bind {next : PUnit → StateT σ (Except ε) β} {last : β → σ → Prop} {f : σ → σ}
    (h : Ensures (next ⟨⟩) (f state) last) :
    Ensures ((modifyThe σ f : StateT σ (Except ε) PUnit) >>= next) state last :=
  ⟨h.ends⟩

/-- A choice. -/
lemma ite {condition : Prop} [Decidable condition] {run' : StateT σ (Except ε) α}
    (h : condition → Ensures run state post) (h' : ¬condition → Ensures run' state post) :
    Ensures (if condition then run else run') state post := by
  split
  · next hcondition => exact h hcondition
  · next hcondition => exact h' hcondition

/-- A check that ends in an error. -/
lemma check {condition : Prop} [Decidable condition] {error : ε}
    (h : ¬condition → Ensures run state post) :
    Ensures (if condition then MonadExcept.throw error else run) state post :=
  ite (fun _ => throw error) h

end Ensures

end

/-! ## Dialogues -/

/-- A program that asks for operations until it has a value. -/
inductive Dialogue (Operation Answer : Type) (α : Type)
  | done (value : α)
  | ask (operation : Operation) (next : Answer → Dialogue Operation Answer α)

namespace Dialogue

variable {Operation Answer α β σ : Type}

/-- One program after the other. -/
def andThen (f : α → Dialogue Operation Answer β) :
    Dialogue Operation Answer α → Dialogue Operation Answer β
  | done value => f value
  | ask operation next => ask operation fun answer => (next answer).andThen f

instance : Monad (Dialogue Operation Answer) where
  pure := done
  bind program f := program.andThen f

lemma ask_congr {operation : Operation} {next next' : Answer → Dialogue Operation Answer α}
    (h : ∀ answer, next answer = next' answer) : ask operation next = ask operation next' :=
  congrArg (ask operation) (funext h)

/-- Two ways to go on with an answer that is a value or an error. -/
lemma next_eq_iff {ε ρ : Type} {next next' : Except ε ρ → Dialogue Operation Answer α} :
    next = next' ↔ (∀ value, next (.ok value) = next' (.ok value)) ∧
      ∀ error, next (.error error) = next' (.error error) := by
  constructor
  · rintro rfl
    exact ⟨fun _ => rfl, fun _ => rfl⟩
  · rintro ⟨hok, herror⟩
    funext answer
    cases answer with
    | ok value => exact hok value
    | error error => exact herror error

lemma andThen_assoc {γ : Type} (program : Dialogue Operation Answer α)
    (f : α → Dialogue Operation Answer β) (g : β → Dialogue Operation Answer γ) :
    (program.andThen f).andThen g = program.andThen fun value => (f value).andThen g := by
  induction program with
  | done value => rfl
  | ask operation next ih => exact ask_congr ih

/-- Every operation is one that a protocol has a move for, and the program ends in a state of the
protocol that is as stated. -/
def Follows (moves : σ → Operation → σ → Prop) (ends : α → σ → Prop) :
    Dialogue Operation Answer α → σ → Prop
  | done value, state => ends value state
  | ask operation next, state =>
    ∃ state', moves state operation state' ∧ ∀ answer, (next answer).Follows moves ends state'

lemma follows_andThen {moves : σ → Operation → σ → Prop} {ends : β → σ → Prop} {state : σ}
    (program : Dialogue Operation Answer α) (f : α → Dialogue Operation Answer β) :
    (program.andThen f).Follows moves ends state ↔
      program.Follows moves (fun value => (f value).Follows moves ends) state := by
  induction program generalizing state with
  | done value => rfl
  | ask operation next ih =>
    exact exists_congr fun state' => and_congr_right fun _ => forall_congr' fun answer => ih answer

end Dialogue

end Oseo.Library

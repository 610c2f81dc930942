import Mathlib.Data.Nat.Notation
import Mathlib.Order.Notation

/-!
# Runs of a transition system

Finite runs of a system whose steps carry labels, and the rules by which an invariant goes
from one step to a whole run.

* `Steps` lists the labels in the order the steps were taken;
* `Steps.invariant` is for a property that may speak of the labels so far;
* `Steps.invariant_each` gives a fact about every label on the way;
* `Steps.trans` composes two runs;
* `whileLoop` is the loop of a program, given fuel.
-/

namespace Oseo.Library

open List

variable {σ ε : Type*} {step : σ → ε → σ → Prop} {s s' s'' : σ} {labels labels' : List ε}

/-- A run from `s`: the labels of its steps, and the state it ends in. -/
inductive Steps (step : σ → ε → σ → Prop) (s : σ) : List ε → σ → Prop
  | nil : Steps step s [] s
  | snoc {labels : List ε} {label : ε} {s' s'' : σ} (run : Steps step s labels s')
      (last : step s' label s'') : Steps step s (labels ++ [label]) s''

lemma Steps.single {label : ε} (h : step s label s') : Steps step s [label] s' :=
  Steps.nil.snoc h

theorem Steps.trans (h : Steps step s labels s') (h' : Steps step s' labels' s'') :
    Steps step s (labels ++ labels') s'' := by
  induction h' with
  | nil => rwa [append_nil]
  | snoc _ last ih =>
    rw [← append_assoc]
    exact ih.snoc last

/-- A property that one step keeps holds along every run. It may speak of the labels
before the run (`before`) and in it. -/
theorem Steps.invariant {I : List ε → σ → Prop} {before : List ε} (h : Steps step s labels s')
    (start : I before s)
    (keep : ∀ past s label s', I past s → step s label s' → I (past ++ [label]) s') :
    I (before ++ labels) s' := by
  induction h with
  | nil => rwa [append_nil]
  | snoc _ last ih =>
    rw [← append_assoc]
    exact keep _ _ _ _ ih last

/-- An invariant that gives a fact `P` about each label and the labels before it. -/
theorem Steps.invariant_each {I : List ε → σ → Prop} {P : List ε → ε → Prop}
    (h : Steps step s labels s') (start : I [] s)
    (keep : ∀ past s label s', I past s → step s label s' →
      P past label ∧ I (past ++ [label]) s') :
    I labels s' ∧ ∀ past label rest, labels = past ++ label :: rest → P past label := by
  induction h with
  | nil =>
    refine ⟨start, fun past label rest heq => ?_⟩
    simp at heq
  | snoc _ last ih =>
    obtain ⟨hP, hI⟩ := keep _ _ _ _ ih.1 last
    refine ⟨hI, fun past label rest heq => ?_⟩
    -- The label is the last one, or one of those before it.
    rcases eq_nil_or_concat rest with rfl | ⟨rest, label', rfl⟩
    · obtain ⟨rfl, hlabel⟩ := append_inj' heq rfl
      cases hlabel
      exact hP
    · rw [concat_eq_append, ← cons_append, ← append_assoc] at heq
      obtain ⟨heq, -⟩ := append_inj' heq rfl
      exact ih.2 past label rest heq

/-! ## Loops -/

section
variable {σ : Type*} {cond : σ → Bool} {body : σ → Option σ} {s s' : σ}

/-- `while (cond) body`, for at most `fuel` rounds. No result where the body throws. -/
def whileLoop (cond : σ → Bool) (body : σ → Option σ) : ℕ → σ → Option σ
  | 0, _ => none
  | fuel + 1, s => if cond s then (body s).bind (whileLoop cond body fuel) else some s

lemma whileLoop_go (hcond : cond s = true) (hbody : body s = some s') (fuel : ℕ) :
    whileLoop cond body (fuel + 1) s = whileLoop cond body fuel s' := by
  rw [whileLoop, if_pos hcond, hbody, Option.bind_some]

lemma whileLoop_stop (hcond : cond s = false) (fuel : ℕ) :
    whileLoop cond body (fuel + 1) s = some s := by
  rw [whileLoop, hcond]
  rfl

end

end Oseo.Library

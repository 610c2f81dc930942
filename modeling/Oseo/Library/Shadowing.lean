import Mathlib.Data.List.Basic

/-!
# Shadowed names

Entries that come level by level, each with a name, where an entry hides the later ones of its name
whether it shows itself or not.

* `unshadowed` lists the names of the entries that show, given the names `seen` before;
* `unshadowed_append` takes a level off, and `unshadowed_congr` only asks which names were seen.
-/

namespace Oseo.Library

open List

section
variable {α β : Type*} [DecidableEq α] (name : β → α) (isShown : β → Bool)

/-- The names of the entries that show and are not hidden. -/
def unshadowed : (entries : List β) → (seen : List α) → List α
  | [], _ => []
  | entry :: rest, seen =>
    if name entry ∈ seen then unshadowed rest seen
    else if isShown entry then name entry :: unshadowed rest (seen ++ [name entry])
    else unshadowed rest (seen ++ [name entry])

end

variable {α β : Type*} [DecidableEq α] {name : β → α} {isShown : β → Bool} {entries rest : List β}
  {seen seen' : List α}

/-- What was seen counts only by its names. -/
lemma unshadowed_congr (hseen : ∀ a, a ∈ seen ↔ a ∈ seen') :
    unshadowed name isShown entries seen = unshadowed name isShown entries seen' := by
  induction entries generalizing seen seen' with
  | nil => rfl
  | cons entry rest ih =>
    have hnext : ∀ a, a ∈ seen ++ [name entry] ↔ a ∈ seen' ++ [name entry] := by
      intro a
      rw [mem_append, mem_append, hseen a]
    rw [unshadowed, unshadowed, ih hseen, ih hnext]
    by_cases hmem : name entry ∈ seen
    · rw [if_pos hmem, if_pos ((hseen _).mp hmem)]
    · rw [if_neg hmem, if_neg (fun h => hmem ((hseen _).mpr h))]

/-- A level whose names are different shows what was not seen before it. -/
theorem unshadowed_append (hdistinct : (entries.map name).Nodup) :
    unshadowed name isShown (entries ++ rest) seen =
      ((entries.filter fun entry => isShown entry && name entry ∉ seen).map name) ++
        unshadowed name isShown rest (seen ++ entries.map name) := by
  induction entries generalizing seen with
  | nil =>
    rw [map_nil, append_nil]
    rfl
  | cons entry entries ih =>
    rw [map_cons, nodup_cons] at hdistinct
    have hlater : ∀ seen' : List α, (∀ a, a ∈ seen' ↔ a ∈ seen ∨ a = name entry) →
        unshadowed name isShown (entries ++ rest) seen' =
          ((entries.filter fun entry => isShown entry && name entry ∉ seen).map name) ++
            unshadowed name isShown rest (seen ++ (entry :: entries).map name) := by
      intro seen' hseen'
      rw [ih hdistinct.2]
      congr 1
      · -- The other names of the level are not the one of this entry.
        congr 1
        apply filter_congr
        intro other hmem
        have hne : name other ≠ name entry := fun heq =>
          hdistinct.1 (heq ▸ mem_map_of_mem hmem)
        simp only [hseen', hne, or_false]
      · apply unshadowed_congr
        intro a
        simp only [mem_append, hseen', map_cons, mem_cons, or_assoc]
    rw [cons_append, unshadowed]
    by_cases hmem : name entry ∈ seen
    · rw [if_pos hmem, filter_cons_of_neg (by simp [hmem])]
      apply hlater
      intro a
      constructor
      · exact .inl
      · rintro (ha | rfl)
        · exact ha
        · exact hmem
    · have hseen' : ∀ a, a ∈ seen ++ [name entry] ↔ a ∈ seen ∨ a = name entry := by
        intro a
        rw [mem_append, mem_singleton]
      rw [if_neg hmem, hlater _ hseen']
      cases hshown : isShown entry with
      | true =>
        rw [if_pos rfl, filter_cons_of_pos (by simp [hshown, hmem])]
        rfl
      | false => rw [if_neg Bool.false_ne_true, filter_cons_of_neg (by simp [hshown])]

end Oseo.Library

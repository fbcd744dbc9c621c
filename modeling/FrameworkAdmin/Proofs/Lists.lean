/-
# Lists

Facts about lists that several parts of the development rest on and none of them owns: what a list is
seen from its end, and what lists whose members are related pairwise have in common.
-/
import Mathlib.Data.List.Forall2
import Mathlib.Data.List.Induction

namespace FrameworkAdmin

variable {α β : Type}

/-! ## 1. Ends -/

/-- A list without its repetitions, seen from its end. -/
theorem eraseDups_concat [BEq α] [LawfulBEq α] (l : List α) (a : α) :
    (l ++ [a]).eraseDups = if l.eraseDups.contains a then l.eraseDups else l.eraseDups ++ [a] := by
  rw [List.eraseDups_append]
  split
  · rename_i h
    have hmem : a ∈ l := List.mem_eraseDups.1 (List.contains_iff_mem.1 h)
    simp [List.removeAll, hmem]
  · rename_i h
    have hmem : a ∉ l := fun hmem => h (List.contains_iff_mem.2 (List.mem_eraseDups.2 hmem))
    simp [List.removeAll, hmem, List.eraseDups_cons]

/-- The last of the values that a list has, seen from its end. -/
theorem getLastD_filterMap_concat (f : α → Option β) (l : List α) (a : α) (d : β) :
    ((l ++ [a]).filterMap f).getLastD d = (f a).getD ((l.filterMap f).getLastD d) := by
  rw [List.filterMap_append]
  cases h : f a with
  | none => simp [h]
  | some b => simp [h]

/-! ## 2. Related lists -/

/-- Related lists: what the relation carries from one side to the other holds of every member. -/
theorem forall_of_forall₂ {R : α → β → Prop} {p : α → Prop} {q : β → Prop}
    {as : List α} {bs : List β} (h : List.Forall₂ R as bs) (hpq : ∀ a b, R a b → p a → q b)
    (has : ∀ a ∈ as, p a) : ∀ b ∈ bs, q b := by
  induction h with
  | nil => simp
  | @cons a b as bs hab _ ih =>
    intro c hc
    rcases List.mem_cons.1 hc with rfl | hc
    · exact hpq a c hab (has a List.mem_cons_self)
    · exact ih (fun d hd => has d (List.mem_cons_of_mem _ hd)) c hc

/-- A condition that does not tell the members of two lists apart pairwise holds in both or in none. -/
theorem any_congr_of_forall₂ {R : α → α → Prop} {as bs : List α} {condition : α → Bool}
    (h : List.Forall₂ R as bs) (hcondition : ∀ a b, R a b → condition a = condition b) :
    as.any condition = bs.any condition := by
  induction h with
  | nil => rfl
  | cons hab _ ih => rw [List.any_cons, List.any_cons, hcondition _ _ hab, ih]

/-- A partial function gives a list exactly if it gives its members one by one. -/
theorem mapM_eq_some_iff {f : α → Option β} {l : List α} {bs : List β} :
    l.mapM f = some bs ↔ List.Forall₂ (fun a b => f a = some b) l bs := by
  induction l generalizing bs with
  | nil => simp [eq_comm]
  | cons a l ih =>
    rw [List.mapM_cons, List.forall₂_cons_left_iff]
    cases f a with
    | none => simp
    | some b =>
      cases hl : l.mapM f with
      | none =>
        have hnone : ∀ bs, ¬ List.Forall₂ (fun a b => f a = some b) l bs := by
          intro bs hbs
          rw [ih.2 hbs] at hl
          cases hl
        simp [hnone]
      | some bs' =>
        have hbs' : ∀ {bs}, List.Forall₂ (fun a b => f a = some b) l bs ↔ bs' = bs := by
          intro bs
          rw [← ih, hl, Option.some.injEq]
        simp [hbs', eq_comm]

/-- What is related by a function is its image. -/
theorem forall₂_map_eq_iff {f : β → α} {l : List α} {bs : List β} :
    List.Forall₂ (fun a b => f b = a) l bs ↔ bs.map f = l := by
  constructor
  · intro h
    induction h with
    | nil => rfl
    | cons head _ ih => rw [List.map_cons, head, ih]
  · rintro rfl
    exact List.forall₂_map_left_iff.2 (List.forall₂_same.2 fun _ _ => rfl)

end FrameworkAdmin

import Mathlib.Logic.Relation
import Mathlib.Data.List.Nodup
import Mathlib.Data.List.Perm.Subperm

/-!
# Walks through a partial function

A walk goes on while there is a next place.  Among finitely many places it ends exactly if no place
comes again.
-/

namespace Walks

variable {α : Type} {next : α → Option α} {a b c : α} {places : List α}

/-- `b` comes right behind `a`. -/
def Leads (next : α → Option α) (a b : α) : Prop :=
  next a = some b

/-- The walk from `a` ends. -/
def Ends (next : α → Option α) (a : α) : Prop :=
  Acc (fun b a => Leads next a b) a

/-- The places of a walk that have a next one, up to a number of them. -/
def trail (next : α → Option α) : Nat → α → List α
  | 0, _ => []
  | count + 1, a =>
      match next a with
      | some b => a :: trail next count b
      | none => []

theorem ends_of_none (last : next a = none) : Ends next a := by
  refine Acc.intro a fun b leads => ?_
  rw [Leads, last] at leads
  contradiction

theorem ends_of_leads (leads : Leads next a b) (ends : Ends next b) : Ends next a := by
  refine Acc.intro a fun c other => ?_
  rw [Leads, leads] at other
  cases other
  exact ends

theorem Ends.reached (ends : Ends next a) (reached : Relation.ReflTransGen (Leads next) a b) :
    Ends next b := by
  induction reached with
  | refl => exact ends
  | tail _ leads ih => exact ih.inv leads

/-- The places of a walk that ends do not come again. -/
theorem Ends.noReturn (ends : Ends next a) : ¬ Relation.TransGen (Leads next) a a := by
  induction ends with
  | intro a _ ih =>
      intro returns
      rcases Relation.TransGen.head'_iff.mp returns with ⟨b, leads, back⟩
      exact ih b leads (Relation.TransGen.tail' back leads)

theorem ends_of_length_trail {count : Nat} (short : (trail next count a).length < count) :
    Ends next a := by
  induction count generalizing a with
  | zero => contradiction
  | succ count ih =>
      rw [trail] at short
      cases isNext : next a with
      | none => exact ends_of_none isNext
      | some b =>
          rw [isNext] at short
          exact ends_of_leads isNext (ih (Nat.lt_of_succ_lt_succ short))

theorem mem_trail {count : Nat} (member : c ∈ trail next count a) :
    (next c).isSome ∧ Relation.ReflTransGen (Leads next) a c := by
  induction count generalizing a with
  | zero => contradiction
  | succ count ih =>
      rw [trail] at member
      cases isNext : next a with
      | none =>
          rw [isNext] at member
          contradiction
      | some b =>
          rw [isNext] at member
          rcases List.mem_cons.mp member with rfl | later
          · exact ⟨by rw [isNext, Option.isSome_some], Relation.ReflTransGen.refl⟩
          · exact ⟨(ih later).1, Relation.ReflTransGen.head isNext (ih later).2⟩

theorem nodup_trail (noReturn : ∀ b, Relation.ReflTransGen (Leads next) a b →
    ¬ Relation.TransGen (Leads next) b b) (count : Nat) : (trail next count a).Nodup := by
  induction count generalizing a with
  | zero => exact List.nodup_nil
  | succ count ih =>
      rw [trail]
      cases isNext : next a with
      | none => exact List.nodup_nil
      | some b =>
          refine List.nodup_cons.mpr ⟨fun member => ?_, ih fun c reached => ?_⟩
          · exact noReturn a Relation.ReflTransGen.refl
              (Relation.TransGen.head' isNext (mem_trail member).2)
          · exact noReturn c (Relation.ReflTransGen.head isNext reached)

/-- A walk without return does not have more places than there are. -/
theorem length_trail_le (finite : ∀ a, (next a).isSome → a ∈ places)
    (noReturn : ∀ b, Relation.ReflTransGen (Leads next) a b →
      ¬ Relation.TransGen (Leads next) b b) (count : Nat) :
    (trail next count a).length ≤ places.length := by
  have known : trail next count a ⊆ places := fun c member => finite c (mem_trail member).1
  exact ((nodup_trail noReturn count).subperm known).length_le

/-- Without return every walk ends. -/
theorem ends_of_noReturn (finite : ∀ a, (next a).isSome → a ∈ places)
    (noReturn : ∀ b, ¬ Relation.TransGen (Leads next) b b) (a : α) : Ends next a := by
  have short := length_trail_le finite (fun b (_ : Relation.ReflTransGen (Leads next) a b) =>
    noReturn b) (places.length + 1)
  exact ends_of_length_trail (Nat.lt_succ_of_le short)

end Walks

import Mathlib.Algebra.BigOperators.Group.List.Basic
import Mathlib.Algebra.GroupWithZero.Nat
import Mathlib.Tactic.Common

/-!
Ranges of addresses that lie one behind the other without a gap.
-/

namespace ByteborneWorld.Tiling

/-- The addresses from `start` on, `length` of them. -/
structure Range where
  start : ℕ
  length : ℕ
  deriving DecidableEq

def Range.stop (r : Range) : ℕ := r.start + r.length

def Range.Disjoint (r r' : Range) : Prop := r.stop ≤ r'.start ∨ r'.stop ≤ r.start

/-- The ranges fill what is between two addresses, in order. -/
def Tiles : ℕ → List Range → ℕ → Prop
  | a, [], b => a = b
  | a, r :: rs, b => r.start = a ∧ Tiles r.stop rs b

variable {a b : ℕ} {r : Range} {rs : List Range}

lemma Tiles.concat (h : Tiles a rs b) (hr : r.start = b) : Tiles a (rs ++ [r]) r.stop := by
  induction rs generalizing a with
  | nil => exact ⟨hr.trans h.symm, rfl⟩
  | cons q rs ih => exact ⟨h.1, ih h.2⟩

lemma Tiles.sum_length (h : Tiles a rs b) : a + (rs.map Range.length).sum = b := by
  induction rs generalizing a with
  | nil => simpa [Tiles] using h
  | cons q rs ih =>
    obtain ⟨rfl, h⟩ := h
    have := ih h
    rw [Range.stop] at this
    rw [List.map_cons, List.sum_cons]
    omega

lemma Tiles.bounds (h : Tiles a rs b) (hr : r ∈ rs) : a ≤ r.start ∧ r.stop ≤ b := by
  induction rs generalizing a with
  | nil => cases hr
  | cons q rs ih =>
    obtain ⟨rfl, h⟩ := h
    have hsum := h.sum_length
    rcases List.mem_cons.mp hr with rfl | hr
    · exact ⟨Nat.le_refl _, by omega⟩
    · obtain ⟨hlo, hhi⟩ := ih h hr
      exact ⟨Nat.le_trans (Nat.le_add_right _ _) hlo, hhi⟩

/-- **No two of them overlap.** -/
theorem Tiles.disjoint (h : Tiles a rs b) : rs.Pairwise Range.Disjoint := by
  induction rs generalizing a with
  | nil => exact .nil
  | cons q rs ih =>
    exact .cons (fun r hr => .inl (h.2.bounds hr).1) (ih h.2)

end ByteborneWorld.Tiling

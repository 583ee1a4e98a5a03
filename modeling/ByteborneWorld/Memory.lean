import Mathlib.Data.List.GetD
import Mathlib.Tactic.Common
import Mathlib.Tactic.Linarith

/-!
Memory as a function from addresses to cells: blocks read out of it and written into it.
-/

namespace ByteborneWorld.Memory

variable {α : Type*}

/-- The cells `[off, off + n)`. -/
def read (mem : ℕ → α) (off n : ℕ) : List α := (List.range n).map fun i => mem (off + i)

/-- The memory after `bs` is written at `off`. -/
def write (mem : ℕ → α) (off : ℕ) (bs : List α) : ℕ → α := fun i =>
  if off ≤ i then bs.getD (i - off) (mem i) else mem i

@[simp] lemma read_length (mem : ℕ → α) (off n : ℕ) : (read mem off n).length = n := by
  simp [read]

@[simp] lemma read_zero (mem : ℕ → α) (off : ℕ) : read mem off 0 = [] := rfl

lemma read_getElem {mem : ℕ → α} {off n i : ℕ} (h : i < (read mem off n).length) :
    (read mem off n)[i] = mem (off + i) := by simp [read]

lemma read_congr {mem mem' : ℕ → α} {off off' n : ℕ}
    (h : ∀ i < n, mem (off + i) = mem' (off' + i)) : read mem off n = read mem' off' n := by
  apply List.map_congr_left
  intro i hi
  exact h i (List.mem_range.mp hi)

lemma read_add (mem : ℕ → α) (off m n : ℕ) :
    read mem off (m + n) = read mem off m ++ read mem (off + m) n := by
  simp [read, List.range_add, Nat.add_assoc]

lemma read_drop (mem : ℕ → α) (off n k : ℕ) (h : k ≤ n) :
    (read mem off n).drop k = read mem (off + k) (n - k) := by
  obtain ⟨m, rfl⟩ := Nat.exists_eq_add_of_le h
  rw [read_add, List.drop_append_of_le_length (by simp), Nat.add_sub_cancel_left]
  simp

lemma read_write (mem : ℕ → α) (off : ℕ) (bs : List α) :
    read (write mem off bs) off bs.length = bs := by
  apply List.ext_getElem (by simp)
  intro i h1 h2
  rw [read_getElem]
  simp [write, List.getD_eq_getElem?_getD, h2]

lemma read_write_disjoint (mem : ℕ → α) {off off' n : ℕ} (bs : List α)
    (h : off' + n ≤ off ∨ off + bs.length ≤ off') :
    read (write mem off bs) off' n = read mem off' n := by
  apply read_congr
  intro i hi
  simp only [write]
  split
  · rw [List.getD_eq_default _ _ (by omega)]
  · rfl

lemma write_append (mem : ℕ → α) (off : ℕ) (as bs : List α) :
    write mem off (as ++ bs) = write (write mem off as) (off + as.length) bs := by
  funext i
  simp only [write]
  by_cases h1 : off ≤ i
  · by_cases h2 : i - off < as.length
    · rw [if_pos h1, if_neg (by omega), if_pos h1, List.getD_append _ _ _ _ h2]
    · rw [if_pos h1, if_pos (by omega), if_pos h1, List.getD_append_right _ _ _ _ (by omega),
        List.getD_eq_default as _ (by omega), Nat.sub_sub]
  · rw [if_neg h1, if_neg (by omega), if_neg h1]

end ByteborneWorld.Memory

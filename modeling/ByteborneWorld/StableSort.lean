import Mathlib.Data.List.Sort

/-!
Insertion sort is stable; what it does to a list whose elements fall into a lower and an upper
part, and to one whose order is that of a key.
-/

namespace ByteborneWorld.StableSort

variable {α β : Type*} {r : α → α → Prop} [DecidableRel r]

lemma orderedInsert_append_left {a : α} {l₁ l₂ : List α} (h : ∀ b ∈ l₂, r a b) :
    (l₁ ++ l₂).orderedInsert r a = l₁.orderedInsert r a ++ l₂ := by
  induction l₁ with
  | nil =>
    cases l₂ with
    | nil => rfl
    | cons b l₂ => simp [h b (by simp)]
  | cons c l₁ ih =>
    simp only [List.cons_append, List.orderedInsert_cons, ih]
    split_ifs <;> rfl

lemma orderedInsert_append_right {a : α} {l₁ l₂ : List α} (h : ∀ b ∈ l₁, ¬r a b) :
    (l₁ ++ l₂).orderedInsert r a = l₁ ++ l₂.orderedInsert r a := by
  induction l₁ with
  | nil => rfl
  | cons c l₁ ih =>
    simp [h c (by simp), ih fun b hb => h b (by simp [hb])]

/-- **Where all of one part comes before all of the other**, each is sorted for itself. -/
theorem insertionSort_parts {upper : α → Bool}
    (h : ∀ a b, upper a = false → upper b = true → r a b ∧ ¬r b a) (l : List α) :
    l.insertionSort r = (l.filter fun a => !upper a).insertionSort r ++
      (l.filter upper).insertionSort r := by
  induction l with
  | nil => rfl
  | cons a l ih =>
    rw [List.insertionSort_cons, ih]
    cases ha : upper a with
    | false =>
      have hle : ∀ b ∈ (l.filter upper).insertionSort r, r a b := fun b hb =>
        (h a b ha (by simp_all)).1
      rw [orderedInsert_append_left hle]
      simp [ha]
    | true =>
      have hlt : ∀ b ∈ (l.filter fun a => !upper a).insertionSort r, ¬r a b := fun b hb =>
        (h b a (by simp_all) ha).2
      rw [orderedInsert_append_right hlt]
      simp [ha]

section Key

variable {s : β → β → Prop} [DecidableRel s] {key : α → β} {l : List α}

/-- A list in the order of a key stays as it is exactly if its keys ascend. -/
theorem insertionSort_key [Std.Total s] [IsTrans β s]
    (h : ∀ a ∈ l, ∀ b ∈ l, r a b ↔ s (key a) (key b)) :
    (l.insertionSort r).map key = l.map key ↔ (l.map key).Pairwise s := by
  rw [List.map_insertionSort r s key l h]
  constructor
  · intro heq
    rw [← heq]
    exact List.pairwise_insertionSort _ _
  · exact List.Pairwise.insertionSort_eq

/-- The sorted list is in the order of the key. -/
theorem pairwise_insertionSort_of_key [Std.Total s] [IsTrans β s]
    (h : ∀ a ∈ l, ∀ b ∈ l, r a b ↔ s (key a) (key b)) :
    (l.insertionSort r).Pairwise fun a b => s (key a) (key b) := by
  rw [← List.pairwise_map, List.map_insertionSort r s key l h]
  exact List.pairwise_insertionSort _ _

omit [DecidableRel s] in
lemma filter_orderedInsert [IsTrans β s] (h : ∀ a b, r a b ↔ s (key a) (key b)) (p : α → Bool)
    (a : α) (hl : l.Pairwise fun a b => s (key a) (key b)) :
    (l.orderedInsert r a).filter p =
      if p a then (l.filter p).orderedInsert r a else l.filter p := by
  induction l with
  | nil => cases hp : p a <;> simp [hp]
  | cons b l ih =>
    obtain ⟨hb, hl⟩ := List.pairwise_cons.mp hl
    by_cases hab : r a b
    · have hle : ∀ c ∈ (b :: l).filter p, r a c := by
        intro c hc
        rcases List.mem_cons.mp (List.mem_of_mem_filter hc) with rfl | hc
        · exact hab
        · exact (h a c).mpr (Trans.trans ((h a b).mp hab) (hb c hc))
      have hfront : ((b :: l).filter p).orderedInsert r a = a :: (b :: l).filter p :=
        @orderedInsert_append_left α r _ a [] _ hle
      rw [List.orderedInsert_cons, if_pos hab, hfront, List.filter_cons]
    · rw [List.orderedInsert_cons, if_neg hab, List.filter_cons, ih hl, List.filter_cons]
      cases p b with
      | false => rfl
      | true => cases p a <;> simp [hab]

/-- **Sorting commutes with leaving out.** -/
theorem filter_insertionSort [Std.Total s] [IsTrans β s] (h : ∀ a b, r a b ↔ s (key a) (key b))
    (p : α → Bool) (l : List α) :
    (l.insertionSort r).filter p = (l.filter p).insertionSort r := by
  induction l with
  | nil => rfl
  | cons a l ih =>
    have hsorted := pairwise_insertionSort_of_key (l := l) fun a _ b _ => h a b
    rw [List.insertionSort_cons, filter_orderedInsert h p a hsorted, ih, List.filter_cons]
    cases p a <;> simp

omit [DecidableRel s] in
lemma insertionSort_eq_of_key (h : ∀ a ∈ l, ∀ b ∈ l, r a b ↔ s (key a) (key b))
    (hl : (l.map key).Pairwise s) : l.insertionSort r = l := by
  refine List.Pairwise.insertionSort_eq ?_
  rw [List.pairwise_map] at hl
  exact List.Pairwise.imp_of_mem (fun ha hb => (h _ ha _ hb).mpr) hl

end Key

end ByteborneWorld.StableSort

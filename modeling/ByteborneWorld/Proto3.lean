import Mathlib.Data.Nat.Log
import Mathlib.Tactic.Ring
import Mathlib.Tactic.Linarith

/-!
The proto3 wire format: base-128 varints, tagged fields, and the loop that reads fields
until the bytes run out.

Numbers are written in at most ten groups of seven bits, lowest first; every byte but the
last has its high bit set. A field is a tag, which is its number and its wire type, and a
number or a length followed by that many bytes.
-/

namespace ByteborneWorld.Proto3

/-! ### Varints -/

/-- At most `k` groups of `n`. -/
def groups : ℕ → ℕ → List UInt8
  | 0, _ => []
  | k + 1, n =>
    if n < 128 then [UInt8.ofNat n] else UInt8.ofNat (n % 128 + 128) :: groups k (n / 128)

/-- The number read from at most `k` groups, and the bytes after it. -/
def ungroup : ℕ → List UInt8 → Option (ℕ × List UInt8)
  | 0, _ => none
  | _, [] => none
  | k + 1, b :: bs =>
    if b.toNat < 128 then some (b.toNat, bs)
    else (ungroup k bs).map fun p => (b.toNat - 128 + 128 * p.1, p.2)

def encodeVarint (n : ℕ) : List UInt8 := groups 10 n

/-- A tenth group reaches beyond 64 bits; what is beyond is dropped. -/
def decodeVarint (bs : List UInt8) : Option (ℕ × List UInt8) :=
  (ungroup 10 bs).map fun p => (p.1 % 2 ^ 64, p.2)

def varintSize (n : ℕ) : ℕ := Nat.log 128 n + 1

lemma div_lt_groups {k n : ℕ} (h : n < 128 ^ (k + 1)) (hn : ¬n < 128) :
    n / 128 < 128 ^ k ∧ 0 < k := by
  rw [pow_succ, Nat.mul_comm] at h
  have hq : n / 128 < 128 ^ k := Nat.div_lt_of_lt_mul h
  refine ⟨hq, Nat.pos_of_ne_zero fun h0 => ?_⟩
  subst h0
  simp only [pow_zero] at hq
  omega

lemma ungroup_groups (k n : ℕ) (h : n < 128 ^ k) (hk : 0 < k) (rest : List UInt8) :
    ungroup k (groups k n ++ rest) = some (n, rest) := by
  induction k generalizing n with
  | zero => omega
  | succ k ih =>
    unfold groups
    split_ifs with hn
    · have hb : (UInt8.ofNat n).toNat = n := by rw [UInt8.toNat_ofNat']; omega
      simp [ungroup, hb, hn]
    · have hb : (UInt8.ofNat (n % 128 + 128)).toNat = n % 128 + 128 := by
        rw [UInt8.toNat_ofNat']; omega
      obtain ⟨hq, hk'⟩ := div_lt_groups h hn
      rw [List.cons_append, ungroup, if_neg (by omega), ih _ hq hk']
      simp only [Option.map_some, hb, Option.some.injEq, Prod.mk.injEq, and_true]
      omega

lemma groups_length (k n : ℕ) (h : n < 128 ^ k) (hk : 0 < k) :
    (groups k n).length = varintSize n := by
  induction k generalizing n with
  | zero => omega
  | succ k ih =>
    unfold groups
    split_ifs with hn
    · simp [varintSize, Nat.log_of_lt hn]
    · obtain ⟨hq, hk'⟩ := div_lt_groups h hn
      rw [List.length_cons, ih _ hq hk', varintSize, varintSize,
        Nat.log_of_one_lt_of_le (by omega) (by omega : 128 ≤ n)]

lemma lt_groups_of_lt {n : ℕ} (h : n < 2 ^ 64) : n < 128 ^ 10 :=
  lt_of_lt_of_le h (by norm_num)

lemma decodeVarint_encode {n : ℕ} (h : n < 2 ^ 64) (rest : List UInt8) :
    decodeVarint (encodeVarint n ++ rest) = some (n, rest) := by
  rw [decodeVarint, encodeVarint, ungroup_groups _ _ (lt_groups_of_lt h) (by omega)]
  simp only [Option.map_some, Nat.mod_eq_of_lt h]

lemma encodeVarint_length {n : ℕ} (h : n < 2 ^ 64) :
    (encodeVarint n).length = varintSize n :=
  groups_length 10 n (lt_groups_of_lt h) (by omega)

lemma varintSize_pos (n : ℕ) : 0 < varintSize n := Nat.succ_pos _

/-! ### Fields -/

inductive Value
  | num (n : ℕ)
  | len (bs : List UInt8)
  deriving DecidableEq

structure Field where
  number : ℕ
  value : Value
  deriving DecidableEq

def Field.encode (f : Field) : List UInt8 :=
  match f.value with
  | .num n => encodeVarint (8 * f.number) ++ encodeVarint n
  | .len bs => encodeVarint (8 * f.number + 2) ++ (encodeVarint bs.length ++ bs)

def encode (fs : List Field) : List UInt8 := fs.flatMap Field.encode

/-- The field fits its encoding. -/
def Field.Fits (f : Field) : Prop :=
  0 < f.number ∧ f.number < 2 ^ 29 ∧
    match f.value with
    | .num n => n < 2 ^ 64
    | .len bs => bs.length < 2 ^ 64

/-- Fixed-width values, wire types 1 and 5, are skipped: no message here has one. -/
def decodeField (bs : List UInt8) : Option (Option Field × List UInt8) :=
  (decodeVarint bs).bind fun (tag, rest) =>
    if tag / 8 = 0 then none
    else match tag % 8 with
      | 0 => (decodeVarint rest).map fun (n, rest) => (some ⟨tag / 8, .num n⟩, rest)
      | 1 => if 8 ≤ rest.length then some (none, rest.drop 8) else none
      | 2 => (decodeVarint rest).bind fun (n, rest) =>
          if n ≤ rest.length then some (some ⟨tag / 8, .len (rest.take n)⟩, rest.drop n) else none
      | 5 => if 4 ≤ rest.length then some (none, rest.drop 4) else none
      | _ => none

/-- At most `k` fields, up to the end of the bytes. -/
def decodeUpTo : ℕ → List UInt8 → Option (List Field)
  | _, [] => some []
  | 0, _ => none
  | k + 1, bs => (decodeField bs).bind fun (f, rest) =>
      (decodeUpTo k rest).map fun fs => f.toList ++ fs

def decode (bs : List UInt8) : Option (List Field) := decodeUpTo bs.length bs

lemma decodeField_encode {f : Field} (h : f.Fits) (rest : List UInt8) :
    decodeField (f.encode ++ rest) = some (some f, rest) := by
  obtain ⟨number, value⟩ := f
  obtain ⟨hpos, hlt, hv⟩ := h
  simp only at hpos hlt
  cases value with
  | num n =>
    have htag : 8 * number / 8 = number ∧ 8 * number % 8 = 0 := by omega
    simp only [Field.encode, decodeField, List.append_assoc]
    rw [decodeVarint_encode (by omega)]
    simp only [Option.bind_some, htag.1, htag.2, hpos.ne', if_false]
    rw [decodeVarint_encode hv]
    rfl
  | len bs =>
    have htag : (8 * number + 2) / 8 = number ∧ (8 * number + 2) % 8 = 2 := by omega
    simp only [Field.encode, decodeField, List.append_assoc]
    rw [decodeVarint_encode (by omega)]
    simp only [Option.bind_some, htag.1, htag.2, hpos.ne', if_false]
    rw [decodeVarint_encode hv]
    simp

lemma encode_ne_nil {f : Field} (h : f.Fits) : f.encode ≠ [] := by
  obtain ⟨number, value⟩ := f
  have hlen : 0 < (encodeVarint (8 * number)).length ∧
      0 < (encodeVarint (8 * number + 2)).length := by
    have hlt : number < 2 ^ 29 := h.2.1
    rw [encodeVarint_length (by omega), encodeVarint_length (by omega)]
    exact ⟨varintSize_pos _, varintSize_pos _⟩
  cases value <;> simp only [Field.encode, ne_eq, List.append_eq_nil_iff] <;>
    rintro ⟨h0, -⟩ <;> simp [h0] at hlen

lemma decodeUpTo_encode {fs : List Field} (h : ∀ f ∈ fs, f.Fits) (k : ℕ)
    (hk : fs.length ≤ k) : decodeUpTo k (encode fs) = some fs := by
  induction fs generalizing k with
  | nil => cases k <;> rfl
  | cons f fs ih =>
    obtain ⟨j, rfl⟩ : ∃ j, k = j + 1 := ⟨k - 1, by simp at hk; omega⟩
    have hf := h f (by simp)
    have hne : encode (f :: fs) ≠ [] := by simp [encode, encode_ne_nil hf]
    have hrec := ih (fun g hg => h g (by simp [hg])) j (by simpa using hk)
    rw [decodeUpTo.eq_3 _ j (by simpa using hne)]
    rw [show encode (f :: fs) = f.encode ++ encode fs by simp [encode], decodeField_encode hf]
    simp [hrec]

/-- **The wire round trip**: fields that fit are read back as they were written. -/
theorem decode_encode {fs : List Field} (h : ∀ f ∈ fs, f.Fits) :
    decode (encode fs) = some fs := by
  refine decodeUpTo_encode h _ ?_
  induction fs with
  | nil => simp
  | cons f fs ih =>
    have hf : 0 < f.encode.length := List.length_pos_iff.mpr (encode_ne_nil (h f (by simp)))
    have := ih fun g hg => h g (by simp [hg])
    simp only [encode, List.flatMap_cons, List.length_append, List.length_cons] at this ⊢
    omega

/-! ### Optional fields

A proto3 writer leaves out a field that has its default value. -/

def numField (number n : ℕ) : List Field := if n = 0 then [] else [⟨number, .num n⟩]

def lenField (number : ℕ) (bs : List UInt8) : List Field :=
  if bs = [] then [] else [⟨number, .len bs⟩]

def numSize (n : ℕ) : ℕ := if n = 0 then 0 else 1 + varintSize n

def lenSize (n : ℕ) : ℕ := if n = 0 then 0 else 1 + varintSize n + n

/-- A field as the messages of a program have them; only a string may still be too long. -/
def Field.Small (f : Field) : Prop :=
  0 < f.number ∧ f.number < 16 ∧ ∀ n, f.value = .num n → n < 2 ^ 64

lemma small_numField {number n : ℕ} (h : 0 < number ∧ number < 16) (hn : n < 2 ^ 64) :
    ∀ f ∈ numField number n, f.Small := by
  unfold numField
  split_ifs
  · simp
  · rintro f hf
    rw [List.mem_singleton.mp hf]
    exact ⟨h.1, h.2, fun k hk => by cases hk; exact hn⟩

lemma small_lenField {number : ℕ} {bs : List UInt8} (h : 0 < number ∧ number < 16) :
    ∀ f ∈ lenField number bs, f.Small := by
  unfold lenField
  split_ifs <;> simp [Field.Small, h]

/-- Setting an optional field sets it, if leaving it out means the same. -/
lemma foldl_numField {τ : Type*} {set : τ → Field → τ} {s t : τ} {number n : ℕ}
    (hset : set s ⟨number, .num n⟩ = t) (h0 : n = 0 → s = t) :
    (numField number n).foldl set s = t := by
  unfold numField
  split_ifs with h
  · exact h0 h
  · exact hset

lemma foldl_lenField {τ : Type*} {set : τ → Field → τ} {s t : τ} {number : ℕ} {bs : List UInt8}
    (hset : set s ⟨number, .len bs⟩ = t) (h0 : bs = [] → s = t) :
    (lenField number bs).foldl set s = t := by
  unfold lenField
  split_ifs with h
  · exact h0 h
  · exact hset

lemma encode_append (fs gs : List Field) : encode (fs ++ gs) = encode fs ++ encode gs := by
  simp [encode]

lemma fits_of_small {fs : List Field} (h : ∀ f ∈ fs, f.Small)
    (hlen : (encode fs).length < 2 ^ 64) : ∀ f ∈ fs, f.Fits := by
  rintro ⟨number, value⟩ hf
  obtain ⟨h0, h1, hn⟩ := h _ hf
  simp only at h0 h1 hn
  refine ⟨h0, by simp only; omega, ?_⟩
  cases value with
  | num n => exact hn n rfl
  | len bs =>
    obtain ⟨l, r, rfl⟩ := List.append_of_mem hf
    simp only [encode, Field.encode, List.flatMap_append, List.flatMap_cons,
      List.length_append] at hlen
    simp only
    omega

lemma encodeVarint_tag {number wireType : ℕ} (h : number < 16) (hw : wireType < 8) :
    (encodeVarint (8 * number + wireType)).length = 1 := by
  rw [encodeVarint_length (by omega), varintSize, Nat.log_of_lt (by omega)]

lemma numField_length {number n : ℕ} (h : number < 16) (hn : n < 2 ^ 64) :
    (encode (numField number n)).length = numSize n := by
  unfold numField numSize
  split_ifs with h0
  · rfl
  · have := encodeVarint_tag h (show 0 < 8 by omega)
    simp only [Nat.add_zero] at this
    simp [encode, Field.encode, this, encodeVarint_length hn]

lemma lenField_length {number : ℕ} {bs : List UInt8} (h : number < 16)
    (hn : bs.length < 2 ^ 64) : (encode (lenField number bs)).length = lenSize bs.length := by
  unfold lenField lenSize
  rcases bs with _ | ⟨b, bs⟩
  · rfl
  · have := encodeVarint_tag h (show 2 < 8 by omega)
    rw [if_neg (by simp), if_neg (by simp)]
    simp only [encode, Field.encode, List.flatMap_cons, List.flatMap_nil, List.append_nil,
      List.length_append, this, encodeVarint_length hn]
    omega

lemma length_le_lenField (number : ℕ) (bs : List UInt8) :
    bs.length ≤ (encode (lenField number bs)).length := by
  unfold lenField
  split_ifs with h
  · simp [h]
  · simp only [encode, Field.encode, List.flatMap_cons, List.flatMap_nil, List.append_nil,
      List.length_append]
    omega

end ByteborneWorld.Proto3

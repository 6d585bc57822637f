/-
The `%x` verb of `fmt` on a byte slice: two lower-case hexadecimal digits per byte.

`New` stores `fmt.Sprintf("%x", h.Sum(nil))` as the fingerprint and `validate` compares
such strings, so what the proofs need of the encoding is its length, its alphabet and
that it is injective: two digests are equal exactly when their encodings are.
-/
import MetrikaAgent.Io

namespace MetrikaAgent

/-- Digit `n` of `fmt`'s `ldigits` table, `"0123456789abcdef"`. -/
def ldigit (n : Nat) : UInt8 := if n < 10 then UInt8.ofNat (48 + n) else UInt8.ofNat (87 + n)

def hexByte (b : UInt8) : Bytes := [ldigit (b.toNat / 16), ldigit (b.toNat % 16)]

/-- `fmt.Sprintf("%x", bs)` for a byte slice `bs`. -/
def fmtHex (bs : Bytes) : Bytes := bs.flatMap hexByte

def IsLowerHex (c : UInt8) : Prop :=
  (48 ≤ c.toNat ∧ c.toNat ≤ 57) ∨ (97 ≤ c.toNat ∧ c.toNat ≤ 102)

instance : DecidablePred IsLowerHex := fun c => by unfold IsLowerHex; infer_instance

theorem ldigit_toNat {n : Nat} (h : n < 16) :
    (ldigit n).toNat = if n < 10 then 48 + n else 87 + n := by
  unfold ldigit
  split <;> exact UInt8.toNat_ofNat_of_lt (by simp only [UInt8.size]; omega)

theorem ldigit_isLowerHex {n : Nat} (h : n < 16) : IsLowerHex (ldigit n) := by
  unfold IsLowerHex
  rw [ldigit_toNat h]
  split <;> omega

theorem ldigit_inj {n m : Nat} (hn : n < 16) (hm : m < 16) (h : ldigit n = ldigit m) :
    n = m := by
  have h' := congrArg UInt8.toNat h
  rw [ldigit_toNat hn, ldigit_toNat hm] at h'
  split at h' <;> split at h' <;> omega

theorem hexByte_inj {a b : UInt8} (h : hexByte a = hexByte b) : a = b := by
  have ha : a.toNat < 256 := a.toNat_lt_size
  have hb : b.toNat < 256 := b.toNat_lt_size
  simp only [hexByte, List.cons.injEq, and_true] at h
  have hhi := ldigit_inj (by omega) (by omega) h.1
  have hlo := ldigit_inj (Nat.mod_lt _ (by decide)) (Nat.mod_lt _ (by decide)) h.2
  exact UInt8.eq_of_toBitVec_eq (BitVec.eq_of_toNat_eq (show a.toNat = b.toNat by omega))

@[simp] theorem fmtHex_nil : fmtHex [] = [] := rfl

@[simp] theorem fmtHex_cons (b : UInt8) (bs : Bytes) :
    fmtHex (b :: bs) = hexByte b ++ fmtHex bs := rfl

@[simp] theorem fmtHex_length (bs : Bytes) : (fmtHex bs).length = 2 * bs.length := by
  induction bs with
  | nil => rfl
  | cons b bs ih => simp only [fmtHex_cons, List.length_append, ih, hexByte]; simp; omega

theorem fmtHex_isLowerHex (bs : Bytes) : ∀ c ∈ fmtHex bs, IsLowerHex c := by
  have ha (b : UInt8) : b.toNat < 256 := b.toNat_lt_size
  simp only [fmtHex, List.mem_flatMap, hexByte, List.mem_cons, List.mem_singleton,
    List.not_mem_nil, or_false]
  rintro c ⟨b, -, rfl | rfl⟩
  · exact ldigit_isLowerHex (by have := ha b; omega)
  · exact ldigit_isLowerHex (Nat.mod_lt _ (by decide))

theorem fmtHex_inj {a b : Bytes} (h : fmtHex a = fmtHex b) : a = b := by
  induction a generalizing b with
  | nil =>
    have hl := congrArg List.length h
    simp only [fmtHex_nil, List.length_nil, fmtHex_length] at hl
    exact (List.length_eq_zero.1 (by omega)).symm
  | cons x xs ih =>
    cases b with
    | nil => simpa [hexByte] using congrArg List.length h
    | cons y ys =>
      obtain ⟨hxy, hrest⟩ := List.append_inj h (by simp [hexByte])
      rw [hexByte_inj hxy, ih hrest]

theorem fmtHex_eq_iff {a b : Bytes} : fmtHex a = fmtHex b ↔ a = b :=
  ⟨fmtHex_inj, congrArg fmtHex⟩

end MetrikaAgent

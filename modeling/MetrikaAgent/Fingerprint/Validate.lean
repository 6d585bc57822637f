/-
What `New` and `NewWithValidation` return, for every input.

`New` always succeeds with the 64-digit lower-case hex of the SHA-256 digest, and two
inputs get the same hash exactly when their digests agree (`new_hash_hex`).
`NewWithValidation` is then decided by `validate` alone: over a previous content read
without error, a `*ValidationError` carrying both digests is returned exactly when that
content is longer than one byte and differs from the new hash (`newWithValidation_ofBytes`).
A fingerprint persisted through a writer that stores what it is given therefore validates
exactly the data with the same digest (`newWithValidation_persisted`).
-/
import MetrikaAgent.Fingerprint.Basic

namespace MetrikaAgent
namespace Fingerprint

variable {σ : Type}

@[simp] theorem fmtHex_sum256_length (val : Bytes) : (fmtHex (Sha256.sum256 val)).length = 64 := by
  simp

theorem new_hash_hex (out : Writer σ) (val : Bytes) :
    ∃ fp, new out val = (fp, none) ∧ fp.out = some out ∧
      fp.hash = fmtHex (Sha256.sum256 val) ∧ fp.hash.length = 64 ∧
      (∀ c ∈ fp.hash, IsLowerHex c) ∧
      (∀ (out' : Writer σ) val', (new out' val').1.hash = fp.hash ↔
        Sha256.sum256 val' = Sha256.sum256 val) ∧
      (Sha256.Digest.writer.write val Sha256.new).1 = (val.length, none) ∧
      Sha256.blockSize ≤ fp.hash.length :=
  ⟨_, new_eq out val, rfl, rfl, fmtHex_sum256_length val, fmtHex_isLowerHex _,
    fun out' val' => by rw [new_eq]; exact fmtHex_eq_iff, rfl,
    by simp [Sha256.blockSize]⟩

/-! ## Validation against a previous digest -/

theorem newWithValidation_ofBytes (val : Bytes) (out : Writer σ) (p : Bytes) :
    newWithValidation val out (Reader.ofBytes p) =
      if 1 < p.length ∧ p ≠ fmtHex (Sha256.sum256 val) then
        (zerofp, some (.validation (hashMismatch p (fmtHex (Sha256.sum256 val)))))
      else (⟨some out, fmtHex (Sha256.sum256 val)⟩, none) := by
  rw [newWithValidation_eq, validate_eq]
  split_ifs <;> simp_all [Reader.ofBytes]

/-- Every previous content of at most one byte is taken for a first run, whatever the new
digest. -/
theorem newWithValidation_short_prev (val : Bytes) (out : Writer σ) {p : Bytes}
    (hp : p.length ≤ 1) :
    newWithValidation val out (Reader.ofBytes p) = (⟨some out, fmtHex (Sha256.sum256 val)⟩, none) :=
  (newWithValidation_ofBytes val out p).trans (if_neg fun h => absurd h.1 (not_lt.2 hp))

/-- The one-byte previous content `"x"` is accepted for empty data, though it is neither
empty nor the data's digest. -/
theorem newWithValidation_accepts_x :
    newWithValidation [] bufferWriter (Reader.ofBytes [0x78]) =
      (⟨some bufferWriter, fmtHex (Sha256.sum256 [])⟩, none) ∧
    [0x78] ≠ ([] : Bytes) ∧ [0x78] ≠ fmtHex (Sha256.sum256 []) := by
  refine ⟨newWithValidation_short_prev _ _ (by decide), by decide, fun h => ?_⟩
  simpa using congrArg List.length h

/-! ## Persisting, then validating -/

theorem newWithValidation_persisted {d₁ d₂ : Bytes} {out : Writer Bytes}
    (hout : ∀ p s, out.write p s = ((p.length, none), s ++ p)) {fp : Fingerprint Bytes}
    (hnew : new out d₁ = (fp, none)) {stored : Bytes} (hwrite : fp.write [] = some (none, stored))
    (out₂ : Writer σ) :
    ((∃ fp₂, newWithValidation d₂ out₂ (Reader.ofBytes stored) = (fp₂, none) ∧
        fp₂.hash = stored) ↔ Sha256.sum256 d₁ = Sha256.sum256 d₂) ∧
    (Sha256.sum256 d₁ ≠ Sha256.sum256 d₂ → ∃ msg,
        newWithValidation d₂ out₂ (Reader.ofBytes stored) = (zerofp, some (.validation msg)) ∧
        fmtHex (Sha256.sum256 d₁) <:+: msg ∧ fmtHex (Sha256.sum256 d₂) <:+: msg) ∧
    newWithValidation d₁ out₂ (Reader.ofBytes stored) = (⟨some out₂, stored⟩, none) := by
  rw [new_eq] at hnew
  obtain rfl := (Prod.mk.inj hnew).1
  rw [write_of_appends hout, List.nil_append] at hwrite
  obtain rfl : stored = _ := (Prod.mk.inj (Option.some.inj hwrite)).2.symm
  have hlen : 1 < (fmtHex (Sha256.sum256 d₁)).length := by rw [fmtHex_sum256_length]; decide
  have accept {d} (hd : Sha256.sum256 d₁ = Sha256.sum256 d) :=
    (newWithValidation_ofBytes d out₂ _).trans (if_neg fun hc => hc.2 (congrArg fmtHex hd))
  have reject {d} (hd : Sha256.sum256 d₁ ≠ Sha256.sum256 d) :=
    (newWithValidation_ofBytes d out₂ _).trans (if_pos ⟨hlen, fun he => hd (fmtHex_inj he)⟩)
  refine ⟨⟨fun ⟨fp₂, h, _⟩ => ?_, fun hd => ⟨_, accept hd, congrArg fmtHex hd.symm⟩⟩,
    fun hd => ⟨_, reject hd, hashMismatch_infix_prev _ _, hashMismatch_infix_hash _ _⟩, accept rfl⟩
  by_contra hd
  rw [reject hd] at h
  exact Option.noConfusion (Prod.mk.inj h).2

theorem newWithValidation_persisted_empty :
    (∀ p s, bufferWriter.write p s = ((p.length, none), s ++ p)) ∧
    new bufferWriter [] = (⟨some bufferWriter, fmtHex (Sha256.sum256 [])⟩, none) ∧
    (⟨some bufferWriter, fmtHex (Sha256.sum256 [])⟩ : Fingerprint Bytes).write [] =
      some (none, fmtHex (Sha256.sum256 [])) ∧
    newWithValidation [] bufferWriter (Reader.ofBytes (fmtHex (Sha256.sum256 []))) =
      (⟨some bufferWriter, fmtHex (Sha256.sum256 [])⟩, none) :=
  have hw : (⟨some bufferWriter, fmtHex (Sha256.sum256 [])⟩ : Fingerprint Bytes).write [] =
      some (none, fmtHex (Sha256.sum256 [])) := by
    rw [write_of_appends (fun _ _ => rfl), List.nil_append]
  ⟨fun _ _ => rfl, new_eq _ _, hw,
    (@newWithValidation_persisted Bytes [] [] bufferWriter (fun _ _ => rfl) _
      (new_eq bufferWriter []) _ hw bufferWriter).2.2⟩

end Fingerprint
end MetrikaAgent

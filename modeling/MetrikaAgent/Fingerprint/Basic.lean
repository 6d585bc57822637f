/-
The `fingerprint` package: a SHA-256 digest of a configuration snapshot, persisted through
a writer and compared with the digest a previous run persisted.

`New` and `validate` never call `out.Write`: `New` only stores `out` in the fingerprint,
and `Fingerprint.Write` is the one function that writes.  So `write` is the only function
here that takes the writer's state.  A Go function returning `(Fingerprint, error)`
returns the pair, with `none` for a nil error.
-/
import MetrikaAgent.Fingerprint.Sha256
import MetrikaAgent.Fingerprint.Hex

namespace MetrikaAgent

/-- A fingerprint: the writer it is persisted through, `none` for a nil `io.Writer`, and
the hex digest `Hash()` returns. -/
structure Fingerprint (σ : Type) where
  out : Option (Writer σ)
  hash : Bytes

namespace Fingerprint

inductive Error where
  | io (e : IoError)
  | errorf (msg : Bytes)
  | validation (err : Bytes)
  deriving DecidableEq

/-- `Error()`; for a `*ValidationError` it is `fmt.Sprintf("%v", v.err)`. -/
def Error.error : Error → Bytes
  | .io e => e.msg
  | .errorf msg => msg
  | .validation err => err

variable {σ : Type}

def zerofp : Fingerprint σ := ⟨none, []⟩

/-- `fmt.Errorf("unexpected number of bytes written: %d/%d", n, len)`, the text `Write` and
`New` share. -/
def bytesWrittenError (n len : Nat) : Error :=
  .errorf (lit "unexpected number of bytes written: " ++ decimal n ++ lit "/" ++ decimal len)

/-- `Fingerprint.Write`: `f.out.Write([]byte(f.hash))` from the writer's state `s`.  `none`
when `out` is nil, where the call panics. -/
def write (f : Fingerprint σ) (s : σ) : Option (Option Error × σ) :=
  f.out.map fun out =>
    let r := out.write f.hash s
    match r.1.2 with
    | some err => (some (.io err), r.2)
    | none => if r.1.1 ≠ f.hash.length then (some (bytesWrittenError r.1.1 f.hash.length), r.2)
      else (none, r.2)

def hashMismatch (prevHash hash : Bytes) : Bytes :=
  lit "hash mismatch detected, expected " ++ prevHash ++ lit ", got " ++ hash

theorem hashMismatch_infix_prev (prevHash hash : Bytes) :
    prevHash <:+: hashMismatch prevHash hash := by
  rw [hashMismatch, List.append_assoc]
  exact List.infix_append _ _ _

theorem hashMismatch_infix_hash (prevHash hash : Bytes) :
    hash <:+: hashMismatch prevHash hash :=
  (List.suffix_append _ _).isInfix

def validate (newfp : Fingerprint σ) (prev : Reader) : Option Error :=
  let r := readAll prev
  match r.2 with
  | some err => some (.io err)
  | none =>
    let prevHash := r.1
    if prevHash.length > 1 ∧ prevHash ≠ newfp.hash then
      some (.validation (hashMismatch prevHash newfp.hash))
    else none

def new (out : Writer σ) (val : Bytes) : Fingerprint σ × Option Error :=
  let r := Sha256.Digest.writer.write val Sha256.new
  match r.1.2 with
  | some err => (zerofp, some (.io err))
  | none =>
    if r.1.1 ≠ val.length then (zerofp, some (bytesWrittenError r.1.1 val.length))
    else
      let hstr := fmtHex r.2.sum
      if hstr.length < Sha256.blockSize then
        (zerofp, some (.errorf (lit "unexpected hash length, expected " ++
          decimal Sha256.blockSize ++ lit ", got " ++ decimal hstr.length)))
      else (⟨some out, hstr⟩, none)

def newWithValidation (val : Bytes) (out : Writer σ) (prev : Reader) :
    Fingerprint σ × Option Error :=
  match new out val with
  | (_, some err) => (zerofp, some err)
  | (newfp, none) =>
    match validate newfp prev with
    | some err => (zerofp, some err)
    | none => (newfp, none)

/-- A writer that appends what it is given to a byte store and reports the full count, as a
`bytes.Buffer` or a file does. -/
def bufferWriter : Writer Bytes := ⟨fun p s => ((p.length, none), s ++ p)⟩

/-! ## What each function returns -/

/-- `New` never fails: the `%x` encoding of a 32-byte digest has 64 digits, as many as
`sha256.BlockSize`. -/
theorem new_eq (out : Writer σ) (val : Bytes) :
    new out val = (⟨some out, fmtHex (Sha256.sum256 val)⟩, none) := by
  simp [new, Sha256.blockSize]

theorem validate_eq (newfp : Fingerprint σ) (prev : Reader) :
    validate newfp prev =
      match prev.failure with
      | some err => some (.io err)
      | none =>
        if 1 < prev.content.length ∧ prev.content ≠ newfp.hash then
          some (.validation (hashMismatch prev.content newfp.hash))
        else none := rfl

theorem newWithValidation_eq (val : Bytes) (out : Writer σ) (prev : Reader) :
    newWithValidation val out prev =
      match validate ⟨some out, fmtHex (Sha256.sum256 val)⟩ prev with
      | some err => (zerofp, some err)
      | none => (⟨some out, fmtHex (Sha256.sum256 val)⟩, none) := by
  rw [newWithValidation, new_eq]

/-- `Write` through a writer that takes every byte returns nil and leaves the hash after
what the store held. -/
theorem write_of_appends {out : Writer Bytes}
    (hout : ∀ p s, out.write p s = ((p.length, none), s ++ p)) (hash store : Bytes) :
    (⟨some out, hash⟩ : Fingerprint Bytes).write store = some (none, store ++ hash) := by
  simp [write, hout]

end Fingerprint
end MetrikaAgent

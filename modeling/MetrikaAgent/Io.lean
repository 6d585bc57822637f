/-
Byte strings and the `io` interfaces the fingerprint package is written against.

A Go `string` and a `[]byte` are both byte sequences here, so `string(b)` and `[]byte(s)`
are the identity and `len` is `List.length`.  An `io.Writer` is what one call of its
`Write` returns and how it changes the state it writes to; an `io.Reader` is what
`ioutil.ReadAll` gets from it.
-/
import Mathlib.Data.List.Infix

namespace MetrikaAgent

abbrev Bytes := List UInt8

/-- The bytes of a string literal of the source, UTF-8 encoded as Go stores it. -/
def lit (s : String) : Bytes := s.toUTF8.data.toList

def decimal (n : Nat) : Bytes := lit (toString n)

/-- An error a reader or a writer returns.  The code only passes such errors on, so only
their text is kept. -/
structure IoError where
  msg : Bytes
  deriving DecidableEq

/-- An `io.Writer` over the state `σ` it writes to: the `(n, err)` of one `Write(p)` and
the state after it. -/
structure Writer (σ : Type) where
  write : Bytes → σ → (Nat × Option IoError) × σ

/-- An `io.Reader`, as `ioutil.ReadAll` sees it: the bytes it yields before it stops, and the
error it stops with, `none` for `io.EOF`. -/
structure Reader where
  content : Bytes
  failure : Option IoError

/-- `ioutil.ReadAll`: every byte the reader yields, and the error it stopped with unless that
was `io.EOF`. -/
def readAll (r : Reader) : Bytes × Option IoError := (r.content, r.failure)

def Reader.ofBytes (p : Bytes) : Reader := ⟨p, none⟩

@[simp] theorem readAll_ofBytes (p : Bytes) : readAll (Reader.ofBytes p) = (p, none) := rfl

end MetrikaAgent

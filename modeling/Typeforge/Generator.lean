/-
# `Typeforge.Generator` — random numbers from a seed

The generator has a word of 64 bits as its state.  A step adds a constant to the
state and multiplies it by a scrambled copy of itself; the two halves of the
product make the number drawn.  The states run through all words before one
comes back, which bounds how often a draw can be repeated.

Numbers below a bound are drawn without bias: a draw in the part of the words
that does not divide evenly is repeated.
-/

namespace Typeforge

structure Generator where
  state : UInt64
deriving Repr, DecidableEq, Inhabited

/-- Drawing numbers from a generator. -/
abbrev Random := StateM Generator

/-- The number of states of a generator. -/
def Generator.period : Nat := Nat.pow 2 64

namespace Random

/-- The next 64 bits. -/
def word : Random UInt64 := do
  let state := (← get).state + 0x2d358dccaa6c78a5
  set (Generator.mk state)
  let product := state.toNat * (state ^^^ 0x8bb84b93962eacc9).toNat
  pure (UInt64.ofNat product ^^^ UInt64.ofNat (product / Nat.pow 2 64))

/-- A word as a number. -/
def nat64 : Random Nat := do
  let w ← word
  pure w.toNat

/-- The low 32 bits of a word. -/
def nat32 : Random Nat := do
  let w ← word
  pure (w.toNat % Nat.pow 2 32)

/-- A number below `n`, from draws of so many bits. A draw is scaled down to the range, and
repeated when it falls into the uneven part; the last argument bounds the repetitions. -/
def scaled (bits : Nat) (draw : Random Nat) (n : Nat) : Nat → Random Nat
  | 0 => pure 0
  | repetitions + 1 => do
    let r ← draw
    if (Nat.pow 2 bits - n) % n ≤ r * n % Nat.pow 2 bits then pure (r * n / Nat.pow 2 bits)
    else scaled bits draw n repetitions

/-- A number below a positive bound of at most `2 ^ 64`. -/
def below64 (n : Nat) : Random Nat := scaled 64 nat64 n Generator.period

/-- A number below a positive bound of at most `2 ^ 32`. -/
def below32 (n : Nat) : Random Nat := scaled 32 nat32 n Generator.period

/-- A 64-bit integer with its sign. -/
def int64 : Random Int := do
  let n ← nat64
  pure (if n < Nat.pow 2 63 then (n : Int) else (n : Int) - Nat.pow 2 64)

def bool : Random Bool := do
  let n ← nat32
  pure (n % 2 == 0)

/-- A fraction of at least nought and below one, from the upper 63 bits of a word; one that rounds
up to one is drawn again. -/
def fractionWithin : Nat → Random Float
  | 0 => pure 0.0
  | repetitions + 1 => do
    let w ← word
    let x := (w >>> 1).toFloat / 9223372036854775808.0
    if x < 1.0 then pure x else fractionWithin repetitions

def fraction : Random Float := fractionWithin Generator.period

/-- The letters, capitals first, and then the digits. -/
def alphanumerics : List Char :=
  "ABCDEFGHIJKLMNOPQRSTUVWXYZabcdefghijklmnopqrstuvwxyz0123456789".toList

def alphanumeric : Random Char := do
  let i ← below64 alphanumerics.length
  pure (alphanumerics.getD i 'A')

/-- So many letters and digits. -/
def alphanumericText (length : Nat) : Random String := do
  let cs ← (List.replicate length ()).mapM fun _ => alphanumeric
  pure (String.ofList cs)

end Random

end Typeforge

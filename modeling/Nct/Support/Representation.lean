import Nct.Support.BigEndian

/-! External data representation: 32-bit and 64-bit words and counted byte
strings, in units of four bytes. A parser takes a value off the front of its
input; `Reads` says that it takes exactly the bytes that represent the value,
whatever follows them. -/
namespace Representation

abbrev Parser (α : Type) := StateT (List UInt8) Option α

def take (n : Nat) : Parser (List UInt8) := fun bytes =>
  if n ≤ bytes.length then some (bytes.take n, bytes.drop n) else none

/-- Go on only where the condition holds. -/
def ensure (p : Prop) [Decidable p] : Parser Unit := fun bytes =>
  if p then some ((), bytes) else none

def word (w : UInt32) : List UInt8 := BigEndian.encode 4 w.toNat

def hyper (w : UInt64) : List UInt8 := BigEndian.encode 8 w.toNat

/-- How many zero bytes fill a string of `n` bytes up to whole units. -/
def padding (n : Nat) : Nat := (4 - n % 4) % 4

/-- The length of a string of `n` bytes once it is filled up. -/
def padded (n : Nat) : Nat := n + padding n

/-- A byte string with its length before it. -/
def counted (bytes : List UInt8) : List UInt8 :=
  word (UInt32.ofNat bytes.length) ++ (bytes ++ List.replicate (padding bytes.length) 0)

def getWord : Parser UInt32 := do
  let bytes ← take 4
  return UInt32.ofNat (BigEndian.decode bytes)

def getHyper : Parser UInt64 := do
  let bytes ← take 8
  return UInt64.ofNat (BigEndian.decode bytes)

/-- A counted string of at most `max` bytes; the filling bytes must be zero. -/
def getCounted (max : Nat) : Parser (List UInt8) := do
  let n ← getWord
  ensure (n.toNat ≤ max)
  let bytes ← take n.toNat
  let fill ← take (padding n.toNat)
  ensure (fill = List.replicate (padding n.toNat) 0)
  return bytes

/-- The parser takes exactly `bytes` off any input that starts with them, and
makes `v` of them. -/
def Reads {α : Type} (p : Parser α) (bytes : List UInt8) (v : α) : Prop :=
  ∀ rest, p.run (bytes ++ rest) = some (v, rest)

theorem Reads.pure {α : Type} (v : α) : Reads (Pure.pure v) [] v := fun _ => rfl

/-- Parsers one after the other read what lies one behind the other. -/
theorem Reads.bind {α β : Type} {p : Parser α} {k : α → Parser β} {bytes more : List UInt8}
    {v : α} {w : β} (hp : Reads p bytes v) (hk : Reads (k v) more w) :
    Reads (p >>= k) (bytes ++ more) w := by
  intro rest
  have hFirst := hp (more ++ rest)
  rw [← List.append_assoc] at hFirst
  simp only [StateT.run_bind, hFirst, Option.bind_eq_bind, Option.bind_some]
  exact hk rest

/-- A step that takes nothing. -/
theorem Reads.bind_nil {α β : Type} {p : Parser α} {k : α → Parser β} {bytes : List UInt8}
    {v : α} {w : β} (hp : Reads p [] v) (hk : Reads (k v) bytes w) : Reads (p >>= k) bytes w :=
  hp.bind hk

/-- Nothing is taken after the step. -/
theorem Reads.bind_last {α β : Type} {p : Parser α} {k : α → Parser β} {bytes : List UInt8}
    {v : α} {w : β} (hp : Reads p bytes v) (hk : Reads (k v) [] w) : Reads (p >>= k) bytes w := by
  have hBoth := hp.bind hk
  rwa [List.append_nil] at hBoth

theorem Reads.map {α β : Type} {p : Parser α} {bytes : List UInt8} {v : α} (hp : Reads p bytes v)
    (f : α → β) : Reads (p >>= fun v => Pure.pure (f v)) bytes (f v) :=
  hp.bind_last (Reads.pure (f v))

/-- On its own, a representation is read with nothing left over. -/
theorem Reads.exact {α : Type} {p : Parser α} {bytes : List UInt8} {v : α} (hp : Reads p bytes v) :
    p.run bytes = some (v, []) := by
  simpa using hp []

theorem reads_take (bytes : List UInt8) : Reads (take bytes.length) bytes bytes := by
  intro rest
  change (if bytes.length ≤ (bytes ++ rest).length then
    some ((bytes ++ rest).take bytes.length, (bytes ++ rest).drop bytes.length) else none) = _
  rw [if_pos (by simp), List.take_left' rfl, List.drop_left' rfl]

theorem reads_ensure {p : Prop} [Decidable p] (h : p) : Reads (ensure p) [] () := by
  intro rest
  exact if_pos h

theorem ensure_run {p : Prop} [Decidable p] {input rest : List UInt8}
    (h : (ensure p).run input = some ((), rest)) : p ∧ rest = input := by
  change (if p then some ((), input) else none) = _ at h
  split at h
  · next hp =>
      cases h
      exact ⟨hp, rfl⟩
  · cases h

@[simp] theorem word_length (w : UInt32) : (word w).length = 4 := BigEndian.encode_length 4 _

@[simp] theorem hyper_length (w : UInt64) : (hyper w).length = 8 := BigEndian.encode_length 8 _

/-- The length comes first, and the string is filled up. -/
theorem counted_length (bytes : List UInt8) :
    (counted bytes).length = 4 + padded bytes.length := by
  simp only [counted, padded, List.length_append, word_length, List.length_replicate]

/-- Filling never takes a string past the next whole unit of its bound. -/
theorem counted_length_le (units : Nat) {bytes : List UInt8} (h : bytes.length ≤ 4 * units) :
    (counted bytes).length ≤ 4 + 4 * units := by
  rw [counted_length, padded, padding]
  omega

theorem reads_word (w : UInt32) : Reads getWord (word w) w := by
  have hBytes := reads_take (word w)
  rw [word_length] at hBytes
  have hWord : UInt32.ofNat (BigEndian.decode (word w)) = w := by
    rw [word, BigEndian.decode_encode_of_lt (by simpa using w.toNat_lt)]
    simp
  have hRead := hBytes.map fun bytes => UInt32.ofNat (BigEndian.decode bytes)
  rwa [hWord] at hRead

theorem reads_hyper (w : UInt64) : Reads getHyper (hyper w) w := by
  have hBytes := reads_take (hyper w)
  rw [hyper_length] at hBytes
  have hHyper : UInt64.ofNat (BigEndian.decode (hyper w)) = w := by
    rw [hyper, BigEndian.decode_encode_of_lt (by simpa using w.toNat_lt)]
    simp
  have hRead := hBytes.map fun bytes => UInt64.ofNat (BigEndian.decode bytes)
  rwa [hHyper] at hRead

/-- Four bytes are a word, whatever they are. -/
theorem exists_word {bytes : List UInt8} {n : Nat} (h : n + 4 ≤ bytes.length) :
    ∃ w rest, bytes = word w ++ rest ∧ n ≤ rest.length := by
  have hLength : (bytes.take 4).length = 4 := List.length_take_of_le (by omega)
  have hBound := BigEndian.decode_lt (bytes.take 4)
  have hBytes := BigEndian.encode_decode (bytes.take 4)
  rw [hLength] at hBound hBytes
  refine ⟨UInt32.ofNat (BigEndian.decode (bytes.take 4)), bytes.drop 4, ?_, ?_⟩
  · rw [word, UInt32.toNat_ofNat', Nat.mod_eq_of_lt (by simpa using hBound), hBytes,
      List.take_append_drop]
  · rw [List.length_drop]
    omega

theorem exists_hyper {bytes : List UInt8} {n : Nat} (h : n + 8 ≤ bytes.length) :
    ∃ w rest, bytes = hyper w ++ rest ∧ n ≤ rest.length := by
  have hLength : (bytes.take 8).length = 8 := List.length_take_of_le (by omega)
  have hBound := BigEndian.decode_lt (bytes.take 8)
  have hBytes := BigEndian.encode_decode (bytes.take 8)
  rw [hLength] at hBound hBytes
  refine ⟨UInt64.ofNat (BigEndian.decode (bytes.take 8)), bytes.drop 8, ?_, ?_⟩
  · rw [hyper, UInt64.toNat_ofNat', Nat.mod_eq_of_lt (by simpa using hBound), hBytes,
      List.take_append_drop]
  · rw [List.length_drop]
    omega

/-- A string within the limit is read back. -/
theorem reads_counted {max : Nat} {bytes : List UInt8} (h : bytes.length ≤ max)
    (hMax : max < 2 ^ 32) : Reads (getCounted max) (counted bytes) bytes := by
  have hCount : (UInt32.ofNat bytes.length).toNat = bytes.length := by
    rw [UInt32.toNat_ofNat', Nat.mod_eq_of_lt (by omega)]
  have hFill := reads_take (List.replicate (padding bytes.length) 0)
  rw [List.length_replicate] at hFill
  apply (reads_word _).bind
  rw [hCount]
  apply Reads.bind_nil (reads_ensure h)
  apply (reads_take bytes).bind
  apply hFill.bind_last
  exact Reads.bind_nil (reads_ensure rfl) (Reads.pure bytes)

end Representation

import Nct.Rpc
import Nct.Support.Representation

/-! Decoding of GETATTR results, as `nct_xdr.c` does it over an XDR memory
stream. A decoder takes bytes off the front of what is left of a reply. -/
namespace Nct

open Representation

/-- A decoder fails, as `x_getlong` does, when too few bytes are left. -/
abbrev Decoder (α : Type) := StateT (List UInt8) Option α

/-- The decoder makes of the `n` bytes of a number that number, and fails for want of
bytes. -/
structure Decodes {α : Type} (d : Decoder α) (bytes : α → List UInt8) (n : Nat) : Prop where
  reads : ∀ v, Reads d (bytes v) v
  short : ∀ input : List UInt8, input.length < n → d.run input = none

/-- What nct takes from libtirpc to decode numbers: `xdr_u_long`, `xdr_u_quad_t` and
`xdr_enum`, which decode numbers as XDR represents them. An `u_long` is sent as a word,
and an enumeration stays the word that it is sent as. -/
structure XdrInts where
  xdrULong : Decoder UInt32
  xdrUQuad : Decoder UInt64
  xdrEnum : Decoder UInt32
  u_long : Decodes xdrULong word 4
  u_quad : Decodes xdrUQuad hyper 8
  enum : Decodes xdrEnum word 4

structure Specdata3 where
  specdata1 : UInt32
  specdata2 : UInt32
  deriving DecidableEq, Repr

structure Nfstime3 where
  seconds : UInt32
  nseconds : UInt32
  deriving DecidableEq, Repr

structure Fattr3 where
  type : UInt32
  mode : UInt32
  nlink : UInt32
  uid : UInt32
  gid : UInt32
  size : UInt64
  used : UInt64
  rdev : Specdata3
  fsid : UInt64
  fileid : UInt64
  atime : Nfstime3
  mtime : Nfstime3
  ctime : Nfstime3
  deriving DecidableEq, Repr

section
variable (xdr : XdrInts)

def xdrUint32 : Decoder UInt32 := xdr.xdrULong

def xdrUint64 : Decoder UInt64 := xdr.xdrUQuad

def xdrSpecdata3 : Decoder Specdata3 := do
  return { specdata1 := ← xdrUint32 xdr, specdata2 := ← xdrUint32 xdr }

def xdrNfstime3 : Decoder Nfstime3 := do
  return { seconds := ← xdrUint32 xdr, nseconds := ← xdrUint32 xdr }

def xdrNfsstat3 : Decoder UInt32 := xdr.xdrEnum

def xdrFattr3 : Decoder Fattr3 := do
  return {
    type := ← xdr.xdrEnum
    mode := ← xdrUint32 xdr
    nlink := ← xdrUint32 xdr
    uid := ← xdrUint32 xdr
    gid := ← xdrUint32 xdr
    size := ← xdrUint64 xdr
    used := ← xdrUint64 xdr
    rdev := ← xdrSpecdata3 xdr
    fsid := ← xdrUint64 xdr
    fileid := ← xdrUint64 xdr
    atime := ← xdrNfstime3 xdr
    mtime := ← xdrNfstime3 xdr
    ctime := ← xdrNfstime3 xdr }

end

def NFS3_OK : UInt32 := 0

/-- `res` after `nct_xdr_getattr3_decode`, which returns TRUE when it has
decoded attributes. -/
structure Getattr3Res where
  status : UInt32
  attributes : Option Fattr3
  deriving DecidableEq, Repr

/-- The caller's `res.status` is not initialised; `status` is what it holds. -/
def xdrGetattr3Decode (xdr : XdrInts) (status : UInt32) (bytes : List UInt8) : Getattr3Res :=
  match (xdrNfsstat3 xdr).run bytes with
  | none => ⟨status, none⟩
  | some (status, rest) =>
      if status == NFS3_OK then ⟨status, ((xdrFattr3 xdr).run rest).map Prod.fst⟩
      else ⟨status, none⟩

/-- The decoder takes exactly `n` bytes, and fails only for want of them. -/
def Takes {α : Type} (n : Nat) (d : Decoder α) : Prop :=
  ∀ bytes, (n ≤ bytes.length → ∃ v, d.run bytes = some (v, bytes.drop n)) ∧
    (bytes.length < n → d.run bytes = none)

theorem Takes.pure {α : Type} (v : α) : Takes 0 (Pure.pure v : Decoder α) :=
  fun bytes => ⟨fun _ => ⟨v, by simp⟩, fun h => absurd h (Nat.not_lt_zero _)⟩

/-- Decoders one after the other take the sum. -/
theorem Takes.bind {α β : Type} {m n : Nat} {d : Decoder α} {k : α → Decoder β}
    (hd : Takes m d) (hk : ∀ v, Takes n (k v)) : Takes (m + n) (d >>= k) := by
  intro bytes
  by_cases hm : m ≤ bytes.length
  · obtain ⟨v, hv⟩ := (hd bytes).1 hm
    have hRun : (d >>= k).run bytes = (k v).run (bytes.drop m) := by
      simp [StateT.run_bind, hv]
    rw [hRun]
    have hLen : (bytes.drop m).length = bytes.length - m := List.length_drop
    refine ⟨fun h => ?_, fun h => (hk v _).2 (by omega)⟩
    obtain ⟨w, hw⟩ := (hk v (bytes.drop m)).1 (by omega)
    exact ⟨w, by rw [hw, List.drop_drop]⟩
  · refine ⟨fun h => absurd h (by omega), fun _ => ?_⟩
    simp [StateT.run_bind, (hd bytes).2 (by omega)]

theorem Takes.map {α β : Type} {n : Nat} {d : Decoder α} (hd : Takes n d) (f : α → β) :
    Takes n (d >>= fun v => Pure.pure (f v)) :=
  hd.bind fun v => Takes.pure (f v)

theorem ntohl_word (w : UInt32) : ntohl (word w) = w := by
  rw [ntohl, word, BigEndian.decode_encode_of_lt (by simpa using w.toNat_lt), UInt32.ofNat_toNat]

/-- A word is decoded from four bytes, whatever they are. -/
theorem Decodes.word_run {d : Decoder UInt32} (h : Decodes d word 4) (input : List UInt8) :
    d.run input = if 4 ≤ input.length then some (ntohl (input.take 4), input.drop 4) else none := by
  by_cases h4 : 4 ≤ input.length
  · obtain ⟨w, rest, rfl, -⟩ := exists_word (n := 0) (by omega)
    rw [h.reads w rest, if_pos h4, List.take_left' (word_length w), List.drop_left' (word_length w),
      ntohl_word]
  · rw [h.short input (by omega), if_neg h4]

/-- A decoded word is the first four bytes, in network order. -/
theorem Decodes.word_of_run {d : Decoder UInt32} (h : Decodes d word 4) {input rest : List UInt8}
    {w : UInt32} (hRun : d.run input = some (w, rest)) :
    4 ≤ input.length ∧ w = ntohl (input.take 4) ∧ rest = input.drop 4 := by
  rw [h.word_run] at hRun
  split at hRun
  · next hLe =>
      cases hRun
      exact ⟨hLe, rfl, rfl⟩
  · cases hRun

theorem Decodes.word_takes {d : Decoder UInt32} (h : Decodes d word 4) : Takes 4 d := by
  intro bytes
  rw [h.word_run]
  exact ⟨fun h4 => ⟨_, if_pos h4⟩, fun hShort => if_neg (by omega)⟩

theorem Decodes.hyper_takes {d : Decoder UInt64} (h : Decodes d hyper 8) : Takes 8 d := by
  intro bytes
  refine ⟨fun h8 => ?_, h.short bytes⟩
  obtain ⟨w, rest, rfl, -⟩ := exists_hyper (n := 0) (by omega)
  exact ⟨w, by rw [h.reads w rest, List.drop_left' (hyper_length w)]⟩

section
variable (xdr : XdrInts)

theorem xdrSpecdata3_takes : Takes 8 (xdrSpecdata3 xdr) :=
  xdr.u_long.word_takes.bind fun _ => xdr.u_long.word_takes.map _

theorem xdrNfstime3_takes : Takes 8 (xdrNfstime3 xdr) :=
  xdr.u_long.word_takes.bind fun _ => xdr.u_long.word_takes.map _

/-- Attributes take 84 bytes. -/
theorem xdrFattr3_takes : Takes 84 (xdrFattr3 xdr) := by
  have hWord := xdr.u_long.word_takes
  have hHyper := xdr.u_quad.hyper_takes
  have hTime := xdrNfstime3_takes xdr
  exact xdr.enum.word_takes.bind fun _ => hWord.bind fun _ => hWord.bind fun _ =>
    hWord.bind fun _ => hWord.bind fun _ => hHyper.bind fun _ => hHyper.bind fun _ =>
    (xdrSpecdata3_takes xdr).bind fun _ => hHyper.bind fun _ => hHyper.bind fun _ =>
    hTime.bind fun _ => hTime.bind fun _ => hTime.map _

/-- A status takes four bytes. -/
theorem xdrNfsstat3_run (bytes : List UInt8) :
    (xdrNfsstat3 xdr).run bytes =
      if 4 ≤ bytes.length then some (ntohl (bytes.take 4), bytes.drop 4) else none :=
  xdr.enum.word_run bytes

/-- The decoder fails, and still leaves NFS3_OK in `res.status`, on a result
that says NFS3_OK but is cut short, and on one shorter than a status word when
`res.status` happened to be zero before. -/
theorem getattr3_failed_ok_iff (status : UInt32) (bytes : List UInt8) :
    ((xdrGetattr3Decode xdr status bytes).attributes = none ∧
      (xdrGetattr3Decode xdr status bytes).status = NFS3_OK) ↔
    (bytes.length < 4 ∧ status = NFS3_OK) ∨
      (4 ≤ bytes.length ∧ bytes.length < 88 ∧ ntohl (bytes.take 4) = NFS3_OK) := by
  rw [xdrGetattr3Decode, xdrNfsstat3_run]
  by_cases h4 : 4 ≤ bytes.length
  · rw [if_pos h4]
    have hLen : (bytes.drop 4).length = bytes.length - 4 := List.length_drop
    have hNot : ¬ bytes.length < 4 := by omega
    by_cases hOk : ntohl (bytes.take 4) = NFS3_OK
    · by_cases h88 : bytes.length < 88
      · simp [hOk, h4, h88, (xdrFattr3_takes xdr (bytes.drop 4)).2 (by omega)]
      · obtain ⟨v, hv⟩ := (xdrFattr3_takes xdr (bytes.drop 4)).1 (by omega)
        simp [hOk, h88, hNot, hv]
    · simp [hOk, hNot]
  · have hLt : bytes.length < 4 := by omega
    simp [h4, hLt]

end

theorem getWord_decodes : Decodes getWord word 4 where
  reads := reads_word
  short input hShort := by
    have hTake : (take 4).run input = none := if_neg (by omega)
    simp [getWord, hTake]

theorem getHyper_decodes : Decodes getHyper hyper 8 where
  reads := reads_hyper
  short input hShort := by
    have hTake : (take 8).run input = none := if_neg (by omega)
    simp [getHyper, hTake]

def rfcInts : XdrInts where
  xdrULong := getWord
  xdrUQuad := getHyper
  xdrEnum := getWord
  u_long := getWord_decodes
  u_quad := getHyper_decodes
  enum := getWord_decodes

end Nct

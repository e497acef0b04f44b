import Nct.Support.Representation

/-! Call messages of ONC RPC: the header with its credential and verifier, as
it is represented and as it is parsed. -/
namespace OncRpc

open Representation

def maxAuthBytes : Nat := 400

structure OpaqueAuth where
  flavor : UInt32
  body : List UInt8
  short : body.length ≤ maxAuthBytes
  deriving DecidableEq, Repr

def OpaqueAuth.bytes (auth : OpaqueAuth) : List UInt8 := word auth.flavor ++ counted auth.body

def getAuth : Parser OpaqueAuth := do
  let flavor ← getWord
  let body ← getCounted maxAuthBytes
  if short : body.length ≤ maxAuthBytes then return ⟨flavor, body, short⟩ else failure

theorem OpaqueAuth.reads (auth : OpaqueAuth) : Reads getAuth auth.bytes auth := by
  refine (reads_word auth.flavor).bind ((reads_counted auth.short (by decide)).bind_last ?_)
  rw [dif_pos auth.short]
  exact Reads.pure auth

theorem OpaqueAuth.bytes_length_le (auth : OpaqueAuth) : auth.bytes.length ≤ 408 := by
  have hBody := counted_length_le 100 auth.short
  simp only [OpaqueAuth.bytes, List.length_append, word_length]
  omega

def callType : UInt32 := 0

structure CallHeader where
  xid : UInt32
  rpcvers : UInt32
  prog : UInt32
  vers : UInt32
  proc : UInt32
  cred : OpaqueAuth
  verf : OpaqueAuth
  deriving DecidableEq, Repr

/-- What follows the xid. -/
def CallHeader.tail (h : CallHeader) : List UInt8 :=
  word callType ++ (word h.rpcvers ++ (word h.prog ++ (word h.vers ++ (word h.proc ++
    (h.cred.bytes ++ h.verf.bytes)))))

def CallHeader.bytes (h : CallHeader) : List UInt8 := word h.xid ++ h.tail

/-- A message of another type than CALL is not a call. -/
def getHeader : Parser CallHeader := do
  let xid ← getWord
  let type ← getWord
  ensure (type = callType)
  let rpcvers ← getWord
  let prog ← getWord
  let vers ← getWord
  let proc ← getWord
  let cred ← getAuth
  let verf ← getAuth
  return { xid, rpcvers, prog, vers, proc, cred, verf }

theorem CallHeader.reads (h : CallHeader) : Reads getHeader h.bytes h := by
  refine (reads_word h.xid).bind ((reads_word callType).bind (Reads.bind_nil (reads_ensure rfl) ?_))
  refine (reads_word h.rpcvers).bind ((reads_word h.prog).bind ((reads_word h.vers).bind ?_))
  refine (reads_word h.proc).bind (h.cred.reads.bind (h.verf.reads.bind_last ?_))
  exact Reads.pure h

theorem CallHeader.bytes_length_le (h : CallHeader) : h.bytes.length ≤ 840 := by
  have hCred := h.cred.bytes_length_le
  have hVerf := h.verf.bytes_length_le
  simp only [CallHeader.bytes, CallHeader.tail, List.length_append, word_length]
  omega

end OncRpc

import Nct.Call

/-! `nct_xdr_fattr3` in both directions. In memory its 32-bit fields are longs; on
the wire the attributes are 84 bytes. -/
namespace Nct

open Representation

/-- `xdr_enum` too, as it encodes. -/
structure AttrTirpc extends Tirpc where
  xdrEnum : UInt32 → Filter

structure AttrTirpc.FollowsRfcs (lib : AttrTirpc) : Prop extends lib.toTirpc.FollowsRfcs where
  enum : ∀ n, Puts (lib.xdrEnum n) (word n)

structure Specdata3Long where
  specdata1 : UInt64
  specdata2 : UInt64
  deriving DecidableEq, Repr

structure Nfstime3Long where
  seconds : UInt64
  nseconds : UInt64
  deriving DecidableEq, Repr

structure Fattr3Long where
  type : UInt32
  mode : UInt64
  nlink : UInt64
  uid : UInt64
  gid : UInt64
  size : UInt64
  used : UInt64
  rdev : Specdata3Long
  fsid : UInt64
  fileid : UInt64
  atime : Nfstime3Long
  mtime : Nfstime3Long
  ctime : Nfstime3Long
  deriving DecidableEq, Repr

def Specdata3Long.Fits (d : Specdata3Long) : Prop :=
  d.specdata1.toNat < 2 ^ 32 ∧ d.specdata2.toNat < 2 ^ 32

def Nfstime3Long.Fits (t : Nfstime3Long) : Prop :=
  t.seconds.toNat < 2 ^ 32 ∧ t.nseconds.toNat < 2 ^ 32

/-- The 32-bit fields hold numbers of 32 bits. -/
structure Fattr3Long.Fits (a : Fattr3Long) : Prop where
  mode : a.mode.toNat < 2 ^ 32
  nlink : a.nlink.toNat < 2 ^ 32
  uid : a.uid.toNat < 2 ^ 32
  gid : a.gid.toNat < 2 ^ 32
  rdev : a.rdev.Fits
  atime : a.atime.Fits
  mtime : a.mtime.Fits
  ctime : a.ctime.Fits

section
variable (lib : AttrTirpc)

def xdrMode3Encode (objp : UInt64) : Filter := xdrUint32Encode lib.toTirpc objp

def xdrUid3Encode (arg : UInt64) : Filter := xdrUint32Encode lib.toTirpc arg

def xdrGid3Encode (arg : UInt64) : Filter := xdrUint32Encode lib.toTirpc arg

def xdrSize3Encode (arg : UInt64) : Filter := xdrUint64Encode lib.toTirpc arg

def xdrFtype3Encode (arg : UInt32) : Filter := lib.xdrEnum arg

def xdrFileid3Encode (arg : UInt64) : Filter := xdrUint64Encode lib.toTirpc arg

def xdrSpecdata3Encode (arg : Specdata3Long) : Filter :=
  (xdrUint32Encode lib.toTirpc arg.specdata1).and (xdrUint32Encode lib.toTirpc arg.specdata2)

def xdrNfstime3Encode (arg : Nfstime3Long) : Filter :=
  (xdrUint32Encode lib.toTirpc arg.seconds).and (xdrUint32Encode lib.toTirpc arg.nseconds)

/-- `nct_xdr_fattr3`, when it encodes -/
def xdrFattr3Encode (arg : Fattr3Long) : Filter :=
  (xdrFtype3Encode lib arg.type).and <|
  (xdrMode3Encode lib arg.mode).and <|
  (xdrUint32Encode lib.toTirpc arg.nlink).and <|
  (xdrUid3Encode lib arg.uid).and <|
  (xdrGid3Encode lib arg.gid).and <|
  (xdrSize3Encode lib arg.size).and <|
  (xdrSize3Encode lib arg.used).and <|
  (xdrSpecdata3Encode lib arg.rdev).and <|
  (xdrUint64Encode lib.toTirpc arg.fsid).and <|
  (xdrFileid3Encode lib arg.fileid).and <|
  (xdrNfstime3Encode lib arg.atime).and <|
  (xdrNfstime3Encode lib arg.mtime).and
  (xdrNfstime3Encode lib arg.ctime)

end

/-- Decoded words, as they are stored into longs. -/
def Specdata3.long (d : Specdata3) : Specdata3Long := ⟨d.specdata1.toUInt64, d.specdata2.toUInt64⟩

def Nfstime3.long (t : Nfstime3) : Nfstime3Long := ⟨t.seconds.toUInt64, t.nseconds.toUInt64⟩

def Fattr3.long (a : Fattr3) : Fattr3Long where
  type := a.type
  mode := a.mode.toUInt64
  nlink := a.nlink.toUInt64
  uid := a.uid.toUInt64
  gid := a.gid.toUInt64
  size := a.size
  used := a.used
  rdev := a.rdev.long
  fsid := a.fsid
  fileid := a.fileid
  atime := a.atime.long
  mtime := a.mtime.long
  ctime := a.ctime.long

def Specdata3.bytes (d : Specdata3) : List UInt8 := word d.specdata1 ++ word d.specdata2

def Nfstime3.bytes (t : Nfstime3) : List UInt8 := word t.seconds ++ word t.nseconds

/-- Attributes as the NFSv3 protocol represents them. -/
def Fattr3.bytes (a : Fattr3) : List UInt8 :=
  word a.type ++ (word a.mode ++ (word a.nlink ++ (word a.uid ++ (word a.gid ++
    (hyper a.size ++ (hyper a.used ++ (a.rdev.bytes ++ (hyper a.fsid ++ (hyper a.fileid ++
      (a.atime.bytes ++ (a.mtime.bytes ++ a.ctime.bytes)))))))))))

/-- Attributes are 84 bytes on the wire. -/
theorem Fattr3.bytes_length (a : Fattr3) : a.bytes.length = 84 := by
  simp [Fattr3.bytes, Specdata3.bytes, Nfstime3.bytes]

/-- A number of 32 bits is a word in a long. -/
theorem exists_long {n : UInt64} (h : n.toNat < 2 ^ 32) : ∃ w : UInt32, w.toUInt64 = n := by
  refine ⟨n.toUInt32, ?_⟩
  apply UInt64.toNat_inj.mp
  rw [UInt32.toNat_toUInt64, UInt64.toNat_toUInt32, Nat.mod_eq_of_lt h]

theorem Specdata3Long.Fits.exists_long {d : Specdata3Long} (h : d.Fits) : ∃ v : Specdata3, v.long = d := by
  obtain ⟨w, hw⟩ := Nct.exists_long h.1
  obtain ⟨w', hw'⟩ := Nct.exists_long h.2
  exact ⟨⟨w, w'⟩, by rw [Specdata3.long, hw, hw']⟩

theorem Nfstime3Long.Fits.exists_long {t : Nfstime3Long} (h : t.Fits) : ∃ v : Nfstime3, v.long = t := by
  obtain ⟨w, hw⟩ := Nct.exists_long h.1
  obtain ⟨w', hw'⟩ := Nct.exists_long h.2
  exact ⟨⟨w, w'⟩, by rw [Nfstime3.long, hw, hw']⟩

/-- Attributes whose 32-bit fields fit are what some decoded attributes are stored as.
-/
theorem Fattr3Long.Fits.exists_long {a : Fattr3Long} (h : a.Fits) : ∃ v : Fattr3, v.long = a := by
  obtain ⟨mode, hMode⟩ := Nct.exists_long h.mode
  obtain ⟨nlink, hNlink⟩ := Nct.exists_long h.nlink
  obtain ⟨uid, hUid⟩ := Nct.exists_long h.uid
  obtain ⟨gid, hGid⟩ := Nct.exists_long h.gid
  obtain ⟨rdev, hRdev⟩ := h.rdev.exists_long
  obtain ⟨atime, hAtime⟩ := h.atime.exists_long
  obtain ⟨mtime, hMtime⟩ := h.mtime.exists_long
  obtain ⟨ctime, hCtime⟩ := h.ctime.exists_long
  refine ⟨⟨a.type, mode, nlink, uid, gid, a.size, a.used, rdev, a.fsid, a.fileid, atime, mtime, ctime⟩, ?_⟩
  simp only [Fattr3.long, hMode, hNlink, hUid, hGid, hRdev, hAtime, hMtime, hCtime]

/-- Of two words, the first is the first field. -/
theorem Specdata3.reads (xdr : XdrInts) (d : Specdata3) : Reads (xdrSpecdata3 xdr) d.bytes d :=
  (xdr.u_long.reads _).bind ((xdr.u_long.reads _).map _)

/-- Of two words, the first is the seconds. -/
theorem Nfstime3.reads (xdr : XdrInts) (t : Nfstime3) : Reads (xdrNfstime3 xdr) t.bytes t :=
  (xdr.u_long.reads _).bind ((xdr.u_long.reads _).map _)

/-- The decoder reads the fields in the protocol's order. -/
theorem Fattr3.reads (xdr : XdrInts) (a : Fattr3) : Reads (xdrFattr3 xdr) a.bytes a := by
  have hWord := xdr.u_long.reads
  have hHyper := xdr.u_quad.reads
  have hTime := Nfstime3.reads xdr
  refine (xdr.enum.reads a.type).bind ((hWord a.mode).bind ((hWord a.nlink).bind ?_))
  refine (hWord a.uid).bind ((hWord a.gid).bind ((hHyper a.size).bind ?_))
  refine (hHyper a.used).bind ((a.rdev.reads xdr).bind ((hHyper a.fsid).bind ?_))
  exact (hHyper a.fileid).bind ((hTime a.atime).bind ((hTime a.mtime).bind ((hTime a.ctime).map _)))

/-- Any 8 bytes are a device number. -/
theorem Specdata3.exists_bytes {input : List UInt8} {n : Nat} (h : n + 8 ≤ input.length) :
    ∃ (d : Specdata3) (rest : List UInt8), input = d.bytes ++ rest ∧ n ≤ rest.length := by
  obtain ⟨specdata1, after, hFirst, hAfter⟩ := exists_word h
  obtain ⟨specdata2, rest, hSecond, hRest⟩ := exists_word hAfter
  exact ⟨⟨specdata1, specdata2⟩, rest, by rw [hFirst, hSecond, Specdata3.bytes, List.append_assoc], hRest⟩

/-- Any 8 bytes are a time. -/
theorem Nfstime3.exists_bytes {input : List UInt8} {n : Nat} (h : n + 8 ≤ input.length) :
    ∃ (t : Nfstime3) (rest : List UInt8), input = t.bytes ++ rest ∧ n ≤ rest.length := by
  obtain ⟨seconds, after, hFirst, hAfter⟩ := exists_word h
  obtain ⟨nseconds, rest, hSecond, hRest⟩ := exists_word hAfter
  exact ⟨⟨seconds, nseconds⟩, rest, by rw [hFirst, hSecond, Nfstime3.bytes, List.append_assoc], hRest⟩

/-- Any 84 bytes are attributes. -/
theorem Fattr3.exists_bytes {input : List UInt8} (h : 84 ≤ input.length) :
    ∃ (a : Fattr3) (rest : List UInt8), input = a.bytes ++ rest := by
  obtain ⟨type, afterType, hType, hAfterType⟩ := exists_word h
  obtain ⟨mode, afterMode, hMode, hAfterMode⟩ := exists_word hAfterType
  obtain ⟨nlink, afterNlink, hNlink, hAfterNlink⟩ := exists_word hAfterMode
  obtain ⟨uid, afterUid, hUid, hAfterUid⟩ := exists_word hAfterNlink
  obtain ⟨gid, afterGid, hGid, hAfterGid⟩ := exists_word hAfterUid
  obtain ⟨size, afterSize, hSize, hAfterSize⟩ := exists_hyper hAfterGid
  obtain ⟨used, afterUsed, hUsed, hAfterUsed⟩ := exists_hyper hAfterSize
  obtain ⟨rdev, afterRdev, hRdev, hAfterRdev⟩ := Specdata3.exists_bytes hAfterUsed
  obtain ⟨fsid, afterFsid, hFsid, hAfterFsid⟩ := exists_hyper hAfterRdev
  obtain ⟨fileid, afterFileid, hFileid, hAfterFileid⟩ := exists_hyper hAfterFsid
  obtain ⟨atime, afterAtime, hAtime, hAfterAtime⟩ := Nfstime3.exists_bytes hAfterFileid
  obtain ⟨mtime, afterMtime, hMtime, hAfterMtime⟩ := Nfstime3.exists_bytes hAfterAtime
  obtain ⟨ctime, rest, hCtime, -⟩ := Nfstime3.exists_bytes hAfterMtime
  refine ⟨⟨type, mode, nlink, uid, gid, size, used, rdev, fsid, fileid, atime, mtime, ctime⟩, rest, ?_⟩
  rw [hType, hMode, hNlink, hUid, hGid, hSize, hUsed, hRdev, hFsid, hFileid, hAtime, hMtime, hCtime]
  simp only [Fattr3.bytes, List.append_assoc]

section
variable {lib : AttrTirpc} (hLib : lib.FollowsRfcs)

include hLib

/-- A long that holds a word is sent as that word. -/
theorem xdrUint32Encode_puts (w : UInt32) : Puts (xdrUint32Encode lib.toTirpc w.toUInt64) (word w) := by
  have hPuts := hLib.u_long w.toUInt64 w.toNat_lt
  rwa [UInt32.toUInt32_toUInt64] at hPuts

theorem xdrSpecdata3Encode_puts (d : Specdata3) : Puts (xdrSpecdata3Encode lib d.long) d.bytes :=
  (xdrUint32Encode_puts hLib _).and (xdrUint32Encode_puts hLib _)

theorem xdrNfstime3Encode_puts (t : Nfstime3) : Puts (xdrNfstime3Encode lib t.long) t.bytes :=
  (xdrUint32Encode_puts hLib _).and (xdrUint32Encode_puts hLib _)

/-- The encoder writes the fields in the protocol's order. -/
theorem xdrFattr3Encode_puts (a : Fattr3) : Puts (xdrFattr3Encode lib a.long) a.bytes := by
  have hWord := xdrUint32Encode_puts hLib
  have hTime := xdrNfstime3Encode_puts hLib
  have hTimes := (hTime a.atime).and ((hTime a.mtime).and (hTime a.ctime))
  have hIds := (hLib.u_quad a.fsid).and ((hLib.u_quad a.fileid).and hTimes)
  have hSizes := (hLib.u_quad a.size).and
    ((hLib.u_quad a.used).and ((xdrSpecdata3Encode_puts hLib a.rdev).and hIds))
  have hOwner := (hWord a.nlink).and ((hWord a.uid).and ((hWord a.gid).and hSizes))
  exact (hLib.enum a.type).and ((hWord a.mode).and hOwner)

end

/-- Attributes are decoded just from a status word that says NFS3_OK and at least
84 bytes after it. -/
theorem getattr3_attributes_iff (xdr : XdrInts) (status : UInt32) (bytes : List UInt8) (a : Fattr3) :
    (xdrGetattr3Decode xdr status bytes).attributes = some a ↔
      ntohl (bytes.take 4) = NFS3_OK ∧ ∃ rest, bytes.drop 4 = a.bytes ++ rest := by
  rw [xdrGetattr3Decode, xdrNfsstat3_run]
  by_cases h4 : 4 ≤ bytes.length
  · rw [if_pos h4]
    by_cases hOk : ntohl (bytes.take 4) = NFS3_OK
    · simp only [hOk, beq_self_eq_true, if_true, true_and]
      constructor
      · intro h
        have hRoom : 84 ≤ (bytes.drop 4).length := by
          by_contra hShort
          rw [(xdrFattr3_takes xdr _).2 (by omega)] at h
          cases h
        obtain ⟨a', rest, hBytes⟩ := Fattr3.exists_bytes hRoom
        rw [hBytes, a'.reads xdr rest] at h
        obtain rfl := Option.some.inj h
        exact ⟨rest, hBytes⟩
      · rintro ⟨rest, hBytes⟩
        rw [hBytes, a.reads xdr rest]
        rfl
    · simp [hOk]
  · have hNone : bytes.drop 4 = [] := List.drop_eq_nil_of_le (by omega)
    rw [if_neg h4, hNone]
    apply iff_of_false (by simp)
    rintro ⟨-, rest, hBytes⟩
    have hLength := congrArg List.length hBytes
    rw [List.length_append, a.bytes_length, List.length_nil] at hLength
    omega

/-- Encoded attributes are 84 bytes, and are decoded to what they were. A result
is decoded just if it says NFS3_OK and has attributes, and these are encoded to
the bytes that they were decoded from. -/
theorem fattr3_codec (lib : AttrTirpc) (hLib : lib.FollowsRfcs) :
    (∀ (arg : Fattr3Long) (x : XdrMem), arg.Fits → x.Within → 84 ≤ x.handy →
      ∃ bytes : List UInt8, bytes.length = 84 ∧ xdrFattr3Encode lib arg x = (true, x.put bytes) ∧
        ∀ rest, ∃ a, (xdrFattr3 lib.ints).run (bytes ++ rest) = some (a, rest) ∧ a.long = arg) ∧
    ∀ (status : UInt32) (bytes : List UInt8),
      ((xdrGetattr3Decode lib.ints status bytes).attributes.isSome ↔
        ntohl (bytes.take 4) = NFS3_OK ∧ 4 + 84 ≤ bytes.length) ∧
      ∀ a ∈ (xdrGetattr3Decode lib.ints status bytes).attributes,
        a.bytes = (bytes.drop 4).take 84 ∧
          ∀ x : XdrMem, x.Within → 84 ≤ x.handy →
            xdrFattr3Encode lib a.long x = (true, x.put ((bytes.drop 4).take 84)) := by
  constructor
  · intro arg x hFits hWithin hRoom
    obtain ⟨a, rfl⟩ := hFits.exists_long
    refine ⟨a.bytes, a.bytes_length, ?_, fun rest => ⟨a, a.reads lib.ints rest, rfl⟩⟩
    exact xdrFattr3Encode_puts hLib a x hWithin (by rwa [a.bytes_length])
  · intro status bytes
    constructor
    · rw [Option.isSome_iff_exists]
      simp only [getattr3_attributes_iff, exists_and_left]
      refine and_congr_right fun _ => ?_
      constructor
      · rintro ⟨a, rest, hBytes⟩
        have hLength := congrArg List.length hBytes
        rw [List.length_append, a.bytes_length, List.length_drop] at hLength
        omega
      · intro hLength
        exact Fattr3.exists_bytes (by rw [List.length_drop]; omega)
    · intro a hAttributes
      obtain ⟨-, rest, hBytes⟩ := (getattr3_attributes_iff lib.ints status bytes a).mp hAttributes
      have hTake : a.bytes = (bytes.drop 4).take 84 := by
        rw [hBytes, List.take_left' a.bytes_length]
      refine ⟨hTake, fun x hWithin hRoom => ?_⟩
      rw [← hTake]
      exact xdrFattr3Encode_puts hLib a x hWithin (by rwa [a.bytes_length])

def rfcAttrTirpc : AttrTirpc where
  toTirpc := rfcTirpc
  xdrEnum n := putFilter (word n)

/-- Attributes of a regular file, in a stream with room for them alone. -/
theorem fattr3_codec_file :
    ∃ bytes : List UInt8, bytes.length = 84 ∧
      xdrFattr3Encode rfcAttrTirpc
          ⟨1, 420, 1, 0, 0, 4096, 4096, ⟨0, 0⟩, 7, 11, ⟨5, 0⟩, ⟨5, 0⟩, ⟨5, 0⟩⟩
          (xdrmemCreate (List.replicate 84 0) 0 84) =
        (true, (xdrmemCreate (List.replicate 84 0) 0 84).put bytes) ∧
      ∀ rest, ∃ a, (xdrFattr3 rfcInts).run (bytes ++ rest) = some (a, rest) ∧
        a.long = ⟨1, 420, 1, 0, 0, 4096, 4096, ⟨0, 0⟩, 7, 11, ⟨5, 0⟩, ⟨5, 0⟩, ⟨5, 0⟩⟩ := by
  have hLib : rfcAttrTirpc.FollowsRfcs :=
    { toFollowsRfcs := rfcTirpc_follows
      enum := fun n => putFilter_puts (word n) }
  have hTwo : (5 : UInt64).toNat < 2 ^ 32 ∧ (0 : UInt64).toNat < 2 ^ 32 := by decide
  have hWithin : (xdrmemCreate (List.replicate 84 0) 0 84).Within := by
    simp [XdrMem.Within, xdrmemCreate]
  exact (fattr3_codec rfcAttrTirpc hLib).1 _ _
    ⟨by decide, by decide, by decide, by decide, ⟨hTwo.2, hTwo.2⟩, hTwo, hTwo, hTwo⟩ hWithin (by decide)

end Nct

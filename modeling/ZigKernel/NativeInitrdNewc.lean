import ZigKernel.LangSlice

/-! `src/native/initrd_newc.zig`: the lookup of the one file of a strict cpio archive. -/

namespace Native

open Zig

namespace InitrdNewc

def maxPayload : Nat := 64 * 1024 * 1024
def headerSize : Nat := 110
/-- `070701` -/
def magic : List UInt8 := [0x30, 0x37, 0x30, 0x37, 0x30, 0x31]
/-- `070702` -/
def crcMagic : List UInt8 := [0x30, 0x37, 0x30, 0x37, 0x30, 0x32]
/-- `/init` -/
def initName : List UInt8 := [0x2f, 0x69, 0x6e, 0x69, 0x74]
/-- `TRAILER!!!` -/
def trailerName : List UInt8 := [0x54, 0x52, 0x41, 0x49, 0x4c, 0x45, 0x52, 0x21, 0x21, 0x21]
def initNamesize : Nat := 6
def trailerNamesize : Nat := 11

def sIfmt : Nat := 0o170000
def sIfreg : Nat := 0o100000
def sIxusr : Nat := 0o100
def sIxgrp : Nat := 0o010
def sIxoth : Nat := 0o001
def sIrwxugo : Nat := 0o777

inductive Error where
  | payloadTooLarge | truncated | badMagic | crcMagic | badHex | badCheck | badNamesize | embeddedNul | badName
  | unknownFile | duplicateName | missingInit | missingTrailer | badTrailer | trailerHasData | badMode | badNlink
  | noExecutableBit | emptyInit | initTooLarge | sizeOverflow | badPadding | nonzeroTail
  deriving DecidableEq, Repr

structure Entry where
  name : List UInt8
  bytes : List UInt8
  offset : Nat
  length : Nat
  deriving DecidableEq, Repr

structure Record where
  ino : Nat
  mode : Nat
  uid : Nat
  gid : Nat
  nlink : Nat
  mtime : Nat
  filesize : Nat
  devmajor : Nat
  devminor : Nat
  rdevmajor : Nat
  rdevminor : Nat
  namesize : Nat
  check : Nat
  name : List UInt8
  dataOff : Nat
  deriving DecidableEq, Repr

def add (a b : Nat) : Outcome Error Nat :=
  match mathAdd a b with
  | none => .error .sizeOverflow
  | some sum => .ok sum

def align4 (off : Nat) : Outcome Error Nat :=
  let rem := off &&& 3
  if rem = 0 then .ok off else add off (4 - rem)

def hexVal (c : UInt8) : Outcome Error Nat :=
  if 0x30 ≤ c.toNat ∧ c.toNat ≤ 0x39 then .ok (c.toNat - 0x30)
  else if 0x61 ≤ c.toNat ∧ c.toNat ≤ 0x66 then .ok (c.toNat - 0x61 + 10)
  else if 0x41 ≤ c.toNat ∧ c.toNat ≤ 0x46 then .ok (c.toNat - 0x41 + 10)
  else .error .badHex

/-- The loop of `parseHex8`; the shift drops what leaves 32 bits. -/
def hexDigits (v : Nat) : List UInt8 → Outcome Error Nat
  | [] => .ok v
  | c :: rest => do hexDigits ((v <<< 4) % u32Bound ||| (← hexVal c)) rest

def parseHex8 (field : List UInt8) : Outcome Error Nat := do hexDigits 0 (← slice field 0 8)

def sliceRange (payload : List UInt8) (start len : Nat) : Outcome Error (List UInt8) := do
  let stop ← add start len
  if stop > payload.length then .error .truncated else slice payload start stop

def requireZero (payload : List UInt8) (start stop : Nat) : Outcome Error Unit :=
  if stop < start then .error .sizeOverflow
  else if stop > payload.length then .error .truncated
  else do
    let padding ← slice payload start stop
    if ∃ b ∈ padding, b ≠ 0 then .error .badPadding else .ok ()

/-- `/` -/
def slash : UInt8 := 0x2f
/-- `.` -/
def dot : UInt8 := 0x2e

/-- The loop of `badPath` on `name[i..]`. -/
def badParts : List UInt8 → Bool
  | [] => false
  | c :: rest =>
      if c ≠ slash then badParts rest
      else
        match rest with
        | [] => true
        | d :: tail =>
            if d = slash then true
            else
              let part := (d :: tail).takeWhile (· ≠ slash)
              if part = [dot] ∨ part = [dot, dot] then true else badParts ((d :: tail).dropWhile (· ≠ slash))
  termination_by name => name.length
  decreasing_by
    · exact Nat.lt_succ_self _
    · exact Nat.lt_succ_of_le (List.dropWhile_suffix _).length_le

def badPath (name : List UInt8) : Bool := if name.head? ≠ some slash then true else badParts name

/-- An ASCII letter in lower case. -/
def lowerAscii (c : UInt8) : UInt8 := if 0x41 ≤ c ∧ c ≤ 0x5a then c + 0x20 else c

def eqIgnoreAscii (a b : List UInt8) : Bool := a.map lowerAscii = b.map lowerAscii

/-- `parseHex8(hdr[6 + 8 * i .. 14 + 8 * i])` -/
def hexField (hdr : List UInt8) (i : Nat) : Outcome Error Nat := do parseHex8 (← slice hdr (6 + 8 * i) (14 + 8 * i))

/-- The part of `parseHeaderName` behind the fields. -/
def parseName (payload : List UInt8) (start : Nat) (rec : Record) : Outcome Error Record :=
  if rec.check ≠ 0 then .error .badCheck
  else if rec.namesize = 0 then .error .badNamesize
  else do
    let nameOff ← add start headerSize
    let nameRaw ← sliceRange payload nameOff rec.namesize
    if (← index nameRaw (nameRaw.length - 1)) ≠ 0 then .error .badNamesize
    else do
      let nameBody ← slice nameRaw 0 (nameRaw.length - 1)
      if 0 ∈ nameBody then .error .embeddedNul
      else do
        let nameEnd ← add nameOff rec.namesize
        let dataOff ← align4 nameEnd
        requireZero payload nameEnd dataOff
        return { rec with name := nameBody, dataOff }

/-- Parses magic, the thirteen fields, the name with its NUL, and the padding behind it. -/
def parseHeaderName (payload : List UInt8) (start : Nat) : Outcome Error Record := do
  let hdr ← sliceRange payload start headerSize
  let recMagic ← slice hdr 0 6
  if recMagic = crcMagic then .error .crcMagic
  else if recMagic ≠ magic then .error .badMagic
  else do
    let ino ← hexField hdr 0
    let mode ← hexField hdr 1
    let uid ← hexField hdr 2
    let gid ← hexField hdr 3
    let nlink ← hexField hdr 4
    let mtime ← hexField hdr 5
    let filesize ← hexField hdr 6
    let devmajor ← hexField hdr 7
    let devminor ← hexField hdr 8
    let rdevmajor ← hexField hdr 9
    let rdevminor ← hexField hdr 10
    let namesize ← hexField hdr 11
    let check ← hexField hdr 12
    parseName payload start
      { ino, mode, uid, gid, nlink, mtime, filesize, devmajor, devminor, rdevmajor, rdevminor, namesize, check,
        name := [], dataOff := 0 }

/-- The data of a record, and where the next one starts. -/
def takeFile (payload : List UInt8) (rec : Record) : Outcome Error (List UInt8 × Nat) := do
  let data ← sliceRange payload rec.dataOff rec.filesize
  let dataEnd ← add rec.dataOff rec.filesize
  let next ← align4 dataEnd
  requireZero payload dataEnd next
  return (data, next)

def checkInitMode (rec : Record) : Outcome Error Unit :=
  if rec.mode &&& sIfmt ≠ sIfreg then .error .badMode
  else if rec.mode &&& notU32 (sIfreg ||| sIrwxugo) ≠ 0 then .error .badMode
  else if rec.mode &&& (sIxusr ||| sIxgrp ||| sIxoth) = 0 then .error .noExecutableBit
  else if rec.nlink ≠ 1 then .error .badNlink
  else if rec.filesize = 0 then .error .emptyInit
  else if rec.filesize > maxPayload then .error .initTooLarge
  else do
    let dataEnd ← add rec.dataOff rec.filesize
    if dataEnd > maxPayload then .error .initTooLarge else .ok ()

def checkTrailer (rec : Record) : Outcome Error Unit :=
  if rec.filesize ≠ 0 then .error .trailerHasData
  else if rec.mode ≠ 0 then .error .badTrailer
  else if rec.nlink ≠ 0 ∧ rec.nlink ≠ 1 then .error .badNlink
  else .ok ()

def classifyFirstName (name : List UInt8) : Outcome Error Unit :=
  if name = initName then .ok ()
  else if name = trailerName then .error .missingInit
  else if badPath name ∨ eqIgnoreAscii name initName then .error .badName
  else .error .unknownFile

def classifySecondName (name : List UInt8) : Outcome Error Unit :=
  if name = trailerName then .ok ()
  else if name = initName then .error .duplicateName
  else if badPath name ∨ eqIgnoreAscii name initName then .error .badName
  else .error .badTrailer

/-- `error.Truncated => return error.MissingTrailer` -/
def missingTrailer : Error → Error
  | .truncated => .missingTrailer
  | e => e

/-- The tail loop from index `i`. -/
def checkTail (payload : List UInt8) (i : Nat) : Outcome Error Unit :=
  if ∃ b ∈ payload.drop i, b ≠ 0 then .error .nonzeroTail else .ok ()

/-- The part of `parse` behind the record of the file. -/
def parseTrailer (payload : List UInt8) (next : Nat) : Outcome Error Unit :=
  if next ≥ payload.length then .error .missingTrailer
  else do
    let trailer ← (parseHeaderName payload next).mapError missingTrailer
    classifySecondName trailer.name
    if trailer.namesize ≠ trailerNamesize then .error .badNamesize
    else do
      checkTrailer trailer
      let trailerFile ← (takeFile payload trailer).mapError missingTrailer
      checkTail payload trailerFile.2

/-- Discovers the single regular `/init` member. -/
def parse (payload : List UInt8) : Outcome Error Entry :=
  if payload.length > maxPayload then .error .payloadTooLarge
  else if payload.length < headerSize then .error .truncated
  else do
    let initRec ← parseHeaderName payload 0
    classifyFirstName initRec.name
    if initRec.namesize ≠ initNamesize then .error .badNamesize
    else do
      checkInitMode initRec
      let initFile ← takeFile payload initRec
      parseTrailer payload initFile.2
      return { name := initRec.name, bytes := initFile.1, offset := initRec.dataOff, length := initRec.filesize }

/-- An archive of one file of five bytes, with fields in both cases. -/
def sampleArchive : List UInt8 :=
  let hex (digits : List UInt8) : List UInt8 := List.replicate (8 - digits.length) 0x30 ++ digits
  let zero := hex []
  let header (mode nlink filesize namesize : List UInt8) : List UInt8 :=
    magic ++ hex [0x61, 0x42] ++ hex mode ++ zero ++ zero ++ hex nlink ++ zero ++ hex filesize ++ zero ++ zero ++ zero ++
      zero ++ hex namesize ++ zero
  header [0x38, 0x31, 0x65, 0x44] [0x31] [0x35] [0x36] ++ initName ++ [0] ++ [1, 2, 3, 4, 5] ++ [0, 0, 0] ++
    header [] [0x31] [] [0x62] ++ trailerName ++ [0] ++ [0, 0, 0] ++ [0, 0]

example : parse sampleArchive = .ok { name := initName, bytes := [1, 2, 3, 4, 5], offset := 116, length := 5 } := by
  decide +kernel

end InitrdNewc

end Native

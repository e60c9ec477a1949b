import Tinox.Data.LittleEndian
import Tinox.Runtime.Map

/-!
# Zip archives

The reader and the writer of stored archives, and the calls that edit an archive: each reads
the whole file and writes it anew.
-/

namespace Tinox.Runtime

/-- `TinoxZipMember`. -/
structure TinoxZipMember where
  name : CString
  data : List UInt8
  size : UInt32
  deriving DecidableEq

/-- An entry of the table of `tinox_zip_crc32`. -/
def crcTable (i : UInt32) : UInt32 :=
  (List.range 8).foldl
    (fun (c : UInt32) _ => if c &&& 1 ≠ 0 then (0xEDB88320 : UInt32) ^^^ (c >>> 1) else c >>> 1) i

/-- `tinox_zip_crc32`. -/
def zipCrc32 (data : List UInt8) : UInt32 :=
  let crc := data.foldl
    (fun crc b => crcTable ((crc ^^^ b.toUInt32) &&& 0xFF) ^^^ (crc >>> 8)) (0xFFFFFFFF : UInt32)
  crc ^^^ 0xFFFFFFFF

/-- `tinox_zip_rd16`. -/
def zipRd16 (p : List UInt8) : UInt16 :=
  (p.getD 0 0).toUInt16 ||| (p.getD 1 0).toUInt16 <<< 8

/-- `tinox_zip_rd32`. -/
def zipRd32 (p : List UInt8) : UInt32 :=
  (p.getD 0 0).toUInt32 ||| (p.getD 1 0).toUInt32 <<< 8 ||| (p.getD 2 0).toUInt32 <<< 16 |||
    (p.getD 3 0).toUInt32 <<< 24

/-- `tinox_zip_wr16`. -/
def zipWr16 (v : UInt16) : List UInt8 :=
  [(v &&& 0xFF).toUInt8, ((v >>> 8) &&& 0xFF).toUInt8]

/-- `tinox_zip_wr32`. -/
def zipWr32 (v : UInt32) : List UInt8 :=
  [(v &&& 0xFF).toUInt8, ((v >>> 8) &&& 0xFF).toUInt8, ((v >>> 16) &&& 0xFF).toUInt8,
    ((v >>> 24) &&& 0xFF).toUInt8]

/-- The bytes of a buffer up to its first zero byte. -/
def upToZero (buf : List UInt8) : CString :=
  buf.takeWhile (· != 0)

/-- The loop of `tinox_zip_parse`, at the bytes from `pos` on. -/
def zipParseLoop (p : List UInt8) : List TinoxZipMember :=
  if 30 ≤ p.length ∧ zipRd32 p = 0x04034b50 then
    let method := zipRd16 (p.drop 8)
    let csize := zipRd32 (p.drop 18)
    let usize := zipRd32 (p.drop 22)
    let nlen := (zipRd16 (p.drop 26)).toNat
    let elen := (zipRd16 (p.drop 28)).toNat
    let dataOff := 30 + nlen + elen
    if p.length < dataOff + csize.toNat then []
    else
      let rest := zipParseLoop (p.drop (dataOff + csize.toNat))
      if method = 0 ∧ usize = csize then
        ⟨upToZero ((p.drop 30).take nlen), (p.drop dataOff).take usize.toNat, usize⟩ :: rest
      else rest
  else []
termination_by p.length
decreasing_by
  rename_i isHeader _
  rw [List.length_drop]
  omega

/-- `tinox_zip_parse`, for the file at the path, if there is one. -/
def zipParse : Option (List UInt8) → List TinoxZipMember
  | none => []
  | some buf => if buf.length < 4 then [] else zipParseLoop buf

/-- The length of a member's name as it is written. -/
def nameLength (m : TinoxZipMember) : UInt16 :=
  UInt16.ofNat m.name.length

/-- The local file header of a member. -/
def localHeader (m : TinoxZipMember) (crc : UInt32) : List UInt8 :=
  zipWr32 0x04034b50 ++ zipWr16 20 ++ zipWr16 0 ++ zipWr16 0 ++ zipWr16 0 ++ zipWr16 0x21 ++
    zipWr32 crc ++ zipWr32 m.size ++ zipWr32 m.size ++ zipWr16 (nameLength m) ++ zipWr16 0

/-- The header of a member in the central directory. -/
def centralHeader (m : TinoxZipMember) (crc offset : UInt32) : List UInt8 :=
  zipWr32 0x02014b50 ++ zipWr16 20 ++ zipWr16 20 ++ zipWr16 0 ++ zipWr16 0 ++ zipWr16 0 ++
    zipWr16 0x21 ++ zipWr32 crc ++ zipWr32 m.size ++ zipWr32 m.size ++ zipWr16 (nameLength m) ++
    zipWr16 0 ++ zipWr16 0 ++ zipWr16 0 ++ zipWr16 0 ++ zipWr32 0 ++ zipWr32 offset

/-- The end of the central directory. -/
def endOfDirectory (n : Nat) (cdSize cdStart : UInt32) : List UInt8 :=
  zipWr32 0x06054b50 ++ zipWr16 0 ++ zipWr16 0 ++ zipWr16 (UInt16.ofNat n) ++
    zipWr16 (UInt16.ofNat n) ++ zipWr32 cdSize ++ zipWr32 cdStart ++ zipWr16 0

/-- A member with its checksum and the offset of its local header. -/
structure PlacedMember where
  member : TinoxZipMember
  crc : UInt32
  offset : UInt32

/-- What is written for a member in front of the central directory. -/
def PlacedMember.localRecord (placed : PlacedMember) : List UInt8 :=
  localHeader placed.member placed.crc ++
    placed.member.name.take (nameLength placed.member).toNat ++
    placed.member.data.take placed.member.size.toNat

/-- What is written for a member in the central directory. -/
def PlacedMember.centralRecord (placed : PlacedMember) : List UInt8 :=
  centralHeader placed.member placed.crc placed.offset ++
    placed.member.name.take (nameLength placed.member).toNat

/-- The first loop of `tinox_zip_write`: the members as they are placed, and the last cursor. -/
def placeMembers (cursor : UInt32) : List TinoxZipMember → List PlacedMember × UInt32
  | [] => ([], cursor)
  | m :: mem =>
      let rest := placeMembers (cursor + (30 + (nameLength m).toUInt32 + m.size)) mem
      (⟨m, zipCrc32 m.data, cursor⟩ :: rest.1, rest.2)

/-- The cursor of the second loop of `tinox_zip_write`. -/
def directoryEnd (cursor : UInt32) (mem : List TinoxZipMember) : UInt32 :=
  mem.foldl (fun cursor m => cursor + (46 + (nameLength m).toUInt32)) cursor

/-- `tinox_zip_write`: the file that is written. -/
def zipWrite (mem : List TinoxZipMember) : List UInt8 :=
  let placed := placeMembers 0 mem
  let cdStart := placed.2
  let cdSize := directoryEnd cdStart mem - cdStart
  placed.1.flatMap (·.localRecord) ++ placed.1.flatMap (·.centralRecord) ++
    endOfDirectory mem.length cdSize cdStart

/-- `zipEntryCount`. -/
def zipEntryCount (file : Option (List UInt8)) : Int64 :=
  Int64.ofNat (zipParse file).length

/-- `zipEntryName`. -/
def zipEntryName (file : Option (List UInt8)) (idx : Int64) : CString :=
  let mem := zipParse file
  if idx < 0 || Int64.ofNat mem.length ≤ idx then []
  else (mem.map TinoxZipMember.name).getD idx.toInt.toNat []

/-- `zipEntrySize`. -/
def zipEntrySize (file : Option (List UInt8)) (idx : Int64) : Int64 :=
  let mem := zipParse file
  if idx < 0 || Int64.ofNat mem.length ≤ idx then 0
  else (mem.map fun m => Int64.ofNat m.size.toNat).getD idx.toInt.toNat 0

/-- `zipExtractFile`. -/
def zipExtractFile (file : Option (List UInt8)) (name : CString) : CString :=
  match (zipParse file).find? (·.name = name) with
  | some m => upToZero m.data
  | none => []

/-- `zipAddFile`: the file that it leaves. -/
def zipAddFile (file : Option (List UInt8)) (name content : CString) : List UInt8 :=
  zipWrite ((zipParse file).filter (·.name ≠ name) ++
    [⟨name, content, UInt32.ofNat content.length⟩])

/-- `zipRemoveFile`: the file that it leaves. -/
def zipRemoveFile (file : Option (List UInt8)) (name : CString) : List UInt8 :=
  zipWrite ((zipParse file).filter (·.name ≠ name))

end Tinox.Runtime

import Mathlib.Data.List.Nodup
import Mathlib.Data.List.TakeWhile
import Tinox.Runtime.Zip

/-!
# A zip archive is a finite map of files

What the writer writes, the reader reads back, and the central directory says the same.  So
the calls that edit an archive keep a finite map from names to contents.
-/

namespace Tinox.Runtime

theorem zipWr16_eq (v : UInt16) : zipWr16 v = LittleEndian.bytes 2 v.toNat := by
  have low : (v &&& 0xFF).toUInt8 = UInt8.ofNat v.toNat := by
    apply UInt8.toNat_inj.mp
    rw [UInt16.toNat_toUInt8, UInt16.toNat_and, UInt8.toNat_ofNat']
    change (v.toNat &&& (2 ^ 8 - 1)) % 2 ^ 8 = _
    rw [Nat.and_two_pow_sub_one_eq_mod, Nat.mod_mod]
  have high : ((v >>> 8) &&& 0xFF).toUInt8 = UInt8.ofNat (v.toNat / 256) := by
    apply UInt8.toNat_inj.mp
    rw [UInt16.toNat_toUInt8, UInt16.toNat_and, UInt8.toNat_ofNat', UInt16.toNat_shiftRight]
    change (v.toNat >>> 8 &&& (2 ^ 8 - 1)) % 2 ^ 8 = _
    rw [Nat.and_two_pow_sub_one_eq_mod, Nat.mod_mod, Nat.shiftRight_eq_div_pow]
  rw [zipWr16, low, high]
  rfl

theorem zipWr32_byte (v : UInt32) {shift : UInt32} {k : Nat} (isShift : shift.toNat % 32 = k) :
    ((v >>> shift) &&& 0xFF).toUInt8 = UInt8.ofNat (v.toNat / 2 ^ k) := by
  apply UInt8.toNat_inj.mp
  rw [UInt32.toNat_toUInt8, UInt32.toNat_and, UInt8.toNat_ofNat', UInt32.toNat_shiftRight, isShift]
  change (v.toNat >>> k &&& (2 ^ 8 - 1)) % 2 ^ 8 = _
  rw [Nat.and_two_pow_sub_one_eq_mod, Nat.mod_mod, Nat.shiftRight_eq_div_pow]

theorem zipWr32_eq (v : UInt32) : zipWr32 v = LittleEndian.bytes 4 v.toNat := by
  have low : (v &&& 0xFF).toUInt8 = UInt8.ofNat v.toNat := by
    have unshifted := @zipWr32_byte v 0 0 rfl
    rwa [UInt32.shiftRight_zero, Nat.pow_zero, Nat.div_one] at unshifted
  rw [zipWr32, low, zipWr32_byte v (k := 8) rfl, zipWr32_byte v (k := 16) rfl,
    zipWr32_byte v (k := 24) rfl]
  simp only [LittleEndian.bytes, Nat.div_div_eq_div_mul]
  rfl

theorem toNat_zipRd16 (a b : UInt8) (rest : List UInt8) :
    (zipRd16 (a :: b :: rest)).toNat = LittleEndian.value [a, b] := by
  have high : b.toNat <<< 8 < 2 ^ 16 := by
    rw [Nat.shiftLeft_eq]
    have small := b.toNat_lt
    omega
  change (a.toUInt16 ||| b.toUInt16 <<< 8).toNat = _
  rw [UInt16.toNat_or, UInt16.toNat_shiftLeft, UInt8.toNat_toUInt16, UInt8.toNat_toUInt16,
    LittleEndian.value_two]
  change a.toNat ||| b.toNat <<< 8 % 2 ^ 16 = _
  rw [Nat.mod_eq_of_lt high]

theorem toNat_zipRd32 (a b c d : UInt8) (rest : List UInt8) :
    (zipRd32 (a :: b :: c :: d :: rest)).toNat = LittleEndian.value [a, b, c, d] := by
  have shifted (x : UInt8) {k : Nat} (short : k ≤ 24) : x.toNat <<< k % 2 ^ 32 = x.toNat <<< k := by
    apply Nat.mod_eq_of_lt
    rw [Nat.shiftLeft_eq]
    calc x.toNat * 2 ^ k < 2 ^ 8 * 2 ^ k := Nat.mul_lt_mul_of_pos_right x.toNat_lt (Nat.two_pow_pos k)
      _ ≤ 2 ^ 8 * 2 ^ 24 := Nat.mul_le_mul_left _ (Nat.pow_le_pow_right (by decide) short)
      _ = 2 ^ 32 := rfl
  change (a.toUInt32 ||| b.toUInt32 <<< 8 ||| c.toUInt32 <<< 16 ||| d.toUInt32 <<< 24).toNat = _
  rw [UInt32.toNat_or, UInt32.toNat_or, UInt32.toNat_or, UInt32.toNat_shiftLeft,
    UInt32.toNat_shiftLeft, UInt32.toNat_shiftLeft, UInt8.toNat_toUInt32, UInt8.toNat_toUInt32,
    UInt8.toNat_toUInt32, UInt8.toNat_toUInt32, LittleEndian.value_four]
  change a.toNat ||| b.toNat <<< 8 % 2 ^ 32 ||| c.toNat <<< 16 % 2 ^ 32 ||| d.toNat <<< 24 % 2 ^ 32 = _
  rw [shifted b (by decide), shifted c (by decide), shifted d (by decide)]

theorem zipRd16_wr16 (v : UInt16) (rest : List UInt8) : zipRd16 (zipWr16 v ++ rest) = v := by
  apply UInt16.toNat_inj.mp
  rw [zipWr16_eq]
  exact (toNat_zipRd16 _ _ rest).trans (@LittleEndian.value_bytes 2 _ v.toNat_lt)

theorem zipRd32_wr32 (v : UInt32) (rest : List UInt8) : zipRd32 (zipWr32 v ++ rest) = v := by
  apply UInt32.toNat_inj.mp
  rw [zipWr32_eq]
  exact (toNat_zipRd32 _ _ _ _ rest).trans (@LittleEndian.value_bytes 4 _ v.toNat_lt)

/-- A member that the formats' fields can hold. -/
structure IsMember (m : TinoxZipMember) : Prop where
  name : 0 ∉ m.name
  short : m.name.length < 65536
  size : m.size.toNat = m.data.length

variable {placed : PlacedMember}

theorem upToZero_eq {buf : List UInt8} (noZero : 0 ∉ buf) : upToZero buf = buf := by
  rw [upToZero, List.takeWhile_eq_self_iff]
  intro b member
  rw [bne_iff_ne]
  rintro rfl
  exact noZero member

theorem IsMember.nameLength {m : TinoxZipMember} (isMember : IsMember m) :
    (nameLength m).toNat = m.name.length :=
  (UInt16.toNat_ofNat').trans (Nat.mod_eq_of_lt isMember.short)

theorem localRecord_eq (isMember : IsMember placed.member) : placed.localRecord =
      localHeader placed.member placed.crc ++ (placed.member.name ++ placed.member.data) := by
  rw [PlacedMember.localRecord, isMember.nameLength, isMember.size, List.take_length, List.take_length,
    List.append_assoc]

theorem centralRecord_eq (isMember : IsMember placed.member) : placed.centralRecord =
      centralHeader placed.member placed.crc placed.offset ++ placed.member.name := by
  rw [PlacedMember.centralRecord, isMember.nameLength, List.take_length]

theorem length_localRecord (isMember : IsMember placed.member) :
    placed.localRecord.length = 30 + placed.member.name.length + placed.member.data.length := by
  rw [localRecord_eq isMember, List.length_append, List.length_append, ← Nat.add_assoc]
  rfl

variable {mem : List TinoxZipMember}

theorem zipParseLoop_local (isMember : IsMember placed.member) (rest : List UInt8) :
    zipParseLoop (placed.localRecord ++ rest) = placed.member :: zipParseLoop rest := by
  rcases placed with ⟨m, crc, offset⟩
  have isName := isMember.nameLength
  have isSize := isMember.size
  rw [localRecord_eq isMember, List.append_assoc]
  dsimp only at isName isSize ⊢
  generalize isContent : m.name ++ m.data ++ rest = content
  have isSignature : zipRd32 (localHeader m crc ++ content) = 0x04034b50 := zipRd32_wr32 _ _
  have isMethod : zipRd16 ((localHeader m crc ++ content).drop 8) = 0 := zipRd16_wr16 0 _
  have isCsize : zipRd32 ((localHeader m crc ++ content).drop 18) = m.size := zipRd32_wr32 m.size _
  have isUsize : zipRd32 ((localHeader m crc ++ content).drop 22) = m.size := zipRd32_wr32 m.size _
  have isNlen : zipRd16 ((localHeader m crc ++ content).drop 26) = nameLength m := zipRd16_wr16 _ _
  have isElen : zipRd16 ((localHeader m crc ++ content).drop 28) = 0 := zipRd16_wr16 0 content
  have isLength : (localHeader m crc ++ content).length = 30 + content.length := by
    rw [List.length_append]
    rfl
  have isDrop (k : Nat) : (localHeader m crc ++ content).drop (30 + k) = content.drop k := by
    rw [← List.drop_drop]
    rfl
  have isContentLength : content.length = m.name.length + m.data.length + rest.length := by
    rw [← isContent, List.length_append, List.length_append]
  have inside : ¬ (localHeader m crc ++ content).length <
      30 + m.name.length + UInt16.toNat 0 + m.data.length := by
    rw [isLength, isContentLength]
    change ¬ _ < 30 + m.name.length + 0 + m.data.length
    omega
  have isNameText : ((localHeader m crc ++ content).drop 30).take m.name.length = m.name := by
    rw [isDrop 0, List.drop_zero, ← isContent, List.append_assoc, List.take_left]
  have isData : ((localHeader m crc ++ content).drop (30 + m.name.length + UInt16.toNat 0)).take
      m.data.length = m.data := by
    change ((localHeader m crc ++ content).drop (30 + m.name.length)).take m.data.length = m.data
    rw [isDrop, ← isContent, List.append_assoc, List.drop_left, List.take_left]
  have isRest : (localHeader m crc ++ content).drop
      (30 + m.name.length + UInt16.toNat 0 + m.data.length) = rest := by
    change (localHeader m crc ++ content).drop (30 + m.name.length + m.data.length) = rest
    rw [Nat.add_assoc, isDrop, ← isContent, ← List.length_append, List.drop_left]
  rw [zipParseLoop, if_pos ⟨by omega, isSignature⟩]
  simp only [isMethod, isCsize, isUsize, isNlen, isElen, isName, isSize]
  rw [if_neg inside, if_pos ⟨trivial, trivial⟩, isNameText, isData, isRest, upToZero_eq isMember.name]

theorem zipParseLoop_end {p : List UInt8} (other : zipRd32 p ≠ 0x04034b50) : zipParseLoop p = [] := by
  rw [zipParseLoop, if_neg]
  exact fun isHeader => other isHeader.2

theorem placeMembers_members (cursor : UInt32) (mem : List TinoxZipMember) :
    (placeMembers cursor mem).1.map PlacedMember.member = mem := by
  induction mem generalizing cursor with
  | nil => rfl
  | cons m mem ih => exact congrArg (m :: ·) (ih _)

theorem zipParseLoop_locals {placed : List PlacedMember} (valid : ∀ p ∈ placed, IsMember p.member)
    (rest : List UInt8) :
    zipParseLoop (placed.flatMap (·.localRecord) ++ rest) =
      placed.map PlacedMember.member ++ zipParseLoop rest := by
  induction placed with
  | nil => rfl
  | cons p placed ih =>
      rw [List.forall_mem_cons] at valid
      rw [List.flatMap_cons, List.append_assoc, zipParseLoop_local valid.1, ih valid.2]
      rfl

theorem valid_placed (valid : ∀ m ∈ mem, IsMember m) (cursor : UInt32) :
    ∀ p ∈ (placeMembers cursor mem).1, IsMember p.member := by
  intro p member
  apply valid
  rw [← placeMembers_members cursor mem]
  exact List.mem_map_of_mem member

theorem zipParse_write (valid : ∀ m ∈ mem, IsMember m) : zipParse (some (zipWrite mem)) = mem := by
  have isLong : ¬ (zipWrite mem).length < 4 := by
    rw [zipWrite, List.length_append]
    exact Nat.not_lt.mpr (Nat.le_trans (by decide : 4 ≤ 22) (Nat.le_add_left _ _))
  rw [zipParse, if_neg isLong, zipWrite, List.append_assoc, zipParseLoop_locals (valid_placed valid 0), placeMembers_members]
  have stops : zipParseLoop ((placeMembers 0 mem).1.flatMap (·.centralRecord) ++
      endOfDirectory mem.length (directoryEnd (placeMembers 0 mem).2 mem - (placeMembers 0 mem).2)
        (placeMembers 0 mem).2) = [] := by
    apply zipParseLoop_end
    cases mem with
    | nil =>
        have isEnd := zipRd32_wr32 0x06054b50 (zipWr16 0 ++ (zipWr16 0 ++ (zipWr16 0 ++ (zipWr16 0 ++
          (zipWr32 0 ++ (zipWr32 0 ++ zipWr16 0))))))
        exact fun same => absurd (isEnd.symm.trans same) (by decide)
    | cons m mem =>
        rw [placeMembers, List.flatMap_cons, centralRecord_eq (valid m (List.mem_cons_self ..)),
          List.append_assoc, List.append_assoc]
        generalize m.name ++ _ = content
        have isRecord : zipRd32 (centralHeader m (zipCrc32 m.data) 0 ++ content) = 0x02014b50 :=
          zipRd32_wr32 _ _
        exact fun same => absurd (isRecord.symm.trans same) (by decide)
  rw [stops, List.append_nil]

/-- What the central directory says of a member. -/
structure DirectoryRecord where
  name : List UInt8
  size : UInt32
  crc : UInt32
  offset : UInt32
  deriving DecidableEq

/-- The records of a central directory, `count` of them. -/
def readRecords : Nat → List UInt8 → List DirectoryRecord
  | 0, _ => []
  | count + 1, p =>
      let nlen := (zipRd16 (p.drop 28)).toNat
      let elen := (zipRd16 (p.drop 30)).toNat
      let clen := (zipRd16 (p.drop 32)).toNat
      if zipRd32 p = 0x02014b50 then
        ⟨(p.drop 46).take nlen, zipRd32 (p.drop 24), zipRd32 (p.drop 16), zipRd32 (p.drop 42)⟩ ::
          readRecords count (p.drop (46 + nlen + elen + clen))
      else []

/-- The central directory that the end of an archive points to. -/
def readDirectory (buf : List UInt8) : List DirectoryRecord :=
  let ending := buf.drop (buf.length - 22)
  if zipRd32 ending = 0x06054b50 then
    readRecords (zipRd16 (ending.drop 10)).toNat (buf.drop (zipRd32 (ending.drop 16)).toNat)
  else []

/-- What the central directory should say of a member. -/
def PlacedMember.record (placed : PlacedMember) : DirectoryRecord :=
  ⟨placed.member.name, placed.member.size, placed.crc, placed.offset⟩

theorem centralHeader_append (m : TinoxZipMember) (crc offset : UInt32) (content : List UInt8) :
    centralHeader m crc offset ++ content =
      zipWr32 0x02014b50 ++ (zipWr16 20 ++ (zipWr16 20 ++ (zipWr16 0 ++ (zipWr16 0 ++ (zipWr16 0 ++
        (zipWr16 0x21 ++ (zipWr32 crc ++ (zipWr32 m.size ++ (zipWr32 m.size ++
          (zipWr16 (nameLength m) ++ (zipWr16 0 ++ (zipWr16 0 ++ (zipWr16 0 ++ (zipWr16 0 ++
            (zipWr32 0 ++ (zipWr32 offset ++ content)))))))))))))))) := by
  simp only [centralHeader, List.append_assoc]

/-- What a reader finds in the central record of a member. -/
structure RecordFields (placed : PlacedMember) (rest bytes : List UInt8) : Prop where
  signature : zipRd32 bytes = 0x02014b50
  method : zipRd16 (bytes.drop 10) = 0
  crc : zipRd32 (bytes.drop 16) = placed.crc
  csize : zipRd32 (bytes.drop 20) = placed.member.size
  size : zipRd32 (bytes.drop 24) = placed.member.size
  nlen : (zipRd16 (bytes.drop 28)).toNat = placed.member.name.length
  elen : zipRd16 (bytes.drop 30) = 0
  clen : zipRd16 (bytes.drop 32) = 0
  offset : zipRd32 (bytes.drop 42) = placed.offset
  name : (bytes.drop 46).take placed.member.name.length = placed.member.name
  behind : bytes.drop (46 + placed.member.name.length + UInt16.toNat 0 + UInt16.toNat 0) = rest

theorem recordFields (isMember : IsMember placed.member) (rest : List UInt8) :
    RecordFields placed rest (placed.centralRecord ++ rest) := by
  rcases placed with ⟨m, crc, offset⟩
  have isName := isMember.nameLength
  rw [centralRecord_eq isMember, List.append_assoc]
  dsimp only at isName ⊢
  rw [centralHeader_append]
  generalize isContent : m.name ++ rest = content
  generalize isBytes : zipWr32 0x02014b50 ++ _ = bytes
  have isDrop (k : Nat) : bytes.drop (46 + k) = content.drop k := by
    rw [← List.drop_drop, ← isBytes]
    rfl
  constructor
  case name => rw [isDrop 0, List.drop_zero, ← isContent, List.take_left]
  case behind =>
    change bytes.drop (46 + m.name.length) = rest
    rw [isDrop, ← isContent, List.drop_left]
  all_goals rw [← isBytes]
  case signature => exact zipRd32_wr32 _ _
  case method => exact zipRd16_wr16 0 _
  case crc => exact zipRd32_wr32 crc _
  case csize | size => exact zipRd32_wr32 m.size _
  case nlen => exact (congrArg UInt16.toNat (zipRd16_wr16 (nameLength m) _)).trans isName
  case elen | clen => exact zipRd16_wr16 0 _
  case offset => exact zipRd32_wr32 offset content

theorem readRecords_succ (isMember : IsMember placed.member) (count : Nat) (rest : List UInt8) :
    readRecords (count + 1) (placed.centralRecord ++ rest) =
      placed.record :: readRecords count rest := by
  have fields := recordFields isMember rest
  rw [readRecords]
  simp only [fields.crc, fields.size, fields.nlen, fields.elen, fields.clen, fields.offset]
  rw [if_pos fields.signature, fields.name, fields.behind]
  rfl

theorem readRecords_eq {placed : List PlacedMember} (valid : ∀ p ∈ placed, IsMember p.member)
    (rest : List UInt8) :
    readRecords placed.length (placed.flatMap (·.centralRecord) ++ rest) =
      placed.map PlacedMember.record := by
  induction placed with
  | nil => rfl
  | cons p placed ih =>
      rw [List.forall_mem_cons] at valid
      rw [List.flatMap_cons, List.append_assoc, List.length_cons, readRecords_succ valid.1, ih valid.2]
      rfl

theorem placeMembers_spec {cursor : UInt32} {mem : List TinoxZipMember}
    (valid : ∀ m ∈ mem, IsMember m)
    (small : cursor.toNat + ((placeMembers cursor mem).1.flatMap (·.localRecord)).length < 2 ^ 32) :
    (placeMembers cursor mem).2.toNat =
      cursor.toNat + ((placeMembers cursor mem).1.flatMap (·.localRecord)).length ∧
    ∀ p ∈ (placeMembers cursor mem).1, p.crc = zipCrc32 p.member.data ∧
      ∃ before after, (placeMembers cursor mem).1.flatMap (·.localRecord) =
        before ++ (p.localRecord ++ after) ∧ p.offset.toNat = cursor.toNat + before.length := by
  induction mem generalizing cursor with
  | nil => exact ⟨rfl, nofun⟩
  | cons m mem ih =>
      rw [List.forall_mem_cons] at valid
      rw [placeMembers] at small ⊢
      dsimp only at small ⊢
      generalize isNext : cursor + (30 + (nameLength m).toUInt32 + m.size) = next at small ⊢
      have isFirst : (⟨m, zipCrc32 m.data, cursor⟩ : PlacedMember).localRecord.length =
          30 + m.name.length + m.data.length := length_localRecord valid.1
      rw [List.flatMap_cons, List.length_append, isFirst] at small
      have isCursor : next.toNat = cursor.toNat + (30 + m.name.length + m.data.length) := by
        rw [← isNext, UInt32.toNat_add, UInt32.toNat_add, UInt32.toNat_add, UInt16.toNat_toUInt32,
          valid.1.nameLength, valid.1.size]
        change (cursor.toNat + ((30 + m.name.length) % 2 ^ 32 + m.data.length) % 2 ^ 32) % 2 ^ 32 = _
        omega
      rcases ih valid.2 (by omega : next.toNat + _ < _) with ⟨isEnd, each⟩
      constructor
      · rw [isEnd, List.flatMap_cons, List.length_append, isFirst]
        omega
      · intro p member
        rcases List.mem_cons.mp member with rfl | later
        · exact ⟨rfl, [], _, rfl, rfl⟩
        · rcases each p later with ⟨isCrc, before, after, isSplit, isOffset⟩
          refine ⟨isCrc, (⟨m, zipCrc32 m.data, cursor⟩ : PlacedMember).localRecord ++ before, after, ?_, ?_⟩
          · rw [List.flatMap_cons, isSplit, List.append_assoc]
          · rw [isOffset, List.length_append, isFirst]
            omega

/-- The parts of a file that is written: its end, the central directory that the end points to, and
the local records that the directory points to. -/
structure IsWritten (buf : List UInt8) (placed : List PlacedMember) (ending : List UInt8) : Prop where
  valid : ∀ p ∈ placed, IsMember p.member
  atEnd : buf.drop (buf.length - 22) = ending
  length : ending.length = 22 ∧ 22 ≤ buf.length
  signature : zipRd32 ending = 0x06054b50
  total : (zipRd16 (ending.drop 10)).toNat = placed.length
  noComment : zipRd16 (ending.drop 20) = 0
  directory : buf.drop (zipRd32 (ending.drop 16)).toNat = placed.flatMap (·.centralRecord) ++ ending
  records : ∀ p ∈ placed, p.crc = zipCrc32 p.member.data ∧ p.localRecord <+: buf.drop p.offset.toNat

theorem isWritten_zipWrite (valid : ∀ m ∈ mem, IsMember m) (small : (zipWrite mem).length < 2 ^ 32)
    (few : mem.length < 65536) :
    ∃ placed ending, placed.map PlacedMember.member = mem ∧ IsWritten (zipWrite mem) placed ending := by
  generalize isPlaced : placeMembers 0 mem = placing
  have isMembers := placeMembers_members 0 mem
  have valid' := valid_placed valid 0
  have isWritten : zipWrite mem = placing.1.flatMap (·.localRecord) ++
      (placing.1.flatMap (·.centralRecord) ++
        endOfDirectory mem.length (directoryEnd placing.2 mem - placing.2) placing.2) := by
    rw [zipWrite, isPlaced, List.append_assoc]
  have isSpec := @placeMembers_spec 0 mem valid
  rw [isPlaced] at isMembers valid' isSpec
  generalize isEnding : endOfDirectory mem.length (directoryEnd placing.2 mem - placing.2) placing.2 =
    ending at isWritten
  have isLength : ending.length = 22 := by
    rw [← isEnding]
    rfl
  have isTotal := congrArg List.length isWritten
  rw [List.length_append, List.length_append, isLength] at isTotal
  simp only [UInt32.toNat_zero, Nat.zero_add] at isSpec
  rcases isSpec (by omega) with ⟨isStart, each⟩
  have isCount : placing.1.length = mem.length := by
    rw [← isMembers, List.length_map]
  have isOffset : zipRd32 (ending.drop 16) = placing.2 := by
    rw [← isEnding]
    exact zipRd32_wr32 _ (zipWr16 0)
  refine ⟨placing.1, ending, isMembers, valid', ?_, ⟨isLength, by omega⟩, ?_, ?_, ?_, ?_, ?_⟩
  · rw [isWritten, ← List.append_assoc, List.length_append, isLength, Nat.add_sub_cancel, List.drop_left]
  · rw [← isEnding]
    exact zipRd32_wr32 _ _
  · rw [← isEnding, isCount]
    exact (congrArg UInt16.toNat (zipRd16_wr16 _ _)).trans
      (UInt16.toNat_ofNat'.trans (Nat.mod_eq_of_lt few))
  · rw [← isEnding]
    exact zipRd16_wr16 0 []
  · rw [isOffset, isStart, isWritten, List.drop_left]
  · intro p member
    rcases each p member with ⟨isCrc, before, after, isSplit, isAt⟩
    refine ⟨isCrc, after ++ (placing.1.flatMap (·.centralRecord) ++ ending), ?_⟩
    rw [isAt, isWritten, isSplit, List.append_assoc, List.drop_left, List.append_assoc]

theorem readDirectory_write (valid : ∀ m ∈ mem, IsMember m) (small : (zipWrite mem).length < 2 ^ 32)
    (few : mem.length < 65536) :
    ∃ placed : List PlacedMember, placed.map PlacedMember.member = mem ∧
      readDirectory (zipWrite mem) = placed.map PlacedMember.record ∧
      ∀ p ∈ placed, p.crc = zipCrc32 p.member.data ∧
        p.localRecord <+: (zipWrite mem).drop p.offset.toNat := by
  rcases isWritten_zipWrite valid small few with ⟨placed, ending, isMembers, isWritten⟩
  refine ⟨placed, isMembers, ?_, isWritten.records⟩
  rw [readDirectory, isWritten.atEnd, if_pos isWritten.signature, isWritten.total, isWritten.directory,
    readRecords_eq isWritten.valid]

/-- The file at a path and the map that it should be, after calls that start from no file. -/
inductive ZipRun : Option (List UInt8) → (CString → Option CString) → Prop
  | start : ZipRun none fun _ => none
  | add {file : Option (List UInt8)} {files : CString → Option CString} {name content : CString} :
      ZipRun file files → 0 ∉ name → name.length < 65536 → 0 ∉ content →
      content.length < 2 ^ 32 → (zipAddFile file name content).length < 2 ^ 32 →
      ZipRun (some (zipAddFile file name content)) (Function.update files name (some content))
  | remove {file : Option (List UInt8)} {files : CString → Option CString} {name : CString} :
      ZipRun file files →
      ZipRun (some (zipRemoveFile file name)) (Function.update files name none)

/-- The calls that read an archive answer as a finite map does. -/
structure ArchiveOf (file : Option (List UInt8)) (files : CString → Option CString) : Prop where
  extracted : ∀ name, zipExtractFile file name = (files name).getD []
  listed : ∃ names : List CString, names.Nodup ∧ (∀ name, name ∈ names ↔ (files name).isSome) ∧
    zipEntryCount file = Int64.ofNat names.length ∧
    ∀ (i : Nat) (name : CString), names[i]? = some name →
      zipEntryName file (Int64.ofNat i) = name ∧
      zipEntrySize file (Int64.ofNat i) = Int64.ofNat ((files name).getD []).length

/-- The members of an archive are the entries of a map, each once. -/
structure AreEntries (mem : List TinoxZipMember) (files : CString → Option CString) : Prop where
  valid : ∀ m ∈ mem, IsMember m
  noZero : ∀ m ∈ mem, 0 ∉ m.data
  once : (mem.map TinoxZipMember.name).Nodup
  few : mem.length < 2 ^ 32
  found : ∀ name content, files name = some content ↔ ∃ m ∈ mem, m.name = name ∧ m.data = content

theorem AreEntries.remove {mem : List TinoxZipMember} {files : CString → Option CString}
    (entries : AreEntries mem files) (name : CString) :
    AreEntries (mem.filter (·.name ≠ name)) (Function.update files name none) := by
  have kept {m : TinoxZipMember} : m ∈ mem.filter (·.name ≠ name) ↔ m ∈ mem ∧ m.name ≠ name := by
    rw [List.mem_filter, decide_eq_true_iff]
  constructor
  · exact fun m member => entries.valid m (kept.mp member).1
  · exact fun m member => entries.noZero m (kept.mp member).1
  · exact entries.once.sublist (List.filter_sublist.map _)
  · exact Nat.lt_of_le_of_lt (List.length_filter_le _ _) entries.few
  · intro other content
    rcases eq_or_ne other name with rfl | different
    · rw [Function.update_self]
      constructor
      · exact nofun
      · rintro ⟨m, member, same, _⟩
        exact absurd same (kept.mp member).2
    · rw [Function.update_of_ne different, entries.found]
      constructor
      · rintro ⟨m, member, same, isData⟩
        exact ⟨m, kept.mpr ⟨member, same ▸ different⟩, same, isData⟩
      · rintro ⟨m, member, same, isData⟩
        exact ⟨m, (kept.mp member).1, same, isData⟩

theorem AreEntries.add {mem : List TinoxZipMember} {files : CString → Option CString}
    (entries : AreEntries mem files) {m : TinoxZipMember} (isNew : files m.name = none)
    (isMember : IsMember m) (noZero : 0 ∉ m.data) (few : (mem ++ [m]).length < 2 ^ 32) :
    AreEntries (mem ++ [m]) (Function.update files m.name (some m.data)) := by
  constructor
  · exact List.forall_mem_append.mpr ⟨entries.valid, List.forall_mem_singleton.mpr isMember⟩
  · exact List.forall_mem_append.mpr ⟨entries.noZero, List.forall_mem_singleton.mpr noZero⟩
  · rw [List.map_append, List.map_singleton, List.nodup_append]
    refine ⟨entries.once, List.nodup_singleton _, ?_⟩
    rintro _ inMap _ isName rfl
    rcases List.mem_map.mp inMap with ⟨old, member, isOld⟩
    have isFound := (entries.found old.name old.data).mpr ⟨old, member, rfl, rfl⟩
    rw [isOld, List.mem_singleton.mp isName, isNew] at isFound
    exact nomatch isFound
  · exact few
  · intro name content
    rcases eq_or_ne name m.name with rfl | different
    · rw [Function.update_self, Option.some_inj]
      constructor
      · rintro rfl
        exact ⟨m, List.mem_append_right _ (List.mem_singleton_self m), rfl, rfl⟩
      · rintro ⟨old, member, isName, isData⟩
        rcases List.mem_append.mp member with earlier | added
        · have isFound := (entries.found old.name old.data).mpr ⟨old, earlier, rfl, rfl⟩
          rw [isName, isNew] at isFound
          exact nomatch isFound
        · rw [← isData, List.mem_singleton.mp added]
    · rw [Function.update_of_ne different, entries.found]
      constructor
      · rintro ⟨old, member, isName, isData⟩
        exact ⟨old, List.mem_append_left _ member, isName, isData⟩
      · rintro ⟨old, member, isName, isData⟩
        rcases List.mem_append.mp member with earlier | added
        · exact ⟨old, earlier, isName, isData⟩
        · rw [List.mem_singleton.mp added] at isName
          exact absurd isName.symm different

theorem length_le_locals {placed : List PlacedMember} (valid : ∀ p ∈ placed, IsMember p.member) :
    placed.length ≤ (placed.flatMap (·.localRecord)).length := by
  induction placed with
  | nil => exact Nat.le_refl 0
  | cons p placed ih =>
      rw [List.forall_mem_cons] at valid
      have others := ih valid.2
      rw [List.flatMap_cons, List.length_append, List.length_cons, length_localRecord valid.1]
      omega

theorem length_le_zipWrite (valid : ∀ m ∈ mem, IsMember m) :
    mem.length ≤ (zipWrite mem).length := by
  calc mem.length = (placeMembers 0 mem).1.length := by
        rw [← (placeMembers 0 mem).1.length_map, placeMembers_members]
    _ ≤ ((placeMembers 0 mem).1.flatMap (·.localRecord)).length :=
        length_le_locals (valid_placed valid 0)
    _ ≤ (zipWrite mem).length := by
        rw [zipWrite, List.append_assoc, List.length_append]
        exact Nat.le_add_right _ _

/-- Each call keeps the members of the archive the entries of the map. -/
theorem ZipRun.entries {file : Option (List UInt8)} {files : CString → Option CString}
    (run : ZipRun file files) : AreEntries (zipParse file) files := by
  induction run with
  | start =>
      constructor
      · exact nofun
      · exact nofun
      · exact List.nodup_nil
      · decide
      · exact fun name content => ⟨nofun, nofun⟩
  | @add file files name content run noZeroName short noZero small smallFile ih =>
      have rest := ih.remove name
      have isMember : IsMember ⟨name, content, UInt32.ofNat content.length⟩ :=
        ⟨noZeroName, short, UInt32.toNat_ofNat'.trans (Nat.mod_eq_of_lt small)⟩
      have valid := List.forall_mem_append.mpr ⟨rest.valid, List.forall_mem_singleton.mpr isMember⟩
      have few := Nat.lt_of_le_of_lt (length_le_zipWrite valid) smallFile
      have isNew : Function.update files name none name = none := Function.update_self ..
      have added := rest.add isNew isMember noZero few
      rw [Function.update_idem] at added
      rwa [zipAddFile, zipParse_write valid]
  | @remove file files name run ih =>
      have rest := ih.remove name
      rw [zipRemoveFile, zipParse_write rest.valid]
      exact rest

theorem AreEntries.archiveOf {file : Option (List UInt8)} {files : CString → Option CString}
    (entries : AreEntries (zipParse file) files) : ArchiveOf file files := by
  constructor
  · intro name
    rw [zipExtractFile]
    generalize isFind : (zipParse file).find? (·.name = name) = found
    cases found with
    | none =>
        cases isHeld : files name with
        | none => rfl
        | some content =>
            rcases (entries.found name content).mp isHeld with ⟨m, member, isName, _⟩
            exact absurd (decide_eq_true isName) (List.find?_eq_none.mp isFind m member)
    | some m =>
        have isName : m.name = name := by simpa only [decide_eq_true_iff] using List.find?_some isFind
        have member := List.mem_of_find?_eq_some isFind
        rw [(entries.found name m.data).mpr ⟨m, member, isName, rfl⟩]
        exact upToZero_eq (entries.noZero m member)
  · refine ⟨(zipParse file).map TinoxZipMember.name, entries.once, ?_, ?_, ?_⟩
    · intro name
      rw [List.mem_map, Option.isSome_iff_exists]
      constructor
      · rintro ⟨m, member, isName⟩
        exact ⟨m.data, (entries.found name m.data).mpr ⟨m, member, isName, rfl⟩⟩
      · rintro ⟨content, isHeld⟩
        rcases (entries.found name content).mp isHeld with ⟨m, member, isName, _⟩
        exact ⟨m, member, isName⟩
    · rw [zipEntryCount, List.length_map]
    · intro i name isEntry
      rw [List.getElem?_map, Option.map_eq_some_iff] at isEntry
      rcases isEntry with ⟨m, isAt, isName⟩
      have inside : i < (zipParse file).length := (List.getElem?_eq_some_iff.mp isAt).1
      have few := entries.few
      have isIndex : (Int64.ofNat i).toInt = i := Int64.toInt_ofNat_of_lt (by omega)
      have isLength : (Int64.ofNat (zipParse file).length).toInt = (zipParse file).length :=
        Int64.toInt_ofNat_of_lt (by omega)
      have within : ¬ (Int64.ofNat i < 0 || Int64.ofNat (zipParse file).length ≤ Int64.ofNat i) := by
        rw [Bool.or_eq_true, decide_eq_true_iff, decide_eq_true_iff, Int64.lt_iff_toInt_lt,
          Int64.le_iff_toInt_le, isIndex, isLength]
        change ¬ ((i : Int) < 0 ∨ _)
        omega
      have member := List.mem_of_getElem? isAt
      constructor
      · rw [zipEntryName, if_neg within, isIndex, Int.toNat_natCast, List.getD_eq_getElem?_getD,
          List.getElem?_map, isAt]
        exact isName
      · rw [zipEntrySize, if_neg within, isIndex, Int.toNat_natCast, List.getD_eq_getElem?_getD,
          List.getElem?_map, isAt, (entries.found name m.data).mpr ⟨m, member, isName, rfl⟩]
        exact congrArg Int64.ofNat (entries.valid m member).size

/-- Every run of the calls keeps a finite map, and every archive that is written is read back,
by its local headers and by its central directory. -/
theorem zipArchive_isMap :
    (∀ file files, ZipRun file files → ArchiveOf file files) ∧
    ∀ mem : List TinoxZipMember, (∀ m ∈ mem, IsMember m) →
      zipParse (some (zipWrite mem)) = mem ∧
      ((zipWrite mem).length < 2 ^ 32 → mem.length < 65536 →
        ∃ placed : List PlacedMember, placed.map PlacedMember.member = mem ∧
          readDirectory (zipWrite mem) = placed.map PlacedMember.record ∧
          ∀ p ∈ placed, p.crc = zipCrc32 p.member.data ∧
            p.localRecord <+: (zipWrite mem).drop p.offset.toNat) := by
  constructor
  · exact fun file files run => run.entries.archiveOf
  · exact fun mem valid => ⟨zipParse_write valid, readDirectory_write valid⟩

/-- Two files are added and one is removed: the other one is left. -/
theorem zipArchive_isMap_oneLeft :
    ArchiveOf (some (zipRemoveFile (some (zipAddFile (some (zipAddFile none [97] [120, 121])) [98] [122]))
      [97]))
      (Function.update (Function.update (Function.update (fun _ => none) [97] (some [120, 121])) [98]
        (some [122])) [97] none) ∧
    zipParse (some (zipWrite [⟨[98], [122], 1⟩])) = [⟨[98], [122], 1⟩] ∧
    readDirectory (zipWrite [⟨[98], [122], 1⟩]) = [⟨[98], 1, 0x62D277AF, 0⟩] := by
  have isMember : ∀ m ∈ [(⟨[98], [122], 1⟩ : TinoxZipMember)], IsMember m :=
    List.forall_mem_singleton.mpr ⟨by decide, by decide, rfl⟩
  have isMap := zipArchive_isMap
  constructor
  · apply isMap.1
    apply ZipRun.remove
    apply ZipRun.add
    · apply ZipRun.add
      · exact .start
      · decide
      · decide
      · decide
      · decide
      · decide
    · decide
    · decide
    · decide
    · decide
    · decide +kernel
  · exact ⟨(isMap.2 _ isMember).1, by decide⟩

end Tinox.Runtime

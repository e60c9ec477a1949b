import Tinox.Runtime.ZipArchive

/-!
# Entries that survive an edit

`zipAddFile` and `zipRemoveFile` write what `tinox_zip_parse` has read, and that is less than what an
archive holds: only stored entries, and only as far as one local record follows the other.
-/

namespace Tinox.Runtime

/-- An entry of an archive: its name, its compression method and its bytes. -/
structure ZipEntry where
  name : List UInt8
  method : UInt16
  data : List UInt8
  deriving DecidableEq

/-- What the central directory says of where an entry is. -/
structure Listing where
  name : List UInt8
  method : UInt16
  csize : UInt32
  offset : UInt32

/-- The records of a central directory, `count` of them. -/
def readListings : Nat → List UInt8 → List Listing
  | 0, _ => []
  | count + 1, p =>
      let nlen := (zipRd16 (p.drop 28)).toNat
      let elen := (zipRd16 (p.drop 30)).toNat
      let clen := (zipRd16 (p.drop 32)).toNat
      if zipRd32 p = 0x02014b50 then
        ⟨(p.drop 46).take nlen, zipRd16 (p.drop 10), zipRd32 (p.drop 20), zipRd32 (p.drop 42)⟩ ::
          readListings count (p.drop (46 + nlen + elen + clen))
      else []

/-- The end record of an archive, found from the back: its comment has `k` bytes or up to `rounds`
more. -/
def endRecord (buf : List UInt8) : Nat → Nat → Option (List UInt8)
  | 0, _ => none
  | rounds + 1, k =>
      let ending := buf.drop (buf.length - (22 + k))
      if 22 + k ≤ buf.length ∧ zipRd32 ending = 0x06054b50 ∧ (zipRd16 (ending.drop 20)).toNat = k then
        some ending
      else endRecord buf rounds (k + 1)

/-- The central directory of an archive. -/
def listings (buf : List UInt8) : List Listing :=
  match endRecord buf 65536 0 with
  | none => []
  | some ending => readListings (zipRd16 (ending.drop 10)).toNat (buf.drop (zipRd32 (ending.drop 16)).toNat)

/-- Where the bytes of an entry begin in its local record. -/
def dataStart (p : List UInt8) : Nat :=
  30 + (zipRd16 (p.drop 26)).toNat + (zipRd16 (p.drop 28)).toNat

/-- The entry that is listed. -/
def entryAt (buf : List UInt8) (listing : Listing) : ZipEntry :=
  let p := buf.drop listing.offset.toNat
  ⟨listing.name, listing.method, (p.drop (dataStart p)).take listing.csize.toNat⟩

/-- The entries of an archive. -/
def entriesOf (buf : List UInt8) : List ZipEntry :=
  (listings buf).map (entryAt buf)

/-- What is wanted of an edit: all entries of other names are still there, with their bytes. -/
def KeepsOthers (old new : List UInt8) (name : CString) : Prop :=
  ∀ e ∈ entriesOf old, e.name ≠ name → e ∈ entriesOf new

/-- A local record that is there as a whole. -/
def IsRecord (p : List UInt8) : Prop :=
  30 ≤ p.length ∧ zipRd32 p = 0x04034b50 ∧ dataStart p + (zipRd32 (p.drop 18)).toNat ≤ p.length

/-- The length of a local record, by the sizes in its header. -/
def recordLength (p : List UInt8) : Nat :=
  dataStart p + (zipRd32 (p.drop 18)).toNat

/-- A local record comes somewhere behind the first one, each directly behind the other. -/
inductive Follows : List UInt8 → List UInt8 → Prop
  | here (p : List UInt8) : Follows p p
  | behind {p q : List UInt8} : IsRecord p → Follows (p.drop (recordLength p)) q → Follows p q

/-- A record without compression. -/
def IsStored (p : List UInt8) : Prop :=
  zipRd16 (p.drop 8) = 0 ∧ zipRd32 (p.drop 22) = zipRd32 (p.drop 18)

instance (p : List UInt8) : Decidable (IsRecord p) :=
  inferInstanceAs (Decidable (_ ∧ _ ∧ _))

instance (p : List UInt8) : Decidable (IsStored p) :=
  inferInstanceAs (Decidable (_ ∧ _))

/-- The member of a stored record. -/
def memberOf (p : List UInt8) : TinoxZipMember :=
  ⟨upToZero ((p.drop 30).take (zipRd16 (p.drop 26)).toNat),
    (p.drop (dataStart p)).take (zipRd32 (p.drop 22)).toNat, zipRd32 (p.drop 22)⟩

/-- The entry of a member. -/
def TinoxZipMember.entry (m : TinoxZipMember) : ZipEntry :=
  ⟨m.name, 0, m.data⟩

/-- An entry is stored, in one of the records that follow one another from the first byte on. -/
def Readable (buf : List UInt8) (e : ZipEntry) : Prop :=
  ∃ p, Follows buf p ∧ IsRecord p ∧ IsStored p ∧ e = (memberOf p).entry

variable {p buf : List UInt8} {m : TinoxZipMember}

theorem zipParseLoop_record (isRecord : IsRecord p) : m ∈ zipParseLoop p ↔
      IsStored p ∧ m = memberOf p ∨ m ∈ zipParseLoop (p.drop (recordLength p)) := by
  have inside : ¬ p.length < 30 + (zipRd16 (p.drop 26)).toNat + (zipRd16 (p.drop 28)).toNat +
      (zipRd32 (p.drop 18)).toNat := Nat.not_lt.mpr isRecord.2.2
  rw [zipParseLoop, if_pos ⟨isRecord.1, isRecord.2.1⟩]
  dsimp only
  rw [if_neg inside]
  split
  next isStored =>
    rw [List.mem_cons]
    exact ⟨.imp_left fun same => ⟨isStored, same⟩, .imp_left And.right⟩
  next notStored => exact ⟨.inr, fun either => either.resolve_left fun both => notStored both.1⟩

theorem zipParseLoop_other (notRecord : ¬ IsRecord p) : zipParseLoop p = [] := by
  rw [zipParseLoop]
  split
  next isHeader =>
    dsimp only
    rw [if_pos]
    exact Nat.lt_of_not_le fun isWhole => notRecord ⟨isHeader.1, isHeader.2, isWhole⟩
  next => rfl

theorem mem_zipParseLoop :
    m ∈ zipParseLoop p ↔ ∃ q, Follows p q ∧ IsRecord q ∧ IsStored q ∧ m = memberOf q := by
  constructor
  · intro member
    induction isLength : p.length using Nat.strongRecOn generalizing p with
    | ind length ih =>
        by_cases isRecord : IsRecord p
        · rcases (zipParseLoop_record isRecord).mp member with ⟨isStored, same⟩ | later
          · exact ⟨p, .here p, isRecord, isStored, same⟩
          · have fewer : (p.drop (recordLength p)).length < length := by
              have whole := isRecord.1
              rw [List.length_drop, recordLength, dataStart]
              omega
            rcases ih _ fewer later rfl with ⟨q, follows, found⟩
            exact ⟨q, .behind isRecord follows, found⟩
        · rw [zipParseLoop_other isRecord] at member
          exact nomatch member
  · rintro ⟨q, follows, isRecord, isStored, same⟩
    induction follows with
    | here p => exact (zipParseLoop_record isRecord).mpr (.inl ⟨isStored, same⟩)
    | behind first _ ih => exact (zipParseLoop_record first).mpr (.inr (ih isRecord isStored same))

theorem mem_zipParse :
    m ∈ zipParse (some buf) ↔ ∃ q, Follows buf q ∧ IsRecord q ∧ IsStored q ∧ m = memberOf q := by
  rw [zipParse, ← mem_zipParseLoop]
  split
  next isShort =>
    rw [zipParseLoop_other fun isRecord => absurd isRecord.1 (by omega)]
  next => rfl

theorem isMember_memberOf (isRecord : IsRecord p) (isStored : IsStored p) :
    IsMember (memberOf p) := by
  have isWhole := isRecord.2.2
  refine ⟨?_, ?_, ?_⟩
  · intro member
    exact absurd (List.mem_takeWhile_imp member) (by decide)
  · have isShort : (memberOf p).name.length ≤ ((p.drop 30).take (zipRd16 (p.drop 26)).toNat).length :=
      (List.takeWhile_sublist _).length_le
    have isTaken := List.length_take_le (zipRd16 (p.drop 26)).toNat (p.drop 30)
    have isWord := (zipRd16 (p.drop 26)).toNat_lt
    exact Nat.lt_of_le_of_lt (Nat.le_trans isShort isTaken) isWord
  · change _ = ((p.drop (dataStart p)).take (zipRd32 (p.drop 22)).toNat).length
    rw [List.length_take, List.length_drop, memberOf, isStored.2]
    dsimp only
    omega

/-- Where a member is, as the central directory says. -/
def PlacedMember.listing (placed : PlacedMember) : Listing :=
  ⟨placed.member.name, 0, placed.member.size, placed.offset⟩

theorem readListings_succ {placed : PlacedMember} (isMember : IsMember placed.member) (count : Nat)
    (rest : List UInt8) : readListings (count + 1) (placed.centralRecord ++ rest) =
      placed.listing :: readListings count rest := by
  have fields := recordFields isMember rest
  rw [readListings]
  simp only [fields.method, fields.csize, fields.nlen, fields.elen, fields.clen, fields.offset]
  rw [if_pos fields.signature, fields.name, fields.behind]
  rfl

theorem readListings_eq {placed : List PlacedMember} (valid : ∀ p ∈ placed, IsMember p.member)
    (rest : List UInt8) :
    readListings placed.length (placed.flatMap (·.centralRecord) ++ rest) =
      placed.map PlacedMember.listing := by
  induction placed with
  | nil => rfl
  | cons p placed ih =>
      rw [List.forall_mem_cons] at valid
      rw [List.flatMap_cons, List.append_assoc, List.length_cons, readListings_succ valid.1, ih valid.2]
      rfl

/-- The end record of a file that is written has no comment and is found at once. -/
theorem listings_eq {placed : List PlacedMember} {ending : List UInt8}
    (isWritten : IsWritten buf placed ending) : listings buf = placed.map PlacedMember.listing := by
  have isEnd : endRecord buf 65536 0 = some ending := by
    rw [endRecord, isWritten.atEnd, if_pos]
    exact ⟨isWritten.length.2, isWritten.signature, congrArg UInt16.toNat isWritten.noComment⟩
  rw [listings, isEnd]
  dsimp only
  rw [isWritten.total, isWritten.directory, readListings_eq isWritten.valid]

theorem entryAt_listing {placed : PlacedMember} (isMember : IsMember placed.member)
    (isAt : placed.localRecord <+: buf.drop placed.offset.toNat) :
    entryAt buf placed.listing = placed.member.entry := by
  rcases placed with ⟨m, crc, offset⟩
  rcases isAt with ⟨rest, isRecord⟩
  have isName := isMember.nameLength
  rw [localRecord_eq isMember, List.append_assoc] at isRecord
  dsimp only at isRecord isName
  generalize isContent : m.name ++ m.data ++ rest = content at isRecord
  have isNlen : zipRd16 ((localHeader m crc ++ content).drop 26) = nameLength m := zipRd16_wr16 _ _
  have isElen : zipRd16 ((localHeader m crc ++ content).drop 28) = 0 := zipRd16_wr16 0 content
  have isStart : dataStart (localHeader m crc ++ content) = 30 + m.name.length := by
    rw [dataStart, isNlen, isElen, isName]
    rfl
  have isDrop (k : Nat) : (localHeader m crc ++ content).drop (30 + k) = content.drop k := by
    rw [← List.drop_drop]
    rfl
  have isData : (content.drop m.name.length).take m.size.toNat = m.data := by
    rw [← isContent, List.append_assoc, List.drop_left, isMember.size, List.take_left]
  rw [entryAt, PlacedMember.listing]
  dsimp only
  rw [← isRecord, isStart, isDrop, isData]
  rfl

theorem entriesOf_zipWrite {mem : List TinoxZipMember} (valid : ∀ m ∈ mem, IsMember m)
    (small : (zipWrite mem).length < 2 ^ 32) (few : mem.length < 65536) :
    entriesOf (zipWrite mem) = mem.map TinoxZipMember.entry := by
  rcases isWritten_zipWrite valid small few with ⟨placed, ending, rfl, isWritten⟩
  rw [entriesOf, listings_eq isWritten, List.map_map, List.map_map]
  apply List.map_congr_left
  intro p member
  exact entryAt_listing (isWritten.valid p member) (isWritten.records p member).2

/-- The members that an edit leaves as they are. -/
def keptMembers (buf : List UInt8) (name : CString) : List TinoxZipMember :=
  (zipParse (some buf)).filter (·.name ≠ name)

theorem valid_kept (buf : List UInt8) (name : CString) : ∀ m ∈ keptMembers buf name, IsMember m := by
  intro m member
  rcases mem_zipParse.mp (List.mem_of_mem_filter member) with ⟨p, _, isRecord, isStored, rfl⟩
  exact isMember_memberOf isRecord isStored

/-- The members that are left are the entries of other names that could be read. -/
theorem mem_kept_iff {name : CString} {e : ZipEntry} (isOther : e.name ≠ name) :
    (∃ m ∈ keptMembers buf name, m.entry = e) ↔ Readable buf e := by
  constructor
  · rintro ⟨m, member, rfl⟩
    rcases mem_zipParse.mp (List.mem_of_mem_filter member) with ⟨p, follows, isRecord, isStored, rfl⟩
    exact ⟨p, follows, isRecord, isStored, rfl⟩
  · rintro ⟨p, follows, isRecord, isStored, rfl⟩
    refine ⟨memberOf p, List.mem_filter.mpr ⟨?_, decide_eq_true isOther⟩, rfl⟩
    exact mem_zipParse.mpr ⟨p, follows, isRecord, isStored, rfl⟩

/-- What is wanted holds of a file with the members that are left, and others of the edited name. -/
theorem keepsOthers_iff {name : CString} {added : List TinoxZipMember}
    (valid : ∀ m ∈ added, IsMember m) (sameName : ∀ m ∈ added, m.name = name)
    (small : (zipWrite (keptMembers buf name ++ added)).length < 2 ^ 32)
    (few : (keptMembers buf name ++ added).length < 65536) :
    KeepsOthers buf (zipWrite (keptMembers buf name ++ added)) name ↔
      ∀ e ∈ entriesOf buf, e.name ≠ name → Readable buf e := by
  have isValid := List.forall_mem_append.mpr ⟨valid_kept buf name, valid⟩
  have isKept {e : ZipEntry} (isOther : e.name ≠ name) :
      e ∈ entriesOf (zipWrite (keptMembers buf name ++ added)) ↔ Readable buf e := by
    rw [entriesOf_zipWrite isValid small few, List.mem_map, ← mem_kept_iff isOther]
    constructor
    · rintro ⟨m, member, rfl⟩
      rcases List.mem_append.mp member with kept | isNew
      · exact ⟨m, kept, rfl⟩
      · exact absurd (sameName m isNew) isOther
    · rintro ⟨m, member, rfl⟩
      exact ⟨m, List.mem_append_left _ member, rfl⟩
  exact forall_congr' fun e => forall_congr' fun _ => forall_congr' isKept

/-- Within the limits of the format, an edit keeps the other entries exactly when each of them is
stored, in one of the records that follow one another from the first byte of the file on. -/
theorem zipEdits_keepOthers_iff {name content : CString} (noZero : 0 ∉ name)
    (short : name.length < 65536) (fits : content.length < 2 ^ 32) (buf : List UInt8) :
    ((zipAddFile (some buf) name content).length < 2 ^ 32 → (keptMembers buf name).length < 65535 →
      (KeepsOthers buf (zipAddFile (some buf) name content) name ↔
        ∀ e ∈ entriesOf buf, e.name ≠ name → Readable buf e)) ∧
    ((zipRemoveFile (some buf) name).length < 2 ^ 32 → (keptMembers buf name).length < 65536 →
      (KeepsOthers buf (zipRemoveFile (some buf) name) name ↔
        ∀ e ∈ entriesOf buf, e.name ≠ name → Readable buf e)) := by
  constructor
  · intro small few
    have isMember : IsMember ⟨name, content, UInt32.ofNat content.length⟩ :=
      ⟨noZero, short, UInt32.toNat_ofNat'.trans (Nat.mod_eq_of_lt fits)⟩
    apply keepsOthers_iff (List.forall_mem_singleton.mpr isMember) (List.forall_mem_singleton.mpr rfl)
      small
    rw [List.length_append]
    exact Nat.succ_lt_succ few
  · intro small few
    have isRemoved : zipRemoveFile (some buf) name = zipWrite (keptMembers buf name ++ []) := by
      rw [List.append_nil]
      rfl
    rw [isRemoved] at small ⊢
    exact keepsOthers_iff nofun nofun small (by rwa [List.append_nil])

set_option maxRecDepth 1024 in
/-- Another file is added next to a stored one, and removed. -/
theorem zipEdits_keepOthers_iff_stored :
    let buf := zipWrite [⟨[97], [120], 1⟩]
    KeepsOthers buf (zipAddFile (some buf) [98] [121]) [98] ∧
      KeepsOthers buf (zipRemoveFile (some buf) [98]) [98] := by
  intro buf
  have areEntries : entriesOf buf = [⟨[97], 0, [120]⟩] := by decide
  have areReadable : ∀ e ∈ entriesOf buf, e.name ≠ [98] → Readable buf e := by
    intro e member _
    rw [areEntries, List.mem_singleton] at member
    refine ⟨buf, .here buf, by decide, by decide, ?_⟩
    rw [member]
    decide
  have noZero : (0 : UInt8) ∉ [98] := by decide
  have both := @zipEdits_keepOthers_iff [98] [121] noZero (by decide) (by decide)
    (zipWrite [⟨[97], [120], 1⟩])
  exact ⟨(both.1 (by with_unfolding_all decide) (by with_unfolding_all decide)).mpr areReadable,
    (both.2 (by with_unfolding_all decide) (by with_unfolding_all decide)).mpr areReadable⟩

/-- An archive of one file, compressed as a deflate stream of one block. -/
def deflatedArchive : List UInt8 :=
  let name : List UInt8 := [97]
  let data : List UInt8 := [1, 1, 0, 0xFE, 0xFF, 120]
  let sizes := zipWr32 (zipCrc32 [120]) ++ zipWr32 6 ++ zipWr32 1 ++ zipWr16 1 ++ zipWr16 0
  let record := zipWr32 0x04034b50 ++ zipWr16 20 ++ zipWr16 0 ++ zipWr16 8 ++ zipWr16 0 ++ zipWr16 0x21 ++
    sizes ++ name ++ data
  let directory := zipWr32 0x02014b50 ++ zipWr16 20 ++ zipWr16 20 ++ zipWr16 0 ++ zipWr16 8 ++ zipWr16 0 ++
    zipWr16 0x21 ++ sizes ++ zipWr16 0 ++ zipWr16 0 ++ zipWr16 0 ++ zipWr32 0 ++ zipWr32 0 ++ name
  record ++ directory ++ endOfDirectory 1 (UInt32.ofNat directory.length) (UInt32.ofNat record.length)

set_option maxRecDepth 1024 in
/-- It is lost when another name is removed. -/
theorem deflated_notKept :
    ¬ KeepsOthers deflatedArchive (zipRemoveFile (some deflatedArchive) [98]) [98] := by
  intro keeps
  have isEntry : ⟨[97], 8, [1, 1, 0, 0xFE, 0xFF, 120]⟩ ∈ entriesOf deflatedArchive := by decide
  have isLost : ⟨[97], 8, [1, 1, 0, 0xFE, 0xFF, 120]⟩ ∉
      entriesOf (zipRemoveFile (some deflatedArchive) [98]) := by with_unfolding_all decide
  exact isLost (keeps _ isEntry (by decide))

end Tinox.Runtime

import Tinox.Net.Http2Frames
import Tinox.Runtime.JsonWriter

/-!
# HPACK

The header compression of HTTP/2: the two tables, the decoder and the encoder of `Hpack`.
-/

namespace Tinox.Net

open Tinox.Runtime

/-- `HpackHeader`. -/
structure HpackHeader where
  name : CString
  value : CString
  deriving DecidableEq

/-- The rows of `Hpack.staticName` and `Hpack.staticValue`, from index 1 on. -/
def staticTable : List (String × String) :=
  [(":authority", ""), (":method", "GET"), (":method", "POST"), (":path", "/"),
    (":path", "/index.html"), (":scheme", "http"), (":scheme", "https"), (":status", "200"),
    (":status", "204"), (":status", "206"), (":status", "304"), (":status", "400"),
    (":status", "404"), (":status", "500"), ("accept-charset", ""),
    ("accept-encoding", "gzip, deflate"), ("accept-language", ""), ("accept-ranges", ""),
    ("accept", ""), ("access-control-allow-origin", ""), ("age", ""), ("allow", ""),
    ("authorization", ""), ("cache-control", ""), ("content-disposition", ""),
    ("content-encoding", ""), ("content-language", ""), ("content-length", ""),
    ("content-location", ""), ("content-range", ""), ("content-type", ""), ("cookie", ""),
    ("date", ""), ("etag", ""), ("expect", ""), ("expires", ""), ("from", ""), ("host", ""),
    ("if-match", ""), ("if-modified-since", ""), ("if-none-match", ""), ("if-range", ""),
    ("if-unmodified-since", ""), ("last-modified", ""), ("link", ""), ("location", ""),
    ("max-forwards", ""), ("proxy-authenticate", ""), ("proxy-authorization", ""),
    ("range", ""), ("referer", ""), ("refresh", ""), ("retry-after", ""), ("server", ""),
    ("set-cookie", ""), ("strict-transport-security", ""), ("transfer-encoding", ""),
    ("user-agent", ""), ("vary", ""), ("via", ""), ("www-authenticate", "")]

/-- The row of an index; other indices have empty texts. -/
def staticRow (index : Int64) : String × String :=
  if 1 ≤ index && index ≤ 61 then staticTable.getD (index.toInt.toNat - 1) ("", "") else ("", "")

/-- `Hpack.staticName`. -/
def staticName (index : Int64) : CString :=
  literal (staticRow index).1

/-- `Hpack.staticValue`. -/
def staticValue (index : Int64) : CString :=
  literal (staticRow index).2

/-- `HpackDynTable`. -/
structure HpackDynTable where
  entries : List HpackHeader
  maxSize : Int64
  currentSize : Int64
  deriving DecidableEq

/-- What an entry counts for. -/
def entrySize (header : HpackHeader) : Int64 :=
  Int64.ofNat header.name.length + Int64.ofNat header.value.length + 32

namespace HpackDynTable

def new (maxSize : Int64) : HpackDynTable :=
  ⟨[], maxSize, 0⟩

/-- The loop of `add` and `setMaxSize`: entries go from the end until `room` more fits. -/
def evict (room : Int64) (table : HpackDynTable) : HpackDynTable :=
  if table.currentSize + room > table.maxSize then
    if some : table.entries ≠ [] then
      evict room { table with
        currentSize := table.currentSize - entrySize (table.entries.getLast some)
        entries := table.entries.dropLast }
    else table
  else table
termination_by table.entries.length
decreasing_by
  rw [List.length_dropLast]
  exact Nat.sub_lt (List.length_pos_of_ne_nil some) Nat.one_pos

def add (table : HpackDynTable) (header : HpackHeader) : HpackDynTable :=
  let table := evict (entrySize header) table
  if entrySize header ≤ table.maxSize then
    { table with
      entries := header :: table.entries
      currentSize := table.currentSize + entrySize header }
  else table

def setMaxSize (table : HpackDynTable) (newSize : Int64) : HpackDynTable :=
  evict 0 { table with maxSize := newSize }

end HpackDynTable

/-- `Hpack.lookupHeader`. -/
def lookupHeader (dynTable : HpackDynTable) (index : Int64) : HpackHeader :=
  if 1 ≤ index && index ≤ 61 then ⟨staticName index, staticValue index⟩
  else
    let dynIndex := index - 62
    if 0 ≤ dynIndex then dynTable.entries.getD dynIndex.toInt.toNat ⟨[], []⟩ else ⟨[], []⟩

/-- The loop of `Hpack.decodeInt` over the continuation bytes: a value and the next offset. -/
def decodeIntLoop (data : List Int64) (pos : Nat) (value : Int64) (m : Nat) : Int64 × Nat :=
  if inside : pos < data.length then
    if m < 63 then
      let b := data[pos]
      let value := value + ((b &&& 127) <<< Int64.ofNat m)
      if b &&& 128 = 0 then (value, pos + 1) else decodeIntLoop data (pos + 1) value (m + 7)
    else (value, pos)
  else (value, pos)
termination_by data.length - pos

/-- `Hpack.decodeInt`. -/
def decodeInt (data : List Int64) (offset : Nat) (prefixBits : Int64) : Int64 × Nat :=
  if inside : offset < data.length then
    let mask := ((1 : Int64) <<< prefixBits) - 1
    let value := data[offset] &&& mask
    if value < mask then (value, offset + 1) else decodeIntLoop data (offset + 1) value 0
  else (0, data.length)

/-- `Hpack.decodeStr`. -/
def decodeStr (data : List Int64) (offset : Nat) : CString × Nat :=
  let lenResult := decodeInt data offset 7
  let bytes := (data.drop lenResult.2).take lenResult.1.toInt.toNat
  (tinoxBytesToString bytes, lenResult.2 + bytes.length)

/-- A literal field: the name by its index or as a string, then the value. -/
def decodeLiteral (data : List Int64) (offset : Nat) (prefixBits : Int64)
    (dynTable : HpackDynTable) : HpackHeader × Nat :=
  let nameResult := decodeInt data offset prefixBits
  let name :=
    if nameResult.1 = 0 then decodeStr data nameResult.2
    else ((lookupHeader dynTable nameResult.1).name, nameResult.2)
  let valStr := decodeStr data name.2
  (⟨name.1, valStr.1⟩, valStr.2)

theorem decodeIntLoop_bounds (data : List Int64) {pos : Nat} (inside : pos ≤ data.length)
    (value : Int64) (m : Nat) : pos ≤ (decodeIntLoop data pos value m).2 ∧
      (decodeIntLoop data pos value m).2 ≤ data.length := by
  fun_induction decodeIntLoop data pos value m with
  | case1 pos value m more short b value' isLast => exact ⟨Nat.le_succ pos, more⟩
  | case2 pos value m more short b value' goesOn ih =>
      exact ⟨Nat.le_trans (Nat.le_succ pos) (ih more).1, (ih more).2⟩
  | case3 pos value m more long | case4 pos value m isEnd => exact ⟨Nat.le_refl pos, inside⟩

theorem lt_decodeInt {data : List Int64} {offset : Nat} (inside : offset < data.length)
    (prefixBits : Int64) : offset < (decodeInt data offset prefixBits).2 ∧
      (decodeInt data offset prefixBits).2 ≤ data.length := by
  rw [decodeInt, dif_pos inside]
  dsimp only
  split
  · exact ⟨Nat.lt_succ_self offset, inside⟩
  · exact decodeIntLoop_bounds data inside _ 0

theorem decodeInt_bounds {data : List Int64} {offset : Nat} (inside : offset ≤ data.length)
    (prefixBits : Int64) : offset ≤ (decodeInt data offset prefixBits).2 ∧
      (decodeInt data offset prefixBits).2 ≤ data.length := by
  by_cases isInside : offset < data.length
  · exact ⟨Nat.le_of_lt (lt_decodeInt isInside prefixBits).1, (lt_decodeInt isInside prefixBits).2⟩
  · rw [decodeInt, dif_neg isInside]
    exact ⟨inside, Nat.le_refl _⟩

theorem decodeStr_bounds {data : List Int64} {offset : Nat} (inside : offset ≤ data.length) :
    offset ≤ (decodeStr data offset).2 ∧ (decodeStr data offset).2 ≤ data.length := by
  have bounds := decodeInt_bounds inside 7
  rw [decodeStr]
  dsimp only
  rw [List.length_take, List.length_drop]
  omega

theorem lt_decodeLiteral {data : List Int64} {offset : Nat} (inside : offset < data.length)
    (prefixBits : Int64) (dynTable : HpackDynTable) :
    offset < (decodeLiteral data offset prefixBits dynTable).2 ∧
      (decodeLiteral data offset prefixBits dynTable).2 ≤ data.length := by
  have isIndex := lt_decodeInt inside prefixBits
  rw [decodeLiteral]
  dsimp only
  split
  · have isName := decodeStr_bounds isIndex.2
    have isValue := decodeStr_bounds isName.2
    omega
  · have isValue := decodeStr_bounds isIndex.2
    dsimp only
    omega

/-- The loop of `Hpack.decode`. -/
def decodeLoop (data : List Int64) (offset : Nat) (headers : List HpackHeader)
    (dynTable : HpackDynTable) : List HpackHeader × HpackDynTable :=
  if inside : offset < data.length then
    let b := data[offset]
    if b &&& 128 ≠ 0 then
      let result := decodeInt data offset 7
      decodeLoop data result.2 (headers ++ [lookupHeader dynTable result.1]) dynTable
    else if b &&& 64 ≠ 0 then
      let header := decodeLiteral data offset 6 dynTable
      decodeLoop data header.2 (headers ++ [header.1]) (dynTable.add header.1)
    else if b &&& 32 ≠ 0 then
      let result := decodeInt data offset 5
      decodeLoop data result.2 headers (dynTable.setMaxSize result.1)
    else
      let header := decodeLiteral data offset 4 dynTable
      decodeLoop data header.2 (headers ++ [header.1]) dynTable
  else (headers, dynTable)
termination_by data.length - offset
decreasing_by
  · exact Nat.sub_lt_sub_left inside (lt_decodeInt inside 7).1
  · exact Nat.sub_lt_sub_left inside (lt_decodeLiteral inside 6 dynTable).1
  · exact Nat.sub_lt_sub_left inside (lt_decodeInt inside 5).1
  · exact Nat.sub_lt_sub_left inside (lt_decodeLiteral inside 4 dynTable).1

/-- `Hpack.decode`: the headers of a block, and the table as they leave it. -/
def decode (data : List Int64) (dynTable : HpackDynTable) : List HpackHeader × HpackDynTable :=
  decodeLoop data 0 [] dynTable

/-- The loop of `Hpack.encodeInt` over what is left of the value. -/
def encodeIntLoop (remaining : Int64) : List Int64 :=
  if 128 ≤ remaining then (remaining % 128 + 128) :: encodeIntLoop (remaining / 128)
  else [remaining]
termination_by remaining.toInt.toNat
decreasing_by
  rename_i large
  have large' : 128 ≤ remaining.toInt := Int64.le_iff_toInt_le.mp large
  rw [Int64.toInt_div_of_ne_right _ _ (by decide)]
  have positive : 0 ≤ remaining.toInt := by omega
  rw [Int.tdiv_eq_ediv_of_nonneg positive]
  change (remaining.toInt / 128).toNat < _
  omega

/-- `Hpack.encodeInt`. -/
def encodeInt (value prefixBits firstByteMask : Int64) : List Int64 :=
  let maxPrefix := ((1 : Int64) <<< prefixBits) - 1
  if value < maxPrefix then [firstByteMask ||| value]
  else (firstByteMask ||| maxPrefix) :: encodeIntLoop (value - maxPrefix)

/-- `Hpack.encodeStr`. -/
def encodeStr (s : CString) : List Int64 :=
  encodeInt (Int64.ofNat s.length) 7 0 ++ (List.range s.length).map (charCodeAt s)

/-- The loop of `Hpack.findStatic`. -/
def findStaticLoop (name value : CString) (nameMatch : Int64) : List Int64 → Int64
  | [] => nameMatch
  | i :: indices =>
      if staticName i = name then
        if staticValue i = value then i
        else findStaticLoop name value (if nameMatch = -1 then i else nameMatch) indices
      else findStaticLoop name value nameMatch indices

/-- `Hpack.findStatic`. -/
def findStatic (name value : CString) : Int64 :=
  findStaticLoop name value (-1) ((List.range' 1 61).map Int64.ofNat)

/-- `Hpack.encode`. -/
def encode : List HpackHeader → HpackDynTable → List Int64 × HpackDynTable
  | [], dynTable => ([], dynTable)
  | h :: headers, dynTable =>
      let staticIdx := findStatic h.name h.value
      if 0 < staticIdx && staticValue staticIdx == h.value then
        let rest := encode headers dynTable
        (encodeInt staticIdx 7 128 ++ rest.1, rest.2)
      else
        let nameIdx := if 0 < staticIdx then staticIdx else 0
        let rest := encode headers (dynTable.add h)
        (encodeInt nameIdx 6 64 ++ (if nameIdx = 0 then encodeStr h.name else []) ++
          encodeStr h.value ++ rest.1, rest.2)

end Tinox.Net

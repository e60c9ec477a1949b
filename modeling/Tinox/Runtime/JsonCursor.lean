import Tinox.Data.Accesses
import Tinox.Runtime.JsonReader

/-!
# The JSON reader in memory

`jsonParse` as it moves a cursor over the text and fills buffers, with every access checked.  A buffer
is its size and the values that are stored in it so far, from its start on.
-/

namespace Tinox.Runtime.JsonCursor

open Accesses Probing

section Tables

variable {ν : Type}

/-- `entries[idx]`. -/
def entryAt (slots : List (Slot CString ν)) (idx : Nat) : Outcome (Slot CString ν) :=
  match slots[idx]? with
  | some slot => .ok slot
  | none => .error .read

def setEntry (slots : List (Slot CString ν)) (idx : Nat) (slot : Slot CString ν) :
    Outcome (List (Slot CString ν)) := do
  checkWrite slots.length idx
  pure (slots.set idx slot)

/-- The loops over a ring of slots, from one to the first where to stop. -/
def probeEntries (stop : Slot CString ν → Bool) (slots : List (Slot CString ν)) : Nat → Nat → Outcome Nat
  | 0, _ => .error .unfinished
  | steps + 1, idx => do
      let slot ← entryAt slots idx
      if stop slot then pure idx else probeEntries stop slots steps (ringNext slots.length idx)

/-- Store all live entries in a new table. -/
def placeAll (steps : Nat) : List (Slot CString ν) → List (Slot CString ν) →
    Outcome (List (Slot CString ν))
  | [], ne => pure ne
  | .empty :: rest, ne => placeAll steps rest ne
  | .deleted :: rest, ne => placeAll steps rest ne
  | .live key value :: rest, ne => do
      let idx ← probeEntries Slot.isEmpty ne steps (mapHash stringHash key ne.length)
      let ne ← setEntry ne idx (.live key value)
      placeAll steps rest ne

/-- The loop of `json_obj_map_set`, and the write to the slot where it ends. -/
def storeKey (steps : Nat) (m : TinoxMap CString ν) (key : CString) (value : ν) :
    Outcome (TinoxMap CString ν) := do
  let idx ← probeEntries (Slot.endsInsert key) m.entries steps (mapHash stringHash key m.cap)
  let slot ← entryAt m.entries idx
  let entries ← setEntry m.entries idx (.live key value)
  pure ⟨entries, if slot.isLive then m.len else m.len + 1⟩

/-- `json_obj_map_set`. -/
def jsonObjMapSet (m : TinoxMap CString ν) (key : CString) (value : ν) :
    Outcome (TinoxMap CString ν) := do
  let steps := m.cap * 2
  let m ← if m.Loaded then do
      let ne ← placeAll steps m.entries (List.replicate (m.cap * 2) .empty)
      pure ⟨ne, m.len⟩
    else pure m
  storeKey steps m key value

end Tables

section Text

/- The text, without its NUL.  A loop over its bytes that took more steps than `text.length + 1`
would read behind the NUL. -/
variable (text : CString)

/-- `json_skip_ws`. -/
def jsonSkipWs (p : Nat) : Outcome Nat :=
  skipWhile text isSpace (text.length + 1) p

def skipDigits (p : Nat) : Outcome Nat :=
  skipWhile text isDigit (text.length + 1) p

/-- `if (**p == c) (*p)++`. -/
def skipByte (c : Char) (p : Nat) : Outcome Nat := do
  let b ← fetch text p
  pure (if b = c.toUInt8 then p + 1 else p)

/-- `while (**p >= '0' && **p <= '9') val = val * 10 + (*(*p)++ - '0')`. -/
def readDigits : Nat → Int64 → Nat → Outcome (Int64 × Nat)
  | 0, _, _ => .error .unfinished
  | steps + 1, val, p => do
      let b ← fetch text p
      if isDigit b then
        readDigits steps (val * 10 + Int64.ofNat (b - '0'.toUInt8).toNat) (p + 1)
      else pure (val, p)

/-- `strncmp`, with the bytes of a literal, is zero. -/
def startsWith : CString → Nat → Outcome Bool
  | [], _ => pure true
  | c :: literal, p => do
      let b ← fetch text p
      if b = c then startsWith literal (p + 1) else pure false

/-- The loop that finds the length of a string. -/
def scanString : Nat → Nat → Nat → Outcome Nat
  | 0, _, _ => .error .unfinished
  | steps + 1, scan, maxLen => do
      let b ← fetch text scan
      if b = 0 ∨ b = '"'.toUInt8 then pure maxLen
      else if b = '\\'.toUInt8 then do
        let esc ← fetch text (scan + 1)
        if esc = 0 then pure maxLen else scanString steps (scan + 2) (maxLen + 1)
      else scanString steps (scan + 1) (maxLen + 1)

/-- The loop that copies a string to a buffer. -/
def copyString (size : Nat) : Nat → CString → Nat → Outcome (CString × Nat)
  | 0, _, _ => .error .unfinished
  | steps + 1, buf, p => do
      let b ← fetch text p
      if b = 0 ∨ b = '"'.toUInt8 then pure (buf, p)
      else if b = '\\'.toUInt8 then do
        let esc ← fetch text (p + 1)
        if esc = 0 then pure (buf, p + 1)
        else do
          checkWrite size buf.length
          copyString size steps (buf ++ [unescape esc]) (p + 2)
      else do
        checkWrite size buf.length
        copyString size steps (buf ++ [b]) (p + 1)

/-- `json_parse_string_raw`. -/
def jsonParseStringRaw (p : Nat) : Outcome (CString × Nat) := do
  let maxLen ← scanString text (text.length + 1) (p + 1) 0
  let (buf, p) ← copyString text (maxLen + 1) (text.length + 1) [] (p + 1)
  let p ← skipByte text '"' p
  checkWrite (maxLen + 1) buf.length
  pure (buf, p)

/-- A fraction, and whether there is one. -/
def skipFraction (p : Nat) : Outcome (Bool × Nat) := do
  let b ← fetch text p
  if b = '.'.toUInt8 then do
    let p ← skipDigits text (p + 1)
    pure (true, p)
  else pure (false, p)

/-- An exponent, and whether there is one. -/
def skipExponent (p : Nat) : Outcome (Bool × Nat) := do
  let b ← fetch text p
  if b = 'e'.toUInt8 ∨ b = 'E'.toUInt8 then do
    let sign ← fetch text (p + 1)
    let p := if sign = '+'.toUInt8 ∨ sign = '-'.toUInt8 then p + 2 else p + 1
    let p ← skipDigits text p
    pure (true, p)
  else pure (false, p)

/-- The integer at a cursor, and the end of its digits. -/
def readInteger (p : Nat) : Outcome (Int64 × Nat) := do
  let b ← fetch text p
  let neg := b = '-'.toUInt8
  let (val, p) ← readDigits text (text.length + 1) 0 (if neg then p + 1 else p)
  pure (if neg then -val else val, p)

/- The bits of the `double` that `atof` reads. -/
variable (atof : CString → UInt64)

/-- The numbers of `json_parse_value`; a byte that starts no value is skipped. -/
def jsonParseNumber (start : Nat) : Outcome (JsonValue × Nat) := do
  let p ← skipByte text '-' start
  let p ← skipDigits text p
  let (fraction, p) ← skipFraction text p
  let (exponent, p) ← skipExponent text p
  if p = start then pure (.null, p + 1)
  else if fraction || exponent then pure (.float (atof (text.drop start)), p)
  else do
    let (val, _) ← readInteger text start
    pure (.int val, p)

/-- The literals and numbers of `json_parse_value`. -/
def jsonParseScalar (p : Nat) : Outcome (JsonValue × Nat) := do
  let isTrue ← startsWith text ("true".toList.map Char.toUInt8) p
  if isTrue then pure (.bool true, p + 4)
  else do
    let isFalse ← startsWith text ("false".toList.map Char.toUInt8) p
    if isFalse then pure (.bool false, p + 5)
    else do
      let isNull ← startsWith text ("null".toList.map Char.toUInt8) p
      if isNull then pure (.null, p + 4) else jsonParseNumber text atof p

/-- One iteration of a loop: it is left, or it goes on with a new state. -/
inductive Round (σ : Type) where
  | left (p : Nat)
  | again (state : σ) (p : Nat)

/-- Where the cursor stands behind an iteration. -/
def Round.cursor {σ : Type} : Round σ → Nat
  | .left p => p
  | .again _ p => p

/-- `fast_arr`: the memory of the stack, or of the heap when it is `heap_buf`. -/
structure Integers where
  cap : Nat
  heap : Bool
  values : List Int64

/-- Memory on the heap of twice the size, with the values so far. -/
def growIntegers (a : Integers) : Outcome Integers :=
  if a.heap then pure ⟨a.cap * 2, true, a.values⟩
  else do
    checkCopy (a.cap * 2) 0 a.values.length
    pure ⟨a.cap * 2, true, a.values⟩

/-- `fast_arr[fast_len++] = value`. -/
def storeInteger (a : Integers) (value : Int64) : Outcome Integers := do
  let a ← if a.cap ≤ a.values.length then growIntegers a else pure a
  checkWrite a.cap a.values.length
  pure { a with values := a.values ++ [value] }

/-- An iteration of the loop over an array of integers. -/
def integerRound (a : Integers) (p : Nat) : Outcome (Round Integers) := do
  let p ← jsonSkipWs text p
  let b ← fetch text p
  let neg := b = '-'.toUInt8
  let p := if neg then p + 1 else p
  let d ← fetch text p
  if !isDigit d then pure (.left p)
  else do
    let (val, p) ← readDigits text (text.length + 1) 0 p
    let p ← jsonSkipWs text p
    let e ← fetch text p
    if e ≠ ','.toUInt8 ∧ e ≠ ']'.toUInt8 then pure (.left p)
    else do
      let a ← storeInteger a (if neg then -val else val)
      let p ← skipByte text ',' p
      pure (.again a p)

/-- The loop over an array of integers and the copy of them; `none` for another array. -/
def jsonParseIntegers : Nat → Integers → Nat → Outcome (Option (List Int64 × Nat))
  | 0, _, _ => .error .unfinished
  | fuel + 1, a, p => do
      let b ← fetch text p
      if b = 0 then pure none
      else if b = ']'.toUInt8 then do
        checkWrite (a.values.length + 1) 0
        checkCopy (a.values.length + 1) 1 a.values.length
        pure (some (a.values, p + 1))
      else do
        let round ← integerRound text a p
        match round with
        | .left _ => pure none
        | .again a p => jsonParseIntegers fuel a p

/-- The elements of an array: memory for one more than `cap`, the first for their number. -/
structure Elements where
  cap : Nat
  values : List JsonValue

/-- `arr[len++] = elem`. -/
def storeElement (a : Elements) (elem : JsonValue) : Outcome Elements := do
  let cap := if a.cap ≤ a.values.length then a.cap * 2 else a.cap
  checkWrite (cap + 1) (a.values.length + 1)
  pure ⟨cap, a.values ++ [elem]⟩

/-- An iteration of the loop over the elements of an array, behind which it always goes on. -/
def elementRound (parse : Nat → Outcome (JsonValue × Nat)) (a : Elements) (p : Nat) :
    Outcome (Elements × Nat) := do
  let (elem, p) ← parse p
  let a ← storeElement a elem
  let p ← jsonSkipWs text p
  let p ← skipByte text ',' p
  let p ← jsonSkipWs text p
  pure (a, p)

/-- An iteration of the loop over the members of an object. -/
def memberRound (parse : Nat → Outcome (JsonValue × Nat)) (m : TinoxMap CString JsonValue) (p : Nat) :
    Outcome (Round (TinoxMap CString JsonValue)) := do
  let p ← jsonSkipWs text p
  let b ← fetch text p
  if b ≠ '"'.toUInt8 then pure (.left p)
  else do
    let (key, p) ← jsonParseStringRaw text p
    let p ← jsonSkipWs text p
    let p ← skipByte text ':' p
    let (val, p) ← parse p
    let m ← jsonObjMapSet m key val
    let p ← jsonSkipWs text p
    let p ← skipByte text ',' p
    pure (.again m p)

/-- An array behind its opening bracket; another array than one of integers is read by `elements`,
from its start again. -/
def jsonParseArray (fuel : Nat) (elements : Elements → Nat → Outcome (JsonValue × Nat)) (p : Nat) :
    Outcome (JsonValue × Nat) := do
  let p ← jsonSkipWs text p
  let c ← fetch text p
  if c = ']'.toUInt8 then do
    checkWrite 1 0
    pure (.intArray [], p + 1)
  else do
    let integers ← jsonParseIntegers text fuel ⟨256, false, []⟩ p
    match integers with
    | some (values, p) => pure (.intArray values, p)
    | none => elements ⟨8, []⟩ p

mutual

/-- `json_parse_value`; the fuel bounds its depth and the iterations of its loops. -/
def jsonParseValue : Nat → Nat → Outcome (JsonValue × Nat)
  | 0, _ => .error .unfinished
  | fuel + 1, p => do
      let p ← jsonSkipWs text p
      let b ← fetch text p
      if b = 0 then pure (.null, p)
      else if b = '"'.toUInt8 then do
        let (value, p) ← jsonParseStringRaw text p
        pure (.string value, p)
      else if b = '{'.toUInt8 then do
        let p ← jsonSkipWs text (p + 1)
        jsonParseMembers fuel jsonObjMapCreate p
      else if b = '['.toUInt8 then jsonParseArray text fuel (jsonParseElements fuel) (p + 1)
      else jsonParseScalar text atof p

/-- The loop over the members of an object and its closing brace. -/
def jsonParseMembers : Nat → TinoxMap CString JsonValue → Nat → Outcome (JsonValue × Nat)
  | 0, _, _ => .error .unfinished
  | fuel + 1, m, p => do
      let b ← fetch text p
      if b = 0 ∨ b = '}'.toUInt8 then do
        let p ← skipByte text '}' p
        pure (.object m, p)
      else do
        let round ← memberRound text (jsonParseValue fuel) m p
        match round with
        | .left p => do
            let p ← skipByte text '}' p
            pure (.object m, p)
        | .again m p => jsonParseMembers fuel m p

/-- The loop over the elements of an array and its closing bracket. -/
def jsonParseElements : Nat → Elements → Nat → Outcome (JsonValue × Nat)
  | 0, _, _ => .error .unfinished
  | fuel + 1, a, p => do
      let b ← fetch text p
      if b = 0 ∨ b = ']'.toUInt8 then do
        let p ← skipByte text ']' p
        checkWrite (a.cap + 1) 0
        pure (.array a.values, p)
      else do
        let (a, p) ← elementRound text (jsonParseValue fuel) a p
        jsonParseElements fuel a p

end

/-- `jsonParse` of a text. -/
def jsonParse (fuel : Nat) : Outcome JsonValue := do
  let (value, _) ← jsonParseValue text atof fuel 0
  pure value

end Text

end Tinox.Runtime.JsonCursor

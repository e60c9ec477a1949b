import Tinox.Runtime.Arrays
import Tinox.Runtime.Substrings

/-!
# Splitting, joining and replacing

Each of the three functions counts first, allocates, and fills the memory in a second pass.
Sizes have 64 bits and wrap around, the length of a string in memory does not.
-/

namespace Tinox.Runtime

open Arrays (Stop newCap sizeT wrap exists_of_bind_ok)

/-- Memory that is filled from its start: its size, and what is written so far. -/
structure Buffer where
  size : Nat
  written : CString
  deriving DecidableEq, Repr

def malloc (size : UInt64) : Buffer :=
  ⟨size.toNat, []⟩

/-- `memcpy` behind what is written, and a store of one byte there. -/
def Buffer.copy (buffer : Buffer) (bytes : CString) : Except Stop Buffer :=
  if buffer.written.length + bytes.length ≤ buffer.size then
    .ok ⟨buffer.size, buffer.written ++ bytes⟩
  else .error .outOfBounds

def strlen (s : CString) : UInt64 :=
  UInt64.ofNat s.length

/-- Allocate memory for a string and copy it. -/
def duplicate (s : CString) : Except Stop Buffer := do
  let part ← (malloc (strlen s + 1)).copy s
  part.copy [0]

/-- An array of pointers, those that are not set being `none`. -/
structure PointerArray where
  len : Int
  data : List (Option Buffer)
  deriving DecidableEq, Repr

/-- `tinox_array_new` of pointers. -/
def newPointerArray (len : Int) : Except Stop PointerArray :=
  if newCap len 0 < 0 ∨ sizeT (newCap len 0) > (2 ^ 64 - 1) / 8 then .error .exit
  else .ok ⟨len, List.replicate (newCap len 0).toNat none⟩

/-- `nd[i] = part`. -/
def setPart (nd : List (Option Buffer)) (i : Nat) (part : Buffer) :
    Except Stop (List (Option Buffer)) :=
  if i < nd.length then .ok (nd.set i (some part)) else .error .outOfBounds

/-- The loops that count occurrences; no caller has an empty needle. -/
def countLoop (needle p : CString) (count : UInt64) : UInt64 :=
  if needle = [] then count
  else
    match _ : strstr needle p with
    | none => count
    | some found => countLoop needle (p.drop (found + needle.length)) (count + 1)
termination_by p.length
decreasing_by exact length_drop_found ‹_› ‹_›

/-- The copying loop of `tinox_string_replace`, up to the last occurrence. -/
def replaceLoop (needle replacement p : CString) (out : Buffer) : Except Stop (CString × Buffer) :=
  if needle = [] then pure (p, out)
  else
    match _ : strstr needle p with
    | none => pure (p, out)
    | some found => do
        let out ← out.copy (p.take found)
        let out ← out.copy replacement
        replaceLoop needle replacement (p.drop (found + needle.length)) out
termination_by p.length
decreasing_by exact length_drop_found ‹_› ‹_›

/-- `tinox_string_replace`. -/
def tinoxStringReplace (s needle replacement : CString) : Except Stop Buffer :=
  if needle = [] then duplicate s
  else
    let count := countLoop needle s 0
    if count = 0 then duplicate s
    else do
      let rlen := strlen s + count * (strlen replacement - strlen needle)
      let (p, out) ← replaceLoop needle replacement s (malloc (rlen + 1))
      let out ← out.copy p
      out.copy [0]

/-- The loop for an empty delimiter: each byte is a part. -/
def byteLoop : CString → Nat → List (Option Buffer) → Except Stop (List (Option Buffer))
  | [], _, nd => pure nd
  | b :: str, i, nd => do
      let s ← (malloc 2).copy [b, 0]
      let nd ← setPart nd i s
      byteLoop str (i + 1) nd

/-- The copying loop of `tinox_string_split`, and its last part. -/
def splitLoop (delim start : CString) (i : Nat) (nd : List (Option Buffer)) :
    Except Stop (List (Option Buffer)) :=
  if delim = [] then pure nd
  else
    match _ : strstr delim start with
    | none => do
        let part ← duplicate start
        setPart nd i part
    | some found => do
        let part ← duplicate (start.take found)
        let nd ← setPart nd i part
        splitLoop delim (start.drop (found + delim.length)) (i + 1) nd
termination_by start.length
decreasing_by exact length_drop_found ‹_› ‹_›

/-- `tinox_string_split`, with the memory of its array. -/
def tinoxStringSplitArray (str delim : CString) : Except Stop PointerArray :=
  if delim = [] then do
    -- the first byte of an empty string is its NUL
    let bytes := if str = [] then [0] else str
    let nh ← newPointerArray (wrap (strlen bytes).toNat)
    let nd ← byteLoop bytes 0 nh.data
    pure ⟨nh.len, nd⟩
  else do
    let nh ← newPointerArray (wrap (countLoop delim str 1).toNat)
    let nd ← splitLoop delim str 0 nh.data
    pure ⟨nh.len, nd⟩

/-- The first loop of `tinox_string_join`. -/
def joinTotal (sep : CString) (total : UInt64) : List CString → UInt64
  | [] => total
  | [s] => total + strlen s
  | s :: arr => joinTotal sep (total + strlen s + strlen sep) arr

/-- The second loop of `tinox_string_join`. -/
def joinLoop (sep : CString) (p : Buffer) : List CString → Except Stop Buffer
  | [] => pure p
  | [s] => p.copy s
  | s :: arr => do
      let p ← p.copy s
      let p ← p.copy sep
      joinLoop sep p arr

/-- `tinox_string_join` of the strings of an array. -/
def tinoxStringJoin (arr : List CString) (sep : CString) : Except Stop Buffer :=
  if arr = [] then (malloc 1).copy [0]
  else do
    let p ← joinLoop sep (malloc (joinTotal sep 0 arr + 1)) arr
    p.copy [0]

variable {s : CString}

theorem copy_copy (out : Buffer) (first second : CString) :
    (out.copy first >>= fun out => out.copy second) = out.copy (first ++ second) := by
  rw [Buffer.copy, Buffer.copy, List.length_append]
  split
  next fits =>
    change Buffer.copy _ _ = _
    rw [Buffer.copy, List.length_append, List.append_assoc, Nat.add_assoc]
  next tooLong =>
    rw [if_neg (by omega)]
    rfl

/-- Memory that a string with its NUL fills to the end. -/
def holding (s : CString) : Buffer :=
  ⟨s.length + 1, s ++ [0]⟩

theorem duplicate_copy (s : CString) :
    duplicate s = (malloc (strlen s + 1)).copy (s ++ [0]) :=
  copy_copy _ _ _

theorem duplicate_eq (s : CString) :
    duplicate s = if s.length + 1 < 2 ^ 64 then .ok (holding s) else .error .outOfBounds := by
  have isSize : (strlen s + 1).toNat = (s.length + 1) % 2 ^ 64 := by
    rw [strlen, UInt64.toNat_add, UInt64.toNat_ofNat', UInt64.toNat_one, Nat.mod_add_mod]
  rw [duplicate_copy, Buffer.copy, malloc, isSize, List.length_append, List.length_nil,
    List.length_singleton, Nat.zero_add]
  split
  next fits =>
    have small : s.length + 1 < 2 ^ 64 := Nat.lt_of_le_of_lt fits (Nat.mod_lt _ (by decide))
    rw [if_pos small, Nat.mod_eq_of_lt small]
    rfl
  next tooLong =>
    rw [if_neg]
    intro small
    rw [Nat.mod_eq_of_lt small] at tooLong
    exact tooLong (Nat.le_refl _)

theorem duplicate_ok_iff {out : Buffer} :
    duplicate s = .ok out ↔ s.length + 1 < 2 ^ 64 ∧ out = holding s := by
  rw [duplicate_eq]
  split
  next small =>
    constructor
    · rintro ⟨⟩
      exact ⟨small, rfl⟩
    · rintro ⟨-, rfl⟩
      rfl
  next large =>
    constructor
    · rintro ⟨⟩
    · rintro ⟨small, -⟩
      exact (large small).elim

theorem strlen_append (s t : CString) : strlen (s ++ t) = strlen s + strlen t := by
  rw [strlen, List.length_append, UInt64.ofNat_add]
  rfl

theorem joinTotal_eq (sep : CString) (total : UInt64) (arr : List CString) :
    joinTotal sep total arr = total + strlen (sep.intercalate arr) := by
  fun_induction joinTotal sep total arr with
  | case1 total => exact (UInt64.add_zero total).symm
  | case2 total s => rw [List.intercalate_singleton]
  | case3 total s arr notLast ih =>
      cases arr with
      | nil => exact (notLast rfl).elim
      | cons next arr =>
          rw [ih, List.intercalate_cons_cons, strlen_append, strlen_append, UInt64.add_assoc,
            UInt64.add_assoc, UInt64.add_assoc]

theorem joinLoop_eq (sep : CString) (p : Buffer) {arr : List CString} (notEmpty : arr ≠ []) :
    joinLoop sep p arr = p.copy (sep.intercalate arr) := by
  fun_induction joinLoop sep p arr with
  | case1 => contradiction
  | case2 p s => rw [List.intercalate_singleton]
  | case3 p s arr notLast ih =>
      cases arr with
      | nil => exact (notLast rfl).elim
      | cons next arr =>
          rw [List.intercalate_cons_cons, ← copy_copy, ← copy_copy, bind_assoc]
          simp only [ih _ (List.cons_ne_nil next arr)]

theorem tinoxStringJoin_eq (arr : List CString) (sep : CString) :
    tinoxStringJoin arr sep = duplicate (sep.intercalate arr) := by
  rw [tinoxStringJoin]
  split
  next isEmpty =>
    rw [isEmpty]
    rfl
  next notEmpty =>
    rw [joinLoop_eq sep _ notEmpty, joinTotal_eq, UInt64.zero_add, copy_copy, duplicate_copy]

variable {needle : CString}

theorem countLoop_eq (some : needle ≠ []) (p : CString) (count : UInt64) :
    countLoop needle p count = count + UInt64.ofNat (occurrences needle p) := by
  fun_induction countLoop needle p count with
  | case1 => contradiction
  | case2 p count _ isNone => rw [occurrences_none isNone]; exact (UInt64.add_zero count).symm
  | case3 p count _ found isFound ih =>
      rw [ih, occurrences_some some isFound, UInt64.ofNat_add, UInt64.add_assoc, UInt64.add_comm 1]
      rfl

theorem replaceLoop_eq (some : needle ≠ []) (replacement p : CString) (out : Buffer) :
    (replaceLoop needle replacement p out >>= fun last => last.2.copy (last.1 ++ [0])) =
      out.copy (replacement.intercalate (tinoxStringSplit needle p) ++ [0]) := by
  fun_induction replaceLoop needle replacement p out with
  | case1 => contradiction
  | case2 p out _ isNone =>
      rw [tinoxStringSplit_none some isNone, List.intercalate_singleton, pure_bind]
  | case3 p out _ found isFound ih =>
      rw [tinoxStringSplit_some some isFound,
        List.intercalate_cons_of_ne_nil (tinoxStringSplit_ne_nil some _), List.append_assoc,
        List.append_assoc]
      simp only [bind_assoc, ih, copy_copy]

theorem length_intercalate (sep first : CString) (rest : List CString) :
    (sep.intercalate (first :: rest)).length =
      (first :: rest).flatten.length + rest.length * sep.length := by
  rw [intercalate_cons, List.length_append, List.flatten_cons, List.length_append]
  induction rest with
  | nil => simp
  | cons second rest ih =>
      rw [List.flatMap_cons, List.flatten_cons, List.length_append, List.length_append,
        List.length_append, List.length_cons, Nat.succ_mul]
      omega

theorem length_replaced (some : needle ≠ []) (replacement s : CString) :
    (replacement.intercalate (tinoxStringSplit needle s)).length +
        occurrences needle s * needle.length =
      s.length + occurrences needle s * replacement.length := by
  have isText := congrArg List.length (intercalate_tinoxStringSplit some s)
  have number := length_tinoxStringSplit some s
  rcases exists_tinoxStringSplit some s with ⟨first, rest, isSplit, -⟩
  rw [isSplit, length_intercalate] at isText
  rw [isSplit, List.length_cons, Nat.succ_inj] at number
  rw [isSplit, length_intercalate, ← isText, number]
  omega

theorem strlen_replaced {t replacement : CString} {count : Nat}
    (sameLength : t.length + count * needle.length = s.length + count * replacement.length) :
    strlen s + UInt64.ofNat count * (strlen replacement - strlen needle) = strlen t := by
  have same := congrArg UInt64.ofNat sameLength
  rw [UInt64.ofNat_add, UInt64.ofNat_add, UInt64.ofNat_mul, UInt64.ofNat_mul] at same
  rw [strlen, strlen, strlen, strlen]
  grind

/-- The memory that is allocated is filled, as it is by joining the parts. -/
theorem tinoxStringReplace_eq (some : needle ≠ []) (fits : occurrences needle s < 2 ^ 64)
    (replacement : CString) : tinoxStringReplace s needle replacement =
      duplicate (replacement.intercalate (tinoxStringSplit needle s)) := by
  have isCount : countLoop needle s 0 = UInt64.ofNat (occurrences needle s) := by
    rw [countLoop_eq some, UInt64.zero_add]
  rw [tinoxStringReplace, if_neg some]
  dsimp only
  rw [isCount]
  split
  next isZero =>
    have none : occurrences needle s = 0 := by
      have isZero := congrArg UInt64.toNat isZero
      rw [UInt64.toNat_ofNat', Nat.mod_eq_of_lt fits] at isZero
      exact isZero
    have one := length_tinoxStringSplit some s
    have isText := intercalate_tinoxStringSplit some s
    rcases exists_tinoxStringSplit some s with ⟨first, rest, isSplit, -⟩
    rw [isSplit, none, List.length_cons, Nat.succ_inj, List.length_eq_zero_iff] at one
    rw [isSplit, one, List.intercalate_singleton] at isText
    rw [isSplit, one, List.intercalate_singleton, isText]
  next =>
    rw [strlen_replaced (length_replaced some replacement s), duplicate_copy,
      ← replaceLoop_eq some replacement s]
    simp only [copy_copy]

variable {delim start str : CString}

theorem setPart_next (before after : List (Option Buffer)) (old : Option Buffer) (part : Buffer) :
    setPart (before ++ old :: after) before.length part = .ok (before ++ some part :: after) := by
  have inside : before.length < (before ++ old :: after).length := by
    rw [List.length_append, List.length_cons]
    omega
  rw [setPart, if_pos inside, List.set_append_right _ _ (Nat.le_refl _), Nat.sub_self]
  rfl

theorem splitLoop_none (some : delim ≠ []) (isNone : strstr delim start = none) (i : Nat)
    (nd : List (Option Buffer)) :
    splitLoop delim start i nd = duplicate start >>= fun part => setPart nd i part := by
  rw [splitLoop, if_neg some]
  split
  next => rfl
  next found isFound =>
    rw [isNone] at isFound
    contradiction

theorem splitLoop_some (some : delim ≠ []) {found : Nat}
    (isFound : strstr delim start = .some found) (i : Nat) (nd : List (Option Buffer)) :
    splitLoop delim start i nd = duplicate (start.take found) >>= fun part =>
      setPart nd i part >>= fun nd =>
        splitLoop delim (start.drop (found + delim.length)) (i + 1) nd := by
  rw [splitLoop, if_neg some]
  split
  next isNone =>
    rw [isNone] at isFound
    contradiction
  next place isPlace =>
    rw [isPlace] at isFound
    cases isFound
    rfl

theorem splitLoop_eq (some : delim ≠ []) (fits : start.length + 1 < 2 ^ 64)
    (before : List (Option Buffer)) {room : List (Option Buffer)} (after : List (Option Buffer))
    (enough : room.length = (tinoxStringSplit delim start).length) :
    splitLoop delim start before.length (before ++ (room ++ after)) =
      .ok (before ++ ((tinoxStringSplit delim start).map (fun part => .some (holding part)) ++
        after)) := by
  fun_induction tinoxStringSplit delim start generalizing before room with
  | case1 => contradiction
  | case2 => contradiction
  | case3 start _ isNone =>
      rcases List.length_eq_one_iff.mp enough with ⟨old, rfl⟩
      rw [splitLoop_none some isNone, duplicate_ok_iff.mpr ⟨fits, rfl⟩]
      exact setPart_next before after old (holding start)
  | case4 start _ found isFound ih =>
      cases room with
      | nil => contradiction
      | cons old room =>
          have less := length_drop_found some isFound
          have part : (start.take found).length + 1 < 2 ^ 64 := by
            rw [List.length_take]
            omega
          have later := ih (by omega) (before ++ [.some (holding (start.take found))])
            (Nat.succ_inj.mp enough)
          rw [List.length_append, List.length_singleton, List.append_assoc, List.append_assoc]
            at later
          rw [splitLoop_some some isFound, duplicate_ok_iff.mpr ⟨part, rfl⟩]
          change (setPart (before ++ old :: (room ++ after)) before.length _ >>= _) = _
          rw [setPart_next]
          exact later

theorem newCap_natCast (count : Nat) : newCap count 0 = (max count 4 : Nat) := by
  rw [newCap]
  split <;> split <;> omega

/-- An array of so many parts is refused if its size cannot be represented. -/
theorem newPointerArray_natCast (count : Nat) (small : count < 2 ^ 63) :
    newPointerArray count = if count ≤ (2 ^ 64 - 1) / 8 then
      .ok ⟨count, List.replicate count none ++ List.replicate (max count 4 - count) none⟩
      else .error .exit := by
  have isCap : max count 4 = count + (max count 4 - count) := by omega
  have isSize : sizeT (max count 4 : Nat) = max count 4 := by
    rw [sizeT]
    omega
  rw [newPointerArray, newCap_natCast, isSize, Int.toNat_natCast, ← List.replicate_add, ← isCap]
  by_cases fits : count ≤ (2 ^ 64 - 1) / 8
  · rw [if_neg (by omega), if_pos fits]
  · rw [if_pos (by omega), if_neg fits]

theorem occurrences_le (some : needle ≠ []) (s : CString) : occurrences needle s ≤ s.length := by
  have isLength := length_replaced some [] s
  have positive := List.length_pos_iff.mpr some
  have atLeast := Nat.le_mul_of_pos_right (occurrences needle s) positive
  rw [List.length_nil, Nat.mul_zero] at isLength
  omega

theorem wrap_countLoop (some : delim ≠ []) (fits : str.length + 1 < 2 ^ 64) :
    wrap (countLoop delim str 1).toNat =
      if (tinoxStringSplit delim str).length < 2 ^ 63 then
        ((tinoxStringSplit delim str).length : Int)
      else (tinoxStringSplit delim str).length - 2 ^ 64 := by
  have atMost := occurrences_le some str
  have isCount : (countLoop delim str 1).toNat = occurrences delim str + 1 := by
    rw [countLoop_eq some, UInt64.toNat_add, UInt64.toNat_ofNat', UInt64.toNat_one]
    omega
  rw [isCount, length_tinoxStringSplit some, wrap]
  split <;> omega

/-- The array is allocated if its size can be represented, and then all parts are stored. -/
theorem tinoxStringSplitArray_eq (some : delim ≠ []) (fits : str.length + 1 < 2 ^ 64)
    (parts : (tinoxStringSplit delim str).length ≤ (2 ^ 64 - 1) / 8) :
    ∃ after, tinoxStringSplitArray str delim = .ok ⟨(tinoxStringSplit delim str).length,
      (tinoxStringSplit delim str).map (fun part => .some (holding part)) ++ after⟩ := by
  have small : (tinoxStringSplit delim str).length < 2 ^ 63 := by omega
  have isRoom : (List.replicate (tinoxStringSplit delim str).length (none : Option Buffer)).length =
      (tinoxStringSplit delim str).length := List.length_replicate
  have isStored := splitLoop_eq some fits []
    (List.replicate (max (tinoxStringSplit delim str).length 4 -
      (tinoxStringSplit delim str).length) none) isRoom
  refine ⟨List.replicate (max (tinoxStringSplit delim str).length 4 -
    (tinoxStringSplit delim str).length) none, ?_⟩
  rw [tinoxStringSplitArray, if_neg some, wrap_countLoop some fits, if_pos small,
    newPointerArray_natCast _ small, if_pos parts]
  exact congrArg (fun stored : Except Stop (List (Option Buffer)) => stored >>= fun nd =>
    pure (PointerArray.mk (tinoxStringSplit delim str).length nd)) isStored

theorem newPointerArray_len {len : Int} {nh : PointerArray} (isNew : newPointerArray len = .ok nh) :
    nh.len = len := by
  rw [newPointerArray] at isNew
  split at isNew
  next => exact nomatch isNew
  next =>
    cases isNew
    rfl

theorem parts_le_of_ok {array : PointerArray} (some : delim ≠ []) (fits : str.length + 1 < 2 ^ 64)
    (isArray : tinoxStringSplitArray str delim = .ok array)
    (isLength : array.len = (tinoxStringSplit delim str).length) :
    (tinoxStringSplit delim str).length ≤ (2 ^ 64 - 1) / 8 := by
  rw [tinoxStringSplitArray, if_neg some] at isArray
  rcases exists_of_bind_ok isArray with ⟨nh, isNew, isArray⟩
  rcases exists_of_bind_ok isArray with ⟨nd, -, isArray⟩
  cases isArray
  have isWrapped := (newPointerArray_len isNew).symm.trans isLength
  rw [isWrapped] at isNew
  rw [wrap_countLoop some fits] at isWrapped
  split at isWrapped
  next small =>
    rw [newPointerArray_natCast _ small] at isNew
    split at isNew
    next atMost => exact atMost
    next => exact nomatch isNew
  next => omega

/-- Split at a delimiter, a string has so many parts as the delimiter occurs and one more, and an
array that is full of them; no part contains the delimiter; joined again they are the string, and
joined with a replacement they are the string in which the delimiter is replaced.  All memory
is filled to its end. -/
def Agree (s delim replacement : CString) : Prop :=
  ∃ array parts, tinoxStringSplitArray s delim = .ok array ∧ array.len = parts.length ∧
    array.data.take parts.length = parts.map (fun part => some (holding part)) ∧
    parts.length = 1 + occurrences delim s ∧ (∀ part ∈ parts, ¬ delim <:+: part) ∧
    tinoxStringJoin parts delim = .ok (holding s) ∧
    ∃ whole, tinoxStringReplace s delim replacement = .ok (holding whole) ∧
      tinoxStringJoin parts replacement = .ok (holding whole)

/-- The sizes of the string, of the array and of the string in which the delimiter is replaced can
be represented. -/
def Representable (s delim replacement : CString) : Prop :=
  s.length + 1 < 2 ^ 64 ∧ 1 + occurrences delim s ≤ (2 ^ 64 - 1) / 8 ∧
    s.length + occurrences delim s * replacement.length - occurrences delim s * delim.length + 1 <
      2 ^ 64

/-- Splitting, joining and replacing agree if and only if the sizes can be represented. -/
theorem agree_iff {delim : CString} (some : delim ≠ []) (s replacement : CString) :
    Agree s delim replacement ↔ Representable s delim replacement := by
  have atMost := occurrences_le some s
  have number := length_tinoxStringSplit some s
  have isText := intercalate_tinoxStringSplit some s
  have isWhole := length_replaced some replacement s
  constructor
  · rintro ⟨array, parts, isArray, isLength, -, isNumber, -, isJoined, whole, isReplaced, -⟩
    rw [tinoxStringJoin_eq, duplicate_ok_iff] at isJoined
    have fits : s.length + 1 < 2 ^ 64 := by
      have sameSize : s.length + 1 = (delim.intercalate parts).length + 1 :=
        congrArg Buffer.size isJoined.2
      omega
    have small : (tinoxStringSplit delim s).length ≤ (2 ^ 64 - 1) / 8 := by
      apply parts_le_of_ok some fits isArray
      rw [isLength, isNumber, number, Nat.add_comm]
    rw [tinoxStringReplace_eq some (by omega), duplicate_ok_iff] at isReplaced
    exact ⟨fits, by omega, by omega⟩
  · rintro ⟨fits, small, wholeFits⟩
    rcases tinoxStringSplitArray_eq some fits (by omega) with ⟨after, isArray⟩
    refine ⟨_, tinoxStringSplit delim s, isArray, rfl, ?_, by omega, ?_, ?_,
      replacement.intercalate (tinoxStringSplit delim s), ?_, ?_⟩
    · rw [← List.length_map (fun part => Option.some (holding part)), List.take_left]
    · exact fun part => not_infix_of_mem_split some
    · rw [tinoxStringJoin_eq, isText, duplicate_ok_iff]
      exact ⟨fits, rfl⟩
    · rw [tinoxStringReplace_eq some (by omega), duplicate_ok_iff]
      exact ⟨by omega, rfl⟩
    · rw [tinoxStringJoin_eq, duplicate_ok_iff]
      exact ⟨by omega, rfl⟩

/-- A text with two commas, each of which becomes a semicolon and a space. -/
theorem agree_comma : Agree [97, 44, 98, 44] [44] [59, 32] :=
  (agree_iff (by decide) _ _).mpr (by
    rw [Representable]
    with_unfolding_all decide)

theorem occurrences_replicate (b : UInt8) (n : Nat) : occurrences [b] (List.replicate n b) = n := by
  induction n with
  | zero =>
      rw [List.replicate_zero, occurrences]
  | succ n ih =>
      have isHere : [b] <+: b :: List.replicate n b := List.prefix_append [b] (List.replicate n b)
      rw [List.replicate_succ, occurrences, dif_neg (List.cons_ne_nil b []), if_pos isHere]
      exact congrArg Nat.succ ih

/-- Replacing so many bytes by so many others each: the size is 0 modulo 64 bits, and what is
copied is behind the memory. -/
theorem replace_replicate {n m : Nat} (isSize : n * m = 2 ^ 64) (small : n < 2 ^ 64) :
    tinoxStringReplace (List.replicate n 97) [97] (List.replicate m 98) = .error .outOfBounds := by
  have some : ([97] : CString) ≠ [] := List.cons_ne_nil 97 []
  have number := occurrences_replicate 97 n
  have isLength := length_replaced some (List.replicate m 98) (List.replicate n 97)
  rw [number, List.length_replicate, List.length_replicate, List.length_singleton, isSize]
    at isLength
  rw [tinoxStringReplace_eq some (by omega), duplicate_eq, if_neg (by omega)]

/-- With a string of 8 GiB and a replacement of 2 GiB the memory is overrun. -/
theorem overrun_notAgree :
    tinoxStringReplace (List.replicate (2 ^ 33) 97) [97] (List.replicate (2 ^ 31) 98) =
        .error .outOfBounds ∧
      ¬ Agree (List.replicate (2 ^ 33) 97) [97] (List.replicate (2 ^ 31) 98) := by
  have isOverrun := replace_replicate (n := 2 ^ 33) (m := 2 ^ 31) (by decide) (by decide)
  refine ⟨isOverrun, ?_⟩
  rintro ⟨_, _, _, _, _, _, _, _, whole, isReplaced, _⟩
  exact nomatch isOverrun.symm.trans isReplaced

end Tinox.Runtime

import Tinox.Net.Http1Parsing

/-!
# Requests in place

`tinox_handle_one` scans the text of a request where it lies: it ends names and values by NULs that
it writes into the text, and keeps their places for the handler.  The method and the target are
copied to arrays of 8 and 256 bytes.
-/

namespace Tinox.Net.Http1

open Tinox.Runtime Messages

variable {Handler : Type}

/-! ## The buffer -/

/-- The string at a place of a buffer, which ends in a NUL. -/
def stringAt (buf : CString) (p : Nat) : CString :=
  cString (buf.drop p)

def strchr (buf : CString) (p : Nat) (c : UInt8) : Option Nat :=
  if c ∈ stringAt buf p then some (p + ((stringAt buf p).takeWhile (· != c)).length) else none

/-- `normalize_header_key` of the string at a place. -/
def normalizeAt (buf : CString) (p : Nat) : CString :=
  buf.take p ++ (normalizeHeaderKey true (stringAt buf p) ++
    buf.drop (p + (stringAt buf p).length))

/-- `while (*vstart == ' ') vstart++`. -/
def skipSpaces (buf : CString) (vstart : Nat) : Nat :=
  vstart + ((buf.drop vstart).takeWhile (· == 32)).length

/-- `vlen`, without the bytes CR and the spaces in front of `eol`. -/
def valueLength (buf : CString) (vstart eol : Nat) : Nat :=
  (((buf.drop vstart).take (eol - vstart)).rdropWhile fun c => c == 13 || c == 32).length

/-- The buffer after a header line at `hkey`, and `vstart`. -/
def takeHeader (buf : CString) (hkey colon eol : Nat) : CString × Nat :=
  let buf := normalizeAt (buf.set colon 0) hkey
  let vstart := skipSpaces buf (colon + 1)
  (buf.set (vstart + valueLength buf vstart eol) 0, vstart)

/-- `tinox_map_set_borrow`, for a map of the places of keys and values. -/
def mapSetBorrow (buf : CString) : List (Nat × Nat) → Nat → Nat → List (Nat × Nat)
  | [], key, value => [(key, value)]
  | entry :: m, key, value =>
      if stringAt buf entry.1 = stringAt buf key then (entry.1, value) :: m
      else entry :: mapSetBorrow buf m key value

/-- What a handler reads in a map of places. -/
def readMap (buf : CString) (m : List (Nat × Nat)) : StringMap :=
  fun key => (m.find? fun entry => stringAt buf entry.1 == key).map fun entry => stringAt buf entry.2

variable {buf : CString} {p : Nat} {c : UInt8}

theorem length_stringAt_le (buf : CString) (p : Nat) : (stringAt buf p).length ≤ buf.length - p := by
  rw [← List.length_drop]
  exact Tinox.Net.length_cString_le _

theorem length_normalizeHeaderKey (capNext : Bool) (key : CString) :
    (normalizeHeaderKey capNext key).length = key.length := by
  induction key generalizing capNext with
  | nil => rfl
  | cons k key ih =>
      rw [normalizeHeaderKey]
      split
      · rw [List.length_cons, List.length_cons, ih]
      · split
        all_goals rw [List.length_cons, List.length_cons, ih]

theorem length_normalizeAt (buf : CString) (p : Nat) : (normalizeAt buf p).length = buf.length := by
  have bound := length_stringAt_le buf p
  rw [normalizeAt, List.length_append, List.length_append, length_normalizeHeaderKey,
    List.length_take, List.length_drop]
  omega

theorem length_takeHeader (buf : CString) (hkey colon eol : Nat) :
    (takeHeader buf hkey colon eol).1.length = buf.length := by
  rw [takeHeader, List.length_set, length_normalizeAt, List.length_set]

theorem strchr_lt {place : Nat} (isFound : strchr buf p c = some place) :
    p ≤ place ∧ place < buf.length := by
  rw [strchr] at isFound
  split at isFound
  next member =>
    have bound := length_stringAt_le buf p
    have isSplit := List.takeWhile_append_dropWhile (p := (· != c)) (l := stringAt buf p)
    have notAll : (stringAt buf p).dropWhile (· != c) ≠ [] := by
      rw [Ne, List.dropWhile_eq_nil_iff]
      intro all
      exact absurd (all c member) (by simp)
    have length := congrArg List.length isSplit
    rw [List.length_append] at length
    have positive := List.length_pos_iff.mpr notAll
    cases isFound
    omega
  next => contradiction

/-- The loop for the headers; `hdrLine` is the place of a newline.  It returns the buffer, the map,
and the last `hdr_line`. -/
def headerScan (buf : CString) (headers : List (Nat × Nat)) (hdrLine : Nat) :
    CString × List (Nat × Nat) × Option Nat :=
  match stringAt buf (hdrLine + 1) with
  | [] => (buf, headers, some (hdrLine + 1))
  | c :: _ =>
      if c = 13 ∨ c = 10 then (buf, headers, some (hdrLine + 1))
      else
        match _ : strchr buf (hdrLine + 1) 10 with
        | none => (buf, headers, none)
        | some eol =>
            match strchr buf (hdrLine + 1) 58 with
            | none => headerScan buf headers eol
            | some colon =>
                if colon < eol then
                  let taken := takeHeader buf (hdrLine + 1) colon eol
                  headerScan taken.1 (mapSetBorrow taken.1 headers (hdrLine + 1) taken.2) eol
                else headerScan buf headers eol
termination_by buf.length - hdrLine
decreasing_by
  all_goals
    have bounds := strchr_lt ‹_›
    first
    | omega
    | rw [length_takeHeader]
      omega

/-- The headers of a request, from behind its first newline on. -/
def scanHeaders (raw : CString) : CString × List (Nat × Nat) × Option Nat :=
  match strchr raw 0 10 with
  | none => (raw, [], none)
  | some hdrLine => headerScan raw [] hdrLine

/-- `req_body`. -/
def reqBody (buf : CString) : Option Nat → CString
  | none => []
  | some hdrLine =>
      if buf.getD hdrLine 0 = 13 then stringAt buf (hdrLine + 2)
      else if buf.getD hdrLine 0 = 10 then stringAt buf (hdrLine + 1)
      else []

/-- The headers and the body that a handler reads after the loop. -/
def readScanned (scanned : CString × List (Nat × Nat) × Option Nat) : StringMap × CString :=
  (readMap scanned.1 scanned.2.1, reqBody scanned.1 scanned.2.2)

/-- `tinox_handle_one`: the handler that is called, and the request that it is passed. -/
def handleOne (routes : List (Route Handler)) (raw : CString) : Option (Handler × HttpRequest) :=
  if raw = [] then none
  else
    let method := (requestLineOf raw).1
    let path := (requestLineOf raw).2.takeWhile (· != 63)
    let query := ((requestLineOf raw).2.dropWhile (· != 63)).tail
    let read := readScanned (scanHeaders raw)
    (lookupRoute routes method path).map fun found =>
      (found.1, ⟨method, path, read.2, read.1, query, found.2⟩)

/-- The string at a place ends within the bytes. -/
def Settled (buf : CString) (p : Nat) : Prop :=
  0 ∈ buf.drop p

variable {m : List (Nat × Nat)}

theorem cString_of_zero (zero : 0 ∈ buf) (rest : CString) :
    cString (buf ++ rest) = cString buf := by
  rw [cString, cString, List.takeWhile_append]
  split
  next all =>
    have whole := (List.takeWhile_prefix (· != (0 : UInt8))).eq_of_length all
    have notZero := List.takeWhile_eq_self_iff.mp whole 0 zero
    contradiction
  next => rfl

theorem Settled.lt (settled : Settled buf p) : p < buf.length := by
  have positive := List.length_pos_of_mem settled
  rw [List.length_drop] at positive
  omega

theorem Settled.stringAt (settled : Settled buf p) (rest : CString) :
    stringAt (buf ++ rest) p = stringAt buf p := by
  rw [Http1.stringAt, Http1.stringAt, List.drop_append_of_le_length (Nat.le_of_lt settled.lt),
    cString_of_zero settled]

theorem Settled.append (settled : Settled buf p) (rest : CString) : Settled (buf ++ rest) p := by
  rw [Settled, List.drop_append_of_le_length (Nat.le_of_lt settled.lt)]
  exact List.mem_append_left rest settled

/-- All strings of a map are settled. -/
def AllSettled (buf : CString) (m : List (Nat × Nat)) : Prop :=
  ∀ entry ∈ m, Settled buf entry.1 ∧ Settled buf entry.2

theorem readMap_cons (buf : CString) (entry : Nat × Nat) (m : List (Nat × Nat)) (key : CString) :
    readMap buf (entry :: m) key =
      if stringAt buf entry.1 = key then some (stringAt buf entry.2) else readMap buf m key := by
  rw [readMap, List.find?_cons]
  by_cases isKey : stringAt buf entry.1 = key
  · rw [if_pos isKey, beq_iff_eq.mpr isKey]
    rfl
  · rw [if_neg isKey, beq_eq_false_iff_ne.mpr isKey]
    rfl

theorem readMap_append (settled : AllSettled buf m) (rest : CString) :
    readMap (buf ++ rest) m = readMap buf m := by
  funext key
  induction m with
  | nil => rfl
  | cons entry m ih =>
      rw [AllSettled, List.forall_mem_cons] at settled
      rw [readMap_cons, readMap_cons, settled.1.1.stringAt, settled.1.2.stringAt, ih settled.2]

theorem AllSettled.append (settled : AllSettled buf m) (rest : CString) :
    AllSettled (buf ++ rest) m :=
  fun entry member => ⟨(settled entry member).1.append rest, (settled entry member).2.append rest⟩

theorem AllSettled.setBorrow (settled : AllSettled buf m) {key value : Nat}
    (isKey : Settled buf key) (isValue : Settled buf value) (buf' : CString) :
    AllSettled buf (mapSetBorrow buf' m key value) := by
  induction m with
  | nil =>
      rintro entry (_ | ⟨_, ⟨⟩⟩)
      exact ⟨isKey, isValue⟩
  | cons entry m ih =>
      rw [AllSettled, List.forall_mem_cons] at settled
      rw [mapSetBorrow]
      split
      · rw [AllSettled, List.forall_mem_cons]
        exact ⟨⟨settled.1.1, isValue⟩, settled.2⟩
      · rw [AllSettled, List.forall_mem_cons]
        exact ⟨settled.1, ih settled.2⟩

theorem readMap_setBorrow (buf : CString) (m : List (Nat × Nat)) (key value : Nat) :
    readMap buf (mapSetBorrow buf m key value) =
      (readMap buf m).set (stringAt buf key) (stringAt buf value) := by
  funext name
  induction m with
  | nil =>
      rw [mapSetBorrow, readMap_cons, StringMap.set]
      simp only [eq_comm]
  | cons entry m ih =>
      rw [mapSetBorrow]
      by_cases same : stringAt buf entry.1 = stringAt buf key
      · rw [if_pos same, readMap_cons, StringMap.set, readMap_cons]
        by_cases isName : stringAt buf entry.1 = name
        · rw [if_pos isName, if_pos (isName.symm.trans same)]
        · rw [if_neg isName, if_neg isName, if_neg fun isKey => isName (same.trans isKey.symm)]
      · rw [if_neg same, readMap_cons, ih, StringMap.set, StringMap.set, readMap_cons]
        by_cases isName : stringAt buf entry.1 = name
        · rw [if_pos isName, if_pos isName, if_neg fun isKey => same (isName.trans isKey)]
        · rw [if_neg isName, if_neg isName]

/-! ## One header line -/

variable {value name : CString}

theorem set_length (front : CString) (b c : UInt8) (back : CString) :
    (front ++ b :: back).set front.length c = front ++ c :: back := by
  rw [List.set_append_right _ _ (Nat.le_refl _), Nat.sub_self]
  rfl

theorem stringAt_length (nulFree : NulFree name) (front back : CString) :
    stringAt (front ++ (name ++ 0 :: back)) front.length = name := by
  rw [stringAt, List.drop_left, cString_append nulFree]
  exact List.append_nil name

set_option maxRecDepth 1024 in
theorem nulFree_normalizeHeaderKey (nulFree : NulFree name) (capNext : Bool) :
    NulFree (normalizeHeaderKey capNext name) := by
  have spec : ∀ k : UInt8, k ≠ 0 →
      (if 97 ≤ k ∧ k ≤ 122 then k - 32 else k) ≠ 0 ∧ lower k ≠ 0 := by
    apply Formats.Toml.forall_byte
    decide
  induction name generalizing capNext with
  | nil => exact List.not_mem_nil
  | cons k name ih =>
      rw [NulFree, List.mem_cons, not_or] at nulFree
      have notZero := spec k (Ne.symm nulFree.1)
      rw [normalizeHeaderKey]
      split
      · rw [NulFree, List.mem_cons, not_or]
        exact ⟨nulFree.1, ih nulFree.2 true⟩
      · split
        · rw [NulFree, List.mem_cons, not_or]
          exact ⟨Ne.symm notZero.1, ih nulFree.2 false⟩
        · rw [NulFree, List.mem_cons, not_or]
          exact ⟨Ne.symm notZero.2, ih nulFree.2 false⟩

theorem normalizeAt_set (front : CString) (nulFree : NulFree name) (back : CString) :
    normalizeAt ((front ++ (name ++ 58 :: back)).set (front.length + name.length) 0) front.length =
      front ++ (normalizeHeaderKey true name ++ 0 :: back) := by
  have isSet : (front ++ (name ++ 58 :: back)).set (front.length + name.length) 0 =
      front ++ (name ++ 0 :: back) := by
    rw [← List.append_assoc, ← List.length_append, set_length, List.append_assoc]
  rw [isSet, normalizeAt, stringAt_length nulFree, List.take_left, ← List.drop_drop, List.drop_left,
    List.drop_left]

theorem set_value (front : CString) (nulFree : NulFree value) (rest : CString) :
    ∃ line vstart, skipSpaces (front ++ (value ++ 10 :: rest)) front.length = vstart ∧
      (front ++ (value ++ 10 :: rest)).set (vstart + valueLength (front ++ (value ++ 10 :: rest))
        vstart (front.length + value.length)) 0 = front ++ line ++ rest ∧
      line.length = value.length + 1 ∧ Settled (front ++ line) vstart ∧
      stringAt (front ++ line) vstart =
        (value.dropWhile (· == 32)).rdropWhile fun c => c == 13 || c == 32 := by
  have isSplit := List.takeWhile_append_dropWhile (p := (· == (32 : UInt8))) (l := value)
  have isSpaces : (value ++ 10 :: rest).takeWhile (· == 32) = value.takeWhile (· == 32) := by
    rw [List.takeWhile_append]
    split
    · rw [List.takeWhile_cons_of_neg (by decide), List.append_nil]
      exact ((List.takeWhile_prefix _).eq_of_length ‹_›).symm
    · rfl
  generalize value.takeWhile (· == 32) = spaces at isSplit isSpaces
  generalize value.dropWhile (· == 32) = kept at isSplit
  have isKept := List.rdropWhile_prefix (fun c : UInt8 => c == 13 || c == 32) (l := kept)
  generalize isValue : kept.rdropWhile (fun c => c == 13 || c == 32) = v at isKept
  rcases isKept with ⟨trail, rfl⟩
  subst isSplit
  have vFree : NulFree v := fun member =>
    nulFree (List.mem_append_right spaces (List.mem_append_left trail member))
  -- the byte that is overwritten
  rcases List.exists_cons_of_ne_nil (List.append_ne_nil_of_right_ne_nil trail (List.cons_ne_nil 10 []))
    with ⟨b, tail, isTail⟩
  have isBuffer : front ++ (spaces ++ (v ++ trail) ++ 10 :: rest) =
      (front ++ spaces) ++ (v ++ b :: (tail ++ rest)) := by
    rw [← List.cons_append, ← isTail]
    simp only [List.append_assoc, List.cons_append, List.nil_append]
  have isLength : valueLength (front ++ (spaces ++ (v ++ trail) ++ 10 :: rest))
      (front ++ spaces).length (front.length + (spaces ++ (v ++ trail)).length) = v.length := by
    have isSize : front.length + (spaces ++ (v ++ trail)).length - (front ++ spaces).length =
        (v ++ trail).length := by
      have frontLength : (front ++ spaces).length = front.length + spaces.length :=
        List.length_append
      have valueLength : (spaces ++ (v ++ trail)).length = spaces.length + (v ++ trail).length :=
        List.length_append
      omega
    rw [valueLength, isSize, List.append_assoc, ← List.append_assoc front, List.drop_left,
      List.take_left, isValue]
  refine ⟨spaces ++ (v ++ 0 :: tail), (front ++ spaces).length, ?_, ?_, ?_, ?_, ?_⟩
  · rw [skipSpaces, List.drop_left, isSpaces, List.length_append]
  · rw [isLength, isBuffer, ← List.append_assoc, ← List.length_append, set_length]
    simp only [List.append_assoc, List.cons_append]
  · have tailLength := congrArg List.length isTail
    simp only [List.length_append, List.length_cons, List.length_nil] at tailLength ⊢
    omega
  · rw [Settled, ← List.append_assoc, List.drop_left]
    exact List.mem_append_right v (List.mem_cons_self ..)
  · rw [← List.append_assoc, stringAt_length vFree]

/-- The line of a header is rewritten in its place: its strings are settled, the key normalized and
the value without the spaces around it. -/
theorem takeHeader_eq (front : CString) (nameFree : NulFree name) (valueFree : NulFree value)
    (rest : CString) :
    ∃ line vstart, takeHeader (front ++ (name ++ 58 :: (value ++ 10 :: rest))) front.length
        (front.length + name.length) (front.length + name.length + 1 + value.length) =
        (front ++ line ++ rest, vstart) ∧
      line.length = name.length + 1 + value.length + 1 ∧
      Settled (front ++ line) front.length ∧ Settled (front ++ line) vstart ∧
      stringAt (front ++ line) front.length = normalizeHeaderKey true name ∧
      stringAt (front ++ line) vstart =
        (value.dropWhile (· == 32)).rdropWhile fun c => c == 13 || c == 32 := by
  have normFree := nulFree_normalizeHeaderKey nameFree true
  have normLength := length_normalizeHeaderKey true name
  rw [takeHeader, normalizeAt_set front nameFree]
  generalize normalizeHeaderKey true name = norm at normFree normLength
  have isFront : ∀ back, front ++ (norm ++ 0 :: back) = (front ++ (norm ++ [0])) ++ back := fun back => by
    simp only [List.append_assoc, List.cons_append, List.nil_append]
  have frontLength : front.length + name.length + 1 = (front ++ (norm ++ [0])).length := by
    simp only [List.length_append, List.length_singleton, normLength, Nat.add_assoc]
  rcases set_value (front ++ (norm ++ [0])) valueFree rest with
    ⟨line, vstart, isStart, isSet, lineLength, settled, isValue⟩
  rw [isFront, frontLength, isStart, isSet]
  refine ⟨norm ++ 0 :: line, vstart, ?_, ?_, ?_, ?_, ?_, ?_⟩
  · rw [isFront line]
  · rw [List.length_append, List.length_cons, lineLength, normLength]
    omega
  · rw [Settled, List.drop_left]
    exact List.mem_append_right norm (List.mem_cons_self ..)
  · rw [isFront]
    exact settled
  · exact stringAt_length normFree front line
  · rw [isFront]
    exact isValue

/-! ## The loop -/

variable {rest line : CString}

theorem stringAt_front (nulFree : NulFree rest) (front : CString) :
    stringAt (front ++ rest) front.length = rest := by
  rw [stringAt, List.drop_left]
  exact Tinox.Net.cString_eq_iff.mpr nulFree

theorem stringAt_start {front : CString} {hdrLine : Nat} (isStart : hdrLine + 1 = front.length)
    (nulFree : NulFree rest) : stringAt (front ++ rest) (hdrLine + 1) = rest := by
  rw [isStart, stringAt_front nulFree]

theorem strchr_none (nulFree : NulFree rest) (free : c ∉ rest) (front : CString) :
    strchr (front ++ rest) front.length c = none := by
  rw [strchr, stringAt_front nulFree, if_neg free]

theorem strchr_some (nulFree : NulFree (line ++ c :: rest)) (free : c ∉ line) (front : CString) :
    strchr (front ++ (line ++ c :: rest)) front.length c = some (front.length + line.length) := by
  rw [strchr, stringAt_front nulFree, if_pos (List.mem_append_right line (List.mem_cons_self ..)),
    (Lines.split_first free rest).1]

section Steps

variable {buf : CString} {headers : List (Nat × Nat)} {hdrLine : Nat}

theorem headerScan_end (isEnd : ∀ c ∈ (stringAt buf (hdrLine + 1)).head?, c = 13 ∨ c = 10) :
    headerScan buf headers hdrLine = (buf, headers, some (hdrLine + 1)) := by
  rw [headerScan]
  split
  next => rfl
  next c _ isString =>
    rw [if_pos (isEnd c (by rw [isString]; rfl))]

theorem headerScan_line (isString : stringAt buf (hdrLine + 1) = c :: rest) (notCr : ¬ c = 13)
    (notLf : ¬ c = 10) : headerScan buf headers hdrLine =
      match strchr buf (hdrLine + 1) 10 with
      | none => (buf, headers, none)
      | some eol =>
          match strchr buf (hdrLine + 1) 58 with
          | none => headerScan buf headers eol
          | some colon =>
              if colon < eol then
                headerScan (takeHeader buf (hdrLine + 1) colon eol).1
                  (mapSetBorrow (takeHeader buf (hdrLine + 1) colon eol).1 headers (hdrLine + 1)
                    (takeHeader buf (hdrLine + 1) colon eol).2) eol
              else headerScan buf headers eol := by
  rw [headerScan]
  split
  next isEmpty =>
    rw [isEmpty] at isString
    contradiction
  next b _ isFirst =>
    rw [isString] at isFirst
    cases isFirst
    rw [if_neg (not_or.mpr ⟨notCr, notLf⟩)]
    split
    next isNone => rw [isNone]
    next isFound => rw [isFound]

end Steps

theorem reqBody_front (nulFree : NulFree (c :: rest)) (front : CString) :
    reqBody (front ++ c :: rest) (some front.length) =
      if c = 13 then rest.drop 1 else if c = 10 then rest else [] := by
  have isByte : (front ++ c :: rest).getD front.length 0 = c := by
    rw [List.getD_append_right _ _ _ _ (Nat.le_refl _), Nat.sub_self]
    rfl
  have isBehind : ∀ n, stringAt (front ++ c :: rest) (front.length + n) = (c :: rest).drop n := fun n => by
    rw [stringAt, ← List.drop_drop, List.drop_left]
    exact Tinox.Net.cString_eq_iff.mpr fun member => nulFree (List.mem_of_mem_drop member)
  rw [reqBody, isByte, isBehind, isBehind]
  rfl

theorem strchr_behind (nulFree : NulFree (line ++ rest)) (free : c ∉ line) (front : CString)
    {place : Nat} (isFound : strchr (front ++ (line ++ rest)) front.length c = some place) :
    front.length + line.length ≤ place := by
  rw [strchr, stringAt_front nulFree, List.takeWhile_append_of_pos (Lines.bne_of_notMem free),
    List.length_append] at isFound
  split at isFound
  next =>
    cases isFound
    omega
  next => contradiction

section Lines

variable {front line rest : CString} {m : List (Nat × Nat)} {hdrLine : Nat}

theorem headerScan_noColon (isStart : hdrLine + 1 = front.length) (nulFree : NulFree (line ++ 10 :: rest))
    (isLine : ∃ c, line.head? = some c ∧ ¬ c = 13) (noEnd : 10 ∉ line) (noColon : 58 ∉ line) :
    headerScan (front ++ (line ++ 10 :: rest)) m hdrLine =
      headerScan (front ++ (line ++ 10 :: rest)) m (front.length + line.length) := by
  rcases isLine with ⟨c, isFirst, notCr⟩
  have notLf : ¬ c = 10 := fun isEnd => noEnd (isEnd ▸ List.mem_of_head? isFirst)
  have isString := stringAt_start isStart nulFree
  rw [← List.cons_head?_tail isFirst, List.cons_append] at isString
  rw [← List.cons_head?_tail isFirst, List.cons_append, headerScan_line isString notCr notLf, isStart,
    ← List.cons_append, List.cons_head?_tail isFirst, strchr_some nulFree noEnd]
  cases isColon : strchr (front ++ (line ++ 10 :: rest)) front.length 58 with
  | none => rfl
  | some colon => exact if_neg (Nat.not_lt.mpr (strchr_behind nulFree noColon front isColon))

theorem headerScan_header (isStart : hdrLine + 1 = front.length)
    (nulFree : NulFree ((name ++ 58 :: value) ++ 10 :: rest))
    (isLine : ∃ c, (name ++ 58 :: value).head? = some c ∧ ¬ c = 13)
    (noEnd : 10 ∉ name ++ 58 :: value) (noColon : 58 ∉ name) (settled : AllSettled front m) :
    ∃ taken m', taken.length = (name ++ 58 :: value).length + 1 ∧
      headerScan (front ++ ((name ++ 58 :: value) ++ 10 :: rest)) m hdrLine =
        headerScan ((front ++ taken) ++ rest) m' (front.length + (name ++ 58 :: value).length) ∧
      AllSettled (front ++ taken) m' ∧
      readMap (front ++ taken) m' = (readMap front m).set (normalizeHeaderKey true name)
        ((value.dropWhile (· == 32)).rdropWhile fun c => c == 13 || c == 32) := by
  rcases isLine with ⟨c, isFirst, notCr⟩
  have notLf : ¬ c = 10 := fun isEnd => noEnd (isEnd ▸ List.mem_of_head? isFirst)
  have isString := stringAt_start isStart nulFree
  rw [← List.cons_head?_tail isFirst, List.cons_append] at isString
  have isEnd := strchr_some nulFree noEnd front
  have isText : (name ++ 58 :: value) ++ 10 :: rest = name ++ 58 :: (value ++ 10 :: rest) := by
    rw [List.append_assoc, List.cons_append]
  have isColon := strchr_some (isText ▸ nulFree) noColon front
  have nameFree : NulFree name := fun member => nulFree (by simp [member])
  have valueFree : NulFree value := fun member => nulFree (by simp [member])
  rcases takeHeader_eq front nameFree valueFree rest with
    ⟨taken, vstart, isTaken, takenLength, isKey, isValue, isName, isTrimmed⟩
  have isEol : front.length + (name ++ 58 :: value).length =
      front.length + name.length + 1 + value.length := by
    rw [List.length_append, List.length_cons]
    omega
  have isBefore : front.length + name.length < front.length + (name ++ 58 :: value).length := by omega
  have isMap := readMap_append settled taken
  have settledTaken := settled.append taken
  refine ⟨taken, mapSetBorrow ((front ++ taken) ++ rest) m front.length vstart, ?_, ?_, ?_, ?_⟩
  · rw [takenLength, List.length_append, List.length_cons]
    omega
  · rw [← List.cons_head?_tail isFirst, List.cons_append, headerScan_line isString notCr notLf, isStart,
      ← List.cons_append, List.cons_head?_tail isFirst, isEnd, isText, isColon]
    simp only [if_pos isBefore]
    rw [isEol, isTaken]
  · exact settledTaken.setBorrow isKey isValue _
  · rw [← readMap_append (settledTaken.setBorrow isKey isValue _) rest, readMap_setBorrow,
      readMap_append settledTaken rest, isMap, isKey.stringAt, isValue.stringAt, isName, isTrimmed]

end Lines

theorem exists_split {s : CString} {b : UInt8} (some : s.dropWhile (· != b) ≠ []) :
    ∃ line rest, s = line ++ b :: rest ∧ b ∉ line := by
  apply List.eq_append_cons_of_mem
  by_contra free
  apply some
  rw [List.dropWhile_eq_nil_iff]
  intro c member
  rw [bne_iff_ne]
  rintro rfl
  exact free member

theorem exists_line (notCr : ¬ c = 13) (notLf : ¬ c = 10)
    (some : (c :: rest).dropWhile (· != 10) ≠ []) :
    ∃ line behind, c :: rest = line ++ 10 :: behind ∧ 10 ∉ line ∧
      (∃ b, line.head? = .some b ∧ ¬ b = 13) ∧
      (c :: rest).takeWhile (· != 10) = line ∧ ((c :: rest).dropWhile (· != 10)).tail = behind := by
  rcases exists_split some with ⟨line, behind, isSplit, noEnd⟩
  rcases Lines.split_first noEnd behind with ⟨isLine, isBehind⟩
  rw [← isSplit] at isLine isBehind
  refine ⟨line, behind, isSplit, noEnd, ?_, isLine, congrArg List.tail isBehind⟩
  cases line with
  | nil => exact absurd (List.cons.inj isSplit).1 notLf
  | cons b others =>
      cases isSplit
      exact ⟨c, rfl, notCr⟩

theorem parseHeader_some {hkey vstart : CString} (isHeader : parseHeader line = some (hkey, vstart)) :
    ∃ name value, line = name ++ 58 :: value ∧ 58 ∉ name ∧ hkey = normalizeHeaderKey true name ∧
      vstart = (value.dropWhile (· == 32)).rdropWhile fun c => c == 13 || c == 32 := by
  rw [parseHeader] at isHeader
  split at isHeader
  next => contradiction
  next isColon =>
    rcases exists_split (isColon ▸ List.cons_ne_nil _ _) with ⟨name, value, rfl, noColon⟩
    rcases Lines.split_first noColon value with ⟨isName, isValue⟩
    rw [isValue] at isColon
    cases isColon
    rw [isName] at isHeader
    cases isHeader
    exact ⟨name, _, rfl, noColon, rfl, rfl⟩

theorem noColon_of_parseHeader (isNone : parseHeader line = none) : 58 ∉ line := by
  rw [parseHeader] at isNone
  split at isNone
  next isColon =>
    intro member
    exact absurd (List.dropWhile_eq_nil_iff.mp isColon 58 member) (by decide)
  next => contradiction

/-- What the loop leaves is what it makes of the lines that are still to come. -/
theorem headerScan_eq {front : CString} {hdrLine : Nat} (isStart : hdrLine + 1 = front.length)
    (nulFree : NulFree rest) (settled : AllSettled front m) :
    readScanned (headerScan (front ++ rest) m hdrLine) = headerLoop (readMap front m) rest := by
  generalize isHeaders : readMap front m = headers
  fun_induction headerLoop headers rest generalizing front m hdrLine with
  | case1 headers =>
      have isString := stringAt_start isStart nulFree
      rw [headerScan_end (by rw [isString]; nofun), readScanned, readMap_append settled, isHeaders,
        reqBody, isStart, List.append_nil, List.getD_eq_default _ _ (Nat.le_refl _)]
      rfl
  | case2 headers rest =>
      have isString := stringAt_start isStart nulFree
      rw [headerScan_end (by rw [isString]; rintro c ⟨⟩; exact .inl rfl), readScanned,
        readMap_append settled, isHeaders, isStart, reqBody_front nulFree]
      rfl
  | case3 headers rest notCr =>
      have isString := stringAt_start isStart nulFree
      rw [headerScan_end (by rw [isString]; rintro c ⟨⟩; exact .inr rfl), readScanned,
        readMap_append settled, isHeaders, isStart, reqBody_front nulFree]
      rfl
  | case4 headers c rest notCr notLf eol =>
      rename_i isEmpty
      have free : 10 ∉ c :: rest := fun member =>
        absurd (List.dropWhile_eq_nil_iff.mp isEmpty 10 member) (by decide)
      rw [headerScan_line (stringAt_start isStart nulFree) notCr notLf, isStart, strchr_none nulFree free]
      simp only [readScanned, readMap_append settled, isHeaders, reqBody]
  | case5 headers c rest notCr notLf eol notEmpty hkey vstart isHeader =>
      rename_i ih
      rcases exists_line notCr notLf notEmpty with ⟨line, behind, isSplit, noEnd, isFirst, isLine, isBehind⟩
      rw [isLine] at isHeader
      rcases parseHeader_some isHeader with ⟨name, value, rfl, noColon, rfl, rfl⟩
      have behindFree : NulFree eol.tail := fun member =>
        nulFree ((List.dropWhile_suffix _).subset (List.mem_of_mem_tail member))
      rw [isSplit] at nulFree ⊢
      rcases headerScan_header isStart nulFree isFirst noEnd noColon settled with
        ⟨taken, m', takenLength, isScan, settledTaken, isMap⟩
      rw [isScan, ← isBehind]
      apply ih
      · rw [Nat.add_assoc, ← takenLength, List.length_append]
      · exact behindFree
      · exact settledTaken
      · rw [isMap, isHeaders]
  | case6 headers c rest notCr notLf eol notEmpty isNone =>
      rename_i ih
      rcases exists_line notCr notLf notEmpty with ⟨line, behind, isSplit, noEnd, isFirst, isLine, isBehind⟩
      rw [isLine] at isNone
      have behindFree : NulFree eol.tail := fun member =>
        nulFree ((List.dropWhile_suffix _).subset (List.mem_of_mem_tail member))
      have isBuffer : front ++ (line ++ 10 :: behind) = (front ++ (line ++ [10])) ++ eol.tail := by
        rw [isBehind]
        simp only [List.append_assoc, List.cons_append, List.nil_append]
      rw [isSplit] at nulFree ⊢
      rw [headerScan_noColon isStart nulFree isFirst noEnd (noColon_of_parseHeader isNone), isBuffer]
      apply ih
      · rw [List.length_append, List.length_append, List.length_singleton, Nat.add_assoc]
      · exact behindFree
      · exact settled.append _
      · rw [readMap_append settled, isHeaders]

theorem readScanned_scanHeaders (routes : List (Route Handler)) {raw : CString}
    (nulFree : NulFree raw) :
    readScanned (scanHeaders raw) =
      ((handleOneRequest routes raw).headers, (handleOneRequest routes raw).body) := by
  simp only [handleOneRequest, Prod.mk.eta]
  rw [scanHeaders]
  by_cases isEmpty : raw.dropWhile (· != 10) = []
  · have free : 10 ∉ raw := fun member =>
      absurd (List.dropWhile_eq_nil_iff.mp isEmpty 10 member) (by decide)
    have isNone := strchr_none nulFree free []
    rw [List.nil_append, List.length_nil] at isNone
    rw [isEmpty, isNone]
    rfl
  · rcases exists_split isEmpty with ⟨line, rest, rfl, noEnd⟩
    have restFree : NulFree rest := fun member => nulFree (by simp [member])
    have isBuffer : line ++ 10 :: rest = (line ++ [10]) ++ rest := by
      rw [List.append_assoc, List.singleton_append]
    have isEnd := strchr_some nulFree noEnd []
    rw [List.nil_append, List.length_nil, Nat.zero_add] at isEnd
    rw [(Lines.split_first noEnd rest).2, isEnd]
    simp only [isBuffer]
    exact headerScan_eq (by rw [List.length_append, List.length_singleton]) restFree
      (List.forall_mem_nil _)

theorem handleOne_eq (routes : List (Route Handler)) {raw : CString} (notEmpty : raw ≠ [])
    (nulFree : NulFree raw) :
    handleOne routes raw =
      (lookupRoute routes (handleOneRequest routes raw).method (handleOneRequest routes raw).path).map
        fun found => (found.1, { handleOneRequest routes raw with params := found.2 }) := by
  simp only [handleOne, if_neg notEmpty, readScanned_scanHeaders routes nulFree]
  rfl

/-! ## Requests as they are sent -/

/-- A request: its fields have different names, in any case. -/
structure SentRequest where
  method : CString
  target : CString
  fields : List (CString × CString)
  body : CString
  isMethod : Token method
  isTarget : Plain target ∧ 32 ∉ target
  areHeaders : ∀ field ∈ fields, IsHeader field
  distinct : (fields.map fun field => field.1.map lower).Nodup
  nulFree : NulFree body

namespace SentRequest

def bytes (sent : SentRequest) : CString :=
  requestBytes sent.method sent.target sent.fields sent.body

def path (sent : SentRequest) : CString :=
  sent.target.takeWhile (· != 63)

def queryString (sent : SentRequest) : CString :=
  (sent.target.dropWhile (· != 63)).tail

/-- A canonicalised name, and a value without the blanks around it. -/
def entry (field : CString × CString) : CString × CString :=
  (normalizeHeaderKey true field.1, trim field.2)

/-- The request for a handler. -/
def request (sent : SentRequest) (params : StringMap) : HttpRequest where
  method := sent.method
  path := sent.path
  body := sent.body
  headers := StringMap.new.setAll (sent.fields.map entry)
  queryString := sent.queryString
  params := params

/-- The handler of the route for a request, and what it is to be passed. -/
def routed (sent : SentRequest) (routes : List (Route Handler)) : Option (Handler × HttpRequest) :=
  (lookupRoute routes sent.method sent.path).map fun found => (found.1, sent.request found.2)

/-- With all routes a request is passed as it was sent, or with all it is refused. -/
def Understood (Handler : Type) (sent : SentRequest) : Prop :=
  (∀ routes : List (Route Handler), handleOne routes sent.bytes = sent.routed routes) ∨
    ∀ routes : List (Route Handler), handleOne routes sent.bytes = none

/-- There is room for the method and the target; a `?` that ends the target needs none. -/
def Fits (sent : SentRequest) : Prop :=
  sent.method.length ≤ 7 ∧
    (sent.target.length ≤ 255 ∨
      ∃ path, 63 ∉ path ∧ path.length = 255 ∧ sent.target = path ++ [63])

variable (sent : SentRequest)

theorem plain_method : Plain sent.method :=
  fun b member => isPlain_of_isTokenByte (sent.isMethod.2 b member)

theorem noSpace_method : 32 ∉ sent.method :=
  fun member => absurd (sent.isMethod.2 32 member) (by decide)

theorem nulFree_bytes : NulFree sent.bytes := by
  have plain : ∀ line ∈ (sent.method ++ [32] ++ sent.target ++ [32] ++ literal "HTTP/1.1") ::
      sent.fields.map lineOf, Plain line := by
    rw [List.forall_mem_cons, List.forall_mem_map]
    exact ⟨plain_requestLine sent.plain_method sent.isTarget.1,
      fun field member => (sent.areHeaders field member).plain_lineOf⟩
  intro member
  rcases List.mem_append.mp member with inHead | inBody
  · exact nulFree_headText plain inHead
  · exact sent.nulFree inBody

theorem bytes_ne_nil : sent.bytes ≠ [] := by
  rw [bytes, requestBytes, headText]
  exact List.append_ne_nil_of_left_ne_nil (List.append_ne_nil_of_right_ne_nil _ (List.cons_ne_nil 13 [10])) _

/-- What a request is passed as. -/
def passed (params : StringMap) : HttpRequest where
  method := sent.method.take 7
  path := (sent.target.take 255).takeWhile (· != 63)
  body := sent.body
  headers := StringMap.new.setAll (sent.fields.map borrowedEntry)
  queryString := ((sent.target.take 255).dropWhile (· != 63)).tail
  params := params

theorem handleOne_bytes (routes : List (Route Handler)) :
    handleOne routes sent.bytes =
      (lookupRoute routes (sent.method.take 7) ((sent.target.take 255).takeWhile (· != 63))).map
        fun found => (found.1, sent.passed found.2) := by
  rcases handleOneRequest_requestBytes routes ⟨sent.plain_method, sent.noSpace_method⟩ sent.isTarget
    sent.areHeaders sent.body with ⟨params, isRequest⟩
  rw [handleOne_eq routes sent.bytes_ne_nil sent.nulFree_bytes, bytes, isRequest]
  rfl

theorem take_target_iff (target : CString) (n : Nat) :
    ((target.take n).takeWhile (· != 63) = target.takeWhile (· != 63) ∧
        ((target.take n).dropWhile (· != 63)).tail = (target.dropWhile (· != 63)).tail) ↔
      target.length ≤ n ∨ ∃ path, 63 ∉ path ∧ path.length = n ∧ target = path ++ [63] := by
  constructor
  · rintro ⟨isPath, isQuery⟩
    rw [or_iff_not_imp_left]
    intro tooLong
    have cutLength := List.length_take_of_le (Nat.le_of_not_le tooLong)
    have isSplit := List.take_append_drop n target
    have notNil : target.drop n ≠ [] := by
      rw [Ne, List.drop_eq_nil_iff]
      exact tooLong
    generalize target.take n = cut at isPath isQuery cutLength isSplit
    generalize target.drop n = rest at isSplit notNil
    subst isSplit
    by_cases isMark : 63 ∈ cut
    · rcases List.eq_append_cons_of_mem isMark with ⟨path, query, rfl, noMark⟩
      rw [(Lines.split_first noMark query).2, List.append_assoc, List.cons_append,
        (Lines.split_first noMark _).2, List.tail_cons, List.tail_cons] at isQuery
      exact absurd (List.self_eq_append_right.mp isQuery) notNil
    · have inPath := Lines.bne_of_notMem isMark
      rw [List.takeWhile_append_of_pos inPath, List.takeWhile_eq_self_iff.mpr inPath] at isPath
      rw [List.dropWhile_append_of_pos inPath, List.dropWhile_eq_nil_iff.mpr inPath] at isQuery
      rcases List.exists_cons_of_ne_nil notNil with ⟨b, others, rfl⟩
      have isNone := List.self_eq_append_right.mp isPath
      rw [List.takeWhile_cons] at isNone
      split at isNone
      next => contradiction
      next notOther =>
        rw [List.dropWhile_cons, if_neg notOther] at isQuery
        refine ⟨cut, isMark, cutLength, ?_⟩
        have isLast : others = [] := isQuery.symm
        rw [isLast, of_not_not fun notMark => notOther (bne_iff_ne.mpr notMark)]
  · rintro (fits | ⟨path, noMark, rfl, rfl⟩)
    · rw [List.take_of_length_le fits]
      exact ⟨rfl, rfl⟩
    · rcases Lines.split_first noMark [] with ⟨isPath, isQuery⟩
      have inPath := Lines.bne_of_notMem noMark
      rw [List.take_left, isPath, isQuery, List.takeWhile_eq_self_iff.mpr inPath,
        List.dropWhile_eq_nil_iff.mpr inPath]
      exact ⟨rfl, rfl⟩

theorem nodup_normalized : (sent.fields.map fun field => normalizeHeaderKey true field.1).Nodup := by
  have distinct := sent.distinct
  apply List.Nodup.of_map (List.map lower)
  rw [List.map_map]
  simpa only [Function.comp_def, Request.lower_normalizeHeaderKey] using distinct

theorem borrowed_eq_iff :
    StringMap.new.setAll (sent.fields.map borrowedEntry) = StringMap.new.setAll (sent.fields.map entry) ↔
      ∀ field ∈ sent.fields, NoTabAround field.2 := by
  constructor
  · intro same field member
    have borrowedOnce : ((sent.fields.map borrowedEntry).map Prod.fst).Nodup := by
      rw [List.map_map]
      exact sent.nodup_normalized
    have once : ((sent.fields.map entry).map Prod.fst).Nodup := by
      rw [List.map_map]
      exact sent.nodup_normalized
    have isBorrowed : StringMap.new.setAll (sent.fields.map borrowedEntry) (borrowedEntry field).1 =
        some (borrowedEntry field).2 :=
      setAll_of_mem borrowedOnce (List.mem_map_of_mem member)
    have isEntry : StringMap.new.setAll (sent.fields.map entry) (entry field).1 = some (entry field).2 :=
      setAll_of_mem once (List.mem_map_of_mem member)
    rw [same] at isBorrowed
    exact (stripSpaces_eq_trim_iff field.2).mp (Option.some.inj (isBorrowed.symm.trans isEntry))
  · intro noTab
    have sameEntries : sent.fields.map borrowedEntry = sent.fields.map entry := by
      apply List.map_congr_left
      intro field member
      rw [borrowedEntry, entry, (stripSpaces_eq_trim_iff field.2).mpr (noTab field member)]
    rw [sameEntries]

theorem passed_eq_iff (params : StringMap) :
    sent.passed params = sent.request params ↔ sent.Fits ∧ ∀ field ∈ sent.fields, NoTabAround field.2 := by
  rw [← sent.borrowed_eq_iff, Fits, ← take_target_iff, passed, request, HttpRequest.mk.injEq,
    path, queryString, List.take_eq_self_iff]
  simp only [and_true, true_and]
  tauto

end SentRequest

theorem fitsInPlace_self (parts : List CString) : FitsInPlace parts parts := by
  induction parts with
  | nil => exact List.forall_mem_nil _
  | cons part parts ih =>
      refine ⟨?_, ih⟩
      rw [Stands]
      split
      next isParam =>
        refine ⟨List.takeWhile_prefix _, fun _ isLiteral => ?_⟩
        have notColon := List.takeWhile_eq_self_iff.mp isLiteral colon isParam
        contradiction
      next => rfl

theorem lookupRoute_self (method path : CString) (handler : Handler) :
    ∃ params, lookupRoute [⟨method, path, handler⟩] method path = some (handler, params) := by
  have isMatch := (routeMatches_spec path path StringMap.new).1.mpr (fitsInPlace_self _)
  refine ⟨(routeMatches path path StringMap.new).2, ?_⟩
  rw [lookupRoute, if_pos rfl]
  exact if_pos isMatch

namespace SentRequest

variable {sent : SentRequest}

theorem fits_of_understood [Inhabited Handler] (understood : sent.Understood Handler) :
    sent.Fits ∧ ∀ field ∈ sent.fields, NoTabAround field.2 := by
  rcases lookupRoute_self (sent.method.take 7) ((sent.target.take 255).takeWhile (· != 63))
    (default : Handler) with ⟨params, isRoute⟩
  have isPassed := sent.handleOne_bytes
    [(⟨sent.method.take 7, (sent.target.take 255).takeWhile (· != 63), default⟩ : Route Handler)]
  rw [isRoute, Option.map_some] at isPassed
  rcases understood with same | refused
  · rw [same, routed, Option.map_eq_some_iff] at isPassed
    rcases isPassed with ⟨found, -, isRequest⟩
    have sameRequest := congrArg Prod.snd isRequest
    have sameParams : found.2 = params := congrArg HttpRequest.params sameRequest
    rw [sameParams] at sameRequest
    exact (sent.passed_eq_iff params).mp sameRequest.symm
  · rw [refused] at isPassed
    contradiction

/-- A request for a long path. -/
def longPath : SentRequest where
  method := literal "GET"
  target := 47 :: List.replicate 299 97
  fields := [(literal "Host", literal " example.org")]
  body := []
  isMethod := by decide
  isTarget := by
    refine ⟨?_, by decide⟩
    intro b member
    rcases List.mem_cons.mp member with rfl | member
    · decide
    · rw [List.eq_of_mem_replicate member]
      decide
  areHeaders := by
    rw [List.forall_mem_singleton, IsHeader]
    decide
  distinct := by decide
  nulFree := nulFree_nil

end SentRequest

end Tinox.Net.Http1

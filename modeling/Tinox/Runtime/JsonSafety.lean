import Tinox.Runtime.JsonCursor
import Tinox.Runtime.JsonReads

/-!
# Safety of the JSON reader

With enough fuel the reader of a text in memory ends without a fault, and gives what the reader of
lists gives.  Every value takes at least the byte it starts with, which is what its loops go on by.
-/

namespace Tinox.Runtime.JsonCursor

open Accesses Probing

/-! ## Tables -/

section Tables

variable {ν : Type} {slots : List (Slot CString ν)} {m m' : TinoxMap CString ν}

theorem entryAt_of_lt {idx : Nat} (inside : idx < slots.length) :
    entryAt slots idx = .ok (slotAt slots idx) := by
  rw [entryAt, slotAt_eq inside, List.getElem?_eq_getElem inside]

theorem setEntry_of_lt {idx : Nat} (inside : idx < slots.length) (slot : Slot CString ν) :
    setEntry slots idx slot = .ok (slots.set idx slot) := by
  rw [setEntry, checkWrite_of_lt inside, ok_bind]
  rfl

theorem ringNext_lt {size : Nat} (isPower : ∃ k, size = 2 ^ k) (idx : Nat) :
    ringNext size idx < size := by
  rw [ringNext, and_mask isPower]
  exact Nat.mod_lt _ (size_pos isPower)

theorem probeEntries_of_probe (isPower : ∃ k, slots.length = 2 ^ k) {stop : Slot CString ν → Bool}
    {steps start idx : Nat} (inside : start < slots.length)
    (found : probe (fun i => stop (slotAt slots i)) (ringNext slots.length) steps start = some idx) :
    probeEntries stop slots steps start = .ok idx ∧ idx < slots.length := by
  induction steps generalizing start with
  | zero => contradiction
  | succ steps ih =>
      rw [probe] at found
      rw [probeEntries, entryAt_of_lt inside, ok_bind]
      by_cases stops : stop (slotAt slots start) = true
      · rw [if_pos stops] at found ⊢
        cases found
        exact ⟨rfl, inside⟩
      · rw [if_neg stops] at found ⊢
        exact ih (ringNext_lt isPower start) found

theorem placeAll_of_some {steps : Nat} {old ne : List (Slot CString ν)}
    (isPower : ∃ k, slots.length = 2 ^ k)
    (placed : Runtime.placeAll stringHash steps old slots = some ne) :
    placeAll steps old slots = .ok ne ∧ ne.length = slots.length := by
  induction old generalizing slots with
  | nil =>
      cases placed
      exact ⟨rfl, rfl⟩
  | cons slot old ih =>
      cases slot with
      | empty | deleted => exact ih isPower placed
      | live key value =>
          rcases placeAll_live placed with ⟨middle, stored, placed⟩
          rcases place_cases stored with ⟨idx, found, rfl⟩
          rcases probeEntries_of_probe isPower (mapHash_lt isPower key) found with ⟨ends, inside⟩
          rw [placeAll, ends, ok_bind, setEntry_of_lt inside, ok_bind]
          rw [← List.length_set (a := Slot.live key value)] at isPower
          rcases ih isPower placed with ⟨ends, length⟩
          exact ⟨ends, length.trans List.length_set⟩

theorem storeKey_of_some {steps : Nat} {key : CString} {value : ν} (isPower : ∃ k, m.cap = 2 ^ k)
    (done : Runtime.storeKey stringHash steps m key value = some m') :
    storeKey steps m key value = .ok m' := by
  rcases storeKey_cases done with ⟨idx, found, rfl⟩
  rcases probeEntries_of_probe isPower (mapHash_lt isPower key) found with ⟨ends, inside⟩
  rw [storeKey, ends, ok_bind, entryAt_of_lt inside, ok_bind, setEntry_of_lt inside]
  rfl

theorem jsonObjMapSet_of_some {key : CString} {value : ν} (isPower : ∃ k, m.cap = 2 ^ k)
    (done : tinoxMapSet stringHash (m.cap * 2) m key value = some m') :
    jsonObjMapSet m key value = .ok m' := by
  rw [jsonObjMapSet]
  rcases tinoxMapSet_cases done with ⟨middle, loaded, rehashed, done⟩ | ⟨notLoaded, done⟩
  · rcases mapRehash_cases rehashed with ⟨ne, placed, rfl⟩
    have larger := isPower_doubled isPower
    rcases placeAll_of_some larger placed with ⟨ends, length⟩
    rw [if_pos loaded, ends]
    exact storeKey_of_some (m := ⟨ne, m.len⟩) (by rw [TinoxMap.cap, length]; exact larger) done
  · rw [if_neg notLoaded]
    exact storeKey_of_some isPower done

end Tables

section Text

variable {text rest : CString} {p : Nat}

theorem headD_eq_zero (nulFree : 0 ∉ rest) : rest.headD 0 = 0 ↔ rest = [] := by
  cases rest with
  | nil => exact iff_of_true rfl rfl
  | cons b rest =>
      refine iff_of_false (fun isNul => nulFree ?_) (List.cons_ne_nil b rest)
      rw [← show b = 0 from isNul]
      exact List.mem_cons_self

theorem headD_eq_iff (rest : CString) {c : Char} (notNul : c.toUInt8 ≠ 0) :
    rest.headD 0 = c.toUInt8 ↔ isAt c rest = true := by
  cases rest with
  | nil => exact iff_of_false (fun isNul => notNul isNul.symm) Bool.false_ne_true
  | cons b rest =>
      rw [isAt_cons, decide_eq_true_eq]
      exact Iff.rfl

theorem headD_eq_or (rest : CString) {c d : Char} (notNul : c.toUInt8 ≠ 0) (notNul' : d.toUInt8 ≠ 0) :
    rest.headD 0 = c.toUInt8 ∨ rest.headD 0 = d.toUInt8 ↔ (isAt c rest || isAt d rest) = true := by
  rw [headD_eq_iff rest notNul, headD_eq_iff rest notNul', Bool.or_eq_true]

theorem jsonSkipWs_spec (at_ : At text p rest) :
    ∃ p', jsonSkipWs text p = .ok p' ∧ At text p' (Runtime.jsonSkipWs rest) :=
  skipWhile_spec rfl at_ (Nat.lt_succ_of_le at_.le_length)

theorem skipDigits_spec (at_ : At text p rest) :
    ∃ p', skipDigits text p = .ok p' ∧ At text p' (Runtime.skipDigits rest) :=
  skipWhile_spec rfl at_ (Nat.lt_succ_of_le at_.le_length)

theorem skipByte_spec {c : Char} (notNul : c.toUInt8 ≠ 0) (at_ : At text p rest) :
    ∃ p', skipByte text c p = .ok p' ∧ At text p' (Runtime.skipByte c rest) := by
  rw [skipByte, at_.fetch, ok_bind, Runtime.skipByte]
  by_cases found : isAt c rest = true
  · rw [if_pos ((headD_eq_iff rest notNul).mpr found), if_pos found]
    cases rest with
    | nil => contradiction
    | cons b rest => exact ⟨p + 1, rfl, at_.next⟩
  · rw [if_neg fun same => found ((headD_eq_iff rest notNul).mp same), if_neg found]
    exact ⟨p, rfl, at_⟩

theorem readDigits_spec (val : Int64) {steps : Nat} (at_ : At text p rest)
    (enough : rest.length < steps) :
    ∃ p', readDigits text steps val p = .ok ((Runtime.readDigits val rest).1, p') ∧
      At text p' (Runtime.readDigits val rest).2 := by
  induction steps generalizing p rest val with
  | zero => contradiction
  | succ steps ih =>
      rw [readDigits, at_.fetch, ok_bind]
      cases rest with
      | nil => exact ⟨p, rfl, at_⟩
      | cons b rest =>
          rw [List.headD_cons, Runtime.readDigits]
          cases digit : isDigit b with
          | false => exact ⟨p, rfl, at_⟩
          | true => exact ih _ at_.next (Nat.lt_of_succ_lt_succ enough)

theorem startsWith_spec (nulFree : 0 ∉ rest) {literal : CString} (notNul : 0 ∉ literal)
    (at_ : At text p rest) : startsWith text literal p = .ok (decide (literal <+: rest)) := by
  induction literal generalizing p rest with
  | nil =>
      rw [decide_eq_true List.nil_prefix]
      rfl
  | cons c literal ih =>
      rw [startsWith, at_.fetch, ok_bind]
      rw [List.mem_cons, not_or] at notNul
      cases rest with
      | nil =>
          rw [List.headD_nil, if_neg notNul.1, decide_eq_false (by simp)]
          rfl
      | cons b rest =>
          rw [List.mem_cons, not_or] at nulFree
          rw [List.headD_cons]
          by_cases same : b = c
          · rw [if_pos same, ih nulFree.2 notNul.2 at_.next]
            simp [same]
          · rw [if_neg same, decide_eq_false (by simp [Ne.symm same])]
            rfl

/-! ## Strings -/

/-- The first pass over a string finds how many bytes the second one copies. -/
theorem scanString_spec (nulFree : 0 ∉ rest) (maxLen : Nat) {steps : Nat} (at_ : At text p rest)
    (enough : rest.length < steps) :
    scanString text steps p maxLen = .ok (maxLen + (Runtime.copyString rest).1.length) := by
  induction steps generalizing p rest maxLen with
  | zero => contradiction
  | succ steps ih =>
      rw [scanString, at_.fetch, ok_bind]
      cases rest with
      | nil => exact if_pos (Or.inl rfl)
      | cons b rest =>
          rw [List.mem_cons, not_or] at nulFree
          rw [List.headD_cons]
          have fewer : rest.length < steps := Nat.lt_of_succ_lt_succ enough
          by_cases quote : b = '"'.toUInt8
          · rw [if_pos (Or.inr quote), quote, copyString_quote]
            rfl
          · rw [if_neg (not_or.mpr ⟨Ne.symm nulFree.1, quote⟩)]
            by_cases escape : b = '\\'.toUInt8
            · rw [if_pos escape, at_.next.fetch, ok_bind, escape]
              cases rest with
              | nil => exact if_pos rfl
              | cons esc rest =>
                  rw [List.mem_cons, not_or] at nulFree
                  rw [List.headD_cons, if_neg (Ne.symm nulFree.2.1),
                    ih nulFree.2.2 _ at_.next.next (Nat.lt_of_succ_lt fewer), copyString_escape,
                    Nat.add_assoc, Nat.add_comm 1]
                  rfl
            · rw [if_neg escape, ih nulFree.2 _ at_.next fewer, copyString_cons ⟨quote, escape⟩,
                Nat.add_assoc, Nat.add_comm 1]
              rfl

theorem fits_concat {buf others : CString} {b : UInt8} {size : Nat}
    (fits : buf.length + (b :: others).length ≤ size) :
    buf.length < size ∧ (buf ++ [b]).length + others.length ≤ size := by
  rw [List.length_cons] at fits
  rw [List.length_append, List.length_singleton]
  omega

/-- The second pass stays inside a buffer with a place for what it copies. -/
theorem copyString_spec (nulFree : 0 ∉ rest) (size : Nat) (buf : CString) {steps : Nat}
    (at_ : At text p rest) (enough : rest.length < steps)
    (fits : buf.length + (Runtime.copyString rest).1.length ≤ size) :
    ∃ p' rest', copyString text size steps buf p = .ok (buf ++ (Runtime.copyString rest).1, p') ∧
      At text p' rest' ∧ Runtime.skipByte '"' rest' = (Runtime.copyString rest).2 := by
  induction steps generalizing p rest buf with
  | zero => contradiction
  | succ steps ih =>
      rw [copyString, at_.fetch, ok_bind]
      cases rest with
      | nil =>
          refine ⟨p, [], ?_, at_, rfl⟩
          rw [List.headD_nil, if_pos (Or.inl rfl), Runtime.copyString, List.append_nil]
          rfl
      | cons b rest =>
          rw [List.mem_cons, not_or] at nulFree
          rw [List.headD_cons]
          have fewer : rest.length < steps := Nat.lt_of_succ_lt_succ enough
          by_cases quote : b = '"'.toUInt8
          · rw [if_pos (Or.inr quote), quote, copyString_quote, List.append_nil]
            exact ⟨p, _, rfl, quote ▸ at_, skipByte_at '"' rest⟩
          · rw [if_neg (not_or.mpr ⟨Ne.symm nulFree.1, quote⟩)]
            by_cases escape : b = '\\'.toUInt8
            · rw [if_pos escape, at_.next.fetch, ok_bind, escape]
              cases rest with
              | nil =>
                  refine ⟨p + 1, [], ?_, at_.next, rfl⟩
                  rw [List.headD_nil, if_pos rfl, show Runtime.copyString ['\\'.toUInt8] = ([], [])
                    from rfl, List.append_nil]
                  rfl
              | cons esc rest =>
                  rw [List.mem_cons, not_or] at nulFree
                  rw [escape, copyString_escape] at fits
                  rcases fits_concat fits with ⟨inside, more⟩
                  rcases ih nulFree.2.2 _ at_.next.next (Nat.lt_of_succ_lt fewer) more with
                    ⟨p', rest', ends, there, closes⟩
                  refine ⟨p', rest', ?_, there, ?_⟩
                  · rw [List.headD_cons, if_neg (Ne.symm nulFree.2.1), checkWrite_of_lt inside,
                      ok_bind, ends, copyString_escape, List.append_assoc]
                    rfl
                  · rw [closes, copyString_escape]
                    rfl
            · rw [if_neg escape]
              have clean : Clean b := ⟨quote, escape⟩
              rw [copyString_cons clean] at fits
              rcases fits_concat fits with ⟨inside, more⟩
              rcases ih nulFree.2 _ at_.next fewer more with ⟨p', rest', ends, there, closes⟩
              refine ⟨p', rest', ?_, there, ?_⟩
              · rw [checkWrite_of_lt inside, ok_bind, ends, copyString_cons clean,
                  List.append_assoc]
                rfl
              · rw [closes, copyString_cons clean]
                rfl

theorem jsonParseStringRaw_spec (nulFree : 0 ∉ text) {b : UInt8} (at_ : At text p (b :: rest)) :
    ∃ p', jsonParseStringRaw text p = .ok ((Runtime.copyString rest).1, p') ∧
      At text p' (Runtime.copyString rest).2 := by
  have free : 0 ∉ rest := at_.next.notMem nulFree
  have enough := Nat.lt_succ_of_le at_.next.le_length
  rcases copyString_spec free ((Runtime.copyString rest).1.length + 1) []
      at_.next enough (by rw [List.length_nil, Nat.zero_add]; exact Nat.le_succ _) with
    ⟨p', rest', copies, there, closes⟩
  rcases skipByte_spec (c := '"') (by decide) there with ⟨last, skips, ends⟩
  refine ⟨last, ?_, closes ▸ ends⟩
  rw [jsonParseStringRaw, scanString_spec free 0 at_.next enough, ok_bind, Nat.zero_add, copies,
    ok_bind]
  dsimp only
  rw [skips, ok_bind, List.nil_append, checkWrite_of_lt (Nat.lt_succ_self _), ok_bind]
  rfl

/-! ## Numbers and literals -/

theorem length_skipDigits_le (rest : CString) : (Runtime.skipDigits rest).length ≤ rest.length :=
  (List.dropWhile_sublist _).length_le

theorem length_skipFraction_le (rest : CString) :
    (Runtime.skipFraction rest).length ≤ rest.length := by
  rw [Runtime.skipFraction]
  split
  · exact Nat.le_trans (length_skipDigits_le _) (List.tail_sublist rest).length_le
  · exact Nat.le_refl _

theorem length_skipExponent_le (rest : CString) :
    (Runtime.skipExponent rest).length ≤ rest.length := by
  rw [Runtime.skipExponent]
  split
  · refine Nat.le_trans (length_skipDigits_le _) ?_
    split
    · exact ((List.tail_sublist _).trans (List.tail_sublist rest)).length_le
    · exact (List.tail_sublist rest).length_le
  · exact Nat.le_refl _

theorem length_skipFraction_lt_iff (rest : CString) :
    (Runtime.skipFraction rest).length < rest.length ↔ isAt '.' rest = true := by
  rw [Runtime.skipFraction]
  cases rest with
  | nil => exact iff_of_false (Nat.lt_irrefl 0) Bool.false_ne_true
  | cons b rest =>
      split
      next found => exact iff_of_true (Nat.lt_succ_of_le (length_skipDigits_le rest)) found
      next other => exact iff_of_false (Nat.lt_irrefl _) other

theorem length_skipExponent_lt_iff (rest : CString) :
    (Runtime.skipExponent rest).length < rest.length ↔ (isAt 'e' rest || isAt 'E' rest) = true := by
  rw [Runtime.skipExponent]
  cases rest with
  | nil => exact iff_of_false (Nat.lt_irrefl 0) Bool.false_ne_true
  | cons b rest =>
      split
      next found =>
        refine iff_of_true (Nat.lt_succ_of_le (Nat.le_trans (length_skipDigits_le _) ?_)) found
        split
        · exact (List.tail_sublist rest).length_le
        · exact Nat.le_refl _
      next other => exact iff_of_false (Nat.lt_irrefl _) other

theorem skipFraction_spec (at_ : At text p rest) :
    ∃ p', skipFraction text p = .ok (isAt '.' rest, p') ∧ At text p' (Runtime.skipFraction rest) := by
  rw [skipFraction, at_.fetch, ok_bind, Runtime.skipFraction]
  by_cases found : isAt '.' rest = true
  · rw [if_pos ((headD_eq_iff _ (by decide)).mpr found), if_pos found, found]
    cases rest with
    | nil => contradiction
    | cons b rest =>
        rcases skipDigits_spec at_.next with ⟨p', skips, there⟩
        refine ⟨p', ?_, there⟩
        rw [skips]
        rfl
  · rw [if_neg fun same => found ((headD_eq_iff _ (by decide)).mp same), if_neg found,
      eq_false_of_ne_true found]
    exact ⟨p, rfl, at_⟩

theorem skipExponent_spec (at_ : At text p rest) :
    ∃ p', skipExponent text p = .ok (isAt 'e' rest || isAt 'E' rest, p') ∧
      At text p' (Runtime.skipExponent rest) := by
  rw [skipExponent, at_.fetch, ok_bind, Runtime.skipExponent]
  have isExponent := headD_eq_or rest (show 'e'.toUInt8 ≠ 0 by decide)
    (show 'E'.toUInt8 ≠ 0 by decide)
  by_cases found : (isAt 'e' rest || isAt 'E' rest) = true
  · rw [if_pos (isExponent.mpr found), if_pos found, found]
    cases rest with
    | nil => contradiction
    | cons b rest =>
        have isSign := headD_eq_or rest (show '+'.toUInt8 ≠ 0 by decide)
          (show '-'.toUInt8 ≠ 0 by decide)
        rw [at_.next.fetch, ok_bind, List.tail_cons]
        by_cases signed : (isAt '+' rest || isAt '-' rest) = true
        · rw [if_pos signed]
          cases rest with
          | nil => contradiction
          | cons sign rest =>
              rcases skipDigits_spec at_.next.next with ⟨p', skips, ends⟩
              refine ⟨p', ?_, ends⟩
              rw [if_pos (isSign.mpr signed)]
              dsimp only
              rw [skips]
              rfl
        · rw [if_neg signed]
          rcases skipDigits_spec at_.next with ⟨p', skips, ends⟩
          refine ⟨p', ?_, ends⟩
          rw [if_neg (mt isSign.mp signed)]
          dsimp only
          rw [skips]
          rfl
  · rw [if_neg (mt isExponent.mp found), if_neg found, eq_false_of_ne_true found]
    exact ⟨p, rfl, at_⟩

theorem readInteger_fst (rest : CString) :
    (if rest.headD 0 = '-'.toUInt8 then -(Runtime.readDigits 0 (Runtime.skipByte '-' rest)).1
      else (Runtime.readDigits 0 (Runtime.skipByte '-' rest)).1) = (Runtime.readInteger rest).1 := by
  have isMinus := headD_eq_iff rest (show '-'.toUInt8 ≠ 0 by decide)
  rw [Runtime.readInteger]
  by_cases minus : isAt '-' rest = true
  · rw [if_pos (isMinus.mpr minus), if_pos minus]
  · rw [if_neg (mt isMinus.mp minus), if_neg minus]

theorem readInteger_spec (at_ : At text p rest) :
    ∃ p', readInteger text p = .ok ((Runtime.readInteger rest).1, p') ∧
      At text p' (Runtime.readInteger rest).2 := by
  rcases skipByte_spec (c := '-') (by decide) at_ with ⟨first, skips, there⟩
  rcases readDigits_spec 0 there (Nat.lt_succ_of_le there.le_length) with
    ⟨last, reads, ends⟩
  refine ⟨last, ?_, ends⟩
  rw [skipByte, at_.fetch, ok_bind] at skips
  have moved : (if rest.headD 0 = '-'.toUInt8 then p + 1 else p) = first := Except.ok.inj skips
  rw [readInteger, at_.fetch, ok_bind]
  dsimp only
  rw [moved, reads, ok_bind]
  dsimp only
  rw [readInteger_fst]
  rfl

variable {atof : CString → UInt64}

theorem length_skipByte_le (c : Char) (rest : CString) :
    (Runtime.skipByte c rest).length ≤ rest.length := by
  rw [Runtime.skipByte]
  split
  · exact (List.tail_sublist rest).length_le
  · exact Nat.le_refl _

theorem length_number_iff (digits : CString) :
    (Runtime.skipExponent (Runtime.skipFraction digits)).length = digits.length ↔
      ¬ (isAt '.' digits ||
        (isAt 'e' (Runtime.skipFraction digits) || isAt 'E' (Runtime.skipFraction digits))) = true := by
  have fraction := length_skipFraction_lt_iff digits
  have exponent := length_skipExponent_lt_iff (Runtime.skipFraction digits)
  have shorter := length_skipFraction_le digits
  have shortest := length_skipExponent_le (Runtime.skipFraction digits)
  rw [Bool.or_eq_true, ← fraction, ← exponent]
  omega

theorem jsonParseNumber_spec {b : UInt8} (at_ : At text p (b :: rest)) :
    ∃ value p' rest', jsonParseNumber text atof p = .ok (value, p') ∧ At text p' rest' ∧
      Runtime.jsonParseNumber atof (b :: rest) = (value, rest') ∧ rest'.length ≤ rest.length := by
  rcases skipByte_spec (c := '-') (by decide) at_ with ⟨p1, signs, at1⟩
  rcases skipDigits_spec at1 with ⟨p2, digits, at2⟩
  rcases skipFraction_spec at2 with ⟨p3, fraction, at3⟩
  rcases skipExponent_spec at3 with ⟨p4, exponent, at4⟩
  rcases readInteger_spec at_ with ⟨p5, integer, -⟩
  have whole := length_number_iff (Runtime.skipDigits (Runtime.skipByte '-' (b :: rest)))
  have shorter := Nat.le_trans (length_skipExponent_le _) (Nat.le_trans (length_skipFraction_le _)
    (Nat.le_trans (length_skipDigits_le _) (length_skipByte_le '-' (b :: rest))))
  rw [jsonParseNumber, Runtime.jsonParseNumber, signs, ok_bind, digits, ok_bind, fraction, ok_bind]
  dsimp only
  rw [exponent, ok_bind]
  dsimp only
  generalize Runtime.skipDigits (Runtime.skipByte '-' (b :: rest)) = afterDigits at *
  generalize Runtime.skipExponent (Runtime.skipFraction afterDigits) = last at *
  have before := at_.length_eq
  have behind := at4.length_eq
  by_cases stays : last.length = (b :: rest).length
  · have same : p4 = p := by omega
    have isLast : last = b :: rest := by rw [← at4.drop_eq, ← at_.drop_eq, same]
    rw [if_pos same, if_pos stays]
    refine ⟨.null, p4 + 1, rest, rfl, ?_, by rw [isLast, List.tail_cons], Nat.le_refl _⟩
    rw [same]
    exact at_.next
  · have other : p4 ≠ p := by omega
    have fewer : last.length ≤ rest.length :=
      Nat.le_of_lt_succ (Nat.lt_of_le_of_ne shorter stays)
    rw [if_neg other, if_neg stays]
    by_cases isInteger : last.length = afterDigits.length
    · rw [if_neg (whole.mp isInteger), if_pos isInteger, integer]
      exact ⟨_, p4, last, rfl, at4, rfl, fewer⟩
    · rw [if_pos (not_not.mp (mt whole.mpr isInteger)), if_neg isInteger, at_.drop_eq]
      exact ⟨_, p4, last, rfl, at4, rfl, fewer⟩

theorem jsonParseScalar_spec (atof : CString → UInt64) {b : UInt8} (nulFree : 0 ∉ text) (at_ : At text p (b :: rest)) :
    ∃ value p' rest', jsonParseScalar text atof p = .ok (value, p') ∧ At text p' rest' ∧
      Runtime.jsonParseScalar atof (b :: rest) = (value, rest') ∧ rest'.length ≤ rest.length := by
  have literal : ∀ {bytes : CString} {value : JsonValue}, 0 < bytes.length →
      bytes <+: b :: rest → ∃ value' p' rest',
        (pure (value, p + bytes.length) : Outcome (JsonValue × Nat)) = .ok (value', p') ∧
          At text p' rest' ∧ (value, (b :: rest).drop bytes.length) = (value', rest') ∧
            rest'.length ≤ rest.length := by
    intro bytes value positive isPrefix
    refine ⟨value, _, _, rfl, at_.drop isPrefix.length_le, rfl, ?_⟩
    rw [List.length_drop, List.length_cons]
    omega
  have starts := fun {bytes : CString} (notNul : 0 ∉ bytes) =>
    startsWith_spec (at_.notMem nulFree) notNul at_
  rw [jsonParseScalar, Runtime.jsonParseScalar, starts (by decide), ok_bind]
  by_cases isTrue : "true".toList.map Char.toUInt8 <+: b :: rest
  · rw [if_pos (decide_eq_true isTrue), if_pos isTrue]
    exact literal (by decide) isTrue
  · rw [if_neg (by rw [decide_eq_false isTrue]; exact Bool.false_ne_true), if_neg isTrue, starts (by decide), ok_bind]
    by_cases isFalse : "false".toList.map Char.toUInt8 <+: b :: rest
    · rw [if_pos (decide_eq_true isFalse), if_pos isFalse]
      exact literal (by decide) isFalse
    · rw [if_neg (by rw [decide_eq_false isFalse]; exact Bool.false_ne_true), if_neg isFalse,
        starts (by decide), ok_bind]
      by_cases isNull : "null".toList.map Char.toUInt8 <+: b :: rest
      · rw [if_pos (decide_eq_true isNull), if_pos isNull]
        exact literal (by decide) isNull
      · rw [if_neg (by rw [decide_eq_false isNull]; exact Bool.false_ne_true), if_neg isNull]
        exact jsonParseNumber_spec at_

/-! ## Integers -/

/-- The values fit in the memory. -/
structure Integers.Fits (a : Integers) : Prop where
  inside : a.values.length ≤ a.cap
  positive : 0 < a.cap

theorem storeInteger_spec {a : Integers} (fits : a.Fits) (value : Int64) :
    ∃ a', storeInteger a value = .ok a' ∧ a'.values = a.values ++ [value] ∧ a'.Fits := by
  have inside := fits.inside
  have positive := fits.positive
  have write : ∀ b : Integers, b.values = a.values → a.values.length < b.cap →
      ∃ a', (do
          checkWrite b.cap b.values.length
          pure { b with values := b.values ++ [value] } : Outcome Integers) = .ok a' ∧
        a'.values = a.values ++ [value] ∧ a'.Fits := by
    intro b same room
    rw [same, checkWrite_of_lt room, ok_bind]
    refine ⟨_, rfl, rfl, ?_, Nat.zero_lt_of_lt room⟩
    rw [List.length_append, List.length_singleton]
    exact room
  rw [storeInteger]
  by_cases full : a.cap ≤ a.values.length
  · have grown : growIntegers a = .ok ⟨a.cap * 2, true, a.values⟩ := by
      rw [growIntegers, checkCopy_of_le (by omega), ok_bind]
      exact ite_self _
    rw [if_pos full, grown]
    exact write ⟨a.cap * 2, true, a.values⟩ rfl (show a.values.length < a.cap * 2 by omega)
  · rw [if_neg full]
    exact write a rfl (Nat.lt_of_not_le full)

theorem readDigits_snd (val : Int64) (rest : CString) :
    (Runtime.readDigits val rest).2 = Runtime.skipDigits rest := by
  induction rest generalizing val with
  | nil => rfl
  | cons b rest ih =>
      rw [Runtime.readDigits, Runtime.skipDigits, List.dropWhile_cons]
      split
      · exact ih _
      · rfl

theorem length_readInteger_lt
    (digit : (Runtime.skipByte '-' rest).head?.any isDigit = true) :
    (Runtime.readInteger rest).2.length < rest.length := by
  rw [Runtime.readInteger, readDigits_snd]
  refine Nat.lt_of_lt_of_le ?_ (length_skipByte_le '-' rest)
  cases signed : Runtime.skipByte '-' rest with
  | nil =>
      rw [signed] at digit
      contradiction
  | cons b tail =>
      rw [signed] at digit
      rw [Runtime.skipDigits, List.dropWhile_cons, if_pos (show isDigit b = true from digit)]
      exact Nat.lt_succ_of_le (length_skipDigits_le tail)

theorem any_head_isDigit (rest : CString) :
    rest.head?.any isDigit = isDigit (rest.headD 0) := by
  cases rest with
  | nil => rfl
  | cons b rest => rfl

theorem length_jsonSkipWs_le (rest : CString) : (Runtime.jsonSkipWs rest).length ≤ rest.length :=
  (List.dropWhile_sublist _).length_le

/-- What is left of a text behind an integer and the comma or bracket there. -/
def afterInteger (rest : CString) : CString :=
  Runtime.jsonSkipWs (Runtime.readInteger (Runtime.jsonSkipWs rest)).2

/-- An iteration of the loop over integers goes on exactly at an integer with a comma or the closing
bracket behind it. -/
theorem integerRound_spec {a : Integers} (fits : a.Fits) (at_ : At text p rest) :
    (∃ p', integerRound text a p = .ok (.left p') ∧
        ((Runtime.skipByte '-' (Runtime.jsonSkipWs rest)).head?.any isDigit = true →
          (isAt ',' (afterInteger rest) || isAt ']' (afterInteger rest)) = false)) ∨
      ∃ a' p', integerRound text a p = .ok (.again a' p') ∧
        (Runtime.skipByte '-' (Runtime.jsonSkipWs rest)).head?.any isDigit = true ∧
        (isAt ',' (afterInteger rest) || isAt ']' (afterInteger rest)) = true ∧
        a'.values = a.values ++ [(Runtime.readInteger (Runtime.jsonSkipWs rest)).1] ∧ a'.Fits ∧
        At text p' (Runtime.skipByte ',' (afterInteger rest)) := by
  rcases jsonSkipWs_spec at_ with ⟨p1, skips, at1⟩
  rcases skipByte_spec (c := '-') (by decide) at1 with ⟨p2, signs, at2⟩
  rcases readDigits_spec 0 at2 (Nat.lt_succ_of_le at2.le_length) with ⟨p3, reads, at3⟩
  rcases jsonSkipWs_spec at3 with ⟨p4, skips', at4⟩
  rcases skipByte_spec (c := ',') (by decide) at4 with ⟨p5, comma, at5⟩
  rw [skipByte, at1.fetch, ok_bind] at signs
  have moved : (if (Runtime.jsonSkipWs rest).headD 0 = '-'.toUInt8 then p1 + 1 else p1) = p2 :=
    Except.ok.inj signs
  rw [integerRound, skips, ok_bind, at1.fetch, ok_bind]
  dsimp only
  rw [moved, at2.fetch, ok_bind, any_head_isDigit]
  cases digit : isDigit ((Runtime.skipByte '-' (Runtime.jsonSkipWs rest)).headD 0) with
  | false => exact .inl ⟨p2, rfl, fun isTrue => absurd isTrue Bool.false_ne_true⟩
  | true =>
      rw [Bool.not_true, if_neg Bool.false_ne_true, reads, ok_bind]
      dsimp only
      rw [skips', ok_bind, at4.fetch, ok_bind]
      have separated := headD_eq_or (afterInteger rest) (show ','.toUInt8 ≠ 0 by decide)
        (show ']'.toUInt8 ≠ 0 by decide)
      by_cases goesOn : (isAt ',' (afterInteger rest) || isAt ']' (afterInteger rest)) = true
      · rcases storeInteger_spec fits (Runtime.readInteger (Runtime.jsonSkipWs rest)).1 with
          ⟨a', stores, values, fits'⟩
        have stays : ¬ ((afterInteger rest).headD 0 ≠ ','.toUInt8 ∧
            (afterInteger rest).headD 0 ≠ ']'.toUInt8) :=
          fun apart => not_or.mpr apart (separated.mpr goesOn)
        refine .inr ⟨a', p5, (if_neg stays).trans ?_, rfl, goesOn, values, fits', at5⟩
        rw [readInteger_fst, stores, ok_bind, comma]
        rfl
      · refine .inl ⟨p4, if_pos (not_or.mp (mt separated.mp goesOn)), fun _ => ?_⟩
        exact eq_false_of_ne_true goesOn

theorem length_afterInteger_lt
    (digit : (Runtime.skipByte '-' (Runtime.jsonSkipWs rest)).head?.any isDigit = true) :
    (Runtime.skipByte ',' (afterInteger rest)).length < rest.length :=
  Nat.lt_of_le_of_lt (length_skipByte_le _ _) (Nat.lt_of_le_of_lt (length_jsonSkipWs_le _)
    (Nat.lt_of_lt_of_le (length_readInteger_lt digit) (length_jsonSkipWs_le rest)))

/-- The loop over integers, which is left for good or reaches the closing bracket. -/
theorem jsonParseIntegers_spec (nulFree : 0 ∉ text) (fuel : Nat) {a : Integers} (fits : a.Fits)
    (at_ : At text p rest) (enough : rest.length < fuel) :
    (jsonParseIntegers text fuel a p = .ok none ∧
        Runtime.jsonParseIntegers fuel a.values rest = some none) ∨
      ∃ values p' rest', jsonParseIntegers text fuel a p = .ok (some (values, p')) ∧
        Runtime.jsonParseIntegers fuel a.values rest = some (some (values, rest')) ∧
        At text p' rest' ∧ rest'.length ≤ rest.length := by
  induction fuel generalizing a p rest with
  | zero => contradiction
  | succ fuel ih =>
      rw [jsonParseIntegers, Runtime.jsonParseIntegers, at_.fetch, ok_bind]
      cases rest with
      | nil => exact .inl ⟨rfl, rfl⟩
      | cons b rest =>
          have notNul : b ≠ 0 := fun isNul => at_.notMem nulFree (isNul ▸ List.mem_cons_self)
          rw [List.headD_cons, if_neg notNul, List.isEmpty_cons, if_neg Bool.false_ne_true, isAt_cons]
          by_cases closes : b = ']'.toUInt8
          · rw [if_pos closes, decide_eq_true closes, if_pos rfl,
              checkWrite_of_lt (Nat.succ_pos _), ok_bind, checkCopy_of_le (Nat.le_of_eq
                (Nat.add_comm _ _)), ok_bind]
            exact .inr ⟨a.values, p + 1, rest, rfl, rfl, at_.next, Nat.le_succ _⟩
          · rw [if_neg closes, decide_eq_false closes, if_neg Bool.false_ne_true]
            rcases integerRound_spec fits at_ with
              ⟨p', leaves, notInteger⟩ | ⟨a', p', goesOn, digit, separated, values, fits', there⟩
            · left
              rw [leaves]
              refine ⟨rfl, ?_⟩
              by_cases digit : (Runtime.skipByte '-' (Runtime.jsonSkipWs (b :: rest))).head?.any
                  isDigit = true
              · rw [digit, Bool.not_true, if_neg Bool.false_ne_true]
                exact if_neg (by rw [afterInteger] at notInteger; rw [notInteger digit]; exact Bool.false_ne_true)
              · rw [eq_false_of_ne_true digit, Bool.not_false, if_pos rfl]
            · rw [goesOn, ok_bind, digit, Bool.not_true, if_neg Bool.false_ne_true]
              dsimp only
              rw [afterInteger] at separated
              rw [if_pos separated, ← values]
              have fewer := length_afterInteger_lt digit
              have enough' := Nat.lt_of_lt_of_le fewer (Nat.le_of_lt_succ enough)
              rcases ih fits' there enough' with stopped | ⟨all, last, rest', ends, same, at', shorter⟩
              · exact .inl stopped
              · exact .inr ⟨all, last, rest', ends, same, at',
                  Nat.le_trans shorter (Nat.le_of_lt fewer)⟩

/-! ## Iterations -/

/-- A value is read at every cursor before the rest of a text, as the reader of lists reads it, and
takes a byte if there is one. -/
def Parses (text : CString) (atof : CString → UInt64) (fuel : Nat) (rest : CString) : Prop :=
  ∀ p, At text p rest → ∃ value p' rest', jsonParseValue text atof fuel p = .ok (value, p') ∧
    At text p' rest' ∧ Runtime.jsonParseValue atof fuel rest = some (value, rest') ∧
    rest'.length ≤ (Runtime.jsonSkipWs rest).length - 1

/-- The elements fit in the memory. -/
structure Elements.Fits (a : Elements) : Prop where
  inside : a.values.length ≤ a.cap
  positive : 0 < a.cap

theorem storeElement_spec {a : Elements} (fits : a.Fits) (elem : JsonValue) :
    ∃ a', storeElement a elem = .ok a' ∧ a'.values = a.values ++ [elem] ∧ a'.Fits := by
  have inside := fits.inside
  have positive := fits.positive
  have room : a.values.length < if a.cap ≤ a.values.length then a.cap * 2 else a.cap := by
    split
    · omega
    next notFull => exact Nat.lt_of_not_le notFull
  rw [storeElement, checkWrite_of_lt (Nat.succ_lt_succ room), ok_bind]
  refine ⟨_, rfl, rfl, ?_, Nat.zero_lt_of_lt room⟩
  rw [List.length_append, List.length_singleton]
  exact room

/-- What is left of a text behind an element of an array. -/
def afterElement (after : CString) : CString :=
  Runtime.jsonSkipWs (Runtime.skipByte ',' (Runtime.jsonSkipWs after))

theorem elementRound_spec {fuel : Nat} {a : Elements} (fits : a.Fits) (at_ : At text p rest)
    (notEmpty : rest ≠ []) (parses : Parses text atof fuel rest) :
    ∃ elem after a' p', elementRound text (jsonParseValue text atof fuel) a p = .ok (a', p') ∧
      Runtime.jsonParseValue atof fuel rest = some (elem, after) ∧ a'.values = a.values ++ [elem] ∧
      a'.Fits ∧ At text p' (afterElement after) ∧ (afterElement after).length < rest.length := by
  rcases parses p at_ with ⟨elem, p1, after, reads, at1, same, fewer⟩
  rcases storeElement_spec fits elem with ⟨a', stores, values, fits'⟩
  rcases jsonSkipWs_spec at1 with ⟨p2, skips, at2⟩
  rcases skipByte_spec (c := ',') (by decide) at2 with ⟨p3, comma, at3⟩
  rcases jsonSkipWs_spec at3 with ⟨p4, skips', at4⟩
  refine ⟨elem, after, a', p4, ?_, same, values, fits', at4, ?_⟩
  · rw [elementRound, reads, ok_bind]
    dsimp only
    rw [stores, ok_bind, skips, ok_bind, comma, ok_bind, skips']
    rfl
  · have behind : (afterElement after).length ≤ after.length :=
      Nat.le_trans (length_jsonSkipWs_le _)
        (Nat.le_trans (length_skipByte_le _ _) (length_jsonSkipWs_le _))
    have spaces := length_jsonSkipWs_le rest
    have positive := List.length_pos_of_ne_nil notEmpty
    omega

theorem length_copyString_le (rest : CString) :
    (Runtime.copyString rest).2.length ≤ rest.length := by
  fun_induction Runtime.copyString rest with
  | case1 => exact Nat.le_refl 0
  | case2 | case3 | case4 => exact Nat.zero_le _
  | case5 => exact Nat.le_succ _
  | case6 esc rest notQuote ih => exact Nat.le_trans ih (Nat.le_add_right _ 2)
  | case7 b esc rest notQuote notEscape ih => exact Nat.le_trans ih (Nat.le_succ _)

/-- What is left of a text behind a key and its colon. -/
def afterKey (rest : CString) : CString :=
  Runtime.skipByte ':' (Runtime.jsonSkipWs (Runtime.jsonParseStringRaw rest).2)

/-- An iteration over the members of an object is left where no key starts, and takes a byte
otherwise. -/
theorem memberRound_spec (nulFree : 0 ∉ text) {fuel : Nat} {m : TinoxMap CString JsonValue}
    {f : CString → Option JsonValue} (packed : Packed m f) (at_ : At text p rest)
    (parses : ∀ shorter : CString, shorter.length < rest.length → Parses text atof fuel shorter) :
    (∃ p', memberRound text (jsonParseValue text atof fuel) m p = .ok (.left p') ∧
        isAt '"' (Runtime.jsonSkipWs rest) = false ∧ At text p' (Runtime.jsonSkipWs rest)) ∨
      ∃ val after m' f' p',
        memberRound text (jsonParseValue text atof fuel) m p = .ok (.again m' p') ∧
        isAt '"' (Runtime.jsonSkipWs rest) = true ∧
        Runtime.jsonParseValue atof fuel (afterKey (Runtime.jsonSkipWs rest)) = some (val, after) ∧
        Runtime.jsonObjMapSet m (Runtime.jsonParseStringRaw (Runtime.jsonSkipWs rest)).1 val =
          some m' ∧
        Packed m' f' ∧ At text p' (Runtime.skipByte ',' (Runtime.jsonSkipWs after)) ∧
        (Runtime.skipByte ',' (Runtime.jsonSkipWs after)).length < rest.length := by
  rcases jsonSkipWs_spec at_ with ⟨p1, skips, at1⟩
  rw [memberRound, skips, ok_bind, at1.fetch, ok_bind]
  have isQuote := headD_eq_iff (Runtime.jsonSkipWs rest) (show '"'.toUInt8 ≠ 0 by decide)
  by_cases quote : isAt '"' (Runtime.jsonSkipWs rest) = true
  · right
    rw [if_neg (not_not.mpr (isQuote.mpr quote))]
    have spaces := length_jsonSkipWs_le rest
    generalize Runtime.jsonSkipWs rest = key at *
    cases key with
    | nil => contradiction
    | cons b tail =>
        rcases jsonParseStringRaw_spec nulFree at1 with ⟨p2, raw, at2⟩
        rcases jsonSkipWs_spec at2 with ⟨p3, skips3, at3⟩
        rcases skipByte_spec (c := ':') (by decide) at3 with ⟨p4, colon, at4⟩
        have keyBehind : (afterKey (b :: tail)).length ≤ tail.length :=
          Nat.le_trans (length_skipByte_le _ _)
            (Nat.le_trans (length_jsonSkipWs_le _) (length_copyString_le tail))
        have shorter : (afterKey (b :: tail)).length < rest.length :=
          Nat.lt_of_le_of_lt keyBehind (Nat.lt_of_succ_le spaces)
        rcases parses _ shorter p4 at4 with ⟨val, p5, after, reads, at5, same, fewer⟩
        rcases packed.set (Runtime.jsonParseStringRaw (b :: tail)).1 val with ⟨m', sets, packed'⟩
        rcases jsonSkipWs_spec at5 with ⟨p6, skips6, at6⟩
        rcases skipByte_spec (c := ',') (by decide) at6 with ⟨p7, comma, at7⟩
        have stores := jsonObjMapSet_of_some packed.represents.isPower sets
        refine ⟨val, after, m', _, p7, ?_, quote, same, sets, packed', at7, ?_⟩
        · rw [raw, ok_bind]
          dsimp only
          rw [skips3, ok_bind, colon, ok_bind, reads, ok_bind]
          dsimp only
          rw [show (Runtime.copyString tail).1 = (Runtime.jsonParseStringRaw (b :: tail)).1 from rfl,
            stores, ok_bind, skips6, ok_bind, comma]
          rfl
        · have behind := Nat.le_trans (length_skipByte_le ',' _) (length_jsonSkipWs_le after)
          have keySpaces := length_jsonSkipWs_le (afterKey (b :: tail))
          omega
  · left
    rw [if_pos (mt isQuote.mp quote)]
    exact ⟨p1, rfl, eq_false_of_ne_true quote, at1⟩

/-! ## Whole texts -/

/-- What some fuel is enough for. -/
structure Reads (text : CString) (atof : CString → UInt64) (fuel : Nat) : Prop where
  value : ∀ rest : CString, 2 * rest.length + 1 ≤ fuel → Parses text atof fuel rest
  members : ∀ {m f p} {rest : CString}, Packed m f → At text p rest → 2 * rest.length + 2 ≤ fuel →
    ∃ value p' rest', jsonParseMembers text atof fuel m p = .ok (value, p') ∧ At text p' rest' ∧
      Runtime.jsonParseMembers atof fuel m rest = some (value, rest') ∧ rest'.length ≤ rest.length
  elements : ∀ {a : Elements} {p} {rest : CString}, a.Fits → At text p rest →
    2 * rest.length + 2 ≤ fuel → ∃ value p' rest',
      jsonParseElements text atof fuel a p = .ok (value, p') ∧ At text p' rest' ∧
        Runtime.jsonParseElements atof fuel a.values rest = some (value, rest') ∧
        rest'.length ≤ rest.length

namespace Reads

variable {fuel : Nat}

theorem membersEnd (at_ : At text p rest) (m : TinoxMap CString JsonValue) :
    ∃ value p' rest', (do
        let p ← skipByte text '}' p
        pure (JsonValue.object m, p) : Outcome (JsonValue × Nat)) = .ok (value, p') ∧
      At text p' rest' ∧ some (JsonValue.object m, Runtime.skipByte '}' rest) = some (value, rest') ∧
        rest'.length ≤ rest.length := by
  rcases skipByte_spec (c := '}') (by decide) at_ with ⟨p', skips, there⟩
  refine ⟨_, p', _, ?_, there, rfl, length_skipByte_le _ _⟩
  rw [skips]
  rfl

theorem members_succ (nulFree : 0 ∉ text) (reads : Reads text atof fuel)
    {m : TinoxMap CString JsonValue} {f : CString → Option JsonValue} (packed : Packed m f)
    (at_ : At text p rest) (enough : 2 * rest.length + 2 ≤ fuel + 1) :
    ∃ value p' rest', jsonParseMembers text atof (fuel + 1) m p = .ok (value, p') ∧
      At text p' rest' ∧ Runtime.jsonParseMembers atof (fuel + 1) m rest = some (value, rest') ∧
        rest'.length ≤ rest.length := by
  rw [jsonParseMembers, Runtime.jsonParseMembers, at_.fetch, ok_bind]
  have isEnd : rest.headD 0 = 0 ∨ rest.headD 0 = '}'.toUInt8 ↔
      (rest.isEmpty || isAt '}' rest) = true := by
    rw [headD_eq_zero (at_.notMem nulFree), headD_eq_iff _ (by decide), Bool.or_eq_true,
      List.isEmpty_iff]
  by_cases ends : (rest.isEmpty || isAt '}' rest) = true
  · rw [if_pos (isEnd.mpr ends), if_pos ends]
    exact membersEnd at_ m
  · rw [if_neg (mt isEnd.mp ends), if_neg ends]
    have parses : ∀ shorter : CString, shorter.length < rest.length →
        Parses text atof fuel shorter := by
      intro shorter fewer
      exact reads.value shorter (by omega)
    rcases memberRound_spec nulFree packed at_ parses with
      ⟨p1, leaves, noKey, at1⟩ | ⟨val, after, m', f', p1, goesOn, key, same, sets, packed', at1, fewer⟩
    · rw [leaves, ok_bind]
      dsimp only
      rw [noKey, Bool.not_false, if_pos rfl]
      rcases membersEnd at1 m with ⟨value, p', rest', skips, there, result, shorter⟩
      exact ⟨value, p', rest', skips, there, result,
        Nat.le_trans shorter (length_jsonSkipWs_le rest)⟩
    · rw [goesOn, ok_bind]
      dsimp only
      rw [key, Bool.not_true, if_neg Bool.false_ne_true]
      rw [afterKey] at same
      rw [same]
      dsimp only
      rw [sets]
      rcases reads.members packed' at1 (by omega) with ⟨value, p', rest', ends, there, result, shorter⟩
      exact ⟨value, p', rest', ends, there, result, Nat.le_of_lt (Nat.lt_of_le_of_lt shorter fewer)⟩

theorem elements_succ (nulFree : 0 ∉ text) (reads : Reads text atof fuel) {a : Elements}
    (fits : a.Fits) (at_ : At text p rest) (enough : 2 * rest.length + 2 ≤ fuel + 1) :
    ∃ value p' rest', jsonParseElements text atof (fuel + 1) a p = .ok (value, p') ∧
      At text p' rest' ∧ Runtime.jsonParseElements atof (fuel + 1) a.values rest =
        some (value, rest') ∧ rest'.length ≤ rest.length := by
  rw [jsonParseElements, Runtime.jsonParseElements, at_.fetch, ok_bind]
  have isEnd : rest.headD 0 = 0 ∨ rest.headD 0 = ']'.toUInt8 ↔
      (rest.isEmpty || isAt ']' rest) = true := by
    rw [headD_eq_zero (at_.notMem nulFree), headD_eq_iff _ (by decide), Bool.or_eq_true,
      List.isEmpty_iff]
  by_cases ends : (rest.isEmpty || isAt ']' rest) = true
  · rw [if_pos (isEnd.mpr ends), if_pos ends]
    rcases skipByte_spec (c := ']') (by decide) at_ with ⟨p', skips, there⟩
    refine ⟨_, p', _, ?_, there, rfl, length_skipByte_le _ _⟩
    rw [skips, ok_bind, checkWrite_of_lt (Nat.succ_pos _)]
    rfl
  · rw [if_neg (mt isEnd.mp ends), if_neg ends]
    have notEmpty : rest ≠ [] := by
      rintro rfl
      exact ends rfl
    rcases elementRound_spec fits at_ notEmpty (reads.value rest (by omega)) with
      ⟨elem, after, a', p1, goesOn, same, values, fits', at1, fewer⟩
    rw [goesOn, ok_bind, same]
    dsimp only
    rw [← values]
    rcases reads.elements fits' at1 (by omega) with ⟨value, p', rest', ends, there, result, shorter⟩
    exact ⟨value, p', rest', ends, there, result, Nat.le_of_lt (Nat.lt_of_le_of_lt shorter fewer)⟩

theorem array_succ (nulFree : 0 ∉ text) (reads : Reads text atof fuel) (at_ : At text p rest)
    (enough : 2 * rest.length + 2 ≤ fuel) :
    ∃ value p' rest',
      jsonParseArray text fuel (jsonParseElements text atof fuel) p = .ok (value, p') ∧
        At text p' rest' ∧
      (if isAt ']' (Runtime.jsonSkipWs rest) then
          some (.intArray [], (Runtime.jsonSkipWs rest).tail)
        else
          match Runtime.jsonParseIntegers fuel [] (Runtime.jsonSkipWs rest) with
          | none => none
          | some (some (values, p)) => some (.intArray values, p)
          | some none => Runtime.jsonParseElements atof fuel [] (Runtime.jsonSkipWs rest)) =
        some (value, rest') ∧ rest'.length ≤ rest.length := by
  rcases jsonSkipWs_spec at_ with ⟨p1, skips, at1⟩
  have spaces := length_jsonSkipWs_le rest
  rw [jsonParseArray, skips, ok_bind, at1.fetch, ok_bind]
  have isBracket := headD_eq_iff (Runtime.jsonSkipWs rest)
    (show ']'.toUInt8 ≠ 0 by decide)
  by_cases closes : isAt ']' (Runtime.jsonSkipWs rest) = true
  · rw [if_pos (isBracket.mpr closes), if_pos closes, checkWrite_of_lt Nat.zero_lt_one, ok_bind]
    generalize Runtime.jsonSkipWs rest = start at *
    cases start with
    | nil => contradiction
    | cons b tail => exact ⟨_, p1 + 1, tail, rfl, at1.next, rfl, Nat.le_of_succ_le spaces⟩
  · rw [if_neg (mt isBracket.mp closes), if_neg closes]
    have start : Integers.Fits ⟨256, false, []⟩ := ⟨Nat.zero_le _, Nat.succ_pos 255⟩
    rcases jsonParseIntegers_spec nulFree fuel start at1 (by omega) with
      ⟨stops, same⟩ | ⟨values, p', rest', ends, same, there, shorter⟩
    · rw [stops, ok_bind, same]
      dsimp only
      have empty : Elements.Fits ⟨8, []⟩ := ⟨Nat.zero_le _, Nat.succ_pos 7⟩
      rcases reads.elements empty at1 (by omega) with ⟨value, p', rest', ends, there, result, shorter⟩
      exact ⟨value, p', rest', ends, there, result, Nat.le_trans shorter spaces⟩
    · rw [ends, ok_bind, same]
      exact ⟨_, p', rest', rfl, there, rfl, Nat.le_trans shorter spaces⟩

theorem value_succ (nulFree : 0 ∉ text) (reads : Reads text atof fuel) {rest : CString}
    (enough : 2 * rest.length + 1 ≤ fuel + 1) : Parses text atof (fuel + 1) rest := by
  intro p at_
  rcases jsonSkipWs_spec at_ with ⟨p1, skips, at1⟩
  have spaces := length_jsonSkipWs_le rest
  rw [jsonParseValue, Runtime.jsonParseValue, skips, ok_bind, at1.fetch, ok_bind]
  dsimp only
  generalize Runtime.jsonSkipWs rest = start at *
  cases start with
  | nil => exact ⟨.null, p1, [], rfl, at1, rfl, Nat.zero_le _⟩
  | cons b tail =>
      have notNul : b ≠ 0 := fun isNul => at1.notMem nulFree (isNul ▸ List.mem_cons_self)
      rw [List.headD_cons, if_neg notNul, List.isEmpty_cons, if_neg Bool.false_ne_true, isAt_cons,
        isAt_cons, isAt_cons]
      by_cases quote : b = '"'.toUInt8
      · rw [if_pos quote, decide_eq_true quote, if_pos rfl]
        rcases jsonParseStringRaw_spec nulFree at1 with ⟨p2, raw, at2⟩
        refine ⟨_, p2, _, ?_, at2, rfl, length_copyString_le tail⟩
        rw [raw]
        rfl
      · rw [if_neg quote, decide_eq_false quote, if_neg Bool.false_ne_true]
        by_cases brace : b = '{'.toUInt8
        · rw [if_pos brace, decide_eq_true brace, if_pos rfl]
          rcases jsonSkipWs_spec at1.next with ⟨p2, skips2, at2⟩
          have inner := length_jsonSkipWs_le tail
          rw [List.length_cons] at spaces
          rcases reads.members Packed.create at2 (by omega) with
            ⟨value, p', rest', ends, there, result, shorter⟩
          rw [skips2, ok_bind]
          exact ⟨value, p', rest', ends, there, result, Nat.le_trans shorter inner⟩
        · rw [if_neg brace, decide_eq_false brace, if_neg Bool.false_ne_true]
          by_cases bracket : b = '['.toUInt8
          · rw [if_pos bracket, decide_eq_true bracket, if_pos rfl]
            rw [List.length_cons] at spaces
            have fits : 2 * tail.length + 2 ≤ fuel := by omega
            exact array_succ nulFree reads at1.next fits
          · rw [if_neg bracket, decide_eq_false bracket, if_neg Bool.false_ne_true]
            rcases jsonParseScalar_spec atof nulFree at1 with
              ⟨value, p', rest', ends, there, result, shorter⟩
            exact ⟨value, p', rest', ends, there, congrArg some result, shorter⟩

theorem of_fuel (nulFree : 0 ∉ text) (fuel : Nat) : Reads text atof fuel := by
  induction fuel with
  | zero => exact ⟨fun _ enough => by omega, fun _ _ enough => by omega, fun _ _ enough => by omega⟩
  | succ fuel ih =>
      exact ⟨fun _ => value_succ nulFree ih, members_succ nulFree ih, elements_succ nulFree ih⟩

end Reads

/-- An iteration ends without a fault, and has taken a byte if the loop goes on behind it. -/
def Advances {σ : Type} (p : Nat) (outcome : Outcome (Round σ)) : Prop :=
  ∃ round, outcome = .ok round ∧ ∀ state p', round = .again state p' → p < p'

/-- What is safe about a text: the reader ends without a fault, both passes over a string agree, and
the loops advance from each cursor where they do not end. -/
structure Safe (atof : CString → UInt64) (text : CString) : Prop where
  ends : ∀ fuel, 2 * text.length + 1 ≤ fuel → ∃ value, jsonParse text atof fuel = .ok value ∧
    Runtime.jsonParse atof fuel (some text) = some value
  sameLength : ∀ p ≤ text.length, ∃ maxLen buf p',
    scanString text (text.length + 1) p 0 = .ok maxLen ∧
      copyString text (maxLen + 1) (text.length + 1) [] p = .ok (buf, p') ∧ buf.length = maxLen
  integers : ∀ a : Integers, a.Fits → ∀ p < text.length, Advances p (integerRound text a p)
  elements : ∀ fuel, 2 * text.length + 1 ≤ fuel → ∀ a : Elements, a.Fits → ∀ p < text.length,
    ∃ a' p', elementRound text (jsonParseValue text atof fuel) a p = .ok (a', p') ∧ p < p'
  members : ∀ fuel, 2 * text.length + 1 ≤ fuel → ∀ m f, Packed m f → ∀ p < text.length,
    Advances p (memberRound text (jsonParseValue text atof fuel) m p)

theorem at_of_le (inside : p ≤ text.length) : At text p (text.drop p) :=
  ⟨inside, rfl⟩

/-- Every text without a NUL is read safely. -/
theorem jsonParse_safe (atof : CString → UInt64) (text : CString) (nulFree : 0 ∉ text) :
    Safe atof text := by
  have parses : ∀ {fuel p}, 2 * text.length + 1 ≤ fuel → ∀ rest, At text p rest →
      Parses text atof fuel rest := by
    intro fuel p enough rest at_
    have shorter := at_.le_length
    exact (Reads.of_fuel nulFree fuel).value rest (by omega)
  constructor
  · intro fuel enough
    rcases parses enough text (At.start text) 0 (At.start text) with
      ⟨value, p', rest', reads, -, same, -⟩
    refine ⟨value, ?_, ?_⟩
    · rw [jsonParse, reads]
      rfl
    · rw [Runtime.jsonParse, same, Option.map_some]
  · intro p inside
    have at_ := at_of_le inside
    have free := at_.notMem nulFree
    have enough := Nat.lt_succ_of_le at_.le_length
    have scans := scanString_spec free 0 at_ enough
    rw [Nat.zero_add] at scans
    rcases copyString_spec free _ [] at_ enough (Nat.le_trans (Nat.le_of_eq
        (Nat.zero_add _)) (Nat.le_succ _)) with ⟨p', -, copies, -⟩
    exact ⟨_, _, p', scans, copies, rfl⟩
  · intro a fits p below
    have at_ := at_of_le (Nat.le_of_lt below)
    rcases integerRound_spec fits at_ with
      ⟨p', leaves, -⟩ | ⟨a', p', goesOn, digit, -, -, -, there⟩
    · exact ⟨_, leaves, nofun⟩
    · refine ⟨_, goesOn, ?_⟩
      rintro _ _ ⟨⟩
      exact (at_.lt_iff there).mpr (length_afterInteger_lt digit)
  · intro fuel enough a fits p below
    have at_ := at_of_le (Nat.le_of_lt below)
    have notEmpty : text.drop p ≠ [] := by
      rw [Ne, List.drop_eq_nil_iff]
      exact Nat.not_le.mpr below
    rcases elementRound_spec fits at_ notEmpty (parses enough _ at_) with
      ⟨_, _, a', p', goesOn, -, -, -, there, fewer⟩
    exact ⟨a', p', goesOn, (at_.lt_iff there).mpr fewer⟩
  · intro fuel enough m f packed p below
    have at_ := at_of_le (Nat.le_of_lt below)
    have shorter := at_.le_length
    have shorterParses : ∀ rest : CString, rest.length < (text.drop p).length →
        Parses text atof fuel rest :=
      fun rest fewer => (Reads.of_fuel nulFree fuel).value rest (by omega)
    rcases memberRound_spec nulFree packed at_ shorterParses with
      ⟨p', leaves, -⟩ | ⟨_, _, m', _, p', goesOn, -, -, -, -, there, fewer⟩
    · exact ⟨_, leaves, nofun⟩
    · refine ⟨_, goesOn, ?_⟩
      rintro _ _ ⟨⟩
      exact (at_.lt_iff there).mpr fewer

/-- `{x`, an object whose first key has no quote. -/
def unquotedKey : CString :=
  [123, 120]

theorem jsonParse_safe_unquotedKey : Safe (fun _ => 0) unquotedKey :=
  jsonParse_safe (fun _ => 0) unquotedKey (by decide)

/-- The iteration that meets the key leaves the loop without taking a byte. -/
theorem memberRound_notAdvancing :
    ¬ ∀ (atof : CString → UInt64) (text : CString) (fuel p : Nat) (m : TinoxMap CString JsonValue)
      (f : CString → Option JsonValue) (round : Round (TinoxMap CString JsonValue)),
      0 ∉ text → 2 * text.length + 1 ≤ fuel → p < text.length → text.getD p 0 ≠ '}'.toUInt8 →
        Packed m f → memberRound text (jsonParseValue text atof fuel) m p = .ok round →
          p < round.cursor := by
  intro claim
  have advances := claim (fun _ => 0) unquotedKey 5 1 jsonObjMapCreate _ (.left 1) (by decide)
    (by decide) (by decide) (by decide) Packed.create rfl
  exact absurd advances (by decide)

end Text

end Tinox.Runtime.JsonCursor

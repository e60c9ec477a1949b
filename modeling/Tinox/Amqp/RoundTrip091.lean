import Tinox.Amqp.Tables091

/-!
# AMQP 0-9-1 field tables survive the wire

A table that can be represented is read as it was written.  One that cannot be is written all
the same, without an error.
-/

namespace Tinox.Amqp

open Tinox.Net Tinox.Runtime

mutual

/-- A predicate on every part of a field value. -/
def Holds091 (p : AmqpFieldValue091 → Prop) : AmqpFieldValue091 → Prop
  | .tableVal t => p (.tableVal t) ∧ HoldsEntries p t
  | .arrayVal a => p (.arrayVal a) ∧ HoldsItems p a
  | v => p v

def HoldsEntries (p : AmqpFieldValue091 → Prop) : List (CString × AmqpFieldValue091) → Prop
  | [] => True
  | entry :: t => HoldsEntry p entry ∧ HoldsEntries p t

def HoldsEntry (p : AmqpFieldValue091 → Prop) : CString × AmqpFieldValue091 → Prop
  | (_, value) => Holds091 p value

def HoldsItems (p : AmqpFieldValue091 → Prop) : List AmqpFieldValue091 → Prop
  | [] => True
  | value :: a => Holds091 p value ∧ HoldsItems p a

end

mutual

/-- The bytes that a field value takes. -/
def sizeOfValue : AmqpFieldValue091 → Nat
  | .boolVal _ => 2
  | .int32Val _ => 5
  | .int64Val _ => 9
  | .strVal s => 5 + s.length
  | .timestampVal _ => 9
  | .tableVal t => 5 + sizeOfEntries t
  | .arrayVal a => 5 + sizeOfItems a
  | .voidVal => 1
  | .errorVal _ => 1

def sizeOfEntries : List (CString × AmqpFieldValue091) → Nat
  | [] => 0
  | entry :: t => sizeOfEntry entry + sizeOfEntries t

def sizeOfEntry : CString × AmqpFieldValue091 → Nat
  | (key, value) => 1 + key.length + sizeOfValue value

def sizeOfItems : List AmqpFieldValue091 → Nat
  | [] => 0
  | value :: a => sizeOfValue value + sizeOfItems a

end

/-- A part that a program can build: strings are C strings, and a map has each key once. -/
def WellFormed091 : AmqpFieldValue091 → Prop
  | .strVal s => 0 ∉ s
  | .tableVal t => (t.map Prod.fst).Nodup ∧ ∀ key ∈ t.map Prod.fst, 0 ∉ key
  | .errorVal _ => False
  | _ => True

/-- A part that the encoding can represent. -/
def Representable091 : AmqpFieldValue091 → Prop
  | .int32Val n => Between (-2 ^ 31) (2 ^ 31) n
  | .strVal s => s.length < 2 ^ 32
  | .tableVal t => (∀ key ∈ t.map Prod.fst, key.length ≤ 255) ∧ sizeOfEntries t < 2 ^ 32
  | .arrayVal a => sizeOfItems a < 2 ^ 32
  | _ => True

namespace AmqpWriter091

@[simp] theorem push_push (w : AmqpWriter091) (data more : List Int64) :
    (w.push data).push more = w.push (data ++ more) := by
  rw [push, push, push, List.append_assoc]

/-- The bytes of a field value. -/
def valueBytes (v : AmqpFieldValue091) : List Int64 :=
  (fieldValue new v).bytes

/-- The bytes of a key. -/
def keyBytes (key : CString) : List Int64 :=
  (Int64.ofNat key.length &&& 0xFF) :: stringBytes key

/-- The bytes of the entries of a table. -/
def entriesBytes (t : FieldTable091) : List Int64 :=
  t.flatMap fun entry => keyBytes entry.1 ++ valueBytes entry.2

/-- The bytes of the values of an array. -/
def itemsBytes (a : List AmqpFieldValue091) : List Int64 :=
  a.flatMap valueBytes

theorem new_push (data : List Int64) : (new.push data).bytes = data := List.nil_append data

theorem fieldValue_push (w : AmqpWriter091) (v : AmqpFieldValue091) :
    fieldValue w v = w.push (valueBytes v) := by
  cases v <;>
    simp only [valueBytes, fieldValue, octet, long, longlong, longstr, rawStr, rawBytes, enclose,
      push_push, new_push]

theorem items_push (w : AmqpWriter091) (a : List AmqpFieldValue091) :
    items w a = w.push (itemsBytes a) := by
  induction a generalizing w with
  | nil => exact congrArg (AmqpWriter091.mk · w.tooLong) (List.append_nil w.bytes).symm
  | cons value a ih => rw [items, fieldValue_push, ih, push_push, itemsBytes, itemsBytes, List.flatMap_cons]

theorem shortstr_push (w : AmqpWriter091) {key : CString} (short : key.length ≤ 255) :
    w.shortstr key = w.push (keyBytes key) := by
  have notLong : ¬ (255 : Int64) < Int64.ofNat key.length := by
    intro long
    have isLong := (@ofNat_lt 255 key.length (by decide) (by omega)).mp long
    omega
  rw [shortstr, if_neg notLong, octet, rawStr, push_push]
  rfl

theorem entries_push {t : FieldTable091} (short : ∀ key ∈ t.map Prod.fst, key.length ≤ 255)
    (w : AmqpWriter091) : entries w t = w.push (entriesBytes t) := by
  induction t generalizing w with
  | nil => exact congrArg (AmqpWriter091.mk · w.tooLong) (List.append_nil w.bytes).symm
  | cons entry t ih =>
      rw [List.map_cons, List.forall_mem_cons] at short
      rw [entries, entryOf, shortstr_push w short.1, fieldValue_push, ih short.2, push_push, push_push,
        entriesBytes, entriesBytes, List.flatMap_cons, List.append_assoc]

theorem areBytes_valueBytes (v : AmqpFieldValue091) : AreBytes (valueBytes v) := by
  have isOctet (v : Int64) : AreBytes [v &&& 0xFF] := areBytes_lowBytes [v]
  cases v with
  | boolVal b => exact areBytes_append.mpr ⟨isOctet _, isOctet _⟩
  | int32Val n => exact areBytes_append.mpr ⟨isOctet _, areBytes_fourBytes n⟩
  | int64Val n => exact areBytes_append.mpr ⟨isOctet _, areBytes_eightBytes n⟩
  | strVal s =>
      exact areBytes_append.mpr
        ⟨areBytes_append.mpr ⟨isOctet _, areBytes_fourBytes _⟩, areBytes_stringBytes s⟩
  | timestampVal t => exact areBytes_append.mpr ⟨isOctet _, areBytes_eightBytes t⟩
  | tableVal t | arrayVal a =>
      exact areBytes_append.mpr
        ⟨areBytes_append.mpr ⟨isOctet _, areBytes_fourBytes _⟩, areBytes_lowBytes _⟩
  | voidVal | errorVal msg => exact isOctet _

theorem areBytes_entriesBytes (t : FieldTable091) : AreBytes (entriesBytes t) := by
  intro b member
  rcases List.mem_flatMap.mp member with ⟨entry, _, inEntry⟩
  rcases List.mem_append.mp inEntry with inKey | inValue
  · rcases List.mem_cons.mp inKey with rfl | inText
    · exact areBytes_lowBytes [Int64.ofNat entry.1.length] _ (List.mem_cons_self ..)
    · exact areBytes_stringBytes _ b inText
  · exact areBytes_valueBytes _ b inValue

theorem areBytes_itemsBytes (a : List AmqpFieldValue091) : AreBytes (itemsBytes a) := by
  intro b member
  rcases List.mem_flatMap.mp member with ⟨value, _, inValue⟩
  exact areBytes_valueBytes value b inValue

/-- A length in front of bytes, and the bytes. -/
def enclosed (data : List Int64) : List Int64 :=
  fourBytes (Int64.ofNat data.length) ++ data

theorem enclose_push (w : AmqpWriter091) {data : List Int64} (areBytes : AreBytes data) (flag : Bool) :
    w.enclose ⟨data, flag⟩ = w.push (enclosed data) := by
  rw [enclose, long, rawBytes, lowBytes_eq areBytes, push_push]
  rfl

theorem valueBytes_table {t : FieldTable091} (short : ∀ key ∈ t.map Prod.fst, key.length ≤ 255) :
    valueBytes (.tableVal t) = (70 &&& 0xFF) :: enclosed (entriesBytes t) := by
  have isInner : entries new t = ⟨entriesBytes t, false⟩ := entries_push short new
  rw [valueBytes, fieldValue, isInner, enclose_push _ (areBytes_entriesBytes t), octet, push_push, new_push]
  rfl

theorem valueBytes_array (a : List AmqpFieldValue091) :
    valueBytes (.arrayVal a) = (65 &&& 0xFF) :: enclosed (itemsBytes a) := by
  have isInner : items new a = ⟨itemsBytes a, false⟩ := items_push new a
  rw [valueBytes, fieldValue, isInner, enclose_push _ (areBytes_itemsBytes a), octet, push_push, new_push]
  rfl

theorem length_stringBytes (s : CString) : (stringBytes s).length = s.length := by
  rw [stringBytes_eq, List.length_map]

mutual

theorem length_valueBytes : ∀ v : AmqpFieldValue091, Holds091 Representable091 v →
    (valueBytes v).length = sizeOfValue v
  | .boolVal _, _ => rfl
  | .int32Val _, _ => rfl
  | .int64Val _, _ => rfl
  | .strVal s, _ => by
      have isLength : (valueBytes (.strVal s)).length = 5 + (stringBytes s).length := by
        rw [valueBytes, fieldValue, longstr, octet, long, rawStr, push_push, push_push, new_push,
          List.length_append, List.length_append, ← Nat.add_assoc]
        rfl
      rw [isLength, length_stringBytes, sizeOfValue]
  | .timestampVal _, _ => rfl
  | .tableVal t, representable => by
      rw [valueBytes_table representable.1.1, List.length_cons, enclosed, List.length_append,
        length_entriesBytes t representable.2, sizeOfValue]
      change 4 + _ + 1 = _
      omega
  | .arrayVal a, representable => by
      rw [valueBytes_array, List.length_cons, enclosed, List.length_append,
        length_itemsBytes a representable.2, sizeOfValue]
      change 4 + _ + 1 = _
      omega
  | .voidVal, _ => rfl
  | .errorVal _, _ => rfl

theorem length_entriesBytes : ∀ t : List (CString × AmqpFieldValue091),
    HoldsEntries Representable091 t → (entriesBytes t).length = sizeOfEntries t
  | [], _ => rfl
  | entry :: t, representable => by
      rw [entriesBytes, List.flatMap_cons, List.length_append, length_entryBytes entry representable.1,
        sizeOfEntries]
      exact congrArg _ (length_entriesBytes t representable.2)

theorem length_entryBytes : ∀ entry : CString × AmqpFieldValue091, HoldsEntry Representable091 entry →
    (keyBytes entry.1 ++ valueBytes entry.2).length = sizeOfEntry entry
  | (key, value), representable => by
      rw [List.length_append, keyBytes, List.length_cons, length_stringBytes,
        length_valueBytes value representable, sizeOfEntry, Nat.add_comm 1]

theorem length_itemsBytes : ∀ a : List AmqpFieldValue091, HoldsItems Representable091 a →
    (itemsBytes a).length = sizeOfItems a
  | [], _ => rfl
  | value :: a, representable => by
      rw [itemsBytes, List.flatMap_cons, List.length_append, length_valueBytes value representable.1,
        sizeOfItems]
      exact congrArg _ (length_itemsBytes a representable.2)

end

end AmqpWriter091

open AmqpWriter091 (valueBytes keyBytes entriesBytes itemsBytes enclosed)

namespace AmqpReader091

theorem octet_cons (v : Int64) (rest : List Int64) (pos : Nat) (truncated : Bool) :
    octet ⟨v :: rest, pos, truncated⟩ = (v, ⟨rest, pos + 1, truncated⟩) :=
  rfl

theorem octets_spec (data rest : List Int64) (pos : Nat) (truncated : Bool) :
    octets data.length ⟨data ++ rest, pos, truncated⟩ =
      (data, ⟨rest, pos + data.length, truncated⟩) := by
  induction data generalizing pos with
  | nil => rfl
  | cons b data ih =>
      rw [List.length_cons, octets, List.cons_append, octet_cons, ih, Nat.add_assoc, Nat.add_comm 1]

theorem rawStr_spec {s : CString} (noZero : 0 ∉ s) {n : Int64} (isLength : n.toInt.toNat = s.length)
    (rest : List Int64) (pos : Nat) (truncated : Bool) :
    rawStr n ⟨stringBytes s ++ rest, pos, truncated⟩ =
      (s, ⟨rest, pos + (stringBytes s).length, truncated⟩) := by
  have read := octets_spec (s.map byteValue) rest pos truncated
  rw [List.length_map] at read
  rw [rawStr, isLength, stringBytes_eq, read, tinoxBytesToString_bytes noZero, List.length_map]

theorem long_fourBytes (v : Int64) (rest : List Int64) (pos : Nat) (truncated : Bool) :
    long ⟨fourBytes v ++ rest, pos, truncated⟩ =
      (Int64.ofNat (bits v % 2 ^ 32), ⟨rest, pos + 4, truncated⟩) :=
  readNumber_fourBytes v rest pos truncated

theorem shortstr_keyBytes {key : CString} (noZero : 0 ∉ key) (short : key.length ≤ 255)
    (rest : List Int64) (pos : Nat) (truncated : Bool) :
    shortstr ⟨keyBytes key ++ rest, pos, truncated⟩ =
      (key, ⟨rest, pos + (keyBytes key).length, truncated⟩) := by
  have isLow : Int64.ofNat key.length &&& 0xFF = Int64.ofNat key.length := by
    apply bits_inj.mp
    rw [bits_and, bits_ofNat (by omega)]
    omega
  have isLength : (Int64.ofNat key.length).toInt.toNat = key.length := by
    rw [Int64.toInt_ofNat_of_lt (by omega), Int.toNat_natCast]
  rw [shortstr, keyBytes, isLow, List.cons_append, octet_cons, rawStr_spec noZero isLength, List.length_cons,
    Nat.add_assoc, Nat.add_comm 1]

theorem longstr_spec {s : CString} (noZero : 0 ∉ s) (fits : s.length < 2 ^ 32) (rest : List Int64)
    (pos : Nat) (truncated : Bool) :
    longstr ⟨fourBytes (Int64.ofNat s.length) ++ (stringBytes s ++ rest), pos, truncated⟩ =
      (s, ⟨rest, pos + 4 + (stringBytes s).length, truncated⟩) := by
  have isLength := length_bits s.length
  rw [Nat.mod_eq_of_lt fits] at isLength
  rw [longstr, long_fourBytes, rawStr_spec noZero isLength]

theorem insert_new {t : FieldTable091} {key : CString} (isNew : key ∉ t.map Prod.fst)
    (value : AmqpFieldValue091) : insert t key value = t ++ [(key, value)] := by
  rw [insert, if_neg]
  rw [List.any_eq_true]
  rintro ⟨entry, member, same⟩
  exact isNew (of_decide_eq_true same ▸ List.mem_map_of_mem member)

/-- A field value is read as it was written, with enough fuel. -/
def ReadsBack091 (v : AmqpFieldValue091) : Prop :=
  ∃ enough, ∀ fuel ≥ enough, ∀ (rest : List Int64) (pos : Nat),
    fieldValue fuel ⟨valueBytes v ++ rest, pos, false⟩ =
      some (v, ⟨rest, pos + (valueBytes v).length, false⟩)

theorem readsBack_now {v : AmqpFieldValue091}
    (isRead : ∀ (fuel : Nat) (rest : List Int64) (pos : Nat),
      fieldValue (fuel + 1) ⟨valueBytes v ++ rest, pos, false⟩ =
        some (v, ⟨rest, pos + (valueBytes v).length, false⟩)) : ReadsBack091 v := by
  refine ⟨1, ?_⟩
  intro fuel enough rest pos
  rw [← Nat.sub_add_cancel enough]
  exact isRead (fuel - 1) rest pos

theorem length_keyBytes_pos (key : CString) : 0 < (keyBytes key).length := by
  rw [keyBytes, List.length_cons]
  exact Nat.succ_pos _

theorem tableLoop_spec {t : FieldTable091} (each : ∀ entry ∈ t, ReadsBack091 entry.2)
    (noZero : ∀ key ∈ t.map Prod.fst, 0 ∉ key) (short : ∀ key ∈ t.map Prod.fst, key.length ≤ 255) :
    ∃ enough, ∀ fuel ≥ enough, ∀ (done : FieldTable091) (rest : List Int64) (pos : Nat),
      ((done ++ t).map Prod.fst).Nodup →
      tableLoop fuel (pos + (entriesBytes t).length) done ⟨entriesBytes t ++ rest, pos, false⟩ =
        some (done ++ t, ⟨rest, pos + (entriesBytes t).length, false⟩) := by
  induction t with
  | nil =>
      refine ⟨1, ?_⟩
      intro fuel enough done rest pos _
      have atEnd : ¬ pos < pos + (entriesBytes []).length := Nat.lt_irrefl pos
      rw [← Nat.sub_add_cancel enough, tableLoop, if_neg atEnd, List.append_nil]
      rfl
  | cons entry t ih =>
      rw [List.forall_mem_cons] at each
      rw [List.map_cons, List.forall_mem_cons] at noZero short
      rcases each.1 with ⟨enoughValue, isRead⟩
      rcases ih each.2 noZero.2 short.2 with ⟨enoughRest, isLoop⟩
      refine ⟨max enoughValue enoughRest + 1, ?_⟩
      intro fuel enough done rest pos once
      rcases entry with ⟨key, value⟩
      have isNew : key ∉ done.map Prod.fst := by
        rw [List.map_append, List.map_cons, List.nodup_append] at once
        exact fun inDone => once.2.2 key inDone key (List.mem_cons_self ..) rfl
      have isBytes : entriesBytes ((key, value) :: t) = keyBytes key ++ (valueBytes value ++ entriesBytes t) := by
        rw [entriesBytes, List.flatMap_cons, List.append_assoc]
        rfl
      have positive := length_keyBytes_pos key
      have inside : pos < pos + (keyBytes key ++ (valueBytes value ++ entriesBytes t)).length := by
        rw [List.length_append]
        omega
      have isEnd : pos + (keyBytes key ++ (valueBytes value ++ entriesBytes t)).length =
          pos + (keyBytes key).length + (valueBytes value).length + (entriesBytes t).length := by
        rw [List.length_append, List.length_append, ← Nat.add_assoc, ← Nat.add_assoc]
      have less : fuel - 1 + 1 = fuel := Nat.sub_add_cancel (Nat.le_trans (Nat.le_add_left 1 _) enough)
      rw [isBytes, ← less, tableLoop]
      dsimp only
      rw [if_pos inside, if_neg Bool.false_ne_true, List.append_assoc, List.append_assoc,
        shortstr_keyBytes noZero.1 short.1]
      dsimp only
      rw [isRead (fuel - 1) (by omega), Option.bind_some]
      dsimp only
      rw [insert_new isNew, isEnd, isLoop (fuel - 1) (by omega) _ _ _ (by rwa [List.append_assoc]),
        List.append_assoc]
      rfl

theorem arrayLoop_spec {a : List AmqpFieldValue091} (each : ∀ value ∈ a, ReadsBack091 value)
    (some_bytes : ∀ value ∈ a, 0 < (valueBytes value).length) :
    ∃ enough, ∀ fuel ≥ enough, ∀ (done : List AmqpFieldValue091) (rest : List Int64) (pos : Nat),
      arrayLoop fuel (pos + (itemsBytes a).length) done ⟨itemsBytes a ++ rest, pos, false⟩ =
        some (done ++ a, ⟨rest, pos + (itemsBytes a).length, false⟩) := by
  induction a with
  | nil =>
      refine ⟨1, ?_⟩
      intro fuel enough done rest pos
      have atEnd : ¬ pos < pos + (itemsBytes []).length := Nat.lt_irrefl pos
      rw [← Nat.sub_add_cancel enough, arrayLoop, if_neg atEnd, List.append_nil]
      rfl
  | cons value a ih =>
      rw [List.forall_mem_cons] at each some_bytes
      rcases each.1 with ⟨enoughValue, isRead⟩
      rcases ih each.2 some_bytes.2 with ⟨enoughRest, isLoop⟩
      refine ⟨max enoughValue enoughRest + 1, ?_⟩
      intro fuel enough done rest pos
      have isBytes : itemsBytes (value :: a) = valueBytes value ++ itemsBytes a := List.flatMap_cons
      have positive := some_bytes.1
      have inside : pos < pos + (valueBytes value ++ itemsBytes a).length := by
        rw [List.length_append]
        omega
      have isEnd : pos + (valueBytes value ++ itemsBytes a).length =
          pos + (valueBytes value).length + (itemsBytes a).length := by
        rw [List.length_append, ← Nat.add_assoc]
      have less : fuel - 1 + 1 = fuel := Nat.sub_add_cancel (Nat.le_trans (Nat.le_add_left 1 _) enough)
      rw [isBytes, ← less, arrayLoop]
      dsimp only
      rw [if_pos inside, if_neg Bool.false_ne_true, List.append_assoc, isRead (fuel - 1) (by omega),
        Option.bind_some]
      dsimp only
      rw [isEnd, isLoop (fuel - 1) (by omega), List.append_assoc]
      rfl

theorem long_enclosed {data : List Int64} (fits : data.length < 2 ^ 32) (rest : List Int64) (pos : Nat) :
    (long ⟨enclosed data ++ rest, pos, false⟩).1.toInt.toNat = data.length ∧
      (long ⟨enclosed data ++ rest, pos, false⟩).2 = ⟨data ++ rest, pos + 4, false⟩ := by
  have isLength := length_bits data.length
  rw [Nat.mod_eq_of_lt fits] at isLength
  rw [enclosed, List.append_assoc, long_fourBytes]
  exact ⟨isLength, rfl⟩

theorem length_enclosed (data : List Int64) : (enclosed data).length = 4 + data.length := by
  rw [enclosed, List.length_append]
  rfl

theorem length_valueBytes_pos (v : AmqpFieldValue091) : 0 < (valueBytes v).length := by
  cases v <;> exact Nat.succ_pos _

section Compounds

variable {t : FieldTable091} {a : List AmqpFieldValue091}

theorem readsBack_table (isTable : WellFormed091 (.tableVal t)) (short : Representable091 (.tableVal t))
    (isSize : (entriesBytes t).length = sizeOfEntries t) (each : ∀ entry ∈ t, ReadsBack091 entry.2) :
    ReadsBack091 (.tableVal t) := by
  rcases tableLoop_spec each isTable.2 short.1 with ⟨enough, isLoop⟩
  have fits : (entriesBytes t).length < 2 ^ 32 := isSize ▸ short.2
  refine ⟨enough + 1, ?_⟩
  intro fuel large rest pos
  have less : fuel - 1 + 1 = fuel := Nat.sub_add_cancel (Nat.le_trans (Nat.le_add_left 1 _) large)
  rw [AmqpWriter091.valueBytes_table short.1, ← less, List.cons_append]
  rcases long_enclosed fits rest (pos + 1) with ⟨isLength, isBehind⟩
  have isTag : fieldValue (fuel - 1 + 1) ⟨(70 &&& 0xFF) :: (enclosed (entriesBytes t) ++ rest), pos, false⟩ =
      (tableLoop (fuel - 1) ((long ⟨enclosed (entriesBytes t) ++ rest, pos + 1, false⟩).2.pos +
        (long ⟨enclosed (entriesBytes t) ++ rest, pos + 1, false⟩).1.toInt.toNat) []
        (long ⟨enclosed (entriesBytes t) ++ rest, pos + 1, false⟩).2).map fun t => (.tableVal t.1, t.2) := rfl
  rw [isTag, isLength, isBehind, isLoop (fuel - 1) (by omega) [] rest (pos + 1 + 4) isTable.1,
    List.length_cons, length_enclosed, Option.map_some]
  have isPos : pos + 1 + 4 + (entriesBytes t).length = pos + (4 + (entriesBytes t).length + 1) := by omega
  rw [isPos, List.nil_append]

theorem readsBack_array (short : Representable091 (.arrayVal a))
    (isSize : (itemsBytes a).length = sizeOfItems a) (each : ∀ value ∈ a, ReadsBack091 value) :
    ReadsBack091 (.arrayVal a) := by
  rcases arrayLoop_spec each fun value _ => length_valueBytes_pos value with ⟨enough, isLoop⟩
  have fits : (itemsBytes a).length < 2 ^ 32 := isSize ▸ short
  refine ⟨enough + 1, ?_⟩
  intro fuel large rest pos
  have less : fuel - 1 + 1 = fuel := Nat.sub_add_cancel (Nat.le_trans (Nat.le_add_left 1 _) large)
  rw [AmqpWriter091.valueBytes_array, ← less, List.cons_append]
  rcases long_enclosed fits rest (pos + 1) with ⟨isLength, isBehind⟩
  have isTag : fieldValue (fuel - 1 + 1) ⟨(65 &&& 0xFF) :: (enclosed (itemsBytes a) ++ rest), pos, false⟩ =
      (arrayLoop (fuel - 1) ((long ⟨enclosed (itemsBytes a) ++ rest, pos + 1, false⟩).2.pos +
        (long ⟨enclosed (itemsBytes a) ++ rest, pos + 1, false⟩).1.toInt.toNat) []
        (long ⟨enclosed (itemsBytes a) ++ rest, pos + 1, false⟩).2).map fun a => (.arrayVal a.1, a.2) := rfl
  rw [isTag, isLength, isBehind, isLoop (fuel - 1) (by omega) [] rest (pos + 1 + 4), List.length_cons,
    length_enclosed, Option.map_some]
  have isPos : pos + 1 + 4 + (itemsBytes a).length = pos + (4 + (itemsBytes a).length + 1) := by omega
  rw [isPos, List.nil_append]

end Compounds

mutual

theorem readsBack091 : ∀ v : AmqpFieldValue091, Holds091 WellFormed091 v →
    Holds091 Representable091 v → ReadsBack091 v
  | .boolVal true, _, _ => readsBack_now fun _ _ _ => rfl
  | .boolVal false, _, _ => readsBack_now fun _ _ _ => rfl
  | .int32Val n, _, representable => by
      apply readsBack_now
      intro fuel rest pos
      have isRead := long_fourBytes n rest (pos + 1) false
      have isTag : fieldValue (fuel + 1) ⟨valueBytes (.int32Val n) ++ rest, pos, false⟩ =
          some (.int32Val (longSigned ⟨fourBytes n ++ rest, pos + 1, false⟩).1,
            (longSigned ⟨fourBytes n ++ rest, pos + 1, false⟩).2) := rfl
      rw [isTag, longSigned, isRead]
      dsimp only
      rw [signed32_eq representable]
      rfl
  | .int64Val n, _, _ => by
      apply readsBack_now
      intro fuel rest pos
      have isRead : longlong ⟨eightBytes n ++ rest, pos + 1, false⟩ = (n, ⟨rest, pos + 1 + 8, false⟩) :=
        readNumber_eightBytes n rest (pos + 1) false
      have isTag : fieldValue (fuel + 1) ⟨valueBytes (.int64Val n) ++ rest, pos, false⟩ =
          some (.int64Val (longlong ⟨eightBytes n ++ rest, pos + 1, false⟩).1,
            (longlong ⟨eightBytes n ++ rest, pos + 1, false⟩).2) := rfl
      rw [isTag, isRead]
      rfl
  | .strVal s, wellFormed, representable => by
      apply readsBack_now
      intro fuel rest pos
      have isRead := longstr_spec wellFormed representable rest (pos + 1) false
      have isTag : fieldValue (fuel + 1) ⟨valueBytes (.strVal s) ++ rest, pos, false⟩ =
          some (.strVal (longstr ⟨fourBytes (Int64.ofNat s.length) ++ (stringBytes s ++ rest), pos + 1,
            false⟩).1, (longstr ⟨fourBytes (Int64.ofNat s.length) ++ (stringBytes s ++ rest), pos + 1,
            false⟩).2) := rfl
      have isLength : (valueBytes (.strVal s)).length = 1 + 4 + (stringBytes s).length := by
        rw [AmqpWriter091.length_valueBytes (.strVal s) representable, sizeOfValue,
          AmqpWriter091.length_stringBytes]
      rw [isTag, isRead, isLength, ← Nat.add_assoc, ← Nat.add_assoc]
  | .timestampVal n, _, _ => by
      apply readsBack_now
      intro fuel rest pos
      have isRead : longlong ⟨eightBytes n ++ rest, pos + 1, false⟩ = (n, ⟨rest, pos + 1 + 8, false⟩) :=
        readNumber_eightBytes n rest (pos + 1) false
      have isTag : fieldValue (fuel + 1) ⟨valueBytes (.timestampVal n) ++ rest, pos, false⟩ =
          some (.timestampVal (longlong ⟨eightBytes n ++ rest, pos + 1, false⟩).1,
            (longlong ⟨eightBytes n ++ rest, pos + 1, false⟩).2) := rfl
      rw [isTag, isRead]
      rfl
  | .tableVal t, wellFormed, representable =>
      readsBack_table wellFormed.1 representable.1 (AmqpWriter091.length_entriesBytes t representable.2)
        (readsBack_entries t wellFormed.2 representable.2)
  | .arrayVal a, wellFormed, representable =>
      readsBack_array representable.1 (AmqpWriter091.length_itemsBytes a representable.2)
        (readsBack_values a wellFormed.2 representable.2)
  | .voidVal, _, _ => readsBack_now fun _ _ _ => rfl

theorem readsBack_entries : ∀ t : List (CString × AmqpFieldValue091), HoldsEntries WellFormed091 t →
    HoldsEntries Representable091 t → ∀ entry ∈ t, ReadsBack091 entry.2
  | [], _, _ => nofun
  | entry :: t, wellFormed, representable => List.forall_mem_cons.mpr
      ⟨readsBack_entry entry wellFormed.1 representable.1,
        readsBack_entries t wellFormed.2 representable.2⟩

theorem readsBack_entry : ∀ entry : CString × AmqpFieldValue091, HoldsEntry WellFormed091 entry →
    HoldsEntry Representable091 entry → ReadsBack091 entry.2
  | (_, value), wellFormed, representable => readsBack091 value wellFormed representable

theorem readsBack_values : ∀ a : List AmqpFieldValue091, HoldsItems WellFormed091 a →
    HoldsItems Representable091 a → ∀ value ∈ a, ReadsBack091 value
  | [], _, _ => nofun
  | value :: a, wellFormed, representable => List.forall_mem_cons.mpr
      ⟨readsBack091 value wellFormed.1 representable.1,
        readsBack_values a wellFormed.2 representable.2⟩

end

end AmqpReader091

/-- The law for a table: without an error it is read as it was written, whatever follows it, and
with one exactly when it cannot be represented. -/
structure Survives (t : FieldTable091) : Prop where
  read : (AmqpWriter091.fieldTable .new t).hasError = false → ∀ rest, ∃ enough, ∀ fuel ≥ enough,
    AmqpReader091.fieldTable fuel ⟨(AmqpWriter091.fieldTable .new t).bytes ++ rest, 0, false⟩ =
      some (t, ⟨rest, (AmqpWriter091.fieldTable .new t).bytes.length, false⟩)
  error : ¬ Holds091 Representable091 (.tableVal t) → (AmqpWriter091.fieldTable .new t).hasError = true

/-- A table survives exactly when it can be represented. -/
theorem survives_iff (t : FieldTable091) (wellFormed : Holds091 WellFormed091 (.tableVal t)) :
    Survives t ↔ Holds091 Representable091 (.tableVal t) := by
  constructor
  · intro survives
    by_contra notRepresentable
    exact Bool.noConfusion (survives.error notRepresentable)
  · intro representable
    constructor
    · intro _ rest
      have short := representable.1.1
      have isSize := AmqpWriter091.length_entriesBytes t representable.2
      have fits : (entriesBytes t).length < 2 ^ 32 := isSize ▸ representable.1.2
      have isInner : AmqpWriter091.entries .new t = ⟨entriesBytes t, false⟩ :=
        AmqpWriter091.entries_push short .new
      have isWritten : (AmqpWriter091.fieldTable .new t).bytes = enclosed (entriesBytes t) := by
        rw [AmqpWriter091.fieldTable, isInner,
          AmqpWriter091.enclose_push _ (AmqpWriter091.areBytes_entriesBytes t), AmqpWriter091.new_push]
      rcases AmqpReader091.tableLoop_spec (AmqpReader091.readsBack_entries t wellFormed.2 representable.2)
        wellFormed.1.2 short with ⟨enough, isLoop⟩
      rcases AmqpReader091.long_enclosed fits rest 0 with ⟨isLength, isBehind⟩
      refine ⟨enough, ?_⟩
      intro fuel large
      rw [isWritten, AmqpReader091.fieldTable, isLength, isBehind,
        isLoop fuel large [] rest (0 + 4) wellFormed.1.1, AmqpReader091.length_enclosed, List.nil_append,
        Nat.zero_add]
    · exact fun notRepresentable => absurd representable notRepresentable

/-- A table with a nested table and an array. -/
theorem survives_iff_nested : Survives [([97], .tableVal [([98], .int32Val (-42))]),
    ([99], .arrayVal [.voidVal, .boolVal true])] := by
  apply (survives_iff _ _).mpr
  · exact ⟨⟨by decide, by decide⟩, ⟨⟨by decide, by decide⟩, ⟨by decide, by decide⟩, trivial⟩,
      ⟨(by decide : sizeOfItems [.voidVal, .boolVal true] < 2 ^ 32), trivial, trivial, trivial⟩, trivial⟩
  · exact ⟨⟨by decide, by decide⟩, ⟨⟨by decide, by decide⟩, trivial, trivial⟩,
      ⟨trivial, trivial, trivial, trivial⟩, trivial⟩

/-- A key of 256 bytes is left out, and no error is reported. -/
theorem longKey_notSurvives : ¬ Survives [(List.replicate 256 97, .voidVal)] := by
  intro survives
  have notRepresentable : ¬ Holds091 Representable091 (.tableVal [(List.replicate 256 97, .voidVal)]) := by
    intro representable
    have short := representable.1.1 (List.replicate 256 97) (List.mem_cons_self ..)
    rw [List.length_replicate] at short
    exact absurd short (by decide)
  exact Bool.noConfusion (survives.error notRepresentable)

end Tinox.Amqp

import Tinox.Amqp.Cursors

/-!
# How much a field table can hold

A field value takes at least the byte of its tag, and an entry of a table at least the byte of the
length of its key.  What a table holds is therefore bounded by what is left to the cursor, whatever
lengths are declared, and so is the number of rounds of the loops.
-/

namespace Tinox.Amqp

open Tinox.Net Tinox.Runtime

mutual

/-- The nodes of a field value. -/
def nodes091 : AmqpFieldValue091 → Nat
  | .tableVal t => 1 + entryNodes t
  | .arrayVal a => 1 + itemNodes a
  | _ => 1

def entryNodes : List (CString × AmqpFieldValue091) → Nat
  | [] => 0
  | entry :: t => nodesOfEntry entry + entryNodes t

def nodesOfEntry : CString × AmqpFieldValue091 → Nat
  | (_, value) => nodes091 value

def itemNodes : List AmqpFieldValue091 → Nat
  | [] => 0
  | value :: a => nodes091 value + itemNodes a

end

mutual

/-- The bytes of the strings of a field value, those of keys included. -/
def text091 : AmqpFieldValue091 → Nat
  | .strVal s => s.length
  | .tableVal t => entryText t
  | .arrayVal a => itemText a
  | _ => 0

def entryText : List (CString × AmqpFieldValue091) → Nat
  | [] => 0
  | entry :: t => textOfEntry entry + entryText t

def textOfEntry : CString × AmqpFieldValue091 → Nat
  | (key, value) => key.length + text091 value

def itemText : List AmqpFieldValue091 → Nat
  | [] => 0
  | value :: a => text091 value + itemText a

end

theorem nodes091_pos (v : AmqpFieldValue091) : 0 < nodes091 v := by
  cases v <;> simp [nodes091]

theorem itemNodes_concat (a : List AmqpFieldValue091) (value : AmqpFieldValue091) :
    itemNodes (a ++ [value]) = itemNodes a + nodes091 value := by
  induction a with
  | nil => simp [itemNodes]
  | cons first a ih => simp [itemNodes, ih, Nat.add_assoc]

theorem itemText_concat (a : List AmqpFieldValue091) (value : AmqpFieldValue091) :
    itemText (a ++ [value]) = itemText a + text091 value := by
  induction a with
  | nil => simp [itemText]
  | cons first a ih => simp [itemText, ih, Nat.add_assoc]

theorem entryNodes_concat (t : FieldTable091) (key : CString) (value : AmqpFieldValue091) :
    entryNodes (t ++ [(key, value)]) = entryNodes t + nodes091 value := by
  induction t with
  | nil => simp [entryNodes, nodesOfEntry]
  | cons first t ih => simp [entryNodes, ih, Nat.add_assoc]

theorem entryText_concat (t : FieldTable091) (key : CString) (value : AmqpFieldValue091) :
    entryText (t ++ [(key, value)]) = entryText t + (key.length + text091 value) := by
  induction t with
  | nil => simp [entryText, textOfEntry]
  | cons first t ih => simp [entryText, ih, Nat.add_assoc]

namespace AmqpReader091

theorem replace_other {t : FieldTable091} {key : CString} (isNew : key ∉ t.map Prod.fst)
    (value : AmqpFieldValue091) :
    (t.map fun entry => if entry.1 = key then (key, value) else entry) = t := by
  calc (t.map fun entry => if entry.1 = key then (key, value) else entry) = t.map id := by
        apply List.map_congr_left
        intro entry member
        rw [if_neg (fun same : entry.1 = key => isNew (same ▸ List.mem_map_of_mem member)), id]
    _ = t := List.map_id t

theorem insert_replaces {t : FieldTable091} {key : CString} (once : (t.map Prod.fst).Nodup)
    (value : AmqpFieldValue091) :
    let replaced := t.map fun entry => if entry.1 = key then (key, value) else entry
    replaced.map Prod.fst = t.map Prod.fst ∧
      entryNodes replaced ≤ entryNodes t + nodes091 value ∧
      entryText replaced ≤ entryText t + (key.length + text091 value) := by
  induction t with
  | nil => exact ⟨rfl, Nat.zero_le _, Nat.zero_le _⟩
  | cons entry t ih =>
      rcases entry with ⟨first, other⟩
      rw [List.map_cons, List.nodup_cons] at once
      rcases ih once.2 with ⟨keys, fewNodes, short⟩
      dsimp only at keys fewNodes short ⊢
      rw [List.map_cons]
      by_cases same : first = key
      · subst same
        rw [if_pos rfl, replace_other once.1]
        refine ⟨rfl, ?_, ?_⟩
        · rw [entryNodes, entryNodes, nodesOfEntry, nodesOfEntry]
          omega
        · rw [entryText, entryText, textOfEntry, textOfEntry]
          omega
      · rw [if_neg same]
        refine ⟨?_, ?_, ?_⟩
        · rw [List.map_cons, List.map_cons, keys]
        · rw [entryNodes, entryNodes]
          omega
        · rw [entryText, entryText]
          omega

theorem insert_bound {t : FieldTable091} (once : (t.map Prod.fst).Nodup) (key : CString)
    (value : AmqpFieldValue091) :
    ((insert t key value).map Prod.fst).Nodup ∧
      entryNodes (insert t key value) ≤ entryNodes t + nodes091 value ∧
      entryText (insert t key value) ≤ entryText t + (key.length + text091 value) := by
  rw [insert]
  split
  · rcases @insert_replaces t key once value with ⟨keys, fewNodes, short⟩
    exact ⟨keys ▸ once, fewNodes, short⟩
  · rename_i isNew
    have notThere : key ∉ t.map Prod.fst := by
      intro member
      rcases List.mem_map.mp member with ⟨entry, isEntry, same⟩
      exact isNew (List.any_eq_true.mpr ⟨entry, isEntry, decide_eq_true same⟩)
    refine ⟨?_, Nat.le_of_eq (entryNodes_concat t key value), Nat.le_of_eq (entryText_concat t key value)⟩
    rw [List.map_append, List.map_singleton, List.nodup_append]
    refine ⟨once, List.nodup_singleton _, ?_⟩
    intro first isFirst second isSecond same
    rw [List.mem_singleton] at isSecond
    rw [same, isSecond] at isFirst
    exact notThere isFirst

/-- A field value is read, and what the cursor loses pays for it. -/
def ValueRead (fuel : Nat) (r : Reader) : Prop :=
  ∃ v count, fieldValue fuel r = some (v, advance count r) ∧
    nodes091 v + left (advance count r) ≤ max 1 (left r) ∧
    text091 v + left (advance count r) ≤ left r

/-- The entries of a table are read, and what the cursor loses pays for those that are new. -/
def TableRead (fuel : Nat) (r : Reader) : Prop :=
  ∀ (endPos : Nat) (result : FieldTable091), (result.map Prod.fst).Nodup →
    ∃ t count, tableLoop fuel endPos result r = some (t, advance count r) ∧
      entryNodes t + left (advance count r) ≤ entryNodes result + left r ∧
      entryText t + left (advance count r) ≤ entryText result + left r

/-- The values of an array are read, and what the cursor loses pays for those that are new. -/
def ArrayRead (fuel : Nat) (r : Reader) : Prop :=
  ∀ (endPos : Nat) (result : List AmqpFieldValue091),
    ∃ a count, arrayLoop fuel endPos result r = some (a, advance count r) ∧
      itemNodes a + left (advance count r) ≤ itemNodes result + left r ∧
      itemText a + left (advance count r) ≤ itemText result + left r

theorem shortstr_bound (r : Reader) :
    ∃ count, (shortstr r).2 = advance (count + 1) r ∧
      (shortstr r).1.length + left (shortstr r).2 ≤ left r - 1 := by
  have isShort := length_rawStr_le (octet r).1 (octet r).2
  have isLeft : left (octet r).2 = left r - 1 := left_readByte r
  rw [isLeft] at isShort
  exact ⟨(octet r).1.toInt.toNat, rawStr_advance _ _, isShort⟩

theorem longstr_bound (r : Reader) :
    ∃ count, (longstr r).2 = advance (4 + count) r ∧
      (longstr r).1.length + left (longstr r).2 ≤ left r := by
  have isShort := length_rawStr_le (long r).1 (long r).2
  have isRest : (long r).2 = advance 4 r := readNumber_advance 4 0 r
  have isLeft := left_advance 4 r
  rw [isRest] at isShort
  rw [longstr, isRest]
  refine ⟨(long r).1.toInt.toNat, ?_, by omega⟩
  rw [rawStr_advance, advance_add]

theorem valueRead_flat {fuel count : Nat} {r : Reader} {v : AmqpFieldValue091}
    (isRead : fieldValue fuel r = some (v, advance count (octet r).2)) (isFlat : nodes091 v = 1)
    (isShort : text091 v + left (advance count (octet r).2) ≤ left (octet r).2) : ValueRead fuel r := by
  have isLeft : left (octet r).2 = left r - 1 := left_readByte r
  have isRest := left_advance count (octet r).2
  refine ⟨v, count + 1, isRead, ?_, ?_⟩
  · rw [isFlat, advance]
    change 1 + left (advance count (octet r).2) ≤ _
    omega
  · rw [advance]
    change text091 v + left (advance count (octet r).2) ≤ _
    omega

theorem valueRead_number {fuel width : Nat} {r : Reader} {v : AmqpFieldValue091} {rest : Reader}
    (isRead : fieldValue fuel r = some (v, rest)) (isRest : rest = advance width (octet r).2)
    (isFlat : nodes091 v = 1) (noText : text091 v = 0) : ValueRead fuel r := by
  subst isRest
  have isLeft := left_advance width (octet r).2
  exact valueRead_flat isRead isFlat (by omega)

theorem valueRead_parts {fuel count : Nat} {r : Reader} {v : AmqpFieldValue091} {parts text : Nat}
    (isRead : fieldValue fuel r = some (v, advance count (long (octet r).2).2))
    (isNodes : nodes091 v = 1 + parts) (isText : text091 v = text)
    (fewParts : parts + left (advance count (long (octet r).2).2) ≤ left (long (octet r).2).2)
    (isShort : text + left (advance count (long (octet r).2).2) ≤ left (long (octet r).2).2) :
    ValueRead fuel r := by
  have isLong : (long (octet r).2).2 = advance 5 r := readNumber_advance 4 0 _
  have isLeft := left_advance 5 r
  have isRest : advance count (long (octet r).2).2 = advance (5 + count) r := by
    rw [isLong, advance_add]
  rw [isRest, isLong] at fewParts isShort
  refine ⟨v, 5 + count, isRest ▸ isRead, ?_, ?_⟩ <;> omega

theorem valueRead_succ {fuel : Nat} (tables : ∀ r, 2 * left r + 1 ≤ fuel → TableRead fuel r)
    (arrays : ∀ r, 2 * left r + 1 ≤ fuel → ArrayRead fuel r) {r : Reader}
    (enough : max 2 (2 * left r) ≤ fuel + 1) : ValueRead (fuel + 1) r := by
  have isLong : (long (octet r).2).2 = advance 5 r := readNumber_advance 4 0 _
  have longLeft : left (long (octet r).2).2 = left r - 5 := by rw [isLong, left_advance]
  have inner : 2 * left (long (octet r).2).2 + 1 ≤ fuel := by omega
  have isFour : (longSigned (octet r).2).2 = advance 4 (octet r).2 := readNumber_advance 4 0 _
  have isEight : (longlong (octet r).2).2 = advance 8 (octet r).2 := readNumber_advance 8 0 _
  have unfolded := fieldValue.eq_2 r fuel
  split at unfolded
  · exact @valueRead_number _ 1 _ _ _ unfolded rfl rfl rfl
  split at unfolded
  · exact valueRead_number unfolded isFour rfl rfl
  split at unfolded
  · exact valueRead_number unfolded isEight rfl rfl
  split at unfolded
  · rcases longstr_bound (octet r).2 with ⟨count, isRest, isShort⟩
    rw [isRest] at isShort unfolded
    exact valueRead_flat unfolded rfl isShort
  split at unfolded
  · exact valueRead_number unfolded isEight rfl rfl
  split at unfolded
  · rcases tables _ inner _ [] List.nodup_nil with ⟨t, count, isRead, fewNodes, isShort⟩
    rw [isRead, Option.map_some] at unfolded
    rw [entryNodes, Nat.zero_add] at fewNodes
    rw [entryText, Nat.zero_add] at isShort
    exact valueRead_parts unfolded rfl rfl fewNodes isShort
  split at unfolded
  · rcases arrays _ inner _ [] with ⟨a, count, isRead, fewNodes, isShort⟩
    rw [isRead, Option.map_some] at unfolded
    rw [itemNodes, Nat.zero_add] at fewNodes
    rw [itemText, Nat.zero_add] at isShort
    exact valueRead_parts unfolded rfl rfl fewNodes isShort
  split at unfolded
  all_goals exact @valueRead_number _ 0 _ _ _ unfolded rfl rfl rfl

theorem tableRead_succ {fuel : Nat} (values : ∀ r, max 2 (2 * left r) ≤ fuel → ValueRead fuel r)
    (tables : ∀ r, 2 * left r + 1 ≤ fuel → TableRead fuel r) {r : Reader}
    (enough : 2 * left r + 1 ≤ fuel + 1) : TableRead (fuel + 1) r := by
  intro endPos result once
  have isNow : ∃ t count, some (result, r) = some (t, advance count r) ∧
      entryNodes t + left (advance count r) ≤ entryNodes result + left r ∧
      entryText t + left (advance count r) ≤ entryText result + left r :=
    ⟨result, 0, rfl, Nat.le_refl _, Nat.le_refl _⟩
  rw [tableLoop]
  split
  · split
    · exact isNow
    · rename_i goesOn
      have positive := left_pos goesOn
      rcases shortstr_bound r with ⟨count, isKey, keyShort⟩
      have keyLeft := left_advance (count + 1) r
      rw [isKey] at keyShort ⊢
      rcases values (advance (count + 1) r) (by omega) with
        ⟨v, more, isValue, valueNodes, valueShort⟩
      rcases insert_bound once (shortstr r).1 v with ⟨onceMore, fewNodes, isShort⟩
      rw [isValue, Option.bind_some]
      dsimp only
      rw [← advance_add] at valueNodes valueShort ⊢
      have valueLeft := left_advance (count + 1 + more) r
      rcases tables (advance (count + 1 + more) r) (by omega) endPos _ onceMore with
        ⟨t, last, isRead, restNodes, restShort⟩
      rw [← advance_add] at isRead restNodes restShort
      exact ⟨t, _, isRead, by omega, by omega⟩
  · exact isNow

theorem arrayRead_succ {fuel : Nat} (values : ∀ r, max 2 (2 * left r) ≤ fuel → ValueRead fuel r)
    (arrays : ∀ r, 2 * left r + 1 ≤ fuel → ArrayRead fuel r) {r : Reader}
    (enough : 2 * left r + 1 ≤ fuel + 1) : ArrayRead (fuel + 1) r := by
  intro endPos result
  have isNow : ∃ a count, some (result, r) = some (a, advance count r) ∧
      itemNodes a + left (advance count r) ≤ itemNodes result + left r ∧
      itemText a + left (advance count r) ≤ itemText result + left r :=
    ⟨result, 0, rfl, Nat.le_refl _, Nat.le_refl _⟩
  rw [arrayLoop]
  split
  · split
    · exact isNow
    · rename_i goesOn
      have positive := left_pos goesOn
      rcases values r (by omega) with ⟨v, count, isValue, valueNodes, valueShort⟩
      have valuePositive : 0 < nodes091 v := nodes091_pos v
      rw [isValue, Option.bind_some]
      dsimp only
      rcases arrays (advance count r) (by omega) endPos (result ++ [v]) with
        ⟨a, last, isRead, restNodes, restShort⟩
      rw [← advance_add] at isRead restNodes restShort
      rw [itemNodes_concat] at restNodes
      rw [itemText_concat] at restShort
      exact ⟨a, _, isRead, by omega, by omega⟩
  · exact isNow

/-- All three loops return with fuel for what is left, and stay within it. -/
theorem reads (fuel : Nat) :
    (∀ r, max 2 (2 * left r) ≤ fuel → ValueRead fuel r) ∧
      (∀ r, 2 * left r + 1 ≤ fuel → TableRead fuel r) ∧
      (∀ r, 2 * left r + 1 ≤ fuel → ArrayRead fuel r) := by
  induction fuel with
  | zero =>
      refine ⟨?_, ?_, ?_⟩ <;> intro r enough <;> omega
  | succ fuel ih =>
      rcases ih with ⟨values, tables, arrays⟩
      exact ⟨fun r => valueRead_succ tables arrays, fun r => tableRead_succ values tables,
        fun r => arrayRead_succ values arrays⟩

theorem fieldTable_bound (r : Reader) {fuel : Nat} (enough : 2 * left r + 1 ≤ fuel) :
    ∃ t count, fieldTable fuel r = some (t, advance count r) ∧
      nodes091 (.tableVal t) + left (advance count r) ≤ 1 + (left r - 4) ∧
      text091 (.tableVal t) + left (advance count r) ≤ left r := by
  have isLong : (long r).2 = advance 4 r := readNumber_advance 4 0 r
  have isLeft := left_advance 4 r
  rcases (reads fuel).2.1 (advance 4 r) (by omega) (_ + (long r).1.toInt.toNat) [] List.nodup_nil with
    ⟨t, count, isRead, fewNodes, isShort⟩
  rw [← advance_add, entryNodes] at fewNodes
  rw [← advance_add, entryText] at isShort
  rw [← advance_add] at isRead
  refine ⟨t, 4 + count, ?_, ?_, ?_⟩
  · rw [fieldTable, isLong]
    exact isRead
  · rw [nodes091]
    omega
  · rw [text091]
    omega

end AmqpReader091

end Tinox.Amqp

import Tinox.Amqp.Channel091

/-!
# Cut off deliveries and confirms of AMQP 0-9-1

`AmqpReader091` goes on where the bytes end, with zeros and a flag, and where the tag of a field value
is unknown, with a marker.  Neither `nextMessage` nor `waitForConfirm` looks at the one or the other.
-/

namespace Tinox.Amqp

open Tinox.Net Tinox.Runtime

namespace AmqpReader091

/-- The tags that `fieldValue` knows. -/
def knownTags : List Int64 :=
  [116, 73, 76, 83, 84, 70, 65, 86]

mutual

/-- Every tag that is read of a field value, at any depth, is known. -/
def KnownValue : Nat → Reader → Prop
  | 0, _ => True
  | fuel + 1, r =>
      let inner := long (octet r).2
      let endPos := inner.2.pos + inner.1.toInt.toNat
      (octet r).1 ∈ knownTags ∧
        ((octet r).1 = 70 → KnownTable fuel endPos inner.2) ∧
        ((octet r).1 = 65 → KnownArray fuel endPos inner.2)

/-- The same for the values that the loop of `fieldTable` reads. -/
def KnownTable : Nat → Nat → Reader → Prop
  | 0, _, _ => True
  | fuel + 1, endPos, r =>
      r.pos < endPos → ¬ r.truncated →
        KnownValue fuel (shortstr r).2 ∧
          ∀ value, fieldValue fuel (shortstr r).2 = some value → KnownTable fuel endPos value.2

/-- The same for the loop of `fieldArray`. -/
def KnownArray : Nat → Nat → Reader → Prop
  | 0, _, _ => True
  | fuel + 1, endPos, r =>
      r.pos < endPos → ¬ r.truncated →
        KnownValue fuel r ∧ ∀ value, fieldValue fuel r = some value → KnownArray fuel endPos value.2

end

end AmqpReader091

namespace Channels

open Dispatch AmqpReader091

/-- The cursor of `decodeMethodPayload` behind the class and the method. -/
def methodCursor (payload : List Int64) : Reader :=
  (short (short (.new payload)).2).2

/-- A reader runs past the end of a `basic.deliver`. -/
def CutOffDeliver (payload : List Int64) : Prop :=
  (methodCursor payload).truncated = true ∨
    (readDeliver (decodeMethodPayload payload).args).reader.truncated = true

/-- The property flags of a content header, and the cursor where its table of headers would be. -/
def headersCursor (payload : List Int64) : Int64 × Reader :=
  let flags := short (longlong (methodCursor payload)).2
  let contentType :=
    if flags.1 &&& 32768 ≠ 0 then AmqpReader091.shortstr flags.2 else ([], flags.2)
  (flags.1, skip flags.1 16384 (fun r => (AmqpReader091.longstr r).2) contentType.2)

/-- The tags in the headers of a message are known. -/
def KnownHeaders (payload : List Int64) : Prop :=
  (headersCursor payload).1 &&& 8192 ≠ 0 →
    let r := (headersCursor payload).2
    KnownTable (2 * left r + 1) ((long r).2.pos + (long r).1.toInt.toNat) (long r).2

/-- The reader runs past the end of a content header, or meets an unknown tag in it. -/
def GarbledHeader (payload : List Int64) : Prop :=
  (readHeader payload).reader.truncated = true ∨ ¬ KnownHeaders payload

/-- That of the frames of a delivery. -/
def GarbledDelivery : List AmqpFrame091 → Prop
  | [] => False
  | [f1] => CutOffDeliver f1.payload
  | f1 :: f2 :: _ => CutOffDeliver f1.payload ∨ GarbledHeader f2.payload

/-- A reader runs past the end of a confirm. -/
def CutOffConfirm (payload : List Int64) : Prop :=
  (methodCursor payload).truncated = true ∨
    (octet (longlong (.new (decodeMethodPayload payload).args)).2).2.truncated = true

/-- What is wanted of `nextMessage`. -/
def RefusesDelivery (c : AmqpChannel091) (inbox : List AmqpFrame091) : Prop :=
  GarbledDelivery inbox → ∀ received, nextMessage c inbox = some received → received.result.ok = false

/-- What is wanted of `waitForConfirm`. -/
def RefusesConfirm (c : AmqpChannel091) (f : AmqpFrame091) (inbox : List AmqpFrame091) : Prop :=
  CutOffConfirm f.payload →
    ∀ received, waitForConfirm c (f :: inbox) = some received → received.result.ok = false

theorem methodCursor_eq (payload : List Int64) : methodCursor payload = advance 4 (.new payload) :=
  rfl

theorem methodId_cutOff {payload : List Int64} (isShort : payload.length < 4) :
    bits (decodeMethodPayload payload).methodId % 256 = 0 := by
  have isShift : ((8 : Int64).toBitVec.smod 64).toNat = 8 := by decide
  have isLow (hi : Int64) : bits ((hi <<< 8) ||| 0) % 256 = 0 := by
    rw [Int64.or_zero, bits, Int64.toBitVec_shiftLeft, BitVec.shiftLeft_eq', BitVec.toNat_shiftLeft,
      isShift, Nat.shiftLeft_eq]
    omega
  rcases payload with _ | ⟨_, _ | ⟨_, _ | ⟨hi, _ | ⟨_, rest⟩⟩⟩⟩
  · exact isLow 0
  · exact isLow 0
  · exact isLow 0
  · exact isLow hi
  · simp only [List.length_cons] at isShort
    omega

/-- A method whose id does not end in a zero byte has been read as a whole. -/
theorem length_args {payload : List Int64} (isWhole : bits (decodeMethodPayload payload).methodId % 256 ≠ 0) :
    (methodCursor payload).truncated = false ∧
      (decodeMethodPayload payload).args.length + 4 = payload.length := by
  have isLong : ¬ payload.length < 4 := mt methodId_cutOff isWhole
  have inside : (methodCursor payload).truncated = false := by
    rw [← Bool.not_eq_true, methodCursor_eq, truncated_advance_iff rfl]
    exact isLong
  have isLength : (decodeMethodPayload payload).args.length = (methodCursor payload).bytes.length := by
    rw [decodeMethodPayload, octets_eq, List.length_append, List.length_take, List.length_replicate]
    rw [Nat.min_self, Nat.sub_self]
    rfl
  have isRest : (methodCursor payload).bytes.length + 4 = payload.length :=
    @length_advance (.new payload) rfl 4 inside
  exact ⟨inside, isLength ▸ isRest⟩

/-- A frame that `waitForConfirm` takes for a confirm. -/
def Confirms (f : AmqpFrame091) : Prop :=
  let mf := decodeMethodPayload f.payload
  f.frameType = 1 ∧ mf.classId = 60 ∧ (mf.methodId = 80 ∨ mf.methodId = 120)

theorem waitForConfirm_ok_iff (c : AmqpChannel091) (f : AmqpFrame091) (inbox : List AmqpFrame091) :
    (∃ received, waitForConfirm c (f :: inbox) = some received ∧ received.result.ok = true) ↔
      Confirms f := by
  rw [waitForConfirm, Confirms]
  dsimp only
  split
  · grind
  · split
    · grind
    · split <;> grind

/-- A confirm that is cut off is one with fewer bytes than class, method, tag and flags have. -/
theorem cutOffConfirm_iff {f : AmqpFrame091} (isConfirm : Confirms f) :
    CutOffConfirm f.payload ↔ f.payload.length < 13 := by
  have isWhole : bits (decodeMethodPayload f.payload).methodId % 256 ≠ 0 := by
    rcases isConfirm.2.2 with isAck | isNack
    · rw [isAck]
      decide
    · rw [isNack]
      decide
  rcases length_args isWhole with ⟨inside, isLength⟩
  have isRead : (octet (longlong (.new (decodeMethodPayload f.payload).args)).2).2 =
      advance 9 (.new (decodeMethodPayload f.payload).args) := rfl
  rw [CutOffConfirm, inside, isRead, truncated_advance_iff rfl]
  change false = true ∨ (decodeMethodPayload f.payload).args.length < 9 ↔ _
  constructor
  · rintro (isSet | isShort)
    · exact nomatch isSet
    · omega
  · exact fun isShort => .inr (by omega)

theorem refusesConfirm_iff (c : AmqpChannel091) (f : AmqpFrame091) (inbox : List AmqpFrame091) :
    RefusesConfirm c f inbox ↔ ¬ (Confirms f ∧ f.payload.length < 13) := by
  have isOk := waitForConfirm_ok_iff c f inbox
  constructor
  · rintro refuses ⟨isConfirm, isShort⟩
    rcases isOk.mpr isConfirm with ⟨received, isReceived, succeeds⟩
    have fails := refuses ((cutOffConfirm_iff isConfirm).mpr isShort) received isReceived
    exact nomatch fails.symm.trans succeeds
  · intro holds isCutOff received isReceived
    by_contra succeeds
    have isConfirm := isOk.mp ⟨received, isReceived, Bool.eq_true_of_not_eq_false succeeds⟩
    exact holds ⟨isConfirm, (cutOffConfirm_iff isConfirm).mp isCutOff⟩

/-- The body frames that come next carry as many bytes as the header says. -/
def BodyArrives (bodySize : Int64) (body : List Int64) (inbox : List AmqpFrame091) : Prop :=
  ∃ n ≤ inbox.length, (∀ f ∈ inbox.take n, f.frameType = 3) ∧
    ¬ Int64.ofNat (body ++ (inbox.take n).flatMap (·.payload)).length < bodySize

theorem collect_ok_iff (bodySize : Int64) (body : List Int64) (inbox : List AmqpFrame091) :
    (∃ whole later, collect bodySize body inbox = some (.ok whole, later)) ↔
      BodyArrives bodySize body inbox := by
  induction inbox generalizing body with
  | nil =>
      rw [collect]
      split
      next goesOn =>
        refine ⟨nofun, ?_⟩
        rintro ⟨n, _, _, isWhole⟩
        rw [List.take_nil, List.flatMap_nil, List.append_nil] at isWhole
        exact absurd goesOn isWhole
      next isWhole => exact ⟨fun _ => ⟨0, Nat.le_refl 0, nofun, by simpa using isWhole⟩, fun _ => ⟨body, [], rfl⟩⟩
  | cons f3 inbox ih =>
      rw [collect]
      split
      next goesOn =>
        split
        next isOther =>
          refine ⟨nofun, ?_⟩
          rintro ⟨n, _, areBody, isWhole⟩
          cases n with
          | zero => exact absurd goesOn (by simpa using isWhole)
          | succ n => exact absurd (areBody f3 List.mem_cons_self) isOther
        next isBody =>
          rw [ih]
          constructor
          · rintro ⟨n, isInside, areBody, isWhole⟩
            refine ⟨n + 1, Nat.succ_le_succ isInside, ?_, ?_⟩
            · rw [List.take_succ_cons, List.forall_mem_cons]
              exact ⟨not_not.mp isBody, areBody⟩
            · rwa [List.take_succ_cons, List.flatMap_cons, ← List.append_assoc]
          · rintro ⟨n, isInside, areBody, isWhole⟩
            cases n with
            | zero => exact absurd goesOn (by simpa using isWhole)
            | succ n =>
                rw [List.take_succ_cons, List.forall_mem_cons] at areBody
                rw [List.take_succ_cons, List.flatMap_cons, ← List.append_assoc] at isWhole
                exact ⟨n, Nat.le_of_succ_le_succ isInside, areBody.2, isWhole⟩
      next isWhole =>
        exact ⟨fun _ => ⟨0, Nat.zero_le _, nofun, by simpa using isWhole⟩,
          fun _ => ⟨body, f3 :: inbox, rfl⟩⟩

/-- Frames that `nextMessage` takes for a delivery. -/
def Delivers : List AmqpFrame091 → Prop
  | f1 :: f2 :: inbox =>
      let mf := decodeMethodPayload f1.payload
      f1.frameType = 1 ∧ mf.classId = 60 ∧ mf.methodId = 60 ∧ f2.frameType = 2 ∧
        BodyArrives (readHeader f2.payload).bodySize [] inbox
  | _ => False

theorem nextMessage_ok_iff (c : AmqpChannel091) (inbox : List AmqpFrame091) :
    (∃ received, nextMessage c inbox = some received ∧ received.result.ok = true) ↔ Delivers inbox := by
  have notFailed {result : AmqpMessage091} {later : List AmqpFrame091} {written : List (List Int64)}
      (fails : result.ok = false) :
      ¬ ∃ received, some (Received.mk result later written) = some received ∧
        received.result.ok = true := by
    rintro ⟨received, isReceived, succeeds⟩
    rw [← Option.some.inj isReceived, fails] at succeeds
    exact nomatch succeeds
  cases inbox with
  | nil => exact ⟨nofun, False.elim⟩
  | cons f1 inbox =>
      rw [nextMessage]
      dsimp only
      split
      next isOther =>
        refine iff_of_false (notFailed rfl) ?_
        cases inbox <;> simp [Delivers, isOther]
      next isMethod =>
        split
        next isClose =>
          refine iff_of_false (notFailed rfl) ?_
          cases inbox <;> simp [Delivers, isClose.1]
        next notClose =>
          split
          next isOther =>
            refine iff_of_false (notFailed rfl) ?_
            cases inbox with
            | nil => exact id
            | cons f2 inbox => exact fun delivers => isOther.elim (· delivers.2.1) (· delivers.2.2.1)
          next isDeliver =>
            rw [not_or, not_not, not_not] at isDeliver
            cases inbox with
            | nil => exact ⟨nofun, False.elim⟩
            | cons f2 inbox =>
                dsimp only
                split
                next isOther => exact iff_of_false (notFailed rfl) fun delivers => isOther delivers.2.2.2.1
                next isHeader =>
                  have isArrival : Delivers (f1 :: f2 :: inbox) ↔
                      BodyArrives (readHeader f2.payload).bodySize [] inbox :=
                    ⟨fun delivers => delivers.2.2.2.2, fun arrives => ⟨not_not.mp isMethod, isDeliver.1,
                      isDeliver.2, not_not.mp isHeader, arrives⟩⟩
                  rw [isArrival, ← collect_ok_iff]
                  constructor
                  · rintro ⟨received, isReceived, succeeds⟩
                    rcases Option.map_eq_some_iff.mp isReceived with ⟨⟨outcome, later⟩, isCollected, rfl⟩
                    cases outcome with
                    | error msg => exact nomatch succeeds
                    | ok body => exact ⟨body, later, isCollected⟩
                  · rintro ⟨body, later, isCollected⟩
                    rw [isCollected]
                    exact ⟨_, rfl, rfl⟩

/-- A delivery that is cut off or has an unknown tag is refused unless its frames pass for those of a
delivery. -/
theorem refusesDelivery_iff (c : AmqpChannel091) (inbox : List AmqpFrame091) :
    RefusesDelivery c inbox ↔ ¬ (Delivers inbox ∧ GarbledDelivery inbox) := by
  have isOk := nextMessage_ok_iff c inbox
  constructor
  · rintro refuses ⟨delivers, isGarbled⟩
    rcases isOk.mpr delivers with ⟨received, isReceived, succeeds⟩
    exact nomatch (refuses isGarbled received isReceived).symm.trans succeeds
  · intro holds isGarbled received isReceived
    by_contra succeeds
    exact holds ⟨isOk.mp ⟨received, isReceived, Bool.eq_true_of_not_eq_false succeeds⟩, isGarbled⟩

end Channels

end Tinox.Amqp

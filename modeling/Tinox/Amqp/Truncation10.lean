import Tinox.Amqp.Messages10
import Tinox.Amqp.Truncation091

/-!
# Cut off transfers of AMQP 1.0

`Amqp10Reader` goes on where the bytes end and where a format code is unknown.  A transfer that ends
in its performative has no sections and is refused; one that ends in a section is not.
-/

namespace Tinox.Amqp

open Tinox.Net Tinox.Runtime

namespace Amqp10Reader

/-- The codes of lists and arrays. -/
def listCodes : List Int64 :=
  [0x45, 0xc0, 0xd0, 0xe0, 0xf0]

/-- A value that is read as a list. -/
def isList : Amqp10Value → Bool
  | .listVal _ => true
  | _ => false

/-- A value that is read as a described one. -/
def isDescribed : Amqp10Value → Bool
  | .describedVal _ _ => true
  | _ => false

/-- The number that a descriptor stands for. -/
def numberOf : Amqp10Value → Option Int64
  | .uByteVal n | .uShortVal n | .uIntVal n | .uLongVal n => some n
  | _ => none

theorem readDescribed_iff (readItem : Reader → Option (Amqp10Value × Reader)) (r : Reader) (n : Int64)
    (value : Amqp10Value) :
    (∃ rest, readDescribed readItem r = some (.describedVal n value, rest)) ↔
      ∃ desc, readItem r = some desc ∧ numberOf desc.1 = some n ∧
        ∃ rest, readItem desc.2 = some (value, rest) := by
  rw [readDescribed]
  cases readItem r with
  | none => simp
  | some desc =>
      rcases desc with ⟨descVal, behind⟩
      cases isInner : readItem behind with
      | none => simp [isInner]
      | some inner =>
          rcases inner with ⟨innerVal, rest⟩
          cases descVal <;> simp [isInner, numberOf]

theorem readDescribed_kind {readItem : Reader → Option (Amqp10Value × Reader)} {r : Reader}
    {v : Amqp10Value × Reader} (isRead : readDescribed readItem r = some v) :
    isList v.1 = false ∧ numberOf v.1 = none := by
  rcases Option.bind_eq_some_iff.mp isRead with ⟨⟨descVal, behind⟩, _, isInner⟩
  rcases Option.map_eq_some_iff.mp isInner with ⟨inner, _, isValue⟩
  subst isValue
  cases descVal <;> exact ⟨rfl, rfl⟩

/-- What a code says of the value behind it. -/
inductive Kind (code : Int64) (r : Reader) : Shape → Prop where
  | flat {v : Amqp10Value} {rest : Reader} : isDescribed v = false →
      (isList v = true ↔ ¬ r.truncated ∧ code ∈ listCodes) → Kind code r (.flat v rest)
  | list {count : Nat} {rest : Reader} : ¬ r.truncated → code ∈ listCodes →
      Kind code r (.items .listVal count rest)
  | map {count : Nat} {rest : Reader} : code ∉ listCodes → Kind code r (.items .mapVal count rest)
  | elements {element : Int64} {count : Nat} {rest : Reader} : ¬ r.truncated → code ∈ listCodes →
      Kind code r (.elements element count rest)
  | described : ¬ r.truncated → code = 0 → Kind code r (.described r)

section Kind

variable {code : Int64} {r : Reader}

theorem kind_ite {c : Prop} [Decidable c] {yes no : Shape} (isYes : c → Kind code r yes)
    (isNo : ¬ c → Kind code r no) : Kind code r (if c then yes else no) := by
  split
  next holds => exact isYes holds
  next fails => exact isNo fails

theorem kind_flat {c : Int64} (goesOn : ¬ r.truncated) (isCode : code = c) {v : Amqp10Value}
    {rest : Reader} (notDescribed : isDescribed v = false) (tells : isList v = decide (c ∈ listCodes)) :
    Kind code r (.flat v rest) := by
  refine .flat notDescribed ?_
  rw [tells, decide_eq_true_iff, isCode]
  exact (and_iff_right goesOn).symm

theorem kind_shape (code : Int64) (r : Reader) : Kind code r (shape code r) := by
  rw [shape]
  dsimp only
  have noList {P : Prop} (isTrue : false = true) : P := absurd isTrue Bool.false_ne_true
  refine kind_ite (fun truncated => .flat rfl ⟨noList, fun both => absurd truncated both.1⟩) fun goesOn => ?_
  iterate 28
    refine kind_ite (fun isCode => kind_flat goesOn isCode rfl rfl) fun _ => ?_
  iterate 2
    refine kind_ite (fun isCode => .list goesOn (isCode ▸ by decide)) fun _ => ?_
  iterate 2
    refine kind_ite (fun isCode => .map (isCode ▸ by decide)) fun _ => ?_
  iterate 2
    refine kind_ite (fun isCode => .elements goesOn (isCode ▸ by decide)) fun _ => ?_
  refine kind_ite (fun isCode => .described goesOn isCode) fun _ => ?_
  iterate 5
    refine kind_ite (fun isCode => kind_flat goesOn isCode rfl rfl) fun _ => ?_
  refine .flat rfl ⟨noList, fun both => ?_⟩
  simp [listCodes, *] at both

end Kind

section Reads

variable {fuel : Nat} {code : Int64} {r : Reader} {v : Amqp10Value × Reader}

theorem isList_iff (isRead : readValueOfCode (fuel + 1) code r = some v) :
    isList v.1 = true ↔ ¬ r.truncated ∧ code ∈ listCodes := by
  have kind := kind_shape code r
  rw [readValueOfCode_succ] at isRead
  generalize shape code r = s at isRead kind
  cases kind with
  | flat _ tells =>
      cases isRead
      exact tells
  | list goesOn isCode | elements goesOn isCode =>
      rcases Option.map_eq_some_iff.mp isRead with ⟨items, _, rfl⟩
      exact ⟨fun _ => ⟨goesOn, isCode⟩, fun _ => rfl⟩
  | map isOther =>
      rcases Option.map_eq_some_iff.mp isRead with ⟨items, _, rfl⟩
      exact ⟨nofun, fun both => absurd both.2 isOther⟩
  | described goesOn isCode =>
      rw [(readDescribed_kind isRead).1]
      exact ⟨nofun, fun both => absurd both.2 (isCode ▸ by decide)⟩

theorem shape_zero (goesOn : ¬ r.truncated) : shape 0 r = .described r := by
  rw [shape]
  dsimp only
  rw [if_neg goesOn]
  rfl

theorem shape_of_described (isRead : readValueOfCode (fuel + 1) code r = some v)
    (described : isDescribed v.1 = true) : ¬ r.truncated ∧ code = 0 := by
  have kind := kind_shape code r
  rw [readValueOfCode_succ] at isRead
  generalize shape code r = s at isRead kind
  cases kind with
  | flat notDescribed =>
      cases isRead
      exact nomatch notDescribed.symm.trans described
  | list | map | elements =>
      rcases Option.map_eq_some_iff.mp isRead with ⟨items, _, rfl⟩
      exact nomatch described
  | described goesOn isCode => exact ⟨goesOn, isCode⟩

theorem shape_of_number (isRead : readValueOfCode (fuel + 1) code r = some v) {n : Int64}
    (isNumber : numberOf v.1 = some n) : shape code r = .flat v.1 v.2 := by
  have kind := kind_shape code r
  rw [readValueOfCode_succ] at isRead
  generalize shape code r = s at isRead kind
  cases kind with
  | flat =>
      cases isRead
      rfl
  | list | map | elements =>
      rcases Option.map_eq_some_iff.mp isRead with ⟨items, _, rfl⟩
      exact nomatch isNumber
  | described =>
      rw [(readDescribed_kind isRead).2] at isNumber
      exact nomatch isNumber

end Reads

end Amqp10Reader

namespace Links

open Amqp10Reader

/-- Every format code that is read of a value, at any depth, is known. -/
def KnownCodes (r : Reader) : Prop :=
  Throughout (fun _ code _ => code ∈ emptyCodes ∨ code ∈ filledCodes) (left r + 1) false (readU8 r).1
    (readU8 r).2

/-- The reader runs past the end of the bytes or meets an unknown format code. -/
def Garbled (r : Reader) : Prop :=
  (readNext r).2.truncated = true ∨ ¬ KnownCodes r

/-- `Amqp10::decodePerformative` with fuel for what is left. -/
def decoded (body : List Int64) : Amqp10Performative :=
  (decodePerformative (left (.new body) + 1) body).getD ⟨-1, []⟩

/-- The bytes begin with a list that is described by a number. -/
def DescribesList (body : List Int64) (n : Int64) : Prop :=
  let top := readU8 (.new body)
  let code := readU8 top.2
  ¬ top.2.truncated ∧ top.1 = 0 ∧
    ∃ v rest, shape code.1 code.2 = .flat v rest ∧ numberOf v = some n ∧
      ¬ (readU8 rest).2.truncated ∧ (readU8 rest).1 ∈ listCodes

theorem readValue_reads {fuel : Nat} {r : Reader} (enough : left r ≤ fuel) (positive : 0 < fuel) :
    ∃ v count, readValue fuel r = some (v, advance count r) := by
  have isLeft : left (readU8 r).2 = left r - 1 := left_readByte r
  rcases codeRead fuel false (readU8 r).1 (readU8 r).2 (by omega) with ⟨v, count, isRead, _⟩
  exact ⟨v, count + 1, isRead⟩

theorem readNext_eq (r : Reader) :
    ∃ count, readValue (left r + 1) r = some (readNext r) ∧ (readNext r).2 = advance count r := by
  rcases readValue_reads (Nat.le_succ (left r)) (Nat.succ_pos _) with ⟨v, count, isRead⟩
  rw [readNext, isRead]
  exact ⟨count, rfl, rfl⟩

theorem decoded_eq (body : List Int64) : decoded body = performativeOf (readNext (.new body)).1 := by
  rcases readNext_eq (.new body) with ⟨_, isRead, _⟩
  have isNew : (⟨body, 0, false⟩ : Reader) = .new body := rfl
  rw [decoded, decodePerformative, isNew, isRead]
  rfl

theorem isList_iff_exists {v : Amqp10Value} : isList v = true ↔ ∃ items, v = .listVal items := by
  cases v <;> simp [isList]

theorem describesList_iff (body : List Int64) (n : Int64) :
    DescribesList body n ↔ ∃ fields, (readNext (.new body)).1 = .describedVal n (.listVal fields) := by
  rcases readNext_eq (.new body) with ⟨_, isRead, _⟩
  have isTop : readValueOfCode (body.length + 1 + 1) (readU8 (.new body)).1 (readU8 (.new body)).2 =
      some (readNext (.new body)) := isRead
  have topLeft : left (readU8 (.new body)).2 = body.length := left_readByte _
  constructor
  · rintro ⟨goesOn, isZero, v, rest, isFlat, isNumber, innerGoesOn, isCode⟩
    have isDesc : readValue (body.length + 1) (readU8 (.new body)).2 = some (v, rest) := by
      rw [readValue, readValueOfCode_succ, isFlat]
      rfl
    rcases readValue_reads (r := (readU8 (.new body)).2) (by omega) (Nat.succ_pos body.length) with
      ⟨_, count, sameRead⟩
    have isRest : rest = advance count (readU8 (.new body)).2 :=
      (Prod.mk.inj (Option.some.inj (isDesc.symm.trans sameRead))).2
    have restLeft := left_advance count (readU8 (.new body)).2
    rw [← isRest] at restLeft
    rcases readValue_reads (r := rest) (by omega) (Nat.succ_pos body.length) with
      ⟨inner, more, isInner⟩
    rcases isList_iff_exists.mp ((isList_iff isInner).mpr ⟨innerGoesOn, isCode⟩) with ⟨items, isItems⟩
    dsimp only at isItems
    rw [isItems] at isInner
    rcases (readDescribed_iff (readValue (body.length + 1)) _ n _).mpr
      ⟨(v, rest), isDesc, isNumber, _, isInner⟩ with ⟨behind, isDescribed⟩
    rw [readValueOfCode_succ, isZero, shape_zero goesOn] at isTop
    exact ⟨items, congrArg Prod.fst (Option.some.inj (isTop.symm.trans isDescribed))⟩
  · rintro ⟨fields, isValue⟩
    rcases shape_of_described isTop (isValue ▸ rfl) with ⟨goesOn, isZero⟩
    have isDescribed := isTop
    rw [readValueOfCode_succ, isZero, shape_zero goesOn] at isDescribed
    have isPair : readNext (.new body) = (.describedVal n (.listVal fields), (readNext (.new body)).2) :=
      Prod.ext isValue rfl
    rw [isPair] at isDescribed
    rcases (readDescribed_iff (readValue (body.length + 1)) _ n (.listVal fields)).mp
      ⟨_, isDescribed⟩ with ⟨desc, isDesc, isNumber, _, isInner⟩
    rcases (isList_iff isInner).mp rfl with ⟨innerGoesOn, isCode⟩
    exact ⟨goesOn, isZero, _, _, shape_of_number isDesc isNumber, isNumber, innerGoesOn, isCode⟩

/-- What is wanted of `Amqp10::decodePerformative`. -/
def RefusesPerformative (body : List Int64) : Prop :=
  Garbled (.new body) → (decoded body).descriptor = -1

/-- A performative that is cut off or has an unknown code is refused unless its bytes begin with a list
that is described by a number. -/
theorem refusesPerformative_iff (body : List Int64) :
    RefusesPerformative body ↔ ¬ (Garbled (.new body) ∧ ∃ n, n ≠ -1 ∧ DescribesList body n) := by
  have isOther : (decoded body).descriptor ≠ -1 ↔ ∃ n, n ≠ -1 ∧ DescribesList body n := by
    simp only [describesList_iff]
    rw [decoded_eq]
    constructor
    · intro isNumber
      unfold performativeOf at isNumber
      split at isNumber
      next n fields isValue => exact ⟨n, isNumber, fields, isValue⟩
      next => exact absurd rfl isNumber
    · rintro ⟨n, isNumber, fields, isValue⟩
      rw [isValue]
      exact isNumber
  rw [RefusesPerformative, ← isOther, not_and, not_not]

/-- The cursors at which the loop over the sections reads one. -/
def sectionStarts : Nat → Reader → List Reader
  | 0, _ => []
  | rounds + 1, mr =>
      if 0 < mr.bytes.length then mr :: sectionStarts rounds (readNext mr).2 else []

/-- The bytes behind the performative. -/
def restOf (body : List Int64) : List Int64 :=
  let behind := (readNext (.new body)).2
  (readRawBytes (Int64.ofNat behind.bytes.length) behind).1

/-- The sections of a transfer. -/
def sectionsOf (body : List Int64) : List Reader :=
  sectionStarts (restOf body).length (.new (restOf body))

/-- A section that gives a body. -/
def isBody : Amqp10Value → Bool
  | .describedVal descriptor (.binaryVal _) => descriptor = 0x75 ∨ descriptor = 0x77
  | .describedVal descriptor (.strVal _) => descriptor = 0x77
  | _ => false

theorem bodyFound_add (s : Sections) (v : Amqp10Value) :
    (s.add v).bodyFound = (s.bodyFound || isBody v) := by
  cases v with
  | describedVal descriptor value =>
      unfold Sections.add
      dsimp only
      by_cases isData : descriptor = 0x75
      · subst isData
        cases value <;> simp [isBody]
      by_cases isValue : descriptor = 0x77
      · subst isValue
        cases value <;> simp [isBody]
      have notBody : isBody (.describedVal descriptor value) = false := by
        cases value <;> simp [isBody, isData, isValue]
      rw [if_neg isData, if_neg isValue, notBody, Bool.or_false]
      repeat' split
      all_goals rfl
  | _ => simp [Sections.add, isBody]

theorem bodyFound_readSections (rounds : Nat) (mr : Reader) (s : Sections) :
    (readSections rounds mr s).1.bodyFound =
      (s.bodyFound || (sectionStarts rounds mr).any fun start => isBody (readNext start).1) := by
  induction rounds generalizing mr s with
  | zero => rw [readSections, sectionStarts, List.any_nil, Bool.or_false]
  | succ rounds ih =>
      rw [readSections, sectionStarts]
      split
      · rw [ih, bodyFound_add, List.any_cons, Bool.or_assoc]
      · rw [List.any_nil, Bool.or_false]

theorem sectionsOf_truncated {body : List Int64} (isSet : (readNext (.new body)).2.truncated = true) :
    sectionsOf body = [] := by
  have isEmpty (n : Nat) {r : Reader} (isSet : r.truncated = true) : (readBytesLoop n r).1 = [] := by
    cases n with
    | zero => rfl
    | succ n => rw [readBytesLoop, if_pos isSet]
  have isRest : restOf body = [] := isEmpty _ isSet
  rw [sectionsOf, isRest]
  rfl

/-- A frame that `nextMessage` takes for a transfer. -/
def Transfers (session : Amqp10Session) (link : Amqp10Link) (f : Amqp10Frame) : Prop :=
  f.frameType = 0 ∧ f.chanId = session.chanId ∧ DescribesList f.body 0x14 ∧
    wrongHandle link (decoded f.body).fields = none ∧ goesOn (decoded f.body).fields = false

/-- One of its sections gives a body. -/
def HasBody (body : List Int64) : Prop :=
  ∃ start ∈ sectionsOf body, isBody (readNext start).1 = true

theorem messageOf_ok_iff (session : Amqp10Session) (link : Amqp10Link) (f : Amqp10Frame) :
    (messageOf session link f).ok = true ↔ Transfers session link f ∧ HasBody f.body := by
  have isList : DescribesList f.body 0x14 ↔ (decoded f.body).descriptor = 0x14 := by
    rw [describesList_iff, decoded_eq]
    unfold performativeOf
    split
    next n fields isValue => simp [isValue]
    next isOther =>
      refine iff_of_false ?_ (by decide)
      rintro ⟨fields, isValue⟩
      exact isOther _ _ isValue
  have isFound : (messageSections (restOf f.body)).1.bodyFound = true ↔ HasBody f.body := by
    rw [messageSections, bodyFound_readSections, Bool.false_or, List.any_eq_true]
    rfl
  rw [messageOf, Transfers, isList, ← isFound]
  split
  next isOther => exact iff_of_false nofun fun both => isOther both.1.1
  next isAmqp =>
    split
    next isOther => exact iff_of_false nofun fun both => isOther both.1.2.1
    next isChannel =>
      dsimp only
      rw [← decoded_eq]
      split
      next isOther => exact iff_of_false nofun fun both => isOther both.1.2.2.1
      next isTransfer =>
        split
        next fh isWrong => exact iff_of_false nofun fun both => nomatch isWrong.symm.trans both.1.2.2.2.1
        next isOurs =>
          split
          next isMore =>
            exact iff_of_false nofun fun both => nomatch isMore.symm.trans both.1.2.2.2.2
          next isWhole =>
            rw [not_not] at isAmqp isChannel isTransfer
            rw [Bool.not_eq_true] at isWhole
            split
            next notFound => exact iff_of_false nofun fun both => nomatch notFound.symm.trans both.2
            next isThere =>
              rw [Bool.not_eq_false] at isThere
              exact iff_of_true rfl ⟨⟨isAmqp, isChannel, isTransfer, isOurs, isWhole⟩, isThere⟩

/-- A reader runs past the end of a transfer, or meets an unknown code in it. -/
def GarbledTransfer (body : List Int64) : Prop :=
  Garbled (.new body) ∨ ∃ start ∈ sectionsOf body, Garbled start

/-- What is wanted of `Amqp10Link.nextMessage`. -/
def RefusesTransfer (session : Amqp10Session) (link : Amqp10Link) (conn : TinoxConn) : Prop :=
  GarbledTransfer (readFrameSkipHeartbeats conn).1.body →
    (nextMessage session link conn).message.ok = false

/-- A transfer that is cut off or has an unknown code is refused when it ends in its performative, and
unless it passes for a transfer with a body. -/
theorem refusesTransfer_iff (session : Amqp10Session) (link : Amqp10Link) (conn : TinoxConn) :
    let f := (readFrameSkipHeartbeats conn).1
    RefusesTransfer session link conn ↔ ¬ (Transfers session link f ∧ HasBody f.body ∧
      (¬ KnownCodes (.new f.body) ∨ ∃ start ∈ sectionsOf f.body, Garbled start)) := by
  intro f
  have isOk := messageOf_ok_iff session link f
  constructor
  · rintro refuses ⟨isTransfer, hasBody, isGarbled⟩
    have fails := refuses (isGarbled.imp_left .inr)
    exact nomatch fails.symm.trans (isOk.mpr ⟨isTransfer, hasBody⟩)
  · intro holds isGarbled
    by_contra succeeds
    rcases isOk.mp (Bool.eq_true_of_not_eq_false succeeds) with ⟨isTransfer, hasBody⟩
    refine holds ⟨isTransfer, hasBody, ?_⟩
    rcases isGarbled with (isCutOff | isUnknown) | inSection
    · rcases hasBody with ⟨start, isStart, _⟩
      rw [sectionsOf_truncated isCutOff] at isStart
      exact nomatch isStart
    · exact .inl isUnknown
    · exact .inr inSection

end Links

/-- Input that is cut off or not understood is refused exactly where something else is wrong with it:
nothing looks at the flag or for the marker. -/
theorem garbledRefused_iff (c : Channels.AmqpChannel091) (f : Dispatch.AmqpFrame091)
    (inbox : List Dispatch.AmqpFrame091) (session : Links.Amqp10Session) (link : Links.Amqp10Link)
    (conn : TinoxConn) (body : List Int64) :
    (Channels.RefusesDelivery c inbox ↔
      ¬ (Channels.Delivers inbox ∧ Channels.GarbledDelivery inbox)) ∧
    (Channels.RefusesConfirm c f inbox ↔ ¬ (Channels.Confirms f ∧ f.payload.length < 13)) ∧
    (Links.RefusesTransfer session link conn ↔
      ¬ (Links.Transfers session link (Links.readFrameSkipHeartbeats conn).1 ∧
        Links.HasBody (Links.readFrameSkipHeartbeats conn).1.body ∧
        (¬ Links.KnownCodes (.new (Links.readFrameSkipHeartbeats conn).1.body) ∨
          ∃ start ∈ Links.sectionsOf (Links.readFrameSkipHeartbeats conn).1.body, Links.Garbled start))) ∧
    (Links.RefusesPerformative body ↔
      ¬ (Links.Garbled (.new body) ∧ ∃ n, n ≠ -1 ∧ Links.DescribesList body n)) :=
  ⟨Channels.refusesDelivery_iff c inbox, Channels.refusesConfirm_iff c f inbox,
    Links.refusesTransfer_iff session link conn, Links.refusesPerformative_iff body⟩

/-- An acknowledgement without its tag is one of the delivery zero. -/
theorem emptyConfirm_accepted :
    ¬ Channels.RefusesConfirm ⟨1, 4096, [], true, 0⟩ ⟨1, 1, [0, 60, 0, 80]⟩ [] := by
  intro refuses
  have isCutOff : Channels.CutOffConfirm [0, 60, 0, 80] := .inr (by decide)
  exact nomatch refuses isCutOff _ rfl

end Tinox.Amqp

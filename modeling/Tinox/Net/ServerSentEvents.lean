import Tinox.Data.LineEnds
import Tinox.Net.SmtpClient

/-!
# Server-sent events

`Sse.sendEvent` writes the name of an event into one line and each line of its data into one more.
An EventSource reads lines that end in LF, in CR or in both, so it finds more lines than were meant
where the data has a CR without an LF behind it, or where the name has either.
-/

namespace Tinox.Net.ServerSentEvents

open Lines Segments Tinox.Runtime SmtpClient

/-- `"event: " + event + "\n"`. -/
def eventLine (event : CString) : CString :=
  literal "event: " ++ event ++ [10]

/-- The lines of the loop over the data. -/
def dataLines (data : CString) : CString :=
  (data.splitOn 10).flatMap fun line => literal "data: " ++ stripped 13 line ++ [10]

/-- `out` in `Sse::sendEvent`. -/
def eventText (event data : CString) : CString :=
  eventLine event ++ dataLines data ++ [10]

/-- `Sse::sendEvent`. -/
def sendEvent (conn : TinoxConn) (event data : CString) : TinoxConn :=
  httpConnSendRaw conn (eventText event data)

/-- The lines of a stream, which end in LF, CR or CRLF; what is behind the last end is no line. -/
def streamLines (stream : CString) : List CString :=
  ((oneEnd 13 10 false stream).splitOn 10).dropLast

/-- A line that is neither empty nor a comment. -/
def IsField (line : CString) : Prop :=
  line ≠ [] ∧ line.head? ≠ some 58

instance (line : CString) : Decidable (IsField line) :=
  inferInstanceAs (Decidable (_ ∧ _))

def fieldName (line : CString) : CString :=
  line.takeWhile (· != 58)

/-- What is behind the first `:`, without one space. -/
def fieldValue (line : CString) : CString :=
  let value := (line.dropWhile (· != 58)).drop 1
  if value.head? = some 32 then value.drop 1 else value

/-- The names and the values of the fields of a stream. -/
def fields (stream : CString) : List (CString × CString) :=
  ((streamLines stream).filter fun line => IsField line).map fun line =>
    (fieldName line, fieldValue line)

/-- An event that is dispatched, with its type; an empty one stands for `message`. -/
structure Event where
  type : CString
  data : CString
  deriving DecidableEq

/-- The buffers of the type and of the data. -/
structure Buffers where
  type : CString
  data : CString

/-- A field is taken into the buffers. -/
def Buffers.take (buffers : Buffers) (line : CString) : Buffers :=
  if fieldName line = literal "event" then { buffers with type := fieldValue line }
  else if fieldName line = literal "data" then
    { buffers with data := buffers.data ++ fieldValue line ++ [10] }
  else buffers

/-- An event without data is none; the last line end of the data is left out. -/
def Buffers.dispatch (buffers : Buffers) : List Event :=
  if buffers.data = [] then [] else [⟨buffers.type, stripped 10 buffers.data⟩]

/-- The events of lines. -/
def dispatched (buffers : Buffers) : List CString → List Event
  | [] => []
  | line :: lines =>
      if line = [] then buffers.dispatch ++ dispatched ⟨[], []⟩ lines
      else if IsField line then dispatched (buffers.take line) lines
      else dispatched buffers lines

/-- The events that are read from a stream. -/
def events (stream : CString) : List Event :=
  dispatched ⟨[], []⟩ (streamLines stream)

/-- A name that one line can hold. -/
def Representable (event : CString) : Prop :=
  10 ∉ event ∧ 13 ∉ event

/-- An event arrives as it was sent, with the line ends of its data made LF, and nothing that comes
behind it is touched.  The line of a name that cannot be represented has no other field, and no
event. -/
def Arrives (event data : CString) : Prop :=
  (Representable event → ∀ rest, events (eventText event data ++ rest) =
    ⟨event, oneEnd 13 10 false data⟩ :: events rest) ∧
  (¬Representable event → (fields (eventLine event)).length ≤ 1 ∧ events (eventLine event) = [])

/-- The lines of a name behind its first are empty or comments. -/
def NothingBehind (event : CString) : Prop :=
  ∀ line ∈ (streamLines (event ++ [10])).tail, ¬IsField line

theorem streamLines_line (line rest : CString) :
    streamLines (line ++ 10 :: rest) =
      (oneEnd 13 10 false (stripped 13 line)).splitOn 10 ++ streamLines rest := by
  rw [streamLines, oneEnd_line (by decide), List.splitOn_append_cons_self,
    List.dropLast_append_of_ne_nil (List.splitOn_ne_nil _ _)]
  rfl

theorem streamLines_clean {line : CString} (noCr : 13 ∉ line) (noLf : 10 ∉ line) (rest : CString) :
    streamLines (line ++ 10 :: rest) = line :: streamLines rest := by
  rw [streamLines_line, stripped_of_notMem noCr, oneEnd_of_notMem noCr, List.splitOn_eq_singleton noLf]
  rfl

/-- The lines that a text behind a label is read as. -/
def labelled (label text : CString) : List CString :=
  ((oneEnd 13 10 false (stripped 13 text)).splitOn 10).modifyHead (label ++ ·)

theorem streamLines_label {label : CString} (noCr : 13 ∉ label) (noLf : 10 ∉ label)
    (text rest : CString) :
    streamLines (label ++ text ++ 10 :: rest) = labelled label text ++ streamLines rest := by
  rw [streamLines_line, stripped_append_of_notMem noCr, oneEnd_append_of_notMem noCr,
    splitOn_append_of_notMem noLf, labelled]

theorem labelled_clean (label : CString) {text : CString} (noCr : 13 ∉ text) (noLf : 10 ∉ text) :
    labelled label text = [label ++ text] := by
  rw [labelled, stripped_of_notMem noCr, oneEnd_of_notMem noCr, List.splitOn_eq_singleton noLf]
  rfl

theorem labelled_eq (label text : CString) :
    ∃ first, streamLines (text ++ [10]) = first :: (streamLines (text ++ [10])).tail ∧
      labelled label text = (label ++ first) :: (streamLines (text ++ [10])).tail := by
  rw [streamLines_line, labelled]
  rcases List.exists_cons_of_ne_nil
    (List.splitOn_ne_nil 10 (oneEnd 13 10 false (stripped 13 text))) with ⟨first, rest, isSplit⟩
  refine ⟨first, ?_, ?_⟩
  · rw [isSplit]
    rfl
  · rw [isSplit]
    change _ = (label ++ first) :: (rest ++ [])
    rw [List.append_nil]
    rfl

theorem streamLines_flatMap (parts : List CString) (rest : CString) :
    streamLines ((parts.flatMap fun line => literal "data: " ++ stripped 13 line ++ [10]) ++ rest) =
      (parts.flatMap fun line => labelled (literal "data: ") (stripped 13 line)) ++
        streamLines rest := by
  induction parts with
  | nil => rfl
  | cons part parts ih =>
      rw [List.flatMap_cons, List.append_assoc, List.append_assoc _ [10], List.singleton_append,
        streamLines_label (by decide) (by decide), ih, List.flatMap_cons, List.append_assoc]

theorem flatMap_labelled {parts : List CString} (noCr : ∀ part ∈ parts, 13 ∉ stripped 13 part)
    (noLf : ∀ part ∈ parts, 10 ∉ part) :
    (parts.flatMap fun line => labelled (literal "data: ") (stripped 13 line)) =
      (parts.map (stripped 13)).map fun value => literal "data: " ++ value := by
  induction parts with
  | nil => rfl
  | cons part parts ih =>
      rw [List.forall_mem_cons] at noCr noLf
      have noLf' : 10 ∉ stripped 13 part := fun member => noLf.1 (stripped_subset 13 part member)
      rw [List.flatMap_cons, labelled_clean _ noCr.1 noLf', ih noCr.2 noLf.2]
      rfl

theorem streamLines_eventText (event data rest : CString) :
    streamLines (eventText event data ++ rest) =
      labelled (literal "event: ") event ++
        ((data.splitOn 10).flatMap fun line => labelled (literal "data: ") (stripped 13 line)) ++
          [] :: streamLines rest := by
  have isEmpty : streamLines ([] ++ 10 :: rest) = [] :: streamLines rest :=
    streamLines_clean List.not_mem_nil List.not_mem_nil rest
  rw [List.nil_append] at isEmpty
  rw [eventText, eventLine, dataLines, List.append_assoc, List.append_assoc, List.append_assoc,
    List.singleton_append, streamLines_label (by decide) (by decide), List.append_assoc,
    List.singleton_append, streamLines_flatMap, isEmpty]

theorem fieldName_event (value : CString) : fieldName (literal "event: " ++ value) = literal "event" :=
  rfl

theorem fieldValue_event (value : CString) : fieldValue (literal "event: " ++ value) = value :=
  rfl

theorem fieldName_data (value : CString) : fieldName (literal "data: " ++ value) = literal "data" :=
  rfl

theorem fieldValue_data (value : CString) : fieldValue (literal "data: " ++ value) = value :=
  rfl

theorem isField_event (value : CString) : IsField (literal "event: " ++ value) :=
  ⟨List.cons_ne_nil _ _, fun isColon => absurd (Option.some.inj isColon) (by decide)⟩

theorem isField_data (value : CString) : IsField (literal "data: " ++ value) :=
  ⟨List.cons_ne_nil _ _, fun isColon => absurd (Option.some.inj isColon) (by decide)⟩

theorem dispatched_field (buffers : Buffers) {line : CString} (isField : IsField line)
    (lines : List CString) : dispatched buffers (line :: lines) = dispatched (buffers.take line) lines := by
  rw [dispatched, if_neg isField.1, if_pos isField]

theorem take_event (buffers : Buffers) (value : CString) :
    buffers.take (literal "event: " ++ value) = { buffers with type := value } := by
  rw [Buffers.take, if_pos (fieldName_event value), fieldValue_event]

theorem take_data (buffers : Buffers) (value : CString) :
    buffers.take (literal "data: " ++ value) =
      { buffers with data := buffers.data ++ value ++ [10] } := by
  rw [Buffers.take, fieldName_data, if_neg (by decide), if_pos rfl, fieldValue_data]

theorem dispatched_data (buffers : Buffers) (values lines : List CString) :
    dispatched buffers ((values.map fun value => literal "data: " ++ value) ++ lines) =
      dispatched { buffers with data := buffers.data ++ values.flatMap fun value => value ++ [10] }
        lines := by
  induction values generalizing buffers with
  | nil => rw [List.flatMap_nil, List.append_nil]; rfl
  | cons value values ih =>
      rw [List.map_cons, List.cons_append, dispatched_field buffers (isField_data value), take_data, ih,
        List.flatMap_cons]
      simp only [List.append_assoc]

theorem events_eventText {event data : CString} (representable : Representable event)
    (paired : Paired 13 10 data) (rest : CString) :
    events (eventText event data ++ rest) = ⟨event, oneEnd 13 10 false data⟩ :: events rest := by
  rcases intercalate_stripped (by decide) data paired with ⟨isOneEnd, noCr⟩
  have isLines := flatMap_labelled noCr fun part => notMem_of_mem_splitOn
  have some : (data.splitOn 10).map (stripped 13) ≠ [] :=
    fun none => List.splitOn_ne_nil 10 data (List.map_eq_nil_iff.mp none)
  rw [events, streamLines_eventText, labelled_clean _ representable.2 representable.1, isLines,
    List.singleton_append, List.cons_append, dispatched_field _ (isField_event event), take_event,
    dispatched_data, List.nil_append, ← intercalate_append 10 some, isOneEnd, dispatched, if_pos rfl,
    Buffers.dispatch, if_neg (List.append_ne_nil_of_right_ne_nil _ (List.cons_ne_nil _ _)),
    stripped_concat]
  rfl

/-- What a line brings to the data. -/
def weight (line : CString) : Nat :=
  if fieldName line = literal "data" then (fieldValue line).length + 1 else 0

theorem weight_data (value : CString) : weight (literal "data: " ++ value) = value.length + 1 := by
  rw [weight, if_pos (fieldName_data value), fieldValue_data]

theorem weight_event (value : CString) : weight (literal "event: " ++ value) = 0 := by
  rw [weight, fieldName_event, if_neg (by decide)]

theorem weight_le (line : CString) : weight line ≤ line.length := by
  rw [weight]
  split
  next isData =>
    have isSplit := congrArg List.length (List.takeWhile_append_dropWhile (p := (· != 58)) (l := line))
    have isName : (line.takeWhile (· != 58)).length = 4 := congrArg List.length isData
    have isValue : (fieldValue line).length ≤ (line.dropWhile (· != 58)).length := by
      rw [fieldValue]
      split
      · rw [List.length_drop, List.length_drop]
        omega
      · rw [List.length_drop]
        omega
    rw [List.length_append] at isSplit
    omega
  next => exact Nat.zero_le _

/-- The lines of a text behind the label of the data bring less than the text if there are several. -/
theorem weight_labelled (text : CString) :
    ((labelled (literal "data: ") text).map weight).sum + (labelled (literal "data: ") text).length ≤
      (oneEnd 13 10 false (stripped 13 text)).length + 2 := by
  have isLength := length_splitOn 10 (oneEnd 13 10 false (stripped 13 text))
  rw [labelled]
  rcases List.exists_cons_of_ne_nil
    (List.splitOn_ne_nil 10 (oneEnd 13 10 false (stripped 13 text))) with ⟨first, rest, isSplit⟩
  have isRest : (rest.map weight).sum + rest.length ≤ (rest.map fun part => part.length + 1).sum := by
    clear isSplit isLength
    induction rest with
    | nil => exact Nat.le_refl 0
    | cons part rest ih =>
        have isPart := weight_le part
        simp only [List.map_cons, List.sum_cons, List.length_cons]
        omega
  rw [isSplit, List.map_cons, List.sum_cons] at isLength
  rw [isSplit, List.modifyHead_cons, List.map_cons, List.sum_cons, weight_data, List.length_cons]
  omega

theorem stripped_eq {line : CString} (isLong : (oneEnd 13 10 false line).length ≤
    (oneEnd 13 10 false (stripped 13 line)).length) : stripped 13 line = line := by
  have isLength := length_oneEnd_stripped 13 10 line
  have isLine := stripped_append_trailing 13 line
  rw [List.length_eq_zero_iff.mp (by omega : (trailing 13 line).length = 0), List.append_nil] at isLine
  exact isLine

theorem weight_text (text : CString) :
    ((labelled (literal "data: ") text).map weight).sum ≤ (oneEnd 13 10 false text).length + 1 ∧
      ((oneEnd 13 10 false text).length + 1 ≤ ((labelled (literal "data: ") text).map weight).sum →
        13 ∉ text) := by
  have isWeight := weight_labelled text
  have isStripped := length_oneEnd_stripped 13 10 text
  have isSome : 0 < (labelled (literal "data: ") text).length := by
    rw [labelled, List.length_modifyHead]
    exact List.length_pos_of_ne_nil (List.splitOn_ne_nil _ _)
  refine ⟨by omega, fun isAll member => ?_⟩
  have isSame : stripped 13 text = text := stripped_eq (by omega)
  have isLf : 10 ∈ oneEnd 13 10 false text := mem_oneEnd member
  rcases List.append_of_mem isLf with ⟨before, after, isSplit⟩
  have isTwo : (labelled (literal "data: ") text).length =
      (before.splitOn 10).length + (after.splitOn 10).length := by
    rw [labelled, List.length_modifyHead, isSame, isSplit, List.splitOn_append_cons_self,
      List.length_append]
  have isBefore := List.length_pos_of_ne_nil (List.splitOn_ne_nil 10 before)
  have isAfter := List.length_pos_of_ne_nil (List.splitOn_ne_nil 10 after)
  rw [isSame] at isWeight
  omega

theorem weight_dataLines (data : CString) :
    (((data.splitOn 10).flatMap fun line =>
        labelled (literal "data: ") (stripped 13 line)).map weight).sum ≤
      (oneEnd 13 10 false data).length + 1 ∧
    ((oneEnd 13 10 false data).length + 1 ≤
      (((data.splitOn 10).flatMap fun line =>
        labelled (literal "data: ") (stripped 13 line)).map weight).sum → Paired 13 10 data) := by
  induction data using parts_induction (b := (10 : UInt8)) with
  | last part free =>
      rw [List.splitOn_eq_singleton free, List.flatMap_singleton, paired_part free]
      rcases weight_text (stripped 13 part) with ⟨isMost, isAll⟩
      have isStripped := length_oneEnd_stripped 13 10 part
      refine ⟨by omega, fun isLong => ?_⟩
      have isSame : stripped 13 part = part := stripped_eq (by omega)
      rw [← isSame]
      exact isAll (by omega)
  | more part data free ih =>
      rw [List.splitOn_append_cons_self_of_not_mem free, List.flatMap_cons, List.map_append,
        List.sum_append, paired_line (by decide) free, oneEnd_line (by decide), List.length_append,
        List.length_cons]
      rcases weight_text (stripped 13 part) with ⟨isMost, isAll⟩
      rcases ih with ⟨isMostData, isAllData⟩
      exact ⟨by omega, fun isLong => ⟨isAll (by omega), isAllData (by omega)⟩⟩

/-- The data of a buffer ends in LF. -/
def Buffers.Ended (buffers : Buffers) : Prop :=
  buffers.data ≠ [] → buffers.data.getLast? = some 10

theorem ended_take {buffers : Buffers} (ended : buffers.Ended) (line : CString) :
    (buffers.take line).Ended := by
  intro some
  rw [Buffers.take] at some ⊢
  split at some
  · rw [if_pos ‹_›]
    exact ended some
  rw [if_neg ‹_›]
  split at some
  · rw [if_pos ‹_›]
    exact List.getLast?_concat
  · rw [if_neg ‹_›]
    exact ended some

theorem length_take (buffers : Buffers) (line : CString) :
    (buffers.take line).data.length = buffers.data.length + weight line := by
  rw [Buffers.take, weight]
  by_cases isEvent : fieldName line = literal "event"
  · rw [if_pos isEvent, if_neg (by rw [isEvent]; decide)]
    rfl
  rw [if_neg isEvent]
  split
  · rw [List.append_assoc, List.length_append, List.length_append]
    rfl
  · rfl

theorem length_dispatched (lines : List CString) (buffers : Buffers) (ended : buffers.Ended) :
    ((dispatched buffers lines).map fun event => event.data.length + 1).sum ≤
      buffers.data.length + (lines.map weight).sum := by
  induction lines generalizing buffers with
  | nil => exact Nat.zero_le _
  | cons line lines ih =>
      rw [dispatched, List.map_cons, List.sum_cons]
      split
      next isEmpty =>
        have later := ih ⟨[], []⟩ fun some => absurd rfl some
        have isDispatch : ((buffers.dispatch).map fun event => event.data.length + 1).sum ≤
            buffers.data.length := by
          rw [Buffers.dispatch]
          split
          · exact Nat.zero_le _
          next some =>
            have isPos := List.length_pos_of_ne_nil some
            rw [List.map_singleton, List.sum_singleton, stripped, if_pos (ended some),
              List.length_dropLast]
            omega
        rw [List.map_append, List.sum_append]
        rw [List.length_nil, Nat.zero_add] at later
        omega
      split
      · have later := ih (buffers.take line) (ended_take ended line)
        rw [length_take] at later
        omega
      · have later := ih buffers ended
        omega

theorem dispatched_of_noFields (buffers : Buffers) (noData : buffers.data = []) {lines : List CString}
    (noFields : ∀ line ∈ lines, ¬IsField line) : dispatched buffers lines = [] := by
  induction lines generalizing buffers with
  | nil => rfl
  | cons line lines ih =>
      rw [List.forall_mem_cons] at noFields
      rw [dispatched]
      split
      · rw [Buffers.dispatch, if_pos noData, List.nil_append, ih _ rfl noFields.2]
      · rw [if_neg noFields.1, ih _ noData noFields.2]

theorem streamLines_eventLine (event : CString) :
    streamLines (eventLine event) = labelled (literal "event: ") event := by
  have noCr : 13 ∉ literal "event: " := by decide
  have isLines := streamLines_label noCr (by decide) event []
  have noLines : streamLines [] = [] := rfl
  rw [noLines, List.append_nil] at isLines
  exact isLines

theorem eventLine_iff (event : CString) :
    ((fields (eventLine event)).length ≤ 1 ∧ events (eventLine event) = []) ↔ NothingBehind event := by
  rcases labelled_eq (literal "event: ") event with ⟨first, -, isLabelled⟩
  have isFirst := isField_event first
  have isFilter := List.filter_cons_of_pos (p := fun line => decide (IsField line))
    (l := (streamLines (event ++ [10])).tail) (decide_eq_true isFirst)
  rw [fields, events, streamLines_eventLine, isLabelled, List.length_map, isFilter, List.length_cons,
    dispatched_field _ isFirst, take_event]
  constructor
  · rintro ⟨isOne, -⟩ line member isField
    have inFilter := List.mem_filter (p := fun line => decide (IsField line)).mpr
      ⟨member, decide_eq_true isField⟩
    have isSome := List.length_pos_of_mem inFilter
    omega
  · intro nothing
    have isNone : (streamLines (event ++ [10])).tail.filter (fun line => IsField line) = [] :=
      List.filter_eq_nil_iff.mpr fun line member isField =>
        nothing line member (of_decide_eq_true isField)
    refine ⟨?_, dispatched_of_noFields _ rfl nothing⟩
    rw [isNone]
    exact Nat.le_refl 1

theorem nothingBehind_of_representable {event : CString} (representable : Representable event) :
    NothingBehind event := by
  rw [NothingBehind, streamLines_clean representable.2 representable.1]
  exact fun line member => absurd member List.not_mem_nil

/-- An event arrives if and only if each CR of its data has an LF behind it, where its name has
neither, and the lines of its name behind the first are empty or comments, where it has. -/
theorem arrives_iff (event data : CString) :
    Arrives event data ↔ (Representable event → Paired 13 10 data) ∧ NothingBehind event := by
  rw [Arrives, eventLine_iff]
  constructor
  · rintro ⟨arrives, nothing⟩
    refine ⟨fun representable => ?_, ?_⟩
    · have isRead := arrives representable []
      have isMost := length_dispatched (streamLines (eventText event data ++ [])) ⟨[], []⟩
        fun some => absurd rfl some
      rw [← events, isRead, streamLines_eventText,
        labelled_clean _ representable.2 representable.1] at isMost
      simp only [List.map_cons, List.map_append, List.sum_cons, List.sum_append, weight_event] at isMost
      have noLines : streamLines [] = [] := rfl
      have noWeight : weight [] = 0 := rfl
      have noData : (Buffers.data ⟨[], []⟩).length = 0 := rfl
      rw [noLines, noWeight] at isMost
      simp only [List.map_nil, List.sum_nil, List.length_nil] at isMost
      exact (weight_dataLines data).2 (by omega)
    · by_cases representable : Representable event
      · exact nothingBehind_of_representable representable
      · exact nothing representable
  · rintro ⟨paired, nothing⟩
    exact ⟨fun representable rest => events_eventText representable (paired representable) rest,
      fun _ => nothing⟩

/-- A lone CR cuts the data off, and an LF in the name forges an event. -/
theorem brokenLines_notArrive :
    ¬Arrives (literal "message") (literal "a\rb") ∧
      ¬Arrives (literal "a\ndata: forged\n") (literal "b") := by
  refine ⟨fun arrives => ?_, fun arrives => ?_⟩
  · exact absurd (arrives.1 (by unfold Representable; decide) []) (by decide)
  · exact absurd (arrives.2 (by unfold Representable; decide)).1 (by decide)

end Tinox.Net.ServerSentEvents

import Tinox.Data.Lines
import Tinox.Net.Connection
import Tinox.Runtime.JsonWriter

/-!
# Sending mail

`SmtpClient.send` writes the addresses of a mail, its subject and its body into lines of one
dialogue.  A server that takes the lines apart again gets what was meant only if the values do not
break their lines.
-/

namespace Tinox.Net.SmtpClient

open Segments Lines Tinox.Runtime

/-- What is read by one call and what is left are together what there was. -/
theorem length_recv (stream : Stream) :
    (recv 1 stream).1.length + (recv 1 stream).2.flatten.length = stream.flatten.length := by
  rw [← List.length_append, recv_append]

theorem recv_one {stream : Stream} {b : UInt8} {rest : List UInt8}
    (isStream : stream.flatten = b :: rest) :
    ∃ later, recv 1 stream = ([b], later) ∧ later.flatten = rest := by
  fun_induction recv 1 stream with
  | case1 => exact absurd isStream.symm (List.cons_ne_nil b rest)
  | case2 pieces ih => exact ih isStream
  | case3 pieces c bytes =>
      obtain ⟨rfl, isRest⟩ := List.cons_eq_cons.mp isStream
      exact ⟨_, rfl, isRest⟩

/-- The line with its next byte, unless the line has 8192 bytes. -/
def kept (buf : CString) (ch : UInt8) : CString :=
  if 8192 ≤ buf.length then buf else buf ++ [ch]

theorem length_kept_le (buf : CString) (ch : UInt8) : (kept buf ch).length ≤ buf.length + 1 := by
  rw [kept]
  split
  · exact Nat.le_succ _
  · rw [List.length_append, List.length_singleton]

/-- The loop of `httpConnReadLine`. -/
def readLineLoop (buf : CString) (stream : Stream) : CString × Stream :=
  let got := recv 1 stream
  if got.1.length = 0 then (buf, got.2)
  else if got.1.headD 0 = 10 then (buf, got.2)
  else readLineLoop (kept buf (got.1.headD 0)) got.2
termination_by stream.flatten.length
decreasing_by
  have isLength := length_recv stream
  have isSome : (recv 1 stream).1.length ≠ 0 := ‹_›
  omega

/-- `httpConnReadLine`; the string ends at its first NUL. -/
def httpConnReadLine (conn : TinoxConn) : CString × TinoxConn :=
  let read := readLineLoop [] conn.incoming
  ((stripped 13 read.1).takeWhile (· != 0), { conn with incoming := read.2 })

theorem readLineLoop_length (buf : CString) (stream : Stream) :
    (readLineLoop buf stream).1.length + (readLineLoop buf stream).2.flatten.length ≤
      buf.length + stream.flatten.length := by
  fun_induction readLineLoop buf stream with
  | case1 buf stream got none | case2 buf stream got some isEnd =>
      have isLength : got.1.length + got.2.flatten.length = stream.flatten.length := length_recv stream
      dsimp only
      omega
  | case3 buf stream got some notEnd ih =>
      have isLength : got.1.length + got.2.flatten.length = stream.flatten.length := length_recv stream
      have isNext := length_kept_le buf (got.1.headD 0)
      omega

theorem httpConnReadLine_length (conn : TinoxConn) :
    (httpConnReadLine conn).1.length + (httpConnReadLine conn).2.incoming.flatten.length ≤
      conn.incoming.flatten.length := by
  have isRead := readLineLoop_length [] conn.incoming
  rw [List.length_nil, Nat.zero_add] at isRead
  have isStripped := congrArg List.length (stripped_append_trailing 13 (readLineLoop [] conn.incoming).1)
  rw [List.length_append] at isStripped
  have isPrefix := (List.takeWhile_prefix (l := stripped 13 (readLineLoop [] conn.incoming).1)
    (· != 0)).length_le
  rw [httpConnReadLine]
  dsimp only
  omega

/-- The loop of `SmtpClient.readReply`. -/
def readReply (conn : TinoxConn) : CString × TinoxConn :=
  let line := httpConnReadLine conn
  if line.1.length < 4 then ([], line.2)
  else if (line.1.drop 3).take 1 = [32] then (line.1.take 3, line.2)
  else readReply line.2
termination_by conn.incoming.flatten.length
decreasing_by
  have isLength := httpConnReadLine_length conn
  have isLine : 4 ≤ (httpConnReadLine conn).1.length := Nat.not_lt.mp ‹_›
  omega

/-- `httpConnSendRaw`. -/
def httpConnSendRaw (conn : TinoxConn) (data : CString) : TinoxConn :=
  { conn with outgoing := conn.outgoing ++ data }

/-- A reply that starts with "2". -/
def isPositive (reply : CString) : Bool :=
  (literal "2").isPrefixOf reply

/-- The loop over the recipients in `SmtpClient.send`. -/
def sendRecipients (conn : TinoxConn) : List CString → Bool × TinoxConn
  | [] => (true, conn)
  | address :: recipients =>
      let reply := readReply (httpConnSendRaw conn (literal "RCPT TO:<" ++ address ++ literal ">\r\n"))
      if isPositive reply.1 then sendRecipients reply.2 recipients else (false, reply.2)

/-- `message` in `SmtpClient.send`. -/
def messageText (sender : CString) (recipients : List CString) (subject body : CString) : CString :=
  literal "From: " ++ sender ++ literal "\r\nTo: " ++ (literal ", ").intercalate recipients ++
    literal "\r\nSubject: " ++ subject ++ literal "\r\n\r\n" ++ body

/-- A line of the message on the wire. -/
def wireLine (line : CString) : CString :=
  let line := stripped 13 line
  (if (literal ".").isPrefixOf line then literal "." ++ line else line) ++ literal "\r\n"

/-- `SmtpClient.send`. -/
def send (conn : TinoxConn) (sender : CString) (recipients : List CString) (subject body : CString) :
    Bool × TinoxConn :=
  let mail := readReply (httpConnSendRaw conn (literal "MAIL FROM:<" ++ sender ++ literal ">\r\n"))
  if !isPositive mail.1 then (false, mail.2)
  else
    let rcpt := sendRecipients mail.2 recipients
    if !rcpt.1 then (false, rcpt.2)
    else
      let data := readReply (httpConnSendRaw rcpt.2 (literal "DATA\r\n"))
      if data.1 != literal "354" then (false, data.2)
      else
        let lines := (messageText sender recipients subject body).splitOn 10
        let sent := lines.foldl (fun conn line => httpConnSendRaw conn (wireLine line)) data.2
        let reply := readReply (httpConnSendRaw sent (literal ".\r\n"))
        (isPositive reply.1, reply.2)

/-- The commands with an address. -/
inductive Verb where
  | mail
  | rcpt
  deriving DecidableEq

def Verb.text : Verb → CString
  | .mail => literal "MAIL FROM:<"
  | .rcpt => literal "RCPT TO:<"

inductive Command where
  | path (verb : Verb) (address parameters : CString)
  | data
  | other (line : CString)
  deriving DecidableEq

/-- What a server gets: commands, and messages with their header lines and their bodies. -/
inductive Event where
  | command (command : Command)
  | message (headers : List CString) (body : CString)
  deriving DecidableEq

/-- Where in an address a byte stands: outside a quoted string, inside one, behind its backslash. -/
inductive Quoting where
  | outside
  | inside
  | escaped
  deriving DecidableEq

def Quoting.next : Quoting → UInt8 → Quoting
  | .outside, c => if c = 34 then .inside else .outside
  | .inside, c => if c = 34 then .outside else if c = 92 then .escaped else .inside
  | .escaped, _ => .inside

/-- An address up to the `>` that is outside a quoted string, and what is behind it. -/
def readPath (quoting : Quoting) : CString → Option (CString × CString)
  | [] => none
  | c :: text =>
      if c = 62 ∧ quoting = .outside then some ([], text)
      else (readPath (quoting.next c) text).map fun path => (c :: path.1, path.2)

def readVerb (verb : Verb) (line : CString) : Option Command :=
  (line.dropPrefix? verb.text).bind fun text =>
    (readPath .outside text).map fun path => .path verb path.1 path.2

/-- The command of a line. -/
def readCommand (line : CString) : Command :=
  ((readVerb .mail line).or (readVerb .rcpt line)).getD
    (if line = literal "DATA" then .data else .other line)

/-- The lines of a message: headers up to an empty line, and the body. -/
def messageOf (lines : List CString) : Event :=
  .message (lines.takeWhile (· != [])) ([13, 10].intercalate (lines.dropWhile (· != [])).tail)

/-- A line of a message without the dot that was put in front. -/
def unstuffed (line : CString) : CString :=
  if (literal ".").isPrefixOf line then line.drop 1 else line

/-- The server at its lines, with those of the message that it is getting, if it is. -/
def serve : Option (List CString) → List CString → List Event
  | _, [] => []
  | none, line :: rest =>
      .command (readCommand line) ::
        serve (if readCommand line = .data then some [] else none) rest
  | some got, line :: rest =>
      if line = literal "." then messageOf got :: serve none rest
      else serve (some (got ++ [unstuffed line])) rest

/-- What a server gets in a stream of lines that end in CRLF. -/
def received (stream : CString) : List Event :=
  serve none (terminated 13 10 [] stream)

/-- What the arguments of `SmtpClient.send` mean. -/
def intended (sender : CString) (recipients : List CString) (subject body : CString) : List Event :=
  .command (.path .mail sender []) ::
    ((recipients.map fun address => .command (.path .rcpt address [])) ++
      [.command .data,
        .message
          [literal "From: " ++ sender, literal "To: " ++ (literal ", ").intercalate recipients,
            literal "Subject: " ++ subject]
          (withEnds 13 10 false body)])

variable {recipients : List CString} {sender subject body : CString}

theorem readReply_outgoing (conn : TinoxConn) : (readReply conn).2.outgoing = conn.outgoing := by
  fun_induction readReply conn with
  | case1 conn line short => rfl
  | case2 conn line long isLast => rfl
  | case3 conn line long notLast ih => exact ih

theorem sendRecipients_outgoing {conn : TinoxConn}
    (isSent : (sendRecipients conn recipients).1 = true) :
    (sendRecipients conn recipients).2.outgoing = conn.outgoing ++
      recipients.flatMap fun address => literal "RCPT TO:<" ++ address ++ literal ">\r\n" := by
  induction recipients generalizing conn with
  | nil => exact (List.append_nil _).symm
  | cons address recipients ih =>
      rw [sendRecipients] at isSent ⊢
      split at isSent
      next isOk =>
        rw [if_pos isOk, ih isSent, readReply_outgoing, httpConnSendRaw, List.flatMap_cons]
        exact List.append_assoc _ _ _
      next => exact Bool.noConfusion isSent

theorem foldl_outgoing (lines : List CString) (conn : TinoxConn) :
    (lines.foldl (fun conn line => httpConnSendRaw conn (wireLine line)) conn).outgoing =
      conn.outgoing ++ lines.flatMap wireLine := by
  induction lines generalizing conn with
  | nil => exact (List.append_nil _).symm
  | cons line lines ih =>
      rw [List.foldl_cons, ih, httpConnSendRaw, List.flatMap_cons]
      exact List.append_assoc _ _ _

/-- The dialogue of the client, when no reply ends it. -/
def dialogue (sender : CString) (recipients : List CString) (subject body : CString) : CString :=
  literal "MAIL FROM:<" ++ sender ++ literal ">\r\n" ++
    ((recipients.flatMap fun address => literal "RCPT TO:<" ++ address ++ literal ">\r\n") ++
      (literal "DATA\r\n" ++
        (((messageText sender recipients subject body).splitOn 10).flatMap wireLine ++ literal ".\r\n")))

theorem send_outgoing {conn : TinoxConn}
    (isSent : (send conn sender recipients subject body).1 = true) :
    (send conn sender recipients subject body).2.outgoing =
      conn.outgoing ++ dialogue sender recipients subject body := by
  rw [send] at isSent ⊢
  dsimp only at isSent ⊢
  split at isSent
  · exact Bool.noConfusion isSent
  next mailOk =>
    split at isSent
    · exact Bool.noConfusion isSent
    next rcptOk =>
      split at isSent
      · exact Bool.noConfusion isSent
      next dataOk =>
        have rcptSent := rcptOk
        rw [Bool.not_eq_true', Bool.not_eq_false] at rcptSent
        have isRcpt := sendRecipients_outgoing rcptSent
        rw [if_neg mailOk, if_neg rcptOk, if_neg dataOk, readReply_outgoing, httpConnSendRaw]
        dsimp only
        rw [foldl_outgoing, readReply_outgoing, httpConnSendRaw]
        dsimp only
        rw [isRcpt, readReply_outgoing, httpConnSendRaw, dialogue]
        simp only [List.append_assoc]

/-- An address leaves no quoted string open and has no `>` outside of one. -/
def closes (quoting : Quoting) : CString → Bool
  | [] => quoting = .outside
  | c :: text => !decide (c = 62 ∧ quoting = .outside) && closes (quoting.next c) text

variable {address text line : CString} {verb : Verb}

theorem readPath_iff {quoting : Quoting} :
    readPath quoting text = some (address, []) ↔ text = address ++ [62] ∧ closes quoting address := by
  induction text generalizing quoting address with
  | nil => simp [readPath]
  | cons c text ih =>
      rw [readPath]
      split
      next isEnd =>
        rcases isEnd with ⟨rfl, rfl⟩
        cases address with
        | nil => simp [closes]
        | cons d address =>
            constructor
            · intro isPath
              simp at isPath
            · rintro ⟨isText, isClosed⟩
              obtain ⟨rfl, -⟩ := List.cons_eq_cons.mp isText
              simp [closes] at isClosed
      next notEnd =>
        cases address with
        | nil =>
            constructor
            · intro isPath
              simp at isPath
            · rintro ⟨isText, isClosed⟩
              obtain ⟨rfl, -⟩ := List.cons_eq_cons.mp isText
              exact absurd ⟨rfl, of_decide_eq_true isClosed⟩ notEnd
        | cons d address =>
            have isMap : (readPath (quoting.next c) text).map (fun path => (c :: path.1, path.2)) =
                some (d :: address, []) ↔
                c = d ∧ readPath (quoting.next c) text = some (address, []) := by
              simp only [Option.map_eq_some_iff, Prod.exists, Prod.mk.injEq, List.cons.injEq]
              constructor
              · rintro ⟨_, _, isRead, ⟨rfl, rfl⟩, rfl⟩
                exact ⟨rfl, isRead⟩
              · rintro ⟨rfl, isRead⟩
                exact ⟨_, _, isRead, ⟨rfl, rfl⟩, rfl⟩
            rw [isMap, ih, List.cons_append, List.cons_eq_cons, closes]
            constructor
            · rintro ⟨rfl, isText, isClosed⟩
              simp [isText, isClosed, notEnd]
            · rintro ⟨⟨rfl, isText⟩, isClosed⟩
              exact ⟨rfl, isText, (Bool.and_eq_true_iff.mp isClosed).2⟩

theorem dropPrefix?_iff {first rest : CString} :
    line.dropPrefix? first = some rest ↔ line = first ++ rest := by
  rw [List.dropPrefix?_eq_some_iff]
  constructor
  · rintro ⟨found, isLine, same⟩
    rw [isLine, eq_of_beq same]
  · rintro isLine
    exact ⟨first, isLine, beq_self_eq_true first⟩

theorem readVerb_iff {command : Command} : readVerb verb line = some command ↔
      ∃ text address parameters, line = verb.text ++ text ∧
        readPath .outside text = some (address, parameters) ∧
        command = .path verb address parameters := by
  simp only [readVerb, Option.bind_eq_some_iff, dropPrefix?_iff, Option.map_eq_some_iff, Prod.exists]
  constructor
  · rintro ⟨text, isLine, address, parameters, isPath, rfl⟩
    exact ⟨text, address, parameters, isLine, isPath, rfl⟩
  · rintro ⟨text, address, parameters, isLine, isPath, rfl⟩
    exact ⟨text, isLine, address, parameters, isPath, rfl⟩

theorem readVerb_other (text : CString) : readVerb .mail (Verb.rcpt.text ++ text) = none := by
  rw [Option.eq_none_iff_forall_ne_some]
  intro command isCommand
  obtain ⟨other, _, _, isLine, _⟩ := readVerb_iff.mp isCommand
  obtain ⟨same, -⟩ := List.cons_eq_cons.mp (show (82 : UInt8) :: _ = 77 :: _ from isLine)
  exact absurd same (by decide)

/-- The line of a command with an address and nothing behind it. -/
def pathLine (verb : Verb) (address : CString) : CString :=
  verb.text ++ (address ++ [62])

theorem readCommand_path : readCommand line = .path verb address [] ↔
      line = pathLine verb address ∧ closes .outside address := by
  constructor
  · intro isCommand
    rw [readCommand] at isCommand
    have fromVerb : ∀ {other : Verb} {command : Command}, readVerb other line = some command →
        command = .path verb address [] → line = pathLine verb address ∧ closes .outside address := by
      rintro other _ isRead rfl
      obtain ⟨text, _, _, rfl, isPath, same⟩ := readVerb_iff.mp isRead
      obtain ⟨rfl, rfl, rfl⟩ := Command.path.inj same
      obtain ⟨rfl, isClosed⟩ := readPath_iff.mp isPath
      exact ⟨rfl, isClosed⟩
    cases isMail : readVerb .mail line with
    | some command =>
        rw [isMail] at isCommand
        exact fromVerb isMail isCommand
    | none =>
        cases isRcpt : readVerb .rcpt line with
        | some command =>
            rw [isMail, isRcpt] at isCommand
            exact fromVerb isRcpt isCommand
        | none =>
            rw [isMail, isRcpt] at isCommand
            simp only [Option.or_self, Option.getD_none] at isCommand
            split at isCommand <;> simp at isCommand
  · rintro ⟨rfl, isClosed⟩
    have isRead : readVerb verb (pathLine verb address) = some (.path verb address []) :=
      readVerb_iff.mpr ⟨_, _, _, rfl, readPath_iff.mpr ⟨rfl, isClosed⟩, rfl⟩
    rw [readCommand]
    cases verb with
    | mail =>
        rw [isRead]
        rfl
    | rcpt =>
        rw [isRead, pathLine, readVerb_other]
        rfl

theorem readCommand_data : readCommand (literal "DATA") = .data := by
  decide

/-- A command with an address is the first that the server gets exactly if its line is not broken
and its address closes. -/
theorem serve_path_iff {events : List Event} :
    serve none (terminated 13 10 [] (pathLine verb address ++ [13, 10] ++ text)) =
        .command (.path verb address []) :: events ↔
      (¬ [13, 10] <:+: pathLine verb address ++ [13] ∧ closes .outside address = true) ∧
        serve none (terminated 13 10 [] text) = events := by
  constructor
  · intro isServed
    cases isLines : terminated 13 10 [] (pathLine verb address ++ [13, 10] ++ text) with
    | nil =>
        rw [isLines] at isServed
        simp [serve] at isServed
    | cons line lines =>
        rw [isLines, serve] at isServed
        obtain ⟨isFirst, isRest⟩ := List.cons_eq_cons.mp isServed
        obtain ⟨rfl, isClosed⟩ := readCommand_path.mp (Event.command.inj isFirst)
        have member : pathLine verb address ∈
            terminated 13 10 [] (pathLine verb address ++ [13, 10] ++ text) := by
          rw [isLines]
          exact List.mem_cons_self
        have free := free_of_mem_terminated (by simp) member
        rw [terminated_line free] at isLines
        obtain ⟨-, rfl⟩ := List.cons_eq_cons.mp isLines
        rw [if_neg (by rw [Event.command.inj isFirst]; exact Command.noConfusion)] at isRest
        exact ⟨⟨free, isClosed⟩, isRest⟩
  · rintro ⟨⟨free, isClosed⟩, rfl⟩
    have isCommand : readCommand (pathLine verb address) = .path verb address [] :=
      readCommand_path.mpr ⟨rfl, isClosed⟩
    rw [terminated_line free, serve, isCommand, if_neg Command.noConfusion]

theorem serve_recipients_iff {events : List Event} : serve none (terminated 13 10 []
          ((recipients.flatMap fun address => pathLine .rcpt address ++ [13, 10]) ++ text)) =
        (recipients.map fun address => .command (.path .rcpt address [])) ++ events ↔
      (∀ address ∈ recipients, ¬ [13, 10] <:+: pathLine .rcpt address ++ [13] ∧
          closes .outside address = true) ∧
        serve none (terminated 13 10 [] text) = events := by
  induction recipients with
  | nil => simp
  | cons address recipients ih =>
      rw [List.flatMap_cons, List.append_assoc, List.map_cons, List.cons_append, serve_path_iff, ih,
        List.forall_mem_cons]
      simp only [and_assoc]

/-- The line with its dot doubled. -/
def stuffed (line : CString) : CString :=
  if (literal ".").isPrefixOf line then literal "." ++ line else line

theorem unstuffed_stuffed (line : CString) : unstuffed (stuffed line) = line := by
  rw [stuffed]
  split
  · rfl
  next noDot => rw [unstuffed, if_neg noDot]

theorem stuffed_ne (line : CString) : stuffed line ≠ literal "." := by
  rw [stuffed]
  split
  next isDot =>
    intro same
    have isEmpty : line = [] := List.append_cancel_left same
    rw [isEmpty] at isDot
    exact Bool.noConfusion isDot
  next noDot =>
    rintro rfl
    exact noDot rfl

theorem serve_message (lines got : List CString) :
    serve (some got) (lines.map stuffed ++ [literal "."]) = [messageOf (got ++ lines)] := by
  induction lines generalizing got with
  | nil => simp [serve]
  | cons line lines ih =>
      rw [List.map_cons, List.cons_append, serve, if_neg (stuffed_ne line), unstuffed_stuffed, ih,
        List.append_assoc, List.singleton_append]

/-- The lines of the message as the client cuts them. -/
def messageLines (sender : CString) (recipients : List CString) (subject body : CString) :
    List CString :=
  ((messageText sender recipients subject body).splitOn 10).map (stripped 13)

theorem notMem_messageLines (member : line ∈ messageLines sender recipients subject body) :
    10 ∉ line := by
  obtain ⟨part, isPart, rfl⟩ := List.mem_map.mp member
  exact fun inside => notMem_of_mem_splitOn isPart (stripped_subset 13 part inside)

theorem serve_data (sender : CString) (recipients : List CString) (subject body : CString) :
    serve none (terminated 13 10 [] (literal "DATA\r\n" ++
        (((messageText sender recipients subject body).splitOn 10).flatMap wireLine ++
          literal ".\r\n"))) =
      [.command .data, messageOf (messageLines sender recipients subject body)] := by
  have isWire : ((messageText sender recipients subject body).splitOn 10).flatMap wireLine =
      ((messageLines sender recipients subject body).map stuffed).flatMap fun line =>
        line ++ [13, 10] := by
    rw [messageLines, List.map_map, List.flatMap_map]
    rfl
  have free : ∀ line ∈ (messageLines sender recipients subject body).map stuffed, 10 ∉ line := by
    intro line member
    obtain ⟨cut, isCut, rfl⟩ := List.mem_map.mp member
    have notInside := notMem_messageLines isCut
    rw [stuffed]
    split
    · rw [List.mem_append, not_or]
      exact ⟨by decide, notInside⟩
    · exact notInside
  have isData : literal "DATA\r\n" = literal "DATA" ++ [13, 10] := by decide
  have notBroken : ¬ [13, 10] <:+: literal "DATA" ++ [13] :=
    free_of_notMem (by decide) (by decide)
  have isDot : terminated 13 10 [] (literal ".\r\n") = [literal "."] := by decide
  rw [isWire, isData, terminated_line notBroken, terminated_flatMap (by decide) free, isDot, serve,
    readCommand_data, if_pos rfl, serve_message, List.nil_append]

/-- The header lines that are meant. -/
def headerLines (sender : CString) (recipients : List CString) (subject : CString) : List CString :=
  [literal "From: " ++ sender, literal "To: " ++ (literal ", ").intercalate recipients,
    literal "Subject: " ++ subject]

theorem messageLines_eq (free : ∀ header ∈ headerLines sender recipients subject, 10 ∉ header)
    (body : CString) : messageLines sender recipients subject body =
      headerLines sender recipients subject ++ [] :: (body.splitOn 10).map (stripped 13) := by
  have isText : messageText sender recipients subject body =
      ((literal "From: " ++ sender) ++ [13]) ++ 10 ::
        (((literal "To: " ++ (literal ", ").intercalate recipients) ++ [13]) ++ 10 ::
          (((literal "Subject: " ++ subject) ++ [13]) ++ 10 :: ([13] ++ 10 :: body))) := by
    have isTo : literal "\r\nTo: " = [13, 10] ++ literal "To: " := by decide
    have isSubject : literal "\r\nSubject: " = [13, 10] ++ literal "Subject: " := by decide
    have isEnd : literal "\r\n\r\n" = [13, 10, 13, 10] := by decide
    rw [messageText, isTo, isSubject, isEnd]
    simp only [List.append_assoc, List.cons_append, List.nil_append]
  have freeEnd : ∀ header ∈ headerLines sender recipients subject, 10 ∉ header ++ [13] := by
    intro header member
    rw [List.mem_append, not_or]
    exact ⟨free header member, by decide⟩
  simp only [headerLines, List.forall_mem_cons] at freeEnd
  obtain ⟨freeFrom, freeTo, freeSubject, -⟩ := freeEnd
  rw [messageLines, isText, List.splitOn_append_cons_self_of_not_mem freeFrom,
    List.splitOn_append_cons_self_of_not_mem freeTo,
    List.splitOn_append_cons_self_of_not_mem freeSubject,
    List.splitOn_append_cons_self_of_not_mem (by decide)]
  simp only [List.map_cons, stripped_concat, headerLines, List.cons_append, List.nil_append]
  rfl

/-- The message is the one that is meant exactly if its headers stay in their lines and its body
does not end in a CR. -/
theorem messageOf_iff : messageOf (messageLines sender recipients subject body) =
        .message (headerLines sender recipients subject) (withEnds 13 10 false body) ↔
      (∀ header ∈ headerLines sender recipients subject, 10 ∉ header) ∧
        body.getLast? ≠ some 13 := by
  have apart : (10 : UInt8) ≠ 13 := by decide
  have isBody := intercalate_splitOn apart List.not_mem_nil body
  simp only [List.nil_append, List.getLast?_nil, reduceCtorEq, decide_false] at isBody
  have isMessage : (∀ header ∈ headerLines sender recipients subject, 10 ∉ header) →
      messageOf (messageLines sender recipients subject body) =
        .message (headerLines sender recipients subject)
          ([13, 10].intercalate ((body.splitOn 10).map (stripped 13))) := by
    intro free
    rw [messageLines_eq free, messageOf]
    rfl
  constructor
  · intro isMeant
    have free : ∀ header ∈ headerLines sender recipients subject, 10 ∉ header := by
      rw [messageOf] at isMeant
      rw [← (Event.message.inj isMeant).1]
      intro header member
      exact notMem_messageLines (List.takeWhile_subset _ member)
    rw [isMessage free] at isMeant
    rw [← (Event.message.inj isMeant).2] at isBody
    have nothing : trailing (13 : UInt8) body = [] :=
      List.append_cancel_left (isBody.trans (List.append_nil _).symm)
    refine ⟨free, fun isEnd => ?_⟩
    rw [trailing, if_pos isEnd] at nothing
    exact List.cons_ne_nil _ _ nothing
  · rintro ⟨free, noEnd⟩
    rw [trailing, if_neg noEnd, List.append_nil] at isBody
    rw [isMessage free, isBody]

theorem readLineLoop_line {line rest : CString} (noEnd : 10 ∉ line) {buf : CString}
    (short : buf.length + line.length ≤ 8192) {stream : Stream}
    (isStream : stream.flatten = line ++ 10 :: rest) :
    ∃ later, readLineLoop buf stream = (buf ++ line, later) ∧ later.flatten = rest := by
  induction line generalizing buf stream with
  | nil =>
      obtain ⟨later, isRead, isRest⟩ := recv_one isStream
      refine ⟨later, ?_, isRest⟩
      rw [readLineLoop]
      simp [isRead]
  | cons ch line ih =>
      rw [List.length_cons] at short
      rw [List.mem_cons, not_or] at noEnd
      obtain ⟨middle, isRead, isMiddle⟩ := recv_one isStream
      have isKept : kept buf ch = buf ++ [ch] := if_neg (by omega)
      have stillShort : (buf ++ [ch]).length + line.length ≤ 8192 := by
        rw [List.length_append, List.length_singleton]
        omega
      obtain ⟨later, isLine, isRest⟩ := ih noEnd.2 stillShort isMiddle
      refine ⟨later, ?_, isRest⟩
      rw [readLineLoop]
      simp [isRead, Ne.symm noEnd.1, isKept, isLine]

theorem readReply_line {reply rest : CString} {conn : TinoxConn}
    (isReply : reply = literal "250 ok\r" ∨ reply = literal "354 go\r")
    (isStream : conn.incoming.flatten = reply ++ 10 :: rest) :
    ∃ later, readReply conn = (reply.take 3, { conn with incoming := later }) ∧
      later.flatten = rest := by
  have isKnown : 10 ∉ reply ∧ reply.length ≤ 8192 ∧
      4 ≤ ((stripped 13 reply).takeWhile (· != 0)).length ∧
      (((stripped 13 reply).takeWhile (· != 0)).drop 3).take 1 = [32] ∧
      ((stripped 13 reply).takeWhile (· != 0)).take 3 = reply.take 3 := by
    rcases isReply with rfl | rfl <;> decide
  obtain ⟨noEnd, short, isLong, isLast, isCode⟩ := isKnown
  obtain ⟨later, isRead, isRest⟩ := @readLineLoop_line _ _ noEnd []
    (by rw [List.length_nil, Nat.zero_add]; exact short) _ isStream
  have isLine : httpConnReadLine conn =
      ((stripped 13 reply).takeWhile (· != 0), { conn with incoming := later }) := by
    rw [httpConnReadLine, isRead]
    rfl
  refine ⟨later, ?_, isRest⟩
  rw [readReply]
  simp [isLine, Nat.not_lt.mpr isLong, isLast, isCode]

/-- Positive replies to commands. -/
def okReplies (n : Nat) : CString :=
  (List.replicate n (literal "250 ok\r\n")).flatten

theorem sendRecipients_ok {recipients : List CString} {rest : CString} {conn : TinoxConn}
    (isStream : conn.incoming.flatten = okReplies recipients.length ++ rest) :
    ∃ later, sendRecipients conn recipients = (true, later) ∧ later.incoming.flatten = rest := by
  induction recipients generalizing conn with
  | nil => exact ⟨conn, rfl, isStream⟩
  | cons address recipients ih =>
      have isNext : (httpConnSendRaw conn
          (literal "RCPT TO:<" ++ address ++ literal ">\r\n")).incoming.flatten =
          literal "250 ok\r" ++ 10 :: (okReplies recipients.length ++ rest) := by
        have isLine : literal "250 ok\r\n" = literal "250 ok\r" ++ [10] := by decide
        rw [httpConnSendRaw, isStream, okReplies, List.length_cons, List.replicate_succ,
          List.flatten_cons, ← okReplies, isLine]
        simp
      obtain ⟨middle, isRead, isMiddle⟩ := readReply_line (Or.inl rfl) isNext
      obtain ⟨later, isSent, isRest⟩ := @ih { httpConnSendRaw conn _ with incoming := middle } isMiddle
      refine ⟨later, ?_, isRest⟩
      have isOk : isPositive ((literal "250 ok\r").take 3) = true := by decide
      rw [sendRecipients, isRead]
      simp only [isOk, if_true]
      exact isSent

theorem foldl_incoming (lines : List CString) (conn : TinoxConn) :
    (lines.foldl (fun conn line => httpConnSendRaw conn (wireLine line)) conn).incoming =
      conn.incoming := by
  induction lines generalizing conn with
  | nil => rfl
  | cons line lines ih =>
      rw [List.foldl_cons, ih]
      rfl

/-- The replies of a server that takes everything. -/
def allReplies (recipients : List CString) : CString :=
  literal "250 ok\r" ++ 10 :: (okReplies recipients.length ++
    (literal "354 go\r" ++ 10 :: (literal "250 ok\r" ++ [10])))

theorem send_accepted (sender : CString) (recipients : List CString) (subject body : CString)
    {conn : TinoxConn} (isStream : conn.incoming.flatten = allReplies recipients) :
    (send conn sender recipients subject body).1 = true := by
  have isOk : isPositive ((literal "250 ok\r").take 3) = true := by decide
  have isData : ((literal "354 go\r").take 3 != literal "354") = false := by decide
  obtain ⟨afterMail, isMail, isRest⟩ := @readReply_line _ _
    (httpConnSendRaw conn (literal "MAIL FROM:<" ++ sender ++ literal ">\r\n")) (Or.inl rfl) isStream
  obtain ⟨afterRcpt, isRcpt, isRest⟩ := @sendRecipients_ok recipients _
    { httpConnSendRaw conn (literal "MAIL FROM:<" ++ sender ++ literal ">\r\n") with
      incoming := afterMail } isRest
  obtain ⟨afterData, isGo, isRest⟩ := @readReply_line _ _
    (httpConnSendRaw afterRcpt (literal "DATA\r\n")) (Or.inr rfl) isRest
  have isLast : (httpConnSendRaw
      (((messageText sender recipients subject body).splitOn 10).foldl
        (fun conn line => httpConnSendRaw conn (wireLine line))
        { httpConnSendRaw afterRcpt (literal "DATA\r\n") with incoming := afterData })
      (literal ".\r\n")).incoming.flatten = literal "250 ok\r" ++ [10] := by
    rw [httpConnSendRaw]
    dsimp only
    rw [foldl_incoming]
    exact isRest
  obtain ⟨_, isEnd, _⟩ := readReply_line (Or.inl rfl) isLast
  rw [send, isMail]
  simp only [isOk, isRcpt, isGo, isData, isEnd, Bool.not_true, Bool.false_eq_true, if_false]

/-- Values that leave the dialogue as it is: no line breaks in addresses and the subject, addresses
that close, and no CR at the end of the body. -/
structure Harmless (sender : CString) (recipients : List CString) (subject body : CString) : Prop where
  senderLine : 10 ∉ sender
  senderCloses : closes .outside sender
  recipientLines : ∀ address ∈ recipients, 10 ∉ address
  recipientsClose : ∀ address ∈ recipients, closes .outside address
  subjectLine : 10 ∉ subject
  bodyEnd : body.getLast? ≠ some 13

theorem mem_intercalate {x : UInt8} {separator : CString} (notInside : x ∉ separator)
    (values : List CString) : x ∈ separator.intercalate values ↔ ∃ value ∈ values, x ∈ value := by
  induction values with
  | nil => simp
  | cons value values ih =>
      cases values with
      | nil => simp
      | cons next values =>
          rw [List.intercalate_cons_cons, List.mem_append, List.mem_append, ih]
          simp [notInside]

theorem headerLines_iff : (∀ header ∈ headerLines sender recipients subject, 10 ∉ header) ↔
      10 ∉ sender ∧ (∀ address ∈ recipients, 10 ∉ address) ∧ 10 ∉ subject := by
  have noFrom : (10 : UInt8) ∉ literal "From: " := by decide
  have noTo : (10 : UInt8) ∉ literal "To: " := by decide
  have noSubject : (10 : UInt8) ∉ literal "Subject: " := by decide
  have noComma : (10 : UInt8) ∉ literal ", " := by decide
  simp [headerLines, noFrom, noTo, noSubject, mem_intercalate noComma]

theorem pathLine_free (notInside : 10 ∉ address) :
    ¬ [13, 10] <:+: pathLine verb address ++ [13] := by
  apply free_of_notMem (by decide)
  have noVerb : (10 : UInt8) ∉ verb.text := by cases verb <;> decide
  simp [pathLine, noVerb, notInside]

theorem received_iff :
    received (dialogue sender recipients subject body) = intended sender recipients subject body ↔
      Harmless sender recipients subject body := by
  have isEnd : literal ">\r\n" = [62] ++ [13, 10] := by decide
  have isDialogue : dialogue sender recipients subject body =
      pathLine .mail sender ++ [13, 10] ++
        ((recipients.flatMap fun address => pathLine .rcpt address ++ [13, 10]) ++
          (literal "DATA\r\n" ++ (((messageText sender recipients subject body).splitOn 10).flatMap
            wireLine ++ literal ".\r\n"))) := by
    rw [dialogue, isEnd]
    simp only [pathLine, Verb.text, List.append_assoc]
  have isMessage : [.command .data, messageOf (messageLines sender recipients subject body)] =
      [.command .data,
        .message (headerLines sender recipients subject) (withEnds 13 10 false body)] ↔
      (10 ∉ sender ∧ (∀ address ∈ recipients, 10 ∉ address) ∧ 10 ∉ subject) ∧
        body.getLast? ≠ some 13 := by
    rw [← headerLines_iff, ← messageOf_iff]
    simp
  rw [headerLines] at isMessage
  rw [received, isDialogue, intended, serve_path_iff, serve_recipients_iff, serve_data, isMessage]
  constructor
  · rintro ⟨⟨_, senderCloses⟩, recipientsGood, ⟨senderLine, recipientLines, subjectLine⟩, bodyEnd⟩
    exact ⟨senderLine, senderCloses, recipientLines,
      fun address member => (recipientsGood address member).2, subjectLine, bodyEnd⟩
  · intro harmless
    exact ⟨⟨pathLine_free harmless.senderLine, harmless.senderCloses⟩,
      fun address member => ⟨pathLine_free (harmless.recipientLines address member),
        harmless.recipientsClose address member⟩,
      ⟨harmless.senderLine, harmless.recipientLines, harmless.subjectLine⟩, harmless.bodyEnd⟩

/-- When the client reports success, a server got what was meant, whatever it replied, exactly if
the values are harmless. -/
theorem send_intended_iff (sender : CString) (recipients : List CString) (subject body : CString) :
    (∀ conn, (send conn sender recipients subject body).1 = true →
      ∃ written, (send conn sender recipients subject body).2.outgoing = conn.outgoing ++ written ∧
        received written = intended sender recipients subject body) ↔
      Harmless sender recipients subject body := by
  constructor
  · intro isMeant
    have isSent := @send_accepted sender recipients subject body ⟨[allReplies recipients], [], false⟩
      List.flatten_singleton
    obtain ⟨written, isWritten, isReceived⟩ := isMeant _ isSent
    rw [send_outgoing isSent] at isWritten
    obtain rfl := List.append_cancel_left isWritten
    exact received_iff.mp isReceived
  · intro harmless conn isSent
    exact ⟨_, send_outgoing isSent, received_iff.mpr harmless⟩

/-- A subject with a line break adds a header line, and the mail is reported as sent. -/
theorem send_subject_header :
    (send ⟨[allReplies [literal "b@y"]], [], false⟩ (literal "a@x") [literal "b@y"]
        (literal "Hi\r\nBcc: c@z") (literal "Hello")).1 = true ∧
      (send ⟨[allReplies [literal "b@y"]], [], false⟩ (literal "a@x") [literal "b@y"]
        (literal "Hi\r\nBcc: c@z") (literal "Hello")).2.outgoing =
          [] ++ dialogue (literal "a@x") [literal "b@y"] (literal "Hi\r\nBcc: c@z") (literal "Hello") ∧
      received (dialogue (literal "a@x") [literal "b@y"] (literal "Hi\r\nBcc: c@z") (literal "Hello")) =
        [.command (.path .mail (literal "a@x") []), .command (.path .rcpt (literal "b@y") []),
          .command .data,
          .message [literal "From: a@x", literal "To: b@y", literal "Subject: Hi", literal "Bcc: c@z"]
            (literal "Hello")] := by
  have isSent := @send_accepted (literal "a@x") [literal "b@y"] (literal "Hi\r\nBcc: c@z")
    (literal "Hello") ⟨[allReplies [literal "b@y"]], [], false⟩ List.flatten_singleton
  exact ⟨isSent, send_outgoing isSent, by decide⟩

end Tinox.Net.SmtpClient

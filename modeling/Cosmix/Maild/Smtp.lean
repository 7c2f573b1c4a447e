/- source: maild/src/smtp/session.rs
   digest: The lines of a client as commands, credentials and data; authentication under TLS. -/

import Cosmix.Lib.Machine

/-! One loop reads all lines, and a mode says what the next one is taken for. Mail leaves a session
at the end of the data only; that its sender was authenticated rests on checks made earlier, and on
what the upgrade resets. -/

namespace Cosmix.Maild.Smtp

open Lib List

abbrev Bytes := List UInt8

abbrev Text := List Char

/-- What lines are read with: lossy decoding, white space and the cases of letters. -/
structure Texts where
  fromUtf8Lossy : Bytes → Text
  isWhitespace : Char → Bool
  (toUppercase toLowercase : Text → Text)

structure Account where
  id : Int
  email : Text
  deriving DecidableEq

structure Port where
  (requireAuth requireStarttls : Bool)
  tls : Bool
  maxMessageSize : Nat

inductive Mode
  | command
  | data (buf : Bytes) (invalid : Bool)
  | plain
  | username
  | password
  /-- The plaintext loop has returned, and the handshake is next. -/
  | upgrade
  | closed
  deriving DecidableEq

structure Session where
  tlsActive : Bool
  authenticated : Option Account
  mailFrom : Option Text
  rcptTo : List Text
  ehloHost : Option Text
  mode : Mode
  deriving DecidableEq

structure Message where
  ingress : Option Account
  sender : Text
  rcptTo : List Text
  data : Bytes
  ehlo : Text
  deriving DecidableEq

inductive Event
  | reply (code : Nat)
  | authenticated (account : Account) (tls : Bool)
  /-- A sender was set, and the account it was found to be authorised for. -/
  | sender (addr : Text) (account : Option Account)
  | handed (message : Message) (tls : Bool)
  deriving DecidableEq

/-- What the rest of the daemon answers while a line is handled. -/
structure Env where
  /-- The outcome of a login; none when the credentials cannot be decoded or looked up. -/
  auth : Option (Option Account)
  senderAuthorized : Text → Text → Bool
  decideRcptTo : Text → Option Text
  tokenShaped : Text → Bool
  (permit delivers : Bool)

namespace Texts

variable (t : Texts)

def trimEnd (s : Text) : Text := (s.reverse.dropWhile t.isWhitespace).reverse

def trim (s : Text) : Text := t.trimEnd (s.dropWhile t.isWhitespace)

def extractAngleAddr (s : Text) : Option Text :=
  match s with
  | '<' :: rest =>
    if '>' ∈ rest then some (t.toLowercase (rest.takeWhile (· ≠ '>'))) else none
  | s =>
    match s.dropWhile t.isWhitespace with
    | [] => none
    | s => some (t.toLowercase (s.takeWhile fun c => !t.isWhitespace c))

def parseMailFrom (args : Text) : Option Text :=
  if (t.toUppercase args).take 5 = "FROM:".toList then t.extractAngleAddr (t.trim (args.drop 5))
  else none

end Texts

inductive Verb
  | hello | starttls | auth | mail | rcpt | data | rset | noop | quit | unknown
  deriving DecidableEq

def verb (cmd : Text) : Verb :=
  if cmd = "EHLO".toList ∨ cmd = "HELO".toList then .hello
  else if cmd = "STARTTLS".toList then .starttls
  else if cmd = "AUTH".toList then .auth
  else if cmd = "MAIL".toList then .mail
  else if cmd = "RCPT".toList then .rcpt
  else if cmd = "DATA".toList then .data
  else if cmd = "RSET".toList then .rset
  else if cmd = "NOOP".toList then .noop
  else if cmd = "QUIT".toList then .quit
  else .unknown

def tokenNamespaceMaxBytes : Nat := 256 * 1024

def dataLineCrlfStrict (line : Bytes) : Bool :=
  match line.reverse with
  | 10 :: 13 :: body => !body.contains 13
  | _ => false

def isTerminator (port : Port) (line : Bytes) : Bool :=
  line = [46, 13, 10] || (!port.requireAuth && line = [46, 10])

/-- A line of a message without the dot it was stuffed with. -/
def unstuffed : Bytes → Bytes
  | 46 :: 46 :: rest => 46 :: rest
  | line => line

namespace Session

variable (t : Texts) (port : Port) (e : Env) (s : Session)

def new (tlsActive : Bool) : Session where
  tlsActive := tlsActive
  authenticated := none
  mailFrom := none
  rcptTo := []
  ehloHost := none
  mode := .command

def resetTransaction : Session := { s with mailFrom := none, rcptTo := [] }

def tlsAvailable : Bool := !s.tlsActive && port.tls

/-- The end of a message. The newest event stands first, here as everywhere. -/
def handOver (buf : Bytes) : List Event :=
  let message : Message :=
    { ingress := s.authenticated, sender := s.mailFrom.getD [], rcptTo := s.rcptTo, data := buf
      ehlo := s.ehloHost.getD "unknown".toList }
  if !s.rcptTo.isEmpty && s.rcptTo.all e.tokenShaped then
    -- accepted before anything is looked up, and dropped when too large or too many
    if buf.length ≤ tokenNamespaceMaxBytes && e.permit then
      [.handed message s.tlsActive, .reply 250]
    else [.reply 250]
  else [.reply (if e.delivers then 250 else 451), .handed message s.tlsActive]

def receiveData (buf : Bytes) (invalid : Bool) (line : Bytes) : Session × List Event :=
  if isTerminator port line then
    ({ s.resetTransaction with mode := .command },
      if invalid then [.reply 550] else s.handOver e buf)
  else if port.maxMessageSize < (buf ++ unstuffed line).length then
    ({ s.resetTransaction with mode := .command }, [.reply 552])
  else
    let invalid := invalid || port.requireAuth && !dataLineCrlfStrict line
    ({ s with mode := .data (buf ++ unstuffed line) invalid }, [])

def finishAuth : Session × List Event :=
  match e.auth with
  | none => ({ s with mode := .closed }, [])
  | some none => ({ s with mode := .command }, [.reply 535])
  | some (some account) =>
    let account := { account with email := t.toLowercase account.email }
    ({ s with mode := .command, authenticated := some account },
      [.reply 235, .authenticated account s.tlsActive])

variable (args : Text)

def handleAuth : Session × List Event :=
  let mechanism := t.toUppercase (args.takeWhile (· ≠ ' '))
  if mechanism = "PLAIN".toList then
    if (args.dropWhile (· ≠ ' ')).drop 1 = [] then ({ s with mode := .plain }, [.reply 334])
    else s.finishAuth t e
  else if mechanism = "LOGIN".toList then ({ s with mode := .username }, [.reply 334])
  else ({ s with mode := .closed }, [])

def auth : Session × List Event :=
  if !port.requireAuth then (s, [.reply 502])
  else if s.authenticated.isSome then (s, [.reply 503])
  else if !s.tlsActive then (s, [.reply 530])
  else s.handleAuth t e args

def mail : Session × List Event :=
  if s.ehloHost.isNone then (s, [.reply 503])
  else if port.requireStarttls && !s.tlsActive then (s, [.reply 530])
  else if port.requireAuth && s.authenticated.isNone then (s, [.reply 530])
  else
    match t.parseMailFrom args with
    | none => (s, [.reply 501])
    | some addr =>
      if s.authenticated.all fun account => e.senderAuthorized addr account.email then
        ({ s with mailFrom := some addr }, [.reply 250, .sender addr s.authenticated])
      else (s, [.reply 530])

def rcpt : Session × List Event :=
  if s.mailFrom.isNone then (s, [.reply 503])
  else
    match e.decideRcptTo args with
    | none => (s, [.reply 550])
    | some addr => ({ s with rcptTo := s.rcptTo ++ [addr] }, [.reply 250])

def command (line : Bytes) : Session × List Event :=
  let text := t.trimEnd (t.fromUtf8Lossy line)
  let args := t.trim ((text.dropWhile (· ≠ ' ')).drop 1)
  match verb (t.toUppercase (text.takeWhile (· ≠ ' '))) with
  | .hello => ({ s.resetTransaction with ehloHost := some args }, [.reply 250])
  | .starttls =>
    if s.tlsAvailable port then ({ s with mode := .upgrade }, [.reply 220]) else (s, [.reply 502])
  | .auth => s.auth t port e args
  | .mail => s.mail t port e args
  | .rcpt => s.rcpt e args
  | .data =>
    if s.mailFrom.isNone || s.rcptTo.isEmpty then (s, [.reply 503])
    else ({ s with mode := .data [] false }, [.reply 354])
  | .rset => (s.resetTransaction, [.reply 250])
  | .noop => (s, [.reply 250])
  | .quit => ({ s with mode := .closed }, [.reply 221])
  | .unknown => (s, [.reply 502])

def receive (line : Bytes) : Session × List Event :=
  match s.mode with
  | .command => s.command t port e line
  | .data buf invalid => s.receiveData port e buf invalid line
  | .plain | .password => s.finishAuth t e
  | .username =>
    if e.auth.isNone then ({ s with mode := .closed }, [])
    else ({ s with mode := .password }, [.reply 334])
  -- the plaintext that was read ahead is thrown away
  | .upgrade | .closed => (s, [])

def upgraded : Session :=
  { s.resetTransaction with tlsActive := true, ehloHost := none, mode := .command }

end Session

/-- The lines of a stream; one that is too long ends the session. -/
def readLines (buf : Bytes) : Bytes → List Bytes
  | [] => if buf = [] then [] else [buf]
  | byte :: stream =>
    if byte = 10 then (buf ++ [byte]) :: readLines [] stream
    else if 1024 * 1024 < buf.length + 1 then []
    else readLines (buf ++ [byte]) stream

section

variable (t : Texts) (port : Port)

/-- The lines of a stream, each with what the daemon answers meanwhile. -/
def script (env : Nat → Env) (stream : Bytes) : List (Bytes × Env) :=
  (readLines [] stream).zipIdx.map fun x => (x.1, env x.2)

def Session.after (s : Session) (lines : List (Bytes × Env)) : Session :=
  lines.foldl (fun s x => (s.receive t port x.2 x.1).1) s

def Unended (lines : List (Bytes × Env)) : Prop := ∀ x ∈ lines, isTerminator port x.1 = false

/-- No line up to and with the first end of data is read as a command. -/
def NeverCommand (s : Session) (lines : List (Bytes × Env)) : Prop :=
  ∀ head next tail, lines = head ++ next :: tail → Unended port head →
    (s.after t port head).mode ≠ .command

/-- Every line that is followed by another one before the end of data keeps to the limit. -/
def Fits (lines : List (Bytes × Env)) : Prop :=
  ∀ head next tail, lines = head ++ next :: tail → Unended port head →
    (head.flatMap fun x => unstuffed x.1).length ≤ port.maxMessageSize

variable {t port} {s : Session} {e : Env} {line : Bytes}

namespace Session

variable (s e) (buf : Bytes) (invalid : Bool)

theorem receiveData_fits (hopen : isTerminator port line = false)
    (hfits : (buf ++ unstuffed line).length ≤ port.maxMessageSize) :
    s.receiveData port e buf invalid line = ({ s with
          mode := .data (buf ++ unstuffed line)
            (invalid || port.requireAuth && !dataLineCrlfStrict line) }, []) := by
  rw [receiveData, if_neg (Bool.not_eq_true _ ▸ hopen), if_neg (Nat.not_lt.mpr hfits)]

theorem receiveData_exceeds (hopen : isTerminator port line = false)
    (hlarge : ¬(buf ++ unstuffed line).length ≤ port.maxMessageSize) :
    (s.receiveData port e buf invalid line).1.mode = .command := by
  rw [receiveData, if_neg (Bool.not_eq_true _ ▸ hopen), if_pos (Nat.lt_of_not_le hlarge)]

variable {s e} {lines : List (Bytes × Env)}

theorem after_snoc (x : Bytes × Env) :
    s.after t port (lines ++ [x]) = ((s.after t port lines).receive t port x.2 x.1).1 := by
  rw [after, foldl_append]
  rfl

theorem after_data (hmode : s.mode = .data [] false) (hopen : Unended port lines)
    (hfits : (lines.flatMap fun x => unstuffed x.1).length ≤ port.maxMessageSize) :
    ∃ invalid, (s.after t port lines).mode =
      .data (lines.flatMap fun x => unstuffed x.1) invalid := by
  induction lines using reverseRecOn with
  | nil => exact ⟨false, hmode⟩
  | append_singleton lines x ih =>
    rw [flatMap_append, flatMap_singleton] at hfits ⊢
    obtain ⟨invalid, hbefore⟩ := ih (fun y hy => hopen y (mem_append_left _ hy))
      (Nat.le_trans (sublist_append_left _ _).length_le hfits)
    rw [after_snoc, receive, hbefore]
    exact ⟨_, congrArg (fun r => r.1.mode)
      (receiveData_fits _ x.2 _ invalid (hopen x mem_concat_self) hfits)⟩

theorem receive_354 (h : .reply 354 ∈ (s.receive t port e line).2) :
    (s.receive t port e line).1.mode = .data [] false := by
  revert h
  rw [receive]
  split
  · rw [command]
    split
    · simp
    · split <;> simp
    · rw [auth, handleAuth, finishAuth]
      repeat' split
      all_goals simp
    · rw [mail]
      repeat' split
      all_goals simp
    · rw [rcpt]
      repeat' split
      all_goals simp
    · split <;> simp
    all_goals simp
  · rw [receiveData, handOver]
    repeat' split
    all_goals simp
  all_goals
    first
    | rw [finishAuth]; split <;> simp
    | split <;> simp
    | simp

end Session

theorem neverCommand_iff (hmode : s.mode = .data [] false) (lines : List (Bytes × Env)) :
    NeverCommand t port s lines ↔ Fits port lines := by
  constructor
  · intro hnever head
    -- the line after the first that exceeds the limit would be a command
    induction head using reverseRecOn with
    | nil => exact fun _ _ _ _ => Nat.zero_le _
    | append_singleton head x ih =>
      intro next tail hlines hopen
      have hinit : Unended port head := fun y hy => hopen y (mem_append_left _ hy)
      have hsize := ih x (next :: tail) (by rw [hlines, append_assoc]; rfl) hinit
      obtain ⟨invalid, hbefore⟩ := Session.after_data (t := t) hmode hinit hsize
      by_contra hlarge
      rw [flatMap_append, flatMap_singleton] at hlarge
      apply hnever (head ++ [x]) next tail hlines hopen
      rw [Session.after_snoc, Session.receive, hbefore]
      exact Session.receiveData_exceeds _ x.2 _ invalid (hopen x mem_concat_self) hlarge
  · intro hfits head next tail hlines hopen
    obtain ⟨_, hdata⟩ :=
      Session.after_data (t := t) hmode hopen (hfits head next tail hlines hopen)
    rw [hdata]
    exact Mode.noConfusion

/-- After DATA the lines are never commands exactly when no line but the last read takes the message
over the limit. -/
theorem data_never_commands_iff (t : Texts) (port : Port) (s : Session) (env : Nat → Env)
    (stream : Bytes) : ∀ before x rest, script env stream = before ++ x :: rest →
      .reply 354 ∈ ((s.after t port before).receive t port x.2 x.1).2 →
      (NeverCommand t port (s.after t port (before ++ [x])) rest ↔ Fits port rest) := by
  intro before x rest _ hanswered
  rw [Session.after_snoc]
  exact neverCommand_iff (Session.receive_354 hanswered) rest

def ascii : Texts where
  fromUtf8Lossy bytes := bytes.map fun b => Char.ofNat b.toNat
  isWhitespace := Char.isWhitespace
  toUppercase := map Char.toUpper
  toLowercase := map Char.toLower

def agreeable : Env where
  auth := some (some ⟨1, "ann@here".toList⟩)
  senderAuthorized _ _ := true
  decideRcptTo := some
  tokenShaped _ := false
  permit := true
  delivers := true

def crlf (text : String) : Bytes × Env :=
  (text.toList.map (fun c => c.val.toUInt8) ++ [13, 10], agreeable)

private def inbound : Port where
  requireAuth := false
  requireStarttls := false
  tls := true
  maxMessageSize := 8

private def envelope : List (Bytes × Env) :=
  [crlf "EHLO there", crlf "MAIL FROM:<bob@there>", crlf "RCPT TO:<ann@here>"]

/-- A message whose second line looks like a command. -/
private def body (first : String) : List (Bytes × Env) := [crlf first, crlf "RSET", crlf "."]

private def sent (first : String) : Bytes :=
  (envelope ++ crlf "DATA" :: body first).flatMap Prod.fst

private theorem script_sent (first : String)
    (h : readLines [] (sent first) = (envelope ++ crlf "DATA" :: body first).map Prod.fst) :
    script (fun _ => agreeable) (sent first) = envelope ++ crlf "DATA" :: body first := by
  rw [script, h]
  rfl

theorem data_never_commands_short :
    script (fun _ => agreeable) (sent "") = envelope ++ crlf "DATA" :: body "" ∧
      (NeverCommand ascii inbound
          ((Session.new false).after ascii inbound (envelope ++ [crlf "DATA"])) (body "") ↔
        Fits inbound (body "")) :=
  have hscript := script_sent "" (by decide +kernel)
  ⟨hscript, data_never_commands_iff ascii inbound (Session.new false) (fun _ => agreeable)
    (sent "") envelope (crlf "DATA") (body "") hscript (by decide +kernel)⟩

theorem oversized_line_before_command :
    ∃ before x rest, script (fun _ => agreeable) (sent "too long") = before ++ x :: rest ∧
      .reply 354 ∈ (((Session.new false).after ascii inbound before).receive ascii inbound x.2 x.1).2 ∧
      ¬NeverCommand ascii inbound ((Session.new false).after ascii inbound (before ++ [x])) rest := by
  refine ⟨envelope, crlf "DATA", body "too long", script_sent _ (by decide +kernel),
    by decide +kernel, fun h => ?_⟩
  refine h [crlf "too long"] (crlf "RSET") [crlf "."] rfl (fun x hx => ?_) (by decide +kernel)
  rw [mem_singleton.mp hx]
  decide +kernel

end

structure Connection where
  session : Session
  history : List Event
  deriving DecidableEq

inductive Act
  | line (bytes : Bytes) (e : Env)
  /-- The handshake of an upgrade succeeded. -/
  | handshake
  | hangUp

def accepted (tlsActive : Bool) : Connection := ⟨.new tlsActive, []⟩

def step (t : Texts) (port : Port) (c : Connection) : Act → Option Connection
  | .line bytes e =>
    let (session, events) := c.session.receive t port e bytes
    some ⟨session, events ++ c.history⟩
  | .handshake =>
    if c.session.mode = .upgrade then some { c with session := c.session.upgraded } else none
  | .hangUp => some { c with session := { c.session with mode := .closed } }

def Event.isSender : Event → Bool
  | .sender _ _ => true
  | _ => false

variable (t : Texts) (port : Port)

/-- The sender of a message that is handed over, against what happened before. -/
structure Vouched (m : Message) (tls : Bool) (older : List Event) : Prop where
  starttls : port.requireStarttls = true → tls = true
  auth : port.requireAuth = true → tls = true ∧ ∃ account, m.ingress = some account ∧
    .authenticated account true ∈ older ∧
    older.find? Event.isSender = some (.sender m.sender (some account))

def Sound : List Event → Prop
  | [] => True
  | .handed m tls :: older => Vouched port m tls older ∧ Sound older
  | _ :: older => Sound older

variable {t port}

variable (port)

/-- What a session knows where it is. -/
def ModeOk (s : Session) : Prop :=
  match s.mode with
  | .data _ _ => s.mailFrom.isSome = true
  | .plain | .username | .password =>
    port.requireAuth = true ∧ s.tlsActive = true ∧ s.authenticated = none
  | .upgrade => s.tlsActive = false
  | .command | .closed => True

structure SenderOk (s : Session) (history : List Event) (addr : Text) : Prop where
  starttls : port.requireStarttls = true → s.tlsActive = true
  auth : port.requireAuth = true → ∃ account, s.authenticated = some account ∧
    history.find? Event.isSender = some (.sender addr (some account))

structure Inv (c : Connection) : Prop where
  authenticated : ∀ account, c.session.authenticated = some account →
    c.session.tlsActive = true ∧ .authenticated account true ∈ c.history
  sender : ∀ addr, c.session.mailFrom = some addr → SenderOk port c.session c.history addr
  mode : ModeOk port c.session
  sound : Sound port c.history

variable {port} {c c' : Connection} {s : Session} {e : Env} {addr : Text}

namespace Inv

variable (h : Inv port c)
include h

theorem push {event : Event} (hquiet : event.isSender = false)
    (hsound : Sound port (event :: c.history)) :
    Inv port { c with history := event :: c.history } := by
  refine ⟨fun account ha => ?_, fun addr ha => ⟨(h.sender addr ha).starttls, fun hreq => ?_⟩, h.mode,
    hsound⟩
  · exact (h.authenticated account ha).imp_right (mem_cons_of_mem event)
  · rw [List.find?_cons_of_neg (Bool.not_eq_true _ ▸ hquiet)]
    exact (h.sender addr ha).auth hreq

theorem reply (code : Nat) : Inv port { c with history := .reply code :: c.history } :=
  h.push rfl h.sound

theorem handed (haddr : c.session.mailFrom = some addr) {m : Message}
    (hingress : m.ingress = c.session.authenticated) (hm : m.sender = addr) :
    Inv port { c with history := .handed m c.session.tlsActive :: c.history } := by
  have hsender := h.sender addr haddr
  refine h.push rfl ⟨⟨hsender.starttls, fun hreq => ?_⟩, h.sound⟩
  obtain ⟨account, hsome, hlast⟩ := hsender.auth hreq
  obtain ⟨htls, hmem⟩ := h.authenticated account hsome
  exact ⟨htls, account, hingress.trans hsome, hmem, hm ▸ hlast⟩

/-- A session may go on with the account and the sender it has, or without the sender. -/
theorem move (hauth : s.authenticated = c.session.authenticated)
    (htls : s.tlsActive = c.session.tlsActive)
    (hfrom : s.mailFrom = c.session.mailFrom ∨ s.mailFrom = none) (hmode : ModeOk port s) :
    Inv port { c with session := s } := by
  refine ⟨fun account ha => ?_, fun addr ha => ?_, hmode, h.sound⟩
  · rw [htls]
    exact h.authenticated account (hauth ▸ ha)
  · rcases hfrom with hfrom | hfrom
    · have hold := h.sender addr (hfrom ▸ ha)
      refine ⟨fun hreq => htls.trans (hold.starttls hreq), fun hreq => ?_⟩
      rw [hauth]
      exact hold.auth hreq
    · cases hfrom.symm.trans ha

theorem finishAuth (hauth : port.requireAuth = true)
    (htls : c.session.tlsActive = true) (hnone : c.session.authenticated = none) :
    Inv port ⟨(c.session.finishAuth t e).1, (c.session.finishAuth t e).2 ++ c.history⟩ := by
  rw [Session.finishAuth]
  split
  · exact h.move rfl rfl (.inl rfl) trivial
  · exact (h.reply 535).move rfl rfl (.inl rfl) trivial
  refine ⟨fun account ha => ⟨htls, ?_⟩, fun addr ha => ?_, trivial, h.sound⟩
  · cases ha
    rw [htls]
    exact mem_cons_of_mem _ mem_cons_self
  · -- no sender is set before the login
    obtain ⟨_, hsome, -⟩ := (h.sender addr ha).auth hauth
    cases hnone.symm.trans hsome

theorem auth (args : Text) :
    Inv port ⟨(c.session.auth t port e args).1, (c.session.auth t port e args).2 ++ c.history⟩ := by
  rw [Session.auth]
  split
  · exact h.reply _
  rename_i hauth
  split
  · exact h.reply _
  rename_i hnone
  split
  · exact h.reply _
  rename_i htls
  replace hauth : port.requireAuth = true := by simpa using hauth
  replace hnone : c.session.authenticated = none := by simpa using hnone
  replace htls : c.session.tlsActive = true := by simpa using htls
  rw [Session.handleAuth]
  split
  · split
    · exact (h.reply 334).move rfl rfl (.inl rfl) ⟨hauth, htls, hnone⟩
    · exact h.finishAuth hauth htls hnone
  split
  · exact (h.reply 334).move rfl rfl (.inl rfl) ⟨hauth, htls, hnone⟩
  · exact h.move rfl rfl (.inl rfl) trivial

theorem mail (hmode : c.session.mode = .command) (args : Text) :
    Inv port ⟨(c.session.mail t port e args).1, (c.session.mail t port e args).2 ++ c.history⟩ := by
  rw [Session.mail]
  split
  · exact h.reply _
  split
  · exact h.reply _
  rename_i htls
  split
  · exact h.reply _
  rename_i hauth
  split
  · exact h.reply _
  split
  · refine ⟨fun account ha => ?_, fun addr ha => ?_, ?_, h.sound⟩
    · obtain ⟨hactive, hmem⟩ := h.authenticated account ha
      exact ⟨hactive, mem_cons_of_mem _ (mem_cons_of_mem _ hmem)⟩
    · cases ha
      refine ⟨fun hreq => ?_, fun hreq => ?_⟩
      · simpa [hreq] using htls
      · obtain ⟨account, hsome⟩ : ∃ account, c.session.authenticated = some account := by
          simpa [hreq, Option.ne_none_iff_exists'] using hauth
        refine ⟨account, hsome, ?_⟩
        change some (Event.sender _ c.session.authenticated) = _
        rw [hsome]
    · rw [hmode]
      trivial
  · exact h.reply _

theorem receiveData {buf : Bytes} {invalid : Bool}
    (hmode : c.session.mode = .data buf invalid) (bytes : Bytes) :
    Inv port ⟨(c.session.receiveData port e buf invalid bytes).1,
      (c.session.receiveData port e buf invalid bytes).2 ++ c.history⟩ := by
  have hfrom : c.session.mailFrom.isSome = true := by
    have hok := h.mode
    rw [ModeOk, hmode] at hok
    exact hok
  obtain ⟨_, haddr⟩ := Option.isSome_iff_exists.mp hfrom
  rw [Session.receiveData]
  split
  · split
    · exact (h.reply 550).move rfl rfl (.inr rfl) trivial
    · rw [Session.handOver, haddr]
      split
      · split
        · exact ((h.reply 250).handed haddr rfl rfl).move rfl rfl (.inr rfl) trivial
        · exact (h.reply 250).move rfl rfl (.inr rfl) trivial
      · exact ((h.handed haddr rfl rfl).reply _).move rfl rfl (.inr rfl) trivial
  split
  · exact (h.reply 552).move rfl rfl (.inr rfl) trivial
  · exact h.move rfl rfl (.inl rfl) hfrom

theorem command (hmode : c.session.mode = .command) (bytes : Bytes) :
    Inv port ⟨(c.session.command t port e bytes).1,
      (c.session.command t port e bytes).2 ++ c.history⟩ := by
  have hfree : ∀ s : Session, s.mode = c.session.mode → ModeOk port s := fun s hs => by
    rw [ModeOk, hs, hmode]
    trivial
  rw [Session.command]
  split
  · exact (h.reply 250).move rfl rfl (.inr rfl) (hfree _ rfl)
  · split
    · rename_i havailable
      refine (h.reply 220).move rfl rfl (.inl rfl) ?_
      rw [Session.tlsAvailable, Bool.and_eq_true, Bool.not_eq_true'] at havailable
      exact havailable.1
    · exact h.reply 502
  · exact h.auth _
  · exact h.mail hmode _
  · rw [Session.rcpt]
    split
    · exact h.reply 503
    · split
      · exact h.reply 550
      · exact (h.reply 250).move rfl rfl (.inl rfl) (hfree _ rfl)
  · split
    · exact h.reply 503
    · rename_i hset
      refine (h.reply 354).move rfl rfl (.inl rfl) ?_
      rw [Bool.or_eq_true, not_or, Bool.not_eq_true, Option.isNone_eq_false_iff] at hset
      exact hset.1
  · exact (h.reply 250).move rfl rfl (.inr rfl) (hfree _ rfl)
  · exact h.reply 250
  · exact (h.reply 221).move rfl rfl (.inl rfl) trivial
  · exact h.reply 502

theorem step {a : Act} (hstep : step t port c a = some c') : Inv port c' := by
  have hok := h.mode
  cases a with
  | line bytes =>
    cases hstep
    rw [ModeOk] at hok
    split
    · exact h.command ‹_› bytes
    · exact h.receiveData ‹_› bytes
    · rw [‹c.session.mode = _›] at hok
      exact h.finishAuth hok.1 hok.2.1 hok.2.2
    · rw [‹c.session.mode = _›] at hok
      exact h.finishAuth hok.1 hok.2.1 hok.2.2
    · rw [‹c.session.mode = _›] at hok
      split
      · exact h.move rfl rfl (.inl rfl) trivial
      · exact (h.reply 334).move rfl rfl (.inl rfl) hok
    · exact h
    · exact h
  | handshake =>
    obtain ⟨hupgrade, rfl⟩ := of_guarded hstep
    exact ⟨fun account ha => ⟨rfl, (h.authenticated account ha).2⟩, nofun,
      trivial, h.sound⟩
  | hangUp =>
    cases hstep
    exact h.move rfl rfl (.inl rfl) trivial

omit h

end Inv

def submission : Port where
  requireAuth := true
  requireStarttls := true
  tls := true
  maxMessageSize := 100

private def lines (texts : List String) : List Act :=
  texts.map fun text => .line (crlf text).1 agreeable

private def loggedIn : List Act :=
  lines ["EHLO there", "AUTH PLAIN eA==", "MAIL FROM:<ann@here>", "RCPT TO:<bob@there>", "DATA", "hi",
    "."]

/-- Data within the limit that came, dots unstuffed, in lines as strict as the port asks. -/
def Gathered (port : Port) (buf : Bytes) (invalid : Bool) : Prop :=
  buf.length ≤ port.maxMessageSize ∧ ∃ lines : List Bytes, buf = lines.flatMap unstuffed ∧
    (port.requireAuth = true → invalid = false → ∀ line ∈ lines, dataLineCrlfStrict line = true)

theorem Gathered.line {buf line : Bytes} {invalid : Bool} (h : Gathered port buf invalid)
    (hfits : (buf ++ unstuffed line).length ≤ port.maxMessageSize) : Gathered port
      (buf ++ unstuffed line) (invalid || port.requireAuth && !dataLineCrlfStrict line) := by
  obtain ⟨-, lines, rfl, hstrict⟩ := h
  exact ⟨hfits, lines ++ [line], by simp, by grind⟩

structure Orderly (port : Port) (c : Connection) : Prop where
  data : ∀ buf invalid, c.session.mode = .data buf invalid →
    c.session.rcptTo ≠ [] ∧ Gathered port buf invalid
  handed : ∀ m tls, .handed m tls ∈ c.history → m.rcptTo ≠ [] ∧ Gathered port m.data false

theorem Orderly.receive {c : Connection} (h : Orderly port c) (e : Env) (line : Bytes) :
    Orderly port ⟨(c.session.receive t port e line).1,
      (c.session.receive t port e line).2 ++ c.history⟩ := by
  have hnil : Gathered port [] false := ⟨Nat.zero_le _, [], rfl, fun _ _ _ => nofun⟩
  obtain ⟨hdata, hhanded⟩ := h
  have hline := @Gathered.line port
  unfold Session.receive Session.command Session.auth Session.handleAuth Session.finishAuth
    Session.mail Session.rcpt Session.receiveData Session.handOver
  dsimp only
  repeat' split
  all_goals constructor <;> grind [Session.resetTransaction]

/-- Whatever a client sends, a message handed over has a recipient and is within the limit; where
the port asks for authentication its lines end in CRLF and have no other CR. -/
theorem handed_message_orderly (t : Texts) (port : Port) (tlsActive : Bool) {acts : List Act}
    {c : Connection} (hrun : runFrom (step t port) (accepted tlsActive) acts = some c) :
    ∀ m tls, .handed m tls ∈ c.history → m.rcptTo ≠ [] ∧ Gathered port m.data false := by
  refine (runFrom_invariant (P := Orderly port) (fun c a c' h hstep => ?_) ?_ hrun).handed
  · cases a with
    | line bytes e =>
      cases hstep
      exact h.receive e bytes
    | handshake =>
      obtain ⟨-, rfl⟩ := of_guarded hstep
      exact ⟨fun _ _ => nofun, h.handed⟩
    | hangUp =>
      cases hstep
      exact ⟨fun _ _ => nofun, h.handed⟩
  · exact ⟨fun _ _ => nofun, fun _ _ => nofun⟩

theorem handed_message_orderly_mailed : ∃ c, runFrom (step ascii submission) (accepted true) loggedIn =
    some c ∧ ∀ m tls, .handed m tls ∈ c.history → m.rcptTo ≠ [] ∧ Gathered submission m.data false := by
  obtain ⟨c, hc⟩ := Option.isSome_iff_exists.mp (show (runFrom (step ascii submission) (accepted true)
    loggedIn).isSome = true by decide +kernel)
  exact ⟨c, hc, handed_message_orderly ascii submission true hc⟩

end Cosmix.Maild.Smtp

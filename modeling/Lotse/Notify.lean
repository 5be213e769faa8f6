import Lotse.AdminMachine
import Lotse.Runs

set_option autoImplicit false

/-!
# Notification channels

The configuration of a channel, the requests that save and test one, and the delivery of
a message. A delivery is the list of things it does in order, each of which transmits a
secret or may end it with an error; the answers of the network are given. The message
itself is left out.
-/
namespace Lotse.Notify
open Rows
open Admins (trimSpace maxNameLen Reply)
open Users (roleIncludes nocase)

structure NotifierConfig where
  url : String
  token : String
  chatID : String
  host : String
  port : ℤ
  username : String
  password : String
  fromAddr : String
  toAddrs : String
  tls : String
  deriving DecidableEq

inductive ChannelType where
  | ntfy
  | discord
  | slack
  | telegram
  | webhook
  | email
  deriving DecidableEq

def notifierTypes : String → Option ChannelType
  | "ntfy" => some .ntfy
  | "discord" => some .discord
  | "slack" => some .slack
  | "telegram" => some .telegram
  | "webhook" => some .webhook
  | "email" => some .email
  | _ => none

inductive Secret where
  | token
  | password
  deriving DecidableEq

instance : Fintype Secret := ⟨{.token, .password}, fun secret => by cases secret <;> decide⟩

def NotifierConfig.secret (c : NotifierConfig) : Secret → String
  | .token => c.token
  | .password => c.password

/-- Of the standard library: the scheme and the host of a URL that `url.Parse` accepts, and
the error of `http.NewRequestWithContext`, which contains the URL. -/
structure Env where
  parseURL : String → Option (String × String)
  requestError : String → Option String
  names_url : ∀ url err, requestError url = some err → url.toList <:+: err.toList

/-- What `Client.Do` returns: the cause in its error, without the URL, or the response
with what is read of its body. -/
inductive HttpAnswer where
  | error (cause : String)
  | response (code : ℕ) (status snippet : String)
  deriving DecidableEq

structure SmtpAnswers where
  dial : String → ℤ → Bool → Option String
  newClient : Option String
  offersStartTLS : Bool
  startTLS : Option String
  auth : Option String
  mail : Option String
  rcpt : String → Option String
  data : Option String
  close : Option String
  quit : Option String

structure Answers where
  http : HttpAnswer
  smtp : SmtpAnswers

namespace NotifierConfig

def needURL (E : Env) (c : NotifierConfig) : Except String NotifierConfig :=
  match E.parseURL c.url with
  | some (scheme, host) =>
    if (scheme ≠ "http" ∧ scheme ≠ "https") ∨ host = "" then .error "enter a valid http(s) URL"
    else .ok c
  | none => .error "enter a valid http(s) URL"

def validate (E : Env) (c : NotifierConfig) : ChannelType → Except String NotifierConfig
  | .ntfy | .discord | .slack | .webhook => c.needURL E
  | .telegram =>
    if c.token = "" ∨ c.chatID = "" then .error "Telegram needs a bot token and a chat ID" else .ok c
  | .email =>
    if c.host = "" ∨ c.fromAddr = "" ∨ c.toAddrs = "" then
      .error "email needs a server, a sender and at least one recipient"
    else
      let c := if c.tls = "" then { c with tls := "starttls" } else c
      if c.tls ≠ "starttls" ∧ c.tls ≠ "tls" ∧ c.tls ≠ "none" then
        .error "TLS must be starttls, tls or none"
      else .ok c

/-- The stored secrets where the browser left them empty. -/
def keepSecrets (c stored : NotifierConfig) : NotifierConfig :=
  { c with
    token := if c.token = "" then stored.token else c.token
    password := if c.password = "" then stored.password else c.password }

inductive Value where
  | text (s : String)
  | number (n : ℤ)
  | flag (b : Bool)
  deriving DecidableEq

def textField (key value : String) : List (String × Value) :=
  if value = "" then [] else [(key, .text value)]

/-- The config for the browser: the fields that are set, with a flag for each secret. -/
def masked (c : NotifierConfig) : List (String × Value) :=
  [textField "url" c.url, textField "chat_id" c.chatID, textField "host" c.host,
    if c.port = 0 then [] else [("port", .number c.port)], textField "username" c.username,
    textField "from" c.fromAddr, textField "to" c.toAddrs, textField "tls" c.tls,
    [("token_set", .flag (c.token ≠ "")), ("password_set", .flag (c.password ≠ ""))]].flatten

end NotifierConfig

inductive Step where
  | transmit (secret : Secret) (value : String)
  | check (error : Option String)
  deriving DecidableEq

def outcome : List Step → Except String Unit
  | [] => .ok ()
  | .transmit .. :: steps => outcome steps
  | .check none :: steps => outcome steps
  | .check (some error) :: _ => .error error

/-- The secrets that leave the hub before the first error. -/
def transmitted : List Step → List (Secret × String)
  | [] => []
  | .transmit secret value :: steps => (secret, value) :: transmitted steps
  | .check none :: steps => transmitted steps
  | .check (some _) :: _ => []

def doError : HttpAnswer → Option String
  | .error cause => some cause
  | .response code status snippet =>
    if code / 100 ≠ 2 then some ("server answered " ++ status ++ ": " ++ trimSpace snippet) else none

def sendNtfy (E : Env) (a : Answers) (c : NotifierConfig) : List Step :=
  [[.check (E.requestError c.url)], if c.token ≠ "" then [.transmit .token c.token] else [],
    [.check (doError a.http)]].flatten

/-- `inURL` are the secrets in the endpoint. -/
def postJSON (E : Env) (a : Answers) (endpoint : String) (inURL : List Step) : List Step :=
  .check (E.requestError endpoint) :: inURL ++ [.check (doError a.http)]

def telegramEndpoint (token : String) : String :=
  "https://api.telegram.org" ++ "/bot" ++ token ++ "/sendMessage"

def recipients (toAddrs : String) : List String :=
  ((toAddrs.toList.splitOn ',').map fun rcpt => trimSpace (String.ofList rcpt)).filter (· ≠ "")

def sendEmail (a : SmtpAnswers) (c : NotifierConfig) : List Step :=
  let port := if c.port = 0 then if c.tls = "tls" then 465 else 587 else c.port
  let noStartTLS := "the mail server does not offer STARTTLS; choose TLS or none"
  [[.check (a.dial c.host port (c.tls = "tls")), .check a.newClient],
    if c.tls = "starttls" then
      [.check (if a.offersStartTLS then none else some noStartTLS), .check a.startTLS]
    else [],
    if c.username ≠ "" then [.transmit .password c.password, .check a.auth] else [],
    [.check a.mail], (recipients c.toAddrs).map fun rcpt => .check (a.rcpt rcpt),
    [.check a.data, .check a.close, .check a.quit]].flatten

def send (E : Env) (a : Answers) (c : NotifierConfig) : ChannelType → List Step
  | .ntfy => sendNtfy E a c
  | .discord | .slack | .webhook => postJSON E a c.url []
  | .telegram => postJSON E a (telegramEndpoint c.token) [.transmit .token c.token]
  | .email => sendEmail a.smtp c

structure Channel where
  id : ℕ+
  name : String
  type : ChannelType
  config : NotifierConfig
  enabled : Bool
  lastSent : ℤ
  lastError : String
  createdAt : ℤ
  deriving DecidableEq

structure Use where
  channel : ℤ
  type : ChannelType
  secret : Secret
  value : String
  deriving DecidableEq

/-- `entered` and `sent` are history that no code reads. -/
structure State where
  channels : List Channel
  replies : List Reply
  entered : List Use
  sent : List Use

structure NotifierInput where
  id : ℤ
  name : String
  type : String
  enabled : Bool
  config : NotifierConfig
  deriving DecidableEq

def State.channel (s : State) (id : ℤ) : Option Channel := s.channels.find? fun c => (c.id : ℤ) = id

structure Draft where
  id : ℤ
  name : String
  type : ChannelType
  config : NotifierConfig
  enabled : Bool
  deriving DecidableEq

def State.withSecrets (s : State) (i : NotifierInput) : Except String NotifierConfig :=
  if i.id ≠ 0 then
    match s.channel i.id with
    | none => .error "channel not found"
    | some stored => .ok (i.config.keepSecrets stored.config)
  else .ok i.config

def parseNotifier (E : Env) (s : State) (i : NotifierInput) : Except String Draft :=
  match notifierTypes i.type with
  | none => .error "choose a channel type"
  | some type =>
    let name := trimSpace i.name
    if name = "" ∨ maxNameLen < name.length then .error "name must be 1-64 characters"
    else do
      let config ← s.withSecrets i
      let config ← config.validate E type
      return ⟨i.id, name, type, config, i.enabled⟩

namespace State

def reply (s : State) (r : Reply) : State := { s with replies := s.replies ++ [r] }

def enter (s : State) (channel : ℤ) (type : ChannelType) (c : NotifierConfig) : State :=
  { s with entered :=
      ⟨channel, type, .token, c.token⟩ :: ⟨channel, type, .password, c.password⟩ :: s.entered }

def transmit (s : State) (channel : ℤ) (type : ChannelType) (steps : List Step) : State :=
  { s with sent := s.sent ++ (transmitted steps).map fun u => ⟨channel, type, u.1, u.2⟩ }

def insertChannel (s : State) (d : Draft) (now : ℤ) : State × ℕ+ :=
  let id := nextPos Channel.id s.channels
  ({ s with channels := s.channels ++ [⟨id, d.name, d.type, d.config, d.enabled, 0, "", now⟩] }, id)

def updateChannel (s : State) (d : Draft) : State :=
  { s with channels := s.channels.map fun c =>
      if (c.id : ℤ) = d.id then
        { c with name := d.name, type := d.type, config := d.config, enabled := d.enabled }
      else c }

end State

def saveNotifier (E : Env) (s : State) (i : NotifierInput) (now : ℤ) : State :=
  match parseNotifier E s i with
  | .error message => s.reply (.error 400 message)
  | .ok d =>
    if d.id = 0 then
      let (s, id) := s.insertChannel d now
      (s.enter id d.type i.config).reply .ok
    else ((s.updateChannel d).enter d.id d.type i.config).reply .ok

def testNotifier (E : Env) (s : State) (i : NotifierInput) (a : Answers) : State :=
  let i := if i.name = "" then { i with name := "test" } else i
  match parseNotifier E s i with
  | .error message => s.reply (.error 400 message)
  | .ok d =>
    let steps := send E a d.config d.type
    let s := (s.enter d.id d.type i.config).transmit d.id d.type steps
    match outcome steps with
    | .error message => s.reply (.error 422 message)
    | .ok _ => s.reply .ok

/-- The attempts of a delivery up to the first that succeeds: what they transmit and the
error of the last. -/
def attempts : List (List Step) → List (List Step) × String
  | [] => ([], "")
  | steps :: rest =>
    match outcome steps with
    | .ok _ => ([steps], "")
    | .error error =>
      if rest = [] then ([steps], error)
      else
        let (made, error) := attempts rest
        (steps :: made, error)

/-- The answers are those to the three attempts. -/
def deliver (E : Env) (s : State) (id : ℤ) (answers : ℕ → Answers) (now : ℤ) : State :=
  match s.channel id with
  | none => s
  | some c =>
    if c.enabled = false then s
    else
      let (made, error) := attempts ([answers 0, answers 1, answers 2].map (send E · c.config c.type))
      let s := made.foldl (fun s steps => s.transmit id c.type steps) s
      { s with channels := s.channels.map fun c =>
          if (c.id : ℤ) = id then { c with lastSent := now, lastError := error } else c }

structure NotifierDTO where
  id : ℕ+
  name : String
  type : ChannelType
  enabled : Bool
  lastSent : ℤ
  lastError : String
  createdAt : ℤ
  config : List (String × NotifierConfig.Value)
  deriving DecidableEq

def notifierDTO (role : String) (c : Channel) : NotifierDTO :=
  ⟨c.id, c.name, c.type, c.enabled, c.lastSent, c.lastError, c.createdAt,
    if roleIncludes role "admin" then c.config.masked else []⟩

/-- `ORDER BY name COLLATE NOCASE, id` -/
def before (name name' : String) (id id' : ℕ+) : Prop :=
  nocase name < nocase name' ∨ nocase name = nocase name' ∧ id ≤ id'

instance (name name' : String) (id id' : ℕ+) : Decidable (before name name' id id') :=
  inferInstanceAs (Decidable (_ ∨ _))

def getNotifiers (s : State) (role : String) : List NotifierDTO :=
  (s.channels.insertionSort fun c d => before c.name d.name c.id d.id).map (notifierDTO role)

inductive Op where
  | save (i : NotifierInput) (now : ℤ)
  | test (i : NotifierInput) (a : Answers)
  | deliver (id : ℤ) (answers : ℕ → Answers) (now : ℤ)

def step (E : Env) (s : State) : Op → Option State
  | .save i now => some (saveNotifier E s i now)
  | .test i a => some (testNotifier E s i a)
  | .deliver id answers now => some (deliver E s id answers now)

def init : State := ⟨[], [], [], []⟩

end Lotse.Notify

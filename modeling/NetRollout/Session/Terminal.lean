import NetRollout.Evidence.Words
import NetRollout.Library.Effects

/-!
# The terminal of a device

What `src/rollout/platforms.py` and `session.py` see of a device: Netmiko's
connection methods (`ConfigSession`), what they may raise, and how the text they
return is told apart by its shape (`reply`, `one_line`, `late_output`,
`read_whole`).

Nothing is assumed of the devices or of Netmiko.  `Netmiko σ` gives every method
as a function of an arbitrary state `σ` of the world outside, which it may change
and in which it may raise; a state may hold a whole script of what is to happen.
The wall clock enters only through `rounds`, the number of reads `late_output`'s
loop makes before the device has been quiet, or busy, for too long.
-/

namespace NetRollout
namespace Session

open PyText Effects

/-! ## Exceptions -/

/-- The classes of Netmiko's and Python's exceptions the code tells apart. -/
inductive FaultKind where
  | readTimeout
  | valueError
  | authentication
  | timeout
  | other
  deriving DecidableEq

/-- An exception raised by Netmiko, or below it. -/
structure Fault where
  kind : FaultKind
  /-- `type(error).__name__`. -/
  name : Str
  /-- `str(error)`. -/
  text : Str
  /-- The first line of the error it was raised from; none when there is none, or
  when that is a `TimeoutError`. -/
  reason : Option Str

/-- An exception within a push. -/
inductive Raised where
  | fault (f : Fault)
  | enableFailed (text : Str)
  | hostKeyRefused
  | commitPending
  /-- `_new_session`'s `RuntimeError`. -/
  | notReady (problem : String)

/-- `first_line`. -/
def firstLine (text name : Str) : Str :=
  (((splitlines text).map strip).filter fun line => !line.isEmpty).headD name

def Raised.firstLine : Raised → String
  | fault f => String.ofList (Session.firstLine f.text f.name)
  | enableFailed text => String.ofList (Session.firstLine text "EnableFailed".toList)
  | hostKeyRefused => "HostKeyRefused"
  | commitPending => "CommitPending"
  | notReady problem => String.ofList (Session.firstLine problem.toList "RuntimeError".toList)

/-- `str(error)`. -/
def Raised.text : Raised → String
  | fault f => String.ofList f.text
  | enableFailed text => String.ofList text
  | hostKeyRefused => ""
  | commitPending => ""
  | notReady problem => problem

/-- `connect_failure`. -/
def connectFailure (f : Fault) : String :=
  match f.reason with
  | none => "timed out"
  | some reason => "couldn't connect: " ++ String.ofList reason

/-- The text before the first `". "`, with its full stop. -/
def upToStop : Str → Str
  | '.' :: ' ' :: _ => ['.']
  | c :: rest => c :: upToStop rest
  | [] => []

/-- `first_sentence`. -/
def firstSentence (text : Str) : String :=
  String.ofList (upToStop (firstLine text "EnableFailed".toList))

/-! ## Connections -/

/-- One of the connections opened. -/
abbrev Conn := Nat

/-- The world outside, in a state `σ`, as a push meets it: `ConnectHandler` and
the methods of `ConfigSession`. -/
structure Netmiko (σ : Type) where
  /-- Whether the device's name is an address, or resolves to one. -/
  resolved : Str → σ → Bool
  /-- `_connect`: the login, the host key check and its retries. -/
  connect : EStateM Raised σ Conn
  enable : Conn → EStateM Fault σ Unit
  configMode : Conn → (configCommand : Str) → EStateM Fault σ Unit
  exitConfigMode : Conn → EStateM Fault σ Unit
  findPrompt : Conn → EStateM Fault σ Str
  setBasePrompt : Conn → EStateM Fault σ Unit
  /-- `send_config_set([command], enter_config_mode=False, …)`. -/
  sendConfigSet : Conn → (command : Str) → (cmdVerify : Bool) → EStateM Fault σ Str
  sendCommand : Conn → (command : Str) → EStateM Fault σ Str
  sendCommandTiming : Conn → (command : Str) → EStateM Fault σ Str
  readChannel : Conn → EStateM Fault σ Str
  commit : Conn → EStateM Fault σ Str
  saveConfig : Conn → EStateM Fault σ Str
  disconnect : Conn → EStateM Fault σ Unit
  /-- The `base_prompt` attribute. -/
  basePrompt : Conn → σ → Str
  /-- The `_vdoms` attribute. -/
  vdoms : Conn → σ → Bool
  /-- What the session's record holds, and emptying it. -/
  recorded : Conn → σ → Str
  clear : Conn → σ → σ
  /-- How many reads the clock leaves `late_output`. -/
  rounds : Conn → σ → Nat

/-! ## Replies -/

section Shapes

variable [Unicode]

/-- The characters a progress bar is drawn with. -/
def isBar (c : Char) : Bool := ['#', '=', '*', '>', '.', '-'].contains c || isSpace c

/-- One frame of a progress bar, `[###   ]  41%`: what follows it. -/
def afterFrame : Str → Option Str
  | '[' :: rest =>
    match rest.dropWhile isBar with
    | ']' :: rest =>
      let rest := lstrip rest
      let digits := rest.takeWhile Unicode.isDigit
      match rest.dropWhile Unicode.isDigit with
      | '%' :: rest => if 1 ≤ digits.length ∧ digits.length ≤ 3 then some rest else none
      | _ => none
    | _ => none
  | _ => none

/-- Frames to the end of the row, each after blanks and at most one `|`. -/
def framesOnly : Nat → Str → Bool
  | 0, _ => false
  | _ + 1, [] => true
  | fuel + 1, rest =>
    let rest := lstrip rest
    let rest := match rest with
      | '|' :: rest => lstrip rest
      | _ => rest
    match afterFrame rest with
    | some rest => framesOnly fuel rest
    | none => false

/-- `PROGRESS.match`. -/
def isProgress (text : Str) : Bool :=
  match afterFrame text with
  | some rest => framesOnly (rest.length + 1) rest
  | none => false

/-- `_CONTEXT.match`: Junos's `[edit …]` banner. -/
def isContext (text : Str) : Bool :=
  text == "[edit]".toList || ("[edit ".toList.isPrefixOf text && "]".toList.isSuffixOf text)

/-- Rows of a reply that answer nothing: blank ones, IOS's `^` pointer, banners
and progress bars. -/
def isFurniture (text : Str) : Bool :=
  text.all (· == '^') || isContext text || isProgress text

/-- A row that is the command's echo, or a prompt. -/
def isEcho (sent base text : Str) : Bool :=
  let bare := text.dropWhile fun c => c == '[' || c == '<'
  (!sent.isEmpty && sent.isSuffixOf text && (text == sent || base.isPrefixOf bare)) ||
    (!base.isEmpty && base.isPrefixOf bare &&
      (text.getLast?.any fun c => ['#', '>', '$', ']'].contains c) && !decide (sent <:+: text))

/-- `reply`: the reply's rows, and the device events among them. -/
def reply (output command prompt : Str) (shapes : Str → Bool) : List Str × List Str :=
  let rows := ((splitlines output).map strip).filter fun text =>
    !isFurniture text && !isEcho (strip command) (strip prompt) text
  (rows.filter fun text => !shapes text, rows.filter shapes)

/-- `one_line`. -/
def oneLine (output command : Str) : String :=
  " | ".intercalate ((((splitlines output).map strip).filter fun line =>
    !line.isEmpty && line != command && !isProgress line).map String.ofList)

end Shapes

/-! ## Reading on -/

section Reading

variable {σ : Type} (net : Netmiko σ) (conn : Conn)

/-- The reads of `late_output`: until an empty one where nothing is waited for,
else as long as the clock allows. -/
def readOn (waits : Bool) : Nat → EStateM Fault σ Str
  | 0 => pure []
  | rounds + 1 => do
    let chunk ← net.readChannel conn
    if chunk.isEmpty && !waits then
      pure []
    else
      let rest ← readOn waits rounds
      pure (chunk ++ rest)

/-- `late_output`, with a `quiet` time to wait for or none. -/
def lateOutput (waits : Bool) : EStateM Fault σ Str := fun s =>
  readOn net conn waits (net.rounds conn s) s

/-- The row without the first prompt in it, its mark and the blanks around. -/
def dropPrompt (base : Str) : Str → Str
  | [] => []
  | c :: rest =>
    if base.isPrefixOf (c :: rest) then
      let after := lstrip ((c :: rest).drop base.length)
      match after with
      | [] => []
      | mark :: after =>
        if ['#', '>', '$', '%'].contains mark then lstrip after else mark :: after
    else c :: dropPrompt base rest

/-- Rows read on, the prompts redrawn left out. -/
def withoutPrompts (base rest : Str) : List Str :=
  let rows := (splitlines rest).map fun raw =>
    (raw.dropWhile (· == '\r')).rdropWhile (· == '\r')
  let rows := rows.map fun row =>
    if base.isPrefixOf (strip row) then dropPrompt base row else row
  rows.filter fun row => !(strip row).isEmpty

/-- Rows joined by line feeds, none after the last. -/
def joinRows (rows : List Str) : Str := ['\n'].intercalate rows

/-- `read_whole`: a command's output, and what still came after it. -/
def readWhole (command : Str) : EStateM Fault σ Str := do
  let output ← net.sendCommand conn command
  let rest ← lateOutput net conn true
  if (strip rest).isEmpty then
    pure output
  else
    let base ← fun s => .ok (strip (net.basePrompt conn s)) s
    pure (output.rdropWhile (· == '\n') ++ '\n' :: joinRows (withoutPrompts base rest))

end Reading

end Session
end NetRollout

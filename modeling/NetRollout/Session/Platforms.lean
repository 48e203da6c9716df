import NetRollout.Evidence.Judge
import NetRollout.Session.Terminal

/-!
# Platforms

`src/rollout/platforms.py`: how a push takes effect and is kept (the `Finish`
family), and how a session is brought to speak a platform's language (`Platform`
and the classes that override parts of it).

The platform's regular expressions (`framing`, `events`) and its `defaults`
function are columns of the table, so they are fields here, as predicates and as a
function.  What the methods say to the rollout's report is kept in the world, call
by call.
-/

namespace NetRollout
namespace Session

open PyText Effects Evidence

/-! ## The rollout's report -/

inductive Tone where
  | info
  | success
  | warning
  | error
  deriving DecidableEq

/-- A call on the rollout's report. -/
inductive Told where
  | notify (text : String) (tone : Tone) (important : Bool)
  | actionNeeded (what : String)

/-- The variables of `push` that its `except` clauses read. -/
structure Pushing where
  commandsSent : Bool := false
  sent : Nat := 0
  replies : List (List Str) := []
  before : Option Str := none

/-- The world outside, what was reported so far, and the push under way. -/
structure World (σ : Type) where
  outside : σ
  told : List Told
  pushing : Pushing

/-- A step of a session. -/
abbrev Run (σ : Type) := EStateM Raised (World σ)

section Steps

variable {σ ε α : Type}

/-- A step of the world outside, within the session. -/
def far (name : ε → Raised) (x : EStateM ε σ α) : Run σ α :=
  zoom World.outside (fun s w => { w with outside := s }) name x

/-- One of Netmiko's methods. -/
def call (x : EStateM Fault σ α) : Run σ α := far .fault x

/-- An attribute of a connection. -/
def reading (get : σ → α) : Run σ α := far Raised.fault fun s => .ok (get s) s

def notify (text : String) (tone : Tone) (important : Bool) : Run σ Unit :=
  modify fun w => { w with told := w.told ++ [.notify text tone important] }

def actionNeeded (what : String) : Run σ Unit :=
  modify fun w => { w with told := w.told ++ [.actionNeeded what] }

end Steps

/-- What the session reads of a device of the rollout. -/
structure Device where
  ip : String
  host : Str
  endpoint : String

/-! ## Finishes -/

/-- `Commit`'s settings. -/
structure CommitSettings where
  discard : List Str := []
  pending : Str := []
  revertsOnFailure : Bool := false
  byPending : Bool := false
  whyFailed : Str := []
  /-- `EVENTS`, whatever the platform's own shapes are. -/
  events : Str → Bool

/-- How a pushed change takes effect and is kept. -/
inductive Finish where
  | saveConfig
  | runCommand (text : Str)
  | noFinish
  | commit (settings : CommitSettings)

/-- Netmiko's heading above a failed commit's output. -/
def NETMIKO_COMMIT_FAILED : Str := "Commit failed with the following errors:".toList

namespace Finish

/-- Whether a device that stops answering in the middle keeps what it took. -/
def interruptible : Finish → Bool
  | commit _ => false
  | _ => true

variable {σ : Type} [Unicode] (net : Netmiko σ) (device : Device) (conn : Conn)

/-- `_left`: what the candidate still holds; none where that cannot be asked. -/
def left (settings : CommitSettings) (prompt : Str) : EStateM Fault σ (Option (List Str)) :=
  if settings.pending.isEmpty then pure none
  else attempt
    (do
      let output ← net.sendConfigSet conn settings.pending true
      pure (some (reply output settings.pending prompt settings.events).1))
    fun _ => pure none

/-- `_why`. -/
def why (settings : CommitSettings) (prompt : Str) : EStateM Fault σ String :=
  if settings.whyFailed.isEmpty then pure ""
  else attempt
    (do
      let output ← net.sendConfigSet conn settings.whyFailed true
      let said := (reply output settings.whyFailed prompt settings.events).1
      if said.isEmpty then pure ""
      else
        let shown := " | ".intercalate (said.map String.ofList)
        let asked := String.ofList settings.whyFailed
        pure s!" - '{asked}' shows: {shown}")
    fun _ => pure ""

/-- `_commit_by_pending`. -/
def commitByPending (settings : CommitSettings) (prompt : Str) : Run σ Unit := do
  let answer ← call (net.sendCommand conn "commit".toList)
  match ← call (left net conn settings prompt) with
  | none => throw .commitPending
  | some [] => pure ()
  | some _ =>
    let said := oneLine answer "commit".toList
    let shown := String.ofList settings.pending
    let text := if said.isEmpty then s!"'{shown}' still shows the change after the commit" else said
    throw (.fault ⟨.valueError, "ValueError".toList, text.toList, none⟩)

/-- The commit itself. -/
def commitNow (settings : CommitSettings) (prompt : Str) : Run σ Unit :=
  if settings.byPending then commitByPending net conn settings prompt
  else do
    let _ ← call (net.commit conn)

/-- The discard commands, each with what the device replied. -/
def discarded (settings : CommitSettings) (prompt : Str) : List Str → EStateM Fault σ (List String)
  | [] => pure []
  | command :: commands => do
    let output ← net.sendConfigSet conn command true
    let said := (reply output command prompt settings.events).1
    let rest ← discarded settings prompt commands
    let text := String.ofList command
    let answer := " ".intercalate (said.map String.ofList)
    if said.isEmpty then pure (s!"'{text}'" :: rest)
    else pure (s!"'{text}' (the device replied: {answer})" :: rest)

/-- The candidate of a commit that failed, discarded where the platform does not do
that itself. -/
def dropCandidate (settings : CommitSettings) (prompt : Str) : Run σ Unit :=
  if settings.discard.isEmpty then
    onlyIf (!settings.revertsOnFailure)
      (actionNeeded ("the failed changes may still be in the candidate configuration - discard " ++
        "them on the device"))
  else do
    let replies ← call (discarded net conn settings prompt settings.discard)
    let listed := ", then ".intercalate replies
    let text := s!"the commit failed and the failed changes were discarded with {listed}"
    let pending := String.ofList settings.pending
    match ← call (left net conn settings prompt) with
    | none => actionNeeded s!"{text} - check that the candidate configuration is empty"
    | some [] =>
      notify s!"{device.endpoint}: {text}; '{pending}' shows nothing left in the candidate"
        .warning false
    | some rows =>
      let still := " | ".intercalate ((rows.take 10).map String.ofList)
      actionNeeded (s!"{text}, but '{pending}' still shows: {still} - check the candidate " ++
        "configuration on the device")

/-- After a commit the device refused: the candidate discarded, config mode left. -/
def afterFailedCommit (settings : CommitSettings) (prompt : Str) (error : Fault) :
    Run σ Bool := do
  let said := (reply error.text "commit".toList prompt settings.events).1.filter
    (· != NETMIKO_COMMIT_FAILED)
  let reason := " | ".intercalate (said.map String.ofList)
  let reason := if said.isEmpty then "" else ". " ++ reason
  let shown ← call (why net conn settings prompt)
  notify s!"{device.endpoint}: commit failed - nothing was applied{reason}{shown}" .error false
  dropCandidate net device conn settings prompt
  call (net.exitConfigMode conn)
  pure false

/-- `Commit.before_leave`. -/
def commitBeforeLeave (settings : CommitSettings) : Run σ Bool := do
  let prompt ← reading (net.basePrompt conn)
  let waiting ← call (left net conn settings prompt)
  if waiting = some [] then
    let pending := String.ofList settings.pending
    notify (s!"{device.endpoint}: nothing to commit - '{pending}' shows no change in the " ++
      "candidate") .info false
    pure true
  else
    notify s!"{device.endpoint}: committing - the device applies the change now" .info false
    attempt
      (do
        commitNow net conn settings prompt
        pure true)
      fun raised =>
        match raised with
        | .fault error =>
          match error.kind with
          | .readTimeout => throw .commitPending
          | .valueError => do
            let prompt ← reading (net.basePrompt conn)
            afterFailedCommit net device conn settings prompt error
          | _ => throw raised
        | _ => throw raised

/-- `before_leave`: in config mode, after the commands; false when the change did
not take effect. -/
def beforeLeave : Finish → Run σ Bool
  | commit settings => commitBeforeLeave net device conn settings
  | _ => pure true

/-- `after_leave`: the device's reply, and the command it answers. -/
def afterLeave : Finish → EStateM Fault σ (Str × Str)
  | saveConfig => do
    let answer ← net.saveConfig conn
    pure (answer, "save".toList)
  | runCommand text => do
    let answer ← net.sendCommand conn text
    pure (answer, text)
  | noFinish => pure ([], [])
  | commit _ => pure ([], [])

end Finish

/-! ## Platforms -/

/-- The class a platform's methods are of. -/
inductive Dialect where
  | base
  | panOS
  | iosXr
  | comware
  | gaia (wrongShell : List Str) (cliShell : Str) (savedState : Str × Str)
  | junos (configCommand : Str)
  | aosCx
  | fortiOS

/-- A row of the platform table: the columns a push reads. -/
structure Platform where
  dialect : Dialect
  finish : Finish
  showConfig : List Str
  grammar : Grammar
  framing : Option (Str → Bool)
  showSaved : Str
  defaults : List Path → List Str
  events : Str → Bool
  echoWhole : Bool

namespace Platform

variable {σ : Type} [Unicode] (net : Netmiko σ) (platform : Platform) (device : Device)
  (conn : Conn)

/-- `config`: a show's output without its framing. -/
def config (output : Str) : Str :=
  match platform.framing with
  | none => output
  | some framing => joinRows ((splitlines output).filter fun line => !framing (strip line))

/-- Gaia's `_in_bash`. -/
def inBash (wrongShell : List Str) (prompt : Str) : Bool :=
  let prompt := Unicode.lower (strip prompt)
  wrongShell.any fun mark =>
    if mark = "#".toList then mark.isSuffixOf prompt else decide (mark <:+: prompt)

/-- `prepare`: the session made ready for commands; the problem when it cannot be. -/
def prepare : EStateM Raised σ (Option String) :=
  let call {α : Type} (x : EStateM Fault σ α) : EStateM Raised σ α :=
    zoom id (fun s _ => s) Raised.fault x
  match platform.dialect with
  | .panOS => do
    let _ ← call (net.sendCommand conn "set cli config-output-format set".toList)
    pure none
  | .iosXr => do
    let _ ← call (net.sendCommand conn "terminal exec prompt no-timestamp".toList)
    pure none
  | .comware => pure none
  | .gaia wrongShell cliShell _ => do
    let prompt ← call (net.findPrompt conn)
    if !inBash wrongShell prompt then pure none
    else
      let _ ← call (net.sendCommandTiming conn cliShell)
      call (net.setBasePrompt conn)
      let prompt ← call (net.findPrompt conn)
      if !inBash wrongShell prompt then pure none
      else
        let shell := String.ofList cliShell
        pure (some (s!"the account logs in to the wrong shell and '{shell}' didn't leave it - " ++
          "set its shell to clish"))
  | _ => attempt
      (do
        net.enable conn
        pure none)
      fun error =>
        if error.kind = .valueError ∨ error.kind = .readTimeout then
          throw (.enableFailed error.text)
        else throw (.fault error)

/-- What each command prints, one after the other: only the last one's is kept. -/
def lastOutput : List Str → Str → EStateM Fault σ Str
  | [], output => pure output
  | command :: commands, _ => do
    let output ← readWhole net conn command
    lastOutput commands output

/-- `read_config`: the configuration now, without its framing. -/
def readConfig : EStateM Fault σ Str :=
  match platform.dialect with
  | .panOS => do
    net.configMode conn []
    let output ← ensure (readWhole net conn "show".toList) (net.exitConfigMode conn)
    pure (platform.config output)
  | _ => do
    let output ← lastOutput net conn platform.showConfig []
    pure (platform.config output)

/-- `read_saved`. -/
def readSaved : EStateM Fault σ Str := readWhole net conn platform.showSaved

/-- The views the fetches print. -/
def views : List Str → EStateM Fault σ (List Str)
  | [] => pure []
  | fetch :: fetches => do
    let output ← readWhole net conn fetch
    let rest ← views fetches
    pure (platform.config output :: rest)

/-- `read_defaults`. -/
def readDefaults (fetches : List Str) : EStateM Fault σ Str := do
  let views ← platform.views net conn fetches
  pure (joinRows views)

/-- `enter_config`: into configuration mode; the problem when that was refused. -/
def enterConfig : EStateM Fault σ (Option String) :=
  match platform.dialect with
  | .junos configCommand => attempt
      (do
        net.configMode conn configCommand
        pure none)
      fun error =>
        if error.kind = .valueError ∨ error.kind = .readTimeout then
          let command := String.ofList configCommand
          pure (some (s!"'{command}' was refused - usually another session has uncommitted " ++
            "changes in the shared configuration: commit or discard them (they're someone " ++
            "else's work), then rerun. Nothing was sent."))
        else throw error
  | _ => do
    net.configMode conn []
    pure none

/-- FortiOS: blocks left open are closed, ten at most. -/
def closeBlocks : Nat → EStateM Fault σ Unit
  | 0 => pure ()
  | blocks + 1 => do
    let prompt ← net.findPrompt conn
    if prompt.contains '(' then
      let _ ← net.sendCommandTiming conn "end".toList
      closeBlocks blocks
    else pure ()

/-- FortiOS: the configuration saved where that is not automatic. -/
def saveConfiguration : Run σ Unit := do
  let output ← call (net.sendCommandTiming conn "execute cfg save".toList)
  let answer := oneLine output "execute cfg save".toList
  let answer := if answer.isEmpty then "" else s!" (the device replied: {answer})"
  notify (s!"{device.endpoint}: cfg-save is not automatic - saved with 'execute cfg save'" ++
    answer) .warning false

/-- `before_finish`. -/
def beforeFinish : Run σ Unit :=
  match platform.dialect with
  | .fortiOS => do
    call (closeBlocks net conn 10)
    let vdoms ← reading (net.vdoms conn)
    onlyIf vdoms (discard (call (net.sendCommandTiming conn "config global".toList)))
    let mode ← call (net.sendCommandTiming conn "get system global | grep cfg-save".toList)
    onlyIf (decide ("manual".toList <:+: mode) || decide ("revert".toList <:+: mode))
      (saveConfiguration net device conn)
    onlyIf vdoms (discard (call (net.sendCommandTiming conn "end".toList)))
  | _ => pure ()

/-- `leave_config`. -/
def leaveConfig : EStateM Fault σ Unit :=
  match platform.dialect with
  | .aosCx => do
    let _ ← net.sendCommandTiming conn "end".toList
    net.exitConfigMode conn
  | _ => net.exitConfigMode conn

/-- `unsaved`: the command asked and its answer, where the change is not saved. -/
def unsaved : EStateM Fault σ (Option (Str × Str)) :=
  match platform.dialect with
  | .gaia _ _ (ask, saved) => do
    let output ← net.sendCommand conn ask
    let state := strip ((splitlines (strip output)).getLastD [])
    if Unicode.lower state = saved then pure none else pure (some (ask, state))
  | _ => pure none

end Platform

end Session
end NetRollout

import NetRollout.Session.Platforms

/-!
# A push

`NetmikoSession` of `src/rollout/session.py`: the conversation with one device ---
into config mode, the commands one by one with what the device replied, the
platform's finish, the judging by the configuration read before and after --- and
the ladder of `except` clauses that turns whatever happened into a `PushResult`.

`push`'s local variables live in the world (`Pushing`), since the clauses read
them as an exception left them.  Left out are the progress line, which only the
clock triggers, and the waits between two reads of a slow commit's configuration.
-/

namespace NetRollout
namespace Session

open PyText Effects Evidence

/-- `PushResult`.  The difference is kept as the two configurations it is between. -/
structure PushResult where
  applied : Bool
  sent : Option Nat := none
  interrupted : Bool := false
  replies : List (List Str) := []
  outcome : Option Outcome := none
  diff : Option (Str × Str) := none
  after : Option Str := none

/-- A push that was judged, or could not be. -/
def PushResult.live (replies : List (List Str)) (judged : Option (Outcome × Str × Str)) :
    PushResult where
  applied := true
  replies := replies
  outcome := judged.map Prod.fst
  diff := judged.map Prod.snd
  after := judged.map fun j => j.2.2

/-- How many times a slow commit's configuration is read. -/
def COMMIT_CHECKS : Nat := 5

def COMMIT_CHECK_EVERY : Nat := 30

def COMMIT_TIMEOUT : Nat := 300

def DEFAULTS_MAX_LINES : Nat := 50000

def REFUSED_REASON : String :=
  "its SSH host key changed - not signed in to, nothing was sent. If the device was replaced, " ++
    "an admin accepts its new key in Server Management -> SSH Host Keys."

variable {σ : Type} [Unicode] (net : Netmiko σ) (platform : Platform) (device : Device)

/-! ## Sessions -/

/-- `_new_session`: a session ready for commands, closed on leaving. -/
def withNewSession {α : Type} (body : Conn → Run σ α) : Run σ α := do
  let conn ← far id net.connect
  ensure
    (do
      match ← far id (platform.prepare net conn) with
      | some problem => throw (.notReady problem)
      | none => body conn)
    (call (net.disconnect conn))

/-- `_snapshot`: the configuration now; none when it cannot be read. -/
def snapshot (why : String) (conn : Conn) : Run σ (Option Str) :=
  attempt
    (do
      let config ← call (platform.readConfig net conn)
      if (strip config).isEmpty then
        notify (s!"{device.endpoint}: the configuration read {why} came back empty - not " ++
          "verified") .error false
        pure none
      else pure (some config))
    fun raised => do
      let line := raised.firstLine
      notify s!"{device.endpoint}: couldn't read the configuration {why} - not verified ({line})"
        .error false
      pure none

/-- `_fetch_new`: the configuration now, from a new session. -/
def fetchNew (why : String) : Run σ (Option Str) :=
  attempt (withNewSession net platform (snapshot net platform device why)) fun raised => do
    let line := raised.firstLine
    notify s!"{device.endpoint}: couldn't read the configuration {why} - not verified ({line})"
      .error false
    pure none

/-! ## Judging -/

/-- The views the fetches print, in the push's session or else in a new one. -/
def readView (conn : Option Conn) (fetches : List Str) : Run σ Str :=
  match conn with
  | some conn => call (platform.readDefaults net conn fetches)
  | none => withNewSession net platform fun conn => call (platform.readDefaults net conn fetches)

/-- `_defaults`: the configuration shown with its defaults. -/
def defaultsView (conn : Option Conn) (fetches : List Str) : Run σ (Option Str) :=
  attempt
    (do
      let view ← readView net platform conn fetches
      if DEFAULTS_MAX_LINES < (splitlines view).length then
        notify (s!"{device.endpoint}: the configuration with its defaults is over " ++
          s!"{DEFAULTS_MAX_LINES} lines - not judged") .warning false
        pure none
      else
        let listed := " / ".intercalate (fetches.map String.ofList)
        notify (s!"{device.endpoint}: read the configuration with its defaults for the " ++
          s!"unproven commands ({listed})") .info false
        pure (some view))
    fun raised => do
      let line := raised.firstLine
      notify (s!"{device.endpoint}: couldn't read the configuration with its defaults " ++
        s!"({line}) - unproven commands stay so") .warning false
      pure none

/-- What the saved configuration lacks of the push, and keeps against it. -/
def saveProblems (saved : List (Path × Str)) (outcome : Outcome) : List String :=
  ((outcome.added.filter fun key => !saved.contains key).take 5).map (fun key =>
      let text := String.ofList key.2
      s!"'{text}' missing") ++
    ((outcome.removed.filter fun key => saved.contains key).take 5).map fun key =>
      let text := String.ofList key.2
      s!"'{text}' still there"

/-- `_check_saved`: on a platform that shows its saved configuration, the push is
in it. -/
def checkSaved (conn : Conn) (outcome : Outcome) : Run σ Unit :=
  if platform.showSaved.isEmpty ∨ (outcome.added.isEmpty ∧ outcome.removed.isEmpty) then pure ()
  else attempt
    (do
      let saved ← call (platform.readSaved net conn)
      let problems := saveProblems ((platform.grammar.lines saved).map Line.key) outcome
      if problems.isEmpty then pure ()
      else
        let listed := ", ".intercalate problems
        actionNeeded (s!"the change is live but NOT saved - the saved configuration differs: " ++
          s!"{listed}. Save it on the device"))
    fun raised => do
      let line := raised.firstLine
      notify (s!"{device.endpoint}: couldn't read the saved configuration to check the save " ++
        s!"({line})") .error false

/-- The commands that show the defaults of what is left unproven. -/
def fetchesFor (outcome : Outcome) : List Str :=
  if outcome.unproven.isEmpty then [] else platform.defaults outcome.unproven

/-- The judgment once more with the defaults, when commands are left unproven and the
platform can show them. -/
def withDefaults (commands : List Str) (before after : Str) (again : Option Str)
    (replied : List Bool) (conn : Option Conn) (outcome : Outcome) : Run σ Outcome :=
  if (fetchesFor platform outcome).isEmpty then pure outcome
  else do
    match ← defaultsView net platform device conn (fetchesFor platform outcome) with
    | none => pure outcome
    | some view => pure (judge platform.grammar commands before after again replied (some view))

/-- The judgment by what was read, with a second snapshot when changes no command
explains appeared. -/
def judged (commands : List Str) (before after : Str) (replied : List Bool)
    (again : Run σ (Option Str)) (conn : Option Conn) : Run σ Outcome :=
  let outcome (second : Option Str) :=
    judge platform.grammar commands before after second replied none
  let finally_ (second : Option Str) :=
    withDefaults net platform device commands before after second replied conn (outcome second)
  if (outcome none).otherChanges.isEmpty then finally_ none
  else again >>= finally_

/-- `_judge`: the push judged by the configuration after it, with the
configurations it was judged by; none when that cannot be read. -/
def judgePush (commands : List Str) (before : Str) (replies : List (List Str))
    (first again : Run σ (Option Str)) (conn : Option Conn) :
    Run σ (Option (Outcome × Str × Str)) := do
  match ← first with
  | none => pure none
  | some after =>
    let replied := replies.map fun said => !said.isEmpty
    let outcome ← judged net platform device commands before after replied again conn
    conn.elim (pure ()) fun conn => checkSaved net platform device conn outcome
    pure (some (outcome, before, after))

/-- The result of a push that is live: judged when there is a configuration before. -/
def liveResult (commands : List Str) (pushing : Pushing) (first again : Run σ (Option Str))
    (conn : Option Conn) : Run σ PushResult :=
  match pushing.before with
  | none => pure (.live pushing.replies none)
  | some before => do
    let j ← judgePush net platform device commands before pushing.replies first again conn
    pure (.live pushing.replies j)

/-! ## The finish -/

/-- Out of config mode, and what the platform does there: its save, its save state. -/
def leave (conn : Conn) : Run σ Unit := do
  call (platform.leaveConfig net conn)
  let (answer, command) ← call (platform.finish.afterLeave net conn)
  let said := if command.isEmpty then "" else oneLine answer command
  let text := String.ofList command
  onlyIf (!said.isEmpty)
    (notify s!"{device.endpoint}: '{text}' - the device replied: {said}" .info false)
  match ← call (platform.unsaved net conn) with
  | none => pure ()
  | some (ask, state) =>
    let asked := String.ofList ask
    let found := String.ofList state
    let after := if said.isEmpty then "" else s!" after '{text}' replied: {said}"
    actionNeeded (s!"the change is live but NOT saved - '{asked}' answers '{found}'{after} - " ++
      "save it on the device")

/-- `_finish`: false when the change did not take effect. -/
def finish (conn : Conn) : Run σ Bool := do
  platform.beforeFinish net device conn
  if ← platform.finish.beforeLeave net device conn then
    leave net platform device conn
    pure true
  else pure false

/-- `_finish_in_new_session`: after the push's own session lost its prompt. -/
def finishInNewSession : Run σ Unit :=
  attempt
    (match platform.finish with
      | .noFinish =>
        notify s!"{device.endpoint}: prompt changed after the push (e.g. a new hostname)"
          .warning false
      | _ => do
        let (answer, command) ← withNewSession net platform fun conn =>
          call (platform.finish.afterLeave net conn)
        let said := oneLine answer command
        let reply := if said.isEmpty then "" else s!" (the device replied: {said})"
        let text := String.ofList command
        notify (s!"{device.endpoint}: prompt changed after the push (e.g. a new hostname) - " ++
          s!"'{text}' sent from a new session{reply}") .warning false)
    fun raised => do
      let error := raised.text
      actionNeeded ("the change is live but NOT saved - save it on the device (the prompt " ++
        s!"changed after the push and saving from a new session failed: {error})")

/-- A commit that did not answer in time: the configuration read until it has
changed. -/
def commitChecks (commands : List Str) (before : Str) (pushing : Pushing) :
    Nat → Run σ PushResult
  | 0 => do
    actionNeeded (s!"the commit didn't finish within {COMMIT_TIMEOUT}s and the configuration " ++
      s!"still hadn't changed {(COMMIT_CHECKS - 1) * COMMIT_CHECK_EVERY}s later - it failed or " ++
      "is still running: check on the device (reported as failed)")
    pure { applied := false, replies := pushing.replies }
  | checks + 1 => do
    match ← fetchNew net platform device "after the slow commit" with
    | none =>
      actionNeeded (s!"the commit didn't finish within {COMMIT_TIMEOUT}s - check on the device " ++
        "whether it went through (reported as failed)")
      pure { applied := false, replies := pushing.replies }
    | some after =>
      if (platform.grammar.lines after).map Line.key =
          (platform.grammar.lines before).map Line.key then
        commitChecks commands before pushing checks
      else
        notify (s!"{device.endpoint}: the commit didn't finish within {COMMIT_TIMEOUT}s, and " ++
          "the configuration has changed since - judged by it") .warning false
        liveResult net platform device commands pushing (pure (some after))
          (fetchNew net platform device "again, to tell the device's own changes apart") none

/-- `_after_slow_commit`. -/
def afterSlowCommit (commands : List Str) (pushing : Pushing) : Run σ PushResult :=
  match pushing.before with
  | none => do
    actionNeeded (s!"the commit didn't finish within {COMMIT_TIMEOUT}s - check on the device " ++
      "whether it went through (reported as failed)")
    pure { applied := false, replies := pushing.replies }
  | some before => commitChecks net platform device commands before pushing COMMIT_CHECKS

/-! ## The commands -/

def pushing : Run σ Pushing := fun w => .ok w.pushing w

def setPushing (f : Pushing → Pushing) : Run σ Unit :=
  modify fun w => { w with pushing := f w.pushing }

/-- Each device event of a reply, logged. -/
def notifyEvents : List Str → Run σ Unit
  | [] => pure ()
  | event :: events => do
    let text := String.ofList event
    notify s!"{device.endpoint}: device event: {text}" .info false
    notifyEvents events

/-- What a device said to a command, as one line of the log. -/
def listed (said : List Str) : String := " | ".intercalate (said.map String.ofList)

/-- A reply joined to the last command's. -/
def addToLast (said : List Str) (replies : List (List Str)) : List (List Str) :=
  match replies.getLast? with
  | none => replies
  | some last => replies.dropLast ++ [last ++ said]

/-- What came after a command's prompt, added to the command's reply. -/
def keepLate (conn : Conn) (command late : Str) : Run σ Unit := do
  let base ← reading (net.basePrompt conn)
  let state ← pushing
  let (said, events) := reply late command base platform.events
  if (strip late).isEmpty ∨ state.replies.isEmpty then pure ()
  else do
    notifyEvents device events
    let text := String.ofList (strip command)
    let reply := listed said
    onlyIf (!said.isEmpty) do
      setPushing fun p => { p with replies := addToLast said p.replies }
      notify s!"{device.endpoint}: '{text}' - the device replied: {reply}" .warning false

/-- `_late_reply`. -/
def lateReply (conn : Conn) (command : Str) (waits : Bool) : Run σ Unit := do
  let late ← call (lateOutput net conn waits)
  keepLate net platform device conn command late

/-- `_last_output`: what the device printed to a command that got no prompt back. -/
def lastOutput (conn : Conn) (command : Str) : Run σ (List Str) := do
  let output ← reading (net.recorded conn)
  let base ← reading (net.basePrompt conn)
  let said := (reply output command base platform.events).1
  let text := String.ofList (strip command)
  let reply := listed said
  onlyIf (!said.isEmpty)
    (notify (s!"{device.endpoint}: '{text}' - no prompt came back; the device's last output: " ++
      s!"{reply}") .warning false)
  pure said

/-- A command's reply, logged: on the console too when nothing judges it. -/
def logReply (verify : Bool) (command : Str) (answer : List Str × List Str) : Run σ Unit := do
  let text := String.ofList (strip command)
  let reply := listed answer.1
  onlyIf (!answer.1.isEmpty)
    (notify s!"{device.endpoint}: '{text}' - the device replied: {reply}" .warning (!verify))
  notifyEvents device answer.2

/-- The reply to a command. -/
def keepReply (conn : Conn) (verify : Bool) (command output : Str) : Run σ Unit := do
  let base ← reading (net.basePrompt conn)
  let answer := reply output command base platform.events
  setPushing fun p => { p with replies := p.replies ++ [answer.1] }
  logReply device verify command answer

/-- A command whose send raised: after a `ReadTimeout`, what the device printed is
its reply. -/
def onSilence {α : Type} (conn : Conn) (command : Str) (raised : Raised) : Run σ α :=
  match raised with
  | .fault f => do
    onlyIf (f.kind == .readTimeout) do
      let said ← lastOutput net platform device conn command
      setPushing fun p => { p with replies := p.replies ++ [said] }
    throw raised
  | _ => throw raised

/-- A command sent as typed, and its reply kept. -/
def sendOne (conn : Conn) (verify : Bool) (command : Str) : Run σ Unit := do
  setPushing fun p => { p with commandsSent := true, sent := p.sent + 1 }
  far Raised.fault fun s => .ok () (net.clear conn s)
  let output ← attempt (call (net.sendConfigSet conn (strip command) platform.echoWhole))
    (onSilence net platform device conn command)
  keepReply net platform device conn verify command output

/-- The commands after one already sent: what came late for the command before,
then the next one; after the last, what still comes. -/
def sendRest (conn : Conn) (verify : Bool) (sent : Str) : List Str → Run σ Unit
  | [] => lateReply net platform device conn sent true
  | command :: commands => do
    lateReply net platform device conn sent false
    sendOne net platform device conn verify command
    sendRest conn verify command commands

/-- The loop over the commands. -/
def sendAll (conn : Conn) (verify : Bool) : List Str → Run σ Unit
  | [] => pure ()
  | command :: commands => do
    sendOne net platform device conn verify command
    sendRest net platform device conn verify command commands

/-! ## The push -/

/-- Up to config mode: the platform's language spoken, the configuration read
when verifying.  False when a problem was reported; nothing is sent then. -/
def opening (conn : Conn) (verify : Bool) : Run σ Bool := do
  notify s!"{device.ip} connected successfully" .success false
  match ← far id (platform.prepare net conn) with
  | some problem =>
    actionNeeded s!"{problem} (nothing was sent)"
    pure false
  | none =>
    onlyIf verify do
      let before ← snapshot net platform device "before the push" conn
      setPushing fun p => { p with before := before }
    match ← call (platform.enterConfig net conn) with
    | some problem =>
      actionNeeded problem
      pure false
    | none => pure true

/-- The finish; none when a commit did not answer in time. -/
def tryFinish (conn : Conn) : Run σ (Option Bool) :=
  attempt
    (do
      let finished ← finish net platform device conn
      pure (some finished))
    fun raised =>
      match raised with
      | .commitPending => pure none
      | _ => throw raised

/-- The result after the finish. -/
def concluded (conn : Conn) (commands : List Str) (state : Pushing) :
    Option Bool → Run σ PushResult
  | none => afterSlowCommit net platform device commands state
  | some false => pure { applied := false, replies := state.replies }
  | some true =>
    liveResult net platform device commands state
      (snapshot net platform device "after the push" conn)
      (snapshot net platform device "again, to tell the device's own changes apart" conn)
      (some conn)

/-- The finish and the judging. -/
def closing (conn : Conn) (commands : List Str) : Run σ PushResult := do
  let state ← pushing
  let plural := if state.sent = 1 then "" else "s"
  notify s!"{device.endpoint}: pushed {state.sent} command{plural}" .info false
  let finished ← tryFinish net platform device conn
  concluded net platform device conn commands state finished

/-- The conversation on an open connection. -/
def converse (conn : Conn) (commands : List Str) (verify : Bool) : Run σ PushResult := do
  if ← opening net platform device conn verify then
    sendAll net platform device conn verify commands
    closing net platform device conn commands
  else pure { applied := false }

/-- What a person must do about a device that stopped answering. -/
def stoppedAnswering (commands : List Str) (p : Pushing) : String :=
  let command := String.ofList (strip ((commands[p.sent - 1]?).getD []))
  let last := listed (p.replies.getLastD [])
  let output := if last.isEmpty then "" else s!"; its last output: {last}"
  let answered := p.sent - 1
  let verb := if answered = 1 then "is" else "are"
  let live := if answered = 0 then ""
    else s!"the {answered} before it {verb} live but NOT saved, "
  s!"stopped answering after '{command}' (command {p.sent} of {commands.length}{output}): " ++
    s!"{live}the {commands.length - p.sent} after it weren't sent - check the device, then save " ++
    "the change or remove it"

/-- `except ReadTimeout`. -/
def onReadTimeout (commands : List Str) (raised : Raised) : Run σ PushResult := do
  let state ← pushing
  if state.commandsSent ∧ platform.finish.interruptible = true ∧ state.sent = commands.length then
    -- the last command changed the prompt: the finish runs in a session of its own
    finishInNewSession net platform device
    liveResult net platform device commands state
      (fetchNew net platform device "after the push")
      (fetchNew net platform device "again, to tell the device's own changes apart") none
  else if state.commandsSent ∧ platform.finish.interruptible = true then
    actionNeeded (stoppedAnswering commands state)
    pure { applied := decide (0 < state.sent - 1), sent := some state.sent, interrupted := true,
           replies := state.replies }
  else
    let line := raised.firstLine
    notify s!"{device.ip} failed: {line}" .error false
    pure { applied := false, replies := state.replies }

/-- The `except` clauses of `push`. -/
def onRaised (commands : List Str) (raised : Raised) : Run σ PushResult :=
  match raised with
  | .hostKeyRefused => do
    actionNeeded REFUSED_REASON
    pure { applied := false }
  | .enableFailed text => do
    let sentence := firstSentence text
    notify (s!"{device.ip} couldn't enter enable mode ({sentence}) - check the security " ++
      "profile's enable secret") .error false
    pure { applied := false }
  | .fault f =>
    match f.kind with
    | .authentication => do
      notify s!"{device.ip} authentication failed" .error false
      pure { applied := false }
    | .timeout => do
      let failure := connectFailure f
      notify s!"{device.ip} {failure}" .error false
      pure { applied := false }
    | .readTimeout => onReadTimeout net platform device commands raised
    | _ => do
      let state ← pushing
      let line := raised.firstLine
      notify s!"{device.ip} failed: {line}" .error false
      pure { applied := false, replies := state.replies }
  | _ => do
    let state ← pushing
    let line := raised.firstLine
    notify s!"{device.ip} failed: {line}" .error false
    pure { applied := false, replies := state.replies }

/-- `disconnect` at the end, whatever it raises. -/
def hangUp (conn : Conn) : Run σ Unit := attempt (call (net.disconnect conn)) fun _ => pure ()

/-- `NetmikoSession.push`. -/
def push (commands : List Str) (verify : Bool) : Run σ PushResult := do
  notify s!"connecting to {device.endpoint}" .warning false
  let known ← reading (net.resolved device.host)
  if known then
    setPushing fun _ => {}
    attempt
      (do
        let conn ← far id net.connect
        ensure (converse net platform device conn commands verify) (hangUp net conn))
      (onRaised net platform device commands)
  else
    let host := String.ofList device.host
    notify (s!"{device.endpoint}: can't resolve {host} - check the name and the DNS this " ++
      "server uses") .error false
    pure { applied := false }

end Session
end NetRollout

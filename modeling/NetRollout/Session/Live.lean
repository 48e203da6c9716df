import NetRollout.Session.Engine

/-!
# Live changes and what a push says of them

On a platform without a commit every command is live once the device has answered
it.  A push that had an answer should therefore never end in "not applied", which
the engine records as a failed device with no command sent.

What decides it is the first exception of the conversation after that answer: of
the sends, of the reads of what came late, and of the finish.  `breakOff` is that
exception, computed from the connection's methods alone, with the moment it falls
at.  A push of one answered command or more reports the change (`ReportsLive`) if
and only if there is none, or it is a `ReadTimeout` --- and that one not from the
read between the first command and the second, where the clause counts the first
command, answered as it is, as the one that got no answer.
-/

namespace NetRollout
namespace Session

open PyText Effects Evidence

variable {σ : Type}

/-! ## Steps that only talk outward -/

/-- The step ends the same from worlds that agree outside, leaves the push's
variables alone, and raises only what Netmiko does. -/
structure Outward {α : Type} (x : Run σ α) : Prop where
  alike : Alike (fun w w' => w.outside = w'.outside) x
  keeps : ∀ p, Keeps (fun w => w.pushing = p) x
  raises : Raises (fun r => ∃ f, r = .fault f) x

namespace Outward

variable {α β : Type}

theorem pure (a : α) : Outward (Pure.pure a : Run σ α) :=
  ⟨.pure a, fun _ => .pure a, .pure a⟩

theorem bind {x : Run σ α} {f : α → Run σ β} (hx : Outward x) (hf : ∀ a, Outward (f a)) :
    Outward (x >>= f) :=
  ⟨hx.alike.bind fun a => (hf a).alike, fun p => (hx.keeps p).bind fun a => (hf a).keeps p,
    hx.raises.bind fun a => (hf a).raises⟩

theorem call (x : EStateM Fault σ α) : Outward (call x) := by
  refine ⟨fun w w' h => ?_, fun p w hw => ?_, fun w r w' h => ?_⟩
  · have hout : x w.outside = x w'.outside := congrArg x h
    simp only [Session.call, far, zoom, hout]
    cases x w'.outside <;> exact ⟨rfl, rfl⟩
  · simp only [Session.call, far, zoom]
    cases x w.outside <;> exact hw
  · simp only [Session.call, far, zoom] at h
    cases hx : x w.outside with
    | ok a s => simp only [hx, reduceCtorEq] at h
    | error f s =>
      simp only [hx, EStateM.Result.error.injEq] at h
      exact ⟨f, h.1.symm⟩

theorem reading (get : σ → α) : Outward (reading get) := call _

theorem notify (text : String) (tone : Tone) (important : Bool) :
    Outward (notify text tone important : Run σ Unit) :=
  ⟨.modify fun _ _ h => h, fun _ => .modify fun _ h => h, .modify _⟩

theorem actionNeeded (what : String) : Outward (actionNeeded what : Run σ Unit) :=
  ⟨.modify fun _ _ h => h, fun _ => .modify fun _ h => h, .modify _⟩

theorem onlyIf {x : Run σ Unit} (c : Bool) (hx : Outward x) : Outward (onlyIf c x) := by
  cases c
  · exact pure ()
  · exact hx

theorem discard {x : Run σ α} (hx : Outward x) : Outward (discard x) :=
  bind hx fun _ => pure ()

theorem ite {c : Prop} [Decidable c] {x y : Run σ α} (hx : Outward x) (hy : Outward y) :
    Outward (if c then x else y) := by
  split
  · exact hx
  · exact hy

end Outward

section Finish

variable [Unicode] (net : Netmiko σ) (platform : Platform) (device : Device) (conn : Conn)

theorem outward_beforeFinish : Outward (platform.beforeFinish net device conn) := by
  unfold Platform.beforeFinish
  split
  · exact .bind (.call _) fun _ => .bind (.reading _) fun vdoms =>
      .bind (.onlyIf _ (.discard (.call _))) fun _ => .bind (.call _) fun mode =>
      .bind (.onlyIf _ (.bind (.call _) fun _ => .notify _ _ _)) fun _ =>
      .onlyIf _ (.discard (.call _))
  · exact .pure ()

/-- Without a commit, leaving config mode never undoes the change. -/
theorem beforeLeave_of_interruptible {finish : Finish} (h : finish.interruptible = true) :
    finish.beforeLeave net device conn = (Pure.pure true : Run σ Bool) := by
  cases finish with
  | commit settings => cases h
  | _ => rfl

theorem outward_leave : Outward (leave net platform device conn) := by
  refine .bind (.call _) fun _ => .bind (.call _) fun answered =>
    .bind (.onlyIf _ (.notify _ _ _)) fun _ => .bind (.call _) fun unsaved => ?_
  cases unsaved with
  | none => exact .pure ()
  | some state => exact .actionNeeded _

variable (hfinish : platform.finish.interruptible = true)

include hfinish

theorem finish_of_interruptible :
    finish net platform device conn = (do
      platform.beforeFinish net device conn
      leave net platform device conn
      Pure.pure true) := by
  rw [finish, beforeLeave_of_interruptible net device conn hfinish]
  rfl

theorem outward_finish : Outward (finish net platform device conn) := by
  rw [finish_of_interruptible net platform device conn hfinish]
  exact .bind (outward_beforeFinish net platform device conn) fun _ =>
    .bind (outward_leave net platform device conn) fun _ => .pure true

/-- A finish that ends without an exception took effect. -/
theorem eq_true_of_finish {w w' : World σ} {b : Bool}
    (h : finish net platform device conn w = .ok b w') : b = true := by
  rw [finish_of_interruptible net platform device conn hfinish] at h
  cases hb : platform.beforeFinish net device conn w with
  | error r v =>
    rw [bind_of_error hb] at h
    cases h
  | ok u v =>
    rw [bind_of_ok hb] at h
    cases hl : leave net platform device conn v with
    | error r v' =>
      rw [bind_of_error hl] at h
      cases h
    | ok u' v' =>
      rw [bind_of_ok hl] at h
      cases h
      rfl

end Finish

/-! ## The conversation -/

/-- Where a conversation breaks off, with the number of commands answered by then. -/
inductive Moment where
  | sending (answered : Nat)
  /-- Reading what came late, before the next command. -/
  | between (answered : Nat)
  /-- Reading what came late for the last command. -/
  | atEnd
  | finishing
  deriving DecidableEq

/-- How many of `total` commands are sent by then. -/
def Moment.sent (total : Nat) : Moment → Nat
  | sending answered => answered + 1
  | between answered => answered
  | atEnd => total
  | finishing => total

/-- A method's exception with the moment it falls at. -/
def tag {ε α : Type} (m : Moment) (x : EStateM ε σ α) : EStateM (Moment × ε) σ α :=
  zoom id (fun s _ => s) (Prod.mk m) x

section Conversation

variable (net : Netmiko σ) (platform : Platform) (conn : Conn)

/-- A command, on an emptied record. -/
def sendTo (command : Str) : EStateM Fault σ Str := fun s =>
  net.sendConfigSet conn (strip command) platform.echoWhole (net.clear conn s)

/-- The conversation from a command answered to the last. -/
def talk (answered : Nat) : List Str → EStateM (Moment × Fault) σ Unit
  | [] => discard (tag .atEnd (lateOutput net conn true))
  | command :: commands => do
    discard (tag (.between answered) (lateOutput net conn false))
    discard (tag (.sending answered) (sendTo net platform conn command))
    talk (answered + 1) commands

variable [Unicode] (device : Device)

/-- The first exception of the conversation from state `s`, where all commands but
the first are still to be sent: of the connection's methods, and of the finish. -/
def breakOff (rest : List Str) (s : σ) : Option (Moment × Raised) :=
  match talk net platform conn 1 rest s with
  | .error (m, f) _ => some (m, .fault f)
  | .ok _ s' =>
    match finish net platform device conn ⟨s', [], {}⟩ with
    | .error r _ => some (.finishing, r)
    | .ok _ _ => none

/-- An exception a push ends well in spite of: a `ReadTimeout` not before the
second command. -/
def Survivable : Moment × Raised → Bool
  | (m, .fault f) => decide (f.kind = .readTimeout ∧ m ≠ .between 1)
  | _ => false

end Conversation

/-! ## The loop over the commands -/

/-- So many commands are sent, and there was an answer. -/
structure Sent (n : Nat) (p : Pushing) : Prop where
  commandsSent : p.commandsSent = true
  sent : p.sent = n
  replies : p.replies ≠ []

theorem call_of_ok {α : Type} {x : EStateM Fault σ α} {w : World σ} {a : α} {s : σ}
    (h : x w.outside = .ok a s) : call x w = .ok a { w with outside := s } := by
  simp only [call, far, zoom, h]

theorem call_of_error {α : Type} {x : EStateM Fault σ α} {w : World σ} {f : Fault} {s : σ}
    (h : x w.outside = .error f s) : call x w = .error (.fault f) { w with outside := s } := by
  simp only [call, far, zoom, h]

section Bookkeeping

variable {I : World σ → Prop}

theorem settles_reading {α : Type} (get : σ → α) : Settles I (reading get) := by
  refine ⟨fun w e w' h => ?_, fun w h => h⟩
  cases h

theorem settles_pushing : Settles I (pushing : Run σ Pushing) := by
  refine ⟨fun w e w' h => ?_, fun w h => h⟩
  cases h

/-- The report is not looked at. -/
def Unreported (I : World σ → Prop) : Prop := ∀ w told, I w → I { w with told := told }

theorem settles_notify (hI : Unreported I) (text : String) (tone : Tone) (important : Bool) :
    Settles I (notify text tone important : Run σ Unit) :=
  .modify fun w hw => hI w _ hw

theorem settles_actionNeeded (hI : Unreported I) (what : String) :
    Settles I (actionNeeded what : Run σ Unit) :=
  .modify fun w hw => hI w _ hw

theorem settles_notifyEvents (hI : Unreported I) (device : Device) (events : List Str) :
    Settles I (notifyEvents device events : Run σ Unit) := by
  induction events with
  | nil => exact .pure ()
  | cons event events ih => exact .bind (settles_notify hI _ _ _) fun _ => ih

end Bookkeeping

section Loop

variable [Unicode] (net : Netmiko σ) (platform : Platform) (device : Device) (conn : Conn)
  (verify : Bool)

/-- The world outside is as it was left, and so many commands are sent. -/
def Then (s : σ) (n : Nat) (w : World σ) : Prop := w.outside = s ∧ Sent n w.pushing

omit [Unicode] in
theorem unreported_then (s : σ) (n : Nat) : Unreported (Then s n) := fun _ _ h => h

omit [Unicode] in
theorem addToLast_ne_nil {said : List Str} {replies : List (List Str)} (h : replies ≠ []) :
    addToLast said replies ≠ [] := by
  unfold addToLast
  split
  · exact h
  · exact List.append_ne_nil_of_right_ne_nil _ (List.cons_ne_nil _ _)

theorem settles_keepLate (command late : Str) (s : σ) (n : Nat) :
    Settles (Then s n) (keepLate net platform device conn command late) := by
  have hI := unreported_then s n
  refine .bind (settles_reading _) fun base => .bind settles_pushing fun state => .ite (.pure ()) ?_
  refine .bind (settles_notifyEvents hI device _) fun _ => .onlyIf _ ?_
  refine .bind (.modify fun w hw => ⟨hw.1, hw.2.commandsSent, hw.2.sent, ?_⟩) fun _ =>
    settles_notify hI _ _ _
  exact addToLast_ne_nil hw.2.replies

/-- What comes late changes nothing but the last reply. -/
theorem lateReply_spec (command : Str) (waits : Bool) {n : Nat} {w : World σ}
    (hw : Sent n w.pushing) :
    match lateOutput net conn waits w.outside with
    | .ok _ s => ∃ w', lateReply net platform device conn command waits w = .ok () w' ∧ Then s n w'
    | .error f _ => ∃ w', lateReply net platform device conn command waits w =
        .error (.fault f) w' ∧ Sent n w'.pushing := by
  cases h : lateOutput net conn waits w.outside with
  | error f s => exact ⟨{ w with outside := s }, bind_of_error (call_of_error h), hw⟩
  | ok late s =>
    obtain ⟨_, w', hrun, hthen⟩ := (settles_keepLate net platform device conn command late s n).run
      (s := { w with outside := s }) ⟨rfl, hw⟩
    exact ⟨w', (bind_of_ok (call_of_ok h)).trans hrun, hthen⟩

/-- After a send that was answered, the reply is kept. -/
theorem keepReply_spec (command output : Str) {n : Nat} {w : World σ}
    (hcommands : w.pushing.commandsSent = true) (hsent : w.pushing.sent = n) :
    ∃ w', keepReply net platform device conn verify command output w = .ok () w' ∧
      Then w.outside n w' := by
  have hI := unreported_then w.outside n
  have hlog : ∀ answer, Settles (Then w.outside n) (logReply device verify command answer) :=
    fun _ => .bind (.onlyIf _ (settles_notify hI _ _ _)) fun _ => settles_notifyEvents hI _ _
  let answer := reply output command (net.basePrompt conn w.outside) platform.events
  obtain ⟨_, w', hrun, hthen⟩ := (hlog answer).run
    (s := { w with pushing := { w.pushing with replies := w.pushing.replies ++ [answer.1] } })
    ⟨rfl, hcommands, hsent, List.append_ne_nil_of_right_ne_nil _ (List.cons_ne_nil _ _)⟩
  exact ⟨w', hrun, hthen⟩

/-- After a send that raised, the push's count stands. -/
theorem onSilence_spec {α : Type} (command : Str) (f : Fault) {n : Nat} {w : World σ}
    (hw : Sent n w.pushing) :
    ∃ w', (onSilence net platform device conn command (.fault f) : Run σ α) w =
      .error (.fault f) w' ∧ Sent n w'.pushing := by
  have hI : Unreported fun w : World σ => Sent n w.pushing := fun _ _ h => h
  have hkeep : Settles (fun w : World σ => Sent n w.pushing)
      (onlyIf (f.kind == .readTimeout) do
        let said ← lastOutput net platform device conn command
        setPushing fun p => { p with replies := p.replies ++ [said] }) := by
    refine .onlyIf _ (.bind (.bind (settles_reading _) fun _ => .bind (settles_reading _) fun _ =>
      .bind (.onlyIf _ (settles_notify hI _ _ _)) fun _ => .pure _) fun said => .modify ?_)
    exact fun w hw => ⟨hw.commandsSent, hw.sent,
      List.append_ne_nil_of_left_ne_nil hw.replies _⟩
  obtain ⟨_, w', hrun, hsent⟩ := hkeep.run hw
  exact ⟨w', bind_of_ok hrun, hsent⟩

/-- The world with one more command counted, and the session's record emptied. -/
def counted (w : World σ) : World σ :=
  { w with outside := net.clear conn w.outside
           pushing := { w.pushing with commandsSent := true, sent := w.pushing.sent + 1 } }

theorem sendOne_eq (command : Str) (w : World σ) :
    sendOne net platform device conn verify command w =
      (attempt (call (net.sendConfigSet conn (strip command) platform.echoWhole))
        (onSilence net platform device conn command) >>=
          keepReply net platform device conn verify command) (counted net conn w) := rfl

/-- **One command** that is answered. -/
theorem sendOne_of_ok {command output : Str} {n : Nat} {w : World σ} {s : σ}
    (hw : w.pushing.sent = n) (h : sendTo net platform conn command w.outside = .ok output s) :
    ∃ w', sendOne net platform device conn verify command w = .ok () w' ∧ Then s (n + 1) w' := by
  have hcall := call_of_ok (w := counted net conn w) h
  obtain ⟨w', hrun, hthen⟩ := keepReply_spec net platform device conn verify command output
    (w := { counted net conn w with outside := s }) rfl (congrArg (· + 1) hw)
  rw [sendOne_eq]
  exact ⟨w', (bind_of_ok (attempt_of_ok hcall)).trans hrun, hthen⟩

/-- **One command** whose send raises, after others that were answered. -/
theorem sendOne_of_error {command : Str} {f : Fault} {n : Nat} {w : World σ} {s : σ}
    (hw : Sent n w.pushing) (h : sendTo net platform conn command w.outside = .error f s) :
    ∃ w', sendOne net platform device conn verify command w = .error (.fault f) w' ∧
      Sent (n + 1) w'.pushing := by
  have hcall := call_of_error (w := counted net conn w) h
  obtain ⟨w', hrun, hsilent⟩ := onSilence_spec (α := Str) net platform device conn command f
    (w := { counted net conn w with outside := s }) ⟨rfl, congrArg (· + 1) hw.sent, hw.replies⟩
  rw [sendOne_eq]
  exact ⟨w', bind_of_error ((attempt_of_error hcall).trans hrun), hsilent⟩

omit [Unicode] in
theorem tag_of_ok {ε α : Type} {m : Moment} {x : EStateM ε σ α} {s s' : σ} {a : α}
    (h : x s = .ok a s') : discard (tag m x) s = .ok () s' := by
  have htag : tag m x s = .ok a s' := by simp only [tag, zoom, id, h]
  exact bind_of_ok htag

omit [Unicode] in
theorem tag_of_error {ε α : Type} {m : Moment} {x : EStateM ε σ α} {s s' : σ} {e : ε}
    (h : x s = .error e s') : discard (tag m x) s = .error (m, e) s' := by
  have htag : tag m x s = .error (m, e) s' := by simp only [tag, zoom, id, h]
  exact bind_of_error htag

/-- **The rest of the loop** goes as the conversation does, and where that breaks
off it has counted the commands sent by then. -/
theorem sendRest_spec (sent : Str) (commands : List Str) {n : Nat} {w : World σ}
    (hw : Sent n w.pushing) :
    match talk net platform conn n commands w.outside with
    | .ok _ s => ∃ w', sendRest net platform device conn verify sent commands w = .ok () w' ∧
        Then s (n + commands.length) w'
    | .error (m, f) _ => ∃ w', sendRest net platform device conn verify sent commands w =
        .error (.fault f) w' ∧ Sent (m.sent (n + commands.length)) w'.pushing := by
  induction commands generalizing sent n w with
  | nil =>
    have hlate := lateReply_spec net platform device conn sent true hw
    rw [talk]
    cases h : lateOutput net conn true w.outside with
    | ok late s =>
      rw [h] at hlate
      rw [tag_of_ok h]
      exact hlate
    | error f s =>
      rw [h] at hlate
      rw [tag_of_error h]
      exact hlate
  | cons command commands ih =>
    have hlate := lateReply_spec net platform device conn sent false hw
    rw [talk]
    cases h : lateOutput net conn false w.outside with
    | error f s =>
      rw [h] at hlate
      obtain ⟨w', hrun, hsent⟩ := hlate
      rw [bind_of_error (tag_of_error h)]
      exact ⟨w', bind_of_error hrun, hsent⟩
    | ok late s =>
      rw [h] at hlate
      obtain ⟨w₁, hrun₁, rfl, hsent₁⟩ := hlate
      rw [bind_of_ok (tag_of_ok h)]
      cases hsend : sendTo net platform conn command w₁.outside with
      | error f s =>
        obtain ⟨w₂, hrun₂, hsent₂⟩ :=
          sendOne_of_error net platform device conn verify hsent₁ hsend
        rw [bind_of_error (tag_of_error hsend)]
        exact ⟨w₂, (bind_of_ok hrun₁).trans (bind_of_error hrun₂), hsent₂⟩
      | ok output s =>
        obtain ⟨w₂, hrun₂, rfl, hsent₂⟩ :=
          sendOne_of_ok net platform device conn verify hsent₁.sent hsend
        rw [bind_of_ok (tag_of_ok hsend)]
        have hrest := ih command hsent₂
        have hloop : sendRest net platform device conn verify sent (command :: commands) w =
            sendRest net platform device conn verify command commands w₂ :=
          (bind_of_ok hrun₁).trans (bind_of_ok hrun₂)
        rw [hloop, List.length_cons, Nat.add_comm commands.length, ← Nat.add_assoc]
        exact hrest

omit [Unicode] in
/-- Where the conversation breaks off between its first command and its last. -/
theorem moment_of_talk {m : Moment} {f : Fault} {commands : List Str} {n : Nat} {s s' : σ}
    (h : talk net platform conn n commands s = .error (m, f) s') :
    (∃ k, m = .sending k ∧ n ≤ k ∧ k < n + commands.length) ∨
      (∃ k, m = .between k ∧ n ≤ k ∧ k < n + commands.length) ∨ m = .atEnd := by
  induction commands generalizing n s with
  | nil =>
    rw [talk] at h
    cases hlate : lateOutput net conn true s with
    | ok late t =>
      rw [tag_of_ok hlate] at h
      cases h
    | error e t =>
      rw [tag_of_error hlate] at h
      cases h
      exact .inr (.inr rfl)
  | cons command commands ih =>
    rw [talk] at h
    rw [List.length_cons]
    cases hlate : lateOutput net conn false s with
    | error e t =>
      rw [bind_of_error (tag_of_error hlate)] at h
      cases h
      exact .inr (.inl ⟨n, rfl, le_rfl, by omega⟩)
    | ok late t =>
      rw [bind_of_ok (tag_of_ok hlate)] at h
      cases hsend : sendTo net platform conn command t with
      | error e u =>
        rw [bind_of_error (tag_of_error hsend)] at h
        cases h
        exact .inl ⟨n, rfl, le_rfl, by omega⟩
      | ok output u =>
        rw [bind_of_ok (tag_of_ok hsend)] at h
        rcases ih h with ⟨k, rfl, hle, hlt⟩ | ⟨k, rfl, hle, hlt⟩ | rfl
        · exact .inl ⟨k, rfl, by omega, by omega⟩
        · exact .inr (.inl ⟨k, rfl, by omega, by omega⟩)
        · exact .inr (.inr rfl)

end Loop

/-! ## Reading and judging raise nothing -/

section Judging

variable [Unicode] (net : Netmiko σ) (platform : Platform) (device : Device)

omit [Unicode] in
theorem total_notify (text : String) (tone : Tone) (important : Bool) :
    Total (notify text tone important : Run σ Unit) := .modify _

omit [Unicode] in
theorem total_snapshot (why : String) (conn : Conn) :
    Total (snapshot net platform device why conn) :=
  .attempt fun _ => .bind (total_notify _ _ _) fun _ => .pure none

theorem total_fetchNew (why : String) : Total (fetchNew net platform device why) :=
  .attempt fun _ => .bind (total_notify _ _ _) fun _ => .pure none

theorem total_defaultsView (conn : Option Conn) (fetches : List Str) :
    Total (defaultsView net platform device conn fetches) :=
  .attempt fun _ => .bind (total_notify _ _ _) fun _ => .pure none

theorem total_checkSaved (conn : Conn) (outcome : Outcome) :
    Total (checkSaved net platform device conn outcome) := by
  unfold checkSaved
  split
  · exact .pure ()
  · exact .attempt fun _ => total_notify _ _ _

theorem total_withDefaults (commands : List Str) (before after : Str) (again : Option Str)
    (replied : List Bool) (conn : Option Conn) (outcome : Outcome) :
    Total (withDefaults net platform device commands before after again replied conn outcome) := by
  unfold withDefaults
  split
  · exact .pure _
  · refine .bind (total_defaultsView net platform device conn _) fun view => ?_
    cases view <;> exact .pure _

theorem total_judged (commands : List Str) (before after : Str) (replied : List Bool)
    {again : Run σ (Option Str)} (hagain : Total again) (conn : Option Conn) :
    Total (judged net platform device commands before after replied again conn) := by
  unfold judged
  dsimp only
  split
  · exact total_withDefaults net platform device commands before after none replied conn _
  · exact .bind hagain fun second =>
      total_withDefaults net platform device commands before after second replied conn _

theorem total_judgePush (commands : List Str) (before : Str) (replies : List (List Str))
    {first again : Run σ (Option Str)} (hfirst : Total first) (hagain : Total again)
    (conn : Option Conn) :
    Total (judgePush net platform device commands before replies first again conn) := by
  refine .bind hfirst fun after => ?_
  cases after with
  | none => exact .pure none
  | some after =>
    refine .bind (total_judged net platform device commands before after _ hagain conn)
      fun outcome => .bind ?_ fun _ => .pure _
    cases conn with
    | none => exact .pure ()
    | some conn => exact total_checkSaved net platform device conn outcome

/-- A live push ends as applied, with the replies. -/
theorem liveResult_spec (commands : List Str) (p : Pushing) {first again : Run σ (Option Str)}
    (hfirst : Total first) (hagain : Total again) (conn : Option Conn) (w : World σ) :
    ∃ j w', liveResult net platform device commands p first again conn w =
      .ok (.live p.replies j) w' := by
  unfold liveResult
  cases p.before with
  | none => exact ⟨none, w, rfl⟩
  | some before =>
    obtain ⟨j, w', h⟩ := (total_judgePush net platform device commands before p.replies hfirst
      hagain conn).exists_ok w
    exact ⟨j, w', bind_of_ok h⟩

theorem total_finishInNewSession : Total (finishInNewSession net platform device) :=
  .attempt fun _ => .modify _

end Judging

/-! ## What the push says -/

/-- The push is not said to have applied nothing, and the engine does not record
the device as failed with no command sent. -/
def ReportsLive (result : PushResult) : Prop :=
  result.applied = true ∧
    ¬ ((classify (some result)).status = .failed ∧ (classify (some result)).sent = 0)

theorem not_reportsLive {result : PushResult} (h : result.applied = false) :
    ¬ ReportsLive result := by
  intro hlive
  rw [hlive.1] at h
  cases h

theorem reportsLive_live {replies : List (List Str)} (h : replies ≠ [])
    (j : Option (Outcome × Str × Str)) : ReportsLive (.live replies j) := by
  refine ⟨rfl, fun hfailed => h (List.length_eq_zero_iff.mp ?_)⟩
  cases j with
  | none => exact absurd hfailed.1 (by simp [classify, PushResult.live])
  | some j =>
    have hsent := hfailed.2
    simp only [classify, PushResult.live, Option.map_some, if_true, Bool.false_eq_true,
      if_false] at hsent
    split at hsent <;> exact hsent

theorem reportsLive_interrupted {result : PushResult} (h : result.interrupted = true) :
    ReportsLive result ↔ result.applied = true := by
  refine ⟨fun hlive => hlive.1, fun happlied => ⟨happlied, fun hfailed => ?_⟩⟩
  simp [classify, happlied, h] at hfailed

section Clauses

variable [Unicode] (net : Netmiko σ) (platform : Platform) (device : Device)
  (commands : List Str)

/-- **The `except` clauses**, after so many commands sent. -/
theorem onRaised_fault (hfinish : platform.finish.interruptible = true) {f : Fault} {n : Nat}
    {w : World σ} (hw : Sent n w.pushing) :
    ∃ result w', onRaised net platform device commands (.fault f) w = .ok result w' ∧
      (ReportsLive result ↔ f.kind = .readTimeout ∧ (n = commands.length ∨ 1 < n)) := by
  by_cases hkind : f.kind = .readTimeout
  · have hclause : onRaised net platform device commands (.fault f) =
        onReadTimeout net platform device commands (.fault f) := by
      simp only [onRaised, hkind]
    rw [hclause]
    by_cases hlast : n = commands.length
    · obtain ⟨_, w₁, hrun⟩ := (total_finishInNewSession net platform device).exists_ok w
      obtain ⟨j, w₂, hlive⟩ := liveResult_spec net platform device commands w.pushing
        (total_fetchNew net platform device "after the push")
        (total_fetchNew net platform device "again, to tell the device's own changes apart")
        none w₁
      have hbranch : w.pushing.commandsSent ∧ platform.finish.interruptible = true ∧
          w.pushing.sent = commands.length := ⟨hw.commandsSent, hfinish, hw.sent.trans hlast⟩
      refine ⟨.live w.pushing.replies j, w₂, ?_,
        iff_of_true (reportsLive_live hw.replies j) ⟨hkind, .inl hlast⟩⟩
      show (if _ then _ else _ : Run σ PushResult) w = _
      rw [if_pos hbranch]
      exact (bind_of_ok hrun).trans hlive
    · have hbranch : ¬ (w.pushing.commandsSent ∧ platform.finish.interruptible = true ∧
          w.pushing.sent = commands.length) := fun h => hlast (hw.sent.symm.trans h.2.2)
      have hbranch' : w.pushing.commandsSent = true ∧ platform.finish.interruptible = true :=
        ⟨hw.commandsSent, hfinish⟩
      refine ⟨{ applied := decide (0 < w.pushing.sent - 1), sent := some w.pushing.sent
                interrupted := true, replies := w.pushing.replies },
        { w with told := w.told ++ [.actionNeeded (stoppedAnswering commands w.pushing)] },
        ?_, ?_⟩
      · show (if _ then _ else _ : Run σ PushResult) w = _
        rw [if_neg hbranch, if_pos hbranch']
        rfl
      · rw [reportsLive_interrupted rfl, decide_eq_true_iff, hw.sent]
        constructor
        · exact fun h => ⟨hkind, .inr (by omega)⟩
        · rintro ⟨-, h | h⟩
          · exact absurd h hlast
          · omega
  · refine ⟨{ applied := false, replies := if f.kind = .authentication ∨ f.kind = .timeout then []
        else w.pushing.replies }, ?_⟩
    obtain ⟨kind, name, text, reason⟩ := f
    cases kind with
    | readTimeout => exact absurd rfl hkind
    | _ => exact ⟨_, rfl, iff_of_false (not_reportsLive rfl) fun h => hkind h.1⟩

/-- **The finish and the judging** go as the finish does. -/
theorem closing_spec (hfinish : platform.finish.interruptible = true) (conn : Conn) {n : Nat}
    {w : World σ} (hw : Sent n w.pushing) :
    match finish net platform device conn ⟨w.outside, [], {}⟩ with
    | .ok _ _ => ∃ result w', closing net platform device conn commands w = .ok result w' ∧
        ReportsLive result
    | .error r _ => ∃ f w', r = .fault f ∧
        closing net platform device conn commands w = .error (.fault f) w' ∧
        Sent n w'.pushing := by
  have hout := outward_finish net platform device conn hfinish
  let plural := if w.pushing.sent = 1 then "" else "s"
  let w₁ : World σ := { w with told := w.told ++
    [.notify s!"{device.endpoint}: pushed {w.pushing.sent} command{plural}" .info false] }
  have hstart : closing net platform device conn commands w = (tryFinish net platform device conn
      >>= concluded net platform device conn commands w.pushing) w₁ := rfl
  have hend := hout.alike w₁ ⟨w.outside, [], {}⟩ rfl
  have hkeep := hout.keeps w.pushing w₁ rfl
  cases hfin : finish net platform device conn w₁ with
  | ok b w₂ =>
    cases hfin' : finish net platform device conn ⟨w.outside, [], {}⟩ with
    | error r' v => simp only [hfin, hfin', SameEnd] at hend
    | ok b' v =>
      obtain rfl := eq_true_of_finish net platform device conn hfinish hfin
      have htry : tryFinish net platform device conn w₁ = .ok (some true) w₂ :=
        attempt_of_ok (bind_of_ok hfin)
      obtain ⟨j, w₃, hlive⟩ := liveResult_spec net platform device commands w.pushing
        (total_snapshot net platform device "after the push" conn)
        (total_snapshot net platform device "again, to tell the device's own changes apart" conn)
        (some conn) w₂
      rw [hstart, bind_of_ok htry]
      exact ⟨_, w₃, hlive, reportsLive_live hw.replies j⟩
  | error r w₂ =>
    cases hfin' : finish net platform device conn ⟨w.outside, [], {}⟩ with
    | ok b' v => simp only [hfin, hfin', SameEnd] at hend
    | error r' v =>
      rw [hfin, hfin'] at hend
      obtain ⟨rfl, -⟩ := hend
      obtain ⟨f, rfl⟩ := hout.raises w₁ r w₂ hfin
      have htry : tryFinish net platform device conn w₁ = .error (.fault f) w₂ :=
        attempt_of_error (bind_of_error hfin)
      rw [hfin] at hkeep
      rw [hstart, bind_of_error htry]
      exact ⟨f, w₂, rfl, rfl, by rwa [show w₂.pushing = w.pushing from hkeep]⟩

end Clauses

/-! ## From the first answer on -/

section Push

variable [Unicode] (net : Netmiko σ) (platform : Platform) (device : Device)

/-- The world as `push` starts the connection in. -/
def started (w : World σ) : World σ :=
  { w with told := w.told ++ [.notify s!"connecting to {device.endpoint}" .warning false]
           pushing := {} }

/-- From world `w`, a push reaches config mode in world `w'`, and the first command
sent is answered there, which leaves the world outside in state `s`. -/
structure Answered (command : Str) (verify : Bool) (w : World σ) (conn : Conn) (w' : World σ)
    (s : σ) : Prop where
  resolved : net.resolved device.host w.outside = true
  reached : ∃ w₁, far id net.connect (started device w) = .ok conn w₁ ∧
    opening net platform device conn verify w₁ = .ok true w'
  answered : ∃ output, sendTo net platform conn command w'.outside = .ok output s

section Opening

variable {I : World σ → Prop}

omit [Unicode] in
theorem keeps_far {ε α : Type} (hI : ∀ w s, I w → I { w with outside := s }) (name : ε → Raised)
    (x : EStateM ε σ α) : Keeps I (far name x) := by
  intro w hw
  simp only [far, zoom]
  cases x w.outside <;> exact hI w _ hw

omit [Unicode] in
theorem keeps_snapshot (hout : ∀ w s, I w → I { w with outside := s }) (hI : Unreported I)
    (why : String) (conn : Conn) : Keeps I (snapshot net platform device why conn) := by
  refine .attempt (.bind (keeps_far hout _ _) fun config => ?_) fun _ =>
    .bind (settles_notify hI _ _ _).keeps fun _ => .pure none
  split
  · exact .bind (settles_notify hI _ _ _).keeps fun _ => .pure none
  · exact .pure _

/-- Nothing is counted before the first command. -/
theorem keeps_opening (conn : Conn) (verify : Bool) :
    Keeps (fun w : World σ => w.pushing.sent = 0) (opening net platform device conn verify) := by
  have hout : ∀ (w : World σ) s, w.pushing.sent = 0 →
      ({ w with outside := s } : World σ).pushing.sent = 0 := fun _ _ h => h
  have hI : Unreported fun w : World σ => w.pushing.sent = 0 := fun _ _ h => h
  refine .bind (settles_notify hI _ _ _).keeps fun _ =>
    .bind (keeps_far hout _ _) fun problem => ?_
  cases problem with
  | some problem => exact .bind (settles_actionNeeded hI _).keeps fun _ => .pure false
  | none =>
    refine .bind ?_ fun _ => .bind (keeps_far hout _ _) fun refused => ?_
    · cases verify with
      | false => exact .pure ()
      | true => exact .bind (keeps_snapshot net platform device hout hI _ conn) fun _ =>
          .modify fun _ h => h
    · cases refused with
      | some problem => exact .bind (settles_actionNeeded hI _).keeps fun _ => .pure false
      | none => exact .pure true

end Opening

/-- Once the name resolves, the push is the conversation under its `except` clauses. -/
theorem push_eq {commands : List Str} {verify : Bool} {w : World σ}
    (hresolved : net.resolved device.host w.outside = true) :
    push net platform device commands verify w =
      attempt (far id net.connect >>= fun conn =>
        ensure (converse net platform device conn commands verify) (hangUp net conn))
        (onRaised net platform device commands) (started device w) := by
  let w₁ : World σ :=
    { w with told := w.told ++ [.notify s!"connecting to {device.endpoint}" .warning false] }
  have hread : (reading (net.resolved device.host) : Run σ Bool) w₁ = .ok true w₁ := by
    simp only [reading, far, zoom, w₁, hresolved]
  exact bind_of_ok (x := notify s!"connecting to {device.endpoint}" .warning false) rfl |>.trans
    (bind_of_ok hread)

omit [Unicode] in
theorem settles_hangUp (p : Pushing) (conn : Conn) :
    Settles (fun w => w.pushing = p) (hangUp net conn) :=
  .attempt ((Outward.call _).keeps p) fun _ => .pure ()

/-- The conversation's result is the push's, and what the conversation raised goes to
the clauses with the count it left. -/
theorem push_of_converse (commands : List Str) (verify : Bool) {w w₁ : World σ} {conn : Conn}
    (hresolved : net.resolved device.host w.outside = true)
    (hconnect : far id net.connect (started device w) = .ok conn w₁) :
    match converse net platform device conn commands verify w₁ with
    | .ok result _ => ∃ v', push net platform device commands verify w = .ok result v'
    | .error r v => ∃ v', v'.pushing = v.pushing ∧ push net platform device commands verify w =
        onRaised net platform device commands r v' := by
  rw [push_eq net platform device hresolved]
  have hensure := ensure_of_total (x := converse net platform device conn commands verify)
    (settles_hangUp net {} conn).total w₁
  cases h : converse net platform device conn commands verify w₁ with
  | ok result v =>
    rw [h] at hensure
    exact ⟨_, attempt_of_ok ((bind_of_ok hconnect).trans hensure)⟩
  | error r v =>
    rw [h] at hensure
    exact ⟨_, (settles_hangUp net v.pushing conn).keeps v rfl,
      attempt_of_error ((bind_of_ok hconnect).trans hensure)⟩

/-- The conversation from the first answer on. -/
theorem converse_eq {command : Str} (rest : List Str) {verify : Bool} {w₁ w' w₂ : World σ}
    {conn : Conn} (hopening : opening net platform device conn verify w₁ = .ok true w')
    (hfirst : sendOne net platform device conn verify command w' = .ok () w₂) :
    converse net platform device conn (command :: rest) verify w₁ =
      (sendRest net platform device conn verify command rest >>= fun _ =>
        closing net platform device conn (command :: rest)) w₂ := by
  have hall : sendAll net platform device conn verify (command :: rest) w' =
      sendRest net platform device conn verify command rest w₂ := bind_of_ok hfirst
  have hstart : converse net platform device conn (command :: rest) verify w₁ =
      (sendAll net platform device conn verify (command :: rest) >>= fun _ =>
        closing net platform device conn (command :: rest)) w' := bind_of_ok hopening
  rw [hstart]
  cases h : sendRest net platform device conn verify command rest w₂ with
  | ok u v => rw [bind_of_ok (hall.trans h), bind_of_ok h]
  | error r v => rw [bind_of_error (hall.trans h), bind_of_error h]

omit [Unicode] in
/-- Breaking off with a `ReadTimeout` ends well but for one moment: the read before
the second command. -/
theorem survivable_iff {m : Moment} {f : Fault} {n : Nat} (hm : (∃ k, m = .sending k ∧ 1 ≤ k) ∨
      (∃ k, m = .between k ∧ 1 ≤ k ∧ k < n) ∨ m = .atEnd ∨ m = .finishing) :
    Survivable (m, .fault f) = true ↔
      f.kind = .readTimeout ∧ (m.sent n = n ∨ 1 < m.sent n) := by
  rw [Survivable, decide_eq_true_iff]
  refine and_congr_right fun _ => ?_
  rcases hm with ⟨k, rfl, hk⟩ | ⟨k, rfl, hk, hlt⟩ | rfl | rfl
  · exact iff_of_true (by simp) (.inr (Nat.lt_succ_of_le hk))
  · simp only [ne_eq, Moment.between.injEq, Moment.sent]
    omega
  · exact iff_of_true (by simp) (.inl rfl)
  · exact iff_of_true (by simp) (.inl rfl)

/-- **What a push says of live changes.**  After one command was answered, on a
platform without a commit, the push reports the change and the engine does not record
the device as failed with nothing sent, if and only if the conversation goes to its
end or breaks off with a `ReadTimeout` that does not come from the read before the
second command. -/
theorem reportsLive_push_iff (hfinish : platform.finish.interruptible = true) {command : Str}
    {rest : List Str} {verify : Bool} {w w' : World σ} {conn : Conn} {s : σ}
    (h : Answered net platform device command verify w conn w' s) :
    ∃ result v, push net platform device (command :: rest) verify w = .ok result v ∧
      (ReportsLive result ↔
        ∀ e ∈ breakOff net platform conn device rest s, Survivable e = true) := by
  obtain ⟨hresolved, ⟨w₁, hconnect, hopening⟩, output, hanswered⟩ := h
  have hpush := push_of_converse net platform device (command :: rest) verify hresolved hconnect
  have hzero : w₁.pushing.sent = 0 := by
    have hkeep := keeps_far (I := fun v : World σ => v.pushing.sent = 0) (fun _ _ h => h) id
      net.connect (started device w) rfl
    rwa [hconnect] at hkeep
  have hzero' : w'.pushing.sent = 0 := by
    have hkeep := keeps_opening net platform device conn verify w₁ hzero
    rwa [hopening] at hkeep
  obtain ⟨w₂, hfirst, rfl, hsent₂⟩ :=
    sendOne_of_ok net platform device conn verify hzero' hanswered
  have hconverse := converse_eq net platform device rest hopening hfirst
  have hloop := sendRest_spec net platform device conn verify command rest hsent₂
  rw [breakOff]
  cases htalk : talk net platform conn 1 rest w₂.outside with
  | error e s' =>
    obtain ⟨m, f⟩ := e
    rw [htalk] at hloop
    obtain ⟨v, hrun, hsent⟩ := hloop
    rw [hconverse.trans (bind_of_error hrun)] at hpush
    obtain ⟨v', hv', hpush⟩ := hpush
    obtain ⟨result, u, hclauses, hiff⟩ := onRaised_fault net platform device (command :: rest)
      hfinish (f := f) (w := v') (hv' ▸ hsent)
    refine ⟨result, u, hpush.trans hclauses, ?_⟩
    have hmoment : (∃ k, m = .sending k ∧ 1 ≤ k) ∨
        (∃ k, m = .between k ∧ 1 ≤ k ∧ k < 1 + rest.length) ∨ m = .atEnd ∨ m = .finishing :=
      (moment_of_talk net platform conn htalk).imp (fun ⟨k, hk, hle, _⟩ => ⟨k, hk, hle⟩)
        (Or.imp id Or.inl)
    rw [hiff, List.length_cons, Nat.add_comm rest.length, ← survivable_iff hmoment]
    simp only [Option.mem_some_iff, forall_eq']
  | ok u s' =>
    rw [htalk] at hloop
    obtain ⟨v, hrun, rfl, hsent⟩ := hloop
    have hclosing := closing_spec net platform device (command :: rest) hfinish conn hsent
    rw [hconverse.trans (bind_of_ok hrun)] at hpush
    dsimp only
    cases hfin : finish net platform device conn ⟨v.outside, [], {}⟩ with
    | ok b t =>
      rw [hfin] at hclosing
      obtain ⟨result, u', hrun', hlive⟩ := hclosing
      rw [hrun'] at hpush
      obtain ⟨v', hpush⟩ := hpush
      exact ⟨result, v', hpush, iff_of_true hlive fun e he => absurd he (Option.not_mem_none e)⟩
    | error r t =>
      rw [hfin] at hclosing
      obtain ⟨f, u', rfl, hrun', hsent'⟩ := hclosing
      rw [hrun'] at hpush
      obtain ⟨v', hv', hpush⟩ := hpush
      obtain ⟨result, u'', hclauses, hiff⟩ := onRaised_fault net platform device (command :: rest)
        hfinish (f := f) (w := v') (hv' ▸ hsent')
      refine ⟨result, u'', hpush.trans hclauses, ?_⟩
      have hcount : 1 + rest.length = (command :: rest).length := Nat.add_comm _ _
      have hsurvive := survivable_iff (f := f) (n := 1 + rest.length)
        (.inr (.inr (.inr (Eq.refl Moment.finishing))))
      rw [hiff, ← hcount]
      simp only [Option.mem_some_iff, forall_eq', hsurvive, Moment.sent]

end Push

/-! ## A connection lost in the middle -/

/-- The `cisco_ios` row, but for its regular expressions. -/
def ciscoIos (framing events : Str → Bool) : Platform where
  dialect := .base
  finish := .saveConfig
  showConfig := ["show running-config".toList]
  grammar := .ciscoIos
  framing := some framing
  showSaved := "show startup-config".toList
  defaults := fun _ => ["show running-config all".toList]
  events := events
  echoWhole := true

/-- A device whose answers to the commands are written down, and with which all else
goes well. -/
def scripted : Netmiko (List (Except Fault Str)) where
  resolved _ _ := true
  connect := pure 0
  enable _ := pure ()
  configMode _ _ := pure ()
  exitConfigMode _ := pure ()
  findPrompt _ := pure "R1#".toList
  setBasePrompt _ := pure ()
  sendConfigSet _ _ _ := fun
    | [] => .ok [] []
    | .ok output :: answers => .ok output answers
    | .error f :: answers => .error f answers
  sendCommand _ _ := pure []
  sendCommandTiming _ _ := pure []
  readChannel _ := pure []
  commit _ := pure []
  saveConfig _ := pure []
  disconnect _ := pure ()
  basePrompt _ _ := "R1".toList
  vdoms _ _ := false
  recorded _ _ := []
  clear _ := id
  rounds _ _ := 0

def router : Device := ⟨"192.0.2.1", "192.0.2.1".toList, "192.0.2.1:22"⟩

/-- The socket closed under a send. -/
def socketClosed : Fault := ⟨.other, "OSError".toList, "socket closed".toList, none⟩

def loggingHost : Str := "logging host 192.0.2.9".toList

/-- The two commands: the first is answered with a prompt, and then come the answers. -/
def answering (answers : List (Except Fault Str)) : World (List (Except Fault Str)) :=
  ⟨.ok "R1(config)#".toList :: answers, [], {}⟩

theorem answered_scripted (answers : List (Except Fault Str)) :
    ∃ w', @Answered _ Unicode.ascii scripted (ciscoIos (fun _ => false) fun _ => false) router
      loggingHost false (answering answers) 0 w' answers :=
  ⟨_, @Answered.mk _ Unicode.ascii _ _ _ _ _ _ _ _ _ rfl ⟨_, rfl, rfl⟩ ⟨_, rfl⟩⟩

/-- **Live, and reported as not applied**: the first command is answered, the socket
closes under the second, and the engine records a failed device with no command sent. -/
theorem not_reportsLive_socketClosed :
    (∃ w' s, @Answered _ Unicode.ascii scripted (ciscoIos (fun _ => false) fun _ => false) router
        loggingHost false (answering [.error socketClosed]) 0 w' s) ∧
      ∃ result v, @push _ Unicode.ascii scripted (ciscoIos (fun _ => false) fun _ => false) router
        [loggingHost, "ntp server 192.0.2.9".toList] false (answering [.error socketClosed]) =
          .ok result v ∧
        classify (some result) = ⟨.failed, 0, none⟩ ∧ ¬ ReportsLive result := by
  obtain ⟨w', h⟩ := answered_scripted [.error socketClosed]
  exact ⟨⟨w', _, h⟩, _, _, rfl, rfl, not_reportsLive rfl⟩

/-- The same push on a device that answers both commands. -/
theorem reportsLive_answered :
    ∃ result v, @push _ Unicode.ascii scripted (ciscoIos (fun _ => false) fun _ => false) router
        [loggingHost, "ntp server 192.0.2.9".toList] false
        (answering [.ok "R1(config)#".toList]) = .ok result v ∧ ReportsLive result := by
  obtain ⟨w', h⟩ := answered_scripted [.ok "R1(config)#".toList]
  obtain ⟨result, v, hpush, hiff⟩ := @reportsLive_push_iff _ Unicode.ascii scripted
    (ciscoIos (fun _ => false) fun _ => false) router rfl _ ["ntp server 192.0.2.9".toList] _ _ _ _
    _ h
  refine ⟨result, v, hpush, hiff.mpr fun e he => ?_⟩
  cases he

end Session
end NetRollout

import NetRollout.Access.Trials

/-!
# The contract of the port's change

What the app's steps and the helper's keep, and what follows for every run.
-/

namespace NetRollout
namespace Access
namespace Port

open PyText (Str Decimals ofInt)

namespace State

variable {s : State} {id : Str} {port : Nat} {helper : Helper}

/-! ## Small facts -/

theorem not_handled_iff : s.handled id = false ↔ ∀ e ∈ s.log, e.id ≠ id := by
  simp [handled]

theorem Settled.of_last {s' : State} (h : s.Settled id) (hlog : s'.log = s.log)
    (hlast : s'.last = s.last) : s'.Settled id := by
  rw [Settled, hlog, hlast]
  exact h

theorem Sound.mono {s' : State} {p : Previous} (h : s.Sound p) (hids : ∀ id ∈ s.ids, id ∈ s'.ids)
    (haccepted : ∀ a ∈ s.accepted, a ∈ s'.accepted) : s'.Sound p := by
  refine ⟨fun id hid => hids id (h.1 id hid), fun id hid => ?_⟩
  obtain ⟨a, ha, heq⟩ := h.2 id hid
  exact ⟨a, haccepted a ha, heq⟩

theorem Confirmed.mono {s' : State} (h : s.Confirmed id port)
    (haccepted : ∀ a ∈ s.accepted, a ∈ s'.accepted) (htrials : ∀ t ∈ s.trials, t ∈ s'.trials) :
    s'.Confirmed id port := by
  obtain ⟨a, ha, hid, hport, htrial, htime⟩ := h
  exact ⟨a, haccepted a ha, hid, hport, htrials _ htrial, htime⟩

namespace Inv

/-! ## The app's steps -/

theorem readPrevious (h : Inv s) : Inv { s with asking := s.site.previous :: s.asking } := by
  refine { h with asking := fun p hp => ?_ }
  rcases List.mem_cons.mp hp with rfl | hp
  · exact h.site
  · exact h.asking p hp

theorem take {enabled : Bool} {change : Change} {s' : State} (h : Inv s)
    (hupdates : enabled = true → s.Updates (s.site, change))
    (hstep : s.take enabled change = some s') : Inv s' := by
  rw [State.take, Option.ite_none_right_eq_some, Option.some.injEq, Bool.and_eq_true] at hstep
  obtain ⟨⟨henabled, -⟩, rfl⟩ := hstep
  refine { h with update := fun u hu => ?_ }
  cases hu
  exact hupdates henabled

/-- A confirmation accepted is of a trial, before its deadline. -/
theorem check {apply_id : Str} {reached_port now : Nat} {trial : Trial} (h : Inv s)
    (hcheck : s.confirmable apply_id reached_port now = some trial) :
    trial ∈ s.trials ∧ now ≤ trial.deadline := by
  rw [confirmable] at hcheck
  split at hcheck
  · cases hcheck
  rename_i hid
  simp only [Bool.or_eq_true, Bool.not_eq_true', decide_eq_true_eq, not_or, Bool.not_eq_false,
    ne_eq, not_not] at hid
  split at hcheck
  · cases hcheck
  rename_i hport
  split at hcheck
  · cases hcheck
  rename_i hdeadline
  obtain ⟨port, deadline, htrying, hdead, hmem⟩ := h.tells hid.1.1
  rw [htrying, ne_eq, not_not] at hport
  obtain ⟨heq, -⟩ := Option.filter_eq_some_iff.mp hport
  cases heq
  rw [hdead] at hcheck hdeadline
  cases hcheck
  rw [hid.2] at hmem
  refine ⟨hmem, ?_⟩
  have hne := (h.trials _ hmem).1
  simp only [Option.any_some, Bool.and_eq_true, decide_eq_true_eq, not_and, ne_eq] at hdeadline
  exact Nat.le_of_not_lt (hdeadline hne)

theorem agrees_mono {s' : State} (hstatus : s'.status = s.status) (hport : s'.https_port = s.https_port)
    (hlog : s'.log = s.log) (hconfirmed : ∀ id port, s.Confirmed id port → s'.Confirmed id port)
    (h : s.Agrees helper) : s'.Agrees helper := by
  have hread : s'.read_status = s.read_status := by rw [read_status, hstatus]; rfl
  have hbetween : s.Between → s'.Between := by
    rw [Between, Between, hread, hport, hlog]
    exact id
  cases helper with
  | idle | deciding | asked _ => exact hbetween h
  | judging _ status => exact ⟨hbetween h.1, h.2.trans hread.symm⟩
  | recording status =>
    rw [Agrees, hlog, hread]
    exact h
  | opening port id | listing port id | recreating port id | starting port id =>
    rw [Agrees, hlog, hport, hread]
    exact h
  | waiting id =>
    rw [Agrees, hread]
    exact ⟨hbetween h.1, h.2⟩
  | closing close =>
    obtain ⟨port, hopen, hkeep⟩ := h
    rw [Agrees, hlog, hport, hread]
    exact ⟨port, hopen, fun hclose => (hkeep hclose).imp_right (hconfirmed _ _)⟩
  | keeping close new =>
    rw [Agrees, hlog, hport]
    exact ⟨h.1, h.2.1, hconfirmed _ _ h.2.2⟩
  | reading close new | writing close new _ =>
    rw [Agrees, hlog, hport]
    exact ⟨h.1, h.2.1, h.2.2.1, hconfirmed _ _ h.2.2.2⟩
  | unlisting close | unlinking close | ending close =>
    obtain ⟨port, current, hopen, hends⟩ := h
    rw [Agrees, hlog, hport]
    exact ⟨port, current, hopen, hends.imp_right fun ⟨heq, hkeep, hconf⟩ =>
      ⟨heq, hkeep, hconfirmed _ _ hconf⟩⟩

/-- A call writes into `site.env` what the helper doesn't handle again. -/
theorem rewrite {site : Site} {ids : List Str} {accepted : List Accepted} {undos : List Previous}
    (h : Inv s) (hids : ∀ id ∈ s.ids, id ∈ ids) (hne : [] ∉ ids)
    (haccepted : ∀ a ∈ s.accepted, a ∈ accepted)
    (htrials : ∀ a ∈ accepted, a.trial ∈ s.trials ∧ a.time ≤ a.trial.deadline)
    (hsite : { s with ids, accepted }.Sound site.previous)
    (hsafe : site.req_id = s.site.req_id ∨ s.safe site.req_id = true)
    (hundos : ∀ p ∈ undos, { s with ids, accepted }.Sound p) :
    Inv { s with site, ids, accepted, undos, update := none } := by
  have hsound : ∀ p, s.Sound p → { s with site, ids, accepted, undos, update := none }.Sound p :=
    fun p hp => Sound.mono hp hids haccepted
  have hconfirmed : ∀ id port, s.Confirmed id port →
      { s with site, ids, accepted, undos, update := none }.Confirmed id port :=
    fun id port hp => Confirmed.mono hp haccepted fun _ ht => ht
  -- what is written is not handled, or the last that was; and then nothing else is taken up
  have hwritten : site.req_id = s.site.req_id ∨ site.req_id = [] ∨
      (∀ e ∈ s.log, e.id ≠ site.req_id) ∨ site.req_id = s.last ∧ s.takesUp = false := by
    refine hsafe.imp_right fun hs => ?_
    simp only [safe, Bool.or_eq_true, Bool.and_eq_true, Bool.not_eq_true', List.isEmpty_iff,
      beq_iff_eq, not_handled_iff, or_assoc] at hs
    exact hs
  have htakes : ∀ {request : Site} {status : ApplyStatus}, s.takesUp = isNewTo request status →
      (isNewTo request status = true → s.site.req_id = [] ∨ ∀ e ∈ s.log, e.id ≠ s.site.req_id) →
      isNewTo request status = true → site.req_id = [] ∨ ∀ e ∈ s.log, e.id ≠ site.req_id := by
    intro request status heq hold hnew
    rcases hwritten with hsame | hempty | hfresh | ⟨-, htakes⟩
    · rw [hsame]
      exact hold hnew
    · exact .inl hempty
    · exact .inr hfresh
    · rw [heq, hnew] at htakes
      cases htakes
  constructor
  · exact h.log.mono hconfirmed
  · exact fun e he => hids _ (h.log_ids e he)
  · exact hne
  · exact h.trials
  · exact h.tells
  · exact htrials
  · exact h.accepting
  · exact hsite
  · show s.Settled site.req_id
    rcases hwritten with hsame | hempty | hfresh | ⟨hlast, -⟩
    · rw [hsame]
      exact h.settled
    · exact .inl hempty
    · exact .inr (.inl hfresh)
    · exact .inr (.inr hlast)
  · exact fun p hp => hsound p (h.asking p hp)
  · exact hundos
  · exact fun u hu => by cases hu
  · exact agrees_mono (s := s) rfl rfl rfl hconfirmed h.agrees
  · have hholds : ∀ helper, s.helper = helper → s.Holds helper →
        { s with site, ids, accepted, undos, update := none }.Holds helper := by
      intro helper hhelper hold
      cases helper with
      | asked request =>
        have heq : s.takesUp = isNewTo request s.read_status := by simp only [takesUp, hhelper]
        exact ⟨hsound _ hold.1, hold.2.1, htakes heq hold.2.2⟩
      | judging request status =>
        have heq : s.takesUp = isNewTo request status := by simp only [takesUp, hhelper]
        exact ⟨hsound _ hold.1, hold.2.1, htakes heq hold.2.2⟩
      | writing close new read => exact ⟨hsound _ hold.1, hold.2⟩
      | _ => trivial
    exact hholds s.helper rfl h.holds
  · exact h.listed

/-- What is in the file when an update is through. -/
theorem written_safe {read : Site} {change : Change} (h : Inv s)
    (hupdate : s.update = some (read, change)) (hallowed : s.allowed .write = true) :
    (if change.set read = read then s.site else change.set read).req_id = s.site.req_id ∨
      s.safe (if change.set read = read then s.site else change.set read).req_id = true := by
  split
  · exact .inl rfl
  · rename_i hnew
    refine .inr ?_
    cases change with
    | request previous port id now =>
      obtain ⟨-, -, -, hfresh⟩ := h.update _ hupdate
      have hlog : s.handled id = false :=
        not_handled_iff.mpr fun e he heq => hfresh (heq ▸ h.log_ids e he)
      show s.safe id = true
      rw [safe, hlog]
      simp
    | undo previous =>
      rw [allowed, hupdate, Bool.or_eq_true, beq_iff_eq] at hallowed
      exact hallowed.resolve_left hnew
    | confirm a =>
      rw [allowed, hupdate, Bool.or_eq_true, beq_iff_eq] at hallowed
      exact hallowed.resolve_left hnew

theorem write {read : Site} {change : Change} (h : Inv s)
    (hupdate : s.update = some (read, change)) (hallowed : s.allowed .write = true) :
    Inv { ((s.rewrite read (change.set read)).changed change) with update := none } := by
  have hsafe := h.written_safe hupdate hallowed
  have hupdates := h.update _ hupdate
  have hsite : ∀ p : Previous → Prop, p s.site.previous → p (change.set read).previous →
      p (if change.set read = read then s.site else change.set read).previous := by
    intro p hold hnew
    split
    · exact hold
    · exact hnew
  cases change with
  | request previous port id now =>
    obtain ⟨hread, hprevious, hne, -⟩ := hupdates
    have hsound : ∀ p, s.Sound p → { s with ids := id :: s.ids }.Sound p := fun p hp =>
      Sound.mono hp (fun _ => List.mem_cons_of_mem id) fun _ ha => ha
    refine h.rewrite (fun _ => List.mem_cons_of_mem id) ?_ (fun _ ha => ha) h.accepted ?_ hsafe ?_
    · show [] ∉ id :: s.ids
      rw [List.mem_cons, not_or]
      exact ⟨hne.symm, h.ids⟩
    · refine hsite _ (hsound _ h.site) ⟨fun id' hid => ?_, fun id' hid => by cases hid⟩
      cases hid
      exact List.mem_cons_self
    · intro p hp
      rcases List.mem_cons.mp hp with rfl | hp
      · exact hsound _ hprevious
      · exact hsound _ (h.undos p hp)
  | undo previous =>
    exact h.rewrite (fun _ hid => hid) h.ids (fun _ ha => ha) h.accepted
      (hsite _ h.site hupdates.2) hsafe h.undos
  | confirm a =>
    obtain ⟨hread, htrial, htime⟩ := hupdates
    have hsound : ∀ p, s.Sound p → { s with accepted := a :: s.accepted }.Sound p := fun p hp =>
      Sound.mono hp (fun _ hid => hid) fun _ => List.mem_cons_of_mem a
    refine h.rewrite (fun _ hid => hid) h.ids (fun _ => List.mem_cons_of_mem a) ?_ ?_ hsafe
      fun p hp => hsound p (h.undos p hp)
    · intro b hb
      rcases List.mem_cons.mp hb with rfl | hb
      · exact ⟨htrial, htime⟩
      · exact h.accepted b hb
    · refine hsite _ (hsound _ h.site) ⟨(hsound _ hread).1, fun id hid => ?_⟩
      cases hid
      exact ⟨a, List.mem_cons_self, rfl⟩

/-! ## The helper's steps -/

/-- A pass goes on, and nothing is written. -/
theorem move (h : Inv s) (hlast : { s with helper }.last = s.last)
    (hagrees : s.Agrees helper) (hholds : s.Holds helper)
    (hunlisted : helper.unlisted = false) :
    Inv { s with helper } := by
  have hsettled : ∀ id, s.Settled id → { s with helper }.Settled id := fun id hid =>
    Settled.of_last hid rfl hlast
  refine { h with settled := hsettled _ h.settled, agrees := ?_, holds := ?_, listed := ?_ }
  · exact hagrees
  · cases helper with
    | asked request | judging request _ => exact ⟨hholds.1, hsettled _ hholds.2.1, hholds.2.2⟩
    | writing _ _ site => exact ⟨hholds.1, hsettled _ hholds.2⟩
    | _ => trivial
  · exact fun hlisted => ⟨(h.listed hlisted).1, hunlisted⟩

theorem between_of_not_trying (htrying : s.read_status.isTrying = false)
    (hopen : open? s.log = none) : s.Between := by
  rw [Between, if_neg (by rw [htrying]; exact Bool.false_ne_true)]
  exact hopen

theorem open?_of_between (h : s.Between) (htrying : s.read_status.isTrying = false) :
    open? s.log = none := by
  rwa [Between, if_neg (by rw [htrying]; exact Bool.false_ne_true)] at h

/-- A request's id is taken up: what had happened had not happened to it. -/
theorem takeUp {request : Site} {e : Event} (h : Inv s)
    (hhelper : s.helper = .judging request s.read_status)
    (hnew : isNewTo request s.read_status = true) (hid : e.id = request.req_id)
    (hlog : open? s.log = none → (∀ e' ∈ s.log, e'.id ≠ e.id) → WellFormed s.Confirmed (e :: s.log))
    (hagrees : open? s.log = none → { s with helper, log := e :: s.log }.Agrees helper)
    (hholds : { s with helper, log := e :: s.log }.Holds helper)
    (hlast : { s with helper, log := e :: s.log }.last = e.id) :
    Inv { s with helper, log := e :: s.log } := by
  have hold := h.holds
  have hagree := h.agrees
  rw [hhelper] at hold hagree
  obtain ⟨hsound, hsettled, htakes⟩ := hold
  simp only [isNewTo, Bool.and_eq_true, Bool.not_eq_true', bne_iff_ne, ne_eq,
    List.isEmpty_eq_false_iff] at hnew
  obtain ⟨⟨htrying, hne⟩, hstatus⟩ := hnew
  have hopen : open? s.log = none := open?_of_between hagree.1 htrying
  have hfresh : ∀ e' ∈ s.log, e'.id ≠ e.id := by
    rw [hid]
    rcases hsettled with hempty | hfresh | hlast
    · exact (hne hempty).elim
    · exact hfresh
    · simp only [last, hhelper] at hlast
      exact (hstatus hlast.symm).elim
  have hids : e.id ∈ s.ids := by
    cases hrequest : request.request_id with
    | none => exact (hne (by rw [Site.req_id, hrequest]; rfl)).elim
    | some id =>
      rw [hid, Site.req_id, hrequest]
      exact hsound.1 id hrequest
  refine { h with log := hlog hopen hfresh, log_ids := ?_, trials := ?_, settled := ?_,
                  agrees := hagrees hopen, holds := hholds, listed := ?_ }
  · intro e' he'
    rcases List.mem_cons.mp he' with rfl | he'
    · exact hids
    · exact h.log_ids e' he'
  · exact fun t ht => ⟨(h.trials t ht).1, (h.trials t ht).2.imp fun _ => List.mem_cons_of_mem e⟩
  · have hsite := htakes (by simp [isNewTo, htrying, hne, hstatus])
    rcases hsite with hempty | hsite
    · exact .inl hempty
    · by_cases heq : s.site.req_id = e.id
      · exact .inr (.inr (heq.trans hlast.symm))
      · refine .inr (.inl fun e' he' => ?_)
        rcases List.mem_cons.mp he' with rfl | he'
        · exact Ne.symm heq
        · exact hsite e' he'
  · intro hlisted
    have hsome := (h.listed hlisted).1
    rw [hopen] at hsome
    cases hsome

/-- A trial that is kept was confirmed. -/
theorem confirmed_of_trying {port : Nat} (h : Inv s) {p : Previous} (hsound : s.Sound p)
    (hopen : open? s.log = some (id, port, s.https_port)) (hconfirmed : p.confirmed = some id) :
    s.Confirmed id port := by
  obtain ⟨a, ha, rfl⟩ := hsound.2 id hconfirmed
  obtain ⟨htrial, htime⟩ := h.accepted a ha
  obtain ⟨current, htried⟩ := (h.trials _ htrial).2
  obtain ⟨older, hlog⟩ := exists_cons_of_open? hopen
  refine ⟨a, ha, rfl, ?_, htrial, htime⟩
  exact h.log.port_unique htried (by rw [hlog]; exact List.mem_cons_self)

variable [Decimals] {i : Input}

/-- What is decided is done. -/
theorem follow {request : Site} {status : ApplyStatus} (h : Inv s)
    (hhelper : s.helper = .judging request status) :
    Inv (s.follow (next_step request status s.https_port i.busy i.now)) := by
  have hagrees := h.agrees
  have hholds := h.holds
  rw [hhelper] at hagrees hholds
  obtain ⟨hbetween, rfl⟩ := hagrees
  obtain ⟨hsound, -, -⟩ := hholds
  have hlast : s.last = s.read_status.id := by simp only [last, hhelper]
  cases htrying : s.read_status.isTrying with
  | true =>
    have hopen := hbetween
    rw [Between, if_pos htrying] at hopen
    obtain ⟨port, htrial, hopen⟩ := hopen
    rcases next_step_of_trying htrying with ⟨message, heq⟩ | ⟨heq, hconfirmed⟩ | heq
    · rw [heq]
      exact h.move hlast.symm ⟨port, hopen, fun hkeep => by cases hkeep⟩ trivial rfl
    · rw [heq]
      exact h.move hlast.symm
        ⟨port, hopen, fun _ => ⟨htrial, h.confirmed_of_trying hsound hopen hconfirmed⟩⟩ trivial rfl
    · rw [heq]
      exact h.move hlast.symm ⟨hbetween, htrying, rfl⟩ trivial rfl
  | false =>
    rcases next_step_of_not_trying htrying with
      heq | ⟨hnew, ⟨message, recorded, heq, hid, hnot⟩ | ⟨port, heq⟩⟩
    · rw [heq]
      exact h.move hlast.symm hbetween trivial rfl
    · rw [heq]
      exact h.takeUp hhelper hnew hid (fun hopen hfresh => ⟨hopen, hfresh, h.log⟩)
        (fun hopen => ⟨rfl, htrying, hnot⟩) trivial rfl
    · rw [heq]
      exact h.takeUp (e := .tried request.req_id port s.https_port) hhelper hnew rfl
        (fun hopen hfresh => ⟨hopen, hfresh, h.log⟩) (fun _ => ⟨rfl, htrying⟩) trivial rfl

omit [Decimals] in
/-- What can't be opened is closed again. -/
theorem fail {why : Str} (h : Inv s) (hlast : s.last = id)
    (hopen : open? s.log = some (id, port, s.https_port)) :
    Inv { s with helper := .closing { outcome := .failed, id, message := .said port why } } :=
  h.move hlast.symm ⟨port, hopen, fun hkeep => by cases hkeep⟩ trivial rfl

omit [Decimals] in
/-- The status of a request that isn't tried. -/
theorem record {status : ApplyStatus} (h : Inv s) (hhelper : s.helper = .recording status) :
    Inv { s with status := some status, helper := .idle } := by
  have hagrees := h.agrees
  rw [hhelper] at hagrees
  obtain ⟨hopen, -, hnot⟩ := hagrees
  have hlast : s.last = status.id := by simp only [last, hhelper]
  refine { h with tells := ?_, settled := ?_, agrees := ?_, holds := trivial, listed := ?_ }
  · intro htrying
    have htrue : status.isTrying = true := htrying
    rw [hnot] at htrue
    cases htrue
  · exact Settled.of_last h.settled rfl hlast.symm
  · exact between_of_not_trying hnot hopen
  · exact fun hlisted => ⟨(h.listed hlisted).1, rfl⟩

omit [Decimals] in
/-- The trial's clock starts. -/
theorem start {now : Nat} (h : Inv s) (hhelper : s.helper = .starting port id) :
    Inv { s with
      status := some
        { id, state := some .trying, port := some s.https_port, trying := some port
          deadline := some (now + TRIAL_SECONDS) }
      trials := ⟨id, port, now + TRIAL_SECONDS⟩ :: s.trials
      helper := .idle } := by
  have hagrees := h.agrees
  rw [hhelper] at hagrees
  obtain ⟨hopen, -⟩ := hagrees
  have hlast : s.last = id := by simp only [last, hhelper]
  have hmem : ∀ t ∈ s.trials, t ∈ ⟨id, port, now + TRIAL_SECONDS⟩ :: s.trials := fun t =>
    List.mem_cons_of_mem _
  refine { h with log := ?_, trials := ?_, tells := ?_, accepted := ?_, accepting := ?_
                  settled := ?_, update := ?_, agrees := ?_, holds := trivial, listed := ?_ }
  · exact h.log.mono fun id port hc => Confirmed.mono (s := s) hc (fun _ ha => ha) hmem
  · intro t ht
    rcases List.mem_cons.mp ht with rfl | ht
    · obtain ⟨older, hlog⟩ := exists_cons_of_open? hopen
      exact ⟨Nat.add_one_ne_zero _, s.https_port, by rw [hlog]; exact List.mem_cons_self⟩
    · exact h.trials t ht
  · exact fun _ => ⟨port, _, rfl, rfl, List.mem_cons_self⟩
  · exact fun a ha => ⟨hmem _ (h.accepted a ha).1, (h.accepted a ha).2⟩
  · exact fun a ha => ⟨hmem _ (h.accepting a ha).1, (h.accepting a ha).2⟩
  · exact Settled.of_last h.settled rfl hlast.symm
  · intro u hu
    have hold := h.update u hu
    obtain ⟨read, change⟩ := u
    cases change with
    | request previous port id now => exact hold
    | undo previous => exact hold
    | confirm a => exact ⟨hold.1, hmem _ hold.2.1, hold.2.2⟩
  · exact ⟨port, rfl, hopen⟩
  · exact fun hlisted => ⟨(h.listed hlisted).1, rfl⟩

omit [Decimals] in
/-- The port of a confirmed trial is in use from here on. -/
theorem keep {close : Close} {new : Nat} (h : Inv s) (hhelper : s.helper = .keeping close new) :
    Inv { s with https_port := new, helper := .reading close new } := by
  have hagrees := h.agrees
  rw [hhelper] at hagrees
  obtain ⟨hopen, hkeep, hconfirmed⟩ := hagrees
  have hlast : s.last = close.id := by simp only [last, hhelper]
  refine { h with settled := ?_, agrees := ?_, holds := trivial, listed := ?_ }
  · exact Settled.of_last h.settled rfl hlast.symm
  · exact ⟨⟨_, hopen⟩, rfl, hkeep, hconfirmed⟩
  · exact fun hlisted => ⟨(h.listed hlisted).1, rfl⟩

omit [Decimals] in
/-- The helper puts back the request it read. -/
theorem writeInUse {close : Close} {new : Nat} {read : Site} {in_use : Option Str} (h : Inv s)
    (hhelper : s.helper = .writing close new read) :
    Inv { s.rewrite read { read with in_use } with helper := .unlisting close } := by
  have hagrees := h.agrees
  have hholds := h.holds
  rw [hhelper] at hagrees hholds
  obtain ⟨⟨current, hopen⟩, hport, hkeep, hconfirmed⟩ := hagrees
  have hlast : s.last = close.id := by simp only [last, hhelper]
  have hsite : ∀ p : Site → Prop, p s.site → p { read with in_use } →
      p (if ({ read with in_use } : Site) = read then s.site else { read with in_use }) := by
    intro p hold hnew
    split
    · exact hold
    · exact hnew
  refine { h with site := ?_, settled := ?_, agrees := ?_, holds := trivial, listed := ?_ }
  · exact hsite (fun site => s.Sound site.previous) h.site hholds.1
  · exact Settled.of_last (hsite (fun site => s.Settled site.req_id) h.settled hholds.2) rfl
      hlast.symm
  · exact ⟨new, current, hopen, .inr ⟨hport, hkeep, hconfirmed⟩⟩
  · exact fun hlisted => ⟨(h.listed hlisted).1, rfl⟩

omit [Decimals] in
/-- The end of a trial. -/
theorem finish {close : Close} (h : Inv s) (hhelper : s.helper = .ending close) :
    Inv { s with
      status := some
        { id := close.id, state := some close.outcome.state, port := some s.https_port
          message := close.message }
      log := .closed close.id close.outcome.state s.https_port :: s.log
      helper := .idle } := by
  have hagrees := h.agrees
  rw [hhelper] at hagrees
  obtain ⟨port, current, hopen, hends⟩ := hagrees
  have hlast : s.last = close.id := by simp only [last, hhelper]
  have hnot : some close.outcome.state ≠ some ApplyState.trying := by
    cases close.outcome <;> simp [Outcome.state]
  obtain ⟨older, hlog⟩ := exists_cons_of_open? hopen
  have htried : .tried close.id port current ∈ s.log := by
    rw [hlog]
    exact List.mem_cons_self
  refine { h with log := ?_, log_ids := ?_, trials := ?_, tells := ?_, settled := ?_
                  agrees := ?_, holds := trivial, listed := ?_ }
  · refine ⟨⟨port, current, hopen, hends.imp_right fun ⟨heq, hkeep, hconfirmed⟩ =>
      ⟨heq, by rw [hkeep]; rfl, hconfirmed⟩⟩, h.log⟩
  · intro e he
    rcases List.mem_cons.mp he with rfl | he
    · have hids : close.id ∈ s.ids := h.log_ids _ htried
      exact hids
    · exact h.log_ids e he
  · exact fun t ht => ⟨(h.trials t ht).1, (h.trials t ht).2.imp fun _ => List.mem_cons_of_mem _⟩
  · exact fun htrying => (hnot (beq_iff_eq.mp htrying)).elim
  · rcases h.settled with hempty | hfresh | heq
    · exact .inl hempty
    · refine .inr (.inl fun e he => ?_)
      rcases List.mem_cons.mp he with rfl | he
      · have hne : close.id ≠ s.site.req_id := hfresh _ htried
        exact hne
      · exact hfresh e he
    · exact .inr (.inr (heq.trans hlast))
  · exact between_of_not_trying (beq_eq_false_iff_ne.mpr hnot) rfl
  · intro hlisted
    have hunlisted := (h.listed hlisted).2
    rw [hhelper] at hunlisted
    cases hunlisted

omit [Decimals] in
/-- The status read, the trial is kept or goes back. -/
theorem close {close : Close} (h : Inv s) (hhelper : s.helper = .closing close) :
    Inv (s.closeAs close) := by
  have hagrees := h.agrees
  rw [hhelper] at hagrees
  obtain ⟨port, hopen, hkeep⟩ := hagrees
  have hlast : s.last = close.id := by simp only [last, hhelper]
  rw [closeAs]
  obtain ⟨told, htold, hid, houtcome⟩ : ∃ told, told = (if close.timed_out then
      { close with message := .timedOut s.read_status.trying } else close) ∧ told.id = close.id ∧
        told.outcome = close.outcome := by
    split
    · exact ⟨_, rfl, rfl, rfl⟩
    · exact ⟨_, rfl, rfl, rfl⟩
  rw [← htold]
  have hback : Inv { s with helper := .unlisting told } :=
    h.move (hid.trans hlast.symm) ⟨port, s.https_port, by rw [hid]; exact hopen, .inl rfl⟩ trivial rfl
  split
  · rename_i new houtcome' htrying
    split
    · exact hback
    · obtain ⟨hport, hconfirmed⟩ := hkeep (houtcome.symm.trans houtcome')
      rw [htrying, Option.some.injEq] at hport
      subst hport
      exact h.move (hid.trans hlast.symm) ⟨by rw [hid]; exact hopen, houtcome', by rwa [hid]⟩
        trivial rfl
  · exact hback

/-- The helper's steps keep the invariant. -/
theorem helperStep (h : Inv s) : Inv (s.helperStep i) := by
  have hagrees := h.agrees
  have hholds := h.holds
  have hlisted := h.listed
  cases hhelper : s.helper with
  | idle =>
    rw [hhelper] at hagrees
    simp only [State.helperStep, hhelper]
    exact h.move (by simp only [last, hhelper, read_status]) hagrees trivial rfl
  | deciding =>
    rw [hhelper] at hagrees
    simp only [State.helperStep, hhelper]
    have hlast : s.last = s.read_status.id := by simp only [last, hhelper]
    refine h.move hlast.symm hagrees ⟨h.site, h.settled, fun hnew => ?_⟩ rfl
    simp only [isNewTo, Bool.and_eq_true, bne_iff_ne] at hnew
    rcases h.settled with hempty | hfresh | heq
    · exact .inl hempty
    · exact .inr hfresh
    · exact (hnew.2 (hlast.symm.trans heq.symm)).elim
  | asked request =>
    rw [hhelper] at hagrees hholds
    simp only [State.helperStep, hhelper]
    exact h.move (by simp only [last, hhelper, read_status]) ⟨hagrees, rfl⟩ hholds rfl
  | judging request status =>
    simp only [State.helperStep, hhelper]
    exact h.follow hhelper
  | recording status =>
    simp only [State.helperStep, hhelper]
    exact h.record hhelper
  | opening port id =>
    rw [hhelper] at hagrees
    have hlast : s.last = id := by simp only [last, hhelper]
    simp only [State.helperStep, hhelper]
    split
    · have hfile : Inv { s with trial_file := some port } := { h with log := h.log }
      exact hfile.move hlast.symm hagrees trivial rfl
    · exact h.fail hlast hagrees.1
  | listing port id =>
    rw [hhelper] at hagrees
    have hlast : s.last = id := by simp only [last, hhelper]
    simp only [State.helperStep, hhelper]
    split
    · have hfile : Inv { s with listed := true } :=
        { h with listed := fun _ => ⟨by rw [hagrees.1]; rfl, by rw [hhelper]; rfl⟩ }
      exact hfile.move hlast.symm hagrees trivial rfl
    · exact h.fail hlast hagrees.1
  | recreating port id =>
    rw [hhelper] at hagrees
    have hlast : s.last = id := by simp only [last, hhelper]
    simp only [State.helperStep, hhelper]
    split
    · exact h.move hlast.symm hagrees trivial rfl
    · exact h.fail hlast hagrees.1
  | starting port id =>
    rw [hhelper] at hagrees
    have hlast : s.last = id := by simp only [last, hhelper]
    simp only [State.helperStep, hhelper]
    split
    · exact h.start hhelper
    · exact h.fail hlast hagrees.1
  | waiting id =>
    rw [hhelper] at hagrees
    simp only [State.helperStep, hhelper]
    split
    · exact h.move (by simp only [last, hhelper, read_status]) hagrees.1 trivial rfl
    · exact h
  | closing close =>
    simp only [State.helperStep, hhelper]
    exact h.close hhelper
  | keeping close new =>
    simp only [State.helperStep, hhelper]
    exact h.keep hhelper
  | reading close new =>
    rw [hhelper] at hagrees
    simp only [State.helperStep, hhelper]
    exact h.move (by simp only [last, hhelper]) hagrees ⟨h.site, h.settled⟩ rfl
  | writing close new read =>
    simp only [State.helperStep, hhelper]
    exact h.writeInUse hhelper
  | unlisting close =>
    rw [hhelper] at hagrees
    have hlast : s.last = close.id := by simp only [last, hhelper]
    simp only [State.helperStep, hhelper]
    have hunlisted : Inv { s with listed := false } := { h with listed := fun hl => by cases hl }
    refine { hunlisted with settled := ?_, agrees := hagrees, holds := trivial, listed := ?_ }
    · exact Settled.of_last h.settled rfl hlast.symm
    · exact fun hl => by cases hl
  | unlinking close =>
    rw [hhelper] at hagrees
    have hlast : s.last = close.id := by simp only [last, hhelper]
    simp only [State.helperStep, hhelper]
    refine { h with settled := ?_, agrees := hagrees, holds := trivial, listed := ?_ }
    · exact Settled.of_last h.settled rfl hlast.symm
    · intro hl
      have hnot := (hlisted hl).2
      rw [hhelper] at hnot
      cases hnot
  | ending close =>
    simp only [State.helperStep, hhelper]
    exact h.finish hhelper

end Inv

/-- Nothing was asked for yet. -/
theorem inv_init {status : Option ApplyStatus}
    (hstatus : (status.getD {}).isTrying = false) : Inv { status, https_port := port } where
  log := trivial
  log_ids := fun e he => by cases he
  ids := List.not_mem_nil
  trials := fun t ht => by cases ht
  tells := fun htrying => by
    have htrue : (status.getD {}).isTrying = true := htrying
    rw [hstatus] at htrue
    cases htrue
  accepted := fun a ha => by cases ha
  accepting := fun a ha => by cases ha
  site := ⟨fun id hid => (by cases hid), fun id hid => (by cases hid)⟩
  settled := .inl rfl
  asking := fun p hp => by cases hp
  undos := fun p hp => by cases hp
  update := fun u hu => by cases hu
  agrees := Inv.between_of_not_trying hstatus rfl
  holds := trivial
  listed := fun hlisted => by cases hlisted

variable [Decimals]

theorem inv_of_reachable (h : protocol.Reachable allowed s) : Inv s := by
  refine h.invariant ?_ fun s a s' _ hallowed hinv hstep => ?_
  · rintro s ⟨port, rfl | rfl⟩
    · exact inv_init rfl
    · exact inv_init rfl
  · cases a with
    | readPrevious =>
      cases hstep
      exact hinv.readPrevious
    | request previous port id now =>
      refine hinv.take (fun henabled => ?_) hstep
      simp only [Bool.and_eq_true, decide_eq_true_eq, Bool.not_eq_true', List.isEmpty_eq_false_iff,
        List.contains_eq_mem, decide_eq_false_iff_not] at henabled
      exact ⟨hinv.site, hinv.asking previous henabled.1.1, henabled.2.1, henabled.2.2⟩
    | undo previous =>
      refine hinv.take (fun henabled => ?_) hstep
      exact ⟨hinv.site, hinv.undos previous (of_decide_eq_true henabled)⟩
    | confirm a =>
      refine hinv.take (fun henabled => ?_) hstep
      exact ⟨hinv.site, hinv.accepting a (of_decide_eq_true henabled)⟩
    | write =>
      obtain ⟨⟨read, change⟩, hupdate, rfl⟩ := Option.map_eq_some_iff.mp hstep
      exact hinv.write hupdate hallowed
    | check apply_id reached_port now =>
      obtain ⟨trial, hcheck, rfl⟩ := Option.map_eq_some_iff.mp hstep
      refine { hinv with accepting := fun a ha => ?_ }
      rcases List.mem_cons.mp ha with rfl | ha
      · exact hinv.check hcheck
      · exact hinv.accepting a ha
    | helper input =>
      cases hstep
      exact hinv.helperStep
    | timeUp =>
      have hagrees := hinv.agrees
      cases hhelper : s.helper <;> simp only [protocol, step, hhelper, reduceCtorEq,
        Option.some.injEq] at hstep
      rename_i id
      subst hstep
      rw [hhelper] at hagrees
      obtain ⟨hbetween, htrying, rfl⟩ := hagrees
      rw [Between, if_pos htrying] at hbetween
      obtain ⟨port, -, hopen⟩ := hbetween
      exact hinv.move (by simp only [last, hhelper]) ⟨port, hopen, fun hkeep => by cases hkeep⟩
        trivial rfl
    | leave =>
      have hagrees := hinv.agrees
      cases hhelper : s.helper <;> simp only [protocol, step, hhelper, reduceCtorEq,
        Option.some.injEq] at hstep
      subst hstep
      rw [hhelper] at hagrees
      exact hinv.move (by simp only [last, hhelper, read_status]) hagrees.1 trivial rfl

/-! ## The contract -/

/-- The helper's steps of a pass, by one clock. -/
def passes (i : Input) (n : Nat) : List Action := List.replicate n (.helper i)

structure Contract (s : State) : Prop where
  /-- Each id is tried once at most, and never after anything else happened to it. -/
  tried_once : (triedIds s.log).Nodup
  tried_first : ∀ newer older id port current, s.log = newer ++ .tried id port current :: older →
    ∀ e ∈ older, e.id ≠ id
  /-- One recorded without a trial neither. -/
  refused_first : ∀ newer older id, s.log = newer ++ .refused id :: older →
    ∀ e ∈ older, e.id ≠ id
  /-- At most one trial is open; `.env` lists no other's file. -/
  one_trial : (openTrials s.log).length ≤ 1
  listed : s.listed = true → openTrials s.log ≠ []
  /-- HTTPS_PORT becomes what the open trial's is, by a `close("keep")`, after a confirmation. -/
  kept : ∀ a s', s.step a = some s' → s'.https_port ≠ s.https_port → ∃ close,
    s.helper = .keeping close s'.https_port ∧ close.outcome = .keep ∧
      openTrials s.log = [close.id] ∧ s.Confirmed close.id s'.https_port
  /-- A trial that was not confirmed before its deadline ends with the previous port. -/
  ended : ∀ newer older id state port, s.log = newer ++ .closed id state port :: older →
    ∃ wanted current, open? older = some (id, wanted, current) ∧
      (port = current ∨ port = wanted ∧ state = .applied ∧ s.Confirmed id wanted)
  /-- A pass after the deadline ends it. -/
  ends : ∀ i, s.helper = .idle → s.read_status.isTrying = true →
    s.site.confirmed ≠ some s.read_status.id → s.read_status.deadline.getD 0 < i.now →
      ∃ s', protocol.exec System.always s (passes i 8) = some s' ∧ s'.https_port = s.https_port ∧
        s'.log = .closed s.read_status.id .rolled_back s.https_port :: s.log
  /-- So does the script's own stopwatch. -/
  timed_out : ∀ i id, s.helper = .waiting id →
    ∃ s', protocol.exec System.always s (.timeUp :: passes i 4) = some s' ∧
      s'.https_port = s.https_port ∧ s'.log = .closed id .rolled_back s.https_port :: s.log

theorem exec_passes_succ {i : Input} {n : Nat} :
    protocol.exec System.always s (passes i (n + 1)) =
      protocol.exec System.always (s.helperStep i) (passes i n) := rfl

omit [Decimals] in
theorem closeAs_of_rollback {close : Close} (hback : close.outcome = .rollback) :
    ∃ told : Close, s.closeAs close = { s with helper := .unlisting told } ∧
      told.id = close.id ∧ told.outcome = .rollback := by
  obtain ⟨outcome, id, message, timed_out⟩ := close
  cases hback
  cases timed_out with
  | true => exact ⟨_, rfl, rfl, rfl⟩
  | false => exact ⟨_, rfl, rfl, rfl⟩

/-- A trial that goes back is ended with the port in use. -/
theorem exec_closing {close : Close} {i : Input} (hhelper : s.helper = .closing close)
    (hback : close.outcome = .rollback) :
    ∃ s', protocol.exec System.always s (passes i 4) = some s' ∧ s'.https_port = s.https_port ∧
      s'.log = .closed close.id .rolled_back s.https_port :: s.log := by
  obtain ⟨told, htold, hid, houtcome⟩ := closeAs_of_rollback (s := s) hback
  have hstep : s.helperStep i = { s with helper := .unlisting told } := by
    simp only [helperStep, hhelper, htold]
  refine ⟨((({ s with helper := .unlisting told }.helperStep i).helperStep i).helperStep i), ?_,
    rfl, ?_⟩
  · rw [exec_passes_succ, hstep]
    rfl
  · rw [← hid, ← show told.outcome.state = .rolled_back by rw [houtcome]; rfl]
    rfl

omit [Decimals] in
theorem follow_https_port {x : Step × Option ApplyStatus} :
    (s.follow x).https_port = s.https_port := by
  rw [follow.eq_def]
  split <;> rfl

omit [Decimals] in
theorem closeAs_https_port {close : Close} : (s.closeAs close).https_port = s.https_port := by
  simp only [closeAs]
  split
  · split <;> rfl
  · rfl

/-- Only `close("keep")` changes the port in use. -/
theorem helper_of_https_port_ne {i : Input} (h : (s.helperStep i).https_port ≠ s.https_port) :
    ∃ close, s.helper = .keeping close (s.helperStep i).https_port := by
  cases hhelper : s.helper with
  | keeping close new =>
    refine ⟨close, ?_⟩
    simp only [helperStep, hhelper]
  | judging request status =>
    simp only [helperStep, hhelper, follow_https_port] at h
    exact (h rfl).elim
  | closing close =>
    simp only [helperStep, hhelper, closeAs_https_port] at h
    exact (h rfl).elim
  | opening port id | listing port id | recreating port id | starting port id =>
    simp only [helperStep, hhelper] at h
    split at h
    · exact (h rfl).elim
    · exact (h rfl).elim
  | waiting id =>
    simp only [helperStep, hhelper] at h
    split at h
    · exact (h rfl).elim
    · exact (h rfl).elim
  | idle | deciding | asked request | recording status | reading close new | writing close new read
  | unlisting close | unlinking close | ending close =>
    simp only [helperStep, hhelper, rewrite] at h
    exact (h rfl).elim

/-- The port in use is what it was, but for a step of the helper. -/
theorem https_port_of_step {a : Action} {s' : State} (hstep : s.step a = some s') :
    s'.https_port = s.https_port ∨ ∃ i, a = .helper i := by
  have htake : ∀ {enabled : Bool} {change : Change}, s.take enabled change = some s' →
      s'.https_port = s.https_port := by
    intro enabled change htake
    rw [take, Option.ite_none_right_eq_some, Option.some.injEq] at htake
    rw [← htake.2]
  cases a with
  | helper i => exact .inr ⟨i, rfl⟩
  | readPrevious =>
    cases hstep
    exact .inl rfl
  | request previous port id now => exact .inl (htake hstep)
  | undo previous => exact .inl (htake hstep)
  | confirm a => exact .inl (htake hstep)
  | write =>
    obtain ⟨⟨read, change⟩, -, rfl⟩ := Option.map_eq_some_iff.mp hstep
    cases change <;> exact .inl rfl
  | check apply_id reached_port now =>
    obtain ⟨trial, -, rfl⟩ := Option.map_eq_some_iff.mp hstep
    exact .inl rfl
  | timeUp =>
    cases hhelper : s.helper <;> simp only [step, hhelper, reduceCtorEq, Option.some.injEq] at hstep
    subst hstep
    exact .inl rfl
  | leave =>
    cases hhelper : s.helper <;> simp only [step, hhelper, reduceCtorEq, Option.some.injEq] at hstep
    subst hstep
    exact .inl rfl

theorem contract_of_inv (h : Inv s) : Contract s := by
  have hopen := h.log.openTrials_eq
  constructor
  · exact h.log.nodup_triedIds
  · intro newer older id port current hlog
    have hwell := h.log
    rw [hlog] at hwell
    exact hwell.of_append.2.1
  · intro newer older id hlog
    have hwell := h.log
    rw [hlog] at hwell
    exact hwell.of_append.2.1
  · rw [hopen]
    cases open? s.log <;> simp
  · intro hlisted
    rw [hopen]
    cases hlog : open? s.log with
    | none => simpa [hlog] using (h.listed hlisted).1
    | some t => simp
  · intro a s' hstep hne
    rcases https_port_of_step hstep with hsame | ⟨i, rfl⟩
    · exact (hne hsame).elim
    · cases hstep
      obtain ⟨close, hkeeping⟩ := helper_of_https_port_ne hne
      have hagrees := h.agrees
      rw [hkeeping] at hagrees
      obtain ⟨htrial, hkeep, hconfirmed⟩ := hagrees
      refine ⟨close, hkeeping, hkeep, ?_, hconfirmed⟩
      rw [hopen, htrial]
      rfl
  · intro newer older id state port hlog
    have hwell := h.log
    rw [hlog] at hwell
    exact hwell.of_append.1
  · intro i hidle htrying hconfirmed hdeadline
    obtain ⟨message, hback⟩ : ∃ message, next_step s.site s.read_status s.https_port i.busy i.now =
        (.rollback s.read_status.id message, none) := by
      rw [next_step, if_pos htrying]
      split
      · exact ⟨_, rfl⟩
      · rename_i hid
        rw [ne_eq, not_not] at hid
        rw [if_neg (by rw [← hid]; exact hconfirmed), hid]
        exact ⟨_, rfl⟩
    have hdecided : protocol.exec System.always s (passes i 8) = protocol.exec System.always
        { s with helper := .closing ⟨.rollback, s.read_status.id, message, false⟩ } (passes i 4) := by
      rw [exec_passes_succ, exec_passes_succ, exec_passes_succ, exec_passes_succ]
      have hstep : (((s.helperStep i).helperStep i).helperStep i).helperStep i =
          s.follow (next_step s.site s.read_status s.https_port i.busy i.now) := by
        simp only [helperStep, hidle]
        rfl
      rw [hstep, hback]
      rfl
    rw [hdecided]
    exact exec_closing
      (s := { s with helper := .closing ⟨.rollback, s.read_status.id, message, false⟩ }) rfl rfl
  · intro i id hwaiting
    have hstep : protocol.exec System.always s (.timeUp :: passes i 4) = protocol.exec System.always
        { s with helper := .closing ⟨.rollback, id, .none, true⟩ } (passes i 4) := by
      show (s.step .timeUp).bind _ = _
      simp only [step, hwaiting, Option.bind_some]
    rw [hstep]
    exact exec_closing (s := { s with helper := .closing ⟨.rollback, id, .none, true⟩ }) rfl rfl

/-- **The port's contract**, in every run whose writes are safe. -/
theorem port_contract {s : State} (h : protocol.Reachable allowed s) : Contract s :=
  contract_of_inv (inv_of_reachable h)

end State

open State

/-- A port is asked for, tried, confirmed and kept; another is asked for, and asked back before the
helper looks. -/
theorem port_contract_kept : ∃ s, (@protocol Decimals.ascii).Reachable allowed s ∧
    @Contract Decimals.ascii s ∧ s.https_port = 8443 ∧ s.site.request_id = some ['a'] ∧
      s.ids = [['b'], ['a']] := by
  let := Decimals.ascii
  have hrun : (protocol.exec allowed { status := none, https_port := 443 } (List.flatten [
      [.readPrevious, .request ⟨none, none, none, none⟩ 8443 ['a'] 1, .write],
      passes { now := 2 } 8,
      [.check ['a'] 8443 60, .confirm ⟨⟨['a'], 8443, 122⟩, 60⟩, .write], passes { now := 61 } 12,
      [.readPrevious, .request ⟨some "8443".toList, some ['a'], some ['1'], some ['a']⟩ 9443 ['b'] 70,
        .write, .undo ⟨some "8443".toList, some ['a'], some ['1'], some ['a']⟩, .write]])).any
      (fun s => s.https_port = 8443 && (s.site.request_id = some ['a'] &&
        s.ids = [['b'], ['a']])) = true := by decide +kernel
  obtain ⟨s, hreach, hend⟩ := System.exists_reachable (by exact ⟨443, .inl rfl⟩) hrun
  rw [Bool.and_eq_true, Bool.and_eq_true, decide_eq_true_eq, decide_eq_true_eq,
    decide_eq_true_eq] at hend
  exact ⟨s, hreach, port_contract hreach, hend⟩

/-- **Not each id is tried once.**  A port went back; the request after it is undone while it is
tried, and the first is tried again. -/
theorem not_tried_once : ∃ s, (@protocol Decimals.ascii).Reachable System.always s ∧
    ¬(triedIds s.log).Nodup := by
  let := Decimals.ascii
  have hrun : (protocol.exec System.always { status := none, https_port := 443 } (List.flatten [
      [.readPrevious, .request ⟨none, none, none, none⟩ 8443 ['a'] 1, .write],
      passes { now := 2 } 12, .timeUp :: passes { now := 122 } 4,
      [.readPrevious, .request ⟨some "8443".toList, some ['a'], some ['1'], none⟩ 9443 ['b'] 200,
        .write], passes { now := 201 } 8,
      [.undo ⟨some "8443".toList, some ['a'], some ['1'], none⟩, .write],
      passes { now := 202 } 12])).any (fun s => !decide (triedIds s.log).Nodup) = true := by
    decide +kernel
  obtain ⟨s, hreach, hend⟩ := System.exists_reachable (by exact ⟨443, .inl rfl⟩) hrun
  rw [Bool.not_eq_true', decide_eq_false_iff_not] at hend
  exact ⟨s, hreach, hend⟩

end Port
end Access
end NetRollout

import Mathlib.Data.List.Basic
import Mathlib.Data.List.Range
import NetRollout.Library.ListUpdate
import NetRollout.Library.PyText
import NetRollout.Library.Transition

/-!
# The live log

`LiveLog` of `src/rollout/log.py`: a job's history list and its channel in Redis, any
number of threads that append to it, the `close()` at the job's end, and one reader.
An `append` is two steps, the `RPUSH` that numbers the line and the `PUBLISH` of
`"<n>\t<line>"`; `follow()` subscribes, reads the history, and then takes the messages
one by one, keeping the highest number it has yielded.

Redis never fails, and the reader receives every message published after its
subscription in the order they were published.  Beside what the code keeps, a state
records every line of the history and the lines whose `append` completed before the
DONE message, by their numbers.

A reader that keeps one high-water mark loses a line whose message comes after that of a
higher one (`not_delivered_overtaken`).  In the runs in which no line is published so
late, every line reaches the reader once (`delivered_of_inOrder`).
-/

namespace NetRollout
namespace Logs

open PyText

def DONE : Str := "__done__".toList

/-- `f"{length}\t{line}"`. -/
def published (number : Nat) (line : Str) : Str := Nat.toDigits 10 number ++ '\t' :: line

/-- `_numbered`. -/
def numbered (data : Str) : Option Nat × Str :=
  match data.dropWhile (· ≠ '\t') with
  | [] => (none, data)
  | _ :: line =>
    let head := data.takeWhile (· ≠ '\t')
    if head ≠ [] ∧ head.all Char.isDigit then (some (Nat.ofDigitChars 10 head 0), line)
    else (none, data)

/-! ## The messages -/

theorem ne_tab_of_mem_toDigits {n : Nat} {c : Char} (h : c ∈ Nat.toDigits 10 n) : c ≠ '\t' := by
  rintro rfl
  exact absurd (Nat.isDigit_of_mem_toDigits (by decide) (by decide) h) (by decide)

/-- **A message read** is the number and the line it was made of. -/
@[simp] theorem numbered_published (n : Nat) (line : Str) :
    numbered (published n line) = (some n, line) := by
  have hhead : ∀ c ∈ Nat.toDigits 10 n, decide (c ≠ '\t') = true := fun c hc =>
    decide_eq_true (ne_tab_of_mem_toDigits hc)
  have hdigits : (Nat.toDigits 10 n).all Char.isDigit = true := List.all_eq_true.mpr fun c hc =>
    Nat.isDigit_of_mem_toDigits (by decide) (by decide) hc
  unfold numbered published
  rw [List.dropWhile_append_of_pos hhead, List.takeWhile_append_of_pos hhead]
  simp only [List.dropWhile_cons, List.takeWhile_cons, ne_eq, not_true_eq_false, decide_false,
    Bool.false_eq_true, ↓reduceIte, List.append_nil, hdigits, and_true,
    Nat.ofDigitChars_ten_toDigits]
  exact if_pos Nat.toDigits_ne_nil

/-- No message of a line is DONE. -/
theorem published_ne_done (n : Nat) (line : Str) : published n line ≠ DONE := by
  intro h
  have htab : '\t' ∈ published n line := List.mem_append_right _ List.mem_cons_self
  rw [h] at htab
  exact absurd htab (by decide)

/-- A line put behind the messages that wait is not DONE. -/
theorem done_mem_of_published {q : List Str} {n : Nat} {line : Str}
    (h : DONE ∈ q ++ [published n line]) : DONE ∈ q := by
  refine (List.mem_append.mp h).resolve_right fun hlast => ?_
  exact published_ne_done n line (List.mem_singleton.mp hlast).symm

/-! ## The system -/

/-- Where `close()` stands. -/
inductive Closing where
  | running
  /-- DONE is published. -/
  | told
  /-- The keys are gone. -/
  | removed
  deriving DecidableEq

/-- Where the reader stands. -/
inductive Reader where
  | start
  | subscribed
  /-- In the loop: the history's length as read, and `seen`. -/
  | following (held seen : Nat)
  /-- It returned at the DONE message, or because the job was over. -/
  | returned
  | left
  deriving DecidableEq

structure LiveState (Thread : Type) where
  history : List Str := []
  /-- The appends between their `RPUSH` and their `PUBLISH`. -/
  appending : List (Thread × Nat × Str) := []
  closing : Closing := .running
  reader : Reader := .start
  /-- The messages the reader has not taken yet. -/
  inbox : Option (List Str) := none
  /-- The lines it has yielded. -/
  out : List Str := []
  /-- Every line pushed before the keys went, in history order. -/
  lines : List Str := []
  /-- The numbers of the lines whose `append` completed before DONE. -/
  completed : List Nat := []

inductive LiveAction (Thread : Type) where
  /-- `append`: the `RPUSH`, the `PUBLISH`. -/
  | push (thread : Thread) (line : Str)
  | publish (thread : Thread)
  /-- `close`: DONE, and the keys. -/
  | done
  | remove
  /-- `follow`: `subscribe`, `history`, a message, none for `wait` seconds. -/
  | subscribe
  | read
  | receive
  | idle (ended : Bool)

namespace LiveState

variable {Thread : Type} [DecidableEq Thread]

def push (s : LiveState Thread) (thread : Thread) (line : Str) : Option (LiveState Thread) :=
  if s.appending.any fun e => e.1 = thread then none
  else
    some { s with
      history := s.history ++ [line]
      appending := s.appending ++ [(thread, s.history.length + 1, line)]
      lines := if s.closing = .removed then s.lines else s.lines ++ [line] }

def publish (s : LiveState Thread) (thread : Thread) : Option (LiveState Thread) :=
  (s.appending.find? fun e => e.1 = thread).map fun e =>
    { s with
      appending := s.appending.filter fun e => e.1 ≠ thread
      inbox := s.inbox.map fun q => q ++ [published e.2.1 e.2.2]
      completed := if s.closing = .running then s.completed ++ [e.2.1] else s.completed }

/-- One round of `follow`'s loop, with a message. -/
def receive (s : LiveState Thread) : Option (LiveState Thread) :=
  match s.reader, s.inbox with
  | .following held seen, some (data :: rest) =>
    if data = DONE then some { s with reader := .returned, inbox := some rest }
    else
      match numbered data with
      | (some number, line) =>
        if number ≤ seen then some { s with inbox := some rest }
        else some { s with reader := .following held number
                           out := s.out ++ [line], inbox := some rest }
      | (none, line) => some { s with out := s.out ++ [line], inbox := some rest }
  | _, _ => none

def step (s : LiveState Thread) : LiveAction Thread → Option (LiveState Thread)
  | .push thread line => s.push thread line
  | .publish thread => s.publish thread
  | .done =>
    if s.closing = .running then
      some { s with closing := .told, inbox := s.inbox.map fun q => q ++ [DONE] }
    else none
  | .remove =>
    if s.closing = .told then some { s with closing := .removed, history := [] } else none
  | .subscribe =>
    if s.reader = .start then some { s with reader := .subscribed, inbox := some [] } else none
  | .read =>
    if s.reader = .subscribed then
      some { s with reader := .following s.history.length s.history.length
                    out := s.out ++ s.history }
    else none
  | .receive => s.receive
  | .idle ended =>
    match s.reader, s.inbox with
    | .following _ _, some [] => some (if ended then { s with reader := .left } else s)
    | _, _ => none

end LiveState

/-- A job's live log and its reader. -/
def liveLog (Thread : Type) [DecidableEq Thread] :
    System (LiveState Thread) (LiveAction Thread) where
  Init s := s = {}
  step := LiveState.step

variable {Thread : Type}

/-- **Delivered**: a reader that returned at DONE yielded lines of the history in its
order, each once, among them every line whose `append` completed before DONE. -/
def Delivered (s : LiveState Thread) : Prop :=
  s.reader = .returned → ∃ ns : List Nat, ns.Pairwise (· < ·) ∧ (∀ n ∈ ns, 0 < n) ∧
    ns.map (fun n => s.lines[n - 1]?) = s.out.map some ∧ ∀ n ∈ s.completed, n ∈ ns

/-- No line that the history the reader read does not hold is published, before DONE,
after one with a higher number; and a reader that DONE reaches has read the history before
it is removed. -/
def inOrder [DecidableEq Thread] (s : LiveState Thread) : LiveAction Thread → Bool
  | .publish thread =>
    match s.reader, s.appending.find? fun e => e.1 = thread with
    | .following held _, some e =>
      s.closing ≠ .running || e.2.1 ≤ held || s.completed.all fun m => m < e.2.1
    | _, _ => true
  | .read => s.closing ≠ .removed || !(s.inbox.getD []).contains DONE
  | _ => true

/-! ## What the reader knows -/

namespace LiveState

/-- The message's line has its number in the history. -/
def Holds (s : LiveState Thread) (m : Nat × Str) : Prop :=
  0 < m.1 ∧ s.lines[m.1 - 1]? = some m.2

/-- DONE has not been published, or waits in the inbox. -/
def Live (s : LiveState Thread) : Prop :=
  s.closing = .running ∨ ∃ q, s.inbox = some q ∧ DONE ∈ q

/-- The messages waiting before DONE. -/
structure Feed (s : LiveState Thread) (ms : List (Nat × Str)) : Prop where
  waiting : ∃ q, s.inbox = some q ∧
    q.takeWhile (· ≠ DONE) = ms.map fun m => published m.1 m.2
  known : ∀ m ∈ ms, s.Holds m ∧ m.1 ∈ s.completed

/-- The numbers of the lines yielded so far: those of the history as read, and after them
only higher ones. -/
structure Caught (s : LiveState Thread) (held seen : Nat) (ns : List Nat) : Prop where
  sorted : ns.Pairwise (· < ·)
  bounds : ∀ n ∈ ns, 0 < n ∧ n ≤ seen
  yielded : ns.map (fun n => s.lines[n - 1]?) = s.out.map some
  whole : ∀ n, 0 < n → n ≤ held → n ∈ ns
  mark : held ≤ seen ∧ (seen = held ∨ seen ∈ s.completed)

/-- Of the messages waiting, those the history did not hold come in order, above the
mark. -/
def Ahead (held seen : Nat) (ms : List (Nat × Str)) : Prop :=
  ((ms.map Prod.fst).filter (held < ·)).Pairwise (· < ·) ∧ ∀ m ∈ ms, held < m.1 → seen < m.1

/-- Everything completed has been yielded or waits. -/
def Covered (s : LiveState Thread) (ns : List Nat) (ms : List (Nat × Str)) : Prop :=
  ∀ n ∈ s.completed, n ∈ ns ∨ n ∈ ms.map Prod.fst

/-- What a reader that returned at DONE has yielded. -/
def Complete (s : LiveState Thread) : Prop :=
  ∃ ns : List Nat, ns.Pairwise (· < ·) ∧ (∀ n ∈ ns, 0 < n) ∧
    ns.map (fun n => s.lines[n - 1]?) = s.out.map some ∧ ∀ n ∈ s.completed, n ∈ ns

/-- What holds of the reader, by where it stands. -/
def ReaderKnows (s : LiveState Thread) : Prop :=
  match s.reader with
  | .start => s.out = []
  | .subscribed => s.out = [] ∧ (s.Live → ∃ ms, s.Feed ms)
  | .following held seen => s.Live → ∃ ns ms,
      s.Feed ms ∧ s.Caught held seen ns ∧ Ahead held seen ms ∧ s.Covered ns ms
  | .returned => s.closing ≠ .running ∧ s.Complete
  | .left => True

/-- The invariant of a live log. -/
structure Sound (s : LiveState Thread) : Prop where
  history : s.closing ≠ .removed → s.history = s.lines
  appending : s.closing = .running → ∀ e ∈ s.appending, s.Holds e.2
  completed : ∀ n ∈ s.completed, 0 < n ∧ n ≤ s.lines.length
  silent : s.closing = .running → ∀ q, s.inbox = some q → DONE ∉ q
  reader : s.ReaderKnows

variable {s s' : LiveState Thread}

theorem Holds.grow {m : Nat × Str} (hlines : s.lines <+: s'.lines) (h : s.Holds m) :
    s'.Holds m := by
  obtain ⟨hpos, hline⟩ := h
  obtain ⟨more, hmore⟩ := hlines
  refine ⟨hpos, ?_⟩
  rw [← hmore, List.getElem?_append_left (List.getElem?_eq_some_iff.mp hline).1, hline]

/-- Lines yielded stay what they were as the history grows. -/
theorem yielded_grow {ns : List Nat} (hlines : s.lines <+: s'.lines)
    (h : ns.map (fun n => s.lines[n - 1]?) = s.out.map some) :
    ns.map (fun n => s'.lines[n - 1]?) = s.out.map some := by
  rw [← h]
  refine List.map_congr_left fun n hn => ?_
  have hmem : s.lines[n - 1]? ∈ s.out.map some :=
    h ▸ List.mem_map.mpr ⟨n, hn, rfl⟩
  obtain ⟨line, -, hline⟩ := List.mem_map.mp hmem
  obtain ⟨more, hmore⟩ := hlines
  rw [← hmore, List.getElem?_append_left (List.getElem?_eq_some_iff.mp hline.symm).1]

/-- Nothing is added before DONE. -/
theorem takeWhile_append {q : List Str} {x : Str} (h : DONE ∈ q ∨ x = DONE) :
    (q ++ [x]).takeWhile (· ≠ DONE) = q.takeWhile (· ≠ DONE) := by
  induction q with
  | nil =>
    obtain rfl := h.resolve_left List.not_mem_nil
    rfl
  | cons y q ih =>
    by_cases hy : y = DONE
    · subst hy
      rfl
    · have hq : DONE ∈ q ∨ x = DONE :=
        h.imp_left fun hmem => (List.mem_cons.mp hmem).resolve_left fun heq => hy heq.symm
      simp only [List.cons_append, List.takeWhile_cons, ne_eq, hy, not_false_eq_true,
        decide_true, ↓reduceIte, ih hq]

theorem takeWhile_eq_self {q : List Str} (h : DONE ∉ q) : q.takeWhile (· ≠ DONE) = q :=
  List.takeWhile_eq_self_iff.mpr fun _ hx => decide_eq_true fun heq => h (heq ▸ hx)

/-- A step that leaves the reader, and what waits before DONE, as they are. -/
theorem ReaderKnows.frame (h : s.ReaderKnows) (hreader : s'.reader = s.reader)
    (hout : s'.out = s.out) (hcompleted : s'.completed = s.completed)
    (hlines : s.lines <+: s'.lines) (hclosing : s.closing ≠ .running → s'.closing ≠ .running)
    (hlive : s'.Live → s.Live)
    (hwaiting : s.Live → ∀ q, s.inbox = some q →
      ∃ q', s'.inbox = some q' ∧ q'.takeWhile (· ≠ DONE) = q.takeWhile (· ≠ DONE)) :
    s'.ReaderKnows := by
  have hfeed : s.Live → ∀ ms, s.Feed ms → s'.Feed ms := by
    intro hl ms hms
    obtain ⟨q, hq, hwait⟩ := hms.waiting
    obtain ⟨q', hq', heq⟩ := hwaiting hl q hq
    refine ⟨⟨q', hq', heq.trans hwait⟩, fun m hm => ?_⟩
    exact ⟨(hms.known m hm).1.grow hlines, hcompleted ▸ (hms.known m hm).2⟩
  unfold ReaderKnows at h ⊢
  rw [hreader]
  cases hat : s.reader with
  | start =>
    simp only [hat] at h ⊢
    rw [hout, h]
  | subscribed =>
    simp only [hat] at h ⊢
    refine ⟨hout.trans h.1, fun hl => ?_⟩
    obtain ⟨ms, hms⟩ := h.2 (hlive hl)
    exact ⟨ms, hfeed (hlive hl) ms hms⟩
  | following held seen =>
    simp only [hat] at h ⊢
    intro hl
    obtain ⟨ns, ms, hms, hcaught, hahead, hcovered⟩ := h (hlive hl)
    refine ⟨ns, ms, hfeed (hlive hl) ms hms, ⟨hcaught.sorted, hcaught.bounds, ?_,
      hcaught.whole, ?_⟩, hahead, ?_⟩
    · rw [hout]
      exact yielded_grow hlines hcaught.yielded
    · rw [hcompleted]
      exact hcaught.mark
    · unfold Covered
      rw [hcompleted]
      exact hcovered
  | returned =>
    simp only [hat] at h ⊢
    obtain ⟨hended, ns, hsorted, hpos, hyielded, hall⟩ := h
    refine ⟨hclosing hended, ns, hsorted, hpos, ?_, ?_⟩
    · rw [hout]
      exact yielded_grow hlines hyielded
    · rw [hcompleted]
      exact hall
  | left => exact trivial

/-! ## The steps -/

theorem sound_of_push [DecidableEq Thread] {thread : Thread} {line : Str} (hs : s.Sound)
    (h : s.push thread line = some s') : s'.Sound := by
  unfold push at h
  split at h
  · cases h
  · cases h
    have hlines : s.lines <+: if s.closing = .removed then s.lines else s.lines ++ [line] := by
      split
      · exact List.prefix_rfl
      · exact List.prefix_append ..
    refine ⟨fun hkept => ?_, fun hrun e he => ?_, fun n hn => ?_, hs.silent, ?_⟩
    · simp only [if_neg hkept, hs.history hkept]
    · have hkept : s.closing ≠ .removed := fun h => by rw [h] at hrun; cases hrun
      rcases List.mem_append.mp he with he | he
      · exact (hs.appending hrun e he).grow hlines
      · obtain rfl := List.mem_singleton.mp he
        refine ⟨Nat.succ_pos _, ?_⟩
        simp only [if_neg hkept, hs.history hkept, Nat.add_sub_cancel,
          List.getElem?_concat_length]
    · exact ⟨(hs.completed n hn).1, (hs.completed n hn).2.trans hlines.length_le⟩
    · exact hs.reader.frame rfl rfl rfl hlines id id fun _ q hq => ⟨q, hq, rfl⟩

theorem sound_of_done (hs : s.Sound) (hrun : s.closing = .running) :
    ({ s with closing := .told, inbox := s.inbox.map fun q => q ++ [DONE] } :
      LiveState Thread).Sound := by
  have hkept : s.closing ≠ .removed := by rw [hrun]; exact nofun
  refine ⟨fun _ => hs.history hkept, nofun, hs.completed, nofun, ?_⟩
  refine hs.reader.frame rfl rfl rfl List.prefix_rfl (fun h => absurd hrun h)
    (fun _ => .inl hrun) fun _ q hq => ⟨q ++ [DONE], ?_, takeWhile_append (.inr rfl)⟩
  simp only [hq, Option.map_some]

theorem sound_of_remove (hs : s.Sound) :
    ({ s with closing := .removed, history := [] } : LiveState Thread).Sound := by
  refine ⟨fun h => absurd rfl h, nofun, hs.completed, nofun, ?_⟩
  exact hs.reader.frame rfl rfl rfl List.prefix_rfl (fun _ => nofun)
    (fun h => h.imp (fun hrun => nomatch hrun) id) fun _ q hq => ⟨q, hq, rfl⟩

/-- A line published before DONE waits after the others. -/
theorem Feed.publish {ms : List (Nat × Str)} {m : Nat × Str} (h : s.Feed ms) (hm : s.Holds m)
    (hsilent : ∀ q, s.inbox = some q → DONE ∉ q)
    (hinbox : s'.inbox = s.inbox.map fun q => q ++ [published m.1 m.2])
    (hcompleted : s'.completed = s.completed ++ [m.1]) (hlines : s'.lines = s.lines) :
    s'.Feed (ms ++ [m]) := by
  obtain ⟨q, hq, hwait⟩ := h.waiting
  have hnone : DONE ∉ q ++ [published m.1 m.2] := fun hmem =>
    hsilent q hq (done_mem_of_published hmem)
  have hgrow : s.lines <+: s'.lines := hlines ▸ List.prefix_rfl
  refine ⟨⟨q ++ [published m.1 m.2], by simp only [hinbox, hq, Option.map_some], ?_⟩,
    ListUpdate.forall_mem_concat (fun k hk => ?_) ?_⟩
  · rw [takeWhile_eq_self hnone, List.map_append, ← hwait, takeWhile_eq_self (hsilent q hq)]
    rfl
  · rw [hcompleted]
    exact ⟨(h.known k hk).1.grow hgrow, List.mem_append_left _ (h.known k hk).2⟩
  · rw [hcompleted]
    exact ⟨hm.grow hgrow, List.mem_append_right _ List.mem_cons_self⟩

/-- A message in order comes behind those that wait. -/
theorem Ahead.publish {held seen : Nat} {ms : List (Nat × Str)} {m : Nat × Str}
    (h : Ahead held seen ms) (hknown : ∀ k ∈ ms, k.1 ∈ s.completed)
    (hmark : seen = held ∨ seen ∈ s.completed)
    (horder : m.1 ≤ held ∨ ∀ n ∈ s.completed, n < m.1) : Ahead held seen (ms ++ [m]) := by
  refine ⟨?_, fun k hk hheld => ?_⟩
  · rw [List.map_append, List.filter_append]
    refine List.pairwise_append.mpr ⟨h.1, ?_, fun a ha b hb => ?_⟩
    · exact (List.pairwise_singleton _ _).filter _
    · obtain ⟨hb, hheld⟩ := List.mem_filter.mp hb
      obtain rfl := List.mem_singleton.mp hb
      obtain ⟨k, hk, rfl⟩ := List.mem_map.mp (List.mem_filter.mp ha).1
      exact (horder.resolve_left (of_decide_eq_true hheld).not_ge) k.1 (hknown k hk)
  · rcases List.mem_append.mp hk with hk | hk
    · exact h.2 k hk hheld
    · obtain rfl := List.mem_singleton.mp hk
      rcases hmark with rfl | hseen
      · exact hheld
      · exact (horder.resolve_left hheld.not_ge) seen hseen

theorem sound_of_publish [DecidableEq Thread] {thread : Thread} (hs : s.Sound)
    (hallowed : inOrder s (.publish thread) = true) (h : s.publish thread = some s') :
    s'.Sound := by
  obtain ⟨e, he, rfl⟩ := Option.map_eq_some_iff.mp h
  have hmem : e ∈ s.appending := List.mem_of_find?_eq_some he
  refine ⟨hs.history, fun hrun e he => ?_, fun n hn => ?_, fun hrun q hq => ?_, ?_⟩
  · exact hs.appending hrun e (List.mem_filter.mp he).1
  · by_cases hrun : s.closing = .running
    · rw [if_pos hrun] at hn
      obtain ⟨hpos, hline⟩ := hs.appending hrun e hmem
      refine ListUpdate.forall_mem_concat hs.completed ⟨hpos, ?_⟩ n hn
      exact Nat.le_of_pred_lt (List.getElem?_eq_some_iff.mp hline).1
    · rw [if_neg hrun] at hn
      exact hs.completed n hn
  · obtain ⟨q, hbefore, rfl⟩ := Option.map_eq_some_iff.mp hq
    exact fun hdone => hs.silent hrun q hbefore (done_mem_of_published hdone)
  · by_cases hrun : s.closing = .running
    · have hm : s.Holds e.2 := hs.appending hrun e hmem
      have hlive : s.Live := .inl hrun
      have hreader := hs.reader
      unfold ReaderKnows at hreader ⊢
      simp only [if_pos hrun]
      cases hat : s.reader with
      | start =>
        simp only [hat] at hreader ⊢
        exact hreader
      | subscribed =>
        simp only [hat] at hreader ⊢
        obtain ⟨hout, hfeed⟩ := hreader
        obtain ⟨ms, hms⟩ := hfeed hlive
        exact ⟨hout, fun _ => ⟨ms ++ [e.2], hms.publish hm (hs.silent hrun) rfl rfl rfl⟩⟩
      | following held seen =>
        simp only [hat] at hreader ⊢
        intro _
        obtain ⟨ns, ms, hms, hcaught, hahead, hcovered⟩ := hreader hlive
        have horder : e.2.1 ≤ held ∨ ∀ n ∈ s.completed, n < e.2.1 := by
          simpa [inOrder, hat, he, hrun, or_assoc] using hallowed
        refine ⟨ns, ms ++ [e.2], hms.publish hm (hs.silent hrun) rfl rfl rfl, ?_, ?_, ?_⟩
        · refine ⟨hcaught.sorted, hcaught.bounds, hcaught.yielded, hcaught.whole, ?_⟩
          exact hcaught.mark.imp_right fun h => h.imp_right fun h => List.mem_append_left _ h
        · exact hahead.publish (fun k hk => (hms.known k hk).2) hcaught.mark.2 horder
        · intro n hn
          rw [List.map_append]
          rcases List.mem_append.mp hn with hn | hn
          · exact (hcovered n hn).imp_right fun h => List.mem_append_left _ h
          · exact .inr (List.mem_append_right _ hn)
      | returned =>
        simp only [hat] at hreader
        exact absurd hrun hreader.1
      | left => exact trivial
    · simp only [if_neg hrun]
      refine hs.reader.frame rfl rfl rfl List.prefix_rfl id (fun hlive => ?_) fun hlive q hq => ?_
      · obtain ⟨q, hq, hdone⟩ := hlive.resolve_left hrun
        obtain ⟨q, hbefore, rfl⟩ := Option.map_eq_some_iff.mp hq
        exact .inr ⟨q, hbefore, done_mem_of_published hdone⟩
      · obtain ⟨q', hq', hdone⟩ := hlive.resolve_left hrun
        obtain rfl := Option.some.inj (hq'.symm.trans hq)
        exact ⟨q' ++ [published e.2.1 e.2.2], by simp only [hq, Option.map_some],
          takeWhile_append (.inl hdone)⟩

theorem sound_of_subscribe (hs : s.Sound) (hstart : s.reader = .start) :
    ({ s with reader := .subscribed, inbox := some [] } : LiveState Thread).Sound := by
  refine ⟨hs.history, hs.appending, hs.completed, fun _ q hq => ?_, ?_⟩
  · obtain rfl := Option.some.inj hq
    exact List.not_mem_nil
  · have hreader := hs.reader
    unfold ReaderKnows at hreader
    simp only [hstart] at hreader
    exact ⟨hreader, fun _ => ⟨[], ⟨[], rfl, rfl⟩, nofun⟩⟩

/-- At the history's end: nothing waits that it does not hold. -/
theorem sound_of_read (hs : s.Sound) (hallowed : s.closing ≠ .removed ∨ ¬ s.Live)
    (hat : s.reader = .subscribed) :
    ({ s with
        reader := .following s.history.length s.history.length
        out := s.out ++ s.history } : LiveState Thread).Sound := by
  refine ⟨hs.history, hs.appending, hs.completed, hs.silent, fun hlive => ?_⟩
  have hreader := hs.reader
  unfold ReaderKnows at hreader
  simp only [hat] at hreader
  obtain ⟨hout, hfeed⟩ := hreader
  obtain ⟨ms, hms⟩ := hfeed hlive
  have hlines : s.history = s.lines := hs.history (hallowed.resolve_right fun h => h hlive)
  have hknown : ∀ m ∈ ms, m.1 ≤ s.history.length := fun m hm =>
    hlines ▸ (hs.completed m.1 (hms.known m hm).2).2
  refine ⟨List.range' 1 s.history.length, ms, ⟨hms.waiting, hms.known⟩, ⟨?_, ?_, ?_, ?_, ?_⟩,
    ⟨?_, ?_⟩, ?_⟩
  · exact List.pairwise_lt_range'
  · intro n hn
    rw [List.mem_range'_1] at hn
    omega
  · rw [hout, List.nil_append, hlines]
    refine List.ext_getElem (by simp only [List.length_map, List.length_range']) fun i hi _ => ?_
    rw [List.getElem_map, List.getElem_map, List.getElem_range', Nat.one_mul,
      Nat.add_sub_cancel_left, List.getElem?_eq_getElem]
  · intro n hpos hle
    rw [List.mem_range'_1]
    omega
  · exact ⟨le_rfl, .inl rfl⟩
  · rw [List.filter_eq_nil_iff.mpr]
    · exact List.Pairwise.nil
    · intro n hn
      obtain ⟨m, hm, rfl⟩ := List.mem_map.mp hn
      have hle := hknown m hm
      simp only [decide_eq_true_eq]
      omega
  · intro m hm hheld
    exact absurd (hknown m hm) hheld.not_ge
  · intro n hn
    obtain ⟨hpos, hle⟩ := hs.completed n hn
    left
    rw [List.mem_range'_1]
    rw [← hlines] at hle
    omega

/-- A message the history held is skipped. -/
theorem known_of_skip {held seen : Nat} {ns : List Nat} {m : Nat × Str}
    {ms : List (Nat × Str)} (hcaught : s.Caught held seen ns) (hahead : Ahead held seen (m :: ms))
    (hpos : 0 < m.1) (hle : m.1 ≤ seen) : m.1 ∈ ns := by
  refine hcaught.whole m.1 hpos ?_
  by_contra hheld
  have hpast := hahead.2 m List.mem_cons_self (by omega)
  omega

theorem Ahead.rest {held seen : Nat} {m : Nat × Str} {ms : List (Nat × Str)}
    (h : Ahead held seen (m :: ms)) : Ahead held seen ms := by
  refine ⟨h.1.sublist ?_, fun k hk => h.2 k (List.mem_cons_of_mem _ hk)⟩
  exact (List.sublist_cons_self m.1 (ms.map Prod.fst)).filter _

/-- A message past the mark moves it, and the messages after it stay past the mark. -/
theorem Ahead.take {held seen : Nat} {m : Nat × Str} {ms : List (Nat × Str)}
    (h : Ahead held seen (m :: ms)) (hheld : held < m.1) : Ahead held m.1 ms := by
  refine ⟨h.rest.1, fun k hk hk' => ?_⟩
  have hsorted := h.1
  rw [List.map_cons, List.filter_cons_of_pos (by exact decide_eq_true hheld)] at hsorted
  refine List.rel_of_pairwise_cons hsorted (List.mem_filter.mpr ⟨?_, decide_eq_true hk'⟩)
  exact List.mem_map_of_mem hk

theorem Caught.take {held seen : Nat} {ns : List Nat} {m : Nat × Str} (h : s.Caught held seen ns)
    (hm : s.Holds m) (hdone : m.1 ∈ s.completed) (hseen : seen < m.1)
    (hlines : s'.lines = s.lines) (hout : s'.out = s.out ++ [m.2])
    (hcompleted : s'.completed = s.completed) : s'.Caught held m.1 (ns ++ [m.1]) := by
  refine ⟨?_, ListUpdate.forall_mem_concat (fun n hn => ?_) ⟨hm.1, le_rfl⟩, ?_,
    fun n hpos hle => ?_, ?_, ?_⟩
  · refine List.pairwise_append.mpr ⟨h.sorted, List.pairwise_singleton _ _, fun a ha b hb => ?_⟩
    obtain rfl := List.mem_singleton.mp hb
    exact (h.bounds a ha).2.trans_lt hseen
  · exact ⟨(h.bounds n hn).1, (h.bounds n hn).2.trans hseen.le⟩
  · rw [hout, List.map_append, List.map_append, hlines, h.yielded, List.map_singleton, hm.2]
    rfl
  · exact List.mem_append_left _ (h.whole n hpos hle)
  · exact h.mark.1.trans hseen.le
  · exact .inr (hcompleted ▸ hdone)

/-- The message at the head of the inbox, while DONE is ahead. -/
theorem Feed.head {data : Str} {rest : List Str} {ms : List (Nat × Str)} (h : s.Feed ms)
    (hinbox : s.inbox = some (data :: rest)) (hdata : data ≠ DONE) :
    ∃ m ms', ms = m :: ms' ∧ numbered data = (some m.1, m.2) ∧
      ∀ t : LiveState Thread, t.lines = s.lines → t.completed = s.completed →
        t.inbox = some rest → t.Feed ms' := by
  obtain ⟨q, hq, hwait⟩ := h.waiting
  obtain rfl := Option.some.inj (hinbox.symm.trans hq)
  rw [List.takeWhile_cons_of_pos (by exact decide_eq_true hdata)] at hwait
  cases ms with
  | nil => cases hwait
  | cons m ms =>
    obtain ⟨hhead, htail⟩ := List.cons.inj hwait
    refine ⟨m, ms, rfl, hhead ▸ numbered_published m.1 m.2, fun t hlines hcompleted ht => ?_⟩
    refine ⟨⟨rest, ht, htail⟩, fun k hk => ?_⟩
    obtain ⟨hheld, hdone⟩ := h.known k (List.mem_cons_of_mem _ hk)
    exact ⟨hheld.grow (hlines ▸ List.prefix_rfl), hcompleted ▸ hdone⟩

theorem sound_of_receive (hs : s.Sound) (h : s.receive = some s') : s'.Sound := by
  unfold receive at h
  split at h
  next held seen data rest hat hinbox =>
    have hreader := hs.reader
    unfold ReaderKnows at hreader
    simp only [hat] at hreader
    have hsilent : s.closing = .running → ∀ q, some rest = some q → DONE ∉ q := by
      intro hrun q hq hdone
      obtain rfl := Option.some.inj hq
      exact hs.silent hrun _ hinbox (List.mem_cons_of_mem _ hdone)
    have hlive : (s.closing = .running ∨ ∃ q, some rest = some q ∧ DONE ∈ q) → s.Live := by
      refine Or.imp_right fun hq => ?_
      obtain ⟨q, hq, hdone⟩ := hq
      obtain rfl := Option.some.inj hq
      exact ⟨_, hinbox, List.mem_cons_of_mem _ hdone⟩
    by_cases hdata : data = DONE
    · -- the message DONE
      subst hdata
      rw [if_pos rfl] at h
      cases h
      obtain ⟨ns, ms, hms, hcaught, -, hcovered⟩ := hreader (.inr ⟨_, hinbox, List.mem_cons_self⟩)
      refine ⟨hs.history, hs.appending, hs.completed, hsilent, ?_, ?_⟩
      · exact fun hrun => hs.silent hrun _ hinbox List.mem_cons_self
      · obtain ⟨q, hq, hwait⟩ := hms.waiting
        obtain rfl := Option.some.inj (hinbox.symm.trans hq)
        obtain rfl : ms = [] := List.map_eq_nil_iff.mp hwait.symm
        refine ⟨ns, hcaught.sorted, fun n hn => (hcaught.bounds n hn).1, hcaught.yielded, ?_⟩
        exact fun n hn => (hcovered n hn).resolve_right List.not_mem_nil
    · rw [if_neg hdata] at h
      split at h
      next number line hnumber =>
        split at h
        next hle =>
          -- a line the history held
          cases h
          refine ⟨hs.history, hs.appending, hs.completed, hsilent, ?_⟩
          unfold ReaderKnows
          simp only [hat]
          intro hl
          obtain ⟨ns, ms, hms, hcaught, hahead, hcovered⟩ := hreader (hlive hl)
          obtain ⟨m, ms, rfl, hread, hrest⟩ := hms.head hinbox hdata
          cases hread.symm.trans hnumber
          have hseen : m.1 ∈ ns :=
            known_of_skip hcaught hahead (hms.known m List.mem_cons_self).1.1 hle
          refine ⟨ns, ms, hrest _ rfl rfl rfl, ⟨hcaught.sorted, hcaught.bounds, hcaught.yielded,
            hcaught.whole, hcaught.mark⟩, hahead.rest, fun n hn => ?_⟩
          rcases hcovered n hn with hn | hn
          · exact .inl hn
          · rcases List.mem_cons.mp hn with rfl | hn
            · exact .inl hseen
            · exact .inr hn
        next hgt =>
          -- a line past the mark
          cases h
          refine ⟨hs.history, hs.appending, hs.completed, hsilent, fun hl => ?_⟩
          obtain ⟨ns, ms, hms, hcaught, hahead, hcovered⟩ := hreader (hlive hl)
          obtain ⟨m, ms, rfl, hread, hrest⟩ := hms.head hinbox hdata
          cases hread.symm.trans hnumber
          obtain ⟨hm, hdone⟩ := hms.known m List.mem_cons_self
          have hseen : seen < m.1 := Nat.lt_of_not_le hgt
          refine ⟨ns ++ [m.1], ms, hrest _ rfl rfl rfl, hcaught.take hm hdone hseen rfl rfl rfl,
            hahead.take (hcaught.mark.1.trans_lt hseen), fun n hn => ?_⟩
          rcases hcovered n hn with hn | hn
          · exact .inl (List.mem_append_left _ hn)
          · rcases List.mem_cons.mp hn with rfl | hn
            · exact .inl (List.mem_append_right _ List.mem_cons_self)
            · exact .inr hn
      next line hnumber =>
        -- no message before DONE is without a number
        cases h
        refine ⟨hs.history, hs.appending, hs.completed, hsilent, ?_⟩
        unfold ReaderKnows
        simp only [hat]
        intro hl
        obtain ⟨ns, ms, hms, -⟩ := hreader (hlive hl)
        obtain ⟨m, ms, rfl, hread, -⟩ := hms.head hinbox hdata
        cases hread.symm.trans hnumber
  next => cases h

/-- **A step in order** keeps the invariant. -/
theorem sound_of_step [DecidableEq Thread] {a : LiveAction Thread}
    (hallowed : inOrder s a = true) (hs : s.Sound) (h : s.step a = some s') : s'.Sound := by
  cases a with
  | push thread line => exact sound_of_push hs h
  | publish thread => exact sound_of_publish hs hallowed h
  | done =>
    obtain ⟨hrun, h⟩ := Option.ite_none_right_eq_some.mp h
    exact Option.some.inj h ▸ sound_of_done hs hrun
  | remove =>
    obtain ⟨-, h⟩ := Option.ite_none_right_eq_some.mp h
    exact Option.some.inj h ▸ sound_of_remove hs
  | subscribe =>
    obtain ⟨hstart, h⟩ := Option.ite_none_right_eq_some.mp h
    exact Option.some.inj h ▸ sound_of_subscribe hs hstart
  | read =>
    obtain ⟨hat, h⟩ := Option.ite_none_right_eq_some.mp h
    refine Option.some.inj h ▸ sound_of_read hs ?_ hat
    by_cases hgone : s.closing = .removed
    · right
      rintro (hrun | ⟨q, hq, hdone⟩)
      · rw [hgone] at hrun
        cases hrun
      · simp [inOrder, hgone, hq, hdone] at hallowed
    · exact .inl hgone
  | receive => exact sound_of_receive hs h
  | idle ended =>
    simp only [step] at h
    split at h
    · cases ended with
      | false => exact Option.some.inj h ▸ hs
      | true =>
        obtain rfl := Option.some.inj h
        exact ⟨hs.history, hs.appending, hs.completed, hs.silent, trivial⟩
    · cases h

end LiveState

/-- **Every line reaches the reader once**, in history order, in the runs whose lines are
published in order. -/
theorem delivered_of_inOrder [DecidableEq Thread] {s : LiveState Thread}
    (h : (liveLog Thread).Reachable inOrder s) : Delivered s := by
  have hsound : s.Sound := by
    refine h.invariant (fun s hs => ?_) fun s a s' _ hallowed hs hstep =>
      LiveState.sound_of_step hallowed hs hstep
    obtain rfl : s = {} := hs
    exact ⟨fun _ => rfl, nofun, nofun, nofun, rfl⟩
  intro hreturned
  have hreader := hsound.reader
  unfold LiveState.ReaderKnows at hreader
  simp only [hreturned] at hreader
  exact hreader.2

/-- Two threads' lines, one published before the history is read and one after. -/
theorem delivered_twoThreads : ∃ s : LiveState (Fin 2),
    (liveLog (Fin 2)).Reachable inOrder s ∧ s.reader = .returned ∧ s.completed = [1, 2] ∧
      s.out = s.lines ∧ Delivered s := by
  have hrun : ((liveLog (Fin 2)).exec inOrder {} [.push 0 ['a'], .subscribe, .publish 0, .read,
      .push 1 ['b'], .publish 1, .done, .remove, .receive, .receive, .receive]).any (fun s =>
        s.reader = .returned && s.completed = [1, 2] && s.out = s.lines) = true := by decide
  obtain ⟨s, hs, hp⟩ := System.exists_reachable rfl hrun
  obtain ⟨⟨hreturned, hcompleted⟩, hout⟩ : (s.reader = .returned ∧ s.completed = [1, 2]) ∧
      s.out = s.lines := by simpa using hp
  exact ⟨s, hs, hreturned, hcompleted, hout, delivered_of_inOrder hs⟩

/-- **A line that never arrives**: its thread numbers it first and publishes it second. -/
theorem not_delivered_overtaken : ∃ s : LiveState (Fin 2),
    (liveLog (Fin 2)).Reachable System.always s ∧ ¬ Delivered s := by
  have hrun : ((liveLog (Fin 2)).exec System.always {} [.subscribe, .read, .push 0 ['a'],
      .push 1 ['b'], .publish 1, .publish 0, .done, .receive, .receive, .receive]).any (fun s =>
        s.reader = .returned && s.completed = [2, 1] && s.out = [['b']] &&
          s.lines = [['a'], ['b']]) = true := by decide
  obtain ⟨s, hs, hp⟩ := System.exists_reachable rfl hrun
  obtain ⟨⟨⟨hreturned, hcompleted⟩, hout⟩, hlines⟩ : ((s.reader = .returned ∧
      s.completed = [2, 1]) ∧ s.out = [['b']]) ∧ s.lines = [['a'], ['b']] := by simpa using hp
  refine ⟨s, hs, fun hdelivered => ?_⟩
  obtain ⟨ns, -, -, hyielded, hall⟩ := hdelivered hreturned
  have hfirst : 1 ∈ ns := hall 1 (by rw [hcompleted]; decide)
  have hmem : s.lines[1 - 1]? ∈ s.out.map some := hyielded ▸ List.mem_map.mpr ⟨1, hfirst, rfl⟩
  rw [hlines, hout] at hmem
  exact absurd hmem (by decide)

end Logs
end NetRollout

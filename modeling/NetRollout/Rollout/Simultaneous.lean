import NetRollout.Rollout.Substitution

/-!
# Filling a command in, in one step

`simultaneous` replaces the tokens of a command in one step, and `simultaneous_iff` says when
`commands_for` does the same in whatever order the mapping is: when no token that it finds has
a character of a value, or one from between the command's tokens.

The two texts may also agree by chance, so a command is read with the `Origin` of each of its
characters as well: `fill` runs on both, and `map_traced` says that the texts are the same.
-/

namespace NetRollout
namespace Rollout

open PyText (Str)

/-! ## In one step -/

/-- Where a character of a command comes from: it is the command's own, one of a token of it,
or one of a value. -/
inductive Origin where
  | command
  | token
  | value (t : Token)
  deriving DecidableEq

abbrev Letter := Char × Origin

namespace Device

variable [Printable] (d : Device)

/-- What `value_for` gives, nothing where it refuses. -/
def value (token : Token) : Str :=
  match d.value_for token with
  | .ok value => value
  | .error _ => []

/-- A command with every token of it replaced by its value. -/
def substitute (command : Str) : Str :=
  (scan command).flatMap (Sum.elim (fun c => [c]) d.value)

/-- The commands filled in, each in one step. -/
def simultaneous (commands : List Str) : Except Raised (List Str) := do
  let problems ← d.unresolved commands
  if problems = [] then .ok (commands.map d.substitute)
  else .error (.substitution ([';', ' '].intercalate problems))

/-- A piece of a command when the tokens in `done` are replaced. -/
def letters (done : List Token) : Char ⊕ Token → List Letter
  | .inl c => [(c, .command)]
  | .inr t => if t ∈ done then (d.value t).map (·, .value t) else t.text.map (·, .token)

/-- A command when the tokens in `done` are replaced. -/
def stage (done : List Token) (pieces : List (Char ⊕ Token)) : List Letter :=
  pieces.flatMap (d.letters done)

/-- The loop of `commands_for` over the commands with their origins. -/
def traced (commands : List Str) : Except Raised (List (List Letter)) :=
  d.fill Prod.fst (fun t value => value.map (·, .value t)) d.var_map_subs.entries
    (commands.map fun c => d.stage [] (scan c))

/-- The same mappings and values, the mappings in another order. -/
def Reorders (d' : Device) : Prop :=
  d'.var_map_subs.entries.Perm d.var_map_subs.entries ∧ d'.extra = d.extra

/-- In whatever order the mappings are: the commands are filled in as in one step, and the
tokens' characters are all that is replaced. -/
def Simultaneous (commands : List Str) : Prop :=
  ∀ d', d.Reorders d' →
    d'.commands_for commands = d.simultaneous commands ∧
      (d.unresolved commands = .ok [] →
        d'.traced commands =
          .ok (commands.map fun c => d.stage d.var_map_subs.keys (scan c)))

/-- What `str.replace` finds of a token are tokens of the command. -/
def OnlyTokens (t : Token) (text : List Letter) : Prop :=
  ∀ stretch ∈ Replace.found Prod.fst t.text text, ∀ a ∈ stretch, a.2 = .token

/-- When a mapping's turn comes, what is found of its token are tokens of the command: no
character of a value, and none of those between the tokens. -/
def Undisturbed (commands : List Str) : Prop :=
  ∀ done t place rest, d.var_map_subs.entries = done ++ ⟨t, place⟩ :: rest →
    ∀ c ∈ commands, OnlyTokens t (d.stage (done.map Sigma.fst) (scan c))

end Device

/-! ## What a token can overlap -/

namespace Token

variable {t u : Token} {s : Str}

/-- A token begins with two marks and a letter. -/
theorem getElem?_of_starts (h : t.text <+: s) :
    s[0]? = some '$' ∧ s[1]? = some '$' ∧ ∃ c, s[2]? = some c ∧ isWord c = true := by
  obtain ⟨rest, rfl⟩ := h
  obtain ⟨c, inner, hinner⟩ := List.exists_cons_of_ne_nil t.inner_ne_nil
  refine ⟨rfl, rfl, c, ?_, t.word c (hinner ▸ List.mem_cons_self)⟩
  rw [text, hinner]
  rfl

/-- After its two marks come a token's letters. -/
theorem getElem?_inner (t : Token) (s : Str) {i : Nat} (hi : i < t.inner.length) :
    ∃ c, (t.text ++ s)[i + 2]? = some c ∧ isWord c = true := by
  refine ⟨t.inner[i], ?_, t.word _ (List.getElem_mem hi)⟩
  show (t.inner ++ marks ++ s)[i]? = _
  rw [List.append_assoc, List.getElem?_append_left hi, List.getElem?_eq_getElem hi]

theorem eq_of_starts (h : t.text <+: u.text ++ s) : t = u := by
  have ht := tokenAt_eq_some.mpr h
  rw [tokenAt_eq_some.mpr (List.prefix_append u.text s)] at ht
  exact (Option.some.inj ht).symm

/-- No token begins within another's letters, or at its second mark. -/
theorem not_prefix_within {i : Nat} (hpos : 0 < i) (hi : i < u.inner.length + 2) :
    ¬t.text <+: (u.text ++ s).drop i := by
  intro h
  obtain ⟨h0, h1, -⟩ := getElem?_of_starts h
  rw [List.getElem?_drop] at h0 h1
  rcases Nat.lt_or_ge i 2 with hlt | hge
  · obtain rfl : i = 1 := by omega
    obtain ⟨c, hc, hword⟩ := u.getElem?_inner s u.short.1
    rw [hc] at h1
    exact isWord_marks hword (Option.some.inj h1)
  · obtain ⟨j, rfl⟩ : ∃ j, i = j + 2 := ⟨i - 2, by omega⟩
    obtain ⟨c, hc, hword⟩ := u.getElem?_inner s (i := j) (by omega)
    rw [Nat.add_zero, hc] at h0
    exact isWord_marks hword (Option.some.inj h0)

end Token

namespace Device

variable {t u : Token} {s w : List Letter}

theorem OnlyTokens.of_starts (h : OnlyTokens t s) (hstarts : t.text <+: s.map Prod.fst)
    {i : Nat} (hi : i < t.text.length) {a : Letter} (ha : s[i]? = some a) : a.2 = .token := by
  refine h (s.take t.text.length) ?_ a ?_
  · rw [Replace.found_of_starts t.text_ne_nil hstarts]
    exact List.mem_cons_self
  · exact List.mem_of_getElem? ((List.getElem?_take_of_lt hi).trans ha)

/-- Letters that are no token's are passed over. -/
theorem OnlyTokens.kept {v : List Letter} (hs : ∀ a ∈ s, a.2 ≠ .token)
    (h : OnlyTokens t (s ++ w)) :
    Replace.replace Prod.fst t.text v (s ++ w) = s ++ Replace.replace Prod.fst t.text v w ∧
      Replace.found Prod.fst t.text (s ++ w) = Replace.found Prod.fst t.text w := by
  induction s with
  | nil => exact ⟨rfl, rfl⟩
  | cons a s ih =>
    have hhead : ¬t.text <+: (a :: (s ++ w)).map Prod.fst := fun hstarts =>
      hs a List.mem_cons_self
        (h.of_starts hstarts (List.length_pos_iff.mpr t.text_ne_nil) rfl)
    have hfound := Replace.found_cons_of_not hhead
    rw [List.cons_append, OnlyTokens, hfound] at h
    obtain ⟨ih₁, ih₂⟩ := ih (fun b hb => hs b (List.mem_cons_of_mem _ hb)) h
    rw [List.cons_append, Replace.replace_cons_of_not hhead, hfound, ih₁, ih₂]
    exact ⟨rfl, rfl⟩

/-- The marks that end a token begin no other, when a token begins wherever a token's character
comes next. -/
theorem OnlyTokens.marks {v : List Letter}
    (hw : ∀ a, w[0]? = some a → a.2 = .token →
      w[0]? = some ('$', .token) ∧ w[1]? = some ('$', .token))
    (h : OnlyTokens t (('$', .token) :: ('$', .token) :: w)) :
    Replace.replace Prod.fst t.text v (('$', .token) :: ('$', .token) :: w) =
        ('$', .token) :: ('$', .token) :: Replace.replace Prod.fst t.text v w ∧
      Replace.found Prod.fst t.text (('$', .token) :: ('$', .token) :: w) =
        Replace.found Prod.fst t.text w := by
  have hlong : 4 < t.text.length := by
    have hshort := t.short
    rw [t.length_text]
    omega
  have hfirst : ¬t.text <+: (('$', .token) :: ('$', .token) :: w : List Letter).map Prod.fst := by
    intro hstarts
    obtain ⟨-, -, c, hc, hword⟩ := Token.getElem?_of_starts hstarts
    rw [List.getElem?_map, Option.map_eq_some_iff] at hc
    obtain ⟨a, ha, rfl⟩ := hc
    have hstart := (hw a ha (h.of_starts hstarts (by omega) ha)).1
    obtain rfl := Option.some.inj (hstart.symm.trans ha)
    exact isWord_marks hword rfl
  have hfound := Replace.found_cons_of_not hfirst
  have h' := h
  rw [OnlyTokens, hfound] at h'
  have hsecond : ¬t.text <+: (('$', .token) :: w : List Letter).map Prod.fst := by
    intro hstarts
    obtain ⟨-, h1, c, hc, hword⟩ := Token.getElem?_of_starts hstarts
    rw [List.getElem?_map, Option.map_eq_some_iff] at h1 hc
    obtain ⟨a, ha, -⟩ := h1
    obtain ⟨b, hb, rfl⟩ := hc
    have hstart := (hw a ha (OnlyTokens.of_starts h' hstarts (by omega) ha)).2
    obtain rfl := Option.some.inj (hstart.symm.trans hb)
    exact isWord_marks hword rfl
  rw [Replace.replace_cons_of_not hfirst, hfound, Replace.replace_cons_of_not hsecond,
    Replace.found_cons_of_not hsecond]
  exact ⟨rfl, rfl⟩

/-- Another token is passed over. -/
theorem OnlyTokens.other {v : List Letter} (hne : t ≠ u)
    (hw : ∀ a, w[0]? = some a → a.2 = .token →
      w[0]? = some ('$', .token) ∧ w[1]? = some ('$', .token))
    (h : OnlyTokens t (u.text.map (·, Origin.token) ++ w)) :
    Replace.replace Prod.fst t.text v (u.text.map (·, Origin.token) ++ w) =
        u.text.map (·, Origin.token) ++ Replace.replace Prod.fst t.text v w ∧
      Replace.found Prod.fst t.text (u.text.map (·, Origin.token) ++ w) =
        Replace.found Prod.fst t.text w := by
  set head : List Letter := (Rollout.marks ++ u.inner).map (·, Origin.token)
  have hsplit : ∀ w : List Letter, u.text.map (·, Origin.token) ++ w =
      head ++ (('$', .token) :: ('$', .token) :: w) := by
    intro w
    simp [head, Token.text, Rollout.marks]
  have hread : (u.text.map (·, Origin.token) ++ w).map Prod.fst = u.text ++ w.map Prod.fst := by
    simp [Function.comp_def]
  rw [hsplit] at h hread
  have hpass : ∀ i < head.length,
      ¬t.text <+: ((head ++ (('$', .token) :: ('$', .token) :: w)).drop i).map Prod.fst := by
    intro i hi
    have hlen : head.length = u.inner.length + 2 := by
      simp [head, Rollout.marks]
    rw [List.map_drop, hread]
    rcases Nat.eq_zero_or_pos i with rfl | hpos
    · exact fun hstarts => hne (Token.eq_of_starts hstarts)
    · exact Token.not_prefix_within hpos (hlen ▸ hi)
  obtain ⟨hreplace, hfound⟩ := Replace.replace_append_of_not (v := v) hpass
  rw [OnlyTokens, hfound] at h
  obtain ⟨hreplace', hfound'⟩ := OnlyTokens.marks (v := v) hw h
  rw [hsplit, hsplit, hreplace, hfound, hreplace', hfound']
  exact ⟨rfl, rfl⟩

variable [Printable] {d : Device} {done : List Token} {ps : List (Char ⊕ Token)}

theorem stage_cons (p : Char ⊕ Token) (ps : List (Char ⊕ Token)) :
    d.stage done (p :: ps) = d.letters done p ++ d.stage done ps :=
  List.flatMap_cons

/-- Where a token's character comes next, a token begins. -/
theorem stage_head {a : Letter} (ha : (d.stage done ps)[0]? = some a) (htoken : a.2 = .token) :
    (d.stage done ps)[0]? = some ('$', .token) ∧ (d.stage done ps)[1]? = some ('$', .token) := by
  induction ps with
  | nil => cases ha
  | cons p ps ih =>
    rw [stage_cons] at ha ⊢
    rcases p with c | u
    · obtain rfl := Option.some.inj ha
      cases htoken
    · rw [letters] at ha ⊢
      by_cases hu : u ∈ done
      · rw [if_pos hu] at ha ⊢
        rcases hvalue : d.value u with _ | ⟨c, value⟩
        · rw [hvalue] at ha
          exact ih ha
        · rw [hvalue] at ha
          obtain rfl := Option.some.inj ha
          cases htoken
      · rw [if_neg hu]
        exact ⟨rfl, rfl⟩

/-- **One mapping's turn.** -/
theorem replace_stage (ht : t ∉ done) (h : OnlyTokens t (d.stage done ps)) :
    Replace.replace Prod.fst t.text ((d.value t).map (·, .value t)) (d.stage done ps) =
        d.stage (t :: done) ps ∧
      (Replace.found Prod.fst t.text (d.stage done ps) ≠ [] → .inr t ∈ ps) := by
  induction ps with
  | nil => exact ⟨rfl, fun hne => absurd rfl hne⟩
  | cons p ps ih =>
    rw [stage_cons] at h
    rw [stage_cons, stage_cons]
    have hrest : ∀ {s}, d.letters done p = s → d.letters (t :: done) p = s →
        Replace.replace Prod.fst t.text ((d.value t).map (·, .value t)) (s ++ d.stage done ps) =
            s ++ Replace.replace Prod.fst t.text ((d.value t).map (·, .value t))
              (d.stage done ps) ∧
          Replace.found Prod.fst t.text (s ++ d.stage done ps) =
            Replace.found Prod.fst t.text (d.stage done ps) →
        Replace.replace Prod.fst t.text ((d.value t).map (·, .value t))
            (d.letters done p ++ d.stage done ps) =
            d.letters (t :: done) p ++ d.stage (t :: done) ps ∧
          (Replace.found Prod.fst t.text (d.letters done p ++ d.stage done ps) ≠ [] →
            .inr t ∈ p :: ps) := by
      intro s hs hs' hpass
      rw [hs, OnlyTokens, hpass.2] at h
      obtain ⟨ih₁, ih₂⟩ := ih h
      rw [hs, hs', hpass.1, hpass.2, ih₁]
      exact ⟨rfl, fun hne => List.mem_cons_of_mem _ (ih₂ hne)⟩
    rcases p with c | u
    · exact hrest rfl rfl (OnlyTokens.kept (by simp [letters]) h)
    · by_cases hu : u ∈ done
      · have hs : d.letters done (.inr u) = (d.value u).map (·, .value u) := if_pos hu
        have hs' : d.letters (t :: done) (.inr u) = (d.value u).map (·, .value u) :=
          if_pos (List.mem_cons_of_mem _ hu)
        rw [hs] at h
        exact hrest hs hs' (OnlyTokens.kept (by simp) h)
      · have hs : d.letters done (.inr u) = u.text.map (·, .token) := if_neg hu
        by_cases hut : u = t
        · subst hut
          have hs' : d.letters (u :: done) (.inr u) = (d.value u).map (·, .value u) :=
            if_pos List.mem_cons_self
          have hread : (u.text.map (·, Origin.token)).map Prod.fst = u.text := by
            simp [Function.comp_def]
          obtain ⟨hstarts, -, hdrop⟩ := Replace.take_of_starts (t := d.stage done ps) hread
          rw [hs] at h ⊢
          rw [OnlyTokens, Replace.found_of_starts u.text_ne_nil hstarts, hdrop] at h
          rw [hs', Replace.replace_of_starts u.text_ne_nil hstarts, hdrop,
            (ih fun stretch hmem => h stretch (List.mem_cons_of_mem _ hmem)).1]
          exact ⟨rfl, fun _ => List.mem_cons_self⟩
        · have hs' : d.letters (t :: done) (.inr u) = u.text.map (·, .token) :=
            if_neg fun hmem => (List.mem_cons.mp hmem).elim hut hu
          rw [hs] at h
          exact hrest hs hs' (OnlyTokens.other (Ne.symm hut) (fun a => stage_head) h)

theorem stage_congr {done' : List Token} (h : ∀ u, u ∈ done ↔ u ∈ done') :
    d.stage done ps = d.stage done' ps := by
  refine congrArg (List.flatMap · ps) (funext fun p => ?_)
  rcases p with c | u
  · rfl
  · simp only [letters, h]

/-- Only replaced tokens have values in a command. -/
theorem mem_of_mem_stage {c : Char} (h : (c, .value u) ∈ d.stage done ps) : u ∈ done := by
  obtain ⟨p, -, hp⟩ := List.mem_flatMap.mp h
  rcases p with b | v
  · simp [letters] at hp
  · rw [letters] at hp
    split at hp
    · rename_i hv
      simp only [List.mem_map, Prod.mk.injEq, Origin.value.injEq] at hp
      obtain ⟨-, -, -, rfl⟩ := hp
      exact hv
    · simp at hp

/-- Replacing more tokens takes nothing but tokens away. -/
theorem countP_stage_le {all : List Token} (hsub : done ⊆ all) {o : Origin} (ho : o ≠ .token) :
    (d.stage done ps).countP (fun a => decide (a.2 = o)) ≤
      (d.stage all ps).countP (fun a => decide (a.2 = o)) := by
  induction ps with
  | nil => exact le_refl _
  | cons p ps ih =>
    have hp : (d.letters done p).countP (fun a => decide (a.2 = o)) ≤
        (d.letters all p).countP (fun a => decide (a.2 = o)) := by
      rcases p with c | u
      · exact le_refl _
      · rw [letters, letters]
        by_cases hu : u ∈ done
        · rw [if_pos hu, if_pos (hsub hu)]
        · have hzero : (u.text.map (·, Origin.token)).countP (fun a => decide (a.2 = o)) = 0 := by
            simp [List.countP_map, List.countP_eq_zero, Ne.symm ho]
          rw [if_neg hu, hzero]
          exact Nat.zero_le _
    rw [stage_cons, stage_cons, List.countP_append, List.countP_append]
    exact Nat.add_le_add hp ih

/-! ## What resolves -/

omit [Printable] in
theorem mem_findall {t : Token} {c : Str} : t ∈ findall c ↔ .inr t ∈ scan c := by
  simp [findall, List.mem_filterMap]

/-- `value_for` raises nothing but `SubstitutionError`. -/
theorem value_for_cases (t : Token) :
    (∃ place value, d.var_map_subs.lookup t = some place ∧ lookup d.extra place = .ok value ∧
        d.value_for t = .ok (PyText.strip value.str)) ∨
      ∃ why, d.value_for t = .error (.substitution why) := by
  rw [value_for]
  cases hplace : d.var_map_subs.lookup t with
  | none => exact .inr ⟨_, rfl⟩
  | some place =>
    by_cases hres : mapping_resolvable d.extra place = true
    · have hmissing : missing_value d.extra place = none := if_pos hres
      simp only [hmissing]
      suffices hok : ∃ value, lookup d.extra place = .ok value by
        obtain ⟨value, hvalue⟩ := hok
        exact .inl ⟨place, value, rfl, hvalue, by rw [hvalue]; rfl⟩
      rw [mapping_resolvable] at hres
      rw [lookup]
      cases hextra : d.extra.lookup place.property_name with
      | none => simp [hextra] at hres
      | some value =>
        rw [hextra] at hres
        cases hindex : place.index with
        | none => exact ⟨value, rfl⟩
        | some i =>
          rw [hindex] at hres
          cases value with
          | text s => simp at hres
          | list items =>
            simp only [Bool.and_eq_true, decide_eq_true_eq] at hres
            obtain ⟨-, h0, hlt⟩ := hres
            have hbound : i.toNat < items.length := by omega
            refine ⟨.text items[i.toNat], ?_⟩
            simp only [item, if_neg (Int.not_lt.mpr h0), if_pos h0,
              List.getElem?_eq_getElem hbound]
            rfl
    · have hmissing : ∃ why, missing_value d.extra place = some why := ⟨_, if_neg hres⟩
      obtain ⟨why, hwhy⟩ := hmissing
      simp only [hwhy]
      exact .inr ⟨why, rfl⟩

theorem problemsOf_ok (seen ts : List Token) : ∃ lines, d.problemsOf seen ts = .ok lines := by
  induction ts generalizing seen with
  | nil => exact ⟨[], rfl⟩
  | cons t ts ih =>
    rw [problemsOf]
    split
    · exact ih seen
    · obtain ⟨lines, hlines⟩ := ih (t :: seen)
      rcases value_for_cases (d := d) t with ⟨_, _, -, -, hok⟩ | ⟨why, herr⟩
      · exact ⟨lines, by rw [hok]; exact hlines⟩
      · exact ⟨_, by rw [herr, hlines]; rfl⟩

/-- Where `unresolved` has no line, every token has a value. -/
theorem value_for_of_problemsOf {seen ts : List Token} (h : d.problemsOf seen ts = .ok [])
    (ht : t ∈ ts) : t ∈ seen ∨ ∃ value, d.value_for t = .ok value := by
  induction ts generalizing seen with
  | nil => cases ht
  | cons u ts ih =>
    rw [problemsOf] at h
    split at h
    · rename_i hseen
      rcases List.mem_cons.mp ht with rfl | ht
      · exact .inl hseen
      · exact ih h ht
    · obtain ⟨lines, hlines⟩ := problemsOf_ok (d := d) (u :: seen) ts
      rcases value_for_cases (d := d) u with ⟨_, _, -, -, hok⟩ | ⟨why, herr⟩
      · rw [hok] at h
        rcases List.mem_cons.mp ht with rfl | ht
        · exact .inr ⟨_, hok⟩
        · rcases ih h ht with hmem | hvalue
          · rcases List.mem_cons.mp hmem with rfl | hmem
            · exact .inr ⟨_, hok⟩
            · exact .inl hmem
          · exact .inr hvalue
      · rw [herr, hlines] at h
        cases h

section Resolved

variable {commands : List Str} {c : Str} {place : Place}

theorem exists_value (h : d.unresolved commands = .ok []) (hc : c ∈ commands)
    (ht : .inr t ∈ scan c) : ∃ value, d.value_for t = .ok value :=
  (value_for_of_problemsOf h
    (List.mem_flatMap.mpr ⟨c, hc, mem_findall.mpr ht⟩)).resolve_left List.not_mem_nil

/-- A token with a value is mapped. -/
theorem mem_keys_of_value {v : Str} (h : d.value_for t = .ok v) :
    t ∈ d.var_map_subs.keys := by
  rcases value_for_cases (d := d) t with ⟨place, _, hlookup, -⟩ | ⟨why, herr⟩
  · exact AList.mem_keys.mp (AList.lookup_isSome.mp (Option.isSome_of_eq_some hlookup))
  · rw [herr] at h
    cases h

/-- Its value is what `commands_for` looks up. -/
theorem lookup_of_value {v : Str} (h : d.value_for t = .ok v)
    (hmem : ⟨t, place⟩ ∈ d.var_map_subs.entries) :
    ∃ x, lookup d.extra place = .ok x ∧ PyText.strip x.str = d.value t := by
  have hplace : d.var_map_subs.lookup t = some place := AList.mem_lookup_iff.mpr hmem
  rcases value_for_cases (d := d) t with ⟨place', x, hlookup, hx, hvalue⟩ | ⟨why, herr⟩
  · rw [hplace] at hlookup
    obtain rfl := Option.some.inj hlookup
    exact ⟨x, hx, by rw [value, hvalue]⟩
  · rw [herr] at h
    cases h

/-! ## The loop -/

/-- The loop over commands with their origins. -/
theorem fill_step {rest : List (Σ _ : Token, Place)} (hres : d.unresolved commands = .ok [])
    (hmem : ⟨t, place⟩ ∈ d.var_map_subs.entries) (ht : t ∉ done)
    (hown : ∀ c ∈ commands, OnlyTokens t (d.stage done (scan c))) :
    d.fill Prod.fst (fun t v => v.map (·, .value t)) (⟨t, place⟩ :: rest)
        (commands.map fun c => d.stage done (scan c)) =
      d.fill Prod.fst (fun t v => v.map (·, .value t)) rest
        (commands.map fun c => d.stage (t :: done) (scan c)) := by
  have hturn := fun c hc => replace_stage (d := d) ht (hown c hc)
  by_cases hany : (commands.map fun c => d.stage done (scan c)).any
      (Replace.contains Prod.fst t.text) = true
  · obtain ⟨s, hs, hcontains⟩ := List.any_eq_true.mp hany
    obtain ⟨c, hc, rfl⟩ := List.mem_map.mp hs
    have hfound : Replace.found Prod.fst t.text (d.stage done (scan c)) ≠ [] := fun hnil => by
      rw [(Replace.contains_eq_false t.text_ne_nil).mpr hnil] at hcontains
      cases hcontains
    obtain ⟨v, hv⟩ := exists_value hres hc ((hturn c hc).2 hfound)
    obtain ⟨x, hx, hstrip⟩ := lookup_of_value hv hmem
    rw [fill, if_pos hany, hx]
    show d.fill _ _ rest _ = _
    rw [hstrip, List.map_map]
    exact congrArg _ (List.map_congr_left fun c hc => (hturn c hc).1)
  · rw [fill, if_neg hany]
    refine congrArg _ (List.map_congr_left fun c hc => ?_)
    have hnot : Replace.contains Prod.fst t.text (d.stage done (scan c)) = false := by
      rw [← Bool.not_eq_true]
      exact fun hcontains => hany (List.any_eq_true.mpr ⟨_, List.mem_map_of_mem hc, hcontains⟩)
    rw [← (hturn c hc).1, Replace.replace_of_found_eq_nil t.text_ne_nil
      ((Replace.contains_eq_false t.text_ne_nil).mp hnot)]

/-- What no value of the loop has does not become more. -/
theorem countP_fill {q : Letter → Bool} {rest : List (Σ _ : Token, Place)}
    (hq : ∀ e ∈ rest, ∀ c, q (c, .value e.1) = false) {texts out : List (List Letter)}
    (h : d.fill Prod.fst (fun t v => v.map (·, .value t)) rest texts = .ok out) :
    List.Forall₂ (fun s s' : List Letter => s'.countP q ≤ s.countP q) texts out := by
  induction rest generalizing texts with
  | nil =>
    obtain rfl := Except.ok.inj h
    exact List.forall₂_same.mpr fun _ _ => le_refl _
  | cons e rest ih =>
    obtain ⟨t, place⟩ := e
    have hrest := fun e he => hq e (List.mem_cons_of_mem _ he)
    rw [fill] at h
    split at h
    · cases hx : lookup d.extra place with
      | error e =>
        rw [hx] at h
        cases h
      | ok x =>
      rw [hx] at h
      have hv : ((PyText.strip x.str).map (·, Origin.value t)).countP q = 0 := by
        rw [List.countP_map, List.countP_eq_zero]
        intro c _
        show ¬q (c, .value t) = true
        rw [hq ⟨t, place⟩ List.mem_cons_self c]
        exact Bool.false_ne_true
      refine (List.forall₂_map_left_iff.mp (ih hrest h)).imp fun s s' hle => hle.trans ?_
      rw [← Replace.countP_replace t.text_ne_nil hv s]
      exact Nat.le_add_right _ _
    · exact ih hrest h

/-- A stretch with a letter that is no token's would take that letter away for good. -/
theorem onlyTokens_of_fill {names : List Token} {rest : List (Σ _ : Token, Place)}
    (hnew : ∀ e ∈ (⟨t, place⟩ :: rest : List (Σ _ : Token, Place)), e.1 ∉ names)
    (hsub : names ⊆ d.var_map_subs.keys)
    (h : d.fill Prod.fst (fun t v => v.map (·, .value t)) (⟨t, place⟩ :: rest)
          (commands.map fun c => d.stage names (scan c)) =
        .ok (commands.map fun c => d.stage d.var_map_subs.keys (scan c)))
    (hc : c ∈ commands) : OnlyTokens t (d.stage names (scan c)) := by
  intro stretch hstretch a ha
  by_contra ho
  have hinside : a ∈ (Replace.found Prod.fst t.text (d.stage names (scan c))).flatten :=
    List.mem_flatten.mpr ⟨stretch, hstretch, ha⟩
  have hq : ∀ e ∈ (⟨t, place⟩ :: rest : List (Σ _ : Token, Place)), ∀ b : Char,
      decide (Origin.value e.1 = a.2) = false := fun e he b => decide_eq_false fun heq => by
    have hmem := (Replace.flatten_found_sublist t.text_ne_nil _).subset hinside
    obtain ⟨b, o⟩ := a
    obtain rfl : Origin.value e.1 = o := heq
    exact hnew e he (mem_of_mem_stage hmem)
  have hany : (commands.map fun c => d.stage names (scan c)).any
      (Replace.contains Prod.fst t.text) = true := by
    refine List.any_eq_true.mpr ⟨_, List.mem_map_of_mem hc, ?_⟩
    rw [← Bool.not_eq_false, Replace.contains_eq_false t.text_ne_nil]
    exact List.ne_nil_of_mem hstretch
  rw [fill, if_pos hany] at h
  cases hx : lookup d.extra place with
  | error e =>
    rw [hx] at h
    cases h
  | ok x =>
    rw [hx] at h
    have hv : ((PyText.strip x.str).map (·, Origin.value t)).countP
        (fun b => decide (b.2 = a.2)) = 0 := by
      rw [List.countP_map, List.countP_eq_zero]
      intro b _
      show ¬decide (Origin.value t = a.2) = true
      rw [hq ⟨t, place⟩ List.mem_cons_self b]
      exact Bool.false_ne_true
    have hloop := countP_fill (q := fun b => decide (b.2 = a.2))
      (fun e he => hq e (List.mem_cons_of_mem _ he)) h
    rw [List.map_map, List.forall₂_map_left_iff, List.forall₂_map_right_iff,
      List.forall₂_same] at hloop
    have hle := hloop c hc
    have hmore : (d.stage names (scan c)).countP (fun b : Letter => decide (b.2 = a.2)) ≤
        (d.stage d.var_map_subs.keys (scan c)).countP (fun b : Letter => decide (b.2 = a.2)) :=
      countP_stage_le hsub ho
    have htaken : (Replace.replace Prod.fst t.text _ (d.stage names (scan c))).countP _ +
        (Replace.found Prod.fst t.text (d.stage names (scan c))).flatten.countP _ = _ :=
      Replace.countP_replace t.text_ne_nil hv (d.stage names (scan c))
    have hpos : 0 < (Replace.found Prod.fst t.text (d.stage names (scan c))).flatten.countP
        (fun b => decide (b.2 = a.2)) :=
      List.countP_pos_iff.mpr ⟨a, hinside, decide_eq_true rfl⟩
    exact absurd (hmore.trans hle) (Nat.not_le.mpr (htaken ▸ Nat.lt_add_of_pos_right hpos))

/-- Where no turn disturbs, the loop fills the commands in as in one step. -/
theorem fill_eq_stage (hres : d.unresolved commands = .ok []) {names : List Token}
    {rest : List (Σ _ : Token, Place)} (hmem : ∀ e ∈ rest, e ∈ d.var_map_subs.entries)
    (hall : ∀ u, u ∈ d.var_map_subs.keys ↔ u ∈ names ∨ u ∈ rest.map Sigma.fst)
    (hnodup : (rest.map Sigma.fst).Nodup) (hnew : ∀ e ∈ rest, e.1 ∉ names) :
    d.fill Prod.fst (fun t v => v.map (·, .value t)) rest
          (commands.map fun c => d.stage names (scan c)) =
        .ok (commands.map fun c => d.stage d.var_map_subs.keys (scan c)) ↔
      ∀ before t place after, rest = before ++ ⟨t, place⟩ :: after → ∀ c ∈ commands,
        OnlyTokens t (d.stage (names ++ before.map Sigma.fst) (scan c)) := by
  induction rest generalizing names with
  | nil =>
    have hsame : (commands.map fun c => d.stage names (scan c)) =
        commands.map fun c => d.stage d.var_map_subs.keys (scan c) :=
      List.map_congr_left fun c _ => stage_congr fun u => by
        rw [hall u]
        exact ⟨.inl, fun h => h.elim id fun h => (List.not_mem_nil h).elim⟩
    refine iff_of_true (congrArg _ hsame) fun before t place after h => ?_
    cases before <;> cases h
  | cons e rest ih =>
    obtain ⟨t, place⟩ := e
    have ht : t ∉ names := hnew _ List.mem_cons_self
    obtain ⟨htrest, hnodup'⟩ := List.nodup_cons.mp hnodup
    have hall' : ∀ u, u ∈ d.var_map_subs.keys ↔ u ∈ t :: names ∨ u ∈ rest.map Sigma.fst := by
      intro u
      rw [hall u, List.map_cons, List.mem_cons, List.mem_cons]
      tauto
    have hnew' : ∀ e ∈ rest, e.1 ∉ t :: names := fun e he hmem' =>
      (List.mem_cons.mp hmem').elim (fun h => htrest (List.mem_map.mpr ⟨e, he, h⟩))
        (hnew e (List.mem_cons_of_mem _ he))
    have ih' := ih (fun e he => hmem e (List.mem_cons_of_mem _ he)) hall' hnodup' hnew'
    have hnames : ∀ (before : List (Σ _ : Token, Place)) c,
        d.stage (t :: names ++ before.map Sigma.fst) (scan c) =
          d.stage (names ++ ((⟨t, place⟩ : Σ _ : Token, Place) :: before).map Sigma.fst)
            (scan c) := fun before c => stage_congr fun u => by
      simp only [List.map_cons, List.cons_append, List.mem_cons, List.mem_append]
      tauto
    constructor
    · intro h
      have hown : ∀ c ∈ commands, OnlyTokens t (d.stage names (scan c)) := by
        refine fun c hc => onlyTokens_of_fill hnew (fun u hu => (hall u).mpr (.inl hu)) h hc
      rw [fill_step hres (hmem _ List.mem_cons_self) ht hown] at h
      intro before u place' after hsplit c hc
      cases before with
      | nil =>
        obtain ⟨he, rfl⟩ := List.cons.inj hsplit
        cases he
        rw [List.map_nil, List.append_nil]
        exact hown c hc
      | cons e before =>
        obtain ⟨rfl, rfl⟩ := List.cons.inj hsplit
        rw [← hnames]
        exact ih'.mp h before u place' after rfl c hc
    · intro h
      have hown : ∀ c ∈ commands, OnlyTokens t (d.stage names (scan c)) := fun c hc => by
        have := h [] t place rest rfl c hc
        rwa [List.map_nil, List.append_nil] at this
      rw [fill_step hres (hmem _ List.mem_cons_self) ht hown, ih']
      intro before u place' after hsplit c hc
      rw [hnames]
      exact h (⟨t, place⟩ :: before) u place' after (by rw [hsplit]; rfl) c hc

end Resolved

/-! ## Texts and origins -/

theorem stage_nil_fst (c : Str) : (d.stage [] (scan c)).map Prod.fst = c := by
  have hpieces : (d.stage [] (scan c)).map Prod.fst =
      (scan c).flatMap (Sum.elim (fun c => [c]) Token.text) := by
    rw [stage, List.map_flatMap]
    refine congrArg (List.flatMap · (scan c)) (funext fun p => ?_)
    rcases p with b | u
    · rfl
    · simp [letters, Function.comp_def]
  rw [hpieces, flatMap_scan]

theorem stage_keys_fst {commands : List Str} (hres : d.unresolved commands = .ok []) {c : Str}
    (hc : c ∈ commands) :
    (d.stage d.var_map_subs.keys (scan c)).map Prod.fst = d.substitute c := by
  rw [stage, List.map_flatMap, substitute]
  refine List.flatMap_congr fun p hp => ?_
  rcases p with b | u
  · rfl
  · obtain ⟨v, hv⟩ := exists_value hres hc hp
    simp [letters, mem_keys_of_value hv, Function.comp_def]

/-- The texts do not depend on the origins. -/
theorem fill_map (rest : List (Σ _ : Token, Place)) (texts : List (List Letter)) :
    d.fill id (fun _ v => v) rest (texts.map (List.map Prod.fst)) =
      (d.fill Prod.fst (fun t v => v.map (·, .value t)) rest texts).map
        (List.map (List.map Prod.fst)) := by
  induction rest generalizing texts with
  | nil => rfl
  | cons e rest ih =>
    obtain ⟨t, place⟩ := e
    have hany : (texts.map (List.map Prod.fst)).any (Replace.contains id t.text) =
        texts.any (Replace.contains Prod.fst t.text) := by
      rw [List.any_map]
      exact congrArg texts.any (funext fun s => Replace.contains_map (fun _ => rfl) s)
    rw [fill, fill, hany]
    split
    · cases lookup d.extra place with
      | error e => rfl
      | ok x =>
        show d.fill id _ rest _ = (d.fill Prod.fst _ rest _).map _
        rw [← ih, List.map_map, List.map_map]
        refine congrArg _ (List.map_congr_left fun s _ => ?_)
        have hv : ((PyText.strip x.str).map (·, Origin.value t)).map Prod.fst =
            PyText.strip x.str := by
          simp [Function.comp_def]
        have hmap : Replace.replace id t.text
            (((PyText.strip x.str).map (·, Origin.value t)).map Prod.fst) (s.map Prod.fst) =
            (Replace.replace Prod.fst t.text _ s).map Prod.fst :=
          Replace.replace_map (fun _ => rfl) s
        rw [hv] at hmap
        exact hmap
    · exact ih texts

theorem map_traced (commands : List Str) :
    d.fill id (fun _ v => v) d.var_map_subs.entries commands =
      (d.traced commands).map (List.map (List.map Prod.fst)) := by
  have hread : (commands.map fun c => d.stage [] (scan c)).map (List.map Prod.fst) = commands := by
    rw [List.map_map]
    exact (List.map_congr_left fun c _ => stage_nil_fst c).trans (List.map_id _)
  rw [traced, ← fill_map, hread]

/-! ## Another order -/

namespace Reorders

variable {d' : Device}

theorem value_for (h : d.Reorders d') : d'.value_for = d.value_for := by
  funext t
  rw [Device.value_for, Device.value_for, AList.perm_lookup h.1, h.2]

theorem problemsOf (h : d.Reorders d') (seen ts : List Token) :
    d'.problemsOf seen ts = d.problemsOf seen ts := by
  induction ts generalizing seen with
  | nil => rfl
  | cons t ts ih => simp only [Device.problemsOf, h.value_for, ih]

theorem unresolved (h : d.Reorders d') : d'.unresolved = d.unresolved :=
  funext fun _ => h.problemsOf _ _

theorem value (h : d.Reorders d') : d'.value = d.value := by
  funext t
  rw [Device.value, Device.value, h.value_for]

theorem stage (h : d.Reorders d') : d'.stage = d.stage := by
  funext done ps
  refine congrArg (List.flatMap · ps) (funext fun p => ?_)
  rcases p with c | u
  · rfl
  · simp only [letters, h.value]

omit [Printable] in
theorem mem_keys (h : d.Reorders d') (u : Token) :
    u ∈ d'.var_map_subs.keys ↔ u ∈ d.var_map_subs.keys :=
  (h.1.map Sigma.fst).mem_iff

end Reorders

/-- **When the commands are filled in as in one step.** -/
theorem simultaneous_iff (d : Device) (commands : List Str) :
    (∃ problems, d.unresolved commands = .ok problems) ∧
      (d.Simultaneous commands ↔
        (d.unresolved commands = .ok [] →
          ∀ d', d.Reorders d' → d'.Undisturbed commands)) := by
  refine ⟨problemsOf_ok _ _, ?_⟩
  have hturns : ∀ d', d.Reorders d' → d.unresolved commands = .ok [] →
      (d'.traced commands = .ok (commands.map fun c => d.stage d.var_map_subs.keys (scan c)) ↔
        d'.Undisturbed commands) := by
    intro d' h hres
    have hres' : d'.unresolved commands = .ok [] := h.unresolved ▸ hres
    have hkeys : (commands.map fun c => d.stage d.var_map_subs.keys (scan c)) =
        commands.map fun c => d'.stage d'.var_map_subs.keys (scan c) :=
      List.map_congr_left fun c _ => by
        rw [h.stage]
        exact stage_congr fun u => (h.mem_keys u).symm
    rw [hkeys, traced, fill_eq_stage hres' (fun _ he => he) (by simp [AList.keys, List.keys])
      d'.var_map_subs.nodupKeys (by simp)]
    rfl
  have htexts : ∀ d', d.Reorders d' → d.unresolved commands = .ok [] →
      d'.traced commands = .ok (commands.map fun c => d.stage d.var_map_subs.keys (scan c)) →
      d'.commands_for commands = d.simultaneous commands := by
    intro d' h hres htraced
    rw [commands_for, simultaneous, h.unresolved, hres]
    show d'.fill id _ _ commands = .ok (commands.map d.substitute)
    rw [map_traced, htraced]
    show Except.ok ((commands.map _).map _) = _
    rw [List.map_map]
    exact congrArg _ (List.map_congr_left fun c hc => stage_keys_fst hres hc)
  constructor
  · exact fun hsim hres d' h => (hturns d' h hres).mp ((hsim d' h).2 hres)
  · intro hund d' h
    by_cases hres : d.unresolved commands = .ok []
    · have htraced := (hturns d' h hres).mpr (hund hres d' h)
      exact ⟨htexts d' h hres htraced, fun _ => htraced⟩
    · refine ⟨?_, fun hres' => absurd hres' hres⟩
      obtain ⟨problems, hproblems⟩ := problemsOf_ok (d := d) [] (commands.flatMap findall)
      have hun : d.unresolved commands = .ok problems := hproblems
      have hne : problems ≠ [] := fun hnil => hres (hnil ▸ hun)
      rw [commands_for, simultaneous, h.unresolved, hun]
      show (if problems = [] then _ else _) = if problems = [] then _ else _
      rw [if_neg hne, if_neg hne]

/-! ## Two that go wrong -/

/-- A token of one letter. -/
def oneLetter (c : Char) (h : isWord c = true) : Token where
  inner := [c]
  word _ hb := List.mem_singleton.mp hb ▸ h
  short := ⟨Nat.le_refl 1, Nat.le_of_ble_eq_true rfl⟩

/-- `$$A$$`, whose value is the text `$$B$$`, is mapped before `$$B$$`, whose value is `x`. -/
def nested : Device where
  var_map_subs :=
    (AList.singleton (oneLetter 'B' rfl) ⟨['b'], none⟩).insert (oneLetter 'A' rfl) ⟨['a'], none⟩
  extra := (AList.singleton ['b'] (.text ['x'])).insert ['a'] (.text "$$B$$".toList)

/-- `$$B$$` is mapped to an attribute without a value, before `$$A$$`, which has one. -/
def overlapping : Device where
  var_map_subs :=
    (AList.singleton (oneLetter 'A' rfl) ⟨['a'], none⟩).insert (oneLetter 'B' rfl) ⟨['b'], none⟩
  extra := AList.singleton ['a'] (.text ['x'])

omit [Printable] in
/-- A value is substituted; and a token that the pattern did not find is looked up. -/
theorem not_simultaneous :
    letI := Printable.ascii
    (nested.commands_for ["$$A$$".toList] = .ok [['x']] ∧
      nested.simultaneous ["$$A$$".toList] = .ok ["$$B$$".toList] ∧
      ¬nested.Simultaneous ["$$A$$".toList]) ∧
    overlapping.unresolved ["$$A$$B$$".toList] = .ok [] ∧
      overlapping.commands_for ["$$A$$B$$".toList] = .error (.key ['b']) ∧
      ¬overlapping.Simultaneous ["$$A$$B$$".toList] := by
  let _ := Printable.ascii
  have hnested : nested.commands_for ["$$A$$".toList] = .ok [['x']] := by decide +kernel
  have hstep : nested.simultaneous ["$$A$$".toList] = .ok ["$$B$$".toList] := by decide +kernel
  have hraises : overlapping.commands_for ["$$A$$B$$".toList] = .error (.key ['b']) := by
    decide +kernel
  have hstep' : overlapping.simultaneous ["$$A$$B$$".toList] = .ok ["xB$$".toList] := by
    decide +kernel
  refine ⟨⟨hnested, hstep, fun h => ?_⟩, by decide +kernel, hraises, fun h => ?_⟩
  · have heq := (h nested ⟨.refl _, rfl⟩).1
    rw [hnested, hstep] at heq
    exact absurd heq (by decide +kernel)
  · have heq := (h overlapping ⟨.refl _, rfl⟩).1
    rw [hraises, hstep'] at heq
    cases heq

end Device
end Rollout
end NetRollout

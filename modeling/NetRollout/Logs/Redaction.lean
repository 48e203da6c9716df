import NetRollout.Logs.Redact

/-!
# What redaction hides

Between two plain tokens --- neither keywords nor types --- a line has runs of keywords
and type words.  The loop starts each run afresh, and never jumps past a plain token
unless it hides it (`values_append`), so whether the token after a run is hidden is
decided by the run alone.

The loop reads a run group by group: a keyword, more keywords, type words.  A keyword
that comes after the group's type words is taken for the group's value, and ends it.  The
token after the run is hidden if a group is still open there, and that is more than
ordinary words (`Told`).  So a keyword after a type word can cost the secret that follows
(`not_complete_typedKeyword`): a line's secrets are hidden exactly if each run that
announces one tells so in its last group (`complete_iff`).
-/

namespace NetRollout
namespace Logs

open PyText

section Classes

variable [Unicode]

/-- A keyword whose next value is a secret. -/
def tells (token : Str) : Bool := word token ∈ SECRET_WORDS || word token ∈ SECRET_AFTER

theorem isName_of_isType {t : Str} (h : isType t = true) : isName t = false := by
  have hwords : ∀ w ∈ SECRET_WORDS ++ SECRET_IF_TYPED, w ∉ TYPE_WORDS ∧ 2 < w.length := by decide
  refine decide_eq_false fun hname => ?_
  obtain ⟨htype, hlength⟩ := hwords _ hname
  simp only [isType, Bool.or_eq_true, Bool.and_eq_true, decide_eq_true_eq] at h
  rcases h with h | ⟨-, h⟩
  · exact htype h
  · omega

theorem isName_of_isKeyword {t : Str} (h : isKeyword t = true) (htype : isType t = false) :
    isName t = true := by
  have hafter : ∀ w ∈ SECRET_AFTER, w ∈ TYPE_WORDS := by decide
  rcases Bool.or_eq_true_iff.mp h with h | h
  · exact h
  · rw [isType, decide_eq_true (hafter _ (of_decide_eq_true h)), Bool.true_or] at htype
    cases htype

theorem isPlain_iff {t : Str} : isPlain t = true ↔ isKeyword t = false ∧ isType t = false := by
  simp [isPlain]

theorem isName_of_isPlain {t : Str} (h : isPlain t = true) : isName t = false :=
  (Bool.or_eq_false_iff.mp (isPlain_iff.mp h).1).1

theorem isKeyword_of_ifTyped {t : Str} (h : word t ∈ SECRET_IF_TYPED) : isKeyword t = true := by
  rw [isKeyword, isName, decide_eq_true (List.mem_append_right _ h), Bool.true_or]

theorem isKeyword_of_tells {t : Str} (h : tells t = true) : isKeyword t = true := by
  rcases Bool.or_eq_true_iff.mp h with h | h
  · rw [isKeyword, isName, decide_eq_true (List.mem_append_left _ (of_decide_eq_true h)),
      Bool.true_or]
  · rw [isKeyword, h, Bool.or_true]

theorem not_ifTyped_of_isType {t : Str} (h : isType t = true) : word t ∉ SECRET_IF_TYPED := by
  intro hif
  have hname := isName_of_isType h
  rw [isName, decide_eq_true (List.mem_append_right _ hif)] at hname
  cases hname

end Classes

/-! ## One round of the loop -/

section Round

variable [Unicode]

/-- The token that a keyword's names and types lead to. -/
theorem choice_of_run {t v : Str} {names types post : List Str} (ht : isKeyword t = true)
    (hnames : ∀ x ∈ names, isName x = true) (htypes : ∀ x ∈ types, isType x = true)
    (hv : isType v = false) (hfirst : types = [] → isName v = false) :
    choice t (names ++ (types ++ v :: post)) =
      if word t ∈ SECRET_IF_TYPED ∧ ¬ (word t ∈ SECRET_AFTER ∨ types ≠ []) ∧ quoted v = false
      then .pass else .value (names.length + types.length) := by
  have hname : (names ++ (types ++ v :: post)).takeWhile isName = names := by
    rw [List.takeWhile_append_of_pos hnames]
    cases types with
    | nil =>
      rw [List.nil_append, List.takeWhile_cons_of_neg (by rw [hfirst rfl]; decide),
        List.append_nil]
    | cons x types =>
      rw [List.cons_append, List.takeWhile_cons_of_neg, List.append_nil]
      rw [isName_of_isType (htypes x (List.mem_cons_self ..))]
      decide
  have htype : (types ++ v :: post).takeWhile isType = types := by
    rw [List.takeWhile_append_of_pos htypes, List.takeWhile_cons_of_neg (by rw [hv]; decide),
      List.append_nil]
  have hget : (names ++ (types ++ v :: post))[names.length + types.length]? = some v := by
    rw [← List.append_assoc, ← List.length_append, List.getElem?_append_right le_rfl,
      Nat.sub_self, List.getElem?_cons_zero]
  rw [choice, if_pos ht]
  simp only [hname, List.drop_left, htype, hget, List.length_pos_iff]

omit [Unicode] in
theorem length_takeWhile_le {α : Type} {q : α → Bool} {p : α} (hp : q p = false) (a b : List α) :
    ((a ++ p :: b).takeWhile q).length ≤ a.length := by
  induction a with
  | nil => rw [List.nil_append, List.takeWhile_cons_of_neg (by rw [hp]; decide), List.length_nil]
  | cons x a ih =>
    rw [List.cons_append, List.takeWhile_cons]
    split
    · exact Nat.succ_le_succ ih
    · exact Nat.zero_le _

/-- A keyword never jumps past a plain token. -/
theorem choice_before {t p : Str} (hp : isPlain p = true) (a b : List Str) :
    choice t (a ++ p :: b) = .pass ∨ ∃ n ≤ a.length, choice t (a ++ p :: b) = .value n := by
  have hnames := length_takeWhile_le (isName_of_isPlain hp) a b
  have htypes : (((a ++ p :: b).drop ((a ++ p :: b).takeWhile isName).length).takeWhile
      isType).length ≤ a.length - ((a ++ p :: b).takeWhile isName).length := by
    rw [List.drop_append_of_le_length hnames, ← List.length_drop]
    exact length_takeWhile_le (isPlain_iff.mp hp).2 _ _
  unfold choice
  split
  · dsimp only
    generalize ((a ++ p :: b).takeWhile isName).length = n at hnames htypes
    generalize (((a ++ p :: b).drop n).takeWhile isType).length = m at htypes
    have hlt : n + m < (a ++ p :: b).length := by
      rw [List.length_append, List.length_cons]
      omega
    rw [List.getElem?_eq_getElem hlt]
    dsimp only
    split
    · exact .inl rfl
    · exact .inr ⟨n + m, by omega, rfl⟩
  · exact .inl rfl

theorem choice_of_not_keyword {t : Str} (h : isKeyword t = false) (after : List Str) :
    choice t after = .pass :=
  if_neg (by rw [h]; decide)

/-- **The loop starts afresh after a plain token.** -/
theorem values_append {pre : List Match} (rest : List Match)
    (hlast : ∀ p ∈ pre.getLast?, isPlain p.text = true) {skip : Nat} (hskip : skip ≤ pre.length) :
    ∃ vs, (∀ v ∈ vs, v ∈ pre) ∧ values skip (pre ++ rest) = vs ++ values 0 rest := by
  induction pre generalizing skip with
  | nil =>
    obtain rfl : skip = 0 := Nat.le_zero.mp hskip
    exact ⟨[], nofun, rfl⟩
  | cons t pre ih =>
    have hlast' : ∀ p ∈ pre.getLast?, isPlain p.text = true := by
      intro p hp
      refine hlast p ?_
      cases pre with
      | nil => cases hp
      | cons u pre => exact hp
    have hon {skip : Nat} (hskip : skip ≤ pre.length) : ∃ vs, (∀ v ∈ vs, v ∈ t :: pre) ∧
        values skip (pre ++ rest) = vs ++ values 0 rest := by
      obtain ⟨vs, hvs, heq⟩ := ih hlast' hskip
      exact ⟨vs, fun v hv => List.mem_cons_of_mem t (hvs v hv), heq⟩
    rw [List.cons_append]
    match skip with
    | skip + 2 =>
      rw [values]
      exact hon (Nat.le_of_succ_le_succ hskip)
    | 1 =>
      obtain ⟨vs, hvs, heq⟩ := hon (Nat.zero_le _)
      refine ⟨t :: vs, ?_, by rw [values, heq, List.cons_append]⟩
      rintro v (_ | ⟨_, hv⟩)
      · exact List.mem_cons_self ..
      · exact hvs v hv
    | 0 =>
      rw [values]
      rcases List.eq_nil_or_concat' pre with hnil | ⟨init, p, rfl⟩
      · subst hnil
        have ht := hlast t rfl
        rw [choice_of_not_keyword (isPlain_iff.mp ht).1]
        exact hon (Nat.zero_le _)
      · have hp : isPlain p.text = true := hlast' p (by simp)
        have htexts : ((init ++ [p]) ++ rest).map Match.text =
            init.map Match.text ++ p.text :: rest.map Match.text := by simp
        rw [htexts]
        obtain h | ⟨n, hn, h⟩ := choice_before (t := t.text) hp (init.map Match.text)
          (rest.map Match.text)
        · rw [h]
          exact hon (Nat.zero_le _)
        · rw [h]
          rw [List.length_map] at hn
          exact hon (by rw [List.length_append]; exact Nat.succ_le_succ hn)

/-- Jumping over tokens to a value. -/
theorem values_jump (a : List Match) (v : Match) (rest : List Match) :
    values (a.length + 1) (a ++ v :: rest) = v :: values 0 rest := by
  induction a with
  | nil => rfl
  | cons t a ih => exact ih

end Round

/-! ## A run of keywords and types -/

section Run

variable [Unicode]

/-- A token of a run, after those of the group still open: a keyword opens one; one right
after the group's type words is taken for its value and ends it. -/
def groupStep (group : List Str) (t : Str) : List Str :=
  match group with
  | [] => if isKeyword t then [t] else []
  | k :: more => if isName t && more.getLast?.any isType then [] else k :: (more ++ [t])

/-- The group still open at the end of a run. -/
def openGroup (run : List Str) : List Str := run.foldl groupStep []

/-- The run tells that the token after it is a secret. -/
def Told (run : List Str) (v : Str) : Prop :=
  openGroup run ≠ [] ∧ (quoted v = true ∨ ∃ t ∈ openGroup run, word t ∉ SECRET_IF_TYPED)

theorem openGroup_cons_of_not_keyword {t : Str} (h : isKeyword t = false) (run : List Str) :
    openGroup (t :: run) = openGroup run := by
  rw [openGroup, List.foldl_cons, groupStep, if_neg (by rw [h]; decide), openGroup]

/-- A group grows by names, and then by types. -/
theorem foldl_groupStep_names {k : Str} {names : List Str} (h : ∀ x ∈ names, isName x = true)
    {more : List Str} (hmore : ∀ x ∈ more, isType x = false) :
    names.foldl groupStep (k :: more) = k :: (more ++ names) := by
  induction names generalizing more with
  | nil => rw [List.foldl_nil, List.append_nil]
  | cons x names ih =>
    have hx := h x (List.mem_cons_self ..)
    have hlast : more.getLast?.any isType = false := by
      cases hget : more.getLast? with
      | none => rfl
      | some y => exact hmore y (List.mem_of_getLast? hget)
    rw [List.foldl_cons, groupStep, hlast, Bool.and_false, if_neg Bool.false_ne_true,
      ih (fun y hy => h y (List.mem_cons_of_mem _ hy)), List.append_assoc, List.singleton_append]
    intro y hy
    rcases List.mem_append.mp hy with hy | hy
    · exact hmore y hy
    · rw [List.mem_singleton] at hy
      subst hy
      exact Bool.eq_false_iff.mpr fun htype => by
        rw [isName_of_isType htype] at hx
        cases hx

theorem foldl_groupStep_types {k : Str} {types : List Str} (h : ∀ x ∈ types, isType x = true)
    (more : List Str) : types.foldl groupStep (k :: more) = k :: (more ++ types) := by
  induction types generalizing more with
  | nil => rw [List.foldl_nil, List.append_nil]
  | cons x types ih =>
    have hx := h x (List.mem_cons_self ..)
    rw [List.foldl_cons, groupStep, isName_of_isType hx, Bool.false_and,
      if_neg Bool.false_ne_true, ih (fun y hy => h y (List.mem_cons_of_mem _ hy)),
      List.append_assoc, List.singleton_append]

/-- A keyword, its names and its types are one group. -/
theorem openGroup_group {t : Str} {names types : List Str} (ht : isKeyword t = true)
    (hnames : ∀ x ∈ names, isName x = true) (htypes : ∀ x ∈ types, isType x = true) :
    openGroup (t :: (names ++ types)) = t :: (names ++ types) := by
  rw [openGroup, List.foldl_cons, groupStep, if_pos ht, List.foldl_append,
    @foldl_groupStep_names _ _ _ hnames [] (List.forall_mem_nil _), foldl_groupStep_types htypes,
    List.nil_append]

/-- A keyword after a group's types ends it. -/
theorem openGroup_eaten {t x : Str} {names types : List Str} (ht : isKeyword t = true)
    (hnames : ∀ y ∈ names, isName y = true) (htypes : ∀ y ∈ types, isType y = true)
    (hne : types ≠ []) (hx : isName x = true) (run : List Str) :
    openGroup (t :: (names ++ (types ++ x :: run))) = openGroup run := by
  have hlast : (names ++ types).getLast?.any isType = true := by
    rw [List.getLast?_append_of_ne_nil _ hne, List.getLast?_eq_getLast_of_ne_nil hne]
    exact htypes _ (List.getLast_mem hne)
  rw [openGroup, List.foldl_cons, groupStep, if_pos ht, List.foldl_append,
    @foldl_groupStep_names _ _ _ hnames [] (List.forall_mem_nil _), List.foldl_append,
    foldl_groupStep_types htypes, List.nil_append, List.foldl_cons, groupStep, hx, hlast,
    Bool.and_self, if_pos rfl, openGroup]

/-- What stands after a keyword in a run: names, types, and then the end of the run or a
keyword after a type. -/
theorem run_cases (run : List Str) (h : ∀ x ∈ run, isPlain x = false) :
    ∃ names types more, run = names ++ (types ++ more) ∧ (∀ x ∈ names, isName x = true) ∧
      (∀ x ∈ types, isType x = true) ∧
        (more = [] ∨ types ≠ [] ∧ ∃ x rest, more = x :: rest ∧ isName x = true ∧ isType x = false) := by
  refine ⟨run.takeWhile isName, (run.dropWhile isName).takeWhile isType,
    (run.dropWhile isName).dropWhile isType, ?_, fun x hx => List.mem_takeWhile_imp hx,
    fun x hx => List.mem_takeWhile_imp hx, ?_⟩
  · rw [List.takeWhile_append_dropWhile, List.takeWhile_append_dropWhile]
  · cases hmore : (run.dropWhile isName).dropWhile isType with
    | nil => exact .inl rfl
    | cons x rest =>
      right
      have hx : isType x = false := by
        have hhead := List.head?_dropWhile_not isType (run.dropWhile isName)
        rw [hmore] at hhead
        simpa using hhead
      have hmem : x ∈ run := by
        refine (List.dropWhile_suffix isName).subset ((List.dropWhile_suffix isType).subset ?_)
        rw [hmore]
        exact List.mem_cons_self ..
      have hkeyword : isKeyword x = true := by
        have hplain := h x hmem
        rw [isPlain, hx, Bool.not_false, Bool.and_true, Bool.not_eq_false'] at hplain
        exact hplain
      have hname := isName_of_isKeyword hkeyword hx
      refine ⟨fun hnil => ?_, x, rest, rfl, hname, hx⟩
      have hhead := List.head?_dropWhile_not isName run
      have hall := List.takeWhile_append_dropWhile (p := isType) (l := run.dropWhile isName)
      rw [hnil, hmore, List.nil_append] at hall
      rw [← hall] at hhead
      simp only [List.head?_cons] at hhead
      rw [hname] at hhead
      exact absurd hhead (by decide)

theorem isKeyword_of_isName {x : Str} (h : isName x = true) : isKeyword x = true := by
  rw [isKeyword, h, Bool.true_or]

/-- A run of names is one group. -/
theorem openGroup_names {names : List Str} (h : ∀ x ∈ names, isName x = true) :
    openGroup names = names := by
  cases names with
  | nil => rfl
  | cons k names =>
    have hgroup := @openGroup_group _ k names [] (isKeyword_of_isName (h k (List.mem_cons_self ..)))
      (fun x hx => h x (List.mem_cons_of_mem _ hx)) (List.forall_mem_nil _)
    rwa [List.append_nil] at hgroup

/-- An ordinary word with no type after it leaves it to the names after it. -/
theorem told_cons_ifTyped {t v : Str} {names : List Str} (ht : word t ∈ SECRET_IF_TYPED)
    (hnames : ∀ x ∈ names, isName x = true) (hv : quoted v = false) :
    Told (t :: names) v ↔ Told names v := by
  have hgroup := @openGroup_group _ t names [] (isKeyword_of_ifTyped ht) hnames
    (List.forall_mem_nil _)
  rw [List.append_nil] at hgroup
  rw [Told, Told, hgroup, openGroup_names hnames]
  constructor
  · rintro ⟨-, hquoted | ⟨x, hx, hword⟩⟩
    · rw [hv] at hquoted
      cases hquoted
    · rcases List.mem_cons.mp hx with rfl | hx
      · exact absurd ht hword
      · exact ⟨List.ne_nil_of_mem hx, .inr ⟨x, hx, hword⟩⟩
  · rintro ⟨-, hquoted | ⟨x, hx, hword⟩⟩
    · rw [hv] at hquoted
      cases hquoted
    · exact ⟨List.cons_ne_nil _ _, .inr ⟨x, List.mem_cons_of_mem _ hx, hword⟩⟩

theorem told_group {t v : Str} {names types : List Str} (ht : isKeyword t = true)
    (hnames : ∀ x ∈ names, isName x = true) (htypes : ∀ x ∈ types, isType x = true)
    (h : ¬ (word t ∈ SECRET_IF_TYPED ∧ ¬ (word t ∈ SECRET_AFTER ∨ types ≠ []) ∧
      quoted v = false)) : Told (t :: (names ++ types)) v := by
  rw [Told, openGroup_group ht hnames htypes]
  refine ⟨List.cons_ne_nil _ _, ?_⟩
  by_cases hif : word t ∈ SECRET_IF_TYPED
  · by_cases hquoted : quoted v = true
    · exact .inl hquoted
    · have hafter : word t ∉ SECRET_AFTER := by
        have hdisjoint : ∀ w ∈ SECRET_IF_TYPED, w ∉ SECRET_AFTER := by decide
        exact hdisjoint _ hif
      have hne : types ≠ [] := by
        intro hnil
        exact h ⟨hif, not_or.mpr ⟨hafter, not_not.mpr hnil⟩, Bool.eq_false_iff.mpr hquoted⟩
      obtain ⟨x, hx⟩ := List.exists_mem_of_ne_nil types hne
      exact .inr ⟨x, List.mem_cons_of_mem _ (List.mem_append_right _ hx),
        not_ifTyped_of_isType (htypes x hx)⟩
  · exact .inr ⟨t, List.mem_cons_self .., hif⟩

/-- **What the loop does with a run** and the plain token after it. -/
theorem values_run {run : List Match} (hrun : ∀ m ∈ run, isPlain m.text = false) {v : Match}
    (hv : isPlain v.text = true) (post : List Match) :
    ∃ vs, (∀ u ∈ vs, u ∈ run) ∧ ∃ hidden : List Match,
      values 0 (run ++ v :: post) = vs ++ (hidden ++ values 0 post) ∧
        (Told (run.map Match.text) v.text ∧ hidden = [v] ∨
          ¬ Told (run.map Match.text) v.text ∧ hidden = []) := by
  induction hn : run.length using Nat.strong_induction_on generalizing run with
  | _ n ih =>
    cases run with
    | nil =>
      refine ⟨[], nofun, [], ?_, .inr ⟨fun h => h.1 rfl, rfl⟩⟩
      rw [List.nil_append, values, choice_of_not_keyword (isPlain_iff.mp hv).1]
      rfl
    | cons t run =>
      have hrest : ∀ m ∈ run, isPlain m.text = false := fun m hm =>
        hrun m (List.mem_cons_of_mem t hm)
      rw [List.length_cons] at hn
      rw [List.cons_append, values, List.map_cons]
      cases ht : isKeyword t.text with
      | false =>
        obtain ⟨vs, hvs, hidden, heq, htold⟩ := ih run.length (by omega) hrest rfl
        rw [choice_of_not_keyword ht]
        refine ⟨vs, fun u hu => List.mem_cons_of_mem t (hvs u hu), hidden, heq, ?_⟩
        rwa [Told, openGroup_cons_of_not_keyword ht]
      | true =>
        obtain ⟨names, types, more, hsplit, hnames, htypes, hmore⟩ := run_cases
          (run.map Match.text) fun x hx => by
            obtain ⟨m, hm, rfl⟩ := List.mem_map.mp hx
            exact hrest m hm
        rcases hmore with rfl | ⟨hne, x, rest, rfl, hname, htype⟩
        · rw [List.append_nil] at hsplit
          have hround := @choice_of_run _ _ _ _ _ (post.map Match.text) ht hnames htypes
            (isPlain_iff.mp hv).2 fun _ => isName_of_isPlain hv
          have hlength : names.length + types.length = run.length := by
            rw [← List.length_append, ← hsplit, List.length_map]
          rw [List.map_append, List.map_cons, hsplit, List.append_assoc, hround]
          by_cases hskip : word t.text ∈ SECRET_IF_TYPED ∧
              ¬ (word t.text ∈ SECRET_AFTER ∨ types ≠ []) ∧ quoted v.text = false
          · rw [if_pos hskip]
            obtain ⟨hif, hnot, hquoted⟩ := hskip
            obtain rfl : types = [] := not_not.mp (not_or.mp hnot).2
            rw [List.append_nil] at hsplit
            obtain ⟨vs, hvs, hidden, heq, htold⟩ := ih run.length (by omega) hrest rfl
            refine ⟨vs, fun u hu => List.mem_cons_of_mem t (hvs u hu), hidden, heq, ?_⟩
            rw [hsplit] at htold
            rwa [List.append_nil, told_cons_ifTyped hif hnames hquoted]
          · rw [if_neg hskip, hlength]
            refine ⟨[], nofun, [v], ?_, .inl ⟨told_group ht hnames htypes hskip, rfl⟩⟩
            exact values_jump run v post
        · obtain ⟨a, b, rfl, hnamesEq, hb⟩ := List.map_eq_append_iff.mp hsplit
          obtain ⟨c, d, rfl, htypesEq, hd⟩ := List.map_eq_append_iff.mp hb
          obtain ⟨y, e, rfl, rfl, rfl⟩ := List.map_eq_cons_iff.mp hd
          have hround := @choice_of_run _ _ y.text _ _ ((e ++ v :: post).map Match.text) ht
            hnames htypes htype fun hnil => absurd hnil hne
          have htexts : (((a ++ (c ++ y :: e)) ++ v :: post).map Match.text) =
              names ++ (types ++ y.text :: (e ++ v :: post).map Match.text) := by
            simp only [List.map_append, List.map_cons, hnamesEq, htypesEq, List.append_assoc,
              List.cons_append]
          have hnot : ¬ (word t.text ∈ SECRET_IF_TYPED ∧
              ¬ (word t.text ∈ SECRET_AFTER ∨ types ≠ []) ∧ quoted y.text = false) :=
            fun h => h.2.1 (.inr hne)
          have hlength : names.length + types.length = (a ++ c).length := by
            rw [← hnamesEq, ← htypesEq, List.length_map, List.length_map, List.length_append]
          have hjump := values_jump (a ++ c) y (e ++ v :: post)
          obtain ⟨vs, hvs, hidden, heq, htold⟩ := ih e.length
            (by simp only [List.length_append, List.length_cons] at hn; omega)
            (fun m hm => hrest m (by simp [hm])) rfl
          rw [htexts, hround, if_neg hnot, hlength]
          refine ⟨y :: vs, ?_, hidden, ?_, ?_⟩
          · rintro u (_ | ⟨_, hu⟩)
            · simp
            · simp [hvs u hu]
          · dsimp only
            rw [List.cons_append, ← heq, ← hjump]
            simp only [List.append_assoc, List.cons_append]
          · have hgroup := openGroup_eaten ht hnames htypes hne hname (e.map Match.text)
            rw [Told, hsplit, hgroup]
            exact htold

end Run

/-! ## The line -/

section Line

variable [Unicode]

/-- **Redaction is complete** on a line: the first plain token after a keyword that tells
is hidden. -/
def Complete (text : Str) : Prop :=
  ∀ (pre : List Match) (t : Match) (mid : List Match) (v : Match) (post : List Match),
    finditer 0 0 text = pre ++ t :: (mid ++ v :: post) → tells t.text = true →
      (∀ m ∈ mid, isPlain m.text = false) → isPlain v.text = true → span v ∈ spans text

omit [Unicode] in
/-- The matches of a line stand one after the other. -/
theorem pairwise_matchesAt {pieces : List (Str × Str)} {last : Str} (h : Lexes pieces last)
    (pos : Nat) : (matchesAt pos pieces).Pairwise fun m m' => m.start < m'.start := by
  induction pieces generalizing pos with
  | nil => exact List.Pairwise.nil
  | cons p pieces ih =>
    obtain ⟨gap, token⟩ := p
    obtain ⟨-, htoken, hrest⟩ := h
    refine List.pairwise_cons.mpr ⟨fun m hm => ?_, ih hrest _⟩
    have hle := le_start_of_mem_matchesAt hm
    have hpos := List.length_pos_iff.mpr (matchLength_token htoken).1
    dsimp only
    omega

omit [Unicode] in
theorem pairwise_finditer (text : Str) :
    (finditer 0 0 text).Pairwise fun m m' => m.start < m'.start := by
  obtain ⟨pieces, last, hlex, rfl⟩ := exists_layOut text
  rw [finditer_layOut hlex]
  exact pairwise_matchesAt hlex 0

/-- Whether the token after a run is hidden. -/
theorem span_mem_spans_iff {text : Str} {pre run post : List Match} {v : Match}
    (h : finditer 0 0 text = pre ++ (run ++ v :: post))
    (hpre : ∀ p ∈ pre.getLast?, isPlain p.text = true)
    (hrun : ∀ m ∈ run, isPlain m.text = false) (hv : isPlain v.text = true) :
    span v ∈ spans text ↔ Told (run.map Match.text) v.text := by
  obtain ⟨vs, hvs, hfirst⟩ := values_append (run ++ v :: post) hpre (Nat.zero_le _)
  obtain ⟨ws, hws, hidden, hsecond, htold⟩ := values_run hrun hv post
  have hpairs := pairwise_finditer text
  rw [h] at hpairs
  have hother : ∀ u, u ∈ pre ∨ u ∈ run ∨ u ∈ post → span u ≠ span v := by
    intro u hu heq
    have hstart : u.start = v.start := congrArg Prod.fst heq
    obtain ⟨-, hinner, hacross⟩ := List.pairwise_append.mp hpairs
    obtain ⟨-, htail, hbetween⟩ := List.pairwise_append.mp hinner
    have hv' : v ∈ run ++ v :: post := List.mem_append_right _ (List.mem_cons_self ..)
    rcases hu with hu | hu | hu
    · exact absurd (hacross u hu v hv') (by omega)
    · exact absurd (hbetween u hu v (List.mem_cons_self ..)) (by omega)
    · exact absurd ((List.pairwise_cons.mp htail).1 u hu) (by omega)
  have hspans : spans text = (vs ++ (ws ++ (hidden ++ values 0 post))).map span := by
    rw [spans, h, hfirst, hsecond]
  rcases htold with ⟨htold, rfl⟩ | ⟨htold, rfl⟩
  · refine iff_of_true ?_ htold
    rw [hspans]
    exact List.mem_map_of_mem (by simp)
  · refine iff_of_false (fun hmem => ?_) htold
    rw [hspans, List.nil_append] at hmem
    obtain ⟨u, hu, heq⟩ := List.mem_map.mp hmem
    refine hother u ?_ heq
    rcases List.mem_append.mp hu with hu | hu
    · exact .inl (hvs u hu)
    · rcases List.mem_append.mp hu with hu | hu
      · exact .inr (.inl (hws u hu))
      · exact .inr (.inr ((values_sublist 0 post).subset hu))

/-- **What redaction hides.**  A line's secrets are all hidden if and only if every run
of keywords and types that tells of one, between the plain token before it and the one
after it, does so in its last group. -/
theorem complete_iff (text : Str) :
    Complete text ↔ ∀ (pre run : List Match) (v : Match) (post : List Match),
      finditer 0 0 text = pre ++ (run ++ v :: post) →
        (∀ p ∈ pre.getLast?, isPlain p.text = true) → (∀ m ∈ run, isPlain m.text = false) →
          isPlain v.text = true → (∃ t ∈ run, tells t.text = true) →
            Told (run.map Match.text) v.text := by
  constructor
  · rintro hcomplete pre run v post h hpre hrun hv ⟨t, ht, htells⟩
    obtain ⟨a, b, rfl⟩ := List.append_of_mem ht
    refine (span_mem_spans_iff h hpre hrun hv).mp (hcomplete (pre ++ a) t b v post ?_ htells
      (fun m hm => hrun m (by simp [hm])) hv)
    rw [h]
    simp only [List.append_assoc, List.cons_append]
  · intro htold pre t mid v post h htells hmid hv
    -- the run reaches back to the plain token before the keyword
    let isRun : Match → Bool := fun m => !isPlain m.text
    have hsplit : pre.rdropWhile isRun ++ pre.rtakeWhile isRun = pre :=
      List.rdropWhile_append_rtakeWhile
    have hrun : ∀ m ∈ pre.rtakeWhile isRun ++ t :: mid, isPlain m.text = false := by
      intro m hm
      rcases List.mem_append.mp hm with hm | hm
      · have hm' : isRun m = true := List.mem_rtakeWhile_imp hm
        exact (Bool.not_eq_true' _).mp hm'
      · rcases List.mem_cons.mp hm with rfl | hm
        · rw [isPlain, isKeyword_of_tells htells]
          rfl
        · exact hmid m hm
    have hpre : ∀ p ∈ (pre.rdropWhile isRun).getLast?, isPlain p.text = true := by
      intro p hp
      have hne : pre.rdropWhile isRun ≠ [] := by
        intro hnil
        rw [hnil] at hp
        cases hp
      have hlast := List.rdropWhile_last_not isRun pre hne
      rw [List.getLast?_eq_getLast_of_ne_nil hne, Option.mem_some] at hp
      rw [hp] at hlast
      simpa [isRun] using hlast
    have hline : finditer 0 0 text =
        pre.rdropWhile isRun ++ ((pre.rtakeWhile isRun ++ t :: mid) ++ v :: post) := by
      rw [h, List.append_assoc, ← List.append_assoc, hsplit, List.cons_append]
    exact (span_mem_spans_iff hline hpre hrun hv).mpr
      (htold _ _ v post hline hpre hrun hv ⟨t, by simp, htells⟩)

end Line

/-- **A secret that stays**: the keyword after the type is taken for the value. -/
theorem not_complete_typedKeyword :
    ¬ @Complete Unicode.ascii "username ops password 0 secret S3cret".toList ∧
      @redact Unicode.ascii "username ops password 0 secret S3cret".toList =
        "username ops password 0 <redacted> S3cret".toList := by
  refine ⟨fun h => ?_, by decide⟩
  have hspan := h [⟨0, "username".toList⟩, ⟨9, "ops".toList⟩] ⟨13, "password".toList⟩
    [⟨22, "0".toList⟩, ⟨24, "secret".toList⟩] ⟨31, "S3cret".toList⟩ [] (by decide) (by decide)
    (by decide) (by decide)
  exact absurd hspan (by decide)

end Logs
end NetRollout

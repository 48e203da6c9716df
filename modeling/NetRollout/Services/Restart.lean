import NetRollout.Services.RuntimeEnv
import NetRollout.Services.Switch

/-!
# After a restart, and the way back

What the next start makes of the runtime.env a switch wrote, and what `bundled_config` makes of
the address it kept.  The file is the one `RuntimeEnv.merge` writes and python-dotenv reads; it
reads back where no value has a carriage return (`Reads`).

An address is a URL, and a URL names no schema: a bundled database with a schema of its own is
left for the one of the same name in `public`.  `switch_survives_iff` says when a switch survives
and can be taken back.
-/

namespace NetRollout
namespace Services

open PyText
open Dotenv (Readable quoted)
open Effects (bind_of_ok bind_of_error)

/-! ## The file -/

/-- What `load` puts into the environment. -/
def loaded (dotenv : Dotenv quoted) (file : Option Str) : Env :=
  fun key => (Dict.get (RuntimeEnv.values dotenv file) key).join

/-- A file is read as these settings. -/
structure Reads (dotenv : Dotenv quoted) (file : Option Str) (d : Settings) : Prop where
  readable : ∀ e ∈ d, Readable e
  nodup : (d.map Prod.fst).Nodup
  values : RuntimeEnv.values dotenv file = d.map fun e => (e.1, some e.2)

theorem get_put_eq (d : Settings) (item : Str × Str) :
    Dict.get (Dict.put d item) = Function.update (Dict.get d) item.1 (some item.2) := by
  funext key
  rw [Dict.get_put, Function.update_apply]
  by_cases h : item.1 = key
  · rw [if_pos h, if_pos h.symm]
  · rw [if_neg h, if_neg (Ne.symm h)]

/-- Updates of the settings are updates of the environment. -/
theorem get_update_eq (d updates : Settings) :
    Dict.get (Dict.update d updates) = Env.merge (Dict.get d) updates := by
  induction updates generalizing d with
  | nil => rfl
  | cons item updates ih =>
    show Dict.get (Dict.update (Dict.put d item) updates) = _
    rw [ih, get_put_eq]
    rfl

section Merge

variable {dotenv : Dotenv quoted} {file : Option Str} {d updates : Settings}

theorem Reads.loaded_eq (h : Reads dotenv file d) : loaded dotenv file = Dict.get d := by
  funext key
  rw [loaded, h.values, RuntimeEnv.get_map_some]
  cases Dict.get d key <;> rfl

/-- A merge is read as it was merged. -/
theorem Reads.merge (h : Reads dotenv file d) (hupdates : ∀ e ∈ updates, Readable e) :
    Reads dotenv (some (RuntimeEnv.merge dotenv file updates)) (Dict.update d updates) where
  readable := Dict.forall_mem_update h.readable hupdates
  nodup := Dict.nodup_update h.nodup updates
  values := by
    rw [RuntimeEnv.merge_eq h.values]
    exact RuntimeEnv.values_file (Dict.forall_mem_update h.readable hupdates)
      (Dict.nodup_update h.nodup updates)

/-- What the next start reads of it. -/
theorem Reads.loaded_merge (h : Reads dotenv file d) (hupdates : ∀ e ∈ updates, Readable e) :
    loaded dotenv (some (RuntimeEnv.merge dotenv file updates)) =
      (loaded dotenv file).merge updates := by
  rw [(h.merge hupdates).loaded_eq, h.loaded_eq, get_update_eq]

end Merge

/-! ## A switch, and what it leaves -/

theorem given_of_ne_nil {text : Str} (h : text ≠ []) : given (some text) = some text := by
  cases text with
  | nil => exact absurd rfl h
  | cons c text => rfl

section Template

variable {Config Live Place : Type} (svc : Service Config Live Place) [DecidableEq Place]

/-- `bundled_config`. -/
def bundledConfig (s : Connection svc) : Option Config :=
  match given (s.env svc.bundledKey) with
  | some url => some (svc.configFromUrl url)
  | none =>
    match mode svc s with
    | some .bundled => some s.config
    | _ => none

/-- What a switch merges into runtime.env. -/
def writes (hooks : Hooks svc) (answers : Answers) (config : Config) (s : Connection svc) :
    Settings :=
  svc.updates config ++
    ((leaving svc s).getD [] ++ (hooks.afterSwap answers).toOption.getD [])

variable {svc}

theorem writes_eq {hooks : Hooks svc} {answers : Answers} {config : Config} {s : Connection svc}
    {left more : List (Str × Str)} (hleft : leaving svc s = some left)
    (hmore : hooks.afterSwap answers = .ok more) :
    writes svc hooks answers config s = svc.updates config ++ (left ++ more) := by
  rw [writes, hleft, hmore]
  rfl

/-- What ends in a raise does not return. -/
theorem not_ok_throw {σ : Type} (x : EStateM Raised σ Unit) (e : Raised) (s t : σ) :
    (do x; throw e : EStateM Raised σ Unit) s ≠ .ok () t := by
  intro h
  cases hx : x s with
  | ok u s' =>
    rw [bind_of_ok hx] at h
    cases h
  | error e' s' =>
    rw [bind_of_error hx] at h
    cases h

/-- A switch that returns: the configuration is the new one, and the file is written. -/
theorem eq_of_switchTo {hooks : Hooks svc} {answers : Answers} {config : Config}
    {s s' : Connection svc} (h : switchTo svc hooks answers config s = .ok () s') :
    s'.config = config ∧ s'.env = s.env.merge (writes svc hooks answers config s) ∧
      ∃ left more, leaving svc s = some left ∧ hooks.afterSwap answers = .ok more := by
  by_cases hreaches : Reaches s config answers
  · obtain ⟨live, hbuild, hrun⟩ := switchTo_reached hooks hreaches
    cases htrouble : trouble hooks answers with
    | some e =>
      rw [htrouble] at hrun
      exact absurd (hrun.symm.trans h) (not_ok_throw _ e _ s')
    | none =>
      rw [htrouble] at hrun
      obtain ⟨left, more, hleft, hmore, hend⟩ := hrun
      rw [hend] at h
      cases h
      refine ⟨rfl, ?_, left, more, hleft, hmore⟩
      rw [writes, hleft, hmore]
      rfl
  · obtain ⟨e, he⟩ := switchTo_unreached hooks hreaches
    rw [he] at h
    cases h

/-- The place after the switch is where the next start finds the service, and a bundled one that
was left is where the way back leads. -/
structure Survives (dotenv : Dotenv quoted) (outer : Env) (file : Option Str)
    (s s' : Connection svc) : Prop where
  restart : (svc.unloadEnv ((loaded dotenv file).over outer)).bind svc.place = svc.place s'.config
  back : mode svc s = some .bundled →
    (bundledConfig svc { s' with env := loaded dotenv file }).bind svc.place = svc.place s.config

/-- The address of a bundled service is kept under its key. -/
theorem env_bundledKey {hooks : Hooks svc} {answers : Answers} {config : Config}
    {s : Connection svc} {env : Env} (hmode : mode svc s = some .bundled)
    (hafter : ∀ more, hooks.afterSwap answers = .ok more → ∀ e ∈ more, e.1 ≠ svc.bundledKey) :
    env.merge (writes svc hooks answers config s) svc.bundledKey =
      some (svc.ownUrl s.config s.live) := by
  have hleft : leaving svc s = some [(svc.bundledKey, svc.ownUrl s.config s.live)] := by
    rw [leaving, hmode]
    rfl
  rw [writes, hleft, Option.getD_some, Env.merge_append, Env.merge_append, Env.merge_of_notMem]
  · exact Function.update_self ..
  · intro e he
    cases hmore : hooks.afterSwap answers with
    | error e' =>
      rw [hmore] at he
      cases he
    | ok more =>
      rw [hmore] at he
      exact hafter more hmore e he

/-- The way back is to the configuration of the address. -/
theorem bundledConfig_of_given {s : Connection svc} {url : Str}
    (h : given (s.env svc.bundledKey) = some url) :
    bundledConfig svc s = some (svc.configFromUrl url) := by
  rw [bundledConfig, h]

end Template

/-! ## Postgres -/

section Postgres

variable [Unicode] [Decimals] {urls : SqlUrls} {s s' : Connection (postgres urls)}
  {config : PostgresConfig} {answers : Answers} {dotenv : Dotenv quoted} {file : Option Str}
  {d : Settings}

/-- A database whose schema an address does not lose. -/
def PostgresConfig.Addressed (c : PostgresConfig) : Prop :=
  (given c.schema).getD "public".toList = "public".toList

/-- An address leads to the place that was left, but for its schema. -/
theorem place_ownUrl_iff {env : Env}
    (henv : env "NETROLLOUT_BUNDLED_DATABASE_URL".toList = some (urls.rendered s.live.url)) :
    (bundledConfig (postgres urls) { s' with env := env }).bind (PostgresConfig.place urls) =
        s.config.place urls ↔ s.config.Addressed := by
  obtain ⟨url, hurl, hlive⟩ := Option.bind_eq_some_iff.mp s.built
  obtain ⟨parts, hparts, hlive⟩ := Option.map_eq_some_iff.mp hlive
  have hsame : s.live.url = url := by rw [← hlive]
  obtain ⟨p, hp⟩ : ∃ p, s.config.place urls = some p :=
    ⟨_, by rw [PostgresConfig.place, hurl, Option.bind_some, hparts, Option.map_some]⟩
  obtain ⟨hne, hmake⟩ := urls.make_rendered url parts hparts
  have hgiven := given_of_ne_nil hne
  have haddress : bundledConfig (postgres urls) { s' with env := env } =
      some ((postgres urls).configFromUrl (urls.rendered url)) := by
    refine bundledConfig_of_given ?_
    show given (env "NETROLLOUT_BUNDLED_DATABASE_URL".toList) = some (urls.rendered url)
    rw [henv, hsame, hgiven]
  have hback : (((postgres urls).configFromUrl (urls.rendered url)).getUrl urls).bind urls.make =
      (s.config.getUrl urls).bind urls.make := by
    rw [hurl, Option.bind_some, hparts]
    show (match given (some (urls.rendered url)) with
      | some url => some url
      | none => _).bind urls.make = some parts
    rw [hgiven]
    exact hmake
  rw [haddress, Option.bind_some, PostgresConfig.place_of_make hp hback, hp,
    PostgresConfig.some_place_iff, PostgresConfig.place_schema hp]
  exact eq_comm

/-- Grafana's key is not the bundled database's. -/
theorem postgres_after {more : List (Str × Str)}
    (hmore : (postgresHooks urls).afterSwap answers = .ok more) :
    ∀ e ∈ more, e.1 ≠ (postgres urls).bundledKey := by
  simp only [postgresHooks] at hmore
  split at hmore <;> cases hmore
  intro e he
  rw [List.mem_singleton.mp he]
  show "NETROLLOUT_GRAFANA_SSLMODE".toList ≠ "NETROLLOUT_BUNDLED_DATABASE_URL".toList
  decide

/-- When a switch of the database survives and can be taken back. -/
theorem postgres_survives_iff (outer : Env) (hreads : Reads dotenv file d)
    (hswitch : switchTo (postgres urls) (postgresHooks urls) answers config s = .ok () s')
    (hreadable : ∀ e ∈ writes (postgres urls) (postgresHooks urls) answers config s, Readable e) :
    Survives dotenv outer (some (RuntimeEnv.merge dotenv file
        (writes (postgres urls) (postgresHooks urls) answers config s))) s s' ↔
      config.Named ∧ (mode (postgres urls) s = some .bundled → s.config.Addressed) := by
  obtain ⟨hconfig, -, left, more, hleft, hmore⟩ := eq_of_switchTo hswitch
  obtain ⟨p, hp⟩ : ∃ p, config.place urls = some p := by
    obtain ⟨url, hurl, hlive⟩ := Option.bind_eq_some_iff.mp s'.built
    obtain ⟨parts, hparts, -⟩ := Option.map_eq_some_iff.mp hlive
    rw [hconfig] at hurl
    exact ⟨_, by rw [PostgresConfig.place, hurl, Option.bind_some, hparts, Option.map_some]⟩
  have hloaded := hreads.loaded_merge hreadable
  have hrestart : ((postgres urls).unloadEnv ((loaded dotenv (some (RuntimeEnv.merge dotenv file
      (writes (postgres urls) (postgresHooks urls) answers config s)))).over outer)).bind
        (PostgresConfig.place urls) = config.place urls ↔ config.Named := by
    rw [hloaded, writes_eq hleft hmore, hp]
    exact PostgresConfig.place_unloadEnv_iff (loaded dotenv file) outer hp
      (postgres_besides hleft hmore)
  have hback (hmode : mode (postgres urls) s = some .bundled) :
      (bundledConfig (postgres urls) { s' with env := loaded dotenv (some (RuntimeEnv.merge dotenv
        file (writes (postgres urls) (postgresHooks urls) answers config s))) }).bind
          (PostgresConfig.place urls) = s.config.place urls ↔ s.config.Addressed := by
    refine place_ownUrl_iff ?_
    rw [hloaded]
    exact env_bundledKey hmode fun more hmore => postgres_after hmore
  constructor
  · intro hsurvives
    have hsame := hsurvives.restart
    rw [hconfig] at hsame
    exact ⟨hrestart.mp hsame, fun hmode => (hback hmode).mp (hsurvives.back hmode)⟩
  · rintro ⟨hnamed, haddressed⟩
    refine ⟨?_, fun hmode => (hback hmode).mpr (haddressed hmode)⟩
    rw [hconfig]
    exact hrestart.mpr hnamed

end Postgres

/-! ## Redis -/

section Redis

variable [Decimals] {urls : RedisUrls} {s s' : Connection (redis urls)} {config : RedisConfig}
  {answers : Answers} {dotenv : Dotenv quoted} {file : Option Str} {d : Settings}

omit [Decimals] in
theorem redis_getUrl_ne_nil (c : RedisConfig) : c.getUrl ≠ [] := by
  rw [RedisConfig.getUrl]
  cases hurl : given c.url with
  | some url => exact (given_eq_some hurl).2
  | none => exact List.cons_ne_nil _ _

/-- When a switch of Redis survives; it can be taken back. -/
theorem redis_survives_iff (outer : Env) (hreads : Reads dotenv file d)
    (hswitch : switchTo (redis urls) (redisHooks urls) answers config s = .ok () s')
    (hreadable : ∀ e ∈ writes (redis urls) (redisHooks urls) answers config s, Readable e) :
    Survives dotenv outer (some (RuntimeEnv.merge dotenv file
      (writes (redis urls) (redisHooks urls) answers config s))) s s' ↔ config.Numbered urls := by
  obtain ⟨hconfig, -, left, more, hleft, hmore⟩ := eq_of_switchTo hswitch
  have hloaded := hreads.loaded_merge hreadable
  have hplace : (RedisConfig.unloadEnv (((loaded dotenv file).merge (config.updates ++
      (left ++ more))).over outer)).place urls = config.place urls ↔ config.Numbered urls :=
    RedisConfig.place_unloadEnv_iff (redis_besides hleft hmore)
  have hback : mode (redis urls) s = some .bundled → (bundledConfig (redis urls) { s' with
      env := loaded dotenv (some (RuntimeEnv.merge dotenv file (writes (redis urls)
        (redisHooks urls) answers config s))) }).bind (redis urls).place =
          (redis urls).place s.config := by
    intro hmode
    have hgiven := given_of_ne_nil (redis_getUrl_ne_nil s.config)
    have haddress : bundledConfig (redis urls) { s' with env := loaded dotenv (some
        (RuntimeEnv.merge dotenv file (writes (redis urls) (redisHooks urls) answers config
          s))) } = some ((redis urls).configFromUrl s.config.getUrl) := by
      refine bundledConfig_of_given ?_
      show given (loaded dotenv _ (redis urls).bundledKey) = _
      rw [hloaded, env_bundledKey hmode fun more hmore => by
        cases hmore
        exact List.forall_mem_nil _]
      exact hgiven
    have hsame : ((redis urls).configFromUrl s.config.getUrl).getUrl = s.config.getUrl := by
      show (match given (some s.config.getUrl) with
        | some url => url
        | none => _) = s.config.getUrl
      rw [hgiven]
    rw [haddress, Option.bind_some]
    exact RedisConfig.place_congr (by rw [hsame])
  have hrestart : ((redis urls).unloadEnv ((loaded dotenv (some (RuntimeEnv.merge dotenv file
      (writes (redis urls) (redisHooks urls) answers config s)))).over outer)).bind
        (redis urls).place = (redis urls).place s'.config ↔ config.Numbered urls := by
    rw [hloaded, writes_eq hleft hmore, hconfig]
    exact hplace
  exact ⟨fun hsurvives => hrestart.mp hsurvives.restart,
    fun hnumbered => ⟨hrestart.mpr hnumbered, hback⟩⟩

end Redis

/-- No step of a switch goes wrong. -/
theorem exists_of_reaches {Config Live Place : Type} {svc : Service Config Live Place}
    [DecidableEq Place] (hooks : Hooks svc) {answers : Answers} {config : Config}
    {s : Connection svc} (h : Reaches s config answers) (htrouble : trouble hooks answers = none) :
    ∃ s', switchTo svc hooks answers config s = .ok () s' := by
  obtain ⟨live, hbuild, hrun⟩ := switchTo_reached hooks h
  rw [htrouble] at hrun
  obtain ⟨left, more, -, -, hend⟩ := hrun
  exact ⟨_, hend⟩

/-- Every server answers, and the file is written. -/
def fine : Answers := ⟨.ok, none, true, none, .ok⟩

/-- A reader of the file. -/
def reader : Dotenv quoted := .plain Dotenv.shortens_quoted

/-- No file is written yet. -/
theorem reads_none : Reads reader none [] := ⟨List.forall_mem_nil _, List.nodup_nil, rfl⟩

/-- The bundled database, its tables in the schema `apps`. -/
def bundledSchema : @Connection _ _ _ (@postgres .ascii .ascii plainSql) :=
  ⟨{ bundledPostgres.config with schema := some "apps".toList },
    { bundledPostgres.live with schema := some "apps".toList }, fun _ => none, by decide +kernel⟩

end Services
end NetRollout

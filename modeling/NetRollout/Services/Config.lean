import Mathlib.Logic.Function.Basic
import NetRollout.Library.PyText

/-!
# Where the services are

The configurations of `src/db/connections.py`: where Postgres and Redis are, the keys of
`config/runtime.env` that say so, and the configuration the next start reads from it.
`runtime.env` is taken as the values it gives its keys, and wins over the environment of the
container.  A value is taken as it was written, which is so of one without a carriage return: read
back, that is a line feed.

What a URL is made of is SQLAlchemy's and redis-py's to say: `SqlUrls` and `RedisUrls`.
-/

namespace NetRollout
namespace Services

open PyText

/-- The values of an environment's keys. -/
abbrev Env := Str → Option Str

/-- `RuntimeEnv.merge`: the updates win over what was there, the last of a key's too. -/
def Env.merge (env : Env) (updates : List (Str × Str)) : Env :=
  updates.foldl (fun env update => Function.update env update.1 (some update.2)) env

/-- `os.getenv`, with runtime.env loaded over the container's environment. -/
def Env.over (env outer : Env) : Env := fun key => env key <|> outer key

/-- A text that is given: neither missing nor blank. -/
def given (text : Option Str) : Option Str := text.filter fun s => !s.isEmpty

theorem given_some_nil : given (some []) = none := rfl

theorem given_eq_some {text : Option Str} {s : Str} (h : given text = some s) :
    text = some s ∧ s ≠ [] := by
  obtain ⟨htext, hs⟩ := Option.filter_eq_some_iff.mp h
  refine ⟨htext, ?_⟩
  rintro rfl
  cases hs

theorem given_getD_nil (text : Option Str) : given (some ((given text).getD [])) = given text := by
  cases h : given text with
  | none => rfl
  | some s =>
    obtain ⟨-, hs⟩ := given_eq_some h
    cases s with
    | nil => exact absurd rfl hs
    | cons c s => rfl

/-! ## Reading the merged file -/

theorem Env.merge_append (env : Env) (updates more : List (Str × Str)) :
    env.merge (updates ++ more) = (env.merge updates).merge more := List.foldl_append ..

/-- A key that no later update names. -/
theorem Env.merge_of_notMem {env : Env} {updates : List (Str × Str)} {key : Str}
    (h : ∀ update ∈ updates, update.1 ≠ key) : env.merge updates key = env key := by
  induction updates generalizing env with
  | nil => rfl
  | cons update updates ih =>
    have hne := h update List.mem_cons_self
    show Env.merge (Function.update env update.1 (some update.2)) updates key = env key
    rw [ih fun u hu => h u (List.mem_cons_of_mem _ hu), Function.update_of_ne hne.symm]

/-- A key that one update names. -/
theorem Env.merge_of_mem {env : Env} {updates : List (Str × Str)} {key value : Str}
    (hkeys : (updates.map Prod.fst).Nodup) (h : (key, value) ∈ updates) :
    env.merge updates key = some value := by
  induction updates generalizing env with
  | nil => cases h
  | cons update updates ih =>
    rw [List.map_cons, List.nodup_cons] at hkeys
    show Env.merge (Function.update env update.1 (some update.2)) updates key = some value
    rcases List.mem_cons.mp h with rfl | h
    · rw [merge_of_notMem, Function.update_self]
      rintro other hother heq
      exact hkeys.1 (List.mem_map.mpr ⟨other, hother, heq⟩)
    · exact ih hkeys.2 h

/-- What a switch to a URL writes: the parts blank, and the URL. -/
def urlUpdates (updates : List (Str × Str)) (key url : Str) : List (Str × Str) :=
  updates.map (fun update => (update.1, [])) ++ [(key, url)]

theorem Env.merge_urlUpdates (env : Env) {updates : List (Str × Str)} (key url : Str)
    (hkeys : (updates.map Prod.fst).Nodup) :
    env.merge (urlUpdates updates key url) key = some url ∧
      ∀ k ∈ updates.map Prod.fst, k ≠ key →
        env.merge (urlUpdates updates key url) k = some [] := by
  rw [urlUpdates, merge_append]
  refine ⟨Function.update_self .., fun k hk hne => ?_⟩
  show Function.update (env.merge _) key (some url) k = some []
  rw [Function.update_of_ne hne]
  obtain ⟨update, hupdate, rfl⟩ := List.mem_map.mp hk
  refine merge_of_mem ?_ (List.mem_map_of_mem hupdate)
  rwa [List.map_map]

/-! ## Postgres -/

/-- The parts of a database URL. -/
structure SqlUrl where
  host : Option Str
  port : Option Nat
  database : Option Str
  deriving DecidableEq

/-- `URL.create(..).render_as_string`; `make_url`, which may raise, and the text such a URL is
rendered as, which is not blank and names the same parts. -/
structure SqlUrls where
  render : (user password host : Str) → (port : Int) → (database : Str) → Str
  make : Str → Option SqlUrl
  rendered : Str → Str
  make_rendered : ∀ url parts, make url = some parts →
    rendered url ≠ [] ∧ make (rendered url) = some parts

/-- Where the database is: a URL, or its parts, and the schema. -/
structure PostgresConfig where
  host : Str
  port : Str
  database : Str
  user : Str
  password : Str
  schema : Option Str
  url : Option Str
  deriving DecidableEq

/-- Server, port, database and schema. -/
structure PostgresPlace where
  host : Option Str
  port : Nat
  database : Option Str
  schema : Str
  deriving DecidableEq

/-- `SCHEMA_RE`; its `$` lets a line break follow. -/
def isSchemaName (name : Str) : Bool :=
  match if name.getLast? = some '\n' then name.dropLast else name with
  | [] => false
  | c :: rest => (c.isLower || c = '_') && rest.length ≤ 62 &&
      rest.all fun d => d.isLower || d.isDigit || d = '_'

/-- `schema_problem`. -/
def schemaProblem (schema : Str) : Option Str :=
  if isSchemaName schema then none
  else some ("The schema name \"".toList ++ schema ++
    ("\" can't be used: lowercase letters, digits and _ only, starting with a letter or _, " ++
      "at most 63 characters.").toList)

namespace PostgresConfig

/-- `unload_env`, with what `os.getenv` gives. -/
def unloadEnv [Unicode] (env : Env) : Except Str PostgresConfig :=
  let schema := match given (env "PG_SCHEMA".toList) with
    | some schema => some (Unicode.lower schema)
    | none => env "PG_SCHEMA".toList
  match (given schema).bind schemaProblem with
  | some problem => .error ("PG_SCHEMA: ".toList ++ problem)
  | none => .ok {
      host := (env "PG_HOST".toList).getD "localhost".toList
      port := (env "PG_PORT".toList).getD "5432".toList
      database := (env "PG_NAME".toList).getD "rollout_db".toList
      user := (env "PG_USER".toList).getD "dbadmin".toList
      password := (env "PG_PASSWORD".toList).getD "Pass123".toList
      schema := schema
      url := env "DATABASE_URL".toList }

variable [Decimals] (urls : SqlUrls) (c : PostgresConfig)

/-- `get_url`; `none` where `int(self.port)` raises. -/
def getUrl : Option Str :=
  match given c.url with
  | some url => some url
  | none => (toInt c.port).map fun port => urls.render c.user c.password c.host port c.database

/-- `place`; `none` where it raises. -/
def place : Option PostgresPlace :=
  ((c.getUrl urls).bind urls.make).map fun url =>
    ⟨url.host, (url.port.filter (· ≠ 0)).getD 5432, url.database,
      (given c.schema).getD "public".toList⟩

/-- `to_env_dict`. -/
def toEnvDict : List (Str × Str) :=
  [("PG_HOST".toList, c.host), ("PG_PORT".toList, c.port), ("PG_NAME".toList, c.database),
    ("PG_USER".toList, c.user), ("PG_PASSWORD".toList, c.password),
    ("PG_SCHEMA".toList, (given c.schema).getD []), ("DATABASE_URL".toList, [])]

/-- What a switch writes of it. -/
def updates : List (Str × Str) :=
  match given c.url with
  | some url => urlUpdates c.toEnvDict "DATABASE_URL".toList url
  | none => c.toEnvDict

/-- Its schema is one runtime.env can name: none or `public` beside a URL, else a name that is
its own lower case. -/
def Named [Unicode] : Prop :=
  match given c.schema, given c.url with
  | none, _ => True
  | some schema, some _ => schema = "public".toList
  | some schema, none => isSchemaName schema = true ∧ Unicode.lower schema = schema

end PostgresConfig

/-! ## Redis -/

/-- The parts of a Redis URL.  A port is a number, here its digits, or a text of the query. -/
structure RedisUrl where
  host : Option Str
  port : Option Str
  db : Option Int
  deriving DecidableEq

/-- It ends a URL's server. -/
def endsServer (c : Char) : Bool := c = '/' || c = '?' || c = '#'

/-- `parse_url`, which may raise.  After the server, a path of nothing but its `/` is database
0's. -/
structure RedisUrls where
  parse : Str → Option RedisUrl
  root : ∀ server : Str, server.any endsServer = false →
    (parse ("redis://".toList ++ (server ++ ['/']))).map (fun u => (u.host, u.port, u.db.getD 0)) =
      (parse ("redis://".toList ++ (server ++ ['/', '0']))).map fun u =>
        (u.host, u.port, u.db.getD 0)

/-- A digit of `%02X`. -/
def hexDigit (n : Nat) : Char := Char.ofNat (if n < 10 then '0'.toNat + n else 'A'.toNat + n - 10)

def isUnreserved (c : Char) : Bool := c.isAlphanum || "_.-~".toList.contains c

/-- `quote(text, safe="")`. -/
def quote (text : Str) : Str := text.flatMap fun c =>
  if isUnreserved c then [c]
  else (String.utf8EncodeChar c).flatMap fun b =>
    ['%', hexDigit (b.toNat / 16), hexDigit (b.toNat % 16)]

/-- Where Redis is: a URL, or its parts. -/
structure RedisConfig where
  host : Str
  port : Str
  db : Str
  password : Option Str
  url : Option Str
  deriving DecidableEq

/-- Server, port and database number. -/
structure RedisPlace where
  host : Option Str
  port : Int
  db : Int
  deriving DecidableEq

namespace RedisConfig

/-- `unload_env`, with what `os.getenv` gives. -/
def unloadEnv (env : Env) : RedisConfig where
  host := (env "REDIS_HOST".toList).getD "localhost".toList
  port := (env "REDIS_PORT".toList).getD "6379".toList
  db := (env "REDIS_DB".toList).getD "0".toList
  password := some ((env "REDIS_PASSWORD".toList).getD [])
  url := env "REDIS_URL".toList

variable (c : RedisConfig)

/-- What stands between `redis://` and the `/` of the number. -/
def server : Str :=
  match given c.password with
  | some password => ':' :: quote password ++ '@' :: c.host ++ ':' :: c.port
  | none => c.host ++ ':' :: c.port

/-- `get_url`. -/
def getUrl : Str :=
  match given c.url with
  | some url => url
  | none => "redis://".toList ++ (c.server ++ '/' :: c.db)

variable [Decimals] (urls : RedisUrls)

/-- `place`; `none` where it raises. -/
def place : Option RedisPlace :=
  (urls.parse c.getUrl).bind fun url =>
    (match given url.port with
      | none => some 6379
      | some port => toInt port).map fun port => ⟨url.host, port, url.db.getD 0⟩

/-- `to_env_dict`. -/
def toEnvDict : List (Str × Str) :=
  [("REDIS_HOST".toList, c.host), ("REDIS_PORT".toList, c.port),
    ("REDIS_DB".toList, if c.db = [] then "0".toList else c.db),
    ("REDIS_PASSWORD".toList, (given c.password).getD []), ("REDIS_URL".toList, [])]

/-- What a switch writes of it. -/
def updates : List (Str × Str) :=
  match given c.url with
  | some url => urlUpdates c.toEnvDict "REDIS_URL".toList url
  | none => c.toEnvDict

/-- Its parts, if they give no number, name the same place with the 0 that is written. -/
def Numbered : Prop :=
  given c.url = none → c.db = [] → place { c with db := "0".toList } urls = c.place urls

end RedisConfig

/-! ## What the next start reads -/

/-- The value of a key that what is written besides does not name. -/
theorem Env.over_merge {env outer : Env} {updates more : List (Str × Str)} {key value : Str}
    (hmore : ∀ update ∈ more, update.1 ≠ key) (h : env.merge updates key = some value) :
    (env.merge (updates ++ more)).over outer key = some value := by
  rw [Env.over, merge_append, merge_of_notMem hmore, h]
  rfl

namespace PostgresConfig

/-- The keys of runtime.env that are this service's. -/
def keys : List Str :=
  ["PG_HOST".toList, "PG_PORT".toList, "PG_NAME".toList, "PG_USER".toList, "PG_PASSWORD".toList,
    "PG_SCHEMA".toList, "DATABASE_URL".toList]

theorem nodup_keys (c : PostgresConfig) : (c.toEnvDict.map Prod.fst).Nodup := by
  show keys.Nodup
  decide

section Place

variable {p : PostgresPlace}

/-- The same place but for the schema is the same place when the schema is the same. -/
theorem some_place_iff {schema : Str} : some { p with schema } = some p ↔ schema = p.schema := by
  constructor
  · intro h
    exact congrArg PostgresPlace.schema (Option.some.inj h)
  · rintro rfl
    rfl

variable [Decimals] {urls : SqlUrls} {c c' : PostgresConfig}

/-- One URL is one place, but for the schema. -/
theorem place_of_make (hp : c.place urls = some p)
    (hurl : (c'.getUrl urls).bind urls.make = (c.getUrl urls).bind urls.make) :
    c'.place urls = some { p with schema := (given c'.schema).getD "public".toList } := by
  obtain ⟨url, hmake, rfl⟩ := Option.map_eq_some_iff.mp hp
  rw [place, hurl, hmake]
  rfl

theorem place_of_getUrl (hp : c.place urls = some p) (hurl : c'.getUrl urls = c.getUrl urls) :
    c'.place urls = some { p with schema := (given c'.schema).getD "public".toList } :=
  place_of_make hp (by rw [hurl])

theorem place_schema (hp : c.place urls = some p) :
    p.schema = (given c.schema).getD "public".toList := by
  obtain ⟨url, -, rfl⟩ := Option.map_eq_some_iff.mp hp
  rfl

end Place

variable [Unicode] {c : PostgresConfig} {env outer : Env} {more : List (Str × Str)}

/-- A switch to a URL: the next start reads the URL, and no schema. -/
theorem unloadEnv_url {url : Str} (hurl : given c.url = some url)
    (hmore : ∀ update ∈ more, update.1 ∉ keys) :
    unloadEnv ((env.merge (c.updates ++ more)).over outer) =
      .ok ⟨[], [], [], [], [], some [], some url⟩ := by
  have hwritten := env.merge_urlUpdates "DATABASE_URL".toList url c.nodup_keys
  have hupdates : c.updates = urlUpdates c.toEnvDict "DATABASE_URL".toList url := by
    rw [updates, hurl]
  have hblank (k : Str) (hk : k ∈ keys) (hne : k ≠ "DATABASE_URL".toList) :
      (env.merge (c.updates ++ more)).over outer k = some [] := by
    refine Env.over_merge (fun update hupdate heq => hmore update hupdate (heq ▸ hk)) ?_
    rw [hupdates]
    exact hwritten.2 k hk hne
  have hgiven : (env.merge (c.updates ++ more)).over outer "DATABASE_URL".toList = some url := by
    refine Env.over_merge (fun update hupdate heq => hmore update hupdate (heq ▸ by decide)) ?_
    rw [hupdates]
    exact hwritten.1
  rw [unloadEnv, hgiven, hblank "PG_HOST".toList (by decide) (by decide),
    hblank "PG_PORT".toList (by decide) (by decide),
    hblank "PG_NAME".toList (by decide) (by decide),
    hblank "PG_USER".toList (by decide) (by decide),
    hblank "PG_PASSWORD".toList (by decide) (by decide),
    hblank "PG_SCHEMA".toList (by decide) (by decide)]
  rfl

/-- A switch to the parts: the next start reads them, the schema in lower case. -/
theorem unloadEnv_parts (hurl : given c.url = none) (hmore : ∀ update ∈ more, update.1 ∉ keys) :
    unloadEnv ((env.merge (c.updates ++ more)).over outer) =
      match given c.schema with
      | none => .ok { c with schema := some [], url := some [] }
      | some schema =>
        match schemaProblem (Unicode.lower schema) with
        | some problem => .error ("PG_SCHEMA: ".toList ++ problem)
        | none => .ok { c with schema := some (Unicode.lower schema), url := some [] } := by
  have hread (k v : Str) (hk : (k, v) ∈ c.toEnvDict) :
      (env.merge (c.updates ++ more)).over outer k = some v := by
    have hkey : k ∈ keys := List.mem_map_of_mem (f := Prod.fst) hk
    refine Env.over_merge (fun update hupdate heq => hmore update hupdate (heq ▸ hkey)) ?_
    rw [updates, hurl]
    exact Env.merge_of_mem c.nodup_keys hk
  rw [unloadEnv, hread "PG_HOST".toList c.host (by simp [toEnvDict]),
    hread "PG_PORT".toList c.port (by simp [toEnvDict]),
    hread "PG_NAME".toList c.database (by simp [toEnvDict]),
    hread "PG_USER".toList c.user (by simp [toEnvDict]),
    hread "PG_PASSWORD".toList c.password (by simp [toEnvDict]),
    hread "PG_SCHEMA".toList ((given c.schema).getD []) (by simp [toEnvDict]),
    hread "DATABASE_URL".toList [] (by simp [toEnvDict]), given_getD_nil]
  cases hschema : given c.schema with
  | none => rfl
  | some schema =>
    have hlower : given (some (Unicode.lower schema)) = some (Unicode.lower schema) := by
      have hne := (given_eq_some hschema).2
      rw [given, Option.filter_eq_some_iff]
      refine ⟨rfl, ?_⟩
      rw [Bool.not_eq_true', List.isEmpty_eq_false_iff, ne_eq, Unicode.lower_eq_nil]
      exact hne
    simp only [hlower, Option.bind_some]
    cases schemaProblem (Unicode.lower schema) <;> rfl

variable (env outer) in
/-- **The place runtime.env names is the configuration's**, just when it can name its schema. -/
theorem place_unloadEnv_iff [Decimals] {urls : SqlUrls} {p : PostgresPlace}
    (hp : c.place urls = some p) (hmore : ∀ update ∈ more, update.1 ∉ keys) :
    ((unloadEnv ((env.merge (c.updates ++ more)).over outer)).toOption.bind fun c' =>
      c'.place urls) = some p ↔ c.Named := by
  have hschema := place_schema hp
  cases hurl : given c.url with
  | some url =>
    have hsame : (⟨[], [], [], [], [], some [], some url⟩ : PostgresConfig).getUrl urls =
        c.getUrl urls := by
      have hgiven : given (some url) = some url := (given_eq_some hurl).1 ▸ hurl
      rw [getUrl, getUrl, hgiven, hurl]
    rw [unloadEnv_url hurl hmore]
    show (⟨[], [], [], [], [], some [], some url⟩ : PostgresConfig).place urls = some p ↔ _
    rw [place_of_getUrl hp hsame, some_place_iff, hschema, Named, hurl]
    cases given c.schema with
    | none => exact iff_of_true rfl trivial
    | some schema => exact eq_comm
  | none =>
    have hsame (schema : Option Str) :
        ({ c with schema, url := some [] } : PostgresConfig).getUrl urls = c.getUrl urls := by
      rw [getUrl, getUrl, hurl, given_some_nil]
    rw [unloadEnv_parts hurl hmore, Named, hurl]
    cases hgiven : given c.schema with
    | none =>
      rw [hgiven] at hschema
      show ({ c with schema := some [], url := some [] } :
        PostgresConfig).place urls = some p ↔ True
      rw [place_of_getUrl hp (hsame _), some_place_iff, hschema]
      exact iff_of_true rfl trivial
    | some schema =>
      rw [hgiven] at hschema
      dsimp only
      cases hproblem : schemaProblem (Unicode.lower schema) with
      | some problem =>
        refine iff_of_false (fun heq => by cases heq) fun hnamed => ?_
        rw [hnamed.2, schemaProblem, if_pos hnamed.1] at hproblem
        cases hproblem
      | none =>
        have hname : isSchemaName (Unicode.lower schema) = true := by
          by_contra hnot
          rw [schemaProblem, if_neg hnot] at hproblem
          cases hproblem
        have hlower : given (some (Unicode.lower schema)) = some (Unicode.lower schema) := by
          have hne := (given_eq_some hgiven).2
          rw [given, Option.filter_eq_some_iff]
          refine ⟨rfl, ?_⟩
          rw [Bool.not_eq_true', List.isEmpty_eq_false_iff, ne_eq, Unicode.lower_eq_nil]
          exact hne
        show ({ c with schema := some (Unicode.lower schema), url := some [] } :
          PostgresConfig).place urls = some p ↔ _
        rw [place_of_getUrl hp (hsame _), some_place_iff, hschema, hlower]
        constructor
        · intro heq
          have hsame : Unicode.lower schema = schema := heq
          exact ⟨hsame ▸ hname, hsame⟩
        · exact fun hnamed => hnamed.2

end PostgresConfig

namespace RedisConfig

/-- The keys of runtime.env that are this service's. -/
def keys : List Str :=
  ["REDIS_HOST".toList, "REDIS_PORT".toList, "REDIS_DB".toList, "REDIS_PASSWORD".toList,
    "REDIS_URL".toList]

theorem nodup_keys (c : RedisConfig) : (c.toEnvDict.map Prod.fst).Nodup := by
  show keys.Nodup
  decide

variable {urls : RedisUrls} {c : RedisConfig} {env outer : Env} {more : List (Str × Str)}

theorem unloadEnv_url {url : Str} (hurl : given c.url = some url)
    (hmore : ∀ update ∈ more, update.1 ∉ keys) :
    unloadEnv ((env.merge (c.updates ++ more)).over outer) =
      ⟨[], [], [], some [], some url⟩ := by
  have hwritten := env.merge_urlUpdates "REDIS_URL".toList url c.nodup_keys
  have hupdates : c.updates = urlUpdates c.toEnvDict "REDIS_URL".toList url := by
    rw [updates, hurl]
  have hblank (k : Str) (hk : k ∈ keys) (hne : k ≠ "REDIS_URL".toList) :
      (env.merge (c.updates ++ more)).over outer k = some [] := by
    refine Env.over_merge (fun update hupdate heq => hmore update hupdate (heq ▸ hk)) ?_
    rw [hupdates]
    exact hwritten.2 k hk hne
  have hgiven : (env.merge (c.updates ++ more)).over outer "REDIS_URL".toList = some url := by
    refine Env.over_merge (fun update hupdate heq => hmore update hupdate (heq ▸ by decide)) ?_
    rw [hupdates]
    exact hwritten.1
  rw [unloadEnv, hgiven, hblank "REDIS_HOST".toList (by decide) (by decide),
    hblank "REDIS_PORT".toList (by decide) (by decide),
    hblank "REDIS_DB".toList (by decide) (by decide),
    hblank "REDIS_PASSWORD".toList (by decide) (by decide)]
  rfl

theorem unloadEnv_parts (hurl : given c.url = none) (hmore : ∀ update ∈ more, update.1 ∉ keys) :
    unloadEnv ((env.merge (c.updates ++ more)).over outer) =
      ⟨c.host, c.port, if c.db = [] then "0".toList else c.db, some ((given c.password).getD []),
        some []⟩ := by
  have hread (k v : Str) (hk : (k, v) ∈ c.toEnvDict) :
      (env.merge (c.updates ++ more)).over outer k = some v := by
    have hkey : k ∈ keys := List.mem_map_of_mem (f := Prod.fst) hk
    refine Env.over_merge (fun update hupdate heq => hmore update hupdate (heq ▸ hkey)) ?_
    rw [updates, hurl]
    exact Env.merge_of_mem c.nodup_keys hk
  rw [unloadEnv, hread "REDIS_HOST".toList c.host (by simp [toEnvDict]),
    hread "REDIS_PORT".toList c.port (by simp [toEnvDict]),
    hread "REDIS_DB".toList (if c.db = [] then "0".toList else c.db) (by simp [toEnvDict]),
    hread "REDIS_PASSWORD".toList ((given c.password).getD []) (by simp [toEnvDict]),
    hread "REDIS_URL".toList [] (by simp [toEnvDict])]
  rfl

/-- The parts that name a place. -/
theorem place_congr [Decimals] {c' : RedisConfig}
    (h : (urls.parse c'.getUrl).map (fun u => (u.host, u.port, u.db.getD 0)) =
      (urls.parse c.getUrl).map fun u => (u.host, u.port, u.db.getD 0)) :
    c'.place urls = c.place urls := by
  have hparts (c : RedisConfig) : c.place urls =
      ((urls.parse c.getUrl).map fun u => (u.host, u.port, u.db.getD 0)).bind fun u =>
        (match given u.2.1 with
          | none => some 6379
          | some port => toInt port).map fun port => ⟨u.1, port, u.2.2⟩ := by
    rw [place, Option.bind_map]
    rfl
  rw [hparts, hparts, h]

/-- **The place runtime.env names is the configuration's**, just when the 0 written for a blank
number makes no difference. -/
theorem place_unloadEnv_iff [Decimals] (hmore : ∀ update ∈ more, update.1 ∉ keys) :
    (unloadEnv ((env.merge (c.updates ++ more)).over outer)).place urls = c.place urls ↔
      c.Numbered urls := by
  cases hurl : given c.url with
  | some url =>
    have hgiven : given (some url) = some url := (given_eq_some hurl).1 ▸ hurl
    refine iff_of_true ?_ fun hnone => by
      rw [hurl] at hnone
      cases hnone
    rw [unloadEnv_url hurl hmore, place, place, getUrl, getUrl, hgiven, hurl]
  | none =>
    have hserver (db : Str) : getUrl ⟨c.host, c.port, db, some ((given c.password).getD []),
        some []⟩ = getUrl { c with db := db } := by
      simp only [getUrl, server, hurl, given_some_nil, given_getD_nil]
    rw [unloadEnv_parts hurl hmore, place, hserver, Numbered]
    by_cases hdb : c.db = []
    · rw [if_pos hdb]
      exact ⟨fun h _ _ => h, fun h => h hurl hdb⟩
    · rw [if_neg hdb]
      exact iff_of_true rfl fun _ hnone => absurd hnone hdb

theorem not_endsServer_quote (text : Str) : (quote text).any endsServer = false := by
  have hdigit : ∀ n : Fin 16, endsServer (hexDigit n) = false := by decide
  have hhex (n : Nat) (h : n < 16) : endsServer (hexDigit n) = false := hdigit ⟨n, h⟩
  rw [List.any_eq_false]
  intro c hc
  obtain ⟨d, -, hd⟩ := List.mem_flatMap.mp hc
  rw [Bool.not_eq_true]
  split at hd
  · next hplain =>
    obtain rfl := List.mem_singleton.mp hd
    by_contra hends
    rw [Bool.not_eq_false] at hends
    simp only [endsServer, Bool.or_eq_true, decide_eq_true_eq] at hends
    rcases hends with (rfl | rfl) | rfl <;> revert hplain <;> decide
  · obtain ⟨b, -, hb⟩ := List.mem_flatMap.mp hd
    have hlt := b.toNat_lt
    simp only [List.mem_cons, List.not_mem_nil, or_false] at hb
    rcases hb with rfl | rfl | rfl
    · decide
    · exact hhex _ (by omega)
    · exact hhex _ (Nat.mod_lt _ (by decide))

/-- A plain host and port bring no path along. -/
theorem numbered_of_plain [Decimals] (hhost : c.host.any endsServer = false)
    (hport : c.port.any endsServer = false) : c.Numbered urls := by
  intro hurl hdb
  have hserver : c.server.any endsServer = false := by
    rw [server]
    split
    · simp [hhost, hport, not_endsServer_quote, endsServer]
    · simp [hhost, hport, endsServer]
  refine place_congr ?_
  simp only [getUrl, hurl, hdb]
  exact (urls.root c.server hserver).symm

end RedisConfig
end Services
end NetRollout

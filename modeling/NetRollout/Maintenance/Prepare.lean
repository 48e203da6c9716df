import NetRollout.Library.SqlText

/-!
# The SQL that prepares a target

`preparation_sql` of `src/db/move.py`: the script that a DBA runs for a move, with the names and
passwords it is given in quotes (`_ident`, `_literal`).

`tokens_preparation_sql` is that the script is read as the statements it means whatever the names
and passwords hold, so that none of them ends its quotes.  It asks one thing of them: the name of
the database stands in a command of `psql` too, which ends with its line.
-/

namespace NetRollout
namespace Maintenance
namespace Prepare

open PyText (Str unlines)
open SqlText

/-- `_ident`. -/
def ident (name : Str) : Str := quoted '"' name

/-- `_literal`. -/
def literal (value : Str) : Str := quoted '\'' value

/-- `GRAFANA_ROLE`. -/
def GRAFANA_ROLE : Str := "grafana_reader".toList

/-- `Plan`. -/
structure Plan where
  database : Str := "netrollout".toList
  schema : Str := "public".toList
  login : Str := "netrollout".toList
  password : Str
  grafana_password : Option Str := none

namespace Plan

variable (plan : Plan)

/-- `plan.schema or "public"`. -/
def schemaName : Str := if plan.schema = [] then "public".toList else plan.schema

/-- The password of Grafana's login, when it is known. -/
def grafana : Option Str := plan.grafana_password.filter fun p => !p.isEmpty

/-- The lines of `preparation_sql`. -/
def lines : List Str :=
  let db := ident plan.database
  let login := ident plan.login
  let schema := plan.schemaName
  ["-- NetRollout - an example to adapt to your conventions; ".toList ++
      "run as a PostgreSQL administrator (e.g. psql)".toList,
    "CREATE ROLE ".toList ++ (login ++ (" LOGIN PASSWORD ".toList ++
      (literal plan.password ++ [';'])))] ++
  (match plan.grafana with
    | some p => ["CREATE ROLE ".toList ++ (GRAFANA_ROLE ++ (" LOGIN PASSWORD ".toList ++
        (literal p ++ [';'])))]
    | none => ["-- CREATE ROLE ".toList ++ (GRAFANA_ROLE ++
        " LOGIN PASSWORD '<Grafana's database password>';".toList)]) ++
  ["CREATE DATABASE ".toList ++ (db ++ (" OWNER ".toList ++ (login ++ [';']))),
    "\\connect ".toList ++ db] ++
  (if schema = "public".toList then
    ["ALTER SCHEMA public OWNER TO ".toList ++ (login ++ [';'])]
  else
    ["CREATE SCHEMA ".toList ++ (ident schema ++
      (" AUTHORIZATION ".toList ++ (login ++ [';'])))]) ++
  ["GRANT USAGE ON SCHEMA ".toList ++ (ident schema ++
    (" TO ".toList ++ (GRAFANA_ROLE ++ [';'])))] ++
  (if schema = "public".toList then []
  else
    ["ALTER ROLE ".toList ++ (GRAFANA_ROLE ++ (" IN DATABASE ".toList ++ (db ++
      (" SET search_path = ".toList ++ (ident schema ++ [';'])))))])

end Plan

/-- `preparation_sql`: the lines, each ended. -/
def preparation_sql (plan : Plan) : Str := unlines plan.lines

/-! ## The statements -/

/-- Words with a blank between two. -/
def words (s : Str) : List Token := (s.splitOn ' ').map .word

/-- What the script means, a list of tokens for each of its lines. -/
def Plan.statements (plan : Plan) : List (List Token) :=
  [[], words "CREATE ROLE".toList ++ (.name plan.login :: (words "LOGIN PASSWORD".toList ++
      [.string plan.password, .symbol ';']))] ++
  (match plan.grafana with
    | some p => [words "CREATE ROLE grafana_reader LOGIN PASSWORD".toList ++
        [.string p, .symbol ';']]
    | none => [[]]) ++
  [words "CREATE DATABASE".toList ++ (.name plan.database :: (words "OWNER".toList ++
      [.name plan.login, .symbol ';'])),
    [.command ("connect ".toList ++ ident plan.database)]] ++
  (if plan.schemaName = "public".toList then
    [words "ALTER SCHEMA public OWNER TO".toList ++ [.name plan.login, .symbol ';']]
  else
    [words "CREATE SCHEMA".toList ++ (.name plan.schemaName :: (words "AUTHORIZATION".toList ++
      [.name plan.login, .symbol ';']))]) ++
  [words "GRANT USAGE ON SCHEMA".toList ++ (.name plan.schemaName ::
      (words "TO grafana_reader".toList ++ [.symbol ';']))] ++
  (if plan.schemaName = "public".toList then []
  else
    [words "ALTER ROLE grafana_reader IN DATABASE".toList ++ (.name plan.database ::
      (words "SET search_path".toList ++ [.symbol '=', .name plan.schemaName, .symbol ';']))])

/-- A line and its tokens. -/
def Line (line : Str) (ts : List Token) : Prop := Reads .between (line ++ ['\n']) .between ts

theorem line_end : Line [';'] [.symbol ';'] := by
  unfold Line
  decide

/-- A text in quotes, after words and before the rest of the line. -/
theorem Line.quote {line x : Str} {ts w : List Token} {q c : Char} (h : Line line ts)
    (hx : Reads .between x .between w) (hq : q = '"' ∨ q = '\'') (s : Str)
    (hhead : line.head? = some c) (hc : c ≠ q) :
    Line (x ++ (quoted q s ++ line)) (w ++ ofQuoted q s :: ts) := by
  have hhead' : (line ++ ['\n']).head? = some c := by
    rw [List.head?_append, hhead, Option.some_or]
  simp only [Line, List.append_assoc]
  exact hx.append (Reads.quote h hq s hhead' hc)

section Lines

variable (a b : Str)

theorem line_create_role :
    Line ("CREATE ROLE ".toList ++ (ident a ++ (" LOGIN PASSWORD ".toList ++ (literal b ++ [';']))))
      (words "CREATE ROLE".toList ++ (.name a :: (words "LOGIN PASSWORD".toList ++
        [.string b, .symbol ';']))) :=
  (line_end.quote (by decide +kernel) (.inr rfl) b rfl (by decide +kernel)).quote
    (by decide +kernel) (.inl rfl) a
    (c := ' ') rfl (by decide +kernel)

theorem line_create_reader :
    Line ("CREATE ROLE ".toList ++ (GRAFANA_ROLE ++ (" LOGIN PASSWORD ".toList ++
        (literal a ++ [';']))))
      (words "CREATE ROLE grafana_reader LOGIN PASSWORD".toList ++ [.string a, .symbol ';']) :=
  line_end.quote (x := "CREATE ROLE grafana_reader LOGIN PASSWORD ".toList) (by decide +kernel)
    (.inr rfl) a rfl (by decide +kernel)

theorem line_create_database :
    Line ("CREATE DATABASE ".toList ++ (ident a ++ (" OWNER ".toList ++ (ident b ++ [';']))))
      (words "CREATE DATABASE".toList ++ (.name a :: (words "OWNER".toList ++
        [.name b, .symbol ';']))) :=
  (line_end.quote (by decide +kernel) (.inl rfl) b rfl (by decide +kernel)).quote
    (by decide +kernel) (.inl rfl) a
    (c := ' ') rfl (by decide +kernel)

theorem line_connect (h : '\n' ∉ a) :
    Line ("\\connect ".toList ++ ident a) [.command ("connect ".toList ++ ident a)] := by
  have hplain : '\n' ∉ "connect ".toList ++ ident a := by
    rw [List.mem_append]
    rintro (hmem | hmem)
    · exact absurd hmem (by decide +kernel)
    · exact (mem_quoted hmem).elim (by decide +kernel) h
  exact (Reads.silent (by decide +kernel : Reads .between ['\\'] (.command []) [])
    (reads_command [] _ hplain)).append (by simp [Reads, run, feed])

theorem line_alter_schema :
    Line ("ALTER SCHEMA public OWNER TO ".toList ++ (ident a ++ [';']))
      (words "ALTER SCHEMA public OWNER TO".toList ++ [.name a, .symbol ';']) :=
  line_end.quote (by decide +kernel) (.inl rfl) a rfl (by decide +kernel)

theorem line_create_schema :
    Line ("CREATE SCHEMA ".toList ++ (ident a ++ (" AUTHORIZATION ".toList ++ (ident b ++ [';']))))
      (words "CREATE SCHEMA".toList ++ (.name a :: (words "AUTHORIZATION".toList ++
        [.name b, .symbol ';']))) :=
  (line_end.quote (by decide +kernel) (.inl rfl) b rfl (by decide +kernel)).quote
    (by decide +kernel) (.inl rfl) a
    (c := ' ') rfl (by decide +kernel)

theorem line_grant :
    Line ("GRANT USAGE ON SCHEMA ".toList ++ (ident a ++ (" TO ".toList ++
        (GRAFANA_ROLE ++ [';']))))
      (words "GRANT USAGE ON SCHEMA".toList ++ (.name a ::
        (words "TO grafana_reader".toList ++ [.symbol ';']))) := by
  have hend : Line (" TO ".toList ++ (GRAFANA_ROLE ++ [';']))
      (words "TO grafana_reader".toList ++ [.symbol ';']) := by
    unfold Line
    decide
  exact hend.quote (by decide +kernel) (.inl rfl) a (c := ' ') rfl (by decide +kernel)

theorem line_alter_role :
    Line ("ALTER ROLE ".toList ++ (GRAFANA_ROLE ++ (" IN DATABASE ".toList ++ (ident a ++
        (" SET search_path = ".toList ++ (ident b ++ [';']))))))
      (words "ALTER ROLE grafana_reader IN DATABASE".toList ++ (.name a ::
        (words "SET search_path".toList ++ [.symbol '=', .name b, .symbol ';']))) := by
  have hpath := line_end.quote (x := " SET search_path = ".toList)
    (w := words "SET search_path".toList ++ [.symbol '=']) (by decide +kernel) (.inl rfl) b rfl
    (by decide +kernel)
  exact hpath.quote (x := "ALTER ROLE grafana_reader IN DATABASE ".toList)
    (w := words "ALTER ROLE grafana_reader IN DATABASE".toList) (by decide +kernel) (.inl rfl) a
    (c := ' ') rfl (by decide +kernel)

end Lines

theorem line_comment : Line ("-- NetRollout - an example to adapt to your conventions; ".toList ++
    "run as a PostgreSQL administrator (e.g. psql)".toList) [] := by
  unfold Line
  decide +kernel

theorem line_reader_unknown : Line ("-- CREATE ROLE ".toList ++ (GRAFANA_ROLE ++
    " LOGIN PASSWORD '<Grafana's database password>';".toList)) [] := by
  unfold Line
  decide +kernel

/-- Each line is read as its statement. -/
theorem lines_read (plan : Plan) (h : '\n' ∉ plan.database) :
    List.Forall₂ Line plan.lines plan.statements := by
  have hcomment := line_comment
  have hrole := line_create_role plan.login plan.password
  have hdatabase := line_create_database plan.database plan.login
  have hconnect := line_connect plan.database h
  have hgrant := line_grant plan.schemaName
  unfold Plan.lines Plan.statements
  by_cases hschema : plan.schemaName = "public".toList
  · simp only [if_pos hschema]
    cases plan.grafana with
    | none =>
      exact .cons hcomment (.cons hrole (.cons line_reader_unknown (.cons hdatabase (.cons hconnect
        (.cons (line_alter_schema plan.login) (.cons hgrant .nil))))))
    | some p =>
      exact .cons hcomment (.cons hrole (.cons (line_create_reader p) (.cons hdatabase
        (.cons hconnect (.cons (line_alter_schema plan.login) (.cons hgrant .nil))))))
  · have hschema' := line_create_schema plan.schemaName plan.login
    have hreader := line_alter_role plan.database plan.schemaName
    simp only [if_neg hschema]
    cases plan.grafana with
    | none =>
      exact .cons hcomment (.cons hrole (.cons line_reader_unknown (.cons hdatabase (.cons hconnect
        (.cons hschema' (.cons hgrant (.cons hreader .nil)))))))
    | some p =>
      exact .cons hcomment (.cons hrole (.cons (line_create_reader p) (.cons hdatabase
        (.cons hconnect (.cons hschema' (.cons hgrant (.cons hreader .nil)))))))

end Prepare
end Maintenance
end NetRollout

import NetRollout.Library.PyText

/-!
# Comma-separated values

Python's `csv` in its default dialect: fields apart by commas, a field in quotes where it has to
be, and a quote in it doubled.

`row` writes a row as `csv.writer` does (`QUOTE_MINIMAL`), and `read` is `csv.reader`, a machine
that is fed the characters of the lines and the end of each.  A line ends at `\n`; what of it is
in a quoted field goes on with the next line.  A field of more characters than the reader's
limit is an error.

`read_written` is that the machine reads back the rows written, whatever their fields hold.
-/

namespace NetRollout
namespace Csv

open PyText (Str)

/-! ## The writer -/

/-- A character a field is quoted for. -/
def isSpecial (c : Char) : Bool := c == ',' || c == '"' || c == '\r' || c == '\n'

/-- A quote is doubled. -/
def doubled (c : Char) : Str := if c = '"' then ['"', '"'] else [c]

/-- A field in quotes. -/
def quoted (field : Str) : Str := '"' :: field.flatMap doubled ++ ['"']

/-- A field as it is written. -/
def written (field : Str) : Str := if field.any isSpecial then quoted field else field

/-- The fields of a row, a comma between two. -/
def joined : List Str → Str
  | [] => []
  | [field] => written field
  | field :: rest => written field ++ ',' :: joined rest

/-- `writerow`: a row of one empty field is told from a row of none by its quotes. -/
def row (fields : List Str) : Str :=
  (if fields = [[]] then quoted [] else joined fields) ++ ['\r', '\n']

/-- `writerows`. -/
def table (rows : List (List Str)) : Str := rows.flatMap row

/-! ## The reader -/

/-- `ParserState`. -/
inductive Mode where
  | startRecord
  | startField
  | inField
  | inQuotedField
  | quoteInQuotedField
  | eatCrnl
  deriving DecidableEq

/-- The reader: the field and the row it is at, and the rows it has read. -/
structure Reader where
  mode : Mode
  field : Str
  fields : List Str
  rows : List (List Str)

namespace Reader

/-- Before the first line. -/
def start : Reader := ⟨.startRecord, [], [], []⟩

/-- `parse_save_field`. -/
def saved (r : Reader) (mode : Mode) : Reader :=
  { r with mode := mode, field := [], fields := r.fields ++ [r.field] }

/-- `parse_add_char`. -/
def added (limit : Nat) (r : Reader) (mode : Mode) (c : Char) : Option Reader :=
  if r.field.length < limit then some { r with mode := mode, field := r.field ++ [c] } else none

/-- `parse_process_char` of a character. -/
def char (limit : Nat) (r : Reader) (c : Char) : Option Reader :=
  match r.mode with
  | .startRecord | .startField =>
    if c = '\n' ∨ c = '\r' then
      some (if r.mode = .startRecord then { r with mode := .eatCrnl } else r.saved .eatCrnl)
    else if c = '"' then some { r with mode := .inQuotedField }
    else if c = ',' then some (r.saved .startField)
    else r.added limit .inField c
  | .inField =>
    if c = '\n' ∨ c = '\r' then some (r.saved .eatCrnl)
    else if c = ',' then some (r.saved .startField)
    else r.added limit .inField c
  | .inQuotedField =>
    if c = '"' then some { r with mode := .quoteInQuotedField }
    else r.added limit .inQuotedField c
  | .quoteInQuotedField =>
    if c = '"' then r.added limit .inQuotedField c
    else if c = ',' then some (r.saved .startField)
    else if c = '\n' ∨ c = '\r' then some (r.saved .eatCrnl)
    else r.added limit .inField c
  | .eatCrnl => if c = '\n' ∨ c = '\r' then some r else none

/-- A row is read. -/
def finished (r : Reader) : Reader := ⟨.startRecord, [], [], r.rows ++ [r.fields]⟩

/-- `parse_process_char` of a line's end: the row is read, unless a quoted field goes on. -/
def lineEnd (r : Reader) : Reader :=
  match r.mode with
  | .startRecord | .eatCrnl => r.finished
  | .startField | .inField | .quoteInQuotedField => (r.saved .startRecord).finished
  | .inQuotedField => r

/-- A character of a line, and the line's end after its last one. -/
def next (limit : Nat) (r : Reader) (c : Char) : Option Reader :=
  (r.char limit c).map fun r => if c = '\n' then r.lineEnd else r

/-- After the last line: a quoted field that was not closed is one. -/
def stop (r : Reader) : List (List Str) :=
  if r.field ≠ [] ∨ r.mode = .inQuotedField then r.rows ++ [r.fields ++ [r.field]] else r.rows

/-- The characters of a text, one by one. -/
def run (limit : Nat) (r : Reader) (text : Str) : Option Reader := text.foldlM (next limit) r

end Reader

/-- `csv.reader`: the rows of a text, the empty ones among them; none where it raises. -/
def read (limit : Nat) (text : Str) : Option (List (List Str)) :=
  (Reader.start.run limit text).map fun r =>
    (if text.getLast?.all (· = '\n') then r else r.lineEnd).stop

/-! ## What is written is read back -/

namespace Reader

variable {limit : Nat}

theorem run_append (r : Reader) (a b : Str) :
    r.run limit (a ++ b) = (r.run limit a).bind fun r => r.run limit b :=
  List.foldlM_append ..

theorem run_cons (r : Reader) (c : Char) (text : Str) :
    r.run limit (c :: text) = (r.next limit c).bind fun r => r.run limit text :=
  List.foldlM_cons ..

@[simp] theorem run_nil (r : Reader) : r.run limit [] = some r := rfl

theorem run_singleton (r : Reader) (c : Char) : r.run limit [c] = r.next limit c := by
  rw [run_cons]
  cases r.next limit c <;> rfl

/-- Within a line a character does what the machine does of it. -/
theorem next_of_ne (r : Reader) {c : Char} (h : c ≠ '\n') : r.next limit c = r.char limit c := by
  simp only [next, if_neg h]
  exact Option.map_id' ..

theorem added_of_lt {r : Reader} (h : r.field.length < limit) (mode : Mode) (c : Char) :
    r.added limit mode c = some { r with mode := mode, field := r.field ++ [c] } :=
  if_pos h

/-- A reader before a field. -/
def AtField (r : Reader) : Prop :=
  (r.mode = .startRecord ∨ r.mode = .startField) ∧ r.field = []

/-- Characters that are not special are the field's. -/
theorem run_plain (r : Reader) {field : Str} (hmode : r.mode = .inField)
    (hplain : ∀ c ∈ field, isSpecial c = false) (hlimit : (r.field ++ field).length ≤ limit) :
    r.run limit field = some { r with field := r.field ++ field } := by
  induction field generalizing r with
  | nil => simp
  | cons c field ih =>
    have hc := hplain c (List.mem_cons_self ..)
    simp only [isSpecial, Bool.or_eq_false_iff, beq_eq_false_iff_ne] at hc
    obtain ⟨⟨⟨hcomma, -⟩, hcr⟩, hlf⟩ := hc
    have hroom : r.field.length < limit := by
      simp only [List.length_append, List.length_cons] at hlimit
      omega
    have hchar : r.next limit c = some { r with field := r.field ++ [c] } := by
      rw [next_of_ne r hlf]
      simp only [char, hmode, hlf, hcr, hcomma, or_self, if_false, added_of_lt hroom]
    rw [run_cons, hchar, Option.bind_some,
      ih { r with field := r.field ++ [c] } hmode
        (fun d hd => hplain d (List.mem_cons_of_mem _ hd)) (by simpa using hlimit)]
    simp only [List.append_assoc, List.singleton_append]

/-- A doubled quote is a quote, and any other character is itself, line ends among them. -/
theorem run_doubled (r : Reader) (c : Char) (hmode : r.mode = .inQuotedField)
    (hroom : r.field.length < limit) :
    r.run limit (doubled c) = some { r with field := r.field ++ [c] } := by
  by_cases hquote : c = '"'
  · subst hquote
    show r.run limit ['"', '"'] = _
    have hfirst : r.next limit '"' = some { r with mode := .quoteInQuotedField } := by
      rw [next_of_ne r (by decide)]
      simp only [char, hmode, if_true]
    have hsecond := added_of_lt (r := { r with mode := .quoteInQuotedField }) hroom
      .inQuotedField '"'
    rw [run_cons, hfirst, Option.bind_some, run_singleton, next_of_ne _ (by decide)]
    simp only [char, if_true, hsecond]
    rw [← hmode]
  · have hchar : r.char limit c = some { r with field := r.field ++ [c] } := by
      simp only [char, hmode, if_neg hquote, added_of_lt hroom]
    rw [doubled, if_neg hquote, run_singleton, next, hchar, Option.map_some]
    by_cases hlf : c = '\n'
    · simp only [if_pos hlf, lineEnd, hmode]
    · simp only [if_neg hlf]

/-- The inside of a quoted field is the field's. -/
theorem run_quoted (r : Reader) {field : Str} (hmode : r.mode = .inQuotedField)
    (hlimit : (r.field ++ field).length ≤ limit) :
    r.run limit (field.flatMap doubled) = some { r with field := r.field ++ field } := by
  induction field generalizing r with
  | nil => simp
  | cons c field ih =>
    have hroom : r.field.length < limit := by
      simp only [List.length_append, List.length_cons] at hlimit
      omega
    rw [List.flatMap_cons, run_append, run_doubled r c hmode hroom, Option.bind_some,
      ih { r with field := r.field ++ [c] } hmode (by simpa using hlimit)]
    simp only [List.append_assoc, List.singleton_append]

/-- A reader after a field's last character. -/
structure AfterField (r : Reader) (field : Str) (t : Reader) : Prop where
  field_eq : t.field = field
  fields_eq : t.fields = r.fields
  rows_eq : t.rows = r.rows
  mode_eq : t.mode = .inField ∨ t.mode = .quoteInQuotedField ∨ t = r

/-- A quoted field is read to its end. -/
theorem run_written_quoted {r : Reader} (hat : r.AtField) {field : Str}
    (hlimit : field.length ≤ limit) :
    r.run limit (quoted field) =
      some { r with mode := .quoteInQuotedField, field := field } := by
  obtain ⟨hmode, hfield⟩ := hat
  have hopen : r.next limit '"' = some { r with mode := .inQuotedField } := by
    rw [next_of_ne r (by decide)]
    rcases hmode with hmode | hmode <;>
      simp only [char, hmode, if_true, if_false, Char.reduceEq, or_self]
  have hclose : ∀ t : Reader, t.mode = .inQuotedField →
      t.next limit '"' = some { t with mode := .quoteInQuotedField } := by
    intro t ht
    rw [next_of_ne t (by decide)]
    simp only [char, ht, if_true]
  rw [quoted, List.cons_append, run_cons, hopen, Option.bind_some, run_append,
    run_quoted _ rfl (by simpa [hfield] using hlimit), Option.bind_some, run_singleton,
    hclose _ rfl]
  simp only [hfield, List.nil_append]

/-- A field is read to its end. -/
theorem run_written {r : Reader} (hat : r.AtField) {field : Str} (hlimit : field.length ≤ limit) :
    ∃ t, r.run limit (written field) = some t ∧ r.AfterField field t := by
  obtain ⟨hmode, hfield⟩ := id hat
  by_cases hspecial : field.any isSpecial = true
  · rw [written, if_pos hspecial, run_written_quoted hat hlimit]
    exact ⟨_, rfl, rfl, rfl, rfl, Or.inr (Or.inl rfl)⟩
  · rw [written, if_neg hspecial]
    cases field with
    | nil => exact ⟨r, rfl, hfield, rfl, rfl, Or.inr (Or.inr rfl)⟩
    | cons c field =>
      have hplain : ∀ d ∈ c :: field, isSpecial d = false := by
        simpa using hspecial
      have hc := hplain c (List.mem_cons_self ..)
      simp only [isSpecial, Bool.or_eq_false_iff, beq_eq_false_iff_ne] at hc
      obtain ⟨⟨⟨hcomma, hquote⟩, hcr⟩, hlf⟩ := hc
      have hroom : r.field.length < limit := by
        rw [hfield]
        exact Nat.lt_of_lt_of_le (Nat.succ_pos _) hlimit
      have hchar : r.next limit c = some { r with mode := .inField, field := [c] } := by
        rw [next_of_ne r hlf]
        rcases hmode with hmode | hmode <;>
          simp only [char, hmode, hlf, hcr, hcomma, hquote, or_self, if_false,
            added_of_lt hroom, hfield, List.nil_append]
      rw [run_cons, hchar, Option.bind_some,
        run_plain _ rfl (fun d hd => hplain d (List.mem_cons_of_mem _ hd)) (by simpa using hlimit)]
      exact ⟨_, rfl, rfl, rfl, rfl, Or.inl rfl⟩

/-- The comma after a field saves it. -/
theorem next_comma {r t : Reader} (hat : r.AtField) {field : Str} (h : r.AfterField field t) :
    t.next limit ',' = some ⟨.startField, [], r.fields ++ [field], r.rows⟩ := by
  rw [next_of_ne t (by decide)]
  have hsaved : t.saved .startField = ⟨.startField, [], r.fields ++ [field], r.rows⟩ := by
    rw [saved, h.field_eq, h.fields_eq, h.rows_eq]
  rcases h.mode_eq with hmode | hmode | rfl
  · simp only [char, hmode, if_true, if_false, Char.reduceEq, or_self, hsaved]
  · simp only [char, hmode, if_true, if_false, Char.reduceEq, hsaved]
  · rcases hat.1 with hmode | hmode <;>
      simp only [char, hmode, if_true, if_false, Char.reduceEq, or_self, hsaved]

/-- The end of a row after a field saves it, and the row is read. -/
theorem run_rowEnd {r t : Reader} {field : Str} (h : r.AfterField field t)
    (hmode : t.mode ≠ .startRecord) (hat : r.AtField) :
    t.run limit ['\r', '\n'] = some ⟨.startRecord, [], [], r.rows ++ [r.fields ++ [field]]⟩ := by
  have hsaved : t.saved .eatCrnl = ⟨.eatCrnl, [], r.fields ++ [field], r.rows⟩ := by
    rw [saved, h.field_eq, h.fields_eq, h.rows_eq]
  have hcr : t.next limit '\r' = some (t.saved .eatCrnl) := by
    rw [next_of_ne t (by decide)]
    rcases h.mode_eq with hm | hm | rfl
    · simp only [char, hm, or_true, if_true]
    · simp only [char, hm, Char.reduceEq, if_false, or_true, if_true]
    · have hm := hat.1.resolve_left hmode
      simp only [char, hm, reduceCtorEq, or_true, if_true, if_false]
  rw [run_cons, hcr, Option.bind_some, run_singleton, hsaved]
  rfl

/-- The fields of a row are read, from the first field on. -/
theorem run_joined {r : Reader} (hat : r.AtField) {fields : List Str} (hne : fields ≠ [])
    (hsingle : r.mode = .startRecord → fields ≠ [[]])
    (hlimit : ∀ field ∈ fields, field.length ≤ limit) :
    r.run limit (joined fields ++ ['\r', '\n']) =
      some ⟨.startRecord, [], [], r.rows ++ [r.fields ++ fields]⟩ := by
  induction fields generalizing r with
  | nil => exact absurd rfl hne
  | cons field rest ih =>
    obtain ⟨t, hrun, hafter⟩ := run_written hat (hlimit field (List.mem_cons_self ..))
    cases rest with
    | nil =>
      have hmode : t.mode ≠ .startRecord := by
        rcases hafter.mode_eq with hm | hm | rfl
        · simp [hm]
        · simp [hm]
        · intro hm
          refine hsingle hm ?_
          rw [← hafter.field_eq, hat.2]
      rw [joined, run_append, hrun, Option.bind_some, run_rowEnd hafter hmode hat]
    | cons next rest =>
      have htail := ih (r := ⟨.startField, [], r.fields ++ [field], r.rows⟩) ⟨Or.inr rfl, rfl⟩
        (List.cons_ne_nil _ _) (fun hm => by cases hm)
        (fun f hf => hlimit f (List.mem_cons_of_mem _ hf))
      rw [joined, List.append_assoc, run_append, hrun, Option.bind_some, List.cons_append,
        run_cons, next_comma hat hafter, Option.bind_some, htail]
      · simp only [List.append_assoc, List.singleton_append]
      · exact List.cons_ne_nil _ _

/-- Between two rows. -/
def between (rows : List (List Str)) : Reader := ⟨.startRecord, [], [], rows⟩

theorem atField_between (rows : List (List Str)) : (between rows).AtField := ⟨Or.inl rfl, rfl⟩

/-- A row is read back. -/
theorem run_row (rows : List (List Str)) {fields : List Str}
    (hlimit : ∀ field ∈ fields, field.length ≤ limit) :
    (between rows).run limit (row fields) = some (between (rows ++ [fields])) := by
  by_cases hempty : fields = []
  · subst hempty
    rfl
  · by_cases hsingle : fields = [[]]
    · subst hsingle
      have hquoted : (between rows).run limit (quoted []) = _ :=
        run_written_quoted (atField_between rows) (Nat.zero_le _)
      rw [row, if_pos rfl, run_append, hquoted, Option.bind_some]
      rfl
    · rw [row, if_neg hsingle,
        run_joined (atField_between rows) hempty (fun _ => hsingle) hlimit]
      rfl

/-- Row after row is read back. -/
theorem run_table (before : List (List Str)) {rows : List (List Str)}
    (hlimit : ∀ fields ∈ rows, ∀ field ∈ fields, field.length ≤ limit) :
    (between before).run limit (table rows) = some (between (before ++ rows)) := by
  induction rows generalizing before with
  | nil => simp [table]
  | cons fields rows ih =>
    have htail := ih (before ++ [fields]) fun f hf => hlimit f (List.mem_cons_of_mem _ hf)
    rw [table, List.flatMap_cons, run_append,
      run_row before (hlimit fields (List.mem_cons_self ..)), Option.bind_some]
    rw [table] at htail
    rw [htail, List.append_assoc, List.singleton_append]

end Reader

theorem getLast?_row (fields : List Str) : (row fields).getLast? = some '\n' := by
  rw [row, List.getLast?_append]
  rfl

theorem getLast?_table (rows : List (List Str)) :
    (table rows).getLast?.all (· = '\n') = true := by
  rcases List.eq_nil_or_concat rows with rfl | ⟨rows, fields, rfl⟩
  · rfl
  · rw [List.concat_eq_append, table, List.flatMap_append, List.flatMap_singleton,
      List.getLast?_append, getLast?_row]
    rfl

/-- **What is written is read back**, where no field is too long for the reader. -/
theorem read_written {limit : Nat} {rows : List (List Str)}
    (hlimit : ∀ fields ∈ rows, ∀ field ∈ fields, field.length ≤ limit) :
    read limit (table rows) = some rows := by
  have hrun := Reader.run_table [] hlimit
  rw [read, show Reader.start = Reader.between [] from rfl, hrun, Option.map_some,
    if_pos (getLast?_table rows)]
  rfl

example : read 10 (table [["a,b".toList, []], [[]], ["c\nd".toList]]) =
    some [["a,b".toList, []], [[]], ["c\nd".toList]] := by decide

end Csv
end NetRollout

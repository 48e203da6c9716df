import NetRollout.Library.Rows

/-!
# The session store

flask-session over Redis: a request loads the session its cookie names, under a new id
where none is stored, and stores it whole under its own id at its end.  `_generate_sid`
never gives an id twice.
-/

namespace NetRollout
namespace Sessions

abbrev Sid := Nat

/-- What is stored under each id given so far. -/
abbrev Store (α : Type) := Rows α

namespace Store

variable {α : Type} (S : Store α)

def save (sid : Sid) (data : α) : Store α := S.put sid (some data)

def delete (sid : Sid) : Store α := S.put sid none

/-- `_generate_sid`. -/
def generate : Sid × Store α := (S.size, S.add none)

/-- `open_session`. -/
def openSession (cookie : Option Sid) : Sid × Option α × Store α :=
  match cookie.bind fun sid => (S.get? sid).map fun data => (sid, data) with
  | some (sid, data) => (sid, some data, S)
  | none => ((generate S).1, none, (generate S).2)

/-- `regenerate`.  (It leaves an empty session alone, whose id is a new one already.) -/
def regenerate (sid : Sid) : Sid × Store α := generate (delete S sid)

variable {S} {sid i : Sid} {data d : α}

/-- What is found after a saving: what was saved, or what was there. -/
theorem get?_of_save (h : (save S sid data).get? i = some d) :
    (i = sid ∧ d = data) ∨ S.get? i = some d := by
  rcases Rows.get?_of_put h with ⟨hi, h⟩ | ⟨-, h⟩
  · exact .inl ⟨hi, (Option.some.inj h).symm⟩
  · exact .inr h

theorem get?_of_delete (h : (delete S sid).get? i = some d) : i ≠ sid ∧ S.get? i = some d := by
  rcases Rows.get?_of_put h with ⟨-, h⟩ | h
  · cases h
  · exact h

theorem get?_of_regenerate (h : (regenerate S sid).2.get? i = some d) :
    i ≠ sid ∧ S.get? i = some d := by
  rw [regenerate, generate, Rows.get?_add_none] at h
  exact get?_of_delete h

/-- A session opened is the one its cookie names, or none where that is not stored. -/
theorem openSession_cases (S : Store α) (cookie : Option Sid) :
    (∃ sid data, cookie = some sid ∧ S.get? sid = some data ∧
        openSession S cookie = (sid, some data, S)) ∨
      (∀ sid, cookie = some sid → S.get? sid = none) ∧
        openSession S cookie = (S.size, none, S.add none) := by
  cases hfound : cookie.bind fun sid => (S.get? sid).map fun data => (sid, data) with
  | none =>
    right
    refine ⟨fun sid hcookie => ?_, by rw [openSession, hfound]; rfl⟩
    rw [hcookie, Option.bind_some] at hfound
    exact Option.map_eq_none_iff.mp hfound
  | some found =>
    left
    obtain ⟨sid, rfl, hdata⟩ := Option.bind_eq_some_iff.mp hfound
    obtain ⟨data, hget, rfl⟩ := Option.map_eq_some_iff.mp hdata
    exact ⟨sid, data, rfl, hget, by rw [openSession, hfound]⟩

end Store
end Sessions
end NetRollout
